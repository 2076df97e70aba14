import Calculator.Proofs.Token.Tiling
/-!
# Scanning is faithful

A fault ends the scan, but it does not change what was read before it: the text cut off at the fault has the same
tokens and no fault (`cut_of_scanFrom`).  So a text with a fault is tiled up to it, and with that the tokens of every
text are accounted for.
-/
namespace Calculator

/-- The characters that a fault is about. -/
def ScanFault.found : ScanFault → Text
  | unexpectedCharacter c => [c]
  | invalidNumber literal => literal

/-! ## Cutting a text at its fault -/

/-- The fault is in the token at hand, and nothing is read before it. -/
structure Broken (pending : Pending) (position : Nat) (rest : Text) (e : ScanError) : Prop where
  ne_between : pending ≠ .between
  position_eq : e.position = pending.startFrom position
  tokens_eq : (scanFrom pending position rest).tokens = []
  found_eq : ∃ more, e.fault.found = pending.text ++ more ∧ more <+: rest

/-- The fault comes `k` characters further on, and the same is read before it if the text ends there. -/
structure CutAt (pending : Pending) (position : Nat) (rest : Text) (e : ScanError) (k : Nat) : Prop where
  position_eq : e.position = (position + k : Nat)
  found_ne : e.fault.found ≠ []
  found_at : e.fault.found <+: rest.drop k
  scan_eq : scanFrom pending position (rest.take k) =
    ⟨(scanFrom pending position rest).tokens ++ [.endMark (position + k : Nat)], none⟩
  absorbed : ∀ c longer, rest.head? = some c → pending.absorb? c = some longer → 0 < k

/-- Every fault is in the token at hand or comes further on. -/
def Cut (pending : Pending) (position : Nat) (rest : Text) : Prop :=
  ∀ e, (scanFrom pending position rest).failure = some e →
    Broken pending position rest e ∨ ∃ k, CutAt pending position rest e k

variable {pending : Pending} {position k : Nat} {c : Char} {rest : Text} {e : ScanError}

/-- A fault further on, seen from one character before it. -/
theorem CutAt.begin {started : List Token} {inside : Pending}
    (hbegin : begin position c rest.head? = .ok (started, inside)) (h : CutAt inside (position + 1) rest e k) :
    CutAt .between position (c :: rest) e (k + 1) where
  position_eq := by rw [h.position_eq, Nat.add_assoc, Nat.add_comm 1]
  found_ne := h.found_ne
  found_at := h.found_at
  scan_eq := by
    -- a point looks one character further, which is not the one at the fault
    have hnext : c = '.' → (rest.take k).head? = rest.head? := by
      rintro rfl
      obtain ⟨rfl, d, hd, hdigit⟩ := begin_point hbegin
      have hk : 0 < k := h.absorbed d (.number .fraction position [d, '.']) hd
        (by simp [Pending.absorb?, LiteralPhase.next?, hdigit])
      obtain ⟨k, rfl⟩ := Nat.exists_eq_succ_of_ne_zero (Nat.ne_of_gt hk)
      cases rest <;> rfl
    rw [List.take_succ_cons, scanFrom_begin ((begin_congr hnext).trans hbegin), h.scan_eq, scanFrom_begin hbegin]
    simp only [Source.prepend, List.append_assoc]
    rw [Nat.add_assoc, Nat.add_comm 1]
  absorbed := nofun

theorem CutAt.here {fault : ScanFault} {found : Text} (hfault : fault.found = c :: found) (hstarts : found <+: rest)
    (htokens : (scanFrom .between position (c :: rest)).tokens = []) :
    CutAt .between position (c :: rest) ⟨fault, position⟩ 0 where
  position_eq := rfl
  found_ne := by rw [hfault]; exact List.cons_ne_nil _ _
  found_at := by rw [hfault]; exact (List.prefix_cons_inj c).2 hstarts
  scan_eq := by rw [htokens]; rfl
  absorbed := nofun

theorem cut_between (ih : ∀ pending : Pending, pending.Holds (position + 1) → Cut pending (position + 1) rest)
    (h : (scanFrom .between position (c :: rest)).failure = some e) : ∃ k, CutAt .between position (c :: rest) e k := by
  rcases begin_cases position c rest.head? with
    ⟨-, hbegin⟩ | ⟨hc, inside, hbegin, hopened⟩ | ⟨-, kind, -, hbegin⟩ | hbegin
  · rw [scanFrom_begin hbegin] at h
    rcases ih .between (Pending.holds_between _) e h with hbroken | ⟨k, hcut⟩
    · exact absurd rfl hbroken.ne_between
    · exact ⟨k + 1, hcut.begin hbegin⟩
  · rw [scanFrom_begin hbegin] at h
    rcases ih inside (hopened.holds hc) e h with hbroken | ⟨k, hcut⟩
    · obtain ⟨more, hfound, hmore⟩ := hbroken.found_eq
      obtain ⟨fault, place⟩ := e
      obtain rfl : place = position := hbroken.position_eq.trans (congrArg _ (hopened.start_eq _))
      rw [hopened.text_eq] at hfound
      refine ⟨0, .here hfound hmore ?_⟩
      rw [scanFrom_begin hbegin, Source.prepend, hbroken.tokens_eq]
      rfl
    · exact ⟨k + 1, hcut.begin hbegin⟩
  · rw [scanFrom_begin hbegin] at h
    rcases ih .between (Pending.holds_between _) e h with hbroken | ⟨k, hcut⟩
    · exact absurd rfl hbroken.ne_between
    · exact ⟨k + 1, hcut.begin hbegin⟩
  · have hscan := @scanFrom_unexpected position c rest _ hbegin
    rw [hscan] at h
    cases h
    exact ⟨0, .here rfl (List.nil_prefix) (by rw [hscan])⟩

theorem cut_absorb {longer : Pending} (habsorb : pending.absorb? c = some longer)
    (ih : Cut longer (position + 1) rest) : Cut pending position (c :: rest) := by
  intro e h
  obtain ⟨htext, -, hne, hstart, -⟩ := Pending.absorb?_eq_some habsorb
  have hscan : ∀ rest : Text, scanFrom pending position (c :: rest) = scanFrom longer (position + 1) rest :=
    fun rest => scanFrom_absorb habsorb
  rw [hscan] at h
  rcases ih e h with hbroken | ⟨k, hcut⟩
  · obtain ⟨more, hfound, hmore⟩ := hbroken.found_eq
    refine .inl ⟨hne, ?_, by rw [hscan]; exact hbroken.tokens_eq, c :: more, ?_, (List.prefix_cons_inj c).2 hmore⟩
    · rw [hbroken.position_eq, hstart _ position]
    · rw [hfound, htext, List.append_assoc]
      rfl
  · refine .inr ⟨k + 1, ?_, hcut.found_ne, hcut.found_at, ?_, fun _ _ _ _ => Nat.succ_pos k⟩
    · rw [hcut.position_eq, Nat.add_assoc, Nat.add_comm 1]
    · rw [List.take_succ_cons, hscan, hscan, hcut.scan_eq, Nat.add_assoc, Nat.add_comm 1]

theorem CutAt.closed {closed : List Token} (habsorb : pending.absorb? c = none) (hclose : pending.close = .ok closed)
    (hrefuse : pending.refuses c = false) (h : CutAt .between position (c :: rest) e k) :
    CutAt pending position (c :: rest) e k where
  position_eq := h.position_eq
  found_ne := h.found_ne
  found_at := h.found_at
  scan_eq := by
    have hscan := h.scan_eq
    rw [scanFrom_closed habsorb hclose hrefuse]
    cases k with
    | zero =>
      have htokens : [] = (scanFrom .between position (c :: rest)).tokens :=
        List.append_cancel_right (congrArg Source.tokens hscan)
      rw [List.take_zero, scanFrom_nil hclose, Source.prepend, ← htokens, List.append_nil]
      rfl
    | succ k =>
      rw [List.take_succ_cons] at hscan ⊢
      rw [scanFrom_closed habsorb hclose hrefuse, hscan]
      simp only [Source.prepend, List.append_assoc]
  absorbed := by
    intro d longer hd hlonger
    cases hd
    rw [habsorb] at hlonger
    cases hlonger

theorem broken_of_close (hscan : scanFrom pending position rest = ⟨[], some e⟩) (hclose : pending.close = .error e) :
    Broken pending position rest e := by
  obtain ⟨hne, hfault, hposition⟩ := Pending.close_eq_error hclose
  refine ⟨hne, hposition position, by rw [hscan], [], ?_, List.nil_prefix⟩
  rw [hfault, List.append_nil]
  rfl

/-- **A fault cuts the text.** -/
theorem cut_of_scanFrom (pending : Pending) (position : Nat) (rest : Text) :
    pending.Holds position → Cut pending position rest := by
  refine @scan_induction (fun pending position rest => pending.Holds position → Cut pending position rest)
    ?_ ?_ ?_ ?_ ?_ ?_ pending position rest
  · intro pending position _ e h
    cases hclose : pending.close with
    | error fault =>
      have hscan : scanFrom pending position [] = ⟨[], some fault⟩ := by rw [scanFrom, hclose]
      rw [hscan] at h
      cases h
      exact .inl (broken_of_close hscan hclose)
    | ok closed =>
      rw [scanFrom_nil hclose] at h
      cases h
  · exact fun position c rest ih _ e h => .inr (cut_between ih h)
  · exact fun pending longer position c rest habsorb ih hp => cut_absorb habsorb (ih (hp.absorb habsorb))
  · intro pending position c rest fault habsorb hclose _ e h
    have hscan := @scanFrom_broken pending position c rest fault habsorb hclose
    rw [hscan] at h
    cases h
    exact .inl (broken_of_close hscan hclose)
  · intro pending position c rest closed habsorb hclose hrefuse _ e h
    have hscan := @scanFrom_refused pending position c rest closed habsorb hclose hrefuse
    rw [hscan] at h
    cases h
    refine .inr ⟨0, rfl, List.cons_ne_nil _ _, (List.prefix_cons_inj c).2 List.nil_prefix, ?_, ?_⟩
    · rw [List.take_zero, hscan, scanFrom_nil hclose]
      rfl
    · intro d longer hd hlonger
      cases hd
      rw [habsorb] at hlonger
      cases hlonger
  · intro pending position c rest closed habsorb hclose hrefuse ih _ e h
    rw [scanFrom_closed habsorb hclose hrefuse] at h
    rcases ih (Pending.holds_between position) e h with hbroken | ⟨k, hcut⟩
    · exact absurd rfl hbroken.ne_between
    · exact .inr ⟨k, hcut.closed habsorb hclose hrefuse⟩

/-! ## Whole texts -/

/-- **What the tokens of a text owe to it.**  Every token stands in the text at its place, and none but an end mark is
empty or holds a blank; no two overlap, they come in order, and a character before one of them that is in none is
blank.  A text without a fault has one end mark, which comes last and at the end, and the tokens and the gaps between
them, which are blank, give the text back.  A fault is about characters that stand at its place, and the text up to
there has the same tokens and no fault. -/
structure Faithful (code : Text) (source : Source) : Prop where
  slice : ∀ t ∈ source.tokens, ∃ p : Nat, t.position = p ∧ (code.drop p).take t.lexeme.length = t.lexeme
  lexeme : ∀ t ∈ source.tokens, t.kind ≠ .exprEnd → t.lexeme ≠ [] ∧ ∀ c ∈ t.lexeme, isBlank c = false
  ordered : source.tokens.Pairwise fun a b => a.stop ≤ b.position
  gaps : ∀ (i : Nat) (c : Char), code[i]? = some c → (∃ t ∈ source.tokens, (i : Int) < t.position) →
    (∀ t ∈ source.tokens, ¬ (t.position ≤ i ∧ (i : Int) < t.stop)) → isBlank c = true
  complete : source.failure = none → ∃ front, source.tokens = front ++ [.endMark code.length] ∧
    (∀ t ∈ front, t.kind ≠ .exprEnd) ∧
    ∃ (gaps : List Text) (last : Text), gaps.length = front.length ∧ (∀ gap ∈ gaps, ∀ c ∈ gap, isBlank c = true) ∧
      (∀ c ∈ last, isBlank c = true) ∧ code = (List.zipWith (fun gap t => gap ++ t.lexeme) gaps front).flatten ++ last
  broken : ∀ e, source.failure = some e → ∃ p : Nat, e.position = p ∧ e.fault.found ≠ [] ∧
    (code.drop p).take e.fault.found.length = e.fault.found ∧
    scan (code.take p) = ⟨source.tokens ++ [.endMark p], none⟩

theorem faithful_of_tiling {code : Text} {front : List Token} (h : Tiling 0 code front) :
    Faithful code ⟨front ++ [.endMark code.length], none⟩ where
  slice := by
    intro t ht
    rcases List.mem_append.1 ht with ht | ht
    · obtain ⟨p, hposition, -, hslice⟩ := h.slice t ht
      exact ⟨p, by rw [hposition, Nat.zero_add], hslice⟩
    · obtain rfl := List.mem_singleton.1 ht
      exact ⟨code.length, rfl, rfl⟩
  lexeme := by
    intro t ht hk
    rcases List.mem_append.1 ht with ht | ht
    · exact (h.mem t ht).2
    · obtain rfl := List.mem_singleton.1 ht
      exact absurd rfl hk
  ordered := by
    refine List.pairwise_append.2 ⟨h.pairwise, List.pairwise_singleton _ _, fun a ha b hb => ?_⟩
    obtain rfl := List.mem_singleton.1 hb
    have := h.stop_le a ha
    rwa [Nat.zero_add] at this
  gaps := by
    intro i c hc _ hout
    refine h.isBlank_of_not_mem i c hc fun t ht => ?_
    rw [Nat.zero_add]
    exact hout t (List.mem_append_left _ ht)
  complete := fun _ => ⟨front, rfl, fun t ht => (h.mem t ht).1, h.rebuild⟩
  broken := nofun

theorem tiling_of_scan {code : Text} (h : (scan code).failure = none) :
    ∃ front, scan code = ⟨front ++ [.endMark code.length], none⟩ ∧ Tiling 0 code front := by
  obtain ⟨front, htokens, htiling⟩ := tiling_of_scanFrom .between 0 code (Pending.holds_between 0) h
  rw [Nat.zero_add] at htokens
  refine ⟨front, ?_, htiling⟩
  rw [← htokens, ← h]
  rfl

/-- **Scanning is faithful to the text.** -/
theorem scan_faithful (code : Text) : Faithful code (scan code) := by
  cases hfailure : (scan code).failure with
  | none =>
    obtain ⟨front, hscan, htiling⟩ := tiling_of_scan hfailure
    rw [hscan]
    exact faithful_of_tiling htiling
  | some e =>
    rcases cut_of_scanFrom .between 0 code (Pending.holds_between 0) e hfailure with hbroken | ⟨k, hcut⟩
    · exact absurd rfl hbroken.ne_between
    · have hscan : scan (code.take k) = ⟨(scan code).tokens ++ [.endMark k], none⟩ := by
        have := hcut.scan_eq
        rwa [Nat.zero_add] at this
      -- the tokens before the fault tile the text before the fault
      obtain ⟨front, hfront, htiling⟩ := tiling_of_scan (congrArg Source.failure hscan)
      obtain rfl : front = (scan code).tokens := by
        rw [hscan] at hfront
        exact (List.append_inj_left' (congrArg Source.tokens hfront) rfl).symm
      have hbefore := faithful_of_tiling htiling
      refine ⟨fun t ht => ?_, fun t ht => hbefore.lexeme t (List.mem_append_left _ ht), htiling.pairwise, ?_, ?_, ?_⟩
      · obtain ⟨q, hposition, hlength, hslice⟩ := htiling.slice t ht
        have hle : q + t.lexeme.length ≤ k := Nat.le_trans hlength (List.length_take_le k code)
        refine ⟨q, by rw [hposition, Nat.zero_add], ?_⟩
        rwa [List.drop_take, List.take_take, Nat.min_eq_left (by omega)] at hslice
      · intro i c hc ⟨t, ht, hi⟩ hout
        have hik : i < k := by
          have hstop := htiling.stop_le t ht
          have hle := List.length_take_le k code
          rw [Token.stop] at hstop
          omega
        rw [← List.getElem?_take_of_lt hik] at hc
        refine htiling.isBlank_of_not_mem i c hc fun u hu => ?_
        rw [Nat.zero_add]
        exact hout u hu
      · intro hnone
        rw [hfailure] at hnone
        cases hnone
      · intro e' he'
        obtain rfl : e = e' := Option.some.inj (hfailure.symm.trans he')
        refine ⟨k, by rw [hcut.position_eq, Nat.zero_add], hcut.found_ne, ?_, hscan⟩
        exact (List.prefix_iff_eq_take.1 hcut.found_at).symm

/-- Three tokens with blanks between them, and two before a fault. -/
theorem scan_faithful_two_texts :
    (Faithful " 2.5 *\tx1".toList (scan " 2.5 *\tx1".toList) ∧ scan " 2.5 *\tx1".toList = ⟨[⟨.number, "2.5".toList, 1⟩,
      ⟨.star, "*".toList, 5⟩, ⟨.identifier, "x1".toList, 7⟩, .endMark 9], none⟩) ∧
    Faithful "√9 $(".toList (scan "√9 $(".toList) ∧ scan "√9 $(".toList = ⟨[⟨.root, "√".toList, 0⟩,
      ⟨.number, "9".toList, 1⟩], some ⟨.unexpectedCharacter '$', 3⟩⟩ :=
  ⟨⟨scan_faithful _, by decide +kernel⟩, scan_faithful _, by decide +kernel⟩

end Calculator
