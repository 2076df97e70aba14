import Calculator.Proofs.Token.Faithful
/-!
# Places in a text

Every token of a text stands in it at its own place, and so does what a fault is about.  The end mark, which is empty,
stands behind the last character.
-/
namespace Calculator

/-- A text stands in another one at a place. -/
def StandsAt (code found : Text) (place : Int) : Prop :=
  ∃ p : Nat, place = p ∧ p + found.length ≤ code.length ∧ (code.drop p).take found.length = found

variable {code found : Text} {place : Int} {t : Token}

theorem StandsAt.bounds (h : StandsAt code found place) : 0 ≤ place ∧ place ≤ code.length := by
  obtain ⟨p, rfl, hlength, -⟩ := h
  omega

theorem StandsAt.of_take {k : Nat} (h : StandsAt (code.take k) found place) : StandsAt code found place := by
  obtain ⟨p, rfl, hlength, hslice⟩ := h
  have hk : p + found.length ≤ k := Nat.le_trans hlength (List.length_take_le k code)
  refine ⟨p, rfl, Nat.le_trans hlength (List.length_take_le' k code), ?_⟩
  rwa [List.drop_take, List.take_take, Nat.min_eq_left (by omega)] at hslice

theorem Tiling.standsAt {ts : List Token} (h : Tiling 0 code ts) (ht : t ∈ ts) :
    StandsAt code t.lexeme t.position := by
  obtain ⟨q, hposition, hlength, hslice⟩ := h.slice t ht
  exact ⟨q, by rw [hposition, Nat.zero_add], hlength, hslice⟩

/-- **Where a fault is**: it is about characters that stand at its place, and the tokens before it tile the text up to
there. -/
theorem fault_of_scan {e : ScanError} (h : (scan code).failure = some e) :
    StandsAt code e.fault.found e.position ∧ ∃ k : Nat, Tiling 0 (code.take k) (scan code).tokens := by
  rcases cut_of_scanFrom .between 0 code (Pending.holds_between 0) e h with hbroken | ⟨k, hcut⟩
  · exact absurd rfl hbroken.ne_between
  obtain ⟨more, hmore⟩ := hcut.found_at
  have hlength : e.fault.found.length + more.length = code.length - k := by
    rw [← List.length_append, hmore, List.length_drop]
  have hfound : 0 < e.fault.found.length := List.length_pos_iff.2 hcut.found_ne
  refine ⟨⟨k, by rw [hcut.position_eq, Nat.zero_add], by omega, by rw [← hmore, List.take_left]⟩, k, ?_⟩
  have hscan : scan (code.take k) = ⟨(scan code).tokens ++ [.endMark (0 + k : Nat)], none⟩ := hcut.scan_eq
  obtain ⟨front, hfront, htiling⟩ := tiling_of_scan (congrArg Source.failure hscan)
  rw [hscan] at hfront
  have htokens : (scan code).tokens = front := List.append_inj_left' (congrArg Source.tokens hfront) rfl
  rwa [htokens]

/-- **Every token stands in the text**, and the end mark at its end. -/
theorem standsAt_of_mem_scan (ht : t ∈ (scan code).tokens) :
    StandsAt code t.lexeme t.position ∧ (t.isEnd = true → t = .endMark code.length) := by
  have hinside : t.kind ≠ .exprEnd → t.isEnd = true → t = .endMark code.length :=
    fun hk hend => absurd (beq_iff_eq.1 hend) hk
  cases hfailure : (scan code).failure with
  | some e =>
    obtain ⟨-, k, htiling⟩ := fault_of_scan hfailure
    exact ⟨(htiling.standsAt ht).of_take, hinside (htiling.mem t ht).1⟩
  | none =>
    obtain ⟨front, hscan, htiling⟩ := tiling_of_scan hfailure
    rw [hscan] at ht
    rcases List.mem_append.1 ht with ht | ht
    · exact ⟨htiling.standsAt ht, hinside (htiling.mem t ht).1⟩
    · obtain rfl := List.mem_singleton.1 ht
      exact ⟨⟨code.length, rfl, Nat.le_refl _, rfl⟩, fun _ => rfl⟩

/-- **No two tokens stand at the same place.** -/
theorem pairwise_position_scan (code : Text) : (scan code).tokens.Pairwise fun a b => a.position < b.position := by
  cases hfailure : (scan code).failure with
  | some e =>
    obtain ⟨-, k, htiling⟩ := fault_of_scan hfailure
    exact htiling.pairwise_position
  | none =>
    obtain ⟨front, hscan, htiling⟩ := tiling_of_scan hfailure
    rw [hscan]
    refine List.pairwise_append.2 ⟨htiling.pairwise_position, List.pairwise_singleton _ _, fun t ht last hlast => ?_⟩
    -- a token inside the text is not empty, so it begins before the end
    obtain rfl := List.mem_singleton.1 hlast
    have hstop := htiling.stop_le t ht
    have := List.length_pos_iff.2 (htiling.mem t ht).2.1
    rw [Token.stop] at hstop
    show t.position < (code.length : Int)
    omega

end Calculator
