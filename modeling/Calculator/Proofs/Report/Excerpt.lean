import Calculator.Proofs.Text.LineBreak
import Calculator.Report
/-!
# What an excerpt shows

An excerpt cuts a text into four parts: what is left out in front, the characters that are shown before the place, those
that are shown from there on, and what is left out behind (`exists_shown`).  The caret stands below the first character
of the third part.
-/
namespace Calculator

/-- The dots for a part that is left out. -/
def ellipsis (cut : Text) : Text := if cut = [] then [] else "...".toList

/-- `Shown code place context before left right behind`: around the place, `left` and `right` are shown and the rest of
the text is left out. -/
structure Shown (code : Text) (place context : Nat) (before left right behind : Text) : Prop where
  code_eq : code = before ++ (left ++ (right ++ behind))
  place_eq : place = (before ++ left).length
  left_length : left.length = min place context
  right_length : right.length = min (code.length - place) context

/-- The lines of an excerpt, from its parts. -/
def excerptLines (before left right behind : Text) : Text × Text :=
  (ellipsis before ++ left ++ right ++ ellipsis behind,
    List.replicate (ellipsis before ++ left).length ' ' ++ ['^'])

variable {code : Text} {place context : Nat} {before left right behind : Text}

theorem ellipsis_take (h : place ≤ code.length) :
    ellipsis (code.take (place - context)) = if 0 < place - context then "...".toList else [] := by
  unfold ellipsis
  by_cases hstart : 0 < place - context
  · have hne : code.take (place - context) ≠ [] := by
      rw [← List.length_pos_iff, List.length_take]
      omega
    rw [if_neg hne, if_pos hstart]
  · rw [if_neg hstart, Nat.eq_zero_of_not_pos hstart, List.take_zero, if_pos rfl]

theorem ellipsis_drop :
    ellipsis (code.drop (place + context)) = if place + context < code.length then "...".toList else [] := by
  unfold ellipsis
  by_cases hstop : place + context < code.length
  · have hne : code.drop (place + context) ≠ [] := by
      rw [← List.length_pos_iff, List.length_drop]
      omega
    rw [if_neg hne, if_pos hstop]
  · rw [if_neg hstop, List.drop_eq_nil_of_le (Nat.not_lt.1 hstop), if_pos rfl]

theorem slice_natCast (start stop : Nat) : slice code start stop = (code.drop start).take (stop - start) := by
  have hstop : ¬ (stop : Int) < 0 := by omega
  simp only [slice, if_neg hstop, Int.toNat_natCast]

theorem take_around (h : place ≤ code.length) :
    (code.drop (place - context)).take (min code.length (place + context) - (place - context)) =
      (code.drop (place - context)).take (place - (place - context)) ++ (code.drop place).take context := by
  have hstart : place - context + (place - (place - context)) = place := by omega
  have hlength : min code.length (place + context) - (place - context) =
      place - (place - context) + min context (code.drop place).length := by
    rw [List.length_drop]
    omega
  rw [hlength, List.take_add, List.drop_drop, hstart]
  congr 1
  exact (List.take_eq_take_min).symm

/-- **The parts of an excerpt**, for a place in the text or at its end. -/
theorem exists_shown (h : place ≤ code.length) : ∃ before left right behind,
    Shown code place context before left right behind ∧
      excerpt code place context = excerptLines before left right behind := by
  have hstart : place - context + (place - (place - context)) = place := by omega
  have hbefore : (code.take (place - context)).length = place - context := by
    rw [List.length_take]
    omega
  have hleft : ((code.drop (place - context)).take (place - (place - context))).length = min place context := by
    rw [List.length_take, List.length_drop]
    omega
  refine ⟨code.take (place - context), (code.drop (place - context)).take (place - (place - context)),
    (code.drop place).take context, code.drop (place + context), ⟨?_, ?_, hleft, ?_⟩, ?_⟩
  · have hright : (code.drop (place - context)).drop (place - (place - context)) = code.drop place := by
      rw [List.drop_drop, hstart]
    have hbehind : code.drop (place + context) = (code.drop place).drop context := (List.drop_drop).symm
    rw [hbehind, List.take_append_drop, ← hright, List.take_append_drop, List.take_append_drop]
  · rw [List.length_append, hbefore, hleft]
    omega
  · rw [List.length_take, List.length_drop, Nat.min_comm]
  · have hstartInt : max 0 ((place : Int) - context) = ((place - context : Nat) : Int) := by omega
    have hstopInt : min (code.length : Int) (place + context) = ((min code.length (place + context) : Nat) : Int) := by
      omega
    have hcutBefore : 0 < ((place - context : Nat) : Int) ↔ 0 < place - context := by omega
    have hcutBehind :
        ((min code.length (place + context) : Nat) : Int) < code.length ↔ place + context < code.length := by omega
    rw [excerpt, excerptLines, List.length_append, hleft, ellipsis_take h, ellipsis_drop]
    simp only [hstartInt, hstopInt, Int.toNat_natCast, slice_natCast, take_around h, hcutBefore, hcutBehind,
      decide_eq_true_eq, ← List.append_assoc, Prod.mk.injEq, true_and]
    congr 2
    -- the caret's column counts the characters before the place and, if some are left out, the three dots
    have hdots : "...".toList.length = 3 := by decide
    split
    · omega
    · rw [List.length_nil]
      omega

theorem oneLine_ellipsis (cut : Text) : OneLine (ellipsis cut) := by
  unfold ellipsis
  split <;> decide

namespace Shown

theorem getElem?_eq (h : Shown code place context before left right behind) : code[place]? = (right ++ behind)[0]? := by
  rw [h.code_eq, h.place_eq, ← List.append_assoc, List.getElem?_append_right (Nat.le_refl _), Nat.sub_self]

theorem length_eq (h : Shown code place context before left right behind) :
    code.length = place + right.length + behind.length := by
  have hlength := congrArg List.length h.code_eq
  have hplace := h.place_eq
  rw [List.length_append, List.length_append, List.length_append] at hlength
  rw [List.length_append] at hplace
  omega

theorem eq_nil_of_end (h : Shown code code.length context before left right behind) : right = [] ∧ behind = [] := by
  have hlength := h.length_eq
  exact ⟨List.length_eq_zero_iff.1 (by omega), List.length_eq_zero_iff.1 (by omega)⟩

/-- **The caret stands below the character at the place**, if an excerpt shows characters at all, and at the end of the
text behind the last character. -/
theorem caret (h : Shown code place context before left right behind) (hcontext : 0 < context)
    (hplace : place ≤ code.length) :
    (excerptLines before left right behind).1[(ellipsis before ++ left).length]? = code[place]? ∧
      (place = code.length →
        (ellipsis before ++ left).length = (excerptLines before left right behind).1.length) := by
  have hindex : (excerptLines before left right behind).1[(ellipsis before ++ left).length]? =
      (right ++ ellipsis behind)[0]? := by
    rw [excerptLines, List.append_assoc, List.getElem?_append_right (Nat.le_refl _), Nat.sub_self]
  rw [hindex, h.getElem?_eq]
  by_cases hend : place = code.length
  · subst hend
    obtain ⟨rfl, rfl⟩ := h.eq_nil_of_end
    exact ⟨rfl, fun _ => by simp [excerptLines, ellipsis]⟩
  · have hright : 0 < right.length := by
      rw [h.right_length]
      omega
    rw [List.getElem?_append_left hright, List.getElem?_append_left hright]
    exact ⟨rfl, fun hplace => absurd hplace hend⟩

theorem getElem?_shown (h : Shown code place context before left right behind) {k : Nat}
    (hk : k < (left ++ right).length) : code[place - context + k]? = (left ++ right)[k]? := by
  have hplace := h.place_eq
  have hleft := h.left_length
  rw [List.length_append] at hplace
  have hbefore : place - context = before.length := by omega
  rw [h.code_eq, hbefore, ← List.append_assoc left, List.getElem?_append_right (Nat.le_add_right _ _),
    Nat.add_sub_cancel_left, List.getElem?_append_left hk]

/-- **The excerpt is broken into lines** exactly if there is a line break among the characters that it shows. -/
theorem oneLine_iff (h : Shown code place context before left right behind) :
    OneLine (excerptLines before left right behind).1 ↔
      ∀ i, place ≤ i + context → i < place + context → code[i]? ≠ some '\n' := by
  have hlines : OneLine (excerptLines before left right behind).1 ↔ OneLine (left ++ right) := by
    simp only [excerptLines, oneLine_append, oneLine_ellipsis, true_and, and_true]
  have hlength : (left ++ right).length = min place context + min (code.length - place) context := by
    rw [List.length_append, h.left_length, h.right_length]
  rw [hlines]
  constructor
  · intro hone i hlow hhigh hnewline
    obtain ⟨hi, -⟩ := List.getElem?_eq_some_iff.1 hnewline
    obtain ⟨k, rfl⟩ : ∃ k, i = place - context + k := ⟨i - (place - context), by omega⟩
    rw [h.getElem?_shown (by omega)] at hnewline
    exact hone (List.mem_of_getElem? hnewline)
  · intro hnone hmem
    obtain ⟨k, hk⟩ := List.mem_iff_getElem?.1 hmem
    obtain ⟨hlt, -⟩ := List.getElem?_eq_some_iff.1 hk
    exact hnone (place - context + k) (by omega) (by omega) ((h.getElem?_shown hlt).trans hk)

/-- Every character nearer to the place than the context is shown. -/
theorem mem_window (h : Shown code place context before left right behind) {i : Nat} (hi : i < code.length)
    (hbehind : i < place + context) (hbefore : place < i + context) :
    before.length ≤ i ∧ i < before.length + (left ++ right).length := by
  have hplace := h.place_eq
  have hleft := h.left_length
  have hright := h.right_length
  rw [List.length_append] at hplace ⊢
  omega

end Shown

/-! ## The caret and the window -/

/-- The caret's line has no caret before its last character. -/
theorem idxOf_caret (column : Nat) : (List.replicate column ' ' ++ ['^']).idxOf '^' = column := by
  rw [List.idxOf_append, if_neg (by simp), List.idxOf_cons_self, List.length_replicate, Nat.zero_add]

/-- **An excerpt is aligned**, in any window and at any place of a text or at its end.  Between the dots it shows a part
of the text with all characters that are nearer to the place than the context, and there are dots on a side exactly if
something is left out there.  The caret stands below the character at the place, and for the end behind the line. -/
theorem excerpt_aligned (code : Text) (place context : Nat) (hcontext : 1 ≤ context) (hplace : place ≤ code.length) :
    ∃ before shown behind,
      code = before ++ shown ++ behind ∧
      (excerpt code place context).1 = ellipsis before ++ shown ++ ellipsis behind ∧
      shown.length ≤ 2 * context ∧
      (∀ i < code.length, i < place + context → place < i + context →
        before.length ≤ i ∧ i < before.length + shown.length) ∧
      ∃ column,
        (excerpt code place context).2 = List.replicate column ' ' ++ ['^'] ∧
        (excerpt code place context).2.idxOf '^' = column ∧
        (place < code.length → (ellipsis before).length ≤ column ∧
          column < (ellipsis before ++ shown).length ∧ place = before.length + (column - (ellipsis before).length) ∧
          (excerpt code place context).1[column]? = code[place]?) ∧
        (place = code.length → column = (excerpt code place context).1.length) := by
  obtain ⟨before, left, right, behind, hshown, hlines⟩ := @exists_shown code place context hplace
  have hleft := hshown.left_length
  have hright := hshown.right_length
  have hstart := hshown.place_eq
  have hcaret := hshown.caret hcontext hplace
  rw [List.length_append] at hstart
  rw [hlines]
  refine ⟨before, left ++ right, behind, ?_, ?_, ?_, fun i => hshown.mem_window, (ellipsis before ++ left).length, rfl,
    idxOf_caret _, fun hinside => ?_, hcaret.2⟩
  · simpa only [List.append_assoc] using hshown.code_eq
  · simp only [excerptLines, List.append_assoc]
  · rw [List.length_append]
    omega
  · refine ⟨?_, ?_, ?_, hcaret.1⟩ <;> simp only [List.length_append] <;> omega

/-- A window of four characters in the middle of ten. -/
theorem excerpt_aligned_middle :
    let code := "0123456789".toList
    let first := "...3456...".toList
    1 ≤ 2 ∧ 5 ≤ code.length ∧ excerpt code 5 2 = (first, "     ^".toList) ∧
      ∃ before shown behind, code = before ++ shown ++ behind ∧ first = ellipsis before ++ shown ++ ellipsis behind ∧
        shown.length ≤ 4 ∧ first[5]? = code[5]? := by
  intro code first
  have hexcerpt : excerpt code 5 2 = (first, "     ^".toList) := by decide
  obtain ⟨before, shown, behind, hcode, hfirst, hlength, -, column, -, hcolumn, hinside, -⟩ :=
    excerpt_aligned code 5 2 (by decide) (by decide)
  obtain ⟨-, -, -, hcharacter⟩ := hinside (by decide)
  obtain rfl : column = 5 := hcolumn.symm.trans (congrArg (fun lines => lines.2.idxOf '^') hexcerpt)
  refine ⟨by decide, by decide, hexcerpt, before, shown, behind, hcode, ?_, hlength, ?_⟩
  · exact (congrArg Prod.fst hexcerpt).symm.trans hfirst
  · exact (congrArg (fun lines => lines.1[5]?) hexcerpt).symm.trans hcharacter

end Calculator
