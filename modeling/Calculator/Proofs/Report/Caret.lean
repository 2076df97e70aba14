import Calculator.Proofs.Evaluation.Culprit
import Calculator.Proofs.Function.Growth
import Calculator.Proofs.Report.Excerpt
/-!
# The caret of a report

A report on a text has a header, the lines of an excerpt and a line with a caret.  The caret stands in the column that
the failing character has in the excerpt, so it stands below that character if the excerpt is one line.  It is one line
exactly if no line break is among the characters that it shows (`caret_under_culprit_iff`); a line break there is shown
as it is, and then the caret counts the lines of the excerpt as one.
-/
namespace Calculator

variable {r : Registry} {code : Text}

/-! ## The header is one line -/

/-- The first line of a report. -/
def Report.header (report : Report) : Text := '[' :: report.stage.label ++ " error] ".toList ++ report.message

theorem oneLine_of_mem_scan {t : Token} (ht : t ∈ (scan code).tokens) : OneLine t.lexeme := by
  by_cases hk : t.kind = .exprEnd
  · rw [(standsAt_of_mem_scan ht).2 (beq_iff_eq.2 hk)]
    exact List.not_mem_nil
  · intro hmem
    exact absurd ((scan_words code t ht hk).plain.not_blank _ hmem) (by decide)

theorem Registry.oneLine_of_find? {name : Text} {f : Function} (h : r.find? name = some f) (hname : OneLine name) :
    OneLine f.name := by
  obtain ⟨-, hkey⟩ := mem_of_firstWithKey h
  rw [← oneLine_caseFold, ← Function.key, hkey]
  exact oneLine_caseFold.2 hname

/-- **The header of a report is one line**, whatever functions are registered. -/
theorem oneLine_header [Platform] {f : Failure} (h : calculate r code = .error f) : OneLine f.report.header := by
  have hstage : ∀ stage : Stage, OneLine ('[' :: stage.label ++ " error] ".toList) := by
    intro stage
    cases stage <;> decide +kernel
  refine .append (hstage _) (oneLine_message ?_)
  -- only the name of a function comes from the registry, and it folds like the name in the text
  rintro name position function arity given rfl
  obtain ⟨_, hf, -⟩ | ⟨_, hf, -⟩ | ⟨e, tree, hf, hparse, hevaluate⟩ := calculate_error_cases h <;> cases hf
  obtain ⟨front, behind, t, htokens, before, rest, rfl, hoffence⟩ := offends_of_evaluate hparse hevaluate nofun
  obtain hne | ⟨_, _, _, _, hne | ⟨g, hg, herror⟩⟩ := offence?_cases hoffence
  · cases hne
  · cases hne
  cases herror
  have ht : t ∈ (scan code).tokens := by
    rw [htokens]
    exact List.mem_append_left behind (List.mem_append_right before List.mem_cons_self)
  exact Registry.oneLine_of_find? hg (oneLine_of_mem_scan ht)

/-! ## Lines -/

theorem splitOn_lines {header text caret : Text} (hheader : OneLine header) (hcaret : OneLine caret) :
    (['\n'].intercalate [header, text, caret]).splitOn '\n' = header :: (text.splitOn '\n' ++ [caret]) := by
  have hrender : ['\n'].intercalate [header, text, caret] = header ++ '\n' :: (text ++ '\n' :: caret) := by
    simp [List.intercalate]
  rw [hrender, List.splitOn_append_cons_self_of_not_mem hheader, List.splitOn_append_cons_self,
    List.splitOn_eq_singleton hcaret]

theorem length_splitOn {t : Text} : (t.splitOn '\n').length = 1 ↔ OneLine t := by
  constructor
  · intro h hmem
    obtain ⟨s, u, rfl⟩ := List.append_of_mem hmem
    have hs := List.length_pos_iff.2 (List.splitOn_ne_nil '\n' s)
    have hu := List.length_pos_iff.2 (List.splitOn_ne_nil '\n' u)
    rw [List.splitOn_append_cons_self, List.length_append] at h
    omega
  · intro h
    rw [List.splitOn_eq_singleton h]
    rfl

/-! ## The caret -/

/-- A report of three lines, the last of which has a caret in the column that the character at a place has in the
second, or behind the last character if the place is the end. -/
def CaretUnder (code report : Text) (place : Int) : Prop :=
  ∃ (header text : Text) (column : Nat), report.splitOn '\n' = [header, text, List.replicate column ' ' ++ ['^']] ∧
    text[column]? = code[place.toNat]? ∧ (place = code.length → column = text.length)

theorem Report.render_eq {report : Report} {place : Nat} {before left right behind : Text}
    (hplace : report.position = some (place : Int)) (hle : place ≤ code.length)
    (h : excerpt code place (10 : Nat) = excerptLines before left right behind) :
    report.render code = ['\n'].intercalate [report.header, ellipsis before ++ left ++ right ++ ellipsis behind,
      List.replicate (ellipsis before ++ left).length ' ' ++ ['^']] := by
  have hmin : min (place : Int) code.length = place := by omega
  have hexcerpt : excerpt code place reportContext = excerptLines before left right behind := h
  simp only [Report.render, Report.lines, hplace, hmin, hexcerpt]
  rfl

/-- **The lines of a report**: its header, the lines of the excerpt, and the caret in the column that the character at
the place has in the excerpt. -/
theorem exists_report_lines [Platform] {f : Failure} {place : Nat} (h : calculate r code = .error f)
    (hplace : f.position? = some (place : Int)) (hle : place ≤ code.length) :
    ∃ (text : Text) (column : Nat),
      (f.render code).splitOn '\n' = f.report.header :: (text.splitOn '\n' ++ [List.replicate column ' ' ++ ['^']]) ∧
      text[column]? = code[place]? ∧ (place = code.length → column = text.length) ∧
      (OneLine text ↔ ∀ i, place ≤ i + 10 → i < place + 10 → code[i]? ≠ some '\n') := by
  obtain ⟨before, left, right, behind, hshown, hexcerpt⟩ := @exists_shown code place 10 hle
  obtain ⟨hcolumn, hend⟩ := hshown.caret (by decide) hle
  refine ⟨ellipsis before ++ left ++ right ++ ellipsis behind, (ellipsis before ++ left).length, ?_, hcolumn, hend,
    hshown.oneLine_iff⟩
  have hcaret : OneLine (List.replicate (ellipsis before ++ left).length ' ' ++ ['^']) :=
    .append (fun hmem => absurd (List.eq_of_mem_replicate hmem) (by decide)) (by decide)
  rw [Failure.render, Report.render_eq hplace hle hexcerpt, splitOn_lines (oneLine_header h) hcaret]

/-- **The caret is under the culprit exactly if the excerpt has no line break.**  The report on a failure with a place
has a header, the lines of the excerpt, and a caret in the column that the failing character has in the excerpt.  If no
line break is among the ten characters on either side of the place, these are three lines and the caret is below the
character; otherwise they are not three. -/
theorem caret_under_culprit_iff [Platform] (r : Registry) (code : Text) (f : Failure) (place : Int)
    (h : calculate r code = .error f) (hplace : f.position? = some place) :
    (∃ (text : Text) (column : Nat),
      (f.render code).splitOn '\n' =
        f.report.header :: (text.splitOn '\n' ++ [List.replicate column ' ' ++ ['^']]) ∧
      text[column]? = code[place.toNat]? ∧ (place = code.length → column = text.length)) ∧
    (CaretUnder code (f.render code) place ↔
      ∀ i : Nat, place - reportContext ≤ i → i < place + reportContext → code[i]? ≠ some '\n') ∧
    (((f.render code).splitOn '\n').length = 3 ↔ CaretUnder code (f.render code) place) := by
  obtain ⟨p, rfl, hle⟩ : ∃ p : Nat, place = p ∧ p ≤ code.length := by
    rcases (pointsAt_of_calculate h).bounds with rfl | ⟨p, hp, hbounds⟩
    · cases hplace
    · cases hplace.symm.trans hp
      exact ⟨place.toNat, by omega, by omega⟩
  obtain ⟨text, column, hlines, hcolumn, hend, hwindow⟩ := exists_report_lines h hplace hle
  have hend : (p : Int) = code.length → column = text.length := fun hp => hend (Int.ofNat_inj.1 hp)
  have hthree : ((f.render code).splitOn '\n').length = 3 ↔ OneLine text := by
    rw [hlines, ← length_splitOn, List.length_cons, List.length_append, List.length_singleton]
    omega
  have hunder : CaretUnder code (f.render code) p ↔ OneLine text := by
    constructor
    · rintro ⟨_, _, _, hlines, -⟩
      exact hthree.1 (by rw [hlines]; rfl)
    · intro hone
      rw [List.splitOn_eq_singleton hone] at hlines
      exact ⟨_, text, column, hlines, hcolumn, hend⟩
  refine ⟨⟨text, column, hlines, hcolumn, hend⟩, ?_, hthree.trans hunder.symm⟩
  have hcontext : reportContext = 10 := rfl
  rw [hunder, hwindow]
  constructor
  · exact fun hnone i hlow hhigh => hnone i (by omega) (by omega)
  · exact fun hnone i hlow hhigh => hnone i (by omega) (by omega)

/-- A line break that is far enough away is not shown. -/
theorem caret_under_culprit_iff_far_break :
    let code := '\n' :: List.replicate 10 ' ' ++ ['$']
    let f := Failure.parsing (.scan ⟨.unexpectedCharacter '$', 11⟩)
    calculate .builtin code = .error f ∧ f.position? = some 11 ∧ CaretUnder code (f.render code) 11 := by
  intro code f
  have h : calculate .builtin code = .error f := by rfl
  refine ⟨h, rfl, (caret_under_culprit_iff .builtin code f 11 h rfl).2.1.2 fun i hlow hhigh => ?_⟩
  have hall : ∀ i < 21, 1 ≤ i → code[i]? ≠ some '\n' := by decide
  have hcontext : reportContext = 10 := rfl
  exact hall i (by omega) (by omega)

/-- **With a line break between `1` and `$` the caret is under nothing**: the report has four lines, and the failing
character is in the first column of the third, but the caret in the third column of the last. -/
theorem caret_not_under_culprit :
    let code := ['1', '\n', '$']
    let f := Failure.parsing (.scan ⟨.unexpectedCharacter '$', 2⟩)
    calculate .builtin code = .error f ∧ f.position? = some 2 ∧
      (f.render code).splitOn '\n' = [f.report.header, ['1'], ['$'], [' ', ' ', '^']] ∧
      ¬ CaretUnder code (f.render code) 2 := by
  intro code f
  have hlines : (f.render code).splitOn '\n' = [f.report.header, ['1'], ['$'], [' ', ' ', '^']] := by
    decide +kernel
  refine ⟨rfl, rfl, hlines, ?_⟩
  rintro ⟨header, text, column, hthree, -⟩
  rw [hlines] at hthree
  cases congrArg List.length hthree

end Calculator
