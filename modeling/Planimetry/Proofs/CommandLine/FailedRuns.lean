import Planimetry.Proofs.CommandLine.Runs

/-!
# Files after a failed run

The output file is made before the program is read through. A run that ends with a fault has
therefore lost what was in the file, unless it was only asked to check; all other files are as they
were.

Main statement: `files_of_fault`. `export_lost_of_unfinished` is about an earlier export.
-/

namespace Planimetry

namespace CommandLine

open Machine (world)

variable {m m' : Machine} {o : Options} {entropy : UInt64} {args : List String} {exit : Exit}

theorem exists_fault_of_report {r : Except Fault Compilation}
    (h : (report world r).run m = (exit, m')) (hexit : exit.code = 1) :
    ∃ f, r = .error f ∧ m' = m.complain s!"Critical: {f}\n".toUTF8.toList := by
  cases r with
  | ok c =>
    rw [run_report_ok] at h
    cases h
    cases hexit
  | error f =>
    rw [run_report_error] at h
    cases h
    exact ⟨f, rfl, rfl⟩

/-- A refusal is no fault of the program. -/
theorem code_ne_one_of_refuse {reason : String} (h : (refuse world reason).run m = (exit, m')) :
    exit.code ≠ 1 := by
  rw [run_refuse] at h
  cases h
  decide

/-- What a run with a fault does: it prints something, perhaps makes the output file empty, and
complains. -/
theorem eq_of_runWith_fault (h : (runWith world o entropy).run m = (exit, m'))
    (hexit : exit.code = 1) :
    ∃ printed complaint, m' =
      (if o.check then m.print printed else (m.print printed).emptied o.output).complain
        complaint := by
  obtain ⟨x, hread⟩ := exists_run_readProgram m o.input
  rw [runWith, run_bind hread] at h
  cases x with
  | error e => exact absurd hexit (code_ne_one_of_refuse h)
  | ok text =>
    dsimp only at h
    rw [run_bind (run_print _ _)] at h
    generalize (tokenLines o (Script.ofText text o.input)).toUTF8.toList = printed at h
    cases hcheck : o.check with
    | true =>
      rw [hcheck, if_pos rfl] at h
      obtain ⟨f, -, rfl⟩ := exists_fault_of_report h hexit
      exact ⟨printed, _, rfl⟩
    | false =>
      rw [hcheck, if_neg Bool.false_ne_true] at h
      obtain hrun | ⟨e, hrun⟩ := run_create (m.print printed) o.output
      · rw [run_bind hrun] at h
        dsimp only at h
        generalize hinto : (compileInto world o (Script.ofText text o.input) (table o entropy)).run
          ((m.print printed).emptied o.output) = res at h
        obtain ⟨r, m₂⟩ := res
        rw [run_bind hinto] at h
        obtain ⟨f, rfl, rfl⟩ := exists_fault_of_report h hexit
        obtain rfl := eq_of_compileInto_error hinto
        exact ⟨printed, _, rfl⟩
      · rw [run_bind hrun] at h
        exact absurd hexit (code_ne_one_of_refuse h)

theorem exists_options_of_fault (h : (run world entropy args).run m = (exit, m'))
    (hexit : exit.code = 1) :
    ∃ o, Request.ofArgs args = .run o ∧ (runWith world o entropy).run m = (exit, m') := by
  unfold run at h
  cases hargs : Request.ofArgs args with
  | run o =>
    rw [hargs] at h
    exact ⟨o, rfl, h⟩
  | help =>
    rw [hargs] at h
    cases h
    cases hexit
  | version =>
    rw [hargs] at h
    cases h
    cases hexit
  | misuse =>
    rw [hargs] at h
    exact absurd hexit (code_ne_one_of_refuse h)

/-- After a run with a fault the output file is empty, unless the run was only to check; everything
else is as it was. So all files are as they were exactly if the run was only to check, or the output
file was empty already. -/
theorem files_of_fault (hexit : ((run world entropy args).run m).1.code = 1) :
    let m' := ((run world entropy args).run m).2
    ∃ o, Request.ofArgs args = .run o ∧
      (∀ q, m'.find? q =
        if o.check = false ∧ m.place? o.output = some q then some (.file []) else m.find? q) ∧
      m'.directories = m.directories ∧
      ((∀ q, m'.find? q = m.find? q) ↔
        o.check = true ∨ ∀ p, m.place? o.output = some p → m.find? p = some (.file [])) := by
  generalize hrun : (run world entropy args).run m = x at hexit
  obtain ⟨exit, m'⟩ := x
  obtain ⟨o, hargs, hrun⟩ := exists_options_of_fault hrun hexit
  obtain ⟨printed, complaint, rfl⟩ := eq_of_runWith_fault hrun hexit
  refine ⟨o, hargs, ?_⟩
  cases hcheck : o.check with
  | true => exact ⟨fun _ => rfl, rfl, iff_of_true (fun _ => rfl) (.inl rfl)⟩
  | false =>
    have hfind : ∀ q, (((m.print printed).emptied o.output).complain complaint).find? q =
        if m.place? o.output = some q then some (.file []) else m.find? q := by
      intro q
      rw [← m.place?_print printed]
      exact Machine.find?_emptied _ o.output q
    simp only [Bool.false_eq_true, if_false, true_and, false_or, hfind, implies_true]
    refine ⟨Machine.directories_emptied _ o.output, forall_congr' fun q => ?_⟩
    by_cases hq : m.place? o.output = some q
    · simp [hq, eq_comm]
    · simp [hq]

/-! ## A lost export -/

/-- A machine with a text that goes wrong on its standard input, and a file with an earlier
export. -/
def exportedEarlier : Machine :=
  (Machine.bare "поставити".toUTF8.toList).addFile ["drawing.rs"] "earlier".toUTF8.toList

def drawingPath : List String := ["tmp", "drawings", "drawing.rs"]

theorem code_of_exportedEarlier :
    ((run world 0 ["--seed", "1"]).run exportedEarlier).1.code = 1 := by
  decide +kernel

/-- An earlier export is lost. -/
theorem export_lost_of_unfinished :
    ((run world 0 ["--seed", "1"]).run exportedEarlier).1.code = 1 ∧
      exportedEarlier.find? drawingPath = some (.file "earlier".toUTF8.toList) ∧
      ((run world 0 ["--seed", "1"]).run exportedEarlier).2.find? drawingPath =
        some (.file []) := by
  refine ⟨code_of_exportedEarlier, ?_, ?_⟩ <;> decide +kernel

theorem files_of_exportedEarlier :
    ((run world 0 ["--seed", "1"]).run exportedEarlier).1.code = 1 ∧
      ∃ o, Request.ofArgs ["--seed", "1"] = .run o ∧
        ∀ q, ((run world 0 ["--seed", "1"]).run exportedEarlier).2.find? q =
          if o.check = false ∧ exportedEarlier.place? o.output = some q then some (.file [])
          else exportedEarlier.find? q := by
  obtain ⟨o, hargs, hfind, -⟩ := files_of_fault code_of_exportedEarlier
  exact ⟨code_of_exportedEarlier, o, hargs, hfind⟩

end CommandLine

end Planimetry
