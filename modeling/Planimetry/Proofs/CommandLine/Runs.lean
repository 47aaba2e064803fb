import Planimetry.CommandLine.Run
import Planimetry.Proofs.CommandLine.Files
import Planimetry.Proofs.Text.Bytes

/-!
# Runs on a machine

What the parts of a run do to a machine, one after another: a program is read, the output file is
made empty, the export is written and the outcome is reported.
-/

namespace Planimetry

namespace CommandLine

open Machine (world)

variable {α β : Type} {m m' : Machine} {o : Options} {text path : String} {p : List String}

/-- The second part of a sequence runs on the machine that the first one leaves. -/
theorem run_bind {x : StateM Machine α} {f : α → StateM Machine β} {a : α}
    (h : x.run m = (a, m')) : (x >>= f).run m = (f a).run m' := by
  rw [StateT.run_bind, h]
  rfl

/-! ## Reading the program -/

/-- Whatever is read, the machine stays as it is. -/
theorem exists_run_readProgram (m : Machine) (input : Option String) :
    ∃ x, (readProgram world input).run m = (x, m) := by
  cases input with
  | none =>
    have hinput : (world.input).run m = (m.input, m) := rfl
    rw [readProgram, run_bind hinput]
    split <;> exact ⟨_, rfl⟩
  | some path =>
    have hkind : (world.kind path).run m = (m.kind path, m) := rfl
    have hread : (world.read path).run m = (m.read path, m) := rfl
    rw [readProgram, run_bind hkind]
    split
    · exact ⟨_, rfl⟩
    · exact ⟨_, rfl⟩
    · rw [run_bind hread]
      split <;> exact ⟨_, rfl⟩

/-! ## The output file -/

/-- A file that can be made is empty then; a device stays as it is. -/
theorem eq_emptied_of_create (h : m.create path = .ok m') : m' = m.emptied path := by
  unfold Machine.create at h
  unfold Machine.emptied Machine.place?
  split at h <;> cases h <;> rename_i htarget <;> rw [htarget]

/-- A change that succeeds is carried out. -/
theorem run_change_ok {action : Machine → Except String Machine} (h : action m = .ok m') :
    (Machine.change action).run m = (.ok (), m') := by
  change Machine.change action m = _
  rw [Machine.change, h]

/-- A change that fails leaves the machine as it was. -/
theorem run_change_error {action : Machine → Except String Machine} {e : String}
    (h : action m = .error e) : (Machine.change action).run m = (.error e, m) := by
  change Machine.change action m = _
  rw [Machine.change, h]

/-- Either the output file is empty then, or it cannot be made and nothing has changed. -/
theorem run_create (m : Machine) (path : String) :
    (world.create path).run m = (.ok (), m.emptied path) ∨
      ∃ e, (world.create path).run m = (.error e, m) := by
  cases h : m.create path with
  | ok m' =>
    obtain rfl := eq_emptied_of_create h
    exact .inl (run_change_ok h)
  | error e => exact .inr ⟨e, run_change_error h⟩

theorem run_print (m : Machine) (text : String) :
    (world.print text).run m = ((), m.print text.toUTF8.toList) :=
  rfl

theorem run_refuse (m : Machine) (reason : String) :
    (refuse world reason).run m = (.refusal, m.complain s!"{reason}\n".toUTF8.toList) :=
  rfl

theorem run_report_ok (m : Machine) (c : Compilation) :
    (report world (.ok c)).run m =
      (.success, m.print (c.drawing.tree.outline ++ diagnosticLines c.diagnostics).toUTF8.toList) :=
  rfl

theorem run_report_error (m : Machine) (f : Fault) :
    (report world (.error f)).run m = (.fault, m.complain s!"Critical: {f}\n".toUTF8.toList) :=
  rfl

/-- Only what has a fault leaves a machine as it was. -/
theorem eq_of_compileInto_error {s : Script} {t : PointTable} {f : Fault}
    (h : (compileInto world o s t).run m = (.error f, m')) : m' = m := by
  unfold compileInto at h
  dsimp only at h
  split at h
  · cases h
    rfl
  · generalize Sink.taken _ = bytes at h
    cases hwrite : m.write o.output bytes with
    | ok m₁ =>
      have hrun : (world.write o.output bytes).run m = (.ok (), m₁) := run_change_ok hwrite
      rw [run_bind hrun] at h
      cases h
    | error e =>
      have hrun : (world.write o.output bytes).run m = (.error e, m) := run_change_error hwrite
      rw [run_bind hrun] at h
      cases h
      rfl

end CommandLine

end Planimetry
