import Planimetry.CommandLine.Machine

/-!
# Files of a machine

A file that is put where a path leads is found by the path again, and nothing else changes.

## Main definitions

* `Machine.source?`: the bytes of a program, from a file or from standard input.
* `Machine.place?`: where a path leads to a file, or to a free name.
* `Machine.emptied`: the machine after a file has been made empty.
-/

namespace Planimetry

namespace CommandLine

namespace Machine

variable {m m' : Machine} {p q dir names : List String} {content content' : List UInt8}
  {path : String}

/-- The place of the file to which a path leads, or of the one that can be made there. -/
def place? (m : Machine) (path : String) : Option (List String) :=
  match m.target path with
  | .entry p (.file _) | .absent p => some p
  | _ => none

/-- The machine after the file to which a path leads has been made empty, if it leads to one. -/
def emptied (m : Machine) (path : String) : Machine :=
  match m.place? path with
  | some p => m.put p []
  | none => m

/-- The machines have the same files and directories, whatever has been printed. -/
structure SameFiles (m m' : Machine) : Prop where
  entries : m'.entries = m.entries
  directories : m'.directories = m.directories
  here : m'.here = m.here

theorem SameFiles.trans {m'' : Machine} (h : m.SameFiles m') (h' : m'.SameFiles m'') :
    m.SameFiles m'' :=
  ⟨h'.entries.trans h.entries, h'.directories.trans h.directories, h'.here.trans h.here⟩

theorem sameFiles_print (m : Machine) (bytes : List UInt8) : m.SameFiles (m.print bytes) :=
  ⟨rfl, rfl, rfl⟩

/-! ## Putting files -/

@[simp] theorem directories_put (m : Machine) (p : List String) (content : List UInt8) :
    (m.put p content).directories = m.directories := by
  unfold put
  split <;> rfl

/-- Paths lead where the files are, not where something was printed. -/
theorem SameFiles.target (h : m.SameFiles m') (path : String) :
    m'.target path = m.target path := by
  have hfollow : ∀ dir names, m'.follow dir names = m.follow dir names := by
    intro dir names
    induction names generalizing dir with
    | nil => rfl
    | cons name names ih =>
      rw [follow, follow]
      simp only [ih, isDirectory, find?, h.entries, h.directories]
      rfl
  unfold Machine.target
  simp only [hfollow, h.here]

theorem place?_print (m : Machine) (bytes : List UInt8) (path : String) :
    (m.print bytes).place? path = m.place? path := by
  rw [place?, place?, (m.sameFiles_print bytes).target]

theorem directories_emptied (m : Machine) (path : String) :
    (m.emptied path).directories = m.directories := by
  unfold emptied
  split
  · exact directories_put _ _ _
  · rfl

/-- Making a file empty changes that file and no other one. -/
theorem find?_emptied (m : Machine) (path : String) (q : List String) :
    (m.emptied path).find? q = if m.place? path = some q then some (.file []) else m.find? q := by
  unfold emptied
  cases m.place? path with
  | none => rfl
  | some p =>
    by_cases hq : q = p
    · rw [hq, if_pos rfl]
      exact find?_put_self m p []
    · rw [if_neg fun h => hq (Option.some.inj h).symm]
      exact find?_put_of_ne m [] hq

end Machine

end CommandLine

end Planimetry
