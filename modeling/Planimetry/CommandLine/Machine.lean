import Planimetry.CommandLine.World

/-!
# Machines

A machine is a world as a plain value: a tree of files and devices, a working directory, and the
standard streams. Paths are followed from the root or from the working directory, name by name.

## Main definitions

* `Machine`: files, directories, devices and streams.
* `Machine.target`: where a path leads.
* `Machine.world`: the world of a machine.
-/

namespace Planimetry

namespace CommandLine

/-- What becomes of the bytes that are written to a device. -/
inductive Device where
  /-- They are gone. -/
  | sink
  /-- They are refused. -/
  | full
  /-- They go to standard output. -/
  | output
  /-- They go to standard error. -/
  | errors
deriving DecidableEq, Repr

/-- What stands at the end of a path, unless it is a directory. -/
inductive Entry where
  | file (content : List UInt8)
  | device (d : Device)
deriving DecidableEq, Repr

/-- Files, directories and devices by the names on their path from the root, and the standard
streams of a run. -/
structure Machine where
  entries : List (List String × Entry)
  directories : List (List String)
  here : List String
  input : List UInt8
  output : List UInt8
  errors : List UInt8
deriving DecidableEq, Repr

namespace Machine

/-! ## Making a machine -/

/-- The devices that every machine has. -/
def standardDevices : List (List String × Device) :=
  [(["dev", "null"], .sink), (["dev", "zero"], .sink), (["dev", "full"], .full),
   (["dev", "random"], .sink), (["dev", "urandom"], .sink),
   (["dev", "stdin"], .sink), (["dev", "stdout"], .output), (["dev", "stderr"], .errors),
   (["dev", "fd", "0"], .sink), (["dev", "fd", "1"], .output), (["dev", "fd", "2"], .errors)]

/-- The directories that every machine has. -/
def standardDirectories : List (List String) :=
  [["bin"], ["boot"], ["dev"], ["etc"], ["home"], ["lib"], ["media"], ["mnt"], ["opt"], ["proc"],
   ["root"], ["run"], ["sbin"], ["srv"], ["sys"], ["tmp"], ["usr"], ["var"]]

/-- The working directory of a bare machine. -/
def workplace : List String := ["tmp", "drawings"]

/-- A machine whose working directory is empty, with the given standard input. -/
def bare (input : List UInt8) : Machine where
  entries := standardDevices.map fun (p, d) => (p, .device d)
  directories := workplace :: standardDirectories
  here := workplace
  input := input
  output := []
  errors := []

/-- The machine with one more file below the working directory. -/
def addFile (m : Machine) (p : List String) (content : List UInt8) : Machine :=
  { m with entries := m.entries ++ [(m.here ++ p, .file content)] }

/-- The machine with one more directory below the working directory. -/
def addDirectory (m : Machine) (p : List String) : Machine :=
  { m with directories := m.directories ++ [m.here ++ p] }

/-! ## Looking -/

def find? (m : Machine) (p : List String) : Option Entry := m.entries.lookup p

/-- Whether a directory is at `p`; a directory is wherever something lies below it. -/
def isDirectory (m : Machine) (p : List String) : Bool :=
  p.isEmpty || m.directories.any (p.isPrefixOf ·) ||
    m.entries.any fun (q, _) => p.isPrefixOf q && p ≠ q

/-- The files that lie in the working directory itself, by name. -/
def localFiles (m : Machine) : List (String × List UInt8) :=
  m.entries.filterMap fun (p, e) =>
    match e, p.getLast? with
    | .file content, some name => if p.dropLast = m.here then some (name, content) else none
    | _, _ => none

/-- The machine with a file of the given content at `p`. -/
def put (m : Machine) (p : List String) (content : List UInt8) : Machine :=
  if (m.find? p).isSome then
    { m with entries := m.entries.map fun (q, e) => (q, if q = p then .file content else e) }
  else { m with entries := m.entries ++ [(p, .file content)] }

theorem find?_put_self (m : Machine) (p : List String) (content : List UInt8) :
    (m.put p content).find? p = some (.file content) := by
  unfold put
  split
  · rename_i h
    simp only [find?] at h ⊢
    revert h
    induction m.entries with
    | nil => intro h; cases h
    | cons e es ih =>
      intro h
      obtain ⟨q, e⟩ := e
      by_cases hq : p = q
      · subst hq
        simp
      · have hb : (p == q) = false := beq_eq_false_iff_ne.2 hq
        simp only [List.lookup_cons, hb, List.map_cons] at h ⊢
        exact ih h
  · rename_i h
    have hn : m.entries.lookup p = none := Option.not_isSome_iff_eq_none.1 h
    simp only [find?, List.lookup_append, hn, Option.none_or, List.lookup_cons_self]

theorem find?_put_of_ne (m : Machine) {p q : List String} (content : List UInt8) (h : q ≠ p) :
    (m.put p content).find? q = m.find? q := by
  unfold put
  split
  · simp only [find?]
    induction m.entries with
    | nil => rfl
    | cons e es ih =>
      obtain ⟨r, e⟩ := e
      by_cases hr : q = r
      · subst hr
        simp [h]
      · have hb : (q == r) = false := beq_eq_false_iff_ne.2 hr
        simp only [List.lookup_cons, hb, List.map_cons]
        exact ih
  · have hb : (q == p) = false := beq_eq_false_iff_ne.2 h
    simp [find?, List.lookup_append, List.lookup_cons, hb]

/-! ## Paths -/

/-- Where a path leads. -/
inductive Target where
  | directory
  | entry (p : List String) (e : Entry)
  /-- Nothing, but a file could be made. -/
  | absent (p : List String)
  /-- A name that is no directory, with a slash behind it. -/
  | slashed
  /-- A directory on the way is missing. -/
  | missing
  /-- Something that is no directory is on the way. -/
  | blocked
deriving DecidableEq, Repr

/-- Follows the names of a path from the directory `dir`. Above the root is the root. -/
def follow (m : Machine) : List String → List String → Target
  | _, [] => .directory
  | dir, name :: names =>
    if name = "" ∨ name = "." then follow m dir names
    else if name = ".." then follow m dir.dropLast names
    else
      let p := dir ++ [name]
      if m.isDirectory p then follow m p names
      else
        match m.find? p, names.isEmpty, names.all (· = "") with
        | some e, true, _ => .entry p e
        | none, true, _ => .absent p
        | _, false, true => .slashed
        | some _, false, false => .blocked
        | none, false, false => .missing

/-- The pieces of a text between its slashes. -/
def pieces (path : List Char) : List String :=
  path.foldr
    (fun c ps =>
      if c = '/' then "" :: ps
      else
        match ps with
        | [] => [c.toString]
        | p :: ps => (c.toString ++ p) :: ps)
    [""]

/-- Where a path leads: one that begins with a slash from the root, another from the working
directory. -/
def target (m : Machine) (path : String) : Target :=
  match path.toList with
  | [] => .missing
  | '/' :: rest => m.follow [] (pieces rest)
  | cs => m.follow m.here (pieces cs)

def isDevice (m : Machine) (path : String) : Bool :=
  match m.target path with
  | .entry _ (.device _) => true
  | _ => false

/-! ## Files -/

/-- The reason why something that is missing cannot be had. -/
def noSuchFile : String := "No such file or directory (os error 2)"

/-- The reason why a path cannot go through a file. -/
def notDirectory : String := "Not a directory (os error 20)"

/-- The reason why a directory cannot be taken for a file. -/
def directoryInstead : String := "Is a directory (os error 21)"

/-- The reason why a full device takes nothing. -/
def noSpace : String := "No space left on device (os error 28)"

/-- What a path leads to. -/
def kind (m : Machine) (path : String) : PathKind :=
  match m.target path with
  | .entry _ (.file _) => .file
  | .directory | .entry _ (.device _) => .other
  | .absent _ | .slashed | .missing | .blocked => .missing

/-- The content of a file. A device has none. -/
def read (m : Machine) (path : String) : Except String (List UInt8) :=
  match m.target path with
  | .entry _ (.file content) => .ok content
  | .entry _ (.device _) => .ok []
  | .directory => .error directoryInstead
  | .absent _ | .missing => .error noSuchFile
  | .slashed | .blocked => .error notDirectory

/-- Makes a file empty, a new one if there was none. A device stays as it is. -/
def create (m : Machine) (path : String) : Except String Machine :=
  match m.target path with
  | .entry p (.file _) | .absent p => .ok (m.put p [])
  | .entry _ (.device _) => .ok m
  | .directory | .slashed => .error directoryInstead
  | .missing => .error noSuchFile
  | .blocked => .error notDirectory

def print (m : Machine) (bytes : List UInt8) : Machine := { m with output := m.output ++ bytes }

def complain (m : Machine) (bytes : List UInt8) : Machine := { m with errors := m.errors ++ bytes }

def feed (m : Machine) (bytes : List UInt8) : Device → Except String Machine
  | .sink => .ok m
  | .full => if bytes.isEmpty then .ok m else .error noSpace
  | .output => .ok (m.print bytes)
  | .errors => .ok (m.complain bytes)

/-- Gives an existing file a content, or a device something to take. -/
def write (m : Machine) (path : String) (content : List UInt8) : Except String Machine :=
  match m.target path with
  | .entry p (.file _) => .ok (m.put p content)
  | .entry _ (.device d) => m.feed content d
  | .directory => .error directoryInstead
  | .absent _ | .missing => .error noSuchFile
  | .slashed | .blocked => .error notDirectory

/-! ## The world of a machine -/

/-- Carries out a change of the machine, if it succeeds. -/
def change (action : Machine → Except String Machine) : StateM Machine (Except String Unit) :=
  fun m =>
    match action m with
    | .ok m' => (.ok (), m')
    | .error e => (.error e, m)

/-- The operations of a run on a machine. -/
def world : World (StateM Machine) where
  input := return (← get).input
  print text := modify (·.print text.toUTF8.toList)
  complain text := modify (·.complain text.toUTF8.toList)
  kind path := return (← get).kind path
  read path := return (← get).read path
  create path := change (·.create path)
  write path content := change (·.write path content)

end Machine

end CommandLine

end Planimetry
