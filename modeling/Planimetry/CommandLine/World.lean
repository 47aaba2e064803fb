/-!
# The world of a run

What a run of the command line needs of its surroundings, for any kind of effect.

## Main definitions

* `World`: the standard streams and the files.
-/

namespace Planimetry

namespace CommandLine

/-- What a path leads to. -/
inductive PathKind where
  | missing
  | file
  /-- A directory, or a device. -/
  | other
deriving DecidableEq, Repr

/-- Standard streams and files, with effects in `m`. A failing operation gives the reason. -/
structure World (m : Type → Type) where
  input : m (List UInt8)
  print : String → m Unit
  complain : String → m Unit
  /-- What a path leads to. -/
  kind : String → m PathKind
  /-- The content of a file. -/
  read : String → m (Except String (List UInt8))
  /-- Makes a file empty, a new one if there was none. -/
  create : String → m (Except String Unit)
  /-- Gives a created file a content. -/
  write : String → List UInt8 → m (Except String Unit)

end CommandLine

end Planimetry
