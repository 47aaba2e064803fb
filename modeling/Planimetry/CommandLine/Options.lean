import Planimetry.Coord
import Planimetry.Text.Numeral

/-!
# Options of the command line

## Main definitions

* `Options`: what a run is asked to do.
* `Request.ofArgs`: what the arguments ask for.
-/

namespace Planimetry

namespace CommandLine

/-- What a run is asked to do. -/
structure Options where
  /-- The file with the program; none is standard input. -/
  input : Option String
  /-- Where the exported program goes. -/
  output : String
  check : Bool
  seed : Option UInt64
  width : Int32
  height : Int32
  spacing : Int32
  tokens : Bool
deriving DecidableEq

/-- Options that have a value. -/
inductive ValueOption where
  | output
  | seed
  | width
  | height
  | spacing
deriving DecidableEq, Repr

/-- The arguments understood so far. -/
structure Settings where
  input : Option String
  output : Option String
  check : Bool
  seed : Option UInt64
  width : Option Int32
  height : Option Int32
  spacing : Option Int32
  tokens : Bool

/-- What the arguments ask for. -/
inductive Request where
  | run (o : Options)
  | help
  | version
  | misuse
deriving DecidableEq

namespace Settings

def empty : Settings := ⟨none, none, false, none, none, none, none, false⟩

/-- A measure in pixels: a number from one to the greatest coordinate. -/
def measure? (value : String) : Option Int32 :=
  match Text.readNumeral Scalar.least Scalar.greatest value.toList with
  | .ok n => if 1 ≤ n then some (Int32.ofInt n) else none
  | .error _ => none

/-- A seed: a number of 64 bits. -/
def seed? (value : String) : Option UInt64 :=
  match Text.readNumeral 0 18446744073709551615 value.toList with
  | .ok n => some (UInt64.ofNat n.toNat)
  | .error _ => none

/-- Sets an option to a value. An option can be set once, to a value of its kind. -/
def set (s : Settings) (o : ValueOption) (value : String) : Option Settings :=
  match o with
  | .output => if s.output.isSome then none else some { s with output := some value }
  | .seed => if s.seed.isSome then none else (seed? value).map fun n => { s with seed := some n }
  | .width =>
    if s.width.isSome then none else (measure? value).map fun n => { s with width := some n }
  | .height =>
    if s.height.isSome then none else (measure? value).map fun n => { s with height := some n }
  | .spacing =>
    if s.spacing.isSome then none else (measure? value).map fun n => { s with spacing := some n }

/-- Sets the input, which can be done once. -/
def setInput (s : Settings) (value : String) : Option Settings :=
  if s.input.isSome then none else some { s with input := some value }

/-- The options, with the usual values for what is not set. -/
def options (s : Settings) : Options where
  input := if s.input = some "-" then none else s.input
  output := s.output.getD "drawing.rs"
  check := s.check
  seed := s.seed
  width := s.width.getD 800
  height := s.height.getD 600
  spacing := s.spacing.getD 40
  tokens := s.tokens

end Settings

namespace Request

/-- Reads arguments that are no options. -/
def ofInputs : Settings → List String → Request
  | s, [] => .run s.options
  | s, a :: as =>
    match s.setInput a with
    | some s => ofInputs s as
    | none => .misuse

/-- An argument that begins with a dash, other than the dash alone. -/
def isDashed (a : String) : Bool :=
  match a.toList with
  | '-' :: _ :: _ => true
  | _ => false

/-- What an argument says. -/
inductive Word where
  | setting (o : ValueOption) (value : String)
  /-- An option whose value is the next argument. -/
  | opening (o : ValueOption)
  | check
  | tokens
  | help
  | version
  | divider
  | input
  | unknown
deriving DecidableEq

/-- An option by its long name. -/
def longOption? : String → Option ValueOption
  | "output" => some .output
  | "seed" => some .seed
  | "width" => some .width
  | "height" => some .height
  | "spacing" => some .spacing
  | _ => none

/-- What an argument with two dashes says: a name, perhaps with an equals sign and a value. -/
def longWord (body : List Char) : Word :=
  let name := String.ofList (body.takeWhile (· ≠ '='))
  match longOption? name, body.dropWhile (· ≠ '=') with
  | some o, _ :: value => .setting o (String.ofList value)
  | some o, [] => .opening o
  | none, [] =>
    if name = "check" then .check
    else if name = "tokens" then .tokens
    else if name = "help" then .help
    else if name = "version" then .version
    else .unknown
  | none, _ :: _ => .unknown

/-- What an argument with one dash says: a letter, perhaps with a value behind it. -/
def shortWord : List Char → Word
  | ['o'] => .opening .output
  | 'o' :: '=' :: value => .setting .output (String.ofList value)
  | 'o' :: value => .setting .output (String.ofList value)
  | 'h' :: _ => .help
  | 'V' :: _ => .version
  | _ => .unknown

/-- What an argument says. -/
def word (a : String) : Word :=
  match a.toList with
  | ['-', '-'] => .divider
  | '-' :: '-' :: body => longWord body
  | '-' :: c :: body => shortWord (c :: body)
  | _ => .input

/-- Reads arguments from the left; the first one that decides the request ends the reading.
`waiting` is the option whose value comes next. -/
def ofArgsFrom : Option ValueOption → Settings → List String → Request
  | none, s, [] => .run s.options
  | some _, _, [] => .misuse
  | some o, s, a :: as =>
    if isDashed a then .misuse
    else
      match s.set o a with
      | some s => ofArgsFrom none s as
      | none => .misuse
  | none, s, a :: as =>
    match word a with
    | .divider => ofInputs s as
    | .opening o => ofArgsFrom (some o) s as
    | .setting o value =>
      match s.set o value with
      | some s => ofArgsFrom none s as
      | none => .misuse
    | .check => if s.check then .misuse else ofArgsFrom none { s with check := true } as
    | .tokens => if s.tokens then .misuse else ofArgsFrom none { s with tokens := true } as
    | .help => .help
    | .version => .version
    | .input =>
      match s.setInput a with
      | some s => ofArgsFrom none s as
      | none => .misuse
    | .unknown => .misuse

/-- What the arguments of a run ask for. -/
def ofArgs (args : List String) : Request := ofArgsFrom none Settings.empty args

end Request

end CommandLine

end Planimetry
