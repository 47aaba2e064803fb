import Planimetry.Coord
import Planimetry.Text.Numeral
import Planimetry.Text.White

/-!
# Coordinate literals

Reading a coordinate from a word such as `(3,1)` or `( -5 , 5 )`.
-/

namespace Planimetry

/-- Why a word is no coordinate. -/
inductive LiteralFault where
  | notPair (lexeme : String)
  | fraction (lexeme : String)
  | badNumber (part : String) (cause : Text.NumeralFault)
deriving DecidableEq, Repr

def LiteralFault.message : LiteralFault → String
  | .notPair lexeme => s!"\"{lexeme}\" is not a coordinate pair"
  | .fraction lexeme => s!"coordinates must be integers, found {lexeme}"
  | .badNumber part cause => s!"bad coordinate \"{part}\": {cause.message}"

namespace Coord

/-- What stands between the parentheses of a word, white space around them left out. -/
def inner? (lexeme : List Char) : Option (List Char) :=
  match Text.trim lexeme with
  | '(' :: rest => if rest.getLast? = some ')' then some rest.dropLast else none
  | _ => none

/-- The two parts of a text with exactly one comma, trimmed. -/
def parts? (inner : List Char) : Option (List Char × List Char) :=
  match inner.dropWhile (· ≠ ',') with
  | _ :: rest =>
    if ',' ∈ rest then none
    else some (Text.trim (inner.takeWhile (· ≠ ',')), Text.trim rest)
  | [] => none

/-- One component of a literal. -/
def component (part : List Char) : Except LiteralFault Int32 :=
  match Text.readNumeral Scalar.least Scalar.greatest part with
  | .ok n => .ok (Int32.ofInt n)
  | .error e => .error (.badNumber (String.ofList part) e)

/-- Reads a coordinate literal. A fraction is refused before the numbers are looked at. -/
def parse (lexeme : String) : Except LiteralFault Coord :=
  match (inner? lexeme.toList).bind parts? with
  | none => .error (.notPair lexeme)
  | some (x, y) =>
    if '.' ∈ x ∨ '.' ∈ y then .error (.fraction lexeme)
    else do
      let x ← component x
      let y ← component y
      return ⟨x, y⟩

end Coord

end Planimetry
