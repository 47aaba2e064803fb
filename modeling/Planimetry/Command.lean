import Planimetry.Coord.Literal
import Planimetry.Token

/-!
# Commands

A program is a sequence of operations with `;` between them. This module holds what a program
says, before any point has coordinates.

## Main definitions

* `Command`: the six commands.
* `SyntaxFault`: what a text says that no program can say there.
-/

namespace Planimetry

/-- A point as a program mentions it: its name, and its coordinates if they follow the name. -/
structure Mention where
  name : String
  pos : Position
  given : Option Coord
deriving DecidableEq

/-- A side, written as the two letters of its ends. -/
structure Side where
  first : Char
  second : Char
  pos : Position
deriving DecidableEq

namespace Side

def text (s : Side) : String := String.ofList [s.first, s.second]

def firstName (s : Side) : String := s.first.toString

def secondName (s : Side) : String := s.second.toString

end Side

inductive Command where
  | place (p : Mention)
  /-- Connect the listed points, each with each. -/
  | connect (ps : List Mention)
  | segment (a b : Mention)
  | perpendicular (segment : Side)
  | triangle (a b c : Mention)
  /-- Build a square on a side, whose ends may be given coordinates. -/
  | square (side : Side) (a b : Option Coord)
deriving DecidableEq

/-- A command and the position of its first word. -/
structure Operation where
  pos : Position
  command : Command
deriving DecidableEq

/-- The points that a command asks the table for, in order. -/
def Command.mentions : Command → List Mention
  | place p => [p]
  | connect ps => ps
  | segment a b => [a, b]
  | perpendicular _ => []
  | triangle a b c => [a, b, c]
  | square s a b => [⟨s.firstName, s.pos, a⟩, ⟨s.secondName, s.pos, b⟩]

/-! ## Faults of the text -/

/-- What a program could have gone on with. -/
inductive Expectation where
  | operation
  | figure
  | keyword (k : Keyword)
  | noun (n : Noun)
  | symbol (s : String)
  | pointName
  | sideName
  /-- Two letters, and not another number of them. -/
  | twoLetters
  | coordinatesOf (name : String)
  | literal (cause : LiteralFault)
  | endOfCommand
deriving DecidableEq

/-- A word, or the end of the text, where no program goes on. -/
structure SyntaxFault where
  expected : Expectation
  found : Option Token
deriving DecidableEq

namespace SyntaxFault

def describe : Option Token → String
  | some t => s!"\"{t.lexeme}\" ({t.category})"
  | none => "end of input"

/-- How a message quotes the word that was found. -/
def quote (found : Option Token) : String := (found.map (·.lexeme)).getD ""

def message (f : SyntaxFault) : String :=
  let found := describe f.found
  let word := quote f.found
  match f.expected with
  | .operation => s!"unknown operation {found}"
  | .figure => s!"unknown figure {found}"
  | .keyword k => s!"expected \"{k.word}\", found {found}"
  | .noun n => s!"expected \"{n.stem}…\", found {found}"
  | .symbol s => s!"expected \"{s}\", found {found}"
  | .pointName => s!"expected point name, found {found}"
  | .sideName => s!"expected two-letter name, found {found}"
  | .twoLetters => s!"expected two-letter name, found \"{word}\""
  | .coordinatesOf name => s!"expected coordinates of {name}, found {found}"
  | .literal cause => cause.message
  | .endOfCommand => s!"expected \";\" or end of input, found \"{word}\""

/-- The position of a syntax fault in a text that ends at `finish`. -/
def pos (f : SyntaxFault) (finish : Position) : Position :=
  match f.found with
  | some t => t.pos
  | none => finish

end SyntaxFault

end Planimetry
