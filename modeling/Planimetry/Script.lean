import Planimetry.Token

/-!
# Scripts

A script is a text cut into tokens, read from the front, together with what messages need: where
the text ends and which file it came from.
-/

namespace Planimetry

/-- A text that is being read token by token. -/
structure Script where
  tokens : List Token
  /-- The position of the token read last. -/
  last : Position
  /-- The position behind the whole text. -/
  finish : Position
  /-- The file that the text came from. -/
  path : Option String
deriving DecidableEq, Repr

namespace Script

/-- A text that nothing has been read of. -/
def ofText (text : String) (path : Option String) : Script :=
  ⟨Token.ofText text, Position.start, Position.start.walk text.toList, path⟩

/-- `ofText`, if all the lines and columns can be counted. The end of the text is looked for
first. -/
def scan (text : String) (path : Option String) : Except ArithmeticFault Script := do
  let finish ← Position.start.tally text.toList
  let tokens ← Token.scan text
  return ⟨tokens, Position.start, finish, path⟩

def next (s : Script) : Option Token × Script :=
  match s.tokens with
  | [] => (none, s)
  | t :: ts => (some t, { s with tokens := ts, last := t.pos })

def peek? (s : Script) : Option Token := s.tokens.head?

def isEmpty (s : Script) : Bool := s.tokens.isEmpty

end Script

end Planimetry
