import Planimetry.Category
import Planimetry.Position
import Planimetry.Vocabulary

/-!
# Tokens

A token is a word of the text with its category and the position of its first character. The
words are the longest runs of characters that are not white space.

## Main definitions

* `Token.words`: the words of a text with their positions.
* `Token.ofText`: the tokens of a text.
* `Token.scan`: the same, the positions being counted in 64 bits.
-/

namespace Planimetry

/-- A classified word. -/
structure Token where
  lexeme : String
  category : Category
  pos : Position
deriving DecidableEq, Repr

namespace Token

instance : ToString Token := ⟨fun t => s!"[{t.category}: {t.lexeme}]"⟩

/-- The keyword that a reserved word spells. -/
def keyword? (t : Token) : Option Keyword :=
  if t.category = .reserved then Keyword.ofLexeme? t.lexeme else none

/-- The noun that a geometry word begins with. -/
def noun? (t : Token) : Option Noun :=
  if t.category = .geometry then Noun.ofLexeme? t.lexeme else none

def isDelimiter (t : Token) (symbol : String) : Bool :=
  t.category = .delimiter && t.lexeme == symbol

theorem category_of_keyword? {t : Token} {k : Keyword} (h : t.keyword? = some k) :
    t.category = .reserved := by
  unfold keyword? at h
  split at h
  · assumption
  · cases h

theorem category_of_noun? {t : Token} {n : Noun} (h : t.noun? = some n) :
    t.category = .geometry := by
  unfold noun? at h
  split at h
  · assumption
  · cases h

theorem isDelimiter_iff {t : Token} {s : String} :
    t.isDelimiter s = true ↔ t.category = .delimiter ∧ t.lexeme = s := by
  simp [isDelimiter]

/-- The words of a text whose first character stands at `p`. A word begins with a character that
is not white space, at the beginning (`fresh`) or behind white space. -/
def wordsFrom : Bool → Position → List Char → List (Position × List Char)
  | _, _, [] => []
  | fresh, p, c :: cs =>
    if Text.isWhite c then wordsFrom true (p.after c) cs
    else if fresh then
      (p, c :: cs.takeWhile Text.isInk) :: wordsFrom false (p.after c) cs
    else wordsFrom false (p.after c) cs

/-- The words of a text, with the position of the first character of each. -/
def words (cs : List Char) : List (Position × List Char) := wordsFrom true Position.start cs

def ofWord (p : Position) (w : List Char) : Token :=
  ⟨String.ofList w, Category.ofWord w, p⟩

def ofText (text : String) : List Token :=
  (words text.toList).map fun (p, w) => ofWord p w

/-- `wordsFrom`, as long as the position behind every character stays countable. -/
def wordsFrom? : Bool → Position → List Char → Option (List (Position × List Char))
  | _, _, [] => some []
  | fresh, p, c :: cs =>
    (p.after? c).bind fun q =>
      if Text.isWhite c then wordsFrom? true q cs
      else if fresh then (wordsFrom? false q cs).map ((p, c :: cs.takeWhile Text.isInk) :: ·)
      else wordsFrom? false q cs

/-- The tokens of a text, if all its lines and columns can be counted. -/
def scan (text : String) : Except ArithmeticFault (List Token) := do
  let found ← Position.counted (wordsFrom? true Position.start text.toList)
  return found.map fun (p, w) => ofWord p w

end Token

end Planimetry
