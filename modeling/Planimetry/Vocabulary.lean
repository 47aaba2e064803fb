import Planimetry.Text.LowerCase

/-!
# Vocabulary of the command language

Commands are written with eleven keywords, which have one form each, and nine geometry nouns,
which are known by their stem in whatever inflection.
-/

namespace Planimetry

inductive Keyword where
  | given
  | place
  | connect
  | draw
  | build
  | through
  | upon
  | and
  | having
  | two
  | toward
deriving DecidableEq, Repr

namespace Keyword

def all : List Keyword :=
  [given, place, connect, draw, build, through, upon, and, having, two, toward]

/-- The word for a keyword, in small letters and with the letter apostrophe. -/
def word : Keyword → String
  | given => "задано"
  | place => "поставити"
  | connect => "зʼєднати"
  | draw => "провести"
  | build => "побудувати"
  | through => "через"
  | upon => "за"
  | and => "та"
  | having => "зі"
  | two => "дві"
  | toward => "до"

/-- An ASCII or curly apostrophe becomes the letter apostrophe. -/
def unifyApostrophe (c : Char) : Char :=
  if c = '\'' ∨ c = '’' then 'ʼ' else c

/-- The form in which words are compared: small letters, one apostrophe. -/
def normalize (w : List Char) : List Char := (Text.lower w).map unifyApostrophe

/-- The keyword that `lexeme` spells, in any case and with any apostrophe. -/
def ofLexeme? (lexeme : String) : Option Keyword :=
  all.find? fun k => k.word.toList == normalize lexeme.toList

end Keyword

inductive Noun where
  | point
  | triangle
  | segment
  | perpendicular
  | side
  | square
  | line
  | bisector
  | angle
deriving DecidableEq, Repr

namespace Noun

def all : List Noun :=
  [point, triangle, segment, perpendicular, side, square, line, bisector, angle]

/-- The part of a noun that no inflection changes. -/
def stem : Noun → String
  | point => "точк"
  | triangle => "трикутн"
  | segment => "відріз"
  | perpendicular => "перпендикул"
  | side => "сторон"
  | square => "квадрат"
  | line => "прям"
  | bisector => "бісектр"
  | angle => "кут"

/-- The noun whose stem `lexeme` begins with, in any case. -/
def ofLexeme? (lexeme : String) : Option Noun :=
  all.find? fun n => n.stem.toList.isPrefixOf (Text.lower lexeme.toList)

end Noun

end Planimetry
