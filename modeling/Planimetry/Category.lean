import Planimetry.Pattern
import Planimetry.Text.DecimalDigit
import Planimetry.Text.White

/-!
# Categories of words

Each word of a program belongs to a category. Ten categories have a pattern; they are tried in a
fixed order and the first one that fits the whole word wins. A word that fits none is an error
word, which is no fault by itself.

## Main definitions

* `Category.pattern`: the words of a category.
* `Category.ofWord`: the category of a word.
-/

namespace Planimetry

/-- Lexical categories, in the order in which they are tried. -/
inductive Category where
  | condition
  | arithmetic
  | delimiter
  | builtin
  | float
  | integer
  | coordinates
  | reserved
  | geometry
  | name
  | error
deriving DecidableEq, Repr

namespace Category

open Pattern Text

def label : Category → String
  | condition => "CONDITION_SIGN"
  | arithmetic => "ARITHMETIC_OPERATOR"
  | delimiter => "DELIMITER"
  | builtin => "BUILTIN_FUNCTION"
  | float => "FLOAT"
  | integer => "INTEGER"
  | coordinates => "COORDINATES"
  | reserved => "RESERVED_WORD"
  | geometry => "GEOMETRY"
  | name => "NAME"
  | error => "ERROR"

instance : ToString Category := ⟨label⟩

/-- The categories that have a pattern, in the order in which they are tried. -/
def ordered : List Category :=
  [condition, arithmetic, delimiter, builtin, float, integer, coordinates, reserved, geometry, name]

/-! ## Patterns -/

/-- White space of any length. -/
def gap : Pattern := .star (.one isWhite)

/-- Decimal digits of any script. -/
def digits : Pattern := many (.one isDecimalDigit)

/-- A whole or fractional number in ASCII digits. -/
def number : Pattern :=
  inOrder
    [optional (char '-'), many (.one isAsciiDigit),
     optional (.seq (char '.') (many (.one isAsciiDigit)))]

/-- The three apostrophes that a word may hold. -/
def apostrophe : Pattern := anyOf "'ʼ’"

/-- Reserved words of Latin letters; they have no meaning in a program. -/
def latinReserved : List String :=
  ["if", "else", "while", "char", "double", "float", "String", "int", "void", "false", "true",
   "null", "private", "public", "static", "return"]

/-- Command words without an apostrophe, in capitals and in small letters. -/
def plainReserved : List String :=
  ["ЗАДАНО", "ПОСТАВИТИ", "ПРОВЕСТИ", "ПОБУДУВАТИ", "ЧЕРЕЗ", "ЗА", "ТА", "ЗІ", "ДВІ", "ДО",
   "задано", "поставити", "провести", "побудувати", "через", "за", "та", "зі", "дві", "до"]

/-- Capital letters that an inflected noun may end in. -/
def capitalLetter : Pattern := .alt (between 'А' 'Я') (anyOf "ІЇЄҐ")

/-- Small letters that an inflected noun may end in. -/
def smallLetter : Pattern := .alt (between 'а' 'я') (anyOf "іїєґ")

def capitalStems : List String :=
  ["ТОЧК", "ТРИКУТН", "ВІДРІЗ", "ПЕРПЕНДИКУЛ", "СТОРОН", "КВАДРАТ", "ПРЯМ", "БІСЕКТР", "КУТ"]

def smallStems : List String :=
  ["точк", "трикутн", "відріз", "перпендикул", "сторон", "квадрат", "прям", "бісектр", "кут"]

def nameLetter : Pattern :=
  oneOf [between 'А' 'Я', between 'а' 'я', anyOf "ІіЇїЄєҐґ", between 'A' 'Z', between 'a' 'z']

/-- The words of a category. No pattern is left for error words. -/
def pattern : Category → Pattern
  | condition => Pattern.words ["<=", ">=", "==", "<", ">", "!=", "&&", "||"]
  | arithmetic => anyOf "+-*/=%"
  | delimiter => anyOf "[]()\x7b\x7d.,!?;:'\"\\"
  | builtin => Pattern.words ["sin", "cos", "tan", "log", "exp", "max", "min"]
  | float => inOrder [digits, char '.', digits]
  | integer => digits
  | coordinates =>
    inOrder [gap, char '(', gap, number, gap, char ',', gap, number, gap, char ')']
  | reserved =>
    oneOf
      [Pattern.words latinReserved, Pattern.words plainReserved,
       inOrder [text "З", apostrophe, text "ЄДНАТИ"],
       inOrder [text "з", apostrophe, text "єднати"]]
  | geometry =>
    .alt (.seq (Pattern.words capitalStems) (.star capitalLetter))
      (.seq (Pattern.words smallStems) (.star smallLetter))
  | name => .seq nameLetter (.star (.alt nameLetter (between '0' '9')))
  | error => .never

/-- The first category whose pattern fits the whole word. -/
def ofWord (w : List Char) : Category :=
  (ordered.find? fun c => c.pattern.accepts w).getD error

end Category

end Planimetry
