import Planimetry.Text.CharRange

/-!
# Quoted text

A name is quoted between two `"`. Quotes and backslashes get a backslash, four control
characters have a letter, and any other character that does not print by itself is written as
`\u` and its code point in braces.
-/

namespace Planimetry.Text

/-- Characters that are not printed by themselves: controls, format characters, separators other
than the blank, private use, and the combining marks for Latin and Cyrillic letters. Combining
marks of other scripts and unassigned code points are not in the table. -/
def invisibleRanges : List CharRange :=
  [⟨0x00, 0x1F⟩, ⟨0x7F, 0xA0⟩, ⟨0xAD, 0xAD⟩, ⟨0x300, 0x36F⟩, ⟨0x483, 0x489⟩,
   ⟨0x600, 0x605⟩, ⟨0x61C, 0x61C⟩, ⟨0x6DD, 0x6DD⟩, ⟨0x70F, 0x70F⟩, ⟨0x890, 0x891⟩,
   ⟨0x8E2, 0x8E2⟩, ⟨0x1680, 0x1680⟩, ⟨0x180E, 0x180E⟩, ⟨0x1AB0, 0x1ACE⟩, ⟨0x1DC0, 0x1DFF⟩,
   ⟨0x2000, 0x200F⟩, ⟨0x2028, 0x202F⟩, ⟨0x205F, 0x206F⟩, ⟨0x20D0, 0x20F0⟩, ⟨0x2DE0, 0x2DFF⟩,
   ⟨0x3000, 0x3000⟩, ⟨0xA66F, 0xA672⟩, ⟨0xA674, 0xA67D⟩, ⟨0xA69E, 0xA69F⟩, ⟨0xE000, 0xF8FF⟩,
   ⟨0xFE00, 0xFE0F⟩, ⟨0xFE20, 0xFE2F⟩, ⟨0xFEFF, 0xFEFF⟩, ⟨0xFFF9, 0xFFFB⟩, ⟨0x110BD, 0x110BD⟩,
   ⟨0x110CD, 0x110CD⟩, ⟨0x13430, 0x1343F⟩, ⟨0x1BCA0, 0x1BCA3⟩, ⟨0x1D173, 0x1D17A⟩,
   ⟨0xE0001, 0xE0001⟩, ⟨0xE0020, 0xE007F⟩, ⟨0xE0100, 0xE01EF⟩, ⟨0xF0000, 0xFFFFD⟩,
   ⟨0x100000, 0x10FFFD⟩]

/-- Whether `c` is written by its code point. -/
def isInvisible (c : Char) : Bool := covers invisibleRanges c

/-- The letter that stands for `c` behind a backslash, if it has one. -/
def escapeLetter? (c : Char) : Option Char :=
  if c = '"' then some '"'
  else if c = '\\' then some '\\'
  else if c = '\x00' then some '0'
  else if c = '\t' then some 't'
  else if c = '\r' then some 'r'
  else if c = '\n' then some 'n'
  else none

/-- How `c` is written inside quotes. -/
def escapeChar (c : Char) : List Char :=
  match escapeLetter? c with
  | some l => ['\\', l]
  | none =>
    if isInvisible c then '\\' :: 'u' :: '\x7b' :: (Nat.toDigits 16 c.toNat ++ ['\x7d'])
    else [c]

def escape (cs : List Char) : List Char := cs.flatMap escapeChar

def quoted (s : String) : String := String.ofList ('"' :: (escape s.toList ++ ['"']))

end Planimetry.Text
