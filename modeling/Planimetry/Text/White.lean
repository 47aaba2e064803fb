import Planimetry.Text.CharRange

/-!
# White space

Words are separated by the characters with the Unicode property White_Space.
-/

namespace Planimetry.Text

/-- The 25 white-space characters. -/
def whiteRanges : List CharRange :=
  [⟨0x09, 0x0D⟩, ⟨0x20, 0x20⟩, ⟨0x85, 0x85⟩, ⟨0xA0, 0xA0⟩, ⟨0x1680, 0x1680⟩,
   ⟨0x2000, 0x200A⟩, ⟨0x2028, 0x2029⟩, ⟨0x202F, 0x202F⟩, ⟨0x205F, 0x205F⟩, ⟨0x3000, 0x3000⟩]

def isWhite (c : Char) : Bool := covers whiteRanges c

/-- Whether `c` may stand in a word. -/
def isInk (c : Char) : Bool := !isWhite c

/-- The text without the white space at its two ends. -/
def trim (cs : List Char) : List Char :=
  ((cs.dropWhile isWhite).reverse.dropWhile isWhite).reverse

theorem isWhite_newline : isWhite '\n' = true := by decide

end Planimetry.Text
