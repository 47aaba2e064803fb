/-!
# Lower case

Command words may be written in capitals. The mapping covers the letters that a command word
can hold, basic Latin and Cyrillic from `Ѐ` to `я` with `Ґ`; every other character stays.
-/

namespace Planimetry.Text

/-- The small form of a basic Latin or Cyrillic capital letter. -/
def lowerChar (c : Char) : Char :=
  let n := c.toNat
  if 0x41 ≤ n && n ≤ 0x5A then Char.ofNat (n + 0x20)
  else if 0x400 ≤ n && n ≤ 0x40F then Char.ofNat (n + 0x50)
  else if 0x410 ≤ n && n ≤ 0x42F then Char.ofNat (n + 0x20)
  else if n == 0x490 then Char.ofNat 0x491
  else c

/-- The word with its capital letters made small. -/
def lower (cs : List Char) : List Char := cs.map lowerChar

end Planimetry.Text
