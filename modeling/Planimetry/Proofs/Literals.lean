import Planimetry.Coord.Literal
import Planimetry.Proofs.Classification
import Planimetry.Proofs.Text.Numeral

/-!
# Coordinate literals

A word of the category of coordinates is a pair of decimal numerals. It is read to the two numbers
that the numerals stand for, unless there is a fraction, or a number that does not fit. The way in
which coordinates are printed is such a word.

## Main definitions

* `Numeral`: a decimal numeral, with its text and its value.
* `IsPair`: a word is a pair of two numerals.

Main statement: `parse_literal`.
-/

namespace Planimetry

open Text Pattern

/-! ## Numerals -/

/-- ASCII digits, at least one. -/
structure DigitRun where
  chars : List Char
  ne_nil : chars ≠ []
  isDigit : ∀ c ∈ chars, c.isDigit

def DigitRun.value (r : DigitRun) : Nat := Nat.ofDigitChars 10 r.chars 0

theorem matches_many_digit_iff {w : List Char} :
    Matches (many (.one isAsciiDigit)) w ↔ ∃ r : DigitRun, w = r.chars := by
  rw [matches_many_iff_of_isClass rfl]
  simp only [matches_one_iff, isAsciiDigit_eq_isDigit, List.cons.injEq, and_true,
    exists_eq_right']
  exact ⟨fun ⟨hw, h⟩ => ⟨⟨w, hw, h⟩, rfl⟩, fun ⟨r, hr⟩ => hr ▸ ⟨r.ne_nil, r.isDigit⟩⟩

/-- A decimal numeral: perhaps a minus sign, digits, and perhaps a fraction. -/
structure Numeral where
  negative : Bool
  whole : DigitRun
  fraction : Option DigitRun

namespace Numeral

variable {n : Numeral} {c : Char} {w : List Char}

def sign (n : Numeral) : List Char := if n.negative then ['-'] else []

def decimals (n : Numeral) : List Char := n.fraction.elim [] fun f => '.' :: f.chars

def text (n : Numeral) : List Char := n.sign ++ (n.whole.chars ++ n.decimals)

/-- What the numeral stands for, its fraction left out. -/
def value (n : Numeral) : Int := if n.negative then -n.whole.value else n.whole.value

theorem matches_number_iff : Matches Category.number w ↔ ∃ n : Numeral, w = n.text := by
  rw [Category.number, matches_inOrder_iff]
  constructor
  · rintro ⟨_, _ | ⟨hsign, _ | ⟨hwhole, _ | ⟨hdecimals, _ | _⟩⟩⟩, rfl⟩
    obtain ⟨b, hb⟩ : ∃ b : Bool, _ = if b then ['-'] else [] := by
      simpa [matches_optional_iff, matches_char_iff, or_comm] using hsign
    obtain ⟨r, hr⟩ := matches_many_digit_iff.1 hwhole
    obtain ⟨f, hf⟩ : ∃ f : Option DigitRun, _ = f.elim [] fun f => '.' :: f.chars := by
      simpa [matches_optional_iff, matches_seq_iff, matches_char_iff, matches_many_digit_iff,
        Option.exists, or_comm] using hdecimals
    exact ⟨⟨b, r, f⟩, by simp [text, sign, decimals, hb, hr, hf]⟩
  · rintro ⟨n, rfl⟩
    refine ⟨[n.sign, n.whole.chars, n.decimals], ?_, by simp [text]⟩
    refine .cons ?_ (.cons (matches_many_digit_iff.2 ⟨_, rfl⟩) (.cons ?_ .nil))
    · rw [matches_optional_iff, matches_char_iff, sign]
      cases n.negative <;> simp
    · rw [matches_optional_iff, matches_seq_iff, decimals]
      cases n.fraction with
      | none => exact .inr rfl
      | some f =>
        have hfraction := matches_many_digit_iff.2 ⟨f, rfl⟩
        exact .inl ⟨['.'], f.chars, matches_char_iff.2 rfl, hfraction, rfl⟩

theorem text_ne_nil (n : Numeral) : n.text ≠ [] := by
  simp [text, n.whole.ne_nil]

/-- The characters of a numeral stand from the minus sign up to the digit nine. -/
theorem toNat_of_mem_text (h : c ∈ n.text) : 0x2D ≤ c.toNat ∧ c.toNat ≤ 0x39 := by
  have hdigit {r : DigitRun} {c : Char} (hc : c ∈ r.chars) : 0x2D ≤ c.toNat ∧ c.toNat ≤ 0x39 := by
    have := r.isDigit c hc
    simp [Char.isDigit, UInt32.le_iff_toNat_le] at this
    have e : c.toNat = c.val.toNat := rfl
    omega
  obtain ⟨b, r, f⟩ := n
  simp only [text, List.mem_append] at h
  rcases h with h | h | h
  · cases b <;> simp [sign] at h
    subst h
    decide
  · exact hdigit h
  · cases f with
    | none => cases h
    | some f =>
      rcases List.mem_cons.1 h with rfl | h
      · decide
      · exact hdigit h

theorem not_isWhite_of_mem_text (h : c ∈ n.text) : isWhite c = false := by
  have hranges : ∀ r ∈ whiteRanges, r.last < 0x2D ∨ 0x39 < r.first := by decide
  refine Bool.eq_false_iff.2 fun hwhite => ?_
  obtain ⟨r, hr, hfirst, hlast⟩ := covers_iff.1 hwhite
  have := hranges r hr
  have := toNat_of_mem_text h
  omega

theorem comma_notMem_text (n : Numeral) : ',' ∉ n.text :=
  fun h => absurd (toNat_of_mem_text h) (by decide)

/-- A numeral without a point has no fraction. -/
theorem text_of_notMem (h : '.' ∉ n.text) : n.text = n.sign ++ n.whole.chars := by
  obtain ⟨b, r, f⟩ := n
  cases f with
  | none => simp [text, decimals]
  | some f => simp [text, decimals] at h

/-- A numeral without a fraction is read to its value, if that lies in the range. -/
theorem readNumeral_text {lo hi : Int} (hlo : lo < 0) (hhi : 0 ≤ hi) (h : '.' ∉ n.text) :
    readNumeral lo hi n.text =
      if n.value ≤ hi then
        if lo ≤ n.value then .ok n.value else .error .tooSmall
      else .error .tooLarge := by
  rw [text_of_notMem h]
  obtain ⟨b, r, f⟩ := n
  cases b with
  | false =>
    have hvalue : (Numeral.mk false r f).value = r.value := rfl
    have hread := digitsUpTo_of_digits hi r.isDigit (a := 0) hhi
    change readNumeral lo hi r.chars = _
    rw [readNumeral_of_digits lo hi r.ne_nil r.isDigit, hvalue, if_pos (by omega : lo ≤ _)]
    exact hread
  | true =>
    have hvalue : (Numeral.mk true r f).value = -r.value := rfl
    have hread := digitsDownTo_of_digits lo r.isDigit (a := 0) (by omega)
    change readNumeral lo hi ('-' :: r.chars) = _
    rw [readNumeral_minus r.ne_nil hlo, hvalue, if_pos (by omega : _ ≤ hi)]
    exact hread

end Numeral

/-! ## Pairs -/

def White (g : List Char) : Prop := ∀ c ∈ g, isWhite c

/-- The word is a pair of the numerals in parentheses. There may be white space before each of its
parts. -/
def IsPair (w : List Char) (x y : Numeral) : Prop :=
  ∃ g₀ g₁ g₂ g₃ g₄, White g₀ ∧ White g₁ ∧ White g₂ ∧ White g₃ ∧ White g₄ ∧
    w = g₀ ++ '(' :: (g₁ ++ x.text ++ g₂ ++ ',' :: (g₃ ++ y.text ++ g₄)) ++ [')']

theorem matches_gap_iff {g : List Char} : Matches Category.gap g ↔ White g := by
  rw [Category.gap, matches_star_iff_of_isClass rfl]
  simp [matches_one_iff, White]

theorem matches_coordinates_iff {w : List Char} :
    Matches Category.coordinates.pattern w ↔ ∃ x y, IsPair w x y := by
  rw [Category.pattern, matches_inOrder_iff]
  constructor
  · rintro ⟨_, _ | ⟨h₀, _ | ⟨hopen, _ | ⟨h₁, _ | ⟨hx, _ | ⟨h₂, _ | ⟨hcomma, _ | ⟨h₃, _ | ⟨hy, _ |
      ⟨h₄, _ | ⟨hclose, _ | _⟩⟩⟩⟩⟩⟩⟩⟩⟩⟩, rfl⟩
    obtain rfl := matches_char_iff.1 hopen
    obtain rfl := matches_char_iff.1 hcomma
    obtain rfl := matches_char_iff.1 hclose
    obtain ⟨x, rfl⟩ := Numeral.matches_number_iff.1 hx
    obtain ⟨y, rfl⟩ := Numeral.matches_number_iff.1 hy
    rw [matches_gap_iff] at h₀ h₁ h₂ h₃ h₄
    exact ⟨x, y, _, _, _, _, _, h₀, h₁, h₂, h₃, h₄, by simp⟩
  · rintro ⟨x, y, g₀, g₁, g₂, g₃, g₄, h₀, h₁, h₂, h₃, h₄, rfl⟩
    rw [← matches_gap_iff] at h₀ h₁ h₂ h₃ h₄
    have hchar {c : Char} : Matches (char c) [c] := matches_char_iff.2 rfl
    have hnumber {n : Numeral} : Matches Category.number n.text :=
      Numeral.matches_number_iff.2 ⟨n, rfl⟩
    exact ⟨[g₀, ['('], g₁, x.text, g₂, [','], g₃, y.text, g₄, [')']],
      .cons h₀ <| .cons hchar <| .cons h₁ <| .cons hnumber <| .cons h₂ <| .cons hchar <|
        .cons h₃ <| .cons hnumber <| .cons h₄ <| .cons hchar .nil, by simp⟩

/-! ## Reading a pair -/

/-- White space at both ends is left out. -/
theorem trim_append {g w g' : List Char} (hg : White g) (hg' : White g') (hw : w ≠ [])
    (hfirst : ∀ c ∈ w.head?, isWhite c = false) (hlast : ∀ c ∈ w.getLast?, isWhite c = false) :
    trim (g ++ w ++ g') = w := by
  have hdrop {g w : List Char} (hg : White g) (hw : ∀ c ∈ w.head?, isWhite c = false) :
      (g ++ w).dropWhile isWhite = w := by
    rw [List.dropWhile_append_of_pos hg]
    cases w with
    | nil => rfl
    | cons c w => exact List.dropWhile_cons_of_neg (by simp [hw c rfl])
  have hfirst : ∀ c ∈ (w ++ g').head?, isWhite c = false := by
    rwa [List.head?_append_of_ne_nil w hw]
  rw [trim, List.append_assoc, hdrop hg hfirst, List.reverse_append,
    hdrop (by simpa [White] using hg') (by simpa using hlast), List.reverse_reverse]

theorem Numeral.trim_text {g g' : List Char} (n : Numeral) (hg : White g) (hg' : White g') :
    trim (g ++ n.text ++ g') = n.text :=
  trim_append hg hg' n.text_ne_nil (fun _ hc => not_isWhite_of_mem_text (List.mem_of_mem_head? hc))
    fun _ hc => not_isWhite_of_mem_text (List.mem_of_mem_getLast? hc)

theorem Coord.inner?_append {g w : List Char} (hg : White g) :
    inner? (g ++ '(' :: w ++ [')']) = some w := by
  have hlast : ∀ c ∈ ('(' :: w ++ [')']).getLast?, isWhite c = false := by
    rw [List.getLast?_concat]
    rintro _ ⟨⟩
    decide
  have hnil : White [] := nofun
  have htrim := trim_append (w := '(' :: w ++ [')']) hg hnil (by simp) (by rintro _ ⟨⟩; decide)
    hlast
  rw [List.append_nil, ← List.append_assoc] at htrim
  rw [inner?, htrim]
  simp

theorem Coord.parts?_append {u v : List Char} (hu : ',' ∉ u) (hv : ',' ∉ v) :
    parts? (u ++ ',' :: v) = some (trim u, trim v) := by
  have hne : ∀ c ∈ u, decide (c ≠ ',') = true := by
    intro c hc
    have : c ≠ ',' := by rintro rfl; exact hu hc
    simpa using this
  rw [parts?, List.dropWhile_append_of_pos hne, List.takeWhile_append_of_pos hne]
  simp [hv]

section Pair

variable {lexeme : String} {w : List Char} {x y n : Numeral} {c : Char}

theorem IsPair.parts (h : IsPair w x y) :
    (Coord.inner? w).bind Coord.parts? = some (x.text, y.text) := by
  obtain ⟨g₀, g₁, g₂, g₃, g₄, h₀, h₁, h₂, h₃, h₄, rfl⟩ := h
  have hcomma {g g' : List Char} {n : Numeral} (hg : White g) (hg' : White g') :
      ',' ∉ g ++ n.text ++ g' := by
    have hwhite {g : List Char} (hg : White g) : ',' ∉ g := fun hc => absurd (hg _ hc) (by decide)
    simp [hwhite hg, hwhite hg', n.comma_notMem_text]
  rw [Coord.inner?_append h₀, Option.bind_some,
    Coord.parts?_append (hcomma h₁ h₂) (hcomma h₃ h₄), x.trim_text h₁ h₂, y.trim_text h₃ h₄]

/-- A point in the word is one of the numerals. -/
theorem IsPair.mem_iff (h : IsPair w x y) : '.' ∈ w ↔ '.' ∈ x.text ∨ '.' ∈ y.text := by
  obtain ⟨g₀, g₁, g₂, g₃, g₄, h₀, h₁, h₂, h₃, h₄, rfl⟩ := h
  have hwhite {g : List Char} (hg : White g) : '.' ∉ g := fun hc => absurd (hg _ hc) (by decide)
  simp [hwhite h₀, hwhite h₁, hwhite h₂, hwhite h₃, hwhite h₄]

theorem IsPair.parse_eq (h : IsPair lexeme.toList x y) :
    Coord.parse lexeme =
      if '.' ∈ lexeme.toList then .error (.fraction lexeme)
      else do
        let a ← Coord.component x.text
        let b ← Coord.component y.text
        return ⟨a, b⟩ := by
  rw [Coord.parse, h.parts]
  simp only [h.mem_iff]

/-- The fault of a number that does not fit. -/
def Numeral.excess (n : Numeral) : LiteralFault :=
  .badNumber (String.ofList n.text)
    (if n.value ≤ Scalar.greatest then .tooSmall else .tooLarge)

theorem Numeral.component_of_fits (h : '.' ∉ n.text) (hfits : Scalar.Fits n.value) :
    Coord.component n.text = .ok (Int32.ofInt n.value) := by
  rw [Coord.component, readNumeral_text (by decide) (by decide) h, if_pos hfits.2, if_pos hfits.1]

theorem Numeral.component_of_not_fits (h : '.' ∉ n.text) (hfits : ¬ Scalar.Fits n.value) :
    Coord.component n.text = .error n.excess := by
  rw [Coord.component, readNumeral_text (by decide) (by decide) h, excess]
  by_cases hhi : n.value ≤ Scalar.greatest
  · rw [if_pos hhi, if_pos hhi, if_neg fun hlo => hfits ⟨hlo, hhi⟩]
  · rw [if_neg hhi, if_neg hhi]

/-- Of two numerals the first one that does not fit. -/
def FirstExcess (x y n : Numeral) : Prop :=
  n = x ∧ ¬ Scalar.Fits x.value ∨ n = y ∧ Scalar.Fits x.value ∧ ¬ Scalar.Fits y.value

/-- How a pair of numerals is read. -/
structure ReadAs (lexeme : String) (x y : Numeral) : Prop where
  ok_iff (c : Coord) : Coord.parse lexeme = .ok c ↔
    '.' ∉ lexeme.toList ∧ c.x.toInt = x.value ∧ c.y.toInt = y.value
  fraction_iff : Coord.parse lexeme = .error (.fraction lexeme) ↔ '.' ∈ lexeme.toList
  badNumber_iff (part : String) (cause : NumeralFault) :
    Coord.parse lexeme = .error (.badNumber part cause) ↔
      '.' ∉ lexeme.toList ∧ ∃ n, FirstExcess x y n ∧ part = String.ofList n.text ∧
        (cause = .tooLarge ∧ Scalar.greatest < n.value ∨
          cause = .tooSmall ∧ n.value < Scalar.least)
  no_other_fault {e : LiteralFault} : Coord.parse lexeme = .error e →
    e = .fraction lexeme ∨ ∃ part, e = .badNumber part .tooLarge ∨ e = .badNumber part .tooSmall

theorem Numeral.not_fits_iff {z : Int} :
    ¬ Scalar.Fits z ↔ Scalar.greatest < z ∨ z < Scalar.least := by
  simp only [Scalar.Fits]
  omega

theorem Numeral.excess_eq_iff (hfits : ¬ Scalar.Fits n.value) {part : String}
    {cause : NumeralFault} : n.excess = .badNumber part cause ↔
      part = String.ofList n.text ∧
        (cause = .tooLarge ∧ Scalar.greatest < n.value ∨
          cause = .tooSmall ∧ n.value < Scalar.least) := by
  rw [excess, LiteralFault.badNumber.injEq, eq_comm]
  refine and_congr_right fun _ => ?_
  rcases not_fits_iff.1 hfits with h | h
  · have hlo : ¬ n.value < Scalar.least := by simp only [Scalar.greatest, Scalar.least] at *; omega
    rw [if_neg (by omega)]
    simp [h, hlo, eq_comm]
  · have hhi : n.value ≤ Scalar.greatest := by simp only [Scalar.greatest, Scalar.least] at *; omega
    rw [if_pos hhi]
    simp [h, not_lt.2 hhi, eq_comm]

theorem FirstExcess.not_fits (h : FirstExcess x y n) : ¬ Scalar.Fits n.value := by
  rcases h with ⟨rfl, h⟩ | ⟨rfl, -, h⟩
  · exact h
  · exact h

theorem FirstExcess.unique {m : Numeral} (h : FirstExcess x y n) (h' : FirstExcess x y m) :
    m = n := by
  rcases h with ⟨rfl, hx⟩ | ⟨rfl, hx, -⟩
  · rcases h' with ⟨rfl, -⟩ | ⟨-, hx', -⟩
    · rfl
    · exact absurd hx' hx
  · rcases h' with ⟨-, hx'⟩ | ⟨rfl, -⟩
    · exact absurd hx hx'
    · rfl

theorem IsPair.parse_of_firstExcess (h : IsPair lexeme.toList x y) (hpoint : '.' ∉ lexeme.toList)
    (hn : FirstExcess x y n) : Coord.parse lexeme = .error n.excess := by
  obtain ⟨hx, hy⟩ := not_or.1 (h.mem_iff.not.1 hpoint)
  rw [h.parse_eq, if_neg hpoint]
  rcases hn with ⟨rfl, hfits⟩ | ⟨rfl, hfits, hfits'⟩
  · rw [Numeral.component_of_not_fits hx hfits]
    rfl
  · rw [Numeral.component_of_fits hx hfits, Numeral.component_of_not_fits hy hfits']
    rfl

theorem IsPair.parse_of_fits (h : IsPair lexeme.toList x y) (hpoint : '.' ∉ lexeme.toList)
    (hx : Scalar.Fits x.value) (hy : Scalar.Fits y.value) :
    Coord.parse lexeme = .ok ⟨Int32.ofInt x.value, Int32.ofInt y.value⟩ := by
  obtain ⟨hx', hy'⟩ := not_or.1 (h.mem_iff.not.1 hpoint)
  rw [h.parse_eq, if_neg hpoint, Numeral.component_of_fits hx' hx, Numeral.component_of_fits hy' hy]
  rfl

theorem Scalar.ofInt_eq_iff {z : Int} (h : Fits z) {a : Int32} :
    Int32.ofInt z = a ↔ a.toInt = z := by
  rw [← fit?_eq_some_iff, fit?, if_pos h, Option.some.injEq]

theorem IsPair.readAs (h : IsPair lexeme.toList x y) : ReadAs lexeme x y := by
  by_cases hpoint : '.' ∈ lexeme.toList
  · have hparse : Coord.parse lexeme = .error (.fraction lexeme) := by
      rw [h.parse_eq, if_pos hpoint]
    constructor <;> simp [hparse, hpoint, eq_comm]
  by_cases hfits : Scalar.Fits x.value ∧ Scalar.Fits y.value
  · obtain ⟨hx, hy⟩ := hfits
    have hparse := h.parse_of_fits hpoint hx hy
    have hnone {n : Numeral} : ¬ FirstExcess x y n := by simp [FirstExcess, hx, hy]
    constructor
    case ok_iff =>
      rintro ⟨a, b⟩
      rw [hparse, Except.ok.injEq, Coord.mk.injEq, Scalar.ofInt_eq_iff hx, Scalar.ofInt_eq_iff hy]
      simp [hpoint]
    all_goals simp [hparse, hpoint, hnone]
  · obtain ⟨n, hn⟩ : ∃ n, FirstExcess x y n := by
      by_cases hx : Scalar.Fits x.value
      · exact ⟨y, .inr ⟨rfl, hx, fun hy => hfits ⟨hx, hy⟩⟩⟩
      · exact ⟨x, .inl ⟨rfl, hx⟩⟩
    have hparse := h.parse_of_firstExcess hpoint hn
    have hexcess := @Numeral.excess_eq_iff n hn.not_fits
    constructor
    case ok_iff =>
      intro c
      rw [hparse]
      refine iff_of_false nofun fun ⟨_, hx, hy⟩ => hfits ⟨?_, ?_⟩
      · exact hx ▸ Scalar.fits_toInt c.x
      · exact hy ▸ Scalar.fits_toInt c.y
    case fraction_iff => simp [hparse, hpoint, Numeral.excess]
    case badNumber_iff =>
      intro part cause
      rw [hparse, Except.error.injEq, hexcess]
      constructor
      · exact fun hcause => ⟨hpoint, n, hn, hcause⟩
      · rintro ⟨-, m, hm, hcause⟩
        rwa [hn.unique hm] at hcause
    case no_other_fault =>
      rintro e he
      obtain rfl : n.excess = e := Except.error.inj (hparse.symm.trans he)
      rw [Numeral.excess]
      split
      · exact .inr ⟨_, .inr rfl⟩
      · exact .inr ⟨_, .inl rfl⟩

end Pair

/-! ## Printing -/

/-- The numeral that a number is printed as. -/
def Numeral.ofInt (z : Int) : Numeral :=
  ⟨z < 0, ⟨Nat.toDigits 10 z.natAbs, Nat.toDigits_ne_nil, fun _ => isDigit_of_mem_toDigits⟩, none⟩

theorem Numeral.text_ofInt (z : Int) : (ofInt z).text = (toString z).toList := by
  cases z with
  | ofNat m =>
    have hsign : ¬ Int.ofNat m < 0 := not_lt.2 (Int.natCast_nonneg m)
    rw [Int.ofNat_eq_natCast, toList_toString_natCast]
    simp [text, sign, decimals, ofInt]
  | negSucc m =>
    rw [toList_toString_negSucc]
    simp [text, sign, decimals, ofInt]

theorem Numeral.value_ofInt (z : Int) : (ofInt z).value = z := by
  simp only [value, ofInt, DigitRun.value, Nat.ofDigitChars_ten_toDigits, decide_eq_true_eq]
  split <;> omega

theorem Numeral.point_notMem_ofInt (z : Int) : '.' ∉ (ofInt z).text := by
  rw [text_ofInt]
  intro h
  rcases mem_toList_toString h with h | h
  · cases h
  · cases h

theorem isPair_toString (c : Coord) :
    IsPair (toString c).toList (.ofInt c.x.toInt) (.ofInt c.y.toInt) := by
  have hnil : White [] := nofun
  have htext : toString c = "(" ++ toString c.x.toInt ++ "," ++ toString c.y.toInt ++ ")" := rfl
  refine ⟨[], [], [], [], [], hnil, hnil, hnil, hnil, hnil, ?_⟩
  simp [htext, Numeral.text_ofInt]

/-- Words of the category of coordinates are pairs of numerals, which are read to their values; only
a fraction or a number that does not fit is refused. What is printed is such a word, and it is read
back. -/
theorem parse_literal :
    (∀ c : Coord, Category.ofWord (toString c).toList = .coordinates ∧
      Coord.parse (toString c) = .ok c) ∧
    ∀ lexeme : String, Category.ofWord lexeme.toList = .coordinates →
      (∃ x y, IsPair lexeme.toList x y) ∧
      ∀ x y, IsPair lexeme.toList x y → ReadAs lexeme x y := by
  refine ⟨fun c => ⟨?_, ?_⟩, fun lexeme h => ⟨?_, fun x y => IsPair.readAs⟩⟩
  · have hmatch := matches_coordinates_iff.2 ⟨_, _, isPair_toString c⟩
    exact Category.ofWord_of_matches hmatch (by decide)
  · refine ((isPair_toString c).readAs.ok_iff c).2 ⟨?_, ?_, ?_⟩
    · rw [(isPair_toString c).mem_iff, not_or]
      exact ⟨Numeral.point_notMem_ofInt _, Numeral.point_notMem_ofInt _⟩
    · exact (Numeral.value_ofInt _).symm
    · exact (Numeral.value_ofInt _).symm
  · exact matches_coordinates_iff.1 (Category.matches_of_ofWord h (by decide))

example : Coord.parse "( -2147483648 , 007 )" = .ok ⟨-2147483648, 7⟩ := by decide

end Planimetry
