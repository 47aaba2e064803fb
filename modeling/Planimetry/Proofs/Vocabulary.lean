import Planimetry.Proofs.Classification
import Planimetry.Token

/-!
# Command words and their patterns

The words of commands are described twice: the patterns tell which words are reserved and which are
nouns, and the tables tell which keyword or noun such a word is. Both know the same words, in small
letters and in capitals.

## Main definitions

* `Text.capital`: the capital form of a Ukrainian letter.
* `Keyword.spelled`: a keyword with an apostrophe of choice.

Main statement: `patterns_agree_with_tables`.
-/

namespace Planimetry

/-! ## The alphabet -/

namespace Text

def smallLetters : List Char := "абвгґдеєжзиіїйклмнопрстуфхцчшщьюя".toList

def capitalLetters : List Char := "АБВГҐДЕЄЖЗИІЇЙКЛМНОПРСТУФХЦЧШЩЬЮЯ".toList

/-- The capital form of a small letter. Every other character stays. -/
def capital (c : Char) : Char := ((smallLetters.zip capitalLetters).lookup c).getD c

end Text

/-! ## Keywords -/

namespace Keyword

/-- The keyword in small letters, with `apostrophe` for the one in it. -/
def spelled (k : Keyword) (apostrophe : Char) : List Char :=
  k.word.toList.map fun c => if c = 'ʼ' then apostrophe else c

variable {k : Keyword} {w : List Char}

theorem mem_all (k : Keyword) : k ∈ all := by
  cases k <;> decide

theorem eq_of_word_eq {k k' : Keyword} (h : k.word = k'.word) : k = k' := by
  have hwords : ∀ k ∈ all, ∀ k' ∈ all, k.word = k'.word → k = k' := by decide +kernel
  exact hwords k (mem_all k) k' (mem_all k') h

/-- A word is the keyword that it spells in small letters and with the letter apostrophe. -/
theorem ofLexeme?_eq_some_iff :
    ofLexeme? (String.ofList w) = some k ↔ k.word.toList = normalize w := by
  constructor
  · intro h
    have hword := List.find?_some h
    simpa using hword
  · intro h
    cases hfind : ofLexeme? (String.ofList w) with
    | none =>
      have hnone := List.find?_eq_none.1 hfind k (mem_all k)
      simp [h] at hnone
    | some k' =>
      have hk' := List.find?_some hfind
      have hk' : k'.word.toList = normalize w := by simpa using hk'
      rw [eq_of_word_eq (String.toList_inj.1 (hk'.trans h.symm))]

/-- A reserved word is a keyword unless it is a Latin one. -/
theorem exists_word_iff : ∀ ws ∈ Category.reserved.closedWords?, ∀ w ∈ ws,
    (∃ k ∈ all, k.word.toList = normalize w) ↔ w ∉ Category.latinReserved.map String.toList := by
  decide +kernel

/-- The reserved words have every keyword, in both cases and with each of the apostrophes. -/
theorem spelled_reserved : ∀ ws ∈ Category.reserved.closedWords?, ∀ k ∈ all, ∀ a ∈ "'ʼ’".toList,
    ∀ w ∈ [k.spelled a, (k.spelled a).map Text.capital],
      w ∈ ws ∧ k.word.toList = normalize w := by
  -- a list is searched here, where `decide` would try every character
  have hall : ∀ ws ∈ Category.reserved.closedWords?, ∀ k ∈ all,
      "'ʼ’".toList.all fun a => ∀ w ∈ [k.spelled a, (k.spelled a).map Text.capital],
        w ∈ ws ∧ k.word.toList = normalize w := by
    decide +kernel
  intro ws hws k hk a ha
  exact of_decide_eq_true (List.all_eq_true.1 (hall ws hws k hk) a ha)

end Keyword

/-! ## Nouns -/

namespace Noun

variable {m n : Noun} {w : List Char}

theorem mem_all (n : Noun) : n ∈ all := by
  cases n <;> decide

/-- No stem is the beginning of another one, so a word begins with at most one of them. -/
theorem eq_of_stem_of_stem (hm : m.stem.toList <+: w) (hn : n.stem.toList <+: w) : m = n := by
  have hstems : ∀ m ∈ all, ∀ n ∈ all, m.stem.toList <+: n.stem.toList → m = n := by
    decide +kernel
  rcases List.prefix_or_prefix_of_prefix hm hn with h | h
  · exact hstems m (mem_all m) n (mem_all n) h
  · exact (hstems n (mem_all n) m (mem_all m) h).symm

/-- A word is the noun whose stem it begins with in small letters. -/
theorem ofLexeme?_eq_some_iff :
    ofLexeme? (String.ofList w) = some n ↔ n.stem.toList <+: Text.lower w := by
  constructor
  · intro h
    have hstem := List.find?_some h
    simpa using hstem
  · intro h
    cases hfind : ofLexeme? (String.ofList w) with
    | none =>
      have hnone := List.find?_eq_none.1 hfind n (mem_all n)
      simp [h] at hnone
    | some m =>
      have hm := List.find?_some hfind
      have hm : m.stem.toList <+: Text.lower w := by simpa using hm
      rw [eq_of_stem_of_stem hm h]

/-- The stems of the patterns are those of the nouns. -/
theorem exists_stem_of_mem_stems : ∀ s ∈ Category.capitalStems ++ Category.smallStems,
    ∃ n ∈ all, Text.lower s.toList = n.stem.toList := by
  decide +kernel

/-- A word of the pattern of nouns begins with a stem. -/
theorem exists_stem_prefix_of_matches (h : Pattern.Matches Category.geometry.pattern w) :
    ∃ n : Noun, n.stem.toList <+: Text.lower w := by
  have begins {stems : List String} {letters : Pattern}
      (hstems : stems ⊆ Category.capitalStems ++ Category.smallStems)
      (h : Pattern.Matches (.seq (Pattern.words stems) letters) w) :
      ∃ n : Noun, n.stem.toList <+: Text.lower w := by
    obtain ⟨u, v, hu, -, rfl⟩ := Pattern.matches_seq_iff.1 h
    obtain ⟨s, hs, rfl⟩ := List.mem_map.1 (Pattern.matches_words_iff.1 hu)
    obtain ⟨n, -, hn⟩ := exists_stem_of_mem_stems s (hstems hs)
    refine ⟨n, Text.lower v, ?_⟩
    rw [← hn, Text.lower, Text.lower, Text.lower, List.map_append]
  rcases Pattern.matches_alt_iff.1 h with h | h
  · exact begins (List.subset_append_left _ _) h
  · exact begins (List.subset_append_right _ _) h

/-! ## Inflections -/

/-- A stem with letters of an inflection behind it has the form of a noun of its case. -/
theorem matches_of_inflected {stems : List String} {letter : Pattern} {s tail : List Char}
    (hs : s ∈ stems.map String.toList) (hclass : letter.isClass)
    (htail : ∀ c ∈ tail, Pattern.Matches letter [c]) :
    Pattern.Matches (.seq (Pattern.words stems) (.star letter)) (s ++ tail) := by
  have hstem : Pattern.Matches (Pattern.words stems) s := Pattern.matches_words_iff.2 hs
  have hletters : Pattern.Matches (.star letter) tail :=
    (Pattern.matches_star_iff_of_isClass hclass).2 htail
  exact .seq hstem hletters

/-- The alphabet is among the letters of an inflection. -/
theorem matches_letter_of_mem :
    (∀ c ∈ Text.smallLetters, Pattern.Matches Category.smallLetter [c]) ∧
      ∀ c ∈ Text.capitalLetters, Pattern.Matches Category.capitalLetter [c] := by
  have hall : (Text.smallLetters.all fun c => Pattern.Matches Category.smallLetter [c]) ∧
      Text.capitalLetters.all fun c => Pattern.Matches Category.capitalLetter [c] := by
    decide +kernel
  exact hall.imp (fun h c hc => of_decide_eq_true (List.all_eq_true.1 h c hc))
    fun h c hc => of_decide_eq_true (List.all_eq_true.1 h c hc)

/-- The patterns have the stem of every noun, in both cases. -/
theorem stem_mem_stems : ∀ n ∈ all,
    n.stem.toList ∈ Category.smallStems.map String.toList ∧
      n.stem.toList.map Text.capital ∈ Category.capitalStems.map String.toList := by
  decide +kernel

theorem lower_stem : ∀ n ∈ all, Text.lower n.stem.toList = n.stem.toList ∧
    Text.lower (n.stem.toList.map Text.capital) = n.stem.toList := by
  decide +kernel

/-- A word in which the stem comes first in small letters is the noun, whatever follows. -/
theorem ofLexeme?_append {s : List Char} (h : Text.lower s = n.stem.toList) (tail : List Char) :
    ofLexeme? (String.ofList (s ++ tail)) = some n := by
  refine ofLexeme?_eq_some_iff.2 ⟨Text.lower tail, ?_⟩
  rw [← h, Text.lower, Text.lower, Text.lower, List.map_append]

end Noun

/-! ## Tokens -/

namespace Token

variable {p : Position} {w : List Char}

/-- A token of a reserved word has the keyword that the table has for the word. -/
theorem keyword?_ofWord (h : Pattern.Matches Category.reserved.pattern w) :
    (ofWord p w).category = .reserved ∧
      (ofWord p w).keyword? = Keyword.ofLexeme? (String.ofList w) := by
  have hcategory : (ofWord p w).category = .reserved :=
    Category.ofWord_of_matches h (by decide)
  exact ⟨hcategory, if_pos hcategory⟩

theorem noun?_ofWord (h : Pattern.Matches Category.geometry.pattern w) :
    (ofWord p w).category = .geometry ∧
      (ofWord p w).noun? = Noun.ofLexeme? (String.ofList w) := by
  have hcategory : (ofWord p w).category = .geometry :=
    Category.ofWord_of_matches h (by decide)
  exact ⟨hcategory, if_pos hcategory⟩

/-- A reserved word is a keyword unless it is a Latin one. -/
theorem keyword?_of_reserved (h : (ofWord p w).category = .reserved) :
    ((ofWord p w).keyword?.isSome ↔ w ∉ Category.latinReserved.map String.toList) ∧
      ∀ k ∈ (ofWord p w).keyword?, k.word.toList = Keyword.normalize w := by
  have hmatch : Pattern.Matches Category.reserved.pattern w :=
    Category.matches_of_ofWord h (by decide)
  obtain ⟨-, hkeyword⟩ := keyword?_ofWord (p := p) hmatch
  have hmem := (Category.matches_iff_of_closedWords? rfl).1 hmatch
  rw [hkeyword]
  refine ⟨?_, fun k hk => Keyword.ofLexeme?_eq_some_iff.1 hk⟩
  rw [← Keyword.exists_word_iff _ rfl w hmem, Option.isSome_iff_exists]
  refine exists_congr fun k => ?_
  rw [Keyword.ofLexeme?_eq_some_iff]
  exact (and_iff_right (Keyword.mem_all k)).symm

/-- A noun of the patterns begins with one stem. -/
theorem noun?_of_geometry (h : (ofWord p w).category = .geometry) :
    ∃ n, (ofWord p w).noun? = some n ∧ n.stem.toList <+: Text.lower w ∧
      ∀ m : Noun, m.stem.toList <+: Text.lower w → m = n := by
  have hmatch : Pattern.Matches Category.geometry.pattern w :=
    Category.matches_of_ofWord h (by decide)
  obtain ⟨-, hnoun⟩ := noun?_ofWord (p := p) hmatch
  obtain ⟨n, hn⟩ := Noun.exists_stem_prefix_of_matches hmatch
  rw [hnoun]
  exact ⟨n, Noun.ofLexeme?_eq_some_iff.2 hn, hn, fun m hm => Noun.eq_of_stem_of_stem hm hn⟩

/-- A keyword is found in each of its spellings. -/
theorem keyword?_spelled {k : Keyword} {a : Char} (ha : a ∈ ['\'', 'ʼ', '’'])
    (hw : w ∈ [k.spelled a, (k.spelled a).map Text.capital]) :
    (ofWord p w).category = .reserved ∧ (ofWord p w).keyword? = some k := by
  obtain ⟨hmem, hk⟩ := Keyword.spelled_reserved _ rfl k (Keyword.mem_all k) a ha w hw
  have hmatch := (Category.matches_iff_of_closedWords? (c := .reserved) rfl).2 hmem
  obtain ⟨hcategory, hkeyword⟩ := keyword?_ofWord (p := p) hmatch
  exact ⟨hcategory, hkeyword.trans (Keyword.ofLexeme?_eq_some_iff.2 hk)⟩

/-- A noun is found by its stem, in small letters or in capitals. -/
theorem noun?_of_stem {n : Noun} {s tail : List Char}
    (h : Pattern.Matches Category.geometry.pattern (s ++ tail))
    (hlower : Text.lower s = n.stem.toList) :
    (ofWord p (s ++ tail)).category = .geometry ∧ (ofWord p (s ++ tail)).noun? = some n := by
  obtain ⟨hcategory, hnoun⟩ := noun?_ofWord (p := p) h
  exact ⟨hcategory, hnoun.trans (Noun.ofLexeme?_append hlower tail)⟩

/-- The patterns of words and the tables of commands agree. A reserved word is a keyword unless it
is a Latin one, and then the keyword is the word in small letters with the letter apostrophe. A noun
begins with the stem of exactly one entry. No other word is a keyword or a noun. In both cases, and
with any apostrophe, a keyword is such a reserved word, and a stem is such a noun whatever letters
of the same case follow. -/
theorem patterns_agree_with_tables (p : Position) :
    (∀ w, (ofWord p w).category = .reserved →
      ((ofWord p w).keyword?.isSome ↔ w ∉ Category.latinReserved.map String.toList) ∧
      ∀ k ∈ (ofWord p w).keyword?,
        k.word.toList = (Text.lower w).map fun c => if c = '\'' ∨ c = '’' then 'ʼ' else c) ∧
    (∀ w, (ofWord p w).category = .geometry →
      ∃ n, (ofWord p w).noun? = some n ∧ n.stem.toList <+: Text.lower w ∧
        ∀ m : Noun, m.stem.toList <+: Text.lower w → m = n) ∧
    (∀ w, ((ofWord p w).category ≠ .reserved → (ofWord p w).keyword? = none) ∧
      ((ofWord p w).category ≠ .geometry → (ofWord p w).noun? = none)) ∧
    (∀ k : Keyword, ∀ a ∈ ['\'', 'ʼ', '’'],
      ∀ w ∈ [k.spelled a, (k.spelled a).map Text.capital],
        (ofWord p w).category = .reserved ∧ (ofWord p w).keyword? = some k) ∧
    ∀ (n : Noun) (tail : List Char),
      (tail ⊆ Text.smallLetters →
        (ofWord p (n.stem.toList ++ tail)).category = .geometry ∧
          (ofWord p (n.stem.toList ++ tail)).noun? = some n) ∧
      (tail ⊆ Text.capitalLetters →
        (ofWord p (n.stem.toList.map Text.capital ++ tail)).category = .geometry ∧
          (ofWord p (n.stem.toList.map Text.capital ++ tail)).noun? = some n) := by
  refine ⟨?reserved, ?geometry, ?others, ?keywords, ?nouns⟩
  case reserved => exact fun w h => keyword?_of_reserved h
  case geometry => exact fun w h => noun?_of_geometry h
  case others =>
    intro w
    exact ⟨fun h => if_neg h, fun h => if_neg h⟩
  case keywords => exact fun k a ha w hw => keyword?_spelled ha hw
  case nouns =>
    intro n tail
    obtain ⟨hsmall, hcapital⟩ := Noun.stem_mem_stems n (Noun.mem_all n)
    obtain ⟨hlower, hlower'⟩ := Noun.lower_stem n (Noun.mem_all n)
    constructor
    · intro htail
      have hmatch := Noun.matches_of_inflected hsmall rfl fun c hc =>
        Noun.matches_letter_of_mem.1 c (htail hc)
      exact noun?_of_stem (.right hmatch) hlower
    · intro htail
      have hmatch := Noun.matches_of_inflected hcapital rfl fun c hc =>
        Noun.matches_letter_of_mem.2 c (htail hc)
      exact noun?_of_stem (.left hmatch) hlower'

end Token

end Planimetry
