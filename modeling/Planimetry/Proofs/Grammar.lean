import Mathlib.Computability.Language
import Planimetry.Command

/-!
# The grammar of programs

The language of the programs, as a set of token sequences and without any reader. A phrase is a
product of words, alternatives are sums, and a list is a star; only the chain of operations with
`;` between them is inductive.

## Main definitions

* `Grammar.operation`: the phrases of the six commands.
* `Grammar.Program`: operations with `;` between them, and perhaps one at the end.
* `Grammar.Viable`: the token sequences that written tokens complete to a phrase.
-/

namespace Planimetry

open scoped Computability

/-- A token that stands in some text. -/
def Token.Written (t : Token) : Prop := ∃ text, t ∈ Token.ofText text

namespace Grammar

/-! ## Words -/

/-- The phrases of one token with the property `ok`. -/
def word (ok : Token → Prop) : Language Token := {ts | ∃ t, ok t ∧ ts = [t]}

def keyword (k : Keyword) : Language Token := word (·.keyword? = some k)

def noun (n : Noun) : Language Token := word (·.noun? = some n)

def symbol (s : String) : Language Token := word (·.isDelimiter s)

def name : Language Token := word (·.category = .name)

/-- The name of a side has two letters. -/
def side : Language Token := word fun t => t.category = .name ∧ t.lexeme.toList.length = 2

/-- Only literals that can be read are coordinates. -/
def coordinates : Language Token :=
  word fun t => t.category = .coordinates ∧ ∃ c, Coord.parse t.lexeme = .ok c

/-! ## Phrases -/

def point : Language Token := name * (1 + coordinates)

def listedPoint : Language Token := name * coordinates

/-- The points of a list behind its first one. -/
def further : Language Token := (symbol "," * listedPoint)∗

/-! ## Commands

The following phrases are commands without their first keyword. -/

def place : Language Token := noun .point * point

def connect : Language Token := noun .point * listedPoint * further

def segment : Language Token :=
  noun .segment * keyword .through * keyword .two * noun .point * point * keyword .and * point

def perpendicular : Language Token :=
  noun .line * symbol "," * noun .perpendicular * keyword .toward * noun .segment * side

def triangle : Language Token :=
  noun .triangle * keyword .upon * noun .point * point * symbol "," * point * symbol "," * point

/-- A square may give the ends of its side coordinates, but not those of the second end alone. -/
def square : Language Token :=
  noun .square * keyword .having * noun .side * side * (1 + coordinates * (1 + coordinates))

/-- The six commands. -/
def operation : Language Token :=
  keyword .place * place + keyword .connect * connect +
    keyword .draw * (segment + perpendicular) + keyword .build * (triangle + square)

/-- Operations with `;` between them, and perhaps one `;` at the end. -/
inductive Program : List Token → Prop where
  | last {p : List Token} : p ∈ operation → Program p
  | closed {p : List Token} {t : Token} :
      p ∈ operation → t.isDelimiter ";" → Program (p ++ [t])
  | next {p q : List Token} {t : Token} :
      p ∈ operation → t.isDelimiter ";" → Program q → Program (p ++ t :: q)

/-! ## Viable prefixes -/

/-- Tokens that stand in texts complete `c` to a phrase of `L`. -/
def Viable (L : Language Token) (c : List Token) : Prop :=
  ∃ w, (∀ t ∈ w, t.Written) ∧ c ++ w ∈ L

variable {L L' : Language Token} {ok : Token → Prop} {ts c c' : List Token}

theorem Viable.mono (h : Viable L c) (hL : ∀ ts ∈ L, ts ∈ L') : Viable L' c := by
  obtain ⟨w, hw, hc⟩ := h
  exact ⟨w, hw, hL _ hc⟩

theorem viable_of_mem (h : c ∈ L) : Viable L c := ⟨[], by simp, by simpa using h⟩

/-- A viable prefix of the first part stays viable if the second part has a written phrase. -/
theorem Viable.mul_right (h : Viable L c) (h' : Viable L' []) : Viable (L * L') c := by
  obtain ⟨w, hw, hc⟩ := h
  obtain ⟨w', hw', hc'⟩ := h'
  refine ⟨w ++ w', ?_, ?_⟩
  · intro t ht
    exact (List.mem_append.1 ht).elim (hw t) (hw' t)
  · rw [← List.append_assoc]
    exact Language.append_mem_mul hc hc'

theorem Viable.mul_left (h : c ∈ L) (h' : Viable L' c') : Viable (L * L') (c ++ c') := by
  obtain ⟨w, hw, hc⟩ := h'
  refine ⟨w, hw, ?_⟩
  rw [List.append_assoc]
  exact Language.append_mem_mul h hc

/-! ## Members of products -/

theorem mem_word_mul : ts ∈ word ok * L ↔ ∃ t us, ok t ∧ us ∈ L ∧ ts = t :: us := by
  rw [Language.mem_mul]
  constructor
  · rintro ⟨_, ⟨t, ht, rfl⟩, us, hus, rfl⟩
    exact ⟨t, us, ht, hus, rfl⟩
  · rintro ⟨t, us, ht, hus, rfl⟩
    exact ⟨[t], ⟨t, ht, rfl⟩, us, hus, rfl⟩

theorem mem_further_iff : c ∈ further ↔ c = [] ∨ c ∈ symbol "," * (listedPoint * further) := by
  rw [← mul_assoc]
  conv_lhs => rw [further, ← Language.one_add_self_mul_kstar_eq_kstar]
  exact Iff.rfl

theorem nil_mem_further : [] ∈ further := Language.nil_mem_kstar _

/-! ## Every word is written somewhere -/

theorem viable_word {t : Token} (text : String) (h : t ∈ Token.ofText text) (ht : ok t) :
    Viable (word ok) [] := by
  refine ⟨[t], ?_, ⟨t, ht, rfl⟩⟩
  intro u hu
  rw [List.mem_singleton.1 hu]
  exact ⟨text, h⟩

theorem viable_keyword (k : Keyword) : Viable (keyword k) [] := by
  refine viable_word (t := Token.ofWord Position.start k.word.toList) k.word ?_ ?_ <;>
    cases k <;> decide

theorem viable_noun (n : Noun) : Viable (noun n) [] := by
  refine viable_word (t := Token.ofWord Position.start n.stem.toList) n.stem ?_ ?_ <;>
    cases n <;> decide

theorem viable_comma : Viable (symbol ",") [] :=
  viable_word (t := ⟨",", .delimiter, Position.start⟩) "," (by decide) (by decide)

theorem viable_name : Viable name [] :=
  viable_word (t := ⟨"A", .name, Position.start⟩) "A" (by decide) rfl

theorem viable_side : Viable side [] :=
  viable_word (t := ⟨"AB", .name, Position.start⟩) "AB" (by decide) ⟨rfl, by decide⟩

theorem viable_coordinates : Viable coordinates [] :=
  viable_word (t := ⟨"(0,0)", .coordinates, Position.start⟩) "(0,0)" (by decide)
    ⟨rfl, Coord.origin, by decide⟩

end Grammar

end Planimetry
