/-!
# Patterns of words

Regular expressions over characters, the words they match, and a decision procedure that takes
the pattern's derivative by each character of the word in turn.

Main statement: `accepts_iff`, the procedure answers yes exactly on the matching words.
-/

namespace Planimetry

/-- A regular expression over characters. -/
inductive Pattern where
  | never
  | blank
  | one (ok : Char → Bool)
  | seq (p q : Pattern)
  | alt (p q : Pattern)
  | star (p : Pattern)

namespace Pattern

/-- `Matches p w`: the whole word `w` has the form `p`. -/
inductive Matches : Pattern → List Char → Prop where
  | blank : Matches .blank []
  | one {ok : Char → Bool} {c : Char} : ok c = true → Matches (.one ok) [c]
  | seq {p q : Pattern} {u v : List Char} : Matches p u → Matches q v → Matches (.seq p q) (u ++ v)
  | left {p q : Pattern} {w : List Char} : Matches p w → Matches (.alt p q) w
  | right {p q : Pattern} {w : List Char} : Matches q w → Matches (.alt p q) w
  | starNil {p : Pattern} : Matches (.star p) []
  | starCons {p : Pattern} {u v : List Char} :
      Matches p u → Matches (.star p) v → Matches (.star p) (u ++ v)

/-! ## Building patterns -/

def char (c : Char) : Pattern := .one (· == c)

def anyOf (s : String) : Pattern := .one fun c => s.toList.contains c

def between (a b : Char) : Pattern := .one fun c => a ≤ c && c ≤ b

def text (s : String) : Pattern := s.toList.foldr (fun c p => .seq (char c) p) .blank

def oneOf (ps : List Pattern) : Pattern := ps.foldr .alt .never

def inOrder (ps : List Pattern) : Pattern := ps.foldr .seq .blank

def words (ws : List String) : Pattern := oneOf (ws.map text)

def many (p : Pattern) : Pattern := .seq p (.star p)

def optional (p : Pattern) : Pattern := .alt p .blank

/-! ## Deciding a match -/

/-- Whether the pattern matches the empty word. -/
def nullable : Pattern → Bool
  | .never => false
  | .blank => true
  | .one _ => false
  | .seq p q => p.nullable && q.nullable
  | .alt p q => p.nullable || q.nullable
  | .star _ => true

/-- `seq`, without the parts that cannot matter. -/
def andThen : Pattern → Pattern → Pattern
  | .never, _ => .never
  | .blank, q => q
  | p, q => .seq p q

/-- `alt`, without the parts that cannot matter. -/
def orElse : Pattern → Pattern → Pattern
  | .never, q => q
  | p, .never => p
  | p, q => .alt p q

/-- The pattern of what may follow `c` in a matching word. -/
def derive (c : Char) : Pattern → Pattern
  | .never => .never
  | .blank => .never
  | .one ok => if ok c then .blank else .never
  | .seq p q =>
    if p.nullable then ((p.derive c).andThen q).orElse (q.derive c) else (p.derive c).andThen q
  | .alt p q => (p.derive c).orElse (q.derive c)
  | .star p => (p.derive c).andThen (.star p)

/-- Whether the whole word matches the pattern. -/
def accepts (p : Pattern) : List Char → Bool
  | [] => p.nullable
  | c :: cs => (p.derive c).accepts cs

/-! ## The procedure is right -/

@[simp] theorem not_matches_never {w : List Char} : ¬ Matches .never w := nofun

@[simp] theorem matches_blank_iff {w : List Char} : Matches .blank w ↔ w = [] :=
  ⟨fun h => by cases h; rfl, fun h => h ▸ .blank⟩

theorem matches_one_iff {ok : Char → Bool} {w : List Char} :
    Matches (.one ok) w ↔ ∃ c, ok c = true ∧ w = [c] :=
  ⟨fun h => by cases h with | one h => exact ⟨_, h, rfl⟩, fun ⟨_, h, e⟩ => e ▸ .one h⟩

theorem matches_seq_iff {p q : Pattern} {w : List Char} :
    Matches (.seq p q) w ↔ ∃ u v, Matches p u ∧ Matches q v ∧ w = u ++ v :=
  ⟨fun h => by cases h with | seq hu hv => exact ⟨_, _, hu, hv, rfl⟩,
    fun ⟨_, _, hu, hv, e⟩ => e ▸ .seq hu hv⟩

theorem matches_alt_iff {p q : Pattern} {w : List Char} :
    Matches (.alt p q) w ↔ Matches p w ∨ Matches q w :=
  ⟨fun h => by cases h with
    | left h => exact .inl h
    | right h => exact .inr h,
   fun h => h.elim .left .right⟩

theorem nullable_iff {p : Pattern} : p.nullable = true ↔ Matches p [] := by
  induction p with
  | never => simp [nullable]
  | blank => simp [nullable]
  | one ok => simp [nullable, matches_one_iff]
  | seq p q hp hq => simp [nullable, hp, hq, matches_seq_iff]
  | alt p q hp hq => simp [nullable, hp, hq, matches_alt_iff]
  | star p => simp [nullable, Matches.starNil]

theorem matches_andThen_iff {p q : Pattern} {w : List Char} :
    Matches (p.andThen q) w ↔ Matches (.seq p q) w := by
  cases p <;> simp [andThen, matches_seq_iff]

theorem matches_orElse_iff {p q : Pattern} {w : List Char} :
    Matches (p.orElse q) w ↔ Matches (.alt p q) w := by
  cases p <;> cases q <;> simp [orElse, matches_alt_iff]

/-- A non-empty word of repetitions begins with a non-empty repetition. -/
theorem matches_star_cons_iff {p : Pattern} {c : Char} {w : List Char} :
    Matches (.star p) (c :: w) ↔
      ∃ u v, Matches p (c :: u) ∧ Matches (.star p) v ∧ w = u ++ v := by
  constructor
  · intro h
    generalize hs : Pattern.star p = s at h
    generalize hx : c :: w = x at h
    induction h with
    | starNil => cases hx
    | @starCons p' u v hu hv _ ih =>
      cases hs
      cases u with
      | nil => exact ih rfl hx
      | cons d u =>
        obtain ⟨rfl, rfl⟩ := List.cons.inj hx
        exact ⟨u, v, hu, hv, rfl⟩
    | blank | one | seq | left | right => cases hs
  · rintro ⟨u, v, hu, hv, rfl⟩
    exact .starCons hu hv

theorem matches_derive_iff {p : Pattern} {c : Char} {w : List Char} :
    Matches (p.derive c) w ↔ Matches p (c :: w) := by
  induction p generalizing w with
  | never => simp [derive]
  | blank => simp [derive]
  | one ok =>
    by_cases h : ok c = true
    · simp only [derive, h, if_true, matches_blank_iff, matches_one_iff, List.cons.injEq]
      exact ⟨fun e => ⟨c, h, rfl, e⟩, fun ⟨_, _, _, e⟩ => e⟩
    · rw [derive, if_neg h, matches_one_iff]
      exact ⟨fun m => (nomatch m), fun ⟨_, hd, e⟩ => absurd ((List.cons.inj e).1 ▸ hd) h⟩
  | seq p q hp hq =>
    have split_left : Matches (.seq (p.derive c) q) w ↔
        ∃ u v, Matches p (c :: u) ∧ Matches q v ∧ w = u ++ v := by
      simp only [matches_seq_iff, hp]
    have cons_split : Matches (.seq p q) (c :: w) ↔
        (∃ u v, Matches p (c :: u) ∧ Matches q v ∧ w = u ++ v) ∨
          (Matches p [] ∧ Matches q (c :: w)) := by
      rw [matches_seq_iff]
      constructor
      · rintro ⟨u, v, hu, hv, e⟩
        cases u with
        | nil => exact .inr ⟨hu, by simpa [e] using hv⟩
        | cons d u =>
          obtain ⟨rfl, rfl⟩ := List.cons.inj e
          exact .inl ⟨u, v, hu, hv, rfl⟩
      · rintro (⟨u, v, hu, hv, rfl⟩ | ⟨hp, hq⟩)
        · exact ⟨c :: u, v, hu, hv, rfl⟩
        · exact ⟨[], c :: w, hp, hq, rfl⟩
    rw [cons_split, ← split_left]
    by_cases hn : p.nullable = true
    · simp [derive, hn, matches_orElse_iff, matches_alt_iff, matches_andThen_iff, hq,
        nullable_iff.1 hn]
    · have : ¬ Matches p [] := fun h => hn (nullable_iff.2 h)
      simp [derive, hn, matches_andThen_iff, this]
  | alt p q hp hq => simp [derive, matches_orElse_iff, matches_alt_iff, hp, hq]
  | star p hp =>
    rw [matches_star_cons_iff, derive, matches_andThen_iff, matches_seq_iff]
    simp only [hp]

/-- The procedure answers yes exactly on the words of the pattern. -/
theorem accepts_iff {p : Pattern} {w : List Char} : p.accepts w = true ↔ Matches p w := by
  induction w generalizing p with
  | nil => exact nullable_iff
  | cons c w ih => rw [accepts, ih, matches_derive_iff]

instance (p : Pattern) (w : List Char) : Decidable (Matches p w) :=
  decidable_of_iff _ accepts_iff

end Pattern

end Planimetry
