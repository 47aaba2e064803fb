import Mathlib.Data.List.Forall2
import Mathlib.Data.Option.Basic
import Planimetry.Coord.Literal
import Planimetry.Proofs.Prediction.Commands
import Planimetry.Reading

/-!
# Readings that agree

Two texts whose tokens are equivalent, one by one, are read in the same way: what is read of them
differs in positions only, and the positions are those of tokens that stand at the same place.

With one text on both sides, this tells what is read of a text by the tokens of it.

## Main definitions

* `Token.Equivalent`: tokens that mean the same.
* `Reader.Agree`: readers that go through equivalent texts in the same way.
* `Reading.Agree`: readings that differ in positions only.

Main statement: `Reading.agree_ofTokens`.
-/

namespace Planimetry

/-! ## Equivalent tokens -/

/-- Tokens that mean the same, whatever their letters and their positions are. -/
structure Token.Equivalent (t t' : Token) : Prop where
  category : t.category = t'.category
  keyword : t.category = .reserved → t.keyword? = t'.keyword?
  noun : t.category = .geometry → t.noun? = t'.noun?
  lexeme : t.category = .delimiter ∨ t.category = .name → t.lexeme = t'.lexeme
  /-- Both literals give the same coordinates, or none. -/
  coord : t.category = .coordinates →
    (Coord.parse t.lexeme).toOption = (Coord.parse t'.lexeme).toOption

namespace Token.Equivalent

variable {t t' : Token}

instance (t t' : Token) : Decidable (t.Equivalent t') :=
  decidable_of_iff
    (t.category = t'.category ∧ (t.category = .reserved → t.keyword? = t'.keyword?) ∧
      (t.category = .geometry → t.noun? = t'.noun?) ∧
      (t.category = .delimiter ∨ t.category = .name → t.lexeme = t'.lexeme) ∧
      (t.category = .coordinates →
        (Coord.parse t.lexeme).toOption = (Coord.parse t'.lexeme).toOption))
    ⟨fun ⟨hc, hk, hn, hl, hp⟩ => ⟨hc, hk, hn, hl, hp⟩,
      fun ⟨hc, hk, hn, hl, hp⟩ => ⟨hc, hk, hn, hl, hp⟩⟩

theorem refl (t : Token) : t.Equivalent t :=
  ⟨rfl, fun _ => rfl, fun _ => rfl, fun _ => rfl, fun _ => rfl⟩

theorem keyword?_eq (h : t.Equivalent t') : t.keyword? = t'.keyword? := by
  by_cases hc : t.category = .reserved
  · exact h.keyword hc
  · rw [keyword?, keyword?, if_neg hc, if_neg (h.category ▸ hc)]

theorem noun?_eq (h : t.Equivalent t') : t.noun? = t'.noun? := by
  by_cases hc : t.category = .geometry
  · exact h.noun hc
  · rw [noun?, noun?, if_neg hc, if_neg (h.category ▸ hc)]

theorem isDelimiter_eq (h : t.Equivalent t') (s : String) : t.isDelimiter s = t'.isDelimiter s := by
  unfold isDelimiter
  by_cases hc : t.category = .delimiter
  · rw [← h.category, h.lexeme (.inl hc)]
  · simp [← h.category, hc]

end Token.Equivalent

/-! ## What agrees -/

/-- Both results are good and related by `A`, or both are faults and related by `E`. -/
inductive Related {ε ε' α α' : Type} (E : ε → ε' → Prop) (A : α → α' → Prop) :
    Except ε α → Except ε' α' → Prop where
  | ok {a : α} {a' : α'} : A a a' → Related E A (.ok a) (.ok a')
  | error {x : ε} {x' : ε'} : E x x' → Related E A (.error x) (.error x')

section

variable (T : Token → Token → Prop)

/-- Positions of tokens that are related. -/
def Position.Match (p p' : Position) : Prop := ∃ t t', T t t' ∧ t.pos = p ∧ t'.pos = p'

/-- Mentions of the same point, made by related tokens: the name is the word, or a letter of it. -/
structure Mention.Agree (m m' : Mention) : Prop where
  name : m.name = m'.name
  given : m.given = m'.given
  word : ∃ t t', T t t' ∧ t.pos = m.pos ∧ t'.pos = m'.pos ∧
    (m.name = t.lexeme ∨ ∃ c : Char, m.name = c.toString)

structure Side.Agree (s s' : Side) : Prop where
  first : s.first = s'.first
  second : s.second = s'.second
  pos : Position.Match T s.pos s'.pos

variable {T} in
/-- The ends of a side are mentioned by its word. -/
theorem Side.Agree.mention {s s' : Side} (h : s.Agree T s') (c : Char) (given : Option Coord) :
    Mention.Agree T ⟨c.toString, s.pos, given⟩ ⟨c.toString, s'.pos, given⟩ := by
  obtain ⟨t, t', ht, hpos, hpos'⟩ := h.pos
  exact ⟨rfl, rfl, t, t', ht, hpos, hpos', .inr ⟨c, rfl⟩⟩

/-- Commands that are the same except for positions. -/
inductive Command.Agree : Command → Command → Prop where
  | place {p p' : Mention} : p.Agree T p' → Agree (.place p) (.place p')
  | connect {ps ps' : List Mention} :
      List.Forall₂ (Mention.Agree T) ps ps' → Agree (.connect ps) (.connect ps')
  | segment {a b a' b' : Mention} :
      a.Agree T a' → b.Agree T b' → Agree (.segment a b) (.segment a' b')
  | perpendicular {s s' : Side} : s.Agree T s' → Agree (.perpendicular s) (.perpendicular s')
  | triangle {a b c a' b' c' : Mention} :
      a.Agree T a' → b.Agree T b' → c.Agree T c' → Agree (.triangle a b c) (.triangle a' b' c')
  | square {s s' : Side} (a b : Option Coord) :
      s.Agree T s' → Agree (.square s a b) (.square s' a b)

structure Operation.Agree (op op' : Operation) : Prop where
  pos : Position.Match T op.pos op'.pos
  command : op.command.Agree T op'.command

/-- Places where two texts go wrong, at related tokens or both at the end. -/
structure Stop.Agree (st st' : Stop) : Prop where
  mentions : List.Forall₂ (Mention.Agree T) st.mentions st'.mentions
  found : Option.Rel T st.fault.found st'.fault.found

structure Reading.Agree (r r' : Reading) : Prop where
  operations : List.Forall₂ (Operation.Agree T) r.operations r'.operations
  stop : Option.Rel (Stop.Agree T) r.stop r'.stop

structure ReadState.Agree (s s' : ReadState) : Prop where
  tokens : List.Forall₂ T s.tokens s'.tokens
  mentions : List.Forall₂ (Mention.Agree T) s.mentions s'.mentions

end

namespace Reader

variable {T : Token → Token → Prop} {α α' β β' : Type} {A : α → α' → Prop} {B : β → β' → Prop}

/-! ## Readers side by side -/

/-- Both readers go on with related results, or both stop; the texts agree behind them. -/
inductive ResultAgree (T : Token → Token → Prop) (A : α → α' → Prop) :
    EStateM.Result Expectation ReadState α → EStateM.Result Expectation ReadState α' → Prop where
  | ok {a : α} {a' : α'} {s s' : ReadState} :
      A a a' → s.Agree T s' → ResultAgree T A (.ok a s) (.ok a' s')
  | error {x x' : Expectation} {s s' : ReadState} :
      s.Agree T s' → ResultAgree T A (.error x s) (.error x' s')

/-- Readers that go through texts of related tokens in the same way. -/
def Agree (T : Token → Token → Prop) (A : α → α' → Prop) (r : Reader α) (r' : Reader α') : Prop :=
  ∀ s s', s.Agree T s' → ResultAgree T A (r s) (r' s')

theorem agree_pure {a : α} {a' : α'} (h : A a a') : Agree T A (pure a) (pure a') :=
  fun _ _ hs => .ok h hs

theorem agree_throw (x x' : Expectation) : Agree T A (throw x) (throw x') :=
  fun _ _ hs => .error hs

theorem ResultAgree.bind {r : Reader α} {r' : Reader α'} {f : α → Reader β} {f' : α' → Reader β'}
    {s s' : ReadState} (h : ResultAgree T A (r s) (r' s'))
    (hf : ∀ a a' u u', r s = .ok a u → A a a' → u.Agree T u' →
      ResultAgree T B (f a u) (f' a' u')) :
    ResultAgree T B ((r >>= f) s) ((r' >>= f') s') := by
  rw [bind_run, bind_run]
  generalize e : r s = res, r' s' = res' at h
  cases h with
  | ok ha hu => exact hf _ _ _ _ e ha hu
  | error hu => exact .error hu

theorem Agree.bind {r : Reader α} {r' : Reader α'} {f : α → Reader β} {f' : α' → Reader β'}
    (h : Agree T A r r') (hf : ∀ a a', A a a' → Agree T B (f a) (f' a')) :
    Agree T B (r >>= f) (r' >>= f') :=
  fun s s' hs => (h s s' hs).bind fun a a' u u' _ ha hu => hf a a' ha u u' hu

/-- A choice that falls the same way on both sides. -/
theorem Agree.ite {p p' : Prop} [Decidable p] [Decidable p'] {r₁ r₂ : Reader α}
    {r₁' r₂' : Reader α'} (hp : p ↔ p') (h₁ : Agree T A r₁ r₁') (h₂ : Agree T A r₂ r₂') :
    Agree T A (if p then r₁ else r₂) (if p' then r₁' else r₂') := by
  by_cases h : p
  · rw [if_pos h, if_pos (hp.1 h)]
    exact h₁
  · rw [if_neg h, if_neg fun h' => h (hp.2 h')]
    exact h₂

theorem agree_token {x x' : Expectation} {accept : Token → Except Expectation α}
    {accept' : Token → Except Expectation α'}
    (h : ∀ t t', T t t' → Related (fun _ _ => True) A (accept t) (accept' t')) :
    Agree T A (token x accept) (token x' accept') := by
  rintro ⟨ts, ms⟩ ⟨ts', ms'⟩ ⟨hts, hms⟩
  simp only at hts
  unfold token
  cases hts with
  | nil => exact .error ⟨.nil, hms⟩
  | @cons t t' ts ts' ht hts =>
    have ha := h t t' ht
    dsimp only
    generalize accept t = res, accept' t' = res' at ha
    cases ha with
    | ok ha => exact .ok ha ⟨hts, hms⟩
    | error _ => exact .error ⟨.cons ht hts, hms⟩

theorem agree_ahead : Agree T (Option.Rel T) ahead ahead := by
  rintro ⟨ts, ms⟩ ⟨ts', ms'⟩ ⟨hts, hms⟩
  refine .ok ?_ ⟨hts, hms⟩
  cases hts with
  | nil => exact .none
  | cons ht _ => exact .some ht

theorem agree_note {m m' : Mention} (h : m.Agree T m') :
    Agree T (Mention.Agree T) (note m) (note m') :=
  fun _ _ hs => .ok h ⟨hs.tokens, List.rel_append hs.mentions (.cons h .nil)⟩

/-! ## Equivalent texts -/

section

variable (hT : ∀ t t', T t t' → t.Equivalent t')

include hT

theorem agree_one {x : Expectation} {test : Token → Bool}
    (h : ∀ t t', t.Equivalent t' → test t = test t') :
    Agree T (fun _ _ => True) (one x test) (one x test) := by
  refine agree_token fun t t' ht => ?_
  rw [h t t' (hT t t' ht)]
  split
  · exact .ok trivial
  · exact .error trivial

theorem agree_keyword (k : Keyword) : Agree T (fun _ _ => True) (keyword k) (keyword k) :=
  agree_one hT fun _ _ h => by rw [h.keyword?_eq]

theorem agree_noun (n : Noun) : Agree T (fun _ _ => True) (noun n) (noun n) :=
  agree_one hT fun _ _ h => by rw [h.noun?_eq]

theorem agree_symbol (s : String) : Agree T (fun _ _ => True) (symbol s) (symbol s) :=
  agree_one hT fun _ _ h => h.isDelimiter_eq s

/-- A name and its position are those of the word. -/
theorem agree_name :
    Agree T (fun x x' => ∃ t t', T t t' ∧ t.lexeme = t'.lexeme ∧
      x = (t.lexeme, t.pos) ∧ x' = (t'.lexeme, t'.pos)) name name := by
  refine agree_token fun t t' ht => ?_
  have he := hT t t' ht
  rw [← he.category]
  split
  · exact .ok ⟨t, t', ht, he.lexeme (.inr ‹_›), rfl, rfl⟩
  · exact .error trivial

theorem agree_side : Agree T (Side.Agree T) side side := by
  refine agree_token fun t t' ht => ?_
  have he := hT t t' ht
  rw [← he.category]
  split
  · rw [← he.lexeme (.inr ‹_›)]
    split
    · exact .ok ⟨rfl, rfl, t, t', ht, rfl, rfl⟩
    · exact .error trivial
  · exact .error trivial

theorem agree_coordinates (name name' : String) :
    Agree T Eq (coordinates name) (coordinates name') := by
  refine agree_token fun t t' ht => ?_
  have he := hT t t' ht
  rw [← he.category]
  split
  · have hcoord := he.coord ‹_›
    cases h : Coord.parse t.lexeme <;> cases h' : Coord.parse t'.lexeme <;>
      simp only [h, h', Except.toOption] at hcoord
    · exact .error trivial
    · cases hcoord
    · cases hcoord
    · exact .ok (Option.some.inj hcoord)
  · exact .error trivial

theorem agree_coordinates? (name name' : String) :
    Agree T Eq (coordinates? name) (coordinates? name') := by
  refine agree_ahead.bind fun o o' ho => .ite ?_ ?_ (agree_pure rfl)
  · cases ho with
    | none => rfl
    | some ht => simp [(hT _ _ ht).category]
  · refine (agree_coordinates hT name name').bind fun c c' hc => agree_pure ?_
    rw [hc]

theorem agree_point : Agree T (Mention.Agree T) point point := by
  refine (agree_name hT).bind ?_
  rintro _ _ ⟨t, t', ht, hlex, rfl, rfl⟩
  refine (agree_coordinates? hT _ _).bind fun c c' hc => agree_note ?_
  exact ⟨hlex, hc, t, t', ht, rfl, rfl, .inl rfl⟩

theorem agree_listedPoint : Agree T (Mention.Agree T) listedPoint listedPoint := by
  refine (agree_name hT).bind ?_
  rintro _ _ ⟨t, t', ht, hlex, rfl, rfl⟩
  refine (agree_coordinates hT _ _).bind fun c c' hc => agree_note ?_
  exact ⟨hlex, congrArg some hc, t, t', ht, rfl, rfl, .inl rfl⟩

/-- The induction is on the length of the first text, which is shorter behind its comma. -/
theorem agree_listedPoints :
    Agree T (List.Forall₂ (Mention.Agree T)) listedPoints listedPoints := by
  rintro ⟨ts, ms⟩ ⟨ts', ms'⟩ hs
  induction hlen : ts.length using Nat.strong_induction_on generalizing ts ms ts' ms' with
  | _ n ih =>
  subst hlen
  obtain ⟨hts, hms⟩ := id hs
  simp only at hts
  cases hts with
  | nil =>
    rw [listedPoints_of_no_comma (by simp), listedPoints_of_no_comma (by simp)]
    exact .ok .nil hs
  | @cons t t' ts ts' ht hts =>
    have hcomma := (hT t t' ht).isDelimiter_eq ","
    by_cases hd : t.isDelimiter ","
    · rw [listedPoints_of_comma hd, listedPoints_of_comma (hcomma ▸ hd)]
      refine (agree_symbol hT "," _ _ hs).bind fun _ _ u u' e _ hu => ?_
      have hrest : u.tokens = ts := by
        unfold symbol one at e
        obtain ⟨_, -, hcons, -⟩ := token_eq_ok_iff.1 e
        exact (List.cons.inj hcons).2.symm
      refine (agree_listedPoint hT _ _ hu).bind fun m m' v v' e hm hv => ?_
      have hshort := shrinks_listedPoint u
      rw [rest, e, hrest] at hshort
      refine ResultAgree.bind (ih _ (Nat.lt_succ_of_le hshort) _ _ _ _ hv rfl) ?_
      intro ps ps' w w' _ hps hw
      exact .ok (.cons hm hps) hw
    · have hd' : ¬ t'.isDelimiter "," = true := hcomma ▸ hd
      rw [listedPoints_of_no_comma (by exact hd), listedPoints_of_no_comma (by exact hd')]
      exact .ok .nil hs

theorem agree_place : Agree T (Command.Agree T) place place :=
  (agree_noun hT _).bind fun _ _ _ => (agree_point hT).bind fun _ _ hp => agree_pure (.place hp)

theorem agree_connect : Agree T (Command.Agree T) connect connect :=
  (agree_noun hT _).bind fun _ _ _ => (agree_listedPoint hT).bind fun _ _ hp =>
    (agree_listedPoints hT).bind fun _ _ hps => agree_pure (.connect (.cons hp hps))

theorem agree_segment : Agree T (Command.Agree T) segment segment :=
  (agree_noun hT _).bind fun _ _ _ => (agree_keyword hT _).bind fun _ _ _ =>
    (agree_keyword hT _).bind fun _ _ _ => (agree_noun hT _).bind fun _ _ _ =>
    (agree_point hT).bind fun _ _ ha => (agree_keyword hT _).bind fun _ _ _ =>
    (agree_point hT).bind fun _ _ hb => agree_pure (.segment ha hb)

theorem agree_perpendicular : Agree T (Command.Agree T) perpendicular perpendicular :=
  (agree_noun hT _).bind fun _ _ _ => (agree_symbol hT _).bind fun _ _ _ =>
    (agree_noun hT _).bind fun _ _ _ => (agree_keyword hT _).bind fun _ _ _ =>
    (agree_noun hT _).bind fun _ _ _ => (agree_side hT).bind fun _ _ hs =>
    agree_pure (.perpendicular hs)

theorem agree_triangle : Agree T (Command.Agree T) triangle triangle :=
  (agree_noun hT _).bind fun _ _ _ => (agree_keyword hT _).bind fun _ _ _ =>
    (agree_noun hT _).bind fun _ _ _ => (agree_point hT).bind fun _ _ ha =>
    (agree_symbol hT _).bind fun _ _ _ => (agree_point hT).bind fun _ _ hb =>
    (agree_symbol hT _).bind fun _ _ _ => (agree_point hT).bind fun _ _ hc =>
    agree_pure (.triangle ha hb hc)

theorem agree_square : Agree T (Command.Agree T) square square := by
  refine (agree_noun hT _).bind fun _ _ _ => (agree_keyword hT _).bind fun _ _ _ =>
    (agree_noun hT _).bind fun _ _ _ => (agree_side hT).bind fun s s' hs => ?_
  refine (agree_coordinates? hT _ _).bind fun c c' hc => (agree_note ?_).bind fun a a' ha =>
    (agree_coordinates? hT _ _).bind fun d d' hd => (agree_note ?_).bind fun b b' hb =>
    agree_pure ?_
  · rw [hc, Side.firstName, Side.firstName, ← hs.first]
    exact hs.mention s.first c'
  · rw [hd, Side.secondName, Side.secondName, ← hs.second]
    exact hs.mention s.second d'
  · rw [ha.given, hb.given]
    exact .square _ _ hs

/-- The noun ahead is the same on both sides. -/
theorem bind_noun?_eq {o o' : Option Token} (h : Option.Rel T o o') :
    o.bind (·.noun?) = o'.bind (·.noun?) := by
  cases h with
  | none => rfl
  | some ht => exact (hT _ _ ht).noun?_eq

theorem agree_draw : Agree T (Command.Agree T) draw draw :=
  agree_ahead.bind fun _ _ ho =>
    .ite (by rw [bind_noun?_eq hT ho]) (agree_perpendicular hT) (agree_segment hT)

theorem agree_build : Agree T (Command.Agree T) build build := by
  refine agree_ahead.bind fun o o' ho => ?_
  rw [bind_noun?_eq hT ho]
  split
  · exact agree_triangle hT
  · exact agree_square hT
  · exact agree_throw _ _

theorem agree_opening :
    Agree T (fun x x' => Position.Match T x.1 x'.1 ∧ Agree T (Command.Agree T) x.2 x'.2)
      opening opening := by
  refine agree_token fun t t' ht => ?_
  have hpos : Position.Match T t.pos t'.pos := ⟨t, t', ht, rfl, rfl⟩
  rw [(hT t t' ht).keyword?_eq]
  split
  · exact .ok ⟨hpos, agree_place hT⟩
  · exact .ok ⟨hpos, agree_connect hT⟩
  · exact .ok ⟨hpos, agree_draw hT⟩
  · exact .ok ⟨hpos, agree_build hT⟩
  · exact .error trivial

theorem agree_operation : Agree T (Operation.Agree T) operation operation := by
  refine (agree_opening hT).bind ?_
  rintro ⟨pos, body⟩ ⟨pos', body'⟩ ⟨hpos, hbody⟩
  exact hbody.bind fun _ _ hc => agree_pure ⟨hpos, hc⟩

end

end Reader

/-! ## Readings -/

namespace Reading

variable {T : Token → Token → Prop} {r r' : Reading} {op op' : Operation}

theorem Agree.cons (hop : op.Agree T op') (h : r.Agree T r') : (r.cons op).Agree T (r'.cons op') :=
  ⟨.cons hop h.operations, h.stop⟩

theorem agree_single (hop : op.Agree T op') : Agree T ⟨[op], none⟩ ⟨[op'], none⟩ :=
  ⟨.cons hop .nil, .none⟩

/-- Texts of equivalent tokens have readings that agree. -/
theorem agree_ofTokens (hT : ∀ t t', T t t' → t.Equivalent t') {ts ts' : List Token}
    (h : List.Forall₂ T ts ts') : Agree T (ofTokens ts) (ofTokens ts') := by
  induction hlen : ts.length using Nat.strong_induction_on generalizing ts ts' with
  | _ n ih =>
  subst hlen
  have hop := Reader.agree_operation hT ⟨ts, []⟩ ⟨ts', []⟩ ⟨h, .nil⟩
  generalize e : Reader.operation ⟨ts, []⟩ = res, e' : Reader.operation ⟨ts', []⟩ = res' at hop
  cases hop with
  | @error x x' s s' hs =>
    rw [ofTokens_of_error e, ofTokens_of_error e']
    obtain ⟨us, ms⟩ := s
    obtain ⟨us', ms'⟩ := s'
    refine ⟨.nil, .some ⟨hs.mentions, ?_⟩⟩
    cases (hs.tokens : List.Forall₂ T us us') with
    | nil => exact .none
    | cons ht _ => exact .some ht
  | @ok op op' s s' hop hs =>
    obtain ⟨us, ms⟩ := s
    obtain ⟨us', ms'⟩ := s'
    have hshort := Reader.length_lt_of_operation e
    obtain ⟨hus, -⟩ := hs
    simp only at hus hshort
    cases hus with
    | nil =>
      rw [ofTokens_of_end e, ofTokens_of_end e']
      exact agree_single hop
    | @cons t t' us us' ht hus =>
      rw [ofTokens_of_cons e, ofTokens_of_cons e', (hT t t' ht).isDelimiter_eq]
      split
      · have hempty : us.isEmpty = us'.isEmpty := by cases hus <;> rfl
        rw [hempty]
        split
        · exact agree_single hop
        · refine (ih us.length ?_ hus rfl).cons hop
          rw [List.length_cons] at hshort
          omega
      · exact ⟨.cons hop .nil, .some ⟨.nil, .some ht⟩⟩

end Reading

end Planimetry
