import Planimetry.Proofs.Prediction

/-!
# The readers of commands predict

Each reader of a part of a command reads the phrases of that part.

Main statement: `reads_operation`, the reader of operations reads the language of operations.
-/

namespace Planimetry

open scoped Computability
open Grammar (word Viable)

namespace Reader

variable {α : Type} {L : Language Token} {stop : Token → Prop} {ok : Token → Prop}

/-! ## Words -/

/-- A semicolon belongs to the delimiters, and to no other category that a reader looks for. -/
theorem category_ne_of_semicolon {t : Token} (h : t.isDelimiter ";") {c : Category}
    (hc : c ≠ .delimiter) : t.category ≠ c :=
  fun e => hc (e.symm.trans (Token.isDelimiter_iff.1 h).1)

theorem reads_one {e : Expectation} {test : Token → Bool} (hok : ∀ t, test t = true ↔ ok t)
    (hend : ∀ t, t.isDelimiter ";" → ¬ ok t) (hL : Viable (word ok) []) :
    Reads (one e test) (word ok) fun _ => True := by
  refine reads_token (fun t => ?_) hend hL
  rw [← hok]
  cases test t <;> simp

theorem reads_keyword (k : Keyword) : Reads (keyword k) (Grammar.keyword k) fun _ => True := by
  refine reads_one (fun t => decide_eq_true_iff) ?_ (Grammar.viable_keyword k)
  intro t ht hk
  exact category_ne_of_semicolon ht (by decide) (Token.category_of_keyword? hk)

theorem reads_noun (n : Noun) : Reads (noun n) (Grammar.noun n) fun _ => True := by
  refine reads_one (fun t => decide_eq_true_iff) ?_ (Grammar.viable_noun n)
  intro t ht hn
  exact category_ne_of_semicolon ht (by decide) (Token.category_of_noun? hn)

theorem reads_comma : Reads (symbol ",") (Grammar.symbol ",") fun _ => True := by
  refine reads_one (fun t => Iff.rfl) ?_ Grammar.viable_comma
  intro t ht hc
  have h : ";" = "," :=
    (Token.isDelimiter_iff.1 ht).2.symm.trans (Token.isDelimiter_iff.1 hc).2
  exact absurd h (by decide)

theorem reads_name : Reads name Grammar.name fun _ => True := by
  refine reads_token (fun t => ?_) ?_ Grammar.viable_name
  · by_cases h : t.category = .name <;> simp [h]
  · intro t ht hn
    exact category_ne_of_semicolon ht (by decide) hn

theorem reads_side : Reads side Grammar.side fun _ => True := by
  refine reads_token (fun t => ?_) ?_ Grammar.viable_side
  · by_cases h : t.category = .name
    · simp only [h, true_and, if_true]
      split
      · rename_i hl
        simp [hl]
      · rename_i hl
        simpa [List.length_eq_two] using hl
    · simp [h]
  · intro t ht hn
    exact category_ne_of_semicolon ht (by decide) hn.1

theorem reads_coordinates (n : String) :
    Reads (coordinates n) Grammar.coordinates fun _ => True := by
  refine reads_token (fun t => ?_) ?_ Grammar.viable_coordinates
  · by_cases h : t.category = .coordinates
    · simp only [h, true_and, if_true]
      cases Coord.parse t.lexeme <;> simp
    · simp [h]
  · intro t ht hn
    exact category_ne_of_semicolon ht (by decide) hn.1

/-! ## Points -/

def isCoordinates (t : Token) : Bool := t.category = .coordinates

def isComma (t : Token) : Bool := t.isDelimiter ","

theorem isCoordinates_semicolon (t : Token) (h : t.isDelimiter ";") : isCoordinates t = false :=
  decide_eq_false (category_ne_of_semicolon h (by decide))

theorem isComma_semicolon (t : Token) (h : t.isDelimiter ";") : isComma t = false := by
  simp [isComma, Token.isDelimiter, (Token.isDelimiter_iff.1 h).2]

theorem reads_coordinates? (n : String) :
    Reads (coordinates? n) (1 + Grammar.coordinates) (Lacks isCoordinates) := by
  rw [add_comm]
  refine ⟨(reads_coordinates n).phrase.mono fun _ => .inl, fun ts => ?_⟩
  refine ReadsAt.branch (p := fun o => o.any isCoordinates = true)
    (any_semicolon_iff isCoordinates_semicolon) ?_ ?_ ?_
  · intro _
    exact (((reads_coordinates n).map fun _ => reads_pure _).mono fun _ _ => trivial).at_text ts
  · intro _
    exact (reads_pure _).at_text ts
  · rintro _ (⟨t, ht, rfl⟩ | rfl) u rfl hu
    · rw [if_pos (by simp [isCoordinates, ht.1])]
      exact ⟨t, ht, rfl⟩
    · rw [if_neg (stops_lacks_iff.1 hu)]
      rfl

theorem reads_point : Reads point Grammar.point (Lacks isCoordinates) :=
  reads_name.seq fun _ => (reads_coordinates? _).map fun _ => reads_note _

theorem reads_listedPoint : Reads listedPoint Grammar.listedPoint fun _ => True :=
  reads_name.seq fun _ => (reads_coordinates _).map fun _ => reads_note _

/-- Behind a comma the list of points goes on. -/
theorem listedPoints_of_comma {t : Token} (h : t.isDelimiter ",") (ts : List Token)
    (ms : List Mention) :
    listedPoints ⟨t :: ts, ms⟩ =
      (do
        symbol ","
        let m ← listedPoint
        let ps ← listedPoints
        return m :: ps : Reader (List Mention)) ⟨t :: ts, ms⟩ := by
  have hs : symbol "," ⟨t :: ts, ms⟩ = .ok () ⟨ts, ms⟩ := by
    simp [symbol, one, token, h]
  rw [listedPoints, bind_run, hs]
  simp only [h, if_true, bind_run]
  cases listedPoint ⟨ts, ms⟩ with
  | error x s => rfl
  | ok m s =>
    dsimp only
    refine Eq.trans ?_ (bind_run listedPoints (fun ps => pure (m :: ps)) s).symm
    cases listedPoints s <;> rfl

theorem listedPoints_of_no_comma {ts : List Token} (h : ¬ ts.head?.any isComma = true)
    (ms : List Mention) : listedPoints ⟨ts, ms⟩ = .ok [] ⟨ts, ms⟩ := by
  rw [listedPoints]
  cases ts with
  | nil => rfl
  | cons t ts => exact if_neg h

/-- The induction is on the length of the text, which is shorter behind its comma. -/
theorem readsAt_listedPoints (ts : List Token) :
    ReadsAt listedPoints Grammar.further (Lacks isComma) ts := by
  have hL : Viable Grammar.further [] := Grammar.viable_of_mem Grammar.nil_mem_further
  induction hn : ts.length using Nat.strong_induction_on generalizing ts with
  | _ n ih =>
  subst hn
  have same {us : List Token} (hus : Alike ts us) :
      ts.head?.any isComma = true ↔ us.head?.any isComma = true :=
    hus.iff (p := fun o => o.any isComma = true) (any_semicolon_iff isComma_semicolon)
  by_cases hts : ts.head?.any isComma = true
  · have hrest : ∀ a, ∀ c ∈ Grammar.symbol ",", ∀ u, ts = c ++ u →
        ReadsAt ((fun _ : Unit => (do
          let m ← listedPoint
          let ps ← listedPoints
          return m :: ps : Reader (List Mention))) a)
          (Grammar.listedPoint * Grammar.further) (Lacks isComma) u := by
      rintro - _ ⟨t, ht, rfl⟩ u rfl
      refine (reads_listedPoint.at_text u).bind hL ?_ fun _ _ _ _ => stops_true
      rintro m c hc w rfl
      have hw : w.length < ([t] ++ (c ++ w)).length := by
        simp only [List.length_append, List.length_singleton]
        omega
      exact (ih w.length hw w rfl).map fun ps => reads_pure (m :: ps)
    have hmore := (reads_comma.at_text ts).bind (reads_listedPoint.phrase.mul_right hL)
      hrest fun _ _ _ _ => stops_true
    refine hmore.of_agree ?_ ?_ ?_
    · intro us hus ms
      have hus' := (same hus).1 hts
      obtain _ | ⟨t, us⟩ := us
      · cases hus'
      · exact listedPoints_of_comma hus' us ms
    · exact fun c hc => Grammar.mem_further_iff.2 (.inr hc)
    · intro c hc u hcu hu
      rcases Grammar.mem_further_iff.1 hc with rfl | hc
      · rw [hcu] at hts
        exact (stops_lacks_iff.1 hu hts).elim
      · exact hc
  · refine ((reads_pure []).at_text ts).of_agree ?_ ?_ ?_
    · intro us hus ms
      exact listedPoints_of_no_comma (fun h => hts ((same hus).2 h)) ms
    · exact fun c hc => Grammar.mem_further_iff.2 (.inl hc)
    · intro c hc u hcu hu
      rcases Grammar.mem_further_iff.1 hc with rfl | hc
      · rfl
      · obtain ⟨t, us, ht, -, rfl⟩ := Grammar.mem_word_mul.1 hc
        subst hcu
        exact (hts ht).elim

theorem reads_listedPoints : Reads listedPoints Grammar.further (Lacks isComma) :=
  ⟨Grammar.viable_of_mem Grammar.nil_mem_further, readsAt_listedPoints⟩

/-! ## Commands -/

theorem lacks_isCoordinates_of_keyword {k : Keyword} (t : Token) (h : t.keyword? = some k) :
    Lacks isCoordinates t :=
  decide_eq_false (by simp [Token.category_of_keyword? h])

theorem lacks_isCoordinates_of_isDelimiter {s : String} (t : Token) (h : t.isDelimiter s) :
    Lacks isCoordinates t :=
  decide_eq_false (by simp [(Token.isDelimiter_iff.1 h).1])

theorem reads_place : Reads place Grammar.place (Lacks isCoordinates) :=
  (reads_noun _).seq fun _ => reads_point.map fun _ => reads_pure _

theorem reads_connect : Reads connect Grammar.connect (Lacks isComma) := by
  rw [Grammar.connect, mul_assoc]
  exact (reads_noun _).seq fun _ => reads_listedPoint.seq fun _ =>
    reads_listedPoints.map fun _ => reads_pure _

theorem reads_segment : Reads segment Grammar.segment (Lacks isCoordinates) := by
  simp only [Grammar.segment, mul_assoc]
  exact (reads_noun _).seq fun _ => (reads_keyword _).seq fun _ => (reads_keyword _).seq fun _ =>
    (reads_noun _).seq fun _ => reads_point.bind
      (fun _ => (reads_keyword _).seq fun _ => reads_point.map fun _ => reads_pure _)
      (stops_word_mul lacks_isCoordinates_of_keyword)

theorem reads_perpendicular : Reads perpendicular Grammar.perpendicular fun _ => True := by
  simp only [Grammar.perpendicular, mul_assoc]
  exact (reads_noun _).seq fun _ => reads_comma.seq fun _ => (reads_noun _).seq fun _ =>
    (reads_keyword _).seq fun _ => (reads_noun _).seq fun _ =>
    reads_side.map fun _ => reads_pure _

theorem reads_triangle : Reads triangle Grammar.triangle (Lacks isCoordinates) := by
  simp only [Grammar.triangle, mul_assoc]
  exact (reads_noun _).seq fun _ => (reads_keyword _).seq fun _ => (reads_noun _).seq fun _ =>
    reads_point.bind (fun _ => reads_comma.seq fun _ =>
      reads_point.bind (fun _ => reads_comma.seq fun _ =>
        reads_point.map fun _ => reads_pure _)
        (stops_word_mul lacks_isCoordinates_of_isDelimiter))
      (stops_word_mul lacks_isCoordinates_of_isDelimiter)

/-- Optional coordinates in front of optional coordinates: the first ones that come are those of
the first point. -/
theorem Reads.after_coordinates? {n : String} {f : Option Coord → Reader α}
    (hf : ∀ x, Reads (f x) (1 + Grammar.coordinates) (Lacks isCoordinates)) :
    Reads (coordinates? n >>= f) (1 + Grammar.coordinates * (1 + Grammar.coordinates))
      (Lacks isCoordinates) := by
  have hr : coordinates? n >>= f = ahead >>= fun o =>
      if o.any isCoordinates = true then coordinates n >>= fun c => f (some c) else f none := by
    simp only [coordinates?, bind_assoc]
    congr 1
    funext o
    change (if o.any isCoordinates = true then _ else _) >>= f = _
    split <;> simp only [bind_assoc, pure_bind]
  have hL : 1 + Grammar.coordinates * (1 + Grammar.coordinates) =
      Grammar.coordinates * (1 + Grammar.coordinates) + (1 + Grammar.coordinates) := by
    ext c
    simp only [mul_add, mul_one, Language.mem_add]
    tauto
  have hsome := (reads_coordinates n).seq fun c => hf (some c)
  rw [hr, hL]
  refine ⟨hsome.phrase.mono fun _ => .inl, fun ts => ?_⟩
  refine ReadsAt.branch (p := fun o => o.any isCoordinates = true)
    (any_semicolon_iff isCoordinates_semicolon) (fun _ => hsome.at_text ts)
    (fun _ => (hf none).at_text ts) ?_
  rintro c (hc | rfl | ⟨t, ht, rfl⟩) u rfl hu
  · obtain ⟨t, us, ht, -, rfl⟩ := Grammar.mem_word_mul.1 hc
    rwa [if_pos (by simp [isCoordinates, ht.1])]
  · rw [if_neg (stops_lacks_iff.1 hu)]
    exact .inl rfl
  · rw [if_pos (by simp [isCoordinates, ht.1])]
    exact Grammar.mem_word_mul.2 ⟨t, [], ht, .inl rfl, rfl⟩

theorem reads_square : Reads square Grammar.square (Lacks isCoordinates) := by
  simp only [Grammar.square, mul_assoc]
  exact (reads_noun _).seq fun _ => (reads_keyword _).seq fun _ => (reads_noun _).seq fun _ =>
    reads_side.seq fun _ => .after_coordinates? fun _ => .note_seq fun _ =>
    (reads_coordinates? _).map fun _ => .note_seq fun _ => reads_pure _

/-! ## Choices between commands -/

/-- The tokens that end a command. -/
def Semicolon (t : Token) : Prop := t.isDelimiter ";"

theorem lacks_isCoordinates_of_semicolon (t : Token) (h : Semicolon t) : Lacks isCoordinates t :=
  isCoordinates_semicolon t h

theorem noun?_semicolon {t : Token} (h : t.isDelimiter ";") : t.noun? = none := by
  rw [Token.noun?, if_neg (category_ne_of_semicolon h (by decide))]

theorem keyword?_semicolon {t : Token} (h : t.isDelimiter ";") : t.keyword? = none := by
  rw [Token.keyword?, if_neg (category_ne_of_semicolon h (by decide))]

/-- The noun that comes next, which no `;` is. -/
theorem next_noun_semicolon (n : Noun) (t : Token) (h : t.isDelimiter ";") :
    (some t).bind (·.noun?) = some n ↔ (none : Option Token).bind (·.noun?) = some n := by
  simp [noun?_semicolon h]

theorem next_noun_of_mem {n : Noun} {c : List Token} (hc : c ∈ Grammar.noun n * L)
    (u : List Token) : (c ++ u).head?.bind (·.noun?) = some n := by
  obtain ⟨t, us, ht, -, rfl⟩ := Grammar.mem_word_mul.1 hc
  exact ht

theorem next_noun_of_segment {c : List Token} (hc : c ∈ Grammar.segment) (u : List Token) :
    (c ++ u).head?.bind (·.noun?) = some .segment := by
  simp only [Grammar.segment, mul_assoc] at hc
  exact next_noun_of_mem hc u

theorem next_noun_of_perpendicular {c : List Token} (hc : c ∈ Grammar.perpendicular)
    (u : List Token) : (c ++ u).head?.bind (·.noun?) = some .line := by
  simp only [Grammar.perpendicular, mul_assoc] at hc
  exact next_noun_of_mem hc u

theorem next_noun_of_triangle {c : List Token} (hc : c ∈ Grammar.triangle) (u : List Token) :
    (c ++ u).head?.bind (·.noun?) = some .triangle := by
  simp only [Grammar.triangle, mul_assoc] at hc
  exact next_noun_of_mem hc u

theorem next_noun_of_square {c : List Token} (hc : c ∈ Grammar.square) (u : List Token) :
    (c ++ u).head?.bind (·.noun?) = some .square := by
  simp only [Grammar.square, mul_assoc] at hc
  exact next_noun_of_mem hc u

theorem reads_draw : Reads draw (Grammar.segment + Grammar.perpendicular) Semicolon := by
  rw [add_comm]
  refine ⟨reads_perpendicular.phrase.mono fun _ => .inl, fun ts => ?_⟩
  refine ReadsAt.branch (p := fun o => o.bind (·.noun?) = some .line) (next_noun_semicolon _)
    (fun _ => (reads_perpendicular.mono fun _ _ => trivial).at_text ts)
    (fun _ => (reads_segment.mono lacks_isCoordinates_of_semicolon).at_text ts) ?_
  rintro c (hc | hc) u rfl -
  · rwa [if_pos (next_noun_of_perpendicular hc u)]
  · rwa [if_neg]
    rw [next_noun_of_segment hc u]
    decide

theorem build_run (us : List Token) (ms : List Mention) :
    build ⟨us, ms⟩ =
      (match us.head?.bind (·.noun?) with
        | some .triangle => triangle
        | some .square => square
        | _ => throw Expectation.figure) ⟨us, ms⟩ :=
  rfl

theorem reads_build : Reads build (Grammar.triangle + Grammar.square) Semicolon := by
  have phrase : Viable (Grammar.triangle + Grammar.square) [] :=
    reads_triangle.phrase.mono fun _ => .inl
  refine ⟨phrase, fun ts => ?_⟩
  have same (n : Noun) {us : List Token} (hus : Alike ts us) :
      ts.head?.bind (·.noun?) = some n ↔ us.head?.bind (·.noun?) = some n :=
    hus.iff (p := fun o => o.bind (·.noun?) = some n) (next_noun_semicolon n)
  by_cases h₁ : ts.head?.bind (·.noun?) = some .triangle
  · refine ((reads_triangle.mono lacks_isCoordinates_of_semicolon).at_text ts).of_agree ?_ ?_ ?_
    · intro us hus ms
      rw [build_run, (same _ hus).1 h₁]
    · exact fun c => .inl
    · rintro c (hc | hc) u rfl -
      · exact hc
      · exact absurd (h₁.symm.trans (next_noun_of_square hc u)) (by decide)
  by_cases h₂ : ts.head?.bind (·.noun?) = some .square
  · refine ((reads_square.mono lacks_isCoordinates_of_semicolon).at_text ts).of_agree ?_ ?_ ?_
    · intro us hus ms
      rw [build_run, (same _ hus).1 h₂]
    · exact fun c => .inr
    · rintro c (hc | hc) u rfl -
      · exact absurd (h₂.symm.trans (next_noun_of_triangle hc u)) (by decide)
      · exact hc
  · refine (readsAt_throw .figure phrase ?_).of_agree ?_ (fun _ => id) fun c hc _ _ _ => hc
    · rintro c (hc | hc) u rfl -
      · exact h₁ (next_noun_of_triangle hc u)
      · exact h₂ (next_noun_of_square hc u)
    · intro us hus ms
      have h₁' := mt (same _ hus).2 h₁
      have h₂' := mt (same _ hus).2 h₂
      rw [build_run]
      cases hn : us.head?.bind (·.noun?) with
      | none => rfl
      | some n =>
        cases n with
        | triangle => exact absurd hn h₁'
        | square => exact absurd hn h₂'
        | _ => rfl

/-- The reader of what follows a keyword, if the keyword opens a command. -/
def body? : Keyword → Option (Reader Command)
  | .place => some place
  | .connect => some connect
  | .draw => some draw
  | .build => some build
  | _ => none

/-- The phrases that may follow a keyword. -/
def bodies : Keyword → Language Token
  | .place => Grammar.place
  | .connect => Grammar.connect
  | .draw => Grammar.segment + Grammar.perpendicular
  | .build => Grammar.triangle + Grammar.square
  | _ => 0

theorem reads_body {k : Keyword} {b : Reader Command} (h : body? k = some b) :
    Reads b (bodies k) Semicolon := by
  cases k <;> cases h
  · exact reads_place.mono lacks_isCoordinates_of_semicolon
  · exact reads_connect.mono isComma_semicolon
  · exact reads_draw
  · exact reads_build

theorem mem_operation_iff {c : List Token} :
    c ∈ Grammar.operation ↔ ∃ k b, body? k = some b ∧ c ∈ Grammar.keyword k * bodies k := by
  constructor
  · rintro (((h | h) | h) | h)
    exacts [⟨.place, _, rfl, h⟩, ⟨.connect, _, rfl, h⟩, ⟨.draw, _, rfl, h⟩, ⟨.build, _, rfl, h⟩]
  · rintro ⟨k, b, hb, h⟩
    cases k <;> cases hb
    exacts [.inl (.inl (.inl h)), .inl (.inl (.inr h)), .inl (.inr h), .inr h]

/-- An operation is told by its first keyword. -/
theorem operation_run (t : Token) (us : List Token) (ms : List Mention) :
    operation ⟨t :: us, ms⟩ =
      match t.keyword?.bind body? with
      | some b => (b >>= fun c => pure ⟨t.pos, c⟩ : Reader Operation) ⟨us, ms⟩
      | none => .error .operation ⟨t :: us, ms⟩ := by
  rw [operation, bind_run, opening]
  simp only [token]
  cases t.keyword? with
  | none => rfl
  | some k => cases k <;> rfl

theorem viable_operation : Viable Grammar.operation [] :=
  ((reads_keyword .place).seq fun _ => reads_place).phrase.mono fun _ hc =>
    mem_operation_iff.2 ⟨.place, _, rfl, hc⟩

/-- Behind a keyword that opens a command, an operation is read as the keyword and its body. -/
theorem readsAt_operation_of_body {t : Token} {k : Keyword} {b : Reader Command}
    (hk : t.keyword? = some k) (hb : body? k = some b) (us : List Token) :
    ReadsAt operation Grammar.operation Semicolon (t :: us) := by
  have hq : Reads (keyword k >>= fun _ => b >>= fun c => pure ⟨t.pos, c⟩ : Reader Operation)
      (Grammar.keyword k * bodies k) Semicolon :=
    (reads_keyword k).seq fun _ => (reads_body hb).map fun _ => reads_pure _
  refine (hq.at_text (t :: us)).of_agree ?_ ?_ ?_
  · intro vs hvs ms
    obtain ⟨vs, rfl⟩ : ∃ vs', vs = t :: vs' := by
      rcases hvs with hvs | ⟨ht, -⟩
      · exact List.head?_eq_some_iff.1 hvs.symm
      · rw [keyword?_semicolon (ht t rfl)] at hk
        cases hk
    have hkey : keyword k ⟨t :: vs, ms⟩ = .ok () ⟨vs, ms⟩ := by
      simp [keyword, one, token, hk]
    rw [operation_run, hk, bind_run, hkey]
    simp only [Option.bind_some, hb]
  · exact fun c hc => mem_operation_iff.2 ⟨k, b, hb, hc⟩
  · intro c hc u hcu hu
    obtain ⟨k', -, -, hk'⟩ := mem_operation_iff.1 hc
    obtain ⟨t', c', ht', hc', rfl⟩ := Grammar.mem_word_mul.1 hk'
    obtain ⟨rfl, rfl⟩ := List.cons.inj hcu
    obtain rfl : k = k' := Option.some.inj (hk.symm.trans ht')
    exact hk'

/-- Without a keyword that opens a command there is no operation. -/
theorem readsAt_operation_of_no_body {ts : List Token}
    (h : ∀ t ∈ ts.head?, t.keyword?.bind body? = none) :
    ReadsAt operation Grammar.operation Semicolon ts := by
  have unopened {vs : List Token} (hvs : Alike ts vs) :
      ∀ t ∈ vs.head?, t.keyword?.bind body? = none := by
    intro t ht
    rcases hvs with hvs | ⟨-, hclosed⟩
    · exact h t (hvs ▸ ht)
    · rw [keyword?_semicolon (hclosed t ht), Option.bind_none]
  refine (readsAt_throw Expectation.operation viable_operation ?_).of_agree ?_ (fun _ => id)
    fun c hc _ _ _ => hc
  · rintro c hc u rfl -
    obtain ⟨k, b, hb, hk⟩ := mem_operation_iff.1 hc
    obtain ⟨t, c', ht, -, rfl⟩ := Grammar.mem_word_mul.1 hk
    have hnone := h t rfl
    rw [ht, Option.bind_some, hb] at hnone
    cases hnone
  · intro vs hvs ms
    cases vs with
    | nil => rfl
    | cons t vs =>
      rw [operation_run, unopened hvs t rfl]
      rfl

/-- The reader of operations reads the language of operations. -/
theorem reads_operation : Reads operation Grammar.operation Semicolon := by
  refine ⟨viable_operation, fun ts => ?_⟩
  cases ts with
  | nil => exact readsAt_operation_of_no_body nofun
  | cons t us =>
    cases h : t.keyword?.bind body? with
    | none =>
      refine readsAt_operation_of_no_body ?_
      rintro _ ⟨⟩
      exact h
    | some b =>
      obtain ⟨k, hk, hb⟩ := Option.bind_eq_some_iff.1 h
      exact readsAt_operation_of_body hk hb us

end Reader

end Planimetry
