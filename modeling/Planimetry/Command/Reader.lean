import Planimetry.Command

/-!
# Reading commands

A reader takes tokens from the front of the rest of a program. It looks at one token and either
takes it or stops there; so a reader that stops leaves the word that is wrong in front.

## Main definitions

* `Reader`: a computation that takes tokens.
* `Reader.operation`: reads the words of one operation.

Main statement: `length_lt_of_operation`, by which the reading of a program comes to an end.
-/

namespace Planimetry

/-- How far the reading of a command has come. -/
structure ReadState where
  tokens : List Token
  mentions : List Mention

/-- A computation that takes tokens, or stops before a token that it did not expect. -/
abbrev Reader := EStateM Expectation ReadState

namespace Reader

/-! ## Single tokens -/

/-- Takes one token that `accept` has a use for. -/
def token {α : Type} (atEnd : Expectation) (accept : Token → Except Expectation α) : Reader α :=
  fun s =>
    match s.tokens with
    | [] => .error atEnd s
    | t :: ts =>
      match accept t with
      | .ok a => .ok a { s with tokens := ts }
      | .error e => .error e s

/-- Takes one token that passes the test. -/
def one (expected : Expectation) (test : Token → Bool) : Reader Unit :=
  token expected fun t => if test t then .ok () else .error expected

def keyword (k : Keyword) : Reader Unit := one (.keyword k) (·.keyword? = some k)

def noun (n : Noun) : Reader Unit := one (.noun n) (·.noun? = some n)

def symbol (s : String) : Reader Unit := one (.symbol s) (·.isDelimiter s)

def name : Reader (String × Position) :=
  token .pointName fun t =>
    if t.category = .name then .ok (t.lexeme, t.pos) else .error .pointName

def side : Reader Side :=
  token .sideName fun t =>
    if t.category = .name then
      match t.lexeme.toList with
      | [a, b] => .ok ⟨a, b, t.pos⟩
      | _ => .error .twoLetters
    else .error .sideName

def coordinates (name : String) : Reader Coord :=
  token (.coordinatesOf name) fun t =>
    if t.category = .coordinates then
      match Coord.parse t.lexeme with
      | .ok c => .ok c
      | .error e => .error (.literal e)
    else .error (.coordinatesOf name)

/-! ## Points -/

def ahead : Reader (Option Token) := fun s => .ok s.tokens.head? s

/-- Takes the coordinates of the point `name` if the next token holds some. -/
def coordinates? (name : String) : Reader (Option Coord) := do
  let next ← ahead
  if next.any (·.category = .coordinates) then
    return some (← coordinates name)
  else
    return none

def note (m : Mention) : Reader Mention :=
  fun s => .ok m { s with mentions := s.mentions ++ [m] }

def point : Reader Mention := do
  let (name, pos) ← name
  let given ← coordinates? name
  note ⟨name, pos, given⟩

def listedPoint : Reader Mention := do
  let (name, pos) ← name
  let c ← coordinates name
  note ⟨name, pos, some c⟩

/-! ## Readers only take -/

theorem bind_run {α β : Type} (r : Reader α) (f : α → Reader β) (s : ReadState) :
    (r >>= f) s =
      match r s with
      | .ok a s' => f a s'
      | .error x s' => .error x s' := by
  change EStateM.bind r f s = _
  unfold EStateM.bind
  cases r s <;> rfl

/-- A sequence of readers succeeds if its parts do. -/
theorem bind_eq_ok_iff {α β : Type} {r : Reader α} {f : α → Reader β} {s s'' : ReadState} {b : β} :
    (r >>= f) s = .ok b s'' ↔ ∃ a s', r s = .ok a s' ∧ f a s' = .ok b s'' := by
  rw [bind_run]
  cases r s with
  | ok a s' =>
    exact ⟨fun h => ⟨a, s', rfl, h⟩, fun ⟨_, _, e, h⟩ => by cases e; exact h⟩
  | error x s' =>
    exact ⟨fun h => (nomatch h), fun ⟨_, _, e, _⟩ => (nomatch e)⟩

/-- A sequence of readers stops where its first part stops or where its second part does. -/
theorem bind_eq_error_iff {α β : Type} {r : Reader α} {f : α → Reader β} {s s'' : ReadState}
    {x : Expectation} :
    (r >>= f) s = .error x s'' ↔
      r s = .error x s'' ∨ ∃ a s', r s = .ok a s' ∧ f a s' = .error x s'' := by
  rw [bind_run]
  cases r s with
  | ok a s' =>
    refine ⟨fun h => .inr ⟨a, s', rfl, h⟩, ?_⟩
    rintro (e | ⟨_, _, e, h⟩)
    · cases e
    · cases e
      exact h
  | error y s' =>
    refine ⟨fun h => .inl (by cases h; rfl), ?_⟩
    rintro (e | ⟨_, _, e, _⟩)
    · cases e
      rfl
    · cases e

/-- The state in which a reader ends, whether it stops or not. -/
def rest {α : Type} (r : Reader α) (s : ReadState) : ReadState :=
  match r s with
  | .ok _ s' => s'
  | .error _ s' => s'

/-- A reader that never has more tokens before it than at its beginning. -/
def Shrinks {α : Type} (r : Reader α) : Prop :=
  ∀ s, (rest r s).tokens.length ≤ s.tokens.length

theorem Shrinks.pure {α : Type} (a : α) : Shrinks (Pure.pure a : Reader α) :=
  fun _ => Nat.le_refl _

theorem Shrinks.throw {α : Type} (e : Expectation) : Shrinks (throw e : Reader α) :=
  fun _ => Nat.le_refl _

theorem Shrinks.bind {α β : Type} {r : Reader α} {f : α → Reader β} (hr : Shrinks r)
    (hf : ∀ a, Shrinks (f a)) : Shrinks (r >>= f) := by
  intro s
  have h := hr s
  unfold rest at h ⊢
  cases e : (r >>= f) s with
  | ok b s'' =>
    obtain ⟨a, s', hr', hf'⟩ := bind_eq_ok_iff.1 e
    have h' := hf a s'
    rw [rest, hf'] at h'
    rw [hr'] at h
    exact Nat.le_trans h' h
  | error x s'' =>
    rcases bind_eq_error_iff.1 e with hr' | ⟨a, s', hr', hf'⟩
    · rw [hr'] at h
      exact h
    · have h' := hf a s'
      rw [rest, hf'] at h'
      rw [hr'] at h
      exact Nat.le_trans h' h

theorem Shrinks.ite {α : Type} {p : Prop} [Decidable p] {r r' : Reader α} (h : Shrinks r)
    (h' : Shrinks r') : Shrinks (if p then r else r') := by
  split
  · exact h
  · exact h'

theorem shrinks_token {α : Type} (e : Expectation) (accept : Token → Except Expectation α) :
    Shrinks (token e accept) := by
  intro s
  obtain ⟨ts, ms⟩ := s
  unfold rest token
  cases ts with
  | nil => exact Nat.le_refl _
  | cons t ts =>
    dsimp only
    cases accept t with
    | ok a => exact Nat.le_succ _
    | error x => exact Nat.le_refl _

theorem shrinks_ahead : Shrinks ahead := fun _ => Nat.le_refl _

theorem shrinks_note (m : Mention) : Shrinks (note m) := fun _ => Nat.le_refl _

theorem shrinks_coordinates? (name : String) : Shrinks (coordinates? name) :=
  shrinks_ahead.bind fun _ => .ite ((shrinks_token _ _).bind fun _ => .pure _) (.pure _)

theorem shrinks_point : Shrinks point :=
  (shrinks_token _ _).bind fun _ => (shrinks_coordinates? _).bind fun _ => shrinks_note _

theorem shrinks_listedPoint : Shrinks listedPoint :=
  (shrinks_token _ _).bind fun _ => (shrinks_token _ _).bind fun _ => shrinks_note _

/-! ## Commands -/

/-- Takes further listed points, as long as a comma comes first. -/
def listedPoints (s : ReadState) : EStateM.Result Expectation ReadState (List Mention) :=
  match _h : s.tokens with
  | [] => .ok [] s
  | t :: ts =>
    if t.isDelimiter "," then
      match _e : listedPoint { s with tokens := ts } with
      | .ok m s' =>
        match listedPoints s' with
        | .ok ms s'' => .ok (m :: ms) s''
        | .error e s'' => .error e s''
      | .error e s' => .error e s'
    else .ok [] s
termination_by s.tokens.length
decreasing_by
  have := shrinks_listedPoint { s with tokens := ts }
  simp only [rest, _e] at this
  rw [_h, List.length_cons]
  omega

def place : Reader Command := do
  noun .point
  return .place (← point)

/-- What follows the keyword of a connect command. -/
def connect : Reader Command := do
  noun .point
  let p ← listedPoint
  let ps ← listedPoints
  return .connect (p :: ps)

def segment : Reader Command := do
  noun .segment
  keyword .through
  keyword .two
  noun .point
  let a ← point
  keyword .and
  let b ← point
  return .segment a b

def perpendicular : Reader Command := do
  noun .line
  symbol ","
  noun .perpendicular
  keyword .toward
  noun .segment
  return .perpendicular (← side)

def triangle : Reader Command := do
  noun .triangle
  keyword .upon
  noun .point
  let a ← point
  symbol ","
  let b ← point
  symbol ","
  let c ← point
  return .triangle a b c

def square : Reader Command := do
  noun .square
  keyword .having
  noun .side
  let s ← side
  let a ← note ⟨s.firstName, s.pos, ← coordinates? s.firstName⟩
  let b ← note ⟨s.secondName, s.pos, ← coordinates? s.secondName⟩
  return .square s a.given b.given

/-- What follows the keyword of a drawing command: a perpendicular is told by its noun. -/
def draw : Reader Command := do
  let next ← ahead
  if next.bind (·.noun?) = some .line then perpendicular else segment

def build : Reader Command := do
  let next ← ahead
  match next.bind (·.noun?) with
  | some .triangle => triangle
  | some .square => square
  | _ => throw .figure

/-- The first word of a command, with its position, and what has to follow it. -/
def opening : Reader (Position × Reader Command) :=
  token .operation fun t =>
    match t.keyword? with
    | some .place => .ok (t.pos, place)
    | some .connect => .ok (t.pos, connect)
    | some .draw => .ok (t.pos, draw)
    | some .build => .ok (t.pos, build)
    | _ => .error .operation

def operation : Reader Operation := do
  let (pos, body) ← opening
  return ⟨pos, ← body⟩

/-! ## Commands only take -/

theorem shrinks_listedPoints : Shrinks listedPoints := by
  intro s
  unfold rest
  fun_induction listedPoints s with
  | case1 s h => exact Nat.le_refl _
  | case2 s t ts h hd m s' e ms s'' hs ih =>
    have h₁ := shrinks_listedPoint { s with tokens := ts }
    simp only [rest, e] at h₁
    simp only [hs] at ih
    rw [h, List.length_cons]
    simp only
    omega
  | case3 s t ts h hd m s' e x s'' hs ih =>
    have h₁ := shrinks_listedPoint { s with tokens := ts }
    simp only [rest, e] at h₁
    simp only [hs] at ih
    rw [h, List.length_cons]
    simp only
    omega
  | case4 s t ts h hd x s' e =>
    have h₁ := shrinks_listedPoint { s with tokens := ts }
    simp only [rest, e] at h₁
    rw [h, List.length_cons]
    simp only
    omega
  | case5 s t ts h hd => exact Nat.le_refl _

theorem shrinks_place : Shrinks place :=
  (shrinks_token _ _).bind fun _ => shrinks_point.bind fun _ => .pure _

theorem shrinks_connect : Shrinks connect :=
  (shrinks_token _ _).bind fun _ => shrinks_listedPoint.bind fun _ =>
    shrinks_listedPoints.bind fun _ => .pure _

theorem shrinks_segment : Shrinks segment :=
  (shrinks_token _ _).bind fun _ => (shrinks_token _ _).bind fun _ =>
    (shrinks_token _ _).bind fun _ => (shrinks_token _ _).bind fun _ =>
    shrinks_point.bind fun _ => (shrinks_token _ _).bind fun _ =>
    shrinks_point.bind fun _ => .pure _

theorem shrinks_perpendicular : Shrinks perpendicular :=
  (shrinks_token _ _).bind fun _ => (shrinks_token _ _).bind fun _ =>
    (shrinks_token _ _).bind fun _ => (shrinks_token _ _).bind fun _ =>
    (shrinks_token _ _).bind fun _ => (shrinks_token _ _).bind fun _ => .pure _

theorem shrinks_triangle : Shrinks triangle :=
  (shrinks_token _ _).bind fun _ => (shrinks_token _ _).bind fun _ =>
    (shrinks_token _ _).bind fun _ => shrinks_point.bind fun _ =>
    (shrinks_token _ _).bind fun _ => shrinks_point.bind fun _ =>
    (shrinks_token _ _).bind fun _ => shrinks_point.bind fun _ => .pure _

theorem shrinks_square : Shrinks square :=
  (shrinks_token _ _).bind fun _ => (shrinks_token _ _).bind fun _ =>
    (shrinks_token _ _).bind fun _ => (shrinks_token _ _).bind fun _ =>
    (shrinks_coordinates? _).bind fun _ => (shrinks_note _).bind fun _ =>
    (shrinks_coordinates? _).bind fun _ => (shrinks_note _).bind fun _ => .pure _

theorem shrinks_draw : Shrinks draw :=
  shrinks_ahead.bind fun _ => .ite shrinks_perpendicular shrinks_segment

theorem shrinks_build : Shrinks build := by
  refine shrinks_ahead.bind fun next => ?_
  split
  · exact shrinks_triangle
  · exact shrinks_square
  · exact .throw _

/-- The opening of a command takes one word, and what follows it only takes. -/
theorem of_opening_eq_ok {s s' : ReadState} {pos : Position} {body : Reader Command}
    (h : opening s = .ok (pos, body) s') :
    s'.tokens.length < s.tokens.length ∧ Shrinks body := by
  obtain ⟨ts, ms⟩ := s
  unfold opening token at h
  cases ts with
  | nil => cases h
  | cons t ts =>
    dsimp only at h
    split at h
    · rename_i o ho
      cases h
      refine ⟨Nat.lt_succ_self _, ?_⟩
      split at ho <;> cases ho
      · exact shrinks_place
      · exact shrinks_connect
      · exact shrinks_draw
      · exact shrinks_build
    · cases h

/-- An operation takes at least its first word. -/
theorem length_lt_of_operation {s s' : ReadState} {op : Operation}
    (h : operation s = .ok op s') : s'.tokens.length < s.tokens.length := by
  obtain ⟨⟨pos, body⟩, s₁, h₁, h⟩ := bind_eq_ok_iff.1 h
  obtain ⟨c, s₂, h₂, h⟩ := bind_eq_ok_iff.1 h
  cases h
  obtain ⟨hlt, hbody⟩ := of_opening_eq_ok h₁
  have := hbody s₁
  rw [rest, h₂] at this
  exact Nat.lt_of_le_of_lt this hlt

end Reader

end Planimetry
