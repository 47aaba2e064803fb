import Planimetry.Proofs.CorrectPrefix
import Planimetry.Proofs.Mentions

/-!
# Coordinates behind the side of a square

A square is built on a side that is named by its two ends. The ends are placed like points that are
mentioned, so that coordinates behind the name of the side are taken for those of its ends, although
nothing is said to follow there.

## Main definitions

* `Grammar.SideFollowed`: coordinates follow the side of a square in the text.
* `Node.Bare`: no point that the node refers to was given coordinates.

Main statement: `Script.bare_squares`. `Script.side_takes_coordinates` is about a square whose side
is followed by coordinates.
-/

namespace Planimetry

open scoped Computability

/-! ## Words of the text -/

namespace Grammar

variable {q : Token → Prop} {L L' : Language Token} {ok : Token → Prop}

/-- The words of a square behind its first keyword, up to the name of the side. -/
def sideOfSquare : Language Token := noun .square * (keyword .having * (noun .side * side))

/-- The words of a square up to the name of the side, and coordinates behind it. -/
def followedSide : Language Token :=
  keyword .build * (sideOfSquare * word (·.category = .coordinates))

/-- Coordinates directly follow the side of a square somewhere in the text. -/
def SideFollowed (ts : List Token) : Prop := ∃ c ∈ followedSide, c <:+: ts

theorem length_of_mem_sideOfSquare {c : List Token} (h : c ∈ sideOfSquare) : c.length = 4 := by
  obtain ⟨-, c, -, h, rfl⟩ := mem_word_mul.1 h
  obtain ⟨-, c, -, h, rfl⟩ := mem_word_mul.1 h
  obtain ⟨-, c, -, ⟨-, -, rfl⟩, rfl⟩ := mem_word_mul.1 h
  rfl

/-- The phrases have no token with the property `q`. -/
def Without (q : Token → Prop) (L : Language Token) : Prop := ∀ c ∈ L, ∀ t ∈ c, ¬ q t

theorem without_word (h : ∀ t, ok t → ¬ q t) : Without q (word ok) := by
  rintro _ ⟨t, ht, rfl⟩ t' ht'
  rw [List.mem_singleton.1 ht']
  exact h t ht

theorem without_one : Without q 1 := by
  rintro _ rfl t ht
  cases ht

theorem Without.mul (h : Without q L) (h' : Without q L') : Without q (L * L') := by
  rintro c hc t ht
  obtain ⟨a, ha, b, hb, rfl⟩ := Language.mem_mul.1 hc
  exact (List.mem_append.1 ht).elim (h a ha t) (h' b hb t)

theorem Without.add (h : Without q L) (h' : Without q L') : Without q (L + L') := by
  rintro c (hc | hc)
  · exact h c hc
  · exact h' c hc

theorem Without.kstar (h : Without q L) : Without q (L∗) := by
  rintro c hc t ht
  obtain ⟨cs, rfl, hcs⟩ := Language.mem_kstar.1 hc
  obtain ⟨c, hc, ht⟩ := List.mem_flatten.1 ht
  exact h c (hcs c hc) t ht

/-- The token is the keyword of a building command. -/
def IsBuild (t : Token) : Prop := t.keyword? = some .build

theorem without_build_keyword {k : Keyword} (h : k ≠ .build) : Without IsBuild (keyword k) :=
  without_word fun _ hk hb => h (Option.some.inj (hk.symm.trans hb))

theorem without_build_of_category {c : Category} (hc : c ≠ .reserved)
    (h : ∀ t, ok t → t.category = c) : Without IsBuild (word ok) :=
  without_word fun t ht hb => hc ((h t ht).symm.trans (Token.category_of_keyword? hb))

theorem without_build_noun (n : Noun) : Without IsBuild (noun n) :=
  without_build_of_category (by decide) fun _ => Token.category_of_noun?

theorem without_build_symbol (s : String) : Without IsBuild (symbol s) :=
  without_build_of_category (by decide) fun _ ht => (Token.isDelimiter_iff.1 ht).1

theorem without_build_name : Without IsBuild name :=
  without_build_of_category (by decide) fun _ => id

theorem without_build_side : Without IsBuild side :=
  without_build_of_category (by decide) fun _ => And.left

theorem without_build_coordinates : Without IsBuild coordinates :=
  without_build_of_category (by decide) fun _ => And.left

theorem without_build_point : Without IsBuild point :=
  without_build_name.mul (without_one.add without_build_coordinates)

theorem without_build_listedPoint : Without IsBuild listedPoint :=
  without_build_name.mul without_build_coordinates

/-- Only the first token of a command can be the keyword of a building command. -/
theorem without_build_bodies (k : Keyword) : Without IsBuild (Reader.bodies k) := by
  have hplace : Without IsBuild place := (without_build_noun _).mul without_build_point
  have hconnect : Without IsBuild connect :=
    ((without_build_noun _).mul without_build_listedPoint).mul
      ((without_build_symbol _).mul without_build_listedPoint).kstar
  have hsegment : Without IsBuild segment :=
    (((((without_build_noun _).mul (without_build_keyword (by decide))).mul
      (without_build_keyword (by decide))).mul (without_build_noun _)).mul without_build_point).mul
      (without_build_keyword (by decide)) |>.mul without_build_point
  have hperpendicular : Without IsBuild perpendicular :=
    (((((without_build_noun _).mul (without_build_symbol _)).mul (without_build_noun _)).mul
      (without_build_keyword (by decide))).mul (without_build_noun _)).mul without_build_side
  have htriangle : Without IsBuild triangle :=
    (((((((without_build_noun _).mul (without_build_keyword (by decide))).mul
      (without_build_noun _)).mul without_build_point).mul (without_build_symbol _)).mul
      without_build_point).mul (without_build_symbol _)).mul without_build_point
  have hsquare : Without IsBuild square :=
    ((((without_build_noun _).mul (without_build_keyword (by decide))).mul
      (without_build_noun _)).mul without_build_side).mul
      (without_one.add (without_build_coordinates.mul
        (without_one.add without_build_coordinates)))
  cases k
  case place => exact hplace
  case connect => exact hconnect
  case draw => exact hsegment.add hperpendicular
  case build => exact htriangle.add hsquare
  all_goals exact fun c hc => nomatch hc

theorem mem_followedSide_iff {d : List Token} :
    d ∈ followedSide ↔ ∃ t c f, t.keyword? = some .build ∧ c ∈ sideOfSquare ∧
      f.category = .coordinates ∧ d = t :: (c ++ [f]) := by
  rw [followedSide, keyword, mem_word_mul]
  constructor
  · rintro ⟨t, _, ht, ⟨c, hc, _, ⟨f, hf, rfl⟩, rfl⟩, rfl⟩
    exact ⟨t, c, f, ht, hc, hf, rfl⟩
  · rintro ⟨t, c, f, ht, hc, hf, rfl⟩
    exact ⟨t, _, ht, Language.append_mem_mul hc ⟨f, hf, rfl⟩, rfl⟩

/-- A square cannot begin within words none of which is the keyword of a building command. -/
theorem infix_of_without_build {d us v : List Token} (hd : d ∈ followedSide)
    (hus : ∀ t ∈ us, ¬ IsBuild t) (h : d <:+: us ++ v) : d <:+: v := by
  obtain ⟨b, c, f, hb, -, -, rfl⟩ := mem_followedSide_iff.1 hd
  induction us with
  | nil => exact h
  | cons t us ih =>
    obtain ⟨ht, hus⟩ := List.forall_mem_cons.1 hus
    rcases List.infix_cons_iff.1 h with h | h
    · obtain ⟨rfl, -⟩ := List.cons_prefix_cons.1 h
      exact (ht hb).elim
    · exact ih hus h

end Grammar

/-! ## Reading a square -/

/-- The command builds a square and gives coordinates to an end of its side. -/
def Command.SideGiven : Command → Prop
  | square _ a b => a.isSome ∨ b.isSome
  | _ => False

namespace Reader

variable {us v : List Token} {ms : List Mention} {s' : ReadState} {cmd : Command} {op : Operation}

/-- Takes the words of a square up to the name of the side. -/
def sideOfSquare : Reader Side := do
  noun .square
  keyword .having
  noun .side
  side

theorem reads_sideOfSquare : Reads sideOfSquare Grammar.sideOfSquare fun _ => True :=
  (reads_noun _).seq fun _ => (reads_keyword _).seq fun _ => (reads_noun _).seq fun _ => reads_side

/-- Coordinates are taken if they come next, and otherwise nothing is. -/
theorem coordinates?_eq_ok {n : String} {x : Option Coord}
    (h : coordinates? n ⟨v, ms⟩ = .ok x s') :
    (x.isSome ↔ v.head?.any isCoordinates) ∧ (x = none → s' = ⟨v, ms⟩) := by
  change (if v.head?.any isCoordinates = true then (do return some (← coordinates n))
    else pure none : Reader (Option Coord)) ⟨v, ms⟩ = _ at h
  split at h
  · rename_i hv
    obtain ⟨c, s, -, h⟩ := bind_eq_ok_iff.1 h
    cases h
    simp [hv]
  · rename_i hv
    cases h
    simp [hv]

/-- Behind the name of its side a square takes the coordinates that come next. -/
theorem square_eq_ok (h : square ⟨us, ms⟩ = .ok cmd s') :
    ∃ c ∈ Grammar.sideOfSquare, ∃ v, us = c ++ v ∧
      (cmd.SideGiven ↔ v.head?.any isCoordinates) := by
  have hsquare : square = sideOfSquare >>= fun s => do
      let a ← note ⟨s.firstName, s.pos, ← coordinates? s.firstName⟩
      let b ← note ⟨s.secondName, s.pos, ← coordinates? s.secondName⟩
      return .square s a.given b.given := by
    simp only [square, sideOfSquare, bind_assoc]
  rw [hsquare] at h
  obtain ⟨s, ⟨v, ms₁⟩, hside, h⟩ := bind_eq_ok_iff.1 h
  obtain ⟨a, s₂, ha, h⟩ := bind_eq_ok_iff.1 h
  obtain ⟨-, -, ⟨⟩, h⟩ := bind_eq_ok_iff.1 h
  obtain ⟨b, s₃, hb, h⟩ := bind_eq_ok_iff.1 h
  obtain ⟨-, -, ⟨⟩, h⟩ := bind_eq_ok_iff.1 h
  cases h
  obtain ⟨c, hc, hus⟩ := (reads_sideOfSquare.at_text us).taken hside
  refine ⟨c, hc, v, hus, ?_⟩
  obtain ⟨hfirst, hnone⟩ := coordinates?_eq_ok ha
  change a.isSome = true ∨ b.isSome = true ↔ _
  cases a with
  | some x => simpa using hfirst
  | none =>
    -- the second end finds what the first one has left
    cases hnone rfl
    simpa using (coordinates?_eq_ok hb).1

theorem yields_place_other : Yields place (¬ ·.SideGiven) :=
  .last fun _ => .last fun _ => yields_pure id

theorem yields_connect_other : Yields connect (¬ ·.SideGiven) :=
  .last fun _ => .last fun _ => .last fun _ => yields_pure id

theorem yields_draw_other : Yields draw (¬ ·.SideGiven) := by
  refine .last fun next => ?_
  split
  · exact .last fun _ => .last fun _ => .last fun _ => .last fun _ => .last fun _ => .last fun _ =>
      yields_pure id
  · exact .last fun _ => .last fun _ => .last fun _ => .last fun _ => .last fun _ => .last fun _ =>
      .last fun _ => yields_pure id

theorem yields_triangle_other : Yields triangle (¬ ·.SideGiven) :=
  .last fun _ => .last fun _ => .last fun _ => .last fun _ => .last fun _ => .last fun _ =>
    .last fun _ => .last fun _ => yields_pure id

/-- A figure is a triangle or a square. -/
theorem build_eq_ok (h : build ⟨us, ms⟩ = .ok cmd s') :
    triangle ⟨us, ms⟩ = .ok cmd s' ∨ square ⟨us, ms⟩ = .ok cmd s' := by
  rw [build_run] at h
  cases hn : us.head?.bind (·.noun?) with
  | none =>
    rw [hn] at h
    cases h
  | some n =>
    rw [hn] at h
    cases n
    case triangle => exact .inl h
    case square => exact .inr h
    all_goals cases h

/-- A command is read behind the keyword that opens it. -/
theorem exists_body_of_operation (h : operation ⟨us, ms⟩ = .ok op s') :
    ∃ t vs k b, us = t :: vs ∧ t.keyword? = some k ∧ body? k = some b ∧
      b ⟨vs, ms⟩ = .ok op.command s' := by
  cases us with
  | nil => cases h
  | cons t vs =>
    rw [operation_run] at h
    split at h
    · rename_i b hb
      obtain ⟨k, hk, hkb⟩ := Option.bind_eq_some_iff.1 hb
      obtain ⟨cmd, s, hcmd, h⟩ := bind_eq_ok_iff.1 h
      cases h
      exact ⟨t, vs, k, b, rfl, hk, hkb, hcmd⟩
    · cases h

/-- An end is given coordinates only by a square with coordinates behind its side. -/
theorem sideFollowed_of_operation (h : operation ⟨us, []⟩ = .ok op s')
    (hop : op.command.SideGiven) : Grammar.SideFollowed us := by
  obtain ⟨t, vs, k, b, rfl, hk, hb, hbody⟩ := exists_body_of_operation h
  cases k <;> cases hb
  case place => exact (yields_place_other _ _ _ hbody hop).elim
  case connect => exact (yields_connect_other _ _ _ hbody hop).elim
  case draw => exact (yields_draw_other _ _ _ hbody hop).elim
  case build =>
    obtain hcmd | hcmd := build_eq_ok hbody
    · exact (yields_triangle_other _ _ _ hcmd hop).elim
    · obtain ⟨c, hc, v, rfl, hv⟩ := square_eq_ok hcmd
      obtain _ | ⟨f, v⟩ := v
      · cases hv.1 hop
      · have hf : f.category = .coordinates := of_decide_eq_true (hv.1 hop)
        exact ⟨_, Grammar.mem_followedSide_iff.2 ⟨t, c, f, hk, hc, hf, rfl⟩, [], v, by simp⟩

/-- A square with coordinates behind its side gives them to an end. -/
theorem sideGiven_of_operation {d : List Token} (hd : d ∈ Grammar.followedSide) (hus : d <+: us)
    (h : operation ⟨us, []⟩ = .ok op s') : op.command.SideGiven := by
  obtain ⟨t, c, f, ht, hc, hf, rfl⟩ := Grammar.mem_followedSide_iff.1 hd
  obtain ⟨v, rfl⟩ := hus
  obtain ⟨t', vs, k, b, hvs, hk, hb, hbody⟩ := exists_body_of_operation h
  rw [List.cons_append, List.append_assoc] at hvs
  obtain ⟨rfl, rfl⟩ := List.cons.inj hvs
  obtain rfl : Keyword.build = k := Option.some.inj (ht.symm.trans hk)
  cases hb
  rw [build_run, next_noun_of_mem hc] at hbody
  obtain ⟨c', hc', v', hcv, hv'⟩ := square_eq_ok hbody
  have hlength := (Grammar.length_of_mem_sideOfSquare hc).trans
    (Grammar.length_of_mem_sideOfSquare hc').symm
  obtain ⟨rfl, rfl⟩ := List.append_inj hcv hlength
  exact hv'.2 (decide_eq_true hf)

end Reader

/-! ## Reading a text -/

namespace Reading

variable {ts rest : List Token} {op : Operation} {s : ReadState}

/-- Of the squares of a text the first operation is one, or they stand behind it. -/
theorem sideGiven_or_sideFollowed (h : Reader.operation ⟨ts, []⟩ = .ok op s)
    (hts : Grammar.SideFollowed ts) : op.command.SideGiven ∨ Grammar.SideFollowed s.tokens := by
  obtain ⟨d, hd, hts⟩ := hts
  obtain ⟨c, hc, hcs⟩ := (Reader.reads_operation.at_text ts).taken h
  obtain ⟨k, b, -, hk⟩ := Reader.mem_operation_iff.1 hc
  obtain ⟨t, c, -, hbody, rfl⟩ := Grammar.mem_word_mul.1 hk
  rw [hcs, List.cons_append] at hts
  rcases List.infix_cons_iff.1 hts with hts | hts
  · rw [hcs, List.cons_append] at h
    exact .inl (Reader.sideGiven_of_operation hd hts h)
  · have hbody := Grammar.without_build_bodies k _ hbody
    exact .inr ⟨d, hd, Grammar.infix_of_without_build hd hbody hts⟩

theorem sideFollowed_of_semicolon {t : Token} (ht : t.isDelimiter ";")
    (h : Grammar.SideFollowed (t :: rest)) : Grammar.SideFollowed rest := by
  obtain ⟨d, hd, h⟩ := h
  have ht : ∀ t' ∈ [t], ¬ Grammar.IsBuild t' := by
    intro t' ht' hb
    rw [List.mem_singleton.1 ht', Grammar.IsBuild, Reader.keyword?_semicolon ht] at hb
    cases hb
  exact ⟨d, hd, Grammar.infix_of_without_build hd ht h⟩

theorem not_sideFollowed_nil : ¬ Grammar.SideFollowed [] := by
  rintro ⟨d, hd, h⟩
  obtain ⟨t, c, f, -, -, -, rfl⟩ := Grammar.mem_followedSide_iff.1 hd
  cases List.eq_nil_of_infix_nil h

/-- The text of a program gives coordinates to the side of a square exactly if some operation of
the program does. -/
theorem exists_sideGiven_iff (h : (ofTokens ts).stop = none) :
    (∃ op ∈ (ofTokens ts).operations, op.command.SideGiven) ↔ Grammar.SideFollowed ts := by
  fun_induction ofTokens ts with
  | case1 | case5 => cases h
  | case2 ts op s e hs =>
    simp only [List.mem_singleton, exists_eq_left]
    refine ⟨Reader.sideFollowed_of_operation e, fun hts => ?_⟩
    refine (sideGiven_or_sideFollowed e hts).resolve_right ?_
    rw [hs]
    exact not_sideFollowed_nil
  | case3 ts op s e t rest hs ht hrest =>
    simp only [List.mem_singleton, exists_eq_left]
    refine ⟨Reader.sideFollowed_of_operation e, fun hts => ?_⟩
    refine (sideGiven_or_sideFollowed e hts).resolve_right fun hrest' => ?_
    rw [hs, List.isEmpty_iff.1 hrest] at hrest'
    exact not_sideFollowed_nil (sideFollowed_of_semicolon ht hrest')
  | case4 ts op s e t rest hs ht hrest ih =>
    obtain ⟨c, -, hcs⟩ := (Reader.reads_operation.at_text ts).taken e
    simp only [cons, List.mem_cons, exists_eq_or_imp, ih h]
    constructor
    · rintro (hop | ⟨d, hd, hd'⟩)
      · exact Reader.sideFollowed_of_operation e hop
      · rw [hcs, hs]
        exact ⟨d, hd, (hd'.trans (List.suffix_cons t rest).isInfix).trans
          (List.suffix_append c _).isInfix⟩
    · intro hts
      refine (sideGiven_or_sideFollowed e hts).imp_right fun hrest' => ?_
      rw [hs] at hrest'
      exact sideFollowed_of_semicolon ht hrest'

end Reading

/-! ## Squares of the tree -/

def Node.IsSquare (n : Node) : Prop := ∃ side, n.kind = .buildSquare side

/-- None of the points that the node refers to was given coordinates. -/
def Node.Bare (n : Node) : Prop := ∀ p ∈ n.references, p.source = .known ∨ p.source = .generated

/-- What was known stays where it was. -/
def PointTable.Keeps (t t' : PointTable) : Prop :=
  ∀ name c, t.points.get? name = some c → t'.points.get? name = some c

theorem Mention.Becomes.bare_iff {m : Mention} {p : Point} {t t' : PointTable}
    (h : m.Becomes t p t') : (p.source = .known ∨ p.source = .generated) ↔ m.given = none := by
  cases h with
  | given c hg => simp [hg]
  | known hg => simp [hg]
  | generated hg => simp [hg]

theorem Command.not_sideGiven_iff {s : Side} {a b : Option Coord} :
    ¬ (square s a b).SideGiven ↔ a = none ∧ b = none := by
  simp [SideGiven, not_or]

namespace Operation

variable {op : Operation} {s : Step} {t t' : PointTable}

theorem exists_square_of_isSquare (h : op.settle.run t = .ok (s, t')) (hs : s.node.IsSquare) :
    ∃ side a b, op.command = .square side a b := by
  obtain ⟨side, hs⟩ := hs
  obtain ⟨pos, f⟩ := s
  obtain ⟨-, hc⟩ := settles_of_settle h
  cases f <;> cases hs
  generalize op.command = c at hc
  cases hc
  exact ⟨_, _, _, rfl⟩

/-- A square has a given end exactly if its command gives coordinates to it. -/
theorem square_iff (h : op.settle.run t = .ok (s, t')) :
    s.node.IsSquare ∧ ¬ s.node.Bare ↔ op.command.SideGiven := by
  obtain ⟨pos, c⟩ := op
  obtain ⟨pos', f⟩ := s
  obtain ⟨-, hc⟩ := settles_of_settle h
  cases hc with
  | @square side g g' a b c d t₁ _ ha hb =>
    have ha := Mention.becomes_of_settle ha
    have hb := Mention.becomes_of_settle hb
    have href := Figure.references_square ha.source_ne_derived hb.source_ne_derived side c d pos'
    have hsquare : (Step.mk pos' (.square side a b (side.corner side.firstName c)
      (side.corner side.secondName d))).node.IsSquare := ⟨_, rfl⟩
    rw [and_iff_right hsquare, not_iff_comm, Command.not_sideGiven_iff, Node.Bare, Step.node, href]
    simp only [List.forall_mem_cons, ha.bare_iff, hb.bare_iff, List.not_mem_nil, false_imp_iff,
      implies_true, and_true]
  | _ =>
    refine iff_of_false ?_ not_false
    rintro ⟨⟨_, hk⟩, -⟩
    cases hk

/-- A name that the table knew has the last coordinates that the command gives it, if any. -/
theorem get?_of_settle (h : op.settle.run t = .ok (s, t')) (hop : op.command.Listed) {name : String}
    {c : Coord} (hc : t.points.get? name = some c) :
    t'.points.get? name = some ((lastGiven op.command.mentions name).getD c) := by
  obtain ⟨rs, hms, -, hrs⟩ := resolves_of_settle h hop
  rw [hrs.get?_eq, hms, hc]
  cases lastGiven op.command.mentions name <;> rfl

/-- A square without written coordinates overwrites nothing. -/
theorem keeps_of_bare_square (h : op.settle.run t = .ok (s, t')) (hs : s.node.IsSquare)
    (hop : ¬ op.command.SideGiven) : t.Keeps t' := by
  obtain ⟨side, a, b, hsquare⟩ := exists_square_of_isSquare h hs
  rw [hsquare] at hop
  obtain ⟨rfl, rfl⟩ := Command.not_sideGiven_iff.1 hop
  intro name c hc
  have hlisted : op.command.Listed := by
    rw [hsquare]
    trivial
  rw [get?_of_settle h hlisted hc, hsquare]
  simp [Command.mentions, lastGiven, Mention.gives?]

end Operation

namespace Script

variable {s : Script} {t : PointTable} {d : Drawing}

/-- A square of the tree has a given end exactly if its operation gives coordinates to it. -/
theorem exists_square_iff (h : s.parse t = .ok d) :
    (∃ n ∈ d.tree.operations, n.IsSquare ∧ ¬ n.Bare) ↔
      ∃ op ∈ s.reading.operations, op.command.SideGiven := by
  obtain ⟨ss, t', hss, rfl⟩ := Reading.draw_eq_ok_iff.1 (parse_eq_ok_iff.1 h)
  have hops := Reading.forall₂_of_steps hss
  simp only [Drawing.ofSteps, Step.operations_program, List.mem_map, exists_exists_and_eq_and]
  clear h hss
  generalize s.reading.operations = ops at hops
  induction hops with
  | nil => simp
  | cons hop _ ih =>
    obtain ⟨t₁, t₂, hop⟩ := hop
    rw [List.exists_mem_cons_iff, List.exists_mem_cons_iff]
    exact or_congr (Operation.square_iff hop) ih

theorem stop_eq_none_of_parse (h : s.parse t = .ok d) : s.reading.stop = none := by
  obtain ⟨ss, t', hss, -⟩ := Reading.draw_eq_ok_iff.1 (parse_eq_ok_iff.1 h)
  exact Reading.stop_eq_none_of_steps hss

theorem exists_sideGiven_of_parse (h : s.parse t = .ok d) :
    (∃ op ∈ s.reading.operations, op.command.SideGiven) ↔ Grammar.SideFollowed s.tokens :=
  Reading.exists_sideGiven_iff (stop_eq_none_of_parse h)

/-- The squares of a text are bare exactly if no coordinates follow a side, and then they overwrite
nothing. Otherwise the coordinates that follow are those of the ends. -/
theorem bare_squares (h : s.parse t = .ok d) :
    ((∃ n ∈ d.tree.operations, n.IsSquare ∧ ¬ n.Bare) ↔ Grammar.SideFollowed s.tokens) ∧
    ∀ op ∈ s.reading.operations, ∀ step t₁ t₂,
      op.settle.run t₁ = .ok (step, t₂) → step.node.IsSquare →
        (¬ Grammar.SideFollowed s.tokens → t₁.Keeps t₂) ∧
        ∀ name c, t₁.points.get? name = some c →
          t₂.points.get? name = some ((lastGiven op.command.mentions name).getD c) := by
  have hgiven := exists_sideGiven_of_parse h
  refine ⟨(exists_square_iff h).trans hgiven, fun op hop step t₁ t₂ hstep hs => ?_⟩
  refine ⟨fun hts => ?_, fun name c hc => ?_⟩
  · exact Operation.keeps_of_bare_square hstep hs fun hside => hts (hgiven.1 ⟨op, hop, hside⟩)
  · exact Operation.get?_of_settle hstep (Reading.listed_of_mem hop) hc

/-- A square with coordinates behind its side. -/
def followedSquare : Script := .ofText "побудувати квадрат зі стороною AB (0,0) (2,0)" none

/-- A table that knows the first end of its side. -/
def startKnown : PointTable := (PointTable.ofTape ⟨fun _ => 0, 0, 0⟩).insert "A" ⟨5, 5⟩

theorem exists_parse_followedSquare :
    ∃ d, followedSquare.parse startKnown = .ok d ∧
      (∃ n ∈ d.tree.operations, n.IsSquare ∧ ¬ n.Bare) ∧
      d.table.points.get? "A" = some ⟨0, 0⟩ := by
  have hrun : ((followedSquare.parse startKnown).toOption.map fun d =>
      (d.tree.operations.map fun n => (n.kind, n.references), d.table.points.get? "A")) =
      some ([(.buildSquare "AB", [⟨"A", ⟨0, 0⟩, .explicit, ⟨1, 32⟩⟩,
        ⟨"B", ⟨2, 0⟩, .explicit, ⟨1, 32⟩⟩])], some ⟨0, 0⟩) := by
    decide +kernel
  obtain ⟨d, h, hd⟩ := exists_eq_ok_of_map_toOption hrun
  obtain ⟨hops, htable⟩ := Prod.mk.inj hd
  obtain ⟨n, hn, hkind⟩ := List.map_eq_singleton_iff.1 hops
  obtain ⟨hkind, hrefs⟩ := Prod.mk.inj hkind
  refine ⟨d, h, ⟨n, by simp [hn], ⟨_, hkind⟩, fun hbare => ?_⟩, htable⟩
  have := hbare _ (hrefs ▸ List.mem_cons_self)
  simp at this

/-- The text goes on behind the side, and yet it has a drawing, in which the ends of the side are
given and the table is overwritten. -/
theorem side_takes_coordinates :
    Grammar.SideFollowed followedSquare.tokens ∧
      ∃ d, followedSquare.parse startKnown = .ok d ∧
        (∃ n ∈ d.tree.operations, n.IsSquare ∧ ¬ n.Bare) ∧
        startKnown.points.get? "A" = some ⟨5, 5⟩ ∧ d.table.points.get? "A" = some ⟨0, 0⟩ := by
  obtain ⟨d, h, hsquare, htable⟩ := exists_parse_followedSquare
  have hfollowed := (exists_sideGiven_of_parse h).1 ((exists_square_iff h).1 hsquare)
  exact ⟨hfollowed, d, h, hsquare, by decide, htable⟩

theorem bare_squares_of_followedSquare :
    ∃ d, followedSquare.parse startKnown = .ok d ∧
      Grammar.SideFollowed followedSquare.tokens := by
  obtain ⟨d, h, hsquare, -⟩ := exists_parse_followedSquare
  exact ⟨d, h, (bare_squares h).1.1 hsquare⟩

end Script

end Planimetry
