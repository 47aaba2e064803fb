import Planimetry.Proofs.Exposure.Remarks

/-!
# Mentions and their points

The points that the operations of a program mention are settled in the order of the text, and each
of them becomes a point of the tree. Points that are only computed or looked up are not mentioned.

## Main definitions

* `Resolves`: mentions that become points, one after another.
* `Node.references`: the points of a construction that come from mentions.
* `lastGiven`: the last coordinates that are written behind a name.

Main statement: `Script.resolves_of_parse`.
-/

namespace Planimetry

/-! ## Listed points bring their coordinates -/

/-- If the command lists points, all of them have coordinates. -/
def Command.Listed : Command → Prop
  | connect ms => ∀ m ∈ ms, m.given.isSome
  | _ => True

namespace Reader

variable {α β : Type} {r : Reader α} {f : α → Reader β} {ok : α → Prop} {ok' : β → Prop}

/-- Whatever the reader reads has the property. -/
def Yields (r : Reader α) (ok : α → Prop) : Prop := ∀ s a s', r s = .ok a s' → ok a

theorem yields_pure {a : α} (h : ok a) : Yields (pure a) ok := by
  rintro s _ s' ⟨⟩
  exact h

theorem Yields.bind (hr : Yields r ok) (hf : ∀ a, ok a → Yields (f a) ok') :
    Yields (r >>= f) ok' := by
  intro s b s'' h
  obtain ⟨a, s', hr', hf'⟩ := bind_eq_ok_iff.1 h
  exact hf a (hr s a s' hr') s' b s'' hf'

/-- What a sequence reads is what its last part reads. -/
theorem Yields.last (hf : ∀ a, Yields (f a) ok') : Yields (r >>= f) ok' := by
  have hr : Yields r fun _ => True := fun _ _ _ _ => trivial
  exact hr.bind fun a _ => hf a

theorem yields_listedPoint : Yields listedPoint (·.given.isSome) :=
  .last fun _ => .last fun _ => by
    rintro s _ s' ⟨⟩
    rfl

theorem yields_listedPoints : Yields listedPoints (∀ m ∈ ·, m.given.isSome) := by
  intro s
  fun_induction listedPoints s with
  | case1 => rintro _ _ ⟨⟩; simp
  | case2 s t ts _ _ m s₁ hm ms s₂ hms ih =>
    rintro _ _ ⟨⟩
    exact List.forall_mem_cons.2 ⟨yields_listedPoint _ _ _ hm, ih ms s₂ hms⟩
  | case3 => rintro _ _ ⟨⟩
  | case4 => rintro _ _ ⟨⟩
  | case5 => rintro _ _ ⟨⟩; simp

theorem yields_connect : Yields connect Command.Listed :=
  .last fun _ => yields_listedPoint.bind fun _ hp => yields_listedPoints.bind fun _ hps =>
    yields_pure (List.forall_mem_cons.2 ⟨hp, hps⟩)

theorem yields_draw : Yields draw Command.Listed := by
  refine .last fun next => ?_
  split
  · exact .last fun _ => .last fun _ => .last fun _ => .last fun _ => .last fun _ => .last fun _ =>
      yields_pure trivial
  · exact .last fun _ => .last fun _ => .last fun _ => .last fun _ => .last fun _ => .last fun _ =>
      .last fun _ => yields_pure trivial

theorem yields_build : Yields build Command.Listed := by
  refine .last fun next => ?_
  split
  · exact .last fun _ => .last fun _ => .last fun _ => .last fun _ => .last fun _ => .last fun _ =>
      .last fun _ => .last fun _ => yields_pure trivial
  · exact .last fun _ => .last fun _ => .last fun _ => .last fun _ => .last fun _ => .last fun _ =>
      .last fun _ => .last fun _ => yields_pure trivial
  · nofun

theorem yields_opening : Yields opening fun o => Yields o.2 Command.Listed := by
  rintro ⟨ts, ms⟩ o s' h
  unfold opening token at h
  cases ts with
  | nil => cases h
  | cons t ts =>
    dsimp only at h
    split at h
    · rename_i o' ho
      cases h
      split at ho <;> cases ho
      · exact .last fun _ => .last fun _ => yields_pure trivial
      · exact yields_connect
      · exact yields_draw
      · exact yields_build
    · cases h

theorem yields_operation : Yields operation fun op => op.command.Listed :=
  yields_opening.bind fun _ ho => ho.bind fun _ hc => yields_pure hc

end Reader

theorem Reading.listed_of_mem {ts : List Token} {op : Operation}
    (h : op ∈ (ofTokens ts).operations) : op.command.Listed := by
  fun_induction ofTokens ts with
  | case1 => cases h
  | case2 ts op' s ho =>
    obtain rfl := List.mem_singleton.1 h
    exact Reader.yields_operation _ _ _ ho
  | case3 ts op' s ho t rest hs hd hrest =>
    obtain rfl := List.mem_singleton.1 h
    exact Reader.yields_operation _ _ _ ho
  | case4 ts op' s ho t rest hs hd hrest ih =>
    rcases List.mem_cons.1 h with rfl | h
    · exact Reader.yields_operation _ _ _ ho
    · exact ih h
  | case5 ts op' s ho t rest hs hd =>
    obtain rfl := List.mem_singleton.1 h
    exact Reader.yields_operation _ _ _ ho

/-! ## One mention -/

namespace Mention.Becomes

variable {m : Mention} {p : Point} {t t' : PointTable}

theorem name_eq (h : m.Becomes t p t') : p.name = m.name := by
  cases h <;> rfl

theorem pos_eq (h : m.Becomes t p t') : p.pos = m.pos := by
  cases h <;> rfl

theorem source_ne_derived (h : m.Becomes t p t') : p.source ≠ .derived := by
  cases h <;> nofun

theorem explicit_iff (h : m.Becomes t p t') : p.source = .explicit ↔ m.given.isSome := by
  cases h with
  | given c' hg => simp [hg]
  | known hg => simp [hg]
  | generated hg => simp [hg]

/-- The place of a given point in the tree is left open. -/
theorem at_coord (h : m.Becomes t p t') (hm : m.given.isSome) (c : Coord) :
    m.Becomes t { p with coord := c } t' := by
  cases h with
  | given c' hg => exact .given c hg
  | known hg => simp [hg] at hm
  | generated hg => simp [hg] at hm

end Mention.Becomes

/-! ## Mentions one after another -/

/-- The mentions become the points that stand beside them, each on the table that the one before it
left. -/
inductive Resolves : PointTable → List (Mention × Point) → PointTable → Prop where
  | nil (t : PointTable) : Resolves t [] t
  | cons {t t' t'' : PointTable} {m : Mention} {p : Point} {rs : List (Mention × Point)} :
      m.Becomes t p t' → Resolves t' rs t'' → Resolves t ((m, p) :: rs) t''

namespace Resolves

variable {t t' t'' : PointTable} {m : Mention} {p : Point} {rs rs' : List (Mention × Point)}

theorem single (h : m.Becomes t p t') : Resolves t [(m, p)] t' := .cons h (.nil t')

theorem append (h : Resolves t rs t') (h' : Resolves t' rs' t'') : Resolves t (rs ++ rs') t'' := by
  induction h with
  | nil => exact h'
  | cons hm _ ih => exact .cons hm (ih h')

/-- What is mentioned first is resolved first. -/
theorem exists_of_append (h : Resolves t (rs ++ rs') t'') :
    ∃ t', Resolves t rs t' ∧ Resolves t' rs' t'' := by
  induction rs generalizing t with
  | nil => exact ⟨t, .nil t, h⟩
  | cons r rs ih =>
    cases h with
    | cons hm h =>
      obtain ⟨t', hrs, hrs'⟩ := ih h
      exact ⟨t', .cons hm hrs, hrs'⟩

/-- The tables before and behind a mention in the middle. -/
theorem exists_of_cut {pre post : List (Mention × Point)}
    (h : Resolves t (pre ++ (m, p) :: post) t'') :
    ∃ t₁ t₂, Resolves t pre t₁ ∧ m.Becomes t₁ p t₂ ∧ Resolves t₂ post t'' := by
  obtain ⟨t₁, hpre, hrest⟩ := h.exists_of_append
  cases hrest with
  | cons hm hpost => exact ⟨t₁, _, hpre, hm, hpost⟩

theorem exists_becomes (h : Resolves t rs t') (hr : (m, p) ∈ rs) :
    ∃ t₁ t₂, m.Becomes t₁ p t₂ := by
  obtain ⟨pre, post, rfl⟩ := List.append_of_mem hr
  obtain ⟨t₁, t₂, -, hm, -⟩ := h.exists_of_cut
  exact ⟨t₁, t₂, hm⟩

end Resolves

/-! ## Values -/

/-- The coordinates that a mention gives to a name. -/
def Mention.gives? (m : Mention) (name : String) : Option Coord :=
  if m.name = name then m.given else none

/-- The last coordinates that the mentions give to a name. -/
def lastGiven (ms : List Mention) (name : String) : Option Coord :=
  (ms.filterMap (·.gives? name)).getLast?

/-- Where the name stands when it is mentioned first. -/
def firstCoord (rs : List (Mention × Point)) (name : String) : Option Coord :=
  (rs.find? fun r => r.1.name = name).map fun r => r.2.coord

theorem lastGiven_cons (m : Mention) (ms : List Mention) (name : String) :
    lastGiven (m :: ms) name = (lastGiven ms name).or (m.gives? name) := by
  unfold lastGiven
  cases h : m.gives? name with
  | none => simp only [List.filterMap_cons, h, Option.or_none]
  | some c =>
    simp only [List.filterMap_cons, h, List.getLast?_cons]
    cases (ms.filterMap (·.gives? name)).getLast? <;> rfl

theorem firstCoord_cons (m : Mention) (p : Point) (rs : List (Mention × Point)) (name : String) :
    firstCoord ((m, p) :: rs) name =
      (if m.name = name then some p.coord else none).or (firstCoord rs name) := by
  unfold firstCoord
  by_cases h : m.name = name <;> simp [h]

/-- Given coordinates count first, then those that the table had, and the point itself last. -/
theorem Mention.Becomes.get?_eq {m : Mention} {p : Point} {t t' : PointTable}
    (h : m.Becomes t p t') (name : String) :
    t'.points.get? name =
      ((m.gives? name).or (t.points.get? name)).or
        (if m.name = name then some p.coord else none) := by
  unfold gives?
  by_cases hname : m.name = name
  · subst hname
    cases h with
    | given c' hg => simp [hg, PointTable.insert, PointMap.get?_insert]
    | known hg hk => simp [hg, hk]
    | generated hg hn => simp [hg, hn, PointTable.insert, PointMap.get?_insert]
  · cases h with
    | given c' hg => simp [hname, Ne.symm hname, PointTable.insert, PointMap.get?_insert]
    | known hg hk => simp [hname]
    | generated hg hn => simp [hname, Ne.symm hname, PointTable.insert, PointMap.get?_insert]

/-- A name has the last coordinates that were given to it; else those that it had at first; else
those of its first mention. -/
theorem Resolves.get?_eq {t t' : PointTable} {rs : List (Mention × Point)} (h : Resolves t rs t')
    (name : String) :
    t'.points.get? name =
      ((lastGiven (rs.map Prod.fst) name).or (t.points.get? name)).or (firstCoord rs name) := by
  induction h with
  | nil t => simp [lastGiven, firstCoord]
  | cons hm _ ih =>
    -- Both sides ask the same five places in the same order.
    rw [ih, hm.get?_eq, List.map_cons, lastGiven_cons, firstCoord_cons]
    simp only [Option.or_assoc]

/-! ## Points of a program -/

/-- Listed points are shown as the last of the tables knows them. -/
theorem Mention.resolves_of_settleAll {ms : List Mention} {ps : List Point} {t t' : PointTable}
    (h : (ms.mapM settle).run t = .ok (ps, t')) (hms : ∀ m ∈ ms, m.given.isSome)
    (shown : PointTable) :
    ∃ rs, rs.map Prod.fst = ms ∧ rs.map Prod.snd = ps.map (·.refresh shown) ∧
      Resolves t rs t' := by
  induction ms generalizing t ps with
  | nil =>
    cases h
    exact ⟨[], rfl, rfl, .nil _⟩
  | cons m ms ih =>
    rw [List.mapM_cons] at h
    obtain ⟨p, t₁, hp, h⟩ := Settling.bind_eq_ok_iff.1 h
    obtain ⟨ps, t₂, hps, h⟩ := Settling.bind_eq_ok_iff.1 h
    cases h
    obtain ⟨hm, hms⟩ := List.forall_mem_cons.1 hms
    obtain ⟨rs, rfl, hrs, hrest⟩ := ih hps hms
    -- All listed points are given, so that it makes no difference where they are shown.
    refine ⟨(m, p.refresh shown) :: rs, rfl, ?_, .cons ?_ hrest⟩
    · rw [List.map_cons, hrs, List.map_cons]
    · exact (becomes_of_settle hp).at_coord hm _

/-- The points of a construction that come from mentions. -/
def Node.references (n : Node) : List Point :=
  match n.kind with
  | .putPoint p => [p]
  | .drawSegment a b => [a, b]
  | .connectPoints | .buildTriangle => n.putPoints
  | .buildSquare _ => n.putPoints.filter (·.source ≠ .derived)
  | .drawPerpendicular .. | .program | .operation => []

/-- A square refers to the ends of its side. -/
theorem Figure.references_square {a b : Point} (ha : a.source ≠ .derived)
    (hb : b.source ≠ .derived) (s : Side) (c d : Coord) (pos : Position) :
    ((square s a b (s.corner s.firstName c) (s.corner s.secondName d)).node pos).references =
      [a, b] := by
  change (Node.putPoints _).filter _ = _
  rw [putPoints_node]
  simp [corners, Side.corner, ha, hb]

/-- The mentions of a command become the points of its construction. -/
theorem Operation.resolves_of_settle {op : Operation} {s : Step} {t t' : PointTable}
    (h : op.settle.run t = .ok (s, t')) (hop : op.command.Listed) :
    ∃ rs, rs.map Prod.fst = op.command.mentions ∧ rs.map Prod.snd = s.node.references ∧
      Resolves t rs t' := by
  obtain ⟨-, hc⟩ := settles_of_settle h
  obtain ⟨pos, c⟩ := op
  obtain ⟨pos', f⟩ := s
  cases hc with
  | @place m p _ hp => exact ⟨[(m, p)], rfl, rfl, .single (Mention.becomes_of_settle hp)⟩
  | @connect ms ps _ hps =>
    obtain ⟨rs, hms, hrs, hall⟩ := Mention.resolves_of_settleAll hps hop t'
    have hcorners := (Figure.network (ps.map (·.refresh t'))).putPoints_node pos'
    exact ⟨rs, hms, hrs.trans hcorners.symm, hall⟩
  | @segment l m a b _ _ ha hb =>
    exact ⟨[(l, a), (m, b)], rfl, rfl,
      .cons (Mention.becomes_of_settle ha) (.single (Mention.becomes_of_settle hb))⟩
  | perpendicular => exact ⟨[], rfl, rfl, .nil t⟩
  | @triangle l m n a b c _ _ _ ha hb hc =>
    exact ⟨[(l, a), (m, b), (n, c)], rfl, rfl, .cons (Mention.becomes_of_settle ha)
      (.cons (Mention.becomes_of_settle hb) (.single (Mention.becomes_of_settle hc)))⟩
  | @square s g g' a b c d _ _ ha hb =>
    have ha := Mention.becomes_of_settle ha
    have hb := Mention.becomes_of_settle hb
    have href := Figure.references_square ha.source_ne_derived hb.source_ne_derived s c d pos'
    exact ⟨[(_, a), (_, b)], rfl, href.symm, .cons ha (.single hb)⟩

/-- The points that a text mentions, up to the place where it goes wrong. -/
def Script.mentions (s : Script) : List Mention := s.reading.operations.flatMap (·.command.mentions)

def Drawing.references (d : Drawing) : List Point := d.tree.operations.flatMap Node.references

theorem Reading.resolves_of_steps {r : Reading} {ss : List Step} {t t' : PointTable}
    (h : r.steps t = .ok (ss, t')) (hr : ∀ op ∈ r.operations, op.command.Listed) :
    ∃ rs, rs.map Prod.fst = r.operations.flatMap (·.command.mentions) ∧
      rs.map Prod.snd = ss.flatMap (·.node.references) ∧ Resolves t rs t' := by
  obtain ⟨ops, stop⟩ := r
  induction ops generalizing t ss with
  | nil =>
    obtain rfl : stop = none := stop_eq_none_of_steps h
    cases h
    exact ⟨[], rfl, rfl, .nil _⟩
  | cons op ops ih =>
    obtain ⟨s, t₁, ss, hop, hss, rfl⟩ := exists_of_steps_cons h
    obtain ⟨hlisted, hr⟩ := List.forall_mem_cons.1 hr
    obtain ⟨rs, hms, hps, hrs⟩ := Operation.resolves_of_settle hop hlisted
    obtain ⟨rs', hms', hps', hrs'⟩ := ih hss hr
    refine ⟨rs ++ rs', ?_, ?_, hrs.append hrs'⟩
    · rw [List.map_append, hms, hms', List.flatMap_cons]
    · rw [List.map_append, hps, hps', List.flatMap_cons]

/-- The mentions of a text become the points of its tree, one after another. -/
theorem Script.resolves_of_parse {s : Script} {t : PointTable} {d : Drawing}
    (h : s.parse t = .ok d) :
    ∃ rs, rs.map Prod.fst = s.mentions ∧ rs.map Prod.snd = d.references ∧
      Resolves t rs d.table := by
  obtain ⟨ss, t', hss, rfl⟩ := Reading.draw_eq_ok_iff.1 (parse_eq_ok_iff.1 h)
  obtain ⟨rs, hms, hps, hrs⟩ := Reading.resolves_of_steps hss fun _ => Reading.listed_of_mem
  refine ⟨rs, hms, ?_, hrs⟩
  rw [hps, Drawing.references, Drawing.ofSteps, Step.operations_program, List.flatMap_map]

end Planimetry
