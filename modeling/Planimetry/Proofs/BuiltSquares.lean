import Mathlib.Data.List.Perm.Basic
import Planimetry.Proofs.Resolution
import Planimetry.Proofs.SquareCorners
import Planimetry.Proofs.Steps
import Planimetry.Tape.Recurrence

/-!
# Squares of a program

The ends of a side are settled one after the other, and the corners over them make a square of it.
The node of the square and its primitives tell of the same four sides, each in an order of its own.

## Main definitions

* `Vec`: the way from one coordinate to another, in exact numbers.
* `FormSquare`: four coordinates are the corners of a square.
* `BuiltSquare`: what a step of a square shows of its corners and sides.

Main statement: `Script.built_squares`.
-/

namespace Planimetry

/-! ## Exact squares -/

/-- A way on the grid, in exact numbers. -/
structure Vec where
  x : Int
  y : Int
deriving DecidableEq

namespace Vec

/-- The way turned a quarter counter-clockwise. -/
def turned (v : Vec) : Vec := ⟨-v.y, v.x⟩

def dot (v w : Vec) : Int := v.x * w.x + v.y * w.y

/-- The square of the length. -/
def norm (v : Vec) : Int := v.dot v

theorem dot_comm (v w : Vec) : v.dot w = w.dot v := by
  simp only [dot, Int.mul_comm]

@[simp] theorem dot_turned (v : Vec) : v.dot v.turned = 0 := by
  simp only [dot, turned]
  grind

@[simp] theorem turned_dot (v : Vec) : v.turned.dot v = 0 := by
  rw [dot_comm, dot_turned]

@[simp] theorem norm_turned (v : Vec) : v.turned.norm = v.norm := by
  simp only [norm, dot, turned]
  grind

end Vec

/-- The way from `a` to `b`. -/
def Coord.to (a b : Coord) : Vec := ⟨a.runTo b, a.riseTo b⟩

/-- The quadrangle with `c` next to `a` and `d` next to `b` has sides of one length and right
angles. -/
structure FormSquare (a b c d : Coord) : Prop where
  norm_ac : (a.to c).norm = (a.to b).norm
  norm_bd : (b.to d).norm = (a.to b).norm
  norm_cd : (c.to d).norm = (a.to b).norm
  right_a : (a.to b).dot (a.to c) = 0
  right_b : (a.to b).dot (b.to d) = 0
  right_c : (a.to c).dot (c.to d) = 0
  right_d : (b.to d).dot (c.to d) = 0

section

variable {a b c d p : Coord}

theorem LiesOver.to_eq (h : LiesOver a b p c) : p.to c = (a.to b).turned := by
  obtain ⟨hx, hy⟩ := h
  simp only [Coord.to, Vec.turned, Vec.mk.injEq, Coord.runTo, Coord.riseTo] at hx hy ⊢
  omega

/-- In a parallelogram the other two sides are equal as well. -/
theorem Coord.to_eq_of_to_eq (h : a.to c = b.to d) : c.to d = a.to b := by
  simp only [Coord.to, Vec.mk.injEq, Coord.runTo, Coord.riseTo] at h ⊢
  omega

/-- A side and two corners over it form a square. -/
theorem formSquare_of_liesOver (hc : LiesOver a b a c) (hd : LiesOver a b b d) :
    FormSquare a b c d := by
  have hcd : c.to d = a.to b := Coord.to_eq_of_to_eq (hc.to_eq.trans hd.to_eq.symm)
  constructor
  all_goals simp [hc.to_eq, hd.to_eq, hcd]

end

/-! ## Settled ends -/

/-- What the table answers stands in it from then on. All other names keep what they had, and a
generated answer was free. -/
theorem PointTable.resolve_spec {t t' : PointTable} {name : String} {given : Option Coord}
    {c : Coord} {source : Provenance} (h : t.resolve name given = (.ok (c, source), t')) :
    t'.points.get? name = some c ∧
      (∀ other, other ≠ name → t'.points.get? other = t.points.get? other) ∧
      (source = .generated → ∀ other, t.points.get? other ≠ some c) := by
  have hlaws := (Exchange.way_ofQuery t (.resolve name given)).lawful
  simp only [Exchange.ofQuery, Query.ask, h] at hlaws
  refine ⟨?_, fun other hne => hlaws.others_kept hne, ?_⟩
  · unfold resolve at h
    split at h
    · cases h
      exact PointMap.get?_insert_self ..
    · split at h
      · cases h
        assumption
      · split at h <;> cases h
        exact PointMap.get?_insert_self ..
  · rintro rfl
    exact (hlaws.generated_free rfl).2

theorem Mention.resolve_of_settle {m : Mention} {p : Point} {t t' : PointTable}
    (h : m.settle.run t = .ok (p, t')) :
    t.resolve m.name m.given = (.ok (p.coord, p.source), t') ∧ p.name = m.name := by
  change m.settle t = _ at h
  unfold settle at h
  split at h
  · cases h
    exact ⟨‹_›, rfl⟩
  · cases h

/-! ## Squares of a program -/

/-- The sides of a construction that stand in its node as segments. -/
def Node.sides (n : Node) : List (Point × Point) :=
  n.children.filterMap fun c =>
    match c.kind with
    | .drawSegment a b => some (a, b)
    | _ => none

/-- What a step from the table `t` to the table `t'` shows, if it builds a square on `side`, whose
ends may be given coordinates: the ends `a` and `b`, the corner `c` over `a` and the corner `d`
over `b`. -/
structure BuiltSquare (side : Side) (given given' : Option Coord) (t : PointTable) (s : Step)
    (t' : PointTable) (a b c d : Point) : Prop where
  /-- The ends are resolved one after the other. Nothing else is asked of the table or its tape. -/
  ends : ∃ t₁, t.resolve side.firstName given = (.ok (a.coord, a.source), t₁) ∧
    t₁.resolve side.secondName given' = (.ok (b.coord, b.source), t')
  /-- The second end keeps away from the first one, if its position is generated. -/
  apart : b.source = .generated → b.coord ≠ a.coord
  /-- The corners do not go to the table. -/
  others_kept : ∀ name, name ≠ side.firstName → name ≠ side.secondName →
    t'.points.get? name = t.points.get? name
  names : [a, b, c, d].map Point.name =
    [side.firstName, side.secondName, side.firstName ++ "1", side.secondName ++ "1"]
  corners_derived : c.source = .derived ∧ d.source = .derived
  over_first : a.coord.to c.coord = (a.coord.to b.coord).turned
  over_second : b.coord.to d.coord = (a.coord.to b.coord).turned
  square : FormSquare a.coord b.coord c.coord d.coord
  /-- The node holds the four points and, behind them, the four sides. -/
  kinds : s.node.kind = .buildSquare side.text ∧ s.node.children.map Node.kind =
    [.putPoint a, .putPoint b, .putPoint c, .putPoint d,
      .drawSegment a b, .drawSegment c d, .drawSegment a c, .drawSegment b d]
  /-- The four sides are drawn, and the four points behind them. -/
  drawn : s.figure.primitives =
    [a.segmentTo c, a.segmentTo b, b.segmentTo d, c.segmentTo d,
      a.primitive, b.primitive, c.primitive, d.primitive]
  /-- What is drawn are the sides in the node, each of them once. -/
  same_sides : (s.figure.primitives.filter Primitive.isSegment).Perm
    (s.node.sides.map fun side => side.1.segmentTo side.2)

/-- Two orders of four things. -/
theorem perm_reordered {α : Type} (w x y z : α) : [w, x, y, z].Perm [x, z, w, y] :=
  calc
    [w, x, y, z].Perm [x, w, y, z] := .swap x w [y, z]
    List.Perm _ [x, z, w, y] := .cons x (List.perm_append_comm : ([w, y] ++ [z]).Perm _)

/-- A square command that is settled builds a square. -/
theorem Operation.builtSquare_of_settle {op : Operation} {side : Side}
    {given given' : Option Coord} {t t' : PointTable} {s : Step}
    (hop : op.command = .square side given given') (h : op.settle.run t = .ok (s, t')) :
    ∃ a b c d, BuiltSquare side given given' t s t' a b c d := by
  obtain ⟨-, hc⟩ := settles_of_settle h
  obtain ⟨pos, f⟩ := s
  rw [hop] at hc
  cases hc with
  | @square _ _ _ a b c d t₁ _ ha hb hcd =>
    obtain ⟨hfirst, hname⟩ := Mention.resolve_of_settle ha
    obtain ⟨hsecond, hname'⟩ := Mention.resolve_of_settle hb
    obtain ⟨hheld, hkept, -⟩ := PointTable.resolve_spec hfirst
    obtain ⟨-, hkept', hfree⟩ := PointTable.resolve_spec hsecond
    obtain ⟨-, hoverc, hoverd⟩ := squareCorners_eq_ok_iff.1 hcd
    refine ⟨a, b, side.corner side.firstName c, side.corner side.secondName d, ?_⟩
    exact {
      ends := ⟨t₁, hfirst, hsecond⟩
      apart := fun hgen hcoord => hfree hgen _ (hcoord ▸ hheld)
      others_kept := fun name hne hne' => (hkept' name hne').trans (hkept name hne)
      names := by rw [List.map_cons, List.map_cons, hname, hname']; rfl
      corners_derived := ⟨rfl, rfl⟩
      over_first := hoverc.to_eq
      over_second := hoverd.to_eq
      square := formSquare_of_liesOver hoverc hoverd
      kinds := ⟨rfl, rfl⟩
      drawn := rfl
      same_sides := perm_reordered .. }

/-! ## Steps in their places -/

/-- The steps before and behind an operation in the middle, and the tables between them. -/
theorem Operation.exists_of_cut {pre post : List Operation} {op : Operation} {t t' : PointTable}
    {ss : List Step} (h : ((pre ++ op :: post).mapM settle).run t = .ok (ss, t')) :
    ∃ ps t₁ s t₂ qs, (pre.mapM settle).run t = .ok (ps, t₁) ∧ op.settle.run t₁ = .ok (s, t₂) ∧
      (post.mapM settle).run t₂ = .ok (qs, t') ∧ ss = ps ++ s :: qs := by
  rw [List.mapM_append] at h
  obtain ⟨ps, t₁, hpre, h⟩ := Settling.bind_eq_ok_iff.1 h
  obtain ⟨qs, t₂, hrest, h⟩ := Settling.bind_eq_ok_iff.1 h
  cases h
  rw [List.mapM_cons] at hrest
  obtain ⟨s, t₃, hop, hrest⟩ := Settling.bind_eq_ok_iff.1 hrest
  obtain ⟨qs, t₄, hpost, hrest⟩ := Settling.bind_eq_ok_iff.1 hrest
  cases hrest
  exact ⟨ps, t₁, s, t₃, qs, hpre, hop, hpost, rfl⟩

/-- The place of a step in a drawing: its operation is settled on the table `t₁` that the operations
before it leave, and those behind it are settled on the table `t₂` that it leaves itself. -/
structure Drawing.StepBetween (d : Drawing) (t : PointTable) (pre : List Operation)
    (op : Operation) (post : List Operation) (t₁ : PointTable) (s : Step) (t₂ : PointTable) :
    Prop where
  settled : op.settle.run t₁ = .ok (s, t₂)
  others : ∃ ps qs, (pre.mapM Operation.settle).run t = .ok (ps, t₁) ∧
    (post.mapM Operation.settle).run t₂ = .ok (qs, d.table) ∧
    d.tree.operations = ps.map Step.node ++ s.node :: qs.map Step.node ∧
    d.primitives = ps.flatMap (·.figure.primitives) ++
      (s.figure.primitives ++ qs.flatMap (·.figure.primitives))

theorem Reading.run_of_steps {r : Reading} {t t' : PointTable} {ss : List Step}
    (h : r.steps t = .ok (ss, t')) : (r.operations.mapM Operation.settle).run t = .ok (ss, t') := by
  have hstop := stop_eq_none_of_steps h
  unfold steps at h
  split at h
  · cases h
  · rw [hstop] at h
    cases h
    assumption

namespace Script

variable {s : Script} {t : PointTable} {pre post : List Operation} {op : Operation}

/-- Each operation of a text that is drawn has its step in the drawing. -/
theorem exists_stepBetween {d : Drawing} (h : s.parse t = .ok d)
    (hcut : s.reading.operations = pre ++ op :: post) :
    ∃ t₁ step t₂, d.StepBetween t pre op post t₁ step t₂ := by
  obtain ⟨ss, t', hss, rfl⟩ := Reading.draw_eq_ok_iff.1 (parse_eq_ok_iff.1 h)
  have hrun := Reading.run_of_steps hss
  rw [hcut] at hrun
  obtain ⟨ps, t₁, step, t₂, qs, hpre, hop, hpost, rfl⟩ := Operation.exists_of_cut hrun
  refine ⟨t₁, step, t₂, hop, ps, qs, hpre, hpost, ?_, ?_⟩
  · simp [Drawing.ofSteps, Step.operations_program]
  · simp [Drawing.ofSteps]

/-- Wherever the command of a square stands in a text: when it is settled, it builds a square, and
if the text is drawn, that square has its place in the tree and among the primitives. -/
theorem built_squares {side : Side} {given given' : Option Coord}
    (hcut : s.reading.operations = pre ++ op :: post)
    (hop : op.command = .square side given given') :
    (∀ t₁ step t₂, op.settle.run t₁ = .ok (step, t₂) →
      ∃ a b c d, BuiltSquare side given given' t₁ step t₂ a b c d) ∧
    ∀ d, s.parse t = .ok d → ∃ t₁ step t₂, d.StepBetween t pre op post t₁ step t₂ :=
  ⟨fun _ _ _ h => Operation.builtSquare_of_settle hop h, fun _ h => exists_stepBetween h hcut⟩

/-- A square on a side of unknown ends. -/
def unknownSide : Script := .ofText "побудувати квадрат зі стороною AB" none

/-- An empty table whose tape begins with words for the positions (0,0), once more (0,0), and
(1,3). -/
def thriceDrawn : PointTable :=
  .ofTape (.scripted [0, 0, 0, 0, 1073741824, 2147483648] 18446744073709551616)

theorem built_squares_of_unknownSide :
    ∃ d step a b c e, unknownSide.parse thriceDrawn = .ok d ∧
      BuiltSquare ⟨'A', 'B', ⟨1, 32⟩⟩ none none thriceDrawn step d.table a b c e ∧
      d.primitives = step.figure.primitives ∧
      [a, b, c, e].map Point.coord = [⟨0, 0⟩, ⟨1, 3⟩, ⟨-3, 1⟩, ⟨-2, 4⟩] := by
  let side : Side := ⟨'A', 'B', ⟨1, 32⟩⟩
  have hop : Reader.operation ⟨unknownSide.tokens, []⟩ = .ok ⟨⟨1, 1⟩, .square side none none⟩
      ⟨[], [⟨"A", ⟨1, 32⟩, none⟩, ⟨"B", ⟨1, 32⟩, none⟩]⟩ := by
    rfl
  have hreading : unknownSide.reading = ⟨[] ++ ⟨⟨1, 1⟩, .square side none none⟩ :: [], none⟩ :=
    Reading.ofTokens_of_end hop
  have hdrawn : (unknownSide.parse thriceDrawn).toOption.map (·.primitives) =
      some [.segment ⟨0, 0⟩ ⟨-3, 1⟩, .segment ⟨0, 0⟩ ⟨1, 3⟩, .segment ⟨1, 3⟩ ⟨-2, 4⟩,
        .segment ⟨-3, 1⟩ ⟨-2, 4⟩, .point "A" ⟨0, 0⟩, .point "B" ⟨1, 3⟩, .point "A1" ⟨-3, 1⟩,
        .point "B1" ⟨-2, 4⟩] := by
    rw [parse, hreading]
    decide +kernel
  obtain ⟨d, h, hcoords⟩ := exists_eq_ok_of_map_toOption hdrawn
  obtain ⟨hbuilt, hplace⟩ := built_squares (congrArg Reading.operations hreading) rfl
  obtain ⟨_, step, _, hstep, ps, qs, hpre, hpost, -, hprims⟩ := hplace d h
  cases hpre
  cases hpost
  have hprims : d.primitives = step.figure.primitives := by simpa using hprims
  obtain ⟨a, b, c, e, hsquare⟩ := hbuilt _ _ _ hstep
  refine ⟨d, step, a, b, c, e, h, hsquare, hprims, ?_⟩
  rw [hprims, hsquare.drawn] at hcoords
  simp only [Point.segmentTo, Point.primitive, List.cons.injEq, Primitive.point.injEq] at hcoords
  simp [hcoords]

end Script

end Planimetry
