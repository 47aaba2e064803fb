import Planimetry.Proofs.Exposure.Sources

/-!
# Scopes along a program

A review walks along the steps of a program. Before each of them its scope holds the points put by
the earlier ones and the lines drawn by them, and so it never knows a point that the table does not
know there.

## Main definitions

* `Scope.behind`: the scope behind some steps.
* `Scope.Within`: the table knows the points of a scope.

Main statements: `mem_review_program_iff`, `mem_lines_behind_iff` and `Trail.exists_within`.
-/

namespace Planimetry

/-- The line that a construction adds to the scope. -/
def Node.line? (n : Node) : Option String :=
  match n.kind with
  | .drawSegment a b => some (a.name ++ b.name)
  | .drawPerpendicular segment .. => some segment
  | _ => none

namespace Figure

variable {f : Figure} {pos : Position} {p a b : Point}

theorem eq_point_of_kind (h : (f.node pos).kind = .putPoint p) : f = .point p := by
  cases f <;> cases h
  rfl

theorem eq_segment_of_kind (h : (f.node pos).kind = .drawSegment a b) : f = .segment a b := by
  cases f <;> cases h
  rfl

theorem exists_of_kind_perpendicular {segment : String} {first second : Coord}
    (h : (f.node pos).kind = .drawPerpendicular segment a b first second) :
    ∃ s arms, f = .perpendicular s a b arms ∧ segment = s.text := by
  cases f <;> cases h
  exact ⟨_, _, rfl, rfl⟩

end Figure

namespace Scope

variable {sc : Scope} {n : Node} {s : Step} {ss pre post : List Step} {t t' : PointTable}

/-! ## One construction -/

theorem lines_checkConstruction (sc : Scope) (n : Node) :
    (n.checkConstruction sc).2.lines = n.line?.toList ++ sc.lines := by
  unfold Node.checkConstruction Node.line?
  cases n.kind with
  | putPoint p =>
    dsimp only
    split <;> rfl
  | _ => rfl

theorem mem_points_checkConstruction {name : String}
    (h : name ∈ (n.checkConstruction sc).2.points) :
    name ∈ sc.points ∨ ∃ p, n.kind = .putPoint p ∧ p.name = name := by
  unfold Node.checkConstruction at h
  cases hk : n.kind with
  | putPoint p =>
    simp only [hk] at h
    split at h
    · exact .inl h
    · rcases List.mem_cons.1 h with rfl | h
      · exact .inr ⟨p, rfl, rfl⟩
      · exact .inl h
  | _ =>
    simp only [hk] at h
    exact .inl h

/-! ## All constructions of a program -/

/-- The scope behind the steps. -/
def behind (sc : Scope) (ss : List Step) : Scope :=
  ss.foldl (fun sc s => (s.node.checkConstruction sc).2) sc

/-- The remarks on the steps, one after another. -/
def remarks (sc : Scope) : List Step → List Remark
  | [] => []
  | s :: ss => (s.node.checkConstruction sc).1 ++ remarks (s.node.checkConstruction sc).2 ss

theorem reviewFrom_node (sc : Scope) (s : Step) :
    s.node.reviewFrom sc = s.node.checkConstruction sc := by
  obtain ⟨pos, f⟩ := s
  cases f <;> exact Node.reviewFrom_of_construction sc nofun nofun

theorem reviewAll_chain (sc : Scope) (ss : List Step) :
    Node.reviewAll sc (Step.chain ss) = (sc.remarks ss, sc.behind ss) := by
  induction ss generalizing sc with
  | nil => rfl
  | cons s ss ih =>
    simp only [Step.chain, Node.reviewAll, Node.reviewFrom, reviewFrom_node, ih, List.append_nil,
      remarks, behind, List.foldl_cons]

theorem review_program (ss : List Step) : (Step.program ss).review = empty.remarks ss :=
  congrArg Prod.fst (reviewAll_chain empty ss)

theorem mem_remarks_iff {r : Remark} :
    r ∈ sc.remarks ss ↔
      ∃ pre s post, ss = pre ++ s :: post ∧ r ∈ (s.node.checkConstruction (sc.behind pre)).1 := by
  induction ss generalizing sc with
  | nil => simp [remarks]
  | cons s ss ih =>
    rw [remarks, List.mem_append, ih]
    constructor
    · rintro (h | ⟨pre, s', post, rfl, h⟩)
      · exact ⟨[], s, ss, rfl, h⟩
      · exact ⟨s :: pre, s', post, rfl, h⟩
    · rintro ⟨pre, s', post, e, h⟩
      cases pre with
      | nil =>
        cases e
        exact .inl h
      | cons s'' pre =>
        cases e
        exact .inr ⟨pre, s', post, rfl, h⟩

/-- A review remarks on each construction what is to be said in the scope of the earlier ones. -/
theorem mem_review_program_iff {r : Remark} :
    r ∈ (Step.program ss).review ↔
      ∃ pre s post, ss = pre ++ s :: post ∧
        r ∈ (s.node.checkConstruction (empty.behind pre)).1 := by
  rw [review_program, mem_remarks_iff]

/-- The lines of a scope are those that the steps have drawn. -/
theorem mem_lines_behind_iff {line : String} :
    line ∈ (sc.behind ss).lines ↔ line ∈ sc.lines ∨ ∃ s ∈ ss, s.node.line? = some line := by
  induction ss generalizing sc with
  | nil => simp [behind]
  | cons s ss ih =>
    have hstep : sc.behind (s :: ss) = (s.node.checkConstruction sc).2.behind ss := rfl
    rw [hstep, ih, lines_checkConstruction]
    cases hline : s.node.line? <;> simp [hline, eq_comm, or_left_comm, or_assoc]

/-! ## Scopes and tables -/

/-- The table knows the points of the scope. -/
def Within (sc : Scope) (t : PointTable) : Prop := ∀ name ∈ sc.points, t.Knows name

theorem within_empty (t : PointTable) : empty.Within t := by simp [Within, empty]

/-- A step keeps the scope within the table. -/
theorem Within.step (h : sc.Within t) (hs : s.Taken t t') :
    (s.node.checkConstruction sc).2.Within t' := by
  intro name hname
  rcases mem_points_checkConstruction hname with hname | ⟨p, hp, rfl⟩
  · exact hs.grows name (h name hname)
  · exact hs.put (Figure.eq_point_of_kind hp)

variable {p a b : Point}

/-- An invented point is not in the scope. -/
theorem Within.notMem (h : sc.Within t) (hp : p.Unheld t) (hinv : p.source.isInvented) :
    p.name ∉ sc.points :=
  fun hmem => hp hinv (h _ hmem)

theorem Within.not_knows (h : sc.Within t) (hp : p.Unheld t) (hinv : p.source.isInvented) :
    sc.knows p = false := by
  have hmem := h.notMem hp hinv
  cases hs : p.source <;> simp_all [knows, Provenance.isInvented, Provenance.carriesCoords]

theorem Within.not_knowsEnds (h : sc.Within t) (ha : a.Unheld t) (hb : b.Unheld t)
    (hinv : a.source.isInvented ∨ b.source.isInvented) (ha' : a.source.carriesCoords = false)
    (hb' : b.source.carriesCoords = false) : sc.knowsEnds a b = false := by
  rcases hinv with hinv | hinv
  · simp [knowsEnds, h.notMem ha hinv, ha', hb']
  · simp [knowsEnds, h.notMem hb hinv, ha', hb']

end Scope

/-- Each step is taken on a table that knows the points of the scope before it. -/
theorem Trail.exists_within {sc : Scope} {t t' : PointTable} {s : Step} {pre post : List Step}
    (h : Trail t (pre ++ s :: post) t') (hsc : sc.Within t) :
    ∃ t₁ t₂, s.Taken t₁ t₂ ∧ (sc.behind pre).Within t₁ := by
  induction pre generalizing t sc with
  | nil =>
    cases h with
    | cons hs _ => exact ⟨t, _, hs, hsc⟩
  | cons s' pre ih =>
    cases h with
    | cons hs hrest => exact ih hrest (hsc.step hs)

end Planimetry
