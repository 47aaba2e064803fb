import Planimetry.Proofs.Mentions
import Planimetry.Tape.Recurrence

/-!
# Generated positions of a program

A position is generated apart from the positions that the table holds at that moment. So two
generated points of a program stand apart, unless the first of them was given other coordinates
before the second one was generated.

## Main definitions

* `Drawing.Generates`: the tree refers to a generated point.
* `MovedBetween`: a name was given other coordinates between two points.

Main statement: `generated_apart`. `generated_twice` is a program that generates a position twice.
-/

namespace Planimetry

/-! ## Generated points of a tree -/

/-- The tree refers to the point, and its coordinates were generated. -/
def Drawing.Generates (d : Drawing) (p : Point) : Prop :=
  p.source = .generated ∧ ∃ n : Node, n.Inside d.tree ∧ p ∈ n.kind.points

namespace Step

variable {s : Step} {ss : List Step} {t t' : PointTable} {p : Point}

theorem exists_inside_chain (h : s ∈ ss) : ∃ m ∈ chain ss, s.node.Inside m := by
  induction ss with
  | nil => cases h
  | cons s' ss ih =>
    refine ⟨_, List.mem_singleton.2 rfl, ?_⟩
    rcases List.mem_cons.1 h with rfl | h
    · exact .child List.mem_cons_self .root
    · obtain ⟨m, hm, hs⟩ := ih h
      exact .child (List.mem_cons_of_mem _ hm) hs

theorem inside_program (h : s ∈ ss) : s.node.Inside (program ss) := by
  obtain ⟨m, hm, hs⟩ := exists_inside_chain h
  exact .child hm hs

end Step

theorem Node.Inside.trans {n m k : Node} (h : n.Inside m) (h' : m.Inside k) : n.Inside k := by
  induction h' with
  | root => exact h
  | child hc _ ih => exact .child hc ih

theorem Node.exists_inside_of_mem_putPoints {n : Node} {p : Point} (h : p ∈ n.putPoints) :
    ∃ m : Node, m.Inside n ∧ p ∈ m.kind.points := by
  obtain ⟨c, hc, hp⟩ := List.mem_filterMap.1 h
  refine ⟨c, .child hc .root, ?_⟩
  unfold point? at hp
  split at hp
  · rename_i hk
    cases hp
    rw [hk]
    exact List.mem_singleton.2 rfl
  · cases hp

/-- The points that a construction refers to stand in its node. -/
theorem Figure.exists_inside_of_mem_references {f : Figure} {pos : Position} {p : Point}
    (h : p ∈ (f.node pos).references) : ∃ n : Node, n.Inside (f.node pos) ∧ p ∈ n.kind.points := by
  cases f with
  | point q => exact ⟨_, .root, h⟩
  | segment a b => exact ⟨_, .root, h⟩
  | perpendicular => cases h
  | network => exact Node.exists_inside_of_mem_putPoints h
  | triangle => exact Node.exists_inside_of_mem_putPoints h
  | square => exact Node.exists_inside_of_mem_putPoints (List.mem_filter.1 h).1

/-- The ends of a perpendicular are not generated, nor are computed corners; all other points of a
construction come from mentions. -/
theorem Operation.mem_references_of_inside {op : Operation} {s : Step} {t t' : PointTable}
    (h : op.settle.run t = .ok (s, t')) {n : Node} {p : Point} (hn : n.Inside s.node)
    (hp : p ∈ n.kind.points) (hgen : p.source = .generated) : p ∈ s.node.references := by
  obtain ⟨-, hc⟩ := settles_of_settle h
  obtain ⟨pos, f⟩ := s
  have hcases := Figure.mem_corners_of_inside hn hp
  rw [← f.putPoints_node pos] at hcases
  generalize op.command = c at hc
  cases hc with
  | place | segment =>
    rcases hcases with rfl | hcorner
    · exact hp
    · cases hcorner
  | connect | triangle =>
    rcases hcases with rfl | hcorner
    · cases hp
    · exact hcorner
  | square =>
    rcases hcases with rfl | hcorner
    · cases hp
    · exact List.mem_filter.2 ⟨hcorner, by simp [hgen]⟩
  | @perpendicular s arms =>
    rcases hcases with rfl | hcorner
    · rcases List.mem_pair.1 hp with rfl | rfl
      all_goals exact absurd hgen (s.from_lookup _ t).ne_generated
    · cases hcorner

/-- The generated points of a tree are those that come from mentions. -/
theorem Script.generates_iff {s : Script} {t : PointTable} {d : Drawing} (h : s.parse t = .ok d)
    {p : Point} : d.Generates p ↔ p.source = .generated ∧ p ∈ d.references := by
  obtain ⟨ss, t', hss, rfl⟩ := Reading.draw_eq_ok_iff.1 (parse_eq_ok_iff.1 h)
  have hrefs : p ∈ (Drawing.ofSteps ss t').references ↔ ∃ st ∈ ss, p ∈ st.node.references := by
    simp [Drawing.references, Drawing.ofSteps, Step.operations_program]
  rw [hrefs]
  refine and_congr_right fun hgen => ⟨?_, ?_⟩
  · rintro ⟨n, hn, hp⟩
    obtain ⟨st, hst, hn⟩ := Step.inside_of_inside_program hn hp
    obtain ⟨op, -, t₁, t₂, hop⟩ := Reading.exists_operation_of_mem hss hst
    exact ⟨st, hst, Operation.mem_references_of_inside hop hn hp hgen⟩
  · rintro ⟨st, hst, hp⟩
    obtain ⟨n, hn, hp⟩ := Figure.exists_inside_of_mem_references hp
    exact ⟨n, hn.trans (Step.inside_program hst), hp⟩

/-! ## Generated positions -/

/-- The first point was mentioned before the second one, and the last coordinates that were given to
its name in between are other ones. -/
def MovedBetween (rs : List (Mention × Point)) (p q : Point) : Prop :=
  ∃ pre m mid m' post c, rs = pre ++ (m, p) :: (mid ++ (m', q) :: post) ∧
    lastGiven (mid.map Prod.fst) p.name = some c ∧ c ≠ p.coord

/-- A generated point is new to the table, and nothing stands there. -/
theorem Mention.Becomes.of_generated {m : Mention} {p : Point} {t t' : PointTable}
    (h : m.Becomes t p t') (hp : p.source = .generated) :
    t.points.get? p.name = none ∧ (∀ name, t.points.get? name ≠ some p.coord) ∧
      t'.points.get? p.name = some p.coord := by
  cases h with
  | given => cases hp
  | known => cases hp
  | generated _ hn hg =>
    exact ⟨hn, (PointTable.generate_spec hg).2, PointMap.get?_insert_self ..⟩

/-- Of two generated points, the second one stands apart from the place where the first one is by
then. -/
theorem Resolves.apart_of_generated {t t' : PointTable} {pre mid post : List (Mention × Point)}
    {m m' : Mention} {p q : Point}
    (h : Resolves t (pre ++ (m, p) :: (mid ++ (m', q) :: post)) t') (hp : p.source = .generated)
    (hq : q.source = .generated) :
    p.name ≠ q.name ∧
      (p.coord = q.coord → ∃ c, lastGiven (mid.map Prod.fst) p.name = some c ∧ c ≠ p.coord) := by
  obtain ⟨t₁, t₂, -, hm, hrest⟩ := h.exists_of_cut
  obtain ⟨t₃, t₄, hmid, hm', -⟩ := hrest.exists_of_cut
  -- The second position is drawn on t₃, where the first name has what it was given last.
  obtain ⟨-, -, hheld⟩ := hm.of_generated hp
  obtain ⟨hnew, hfree, -⟩ := hm'.of_generated hq
  have hvalue : t₃.points.get? p.name =
      (lastGiven (mid.map Prod.fst) p.name).or (some p.coord) := by
    rw [hmid.get?_eq, hheld]
    simp
  constructor
  · intro hname
    rw [hname, hnew] at hvalue
    cases hlast : lastGiven (mid.map Prod.fst) q.name <;> simp [hlast] at hvalue
  · intro hcoord
    have hne := hfree p.name
    rw [hvalue, ← hcoord] at hne
    cases hlast : lastGiven (mid.map Prod.fst) p.name with
    | none => simp [hlast] at hne
    | some c => exact ⟨c, rfl, fun hc => hne (by simp [hlast, hc])⟩

/-- Of two different elements of a list, one stands before the other. -/
theorem exists_cut_of_ne {α : Type} {l : List α} {a b : α} (ha : a ∈ l) (hb : b ∈ l) (h : a ≠ b) :
    ∃ pre mid post,
      l = pre ++ a :: (mid ++ b :: post) ∨ l = pre ++ b :: (mid ++ a :: post) := by
  obtain ⟨pre, post, rfl⟩ := List.append_of_mem ha
  rcases List.mem_append.1 hb with hb | hb
  · obtain ⟨pre, mid, rfl⟩ := List.append_of_mem hb
    exact ⟨pre, mid, post, .inr (by simp)⟩
  · obtain ⟨mid, post, rfl⟩ := List.append_of_mem ((List.mem_cons.1 hb).resolve_left h.symm)
    exact ⟨pre, mid, post, .inl rfl⟩

namespace Script

/-- Two generated points of a tree have different names. They stand apart, unless coordinates given
in between have moved the name of the first one. -/
theorem generated_apart {s : Script} {t : PointTable} {d : Drawing} (h : s.parse t = .ok d) :
    ∃ rs, rs.map Prod.fst = s.mentions ∧ rs.map Prod.snd = d.references ∧
      ∀ p q, d.Generates p → d.Generates q → p ≠ q →
        p.name ≠ q.name ∧ (p.coord = q.coord → MovedBetween rs p q ∨ MovedBetween rs q p) := by
  obtain ⟨rs, hms, hps, hrs⟩ := resolves_of_parse h
  refine ⟨rs, hms, hps, fun p q hp hq hne => ?_⟩
  obtain ⟨hpgen, hpmem⟩ := (generates_iff h).1 hp
  obtain ⟨hqgen, hqmem⟩ := (generates_iff h).1 hq
  rw [← hps] at hpmem hqmem
  obtain ⟨⟨m, p⟩, hm, rfl⟩ := List.mem_map.1 hpmem
  obtain ⟨⟨m', q⟩, hm', rfl⟩ := List.mem_map.1 hqmem
  have hne' : (m, p) ≠ (m', q) := fun e => hne (congrArg Prod.snd e)
  obtain ⟨pre, mid, post, rfl | rfl⟩ := exists_cut_of_ne hm hm' hne'
  · obtain ⟨hname, hapart⟩ := hrs.apart_of_generated hpgen hqgen
    refine ⟨hname, fun hcoord => .inl ?_⟩
    obtain ⟨c, hc, hmoved⟩ := hapart hcoord
    exact ⟨pre, m, mid, m', post, c, rfl, hc, hmoved⟩
  · obtain ⟨hname, hapart⟩ := hrs.apart_of_generated hqgen hpgen
    refine ⟨hname.symm, fun hcoord => .inr ?_⟩
    obtain ⟨c, hc, hmoved⟩ := hapart hcoord.symm
    exact ⟨pre, m', mid, m, post, c, rfl, hc, hmoved⟩

/-- A script that moves a generated point away before it generates another one. -/
def movedAway : Script :=
  .ofText "поставити точку A ; поставити точку A (9,9) ; поставити точку B" none

/-- An empty table whose tape begins with words for the position (0,0), twice. -/
def fourZeros : PointTable := .ofTape (.scripted [0, 0, 0, 0] 18446744073709551616)

def generatedFirst : Point := ⟨"A", ⟨0, 0⟩, .generated, ⟨1, 17⟩⟩

def generatedLast : Point := ⟨"B", ⟨0, 0⟩, .generated, ⟨1, 63⟩⟩

theorem exists_parse_movedAway :
    ∃ d, movedAway.parse fourZeros = .ok d ∧ d.Generates generatedFirst ∧
      d.Generates generatedLast := by
  have hrefs : (movedAway.parse fourZeros).toOption.map Drawing.references =
      some [generatedFirst, ⟨"A", ⟨9, 9⟩, .explicit, ⟨1, 37⟩⟩, generatedLast] := by
    decide +kernel
  obtain ⟨d, h, hd⟩ := exists_eq_ok_of_map_toOption hrefs
  refine ⟨d, h, (generates_iff h).2 ⟨rfl, ?_⟩, (generates_iff h).2 ⟨rfl, ?_⟩⟩
  · simp [hd]
  · simp [hd]

/-- The position from which a point has moved away can be generated once more. -/
theorem generated_twice :
    ∃ d p q, movedAway.parse fourZeros = .ok d ∧ d.Generates p ∧ d.Generates q ∧
      p.name ≠ q.name ∧ p.coord = q.coord := by
  obtain ⟨d, h, hfirst, hlast⟩ := exists_parse_movedAway
  exact ⟨d, generatedFirst, generatedLast, h, hfirst, hlast, by decide, rfl⟩

theorem moved_of_movedAway :
    ∃ d rs, movedAway.parse fourZeros = .ok d ∧ rs.map Prod.snd = d.references ∧
      (MovedBetween rs generatedFirst generatedLast ∨
        MovedBetween rs generatedLast generatedFirst) := by
  obtain ⟨d, h, hfirst, hlast⟩ := exists_parse_movedAway
  obtain ⟨rs, -, hps, hapart⟩ := generated_apart h
  have hne : generatedFirst ≠ generatedLast := by decide
  exact ⟨d, rs, h, hps, (hapart _ _ hfirst hlast hne).2 rfl⟩

end Script

end Planimetry
