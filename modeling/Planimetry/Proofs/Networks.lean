import Mathlib.Data.List.Forall2
import Mathlib.Data.Nat.Choose.Basic
import Planimetry.Proofs.BuiltSquares
import Planimetry.Proofs.FinalTable
import Planimetry.Proofs.Unplaced

/-!
# Networks of a program

Listed points are connected each with each. All of them are put first, so that a name that is listed
twice stands where it was put last, with every segment that it ends.

## Main definitions

* `BuiltNetwork`: what a step shows that connects listed points.

Main statement: `Script.built_networks`.
-/

namespace Planimetry

/-! ## Pairs of places -/

section

variable {α β : Type}

theorem length_pairs (as : List α) : (pairs as).length = as.length * (as.length - 1) / 2 := by
  induction as with
  | nil => simp [pairs]
  | cons a as ih =>
    rw [pairs, List.length_append, List.length_map, ih, List.length_cons, Nat.triangle_succ]
    omega

/-- The pairs of an ascending list ascend, and a pair is one of them if it ascends itself. -/
theorem mem_pairs_iff {is : List Nat} (h : is.Pairwise (· < ·)) {i j : Nat} :
    (i, j) ∈ pairs is ↔ i ∈ is ∧ j ∈ is ∧ i < j := by
  induction h with
  | nil => simp [pairs]
  | @cons k is hk _ ih =>
    rw [pairs, List.mem_append, ih]
    grind

theorem pairwise_pairs {is : List Nat} (h : is.Pairwise (· < ·)) :
    (pairs is).Pairwise (Prod.Lex (· < ·) (· < ·)) := by
  induction h with
  | nil => exact .nil
  | @cons k is hk his ih =>
    rw [pairs, List.pairwise_append, List.pairwise_map]
    refine ⟨his.imp fun hij => .right _ hij, ih, ?_⟩
    rintro _ hi ⟨i, j⟩ hij
    obtain ⟨_, -, rfl⟩ := List.mem_map.1 hi
    exact .left _ _ (hk i ((mem_pairs_iff his).1 hij).1)

/-- The pairs of places of a list with `n` elements, in order. -/
def placePairs (n : Nat) : List (Nat × Nat) := pairs (List.range n)

theorem map_getElem?_range (as : List α) :
    (List.range as.length).map (as[·]?) = as.map some := by
  apply List.ext_getElem?
  intro i
  by_cases h : i < as.length <;> simp [h]

/-- What stands at the pairs of places are the pairs. -/
theorem forall₂_pairs (as : List α) :
    List.Forall₂ (fun ij ab => as[ij.1]? = some ab.1 ∧ as[ij.2]? = some ab.2)
      (placePairs as.length) (pairs as) := by
  have hmap : (placePairs as.length).map (Prod.map (as[·]?) (as[·]?)) =
      (pairs as).map (Prod.map some some) := by
    rw [placePairs, ← pairs_map, ← pairs_map, map_getElem?_range]
  rw [← List.forall₂_eq_eq_eq, List.forall₂_map_left_iff, List.forall₂_map_right_iff] at hmap
  exact hmap.imp fun ij ab h => Prod.mk.inj h

/-- The pairs `abs` are those of the `i`-th and the `j`-th element of `as`, one for every `i < j`,
as the places `ijs` tell. -/
structure EachWithEach (as : List α) (abs : List (α × α)) (ijs : List (Nat × Nat)) : Prop where
  /-- The pairs are ordered by the first place and then by the second one. -/
  ordered : ijs.Pairwise (Prod.Lex (· < ·) (· < ·))
  places {i j : Nat} : (i, j) ∈ ijs ↔ i < j ∧ j < as.length
  count : abs.length = as.length * (as.length - 1) / 2
  elements : List.Forall₂ (fun ij ab => as[ij.1]? = some ab.1 ∧ as[ij.2]? = some ab.2) ijs abs

theorem eachWithEach_pairs (as : List α) :
    EachWithEach as (pairs as) (placePairs as.length) where
  ordered := pairwise_pairs List.pairwise_lt_range
  places {i j} := by
    rw [placePairs, mem_pairs_iff List.pairwise_lt_range, List.mem_range, List.mem_range]
    omega
  count := length_pairs as
  elements := forall₂_pairs as

end

/-! ## Listed points -/

/-- Points with coordinates are always put, and no words are read for them. -/
theorem Mention.exists_settleAll {ms : List Mention} (hms : ∀ m ∈ ms, m.given.isSome)
    (t : PointTable) :
    ∃ ps t', (ms.mapM settle).run t = .ok (ps, t') ∧ t'.tape = t.tape := by
  induction ms generalizing t with
  | nil => exact ⟨[], t, rfl, rfl⟩
  | cons m ms ih =>
    obtain ⟨hm, hms⟩ := List.forall_mem_cons.1 hms
    obtain ⟨c, hc⟩ := Option.isSome_iff_exists.1 hm
    obtain ⟨ps, t', hps, htape⟩ := ih hms (t.insert m.name c)
    have hput : m.settle.run t = .ok (⟨m.name, c, .explicit, m.pos⟩, t.insert m.name c) := by
      change m.settle t = _
      simp only [settle, PointTable.resolve, hc]
    rw [List.mapM_cons]
    exact ⟨_, t', Settling.bind_eq_ok_iff.2
      ⟨_, _, hput, Settling.bind_eq_ok_iff.2 ⟨_, _, hps, rfl⟩⟩, htape⟩

theorem isSome_lastGiven {ms : List Mention} {m : Mention} (hm : m ∈ ms) (hgiven : m.given.isSome) :
    (lastGiven ms m.name).isSome := by
  obtain ⟨c, hc⟩ := Option.isSome_iff_exists.1 hgiven
  have hmem : c ∈ ms.filterMap (·.gives? m.name) :=
    List.mem_filterMap.2 ⟨m, hm, by rw [Mention.gives?, if_pos rfl, hc]⟩
  exact List.getLast?_isSome.2 (List.ne_nil_of_mem hmem)

/-- What a step from the table `t` to the table `t'` shows, if it connects the points that `ms`
lists: these points, `ps`, and their pairs `abs`. -/
structure BuiltNetwork (ms : List Mention) (t : PointTable) (s : Step) (t' : PointTable)
    (ps : List Point) (abs : List (Point × Point)) : Prop where
  /-- Each point stands where its name was put last, and there the table has it. -/
  listed : List.Forall₂ (fun m p => p.name = m.name ∧ p.pos = m.pos ∧ p.source = .explicit ∧
    lastGiven ms m.name = some p.coord ∧ t'.points.get? m.name = some p.coord) ms ps
  others_kept {name : String} : name ∉ ms.map Mention.name →
    t'.points.get? name = t.points.get? name
  tape_kept : t'.tape = t.tape
  paired : ∃ ijs, EachWithEach ps abs ijs
  /-- The points are drawn as they are listed, and the segments behind them. -/
  drawn : s.figure.primitives =
    ps.map Point.primitive ++ abs.map fun (a, b) => a.segmentTo b
  /-- The node holds the same points and segments in the same order. -/
  kinds : s.node.kind = .connectPoints ∧ s.node.children.map Node.kind =
    ps.map .putPoint ++ abs.map fun (a, b) => .drawSegment a b

/-- Listed points are shown where their names were put last. -/
theorem Resolves.listed {t t' : PointTable} {rs : List (Mention × Point)} (h : Resolves t rs t')
    (hgiven : ∀ r ∈ rs, r.1.given.isSome)
    (hshown : ∀ r ∈ rs, ∀ c, t'.points.get? r.2.name = some c → r.2.coord = c) :
    List.Forall₂ (fun m p => p.name = m.name ∧ p.pos = m.pos ∧ p.source = .explicit ∧
      lastGiven (rs.map Prod.fst) m.name = some p.coord ∧ t'.points.get? m.name = some p.coord)
      (rs.map Prod.fst) (rs.map Prod.snd) := by
  rw [List.forall₂_map_left_iff, List.forall₂_map_right_iff, List.forall₂_same]
  rintro ⟨m, p⟩ hr
  obtain ⟨t₁, t₂, hm⟩ := h.exists_becomes hr
  have hsource : p.source = .explicit := hm.explicit_iff.2 (hgiven _ hr)
  obtain ⟨c, hc⟩ := Option.isSome_iff_exists.1
    (isSome_lastGiven (List.mem_map_of_mem hr) (hgiven _ hr))
  have hvalue : t'.points.get? m.name = some c := by
    rw [h.get?_eq, hc]
    rfl
  have hcoord : p.coord = c := hshown _ hr c (hm.name_eq ▸ hvalue)
  rw [hcoord]
  exact ⟨hm.name_eq, hm.pos_eq, hsource, hc, hvalue⟩

/-- A command that connects points with coordinates is always settled, and it builds a network. -/
theorem Operation.exists_builtNetwork (pos : Position) {ms : List Mention}
    (hms : ∀ m ∈ ms, m.given.isSome) (t : PointTable) :
    ∃ s t' ps abs, (settle ⟨pos, .connect ms⟩).run t = .ok (s, t') ∧
      BuiltNetwork ms t s t' ps abs := by
  obtain ⟨ps, t', hps, htape⟩ := Mention.exists_settleAll hms t
  obtain ⟨rs, rfl, hsnd, hrs⟩ := Mention.resolves_of_settleAll hps hms t'
  have hsettle : (settle ⟨pos, .connect (rs.map Prod.fst)⟩).run t =
      .ok (⟨pos, .network (ps.map (·.refresh t'))⟩, t') := by
    refine Settling.bind_eq_ok_iff.2 ⟨_, t', ?_, rfl⟩
    exact Settling.bind_eq_ok_iff.2 ⟨ps, t', hps, rfl⟩
  rw [← hsnd] at hsettle
  have hgiven : ∀ r ∈ rs, r.1.given.isSome := fun r hr => hms _ (List.mem_map_of_mem hr)
  have hshown : ∀ r ∈ rs, ∀ c, t'.points.get? r.2.name = some c → r.2.coord = c := by
    intro r hr c hc
    obtain ⟨q, -, hq⟩ := List.mem_map.1 (hsnd ▸ List.mem_map_of_mem (f := Prod.snd) hr)
    rw [← hq] at hc ⊢
    exact congrArg (·.getD q.coord) hc
  refine ⟨_, t', rs.map Prod.snd, pairs (rs.map Prod.snd), hsettle, ?_⟩
  exact {
    listed := hrs.listed hgiven hshown
    others_kept := fun hname => hrs.get?_of_notMem (by simpa using hname)
    tape_kept := htape
    paired := ⟨_, eachWithEach_pairs _⟩
    drawn := rfl
    kinds := by
      refine ⟨rfl, ?_⟩
      simp only [Step.node, Figure.node, Node.children, List.map_append, List.map_map]
      rfl }

/-! ## Networks of a program -/

namespace Script

/-- Wherever points are listed, they have coordinates. The command that connects them builds a
network on every table, and if the text is drawn, that network has its place in the tree and among
the primitives. -/
theorem built_networks :
    (∀ (pos : Position) (ms : List Mention) (t : PointTable), (∀ m ∈ ms, m.given.isSome) →
      ∃ step t' ps abs, (Operation.settle ⟨pos, .connect ms⟩).run t = .ok (step, t') ∧
        BuiltNetwork ms t step t' ps abs) ∧
    ∀ (s : Script) (t : PointTable) (pre post : List Operation) (pos : Position)
      (ms : List Mention), s.reading.operations = pre ++ ⟨pos, .connect ms⟩ :: post →
      (∀ m ∈ ms, m.given.isSome) ∧
      ∀ d, s.parse t = .ok d → ∃ t₁ step t₂ ps abs,
        d.StepBetween t pre ⟨pos, .connect ms⟩ post t₁ step t₂ ∧
        BuiltNetwork ms t₁ step t₂ ps abs := by
  refine ⟨fun pos ms t hms => Operation.exists_builtNetwork pos hms t, ?_⟩
  intro s t pre post pos ms hcut
  have hmem : ⟨pos, .connect ms⟩ ∈ s.reading.operations := by simp [hcut]
  have hms : ∀ m ∈ ms, m.given.isSome := Reading.listed_of_mem hmem
  refine ⟨hms, fun d h => ?_⟩
  obtain ⟨t₁, step, t₂, hplace⟩ := exists_stepBetween h hcut
  obtain ⟨step', t₂', ps, abs, hsettle, hbuilt⟩ := Operation.exists_builtNetwork pos hms t₁
  cases hplace.settled.symm.trans hsettle
  exact ⟨t₁, step, t₂, ps, abs, hplace, hbuilt⟩

end Script

/-- A name that is listed twice stands where it was put last. -/
example :
    let a : Mention := ⟨"A", .start, some ⟨0, 0⟩⟩
    let b : Mention := ⟨"B", .start, some ⟨1, 1⟩⟩
    let a' : Mention := ⟨"A", .start, some ⟨2, 2⟩⟩
    ((Operation.settle ⟨.start, .connect [a, b, a']⟩).run (.ofTape ⟨fun _ => 0, 0, 0⟩)).toOption.map
        (·.1.figure.primitives) =
      some [.point "A" ⟨2, 2⟩, .point "B" ⟨1, 1⟩, .point "A" ⟨2, 2⟩,
        .segment ⟨2, 2⟩ ⟨1, 1⟩, .segment ⟨2, 2⟩ ⟨2, 2⟩, .segment ⟨1, 1⟩ ⟨2, 2⟩] := by
  decide

end Planimetry
