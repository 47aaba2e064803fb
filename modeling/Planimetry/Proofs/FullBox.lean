import Mathlib.Data.List.Perm.Subperm
import Planimetry.Proofs.Resolution

/-!
# Full boxes

A table that has to generate a position refuses to do so if each position of the box is the value of
some name. From an empty table as many names get a position as the box has positions, and then the
box is full.

## Main definitions

* `PointMap.Full`: no position of the box is free.
* `PointMap.Holds`: the names of a map and the positions at which they stand.

Main statement: `PointTable.fill_box`.
-/

namespace Planimetry

/-! ## The box -/

theorem Coord.InBox.exists_boxCell {c : Coord} (h : c.InBox) :
    ∃ x < 4, ∃ y < 6, c = boxCell x y := by
  obtain ⟨⟨hx, hx'⟩, hy, hy'⟩ := h
  have ofNat_toInt {n : Int32} (hn : 0 ≤ n.toInt) : Int32.ofNat n.toInt.toNat = n := by
    rw [← Int32.ofInt_eq_ofNat, Int.toNat_of_nonneg hn, Int32.ofInt_toInt]
  refine ⟨c.x.toInt.toNat, by omega, c.y.toInt.toNat, by omega, ?_⟩
  rw [boxCell, ofNat_toInt hx, ofNat_toInt hy]

theorem mem_box_iff {c : Coord} : c ∈ box ↔ c.InBox := by
  simp only [box, List.mem_flatMap, List.mem_map, List.mem_range]
  constructor
  · rintro ⟨x, hx, y, hy, rfl⟩
    exact inBox_boxCell hx hy
  · intro h
    obtain ⟨x, hx, y, hy, rfl⟩ := h.exists_boxCell
    exact ⟨x, hx, y, hy, rfl⟩

theorem nodup_box : box.Nodup := by decide

theorem length_box : box.length = 24 := by decide

namespace PointMap

/-- Each position of the box is the value of some name. -/
def Full (m : PointMap) : Prop := ∀ c : Coord, c.InBox → ∃ name, m.get? name = some c

theorem full_iff {m : PointMap} : m.Full ↔ box.all m.isTaken = true := by
  simp only [Full, List.all_eq_true, isTaken_iff, mem_box_iff]

/-- The map knows no other names than these, and they stand at these positions. -/
structure Holds (m : PointMap) (names : List String) (cs : List Coord) : Prop where
  known {name : String} : (m.get? name).isSome → name ∈ names
  taken {c : Coord} : (∃ name, m.get? name = some c) ↔ c ∈ cs

variable {m : PointMap} {names : List String} {cs : List Coord} {name : String} {c : Coord}

theorem holds_empty : empty.Holds [] [] where
  known h := by simp at h
  taken := by simp

theorem Holds.get?_of_notMem (h : m.Holds names cs) (hname : name ∉ names) :
    m.get? name = none := by
  by_contra hne
  exact hname (h.known (Option.isSome_iff_ne_none.2 hne))

/-- A new name stands at its position beside the others. -/
theorem Holds.insert (h : m.Holds names cs) (hname : name ∉ names) (c : Coord) :
    (m.insert name c).Holds (names ++ [name]) (cs ++ [c]) where
  known {other} hother := by
    rw [get?_insert] at hother
    split at hother
    · simp [*]
    · simp [h.known hother]
  taken {c'} := by
    rw [List.mem_append, ← h.taken, List.mem_singleton]
    constructor
    · rintro ⟨other, hother⟩
      rw [get?_insert] at hother
      split at hother
      · exact .inr (Option.some.inj hother).symm
      · exact .inl ⟨other, hother⟩
    · rintro (⟨other, hother⟩ | rfl)
      · have hne : other ≠ name := by
          rintro rfl
          rw [h.get?_of_notMem hname] at hother
          cases hother
        exact ⟨other, by rw [get?_insert, if_neg hne, hother]⟩
      · exact ⟨name, get?_insert_self ..⟩

/-- A full box has at least as many positions taken as it has positions. -/
theorem Holds.length_le_of_full (h : m.Holds names cs) (hfull : m.Full) : 24 ≤ cs.length := by
  have hsub : box ⊆ cs := fun c hc => h.taken.1 (hfull c (mem_box_iff.1 hc))
  rw [← length_box]
  exact (nodup_box.subperm hsub).length_le

end PointMap

/-! ## Refused points -/

namespace PointTable

variable {t : PointTable} {name : String} {given : Option Coord}

theorem generate_eq_boxFull_iff : t.generate = .error .boxFull ↔ t.points.Full := by
  rw [PointMap.full_iff]
  unfold generate
  split
  · simp [*]
  · split <;> simp [*]

/-- An unknown name without coordinates gets what is generated. -/
theorem resolve_of_get?_eq_none (h : t.points.get? name = none) :
    t.resolve name none =
      match t.generate with
      | .ok (c, tape) => (.ok (c, .generated), { t with tape }.insert name c)
      | .error e => (.error e, t) := by
  cases hg : t.generate with
  | ok r => simp [resolve, h, hg]
  | error e => simp [resolve, h, hg]

/-- Coordinates and known names are never refused. -/
theorem exists_resolve_eq_ok (h : given.isSome ∨ (t.points.get? name).isSome) :
    ∃ r, (t.resolve name given).1 = .ok r := by
  unfold resolve
  cases given with
  | some c => exact ⟨_, rfl⟩
  | none =>
    obtain ⟨c, hc⟩ := Option.isSome_iff_exists.1 (h.resolve_left (by simp))
    exact ⟨(c, .known), by simp only [hc]⟩

/-- A point is refused if it is unknown, has no coordinates and finds the box full. -/
theorem resolve_eq_boxFull_iff :
    (t.resolve name given).1 = .error .boxFull ↔
      given = none ∧ t.points.get? name = none ∧ t.points.Full := by
  by_cases h : given.isSome ∨ (t.points.get? name).isSome
  · obtain ⟨r, hr⟩ := exists_resolve_eq_ok h
    rw [hr]
    constructor
    · nofun
    · rintro ⟨rfl, hn, -⟩
      simp [hn] at h
  · simp only [not_or, Bool.not_eq_true, Option.isSome_eq_false_iff, Option.isNone_iff_eq_none] at h
    obtain ⟨rfl, hn⟩ := h
    rw [resolve_of_get?_eq_none hn, ← generate_eq_boxFull_iff]
    cases t.generate <;> simp [hn]

theorem eq_of_resolve_eq_error {e : ResolveFault} (h : (t.resolve name given).1 = .error e) :
    (t.resolve name given).2 = t := by
  unfold resolve at h ⊢
  cases given with
  | some c => cases h
  | none =>
    cases hk : t.points.get? name with
    | some c => rfl
    | none =>
      simp only [hk] at h ⊢
      cases hg : t.generate with
      | ok r => simp [hg] at h
      | error x => rfl

/-! ## Filling the box -/

/-- New names get one free position after the other, as long as the box has room for them. -/
theorem exists_history_fresh {tape : Tape} {names : List String} (hnodup : names.Nodup)
    (hlength : names.length ≤ 24)
    (hends : ∀ e ∈ (ofTape tape).history (names.map (.resolve · none)),
      e.answer ≠ .error .tapeEnded) :
    ∃ cs : List Coord,
      ((ofTape tape).history (names.map (.resolve · none))).map Exchange.answer =
        cs.map (fun c => .ok (c, .generated)) ∧
      cs.length = names.length ∧ cs.Nodup ∧ (∀ c ∈ cs, c.InBox) ∧
      ((ofTape tape).askAll (names.map (.resolve · none))).points.Holds names cs := by
  induction names using List.reverseRecOn with
  | nil => exact ⟨[], rfl, rfl, .nil, nofun, PointMap.holds_empty⟩
  | append_singleton names name ih =>
    rw [List.map_append, List.map_singleton, history_append] at hends ⊢
    rw [List.nodup_append] at hnodup
    have hname : name ∉ names := fun h => hnodup.2.2 name h name (by simp) rfl
    rw [List.length_append, List.length_singleton] at hlength ⊢
    obtain ⟨cs, hanswers, hcs, hnodupcs, hbox, hholds⟩ :=
      ih hnodup.1 (by omega) fun e he => hends e (List.mem_append_left _ he)
    rw [askAll_concat, List.map_append, hanswers]
    -- The last name is asked on the table behind the others.
    generalize (ofTape tape).askAll (names.map (.resolve · none)) = t at hholds hends ⊢
    have hresolve := resolve_of_get?_eq_none (hholds.get?_of_notMem hname)
    have hlast : (t.resolve name none).1 ≠ .error .tapeEnded :=
      hends (.ofQuery t (.resolve name none)) (by simp [history])
    simp only [history, Exchange.ofQuery, Query.ask, List.map_cons, List.map_nil]
    cases hg : t.generate with
    | error x =>
      rw [hg] at hresolve
      cases x with
      | tapeEnded => exact absurd (congrArg Prod.fst hresolve) hlast
      | boxFull =>
        have := hholds.length_le_of_full (generate_eq_boxFull_iff.1 hg)
        omega
    | ok r =>
      obtain ⟨c, tape'⟩ := r
      rw [hg] at hresolve
      obtain ⟨hc, hfree⟩ := generate_spec hg
      have hnew : c ∉ cs := fun h => by
        obtain ⟨other, hother⟩ := hholds.taken.2 h
        exact hfree other hother
      rw [hresolve]
      refine ⟨cs ++ [c], by simp, by simp [hcs], ?_, ?_, hholds.insert hname c⟩
      · refine List.nodup_append.2 ⟨hnodupcs, by simp, ?_⟩
        rintro a ha b hb rfl
        exact hnew (List.mem_singleton.1 hb ▸ ha)
      · intro a ha
        rcases List.mem_append.1 ha with ha | ha
        · exact hbox a ha
        · exact List.mem_singleton.1 ha ▸ hc

/-- Twenty-four new names fill the box of an empty table, each position being had once. A further
name is refused then, and the table stays as it is. -/
theorem fill_box {tape : Tape} {names : List String} (hnodup : names.Nodup)
    (hlength : names.length = 24)
    (hends : ∀ e ∈ (ofTape tape).history (names.map (.resolve · none)),
      e.answer ≠ .error .tapeEnded) :
    (∃ cs : List Coord,
      ((ofTape tape).history (names.map (.resolve · none))).map Exchange.answer =
        cs.map (fun c => .ok (c, .generated)) ∧ cs.Perm box) ∧
    ∀ name ∉ names,
      let t := (ofTape tape).askAll (names.map (.resolve · none))
      t.resolve name none = (.error .boxFull, t) := by
  obtain ⟨cs, hanswers, hcs, hnodupcs, hbox, hholds⟩ :=
    exists_history_fresh hnodup (Nat.le_of_eq hlength) hends
  have hperm : cs.Perm box := by
    have hsub : cs ⊆ box := fun c hc => mem_box_iff.2 (hbox c hc)
    have hlength' : box.length ≤ cs.length := by simp [length_box, hcs, hlength]
    exact (hnodupcs.subperm hsub).perm_of_length_le hlength'
  refine ⟨⟨cs, hanswers, hperm⟩, fun name hname => ?_⟩
  have hfull : PointMap.Full _ := fun c hc => hholds.taken.2 (hperm.mem_iff.2 (mem_box_iff.2 hc))
  have hnone := hholds.get?_of_notMem hname
  have hrefused := resolve_eq_boxFull_iff.2 ⟨rfl, hnone, hfull⟩
  exact Prod.ext hrefused (eq_of_resolve_eq_error hrefused)

end PointTable

end Planimetry
