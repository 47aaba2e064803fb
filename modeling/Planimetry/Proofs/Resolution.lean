import Mathlib.Data.List.Induction
import Planimetry.PointTable

/-!
# Runs of a table

A table is asked for points one after another, with coordinates or without, or only looked at.
Whatever was asked before, a generated position lies in the box and is free, and it stays with its
name until coordinates are written behind that name.

## Main definitions

* `Query`: what a table can be asked.
* `PointTable.history`: the exchanges of a run.
* `origin`: where the coordinates that a name has at the end of a run came from.

Main statement: `resolution_invariant`, what holds of every run.
-/

namespace Planimetry

/-! ## Single answers -/

namespace PointMap

variable {m : PointMap} {name other : String} {c : Coord}

theorem mem_entries_of_get? (h : m.get? name = some c) : (name, c) ∈ m.entries := by
  obtain ⟨l₁, l₂, he, -⟩ := List.lookup_eq_some_iff.1 h
  simp [he]

theorem get?_of_mem_entries (h : (name, c) ∈ m.entries) : m.get? name = some c := by
  obtain ⟨es, hes⟩ := m
  simp only [get?] at h ⊢
  induction es with
  | nil => cases h
  | cons e es ih =>
    rw [List.lookup_cons]
    rw [List.map_cons, List.nodup_cons] at hes
    rcases List.mem_cons.1 h with rfl | h
    · simp
    · have hne : e.1 ≠ name := by
        rintro rfl
        exact hes.1 (List.mem_map.2 ⟨_, h, rfl⟩)
      rw [beq_eq_false_iff_ne.2 hne.symm]
      exact ih hes.2 h

/-- A position is taken if it is the value of some name. -/
theorem isTaken_iff : m.isTaken c = true ↔ ∃ name, m.get? name = some c := by
  simp only [isTaken, List.any_eq_true, decide_eq_true_eq]
  constructor
  · rintro ⟨⟨name, _⟩, h, rfl⟩
    exact ⟨name, get?_of_mem_entries h⟩
  · rintro ⟨name, h⟩
    exact ⟨_, mem_entries_of_get? h, rfl⟩

theorem get?_insert (m : PointMap) (name other : String) (c : Coord) :
    (m.insert name c).get? other = if other = name then some c else m.get? other := by
  split
  · rename_i h
    rw [h, get?_insert_self]
  · exact get?_insert_of_ne m c ‹_›

end PointMap

/-- A position of the box: column 0 to 3, row 0 to 5. -/
def Coord.InBox (c : Coord) : Prop :=
  (0 ≤ c.x.toInt ∧ c.x.toInt < 4) ∧ 0 ≤ c.y.toInt ∧ c.y.toInt < 6

theorem inBox_boxCell {x y : Nat} (hx : x < 4) (hy : y < 6) : (boxCell x y).InBox := by
  have toInt_ofNat : ∀ n : Nat, n < 6 → (Int32.ofNat n).toInt = n := by decide
  simp only [Coord.InBox, boxCell, toInt_ofNat x (by omega), toInt_ofNat y hy]
  omega

theorem inBox_of_drawCell {t t' : Tape} {c : Coord} (h : drawCell t = some (c, t')) : c.InBox := by
  obtain ⟨⟨x, t₁⟩, hx, h⟩ := Option.bind_eq_some_iff.1 h
  obtain ⟨⟨y, t₂⟩, hy, h⟩ := Option.map_eq_some_iff.1 h
  cases h
  exact inBox_boxCell (Tape.lt_of_roll (by decide) hx) (Tape.lt_of_roll (by decide) hy)

theorem PointMap.drawFree_spec {m : PointMap} {t t' : Tape} {c : Coord}
    (h : m.drawFree t = some (c, t')) : c.InBox ∧ m.isTaken c = false := by
  fun_induction drawFree m t with
  | case1 => cases h
  | case2 t c' t₁ e taken ih => exact ih h
  | case3 t c' t₁ e free =>
    cases h
    exact ⟨inBox_of_drawCell e, by simpa using free⟩

namespace PointTable

variable {t : PointTable} {name other : String} {given : Option Coord} {c : Coord}

theorem generate_spec {tape : Tape} (h : t.generate = .ok (c, tape)) :
    c.InBox ∧ ∀ name, t.points.get? name ≠ some c := by
  unfold generate at h
  split at h
  · cases h
  · split at h
    · rename_i r hr
      cases h
      obtain ⟨hbox, hfree⟩ := PointMap.drawFree_spec hr
      refine ⟨hbox, fun name hname => ?_⟩
      rw [PointMap.isTaken_iff.2 ⟨name, hname⟩] at hfree
      cases hfree
    · cases h

theorem lookup_ne_generated (t : PointTable) (name : String) : (t.lookup name).2 ≠ .generated := by
  unfold lookup
  split <;> simp

end PointTable

/-! ## Exchanges -/

/-- What a table can be asked. -/
inductive Query where
  | resolve (name : String) (given : Option Coord)
  | lookup (name : String)
deriving DecidableEq

namespace Query

def name : Query → String
  | resolve name _ => name
  | lookup name => name

/-- The answer to a query, and the table behind it. -/
def ask : Query → PointTable → Except ResolveFault (Coord × Provenance) × PointTable
  | resolve name given, t => t.resolve name given
  | lookup name, t => (.ok (t.lookup name), t)

end Query

/-- A query with its answer, and the tables before and behind it. -/
structure Exchange where
  before : PointTable
  query : Query
  answer : Except ResolveFault (Coord × Provenance)
  after : PointTable

namespace Exchange

def ofQuery (t : PointTable) (q : Query) : Exchange := ⟨t, q, (q.ask t).1, (q.ask t).2⟩

/-- Whether the answer is a position that was generated for `name`. -/
def generates (name : String) (e : Exchange) : Bool :=
  e.query.name = name && e.answer.toOption.any (·.2 = .generated)

/-- Where the exchange got new coordinates for `name` from, if it gave it some. -/
def gives? (e : Exchange) (name : String) : Option Provenance :=
  if e.query.name = name then
    (e.answer.toOption.map Prod.snd).filter fun p => p = .explicit || p = .generated
  else none

/-- What holds of an exchange in any run. -/
structure Lawful (e : Exchange) : Prop where
  /-- A generated position lies in the box and is not the value of any name. -/
  generated_free {c : Coord} : e.answer = .ok (c, .generated) →
    c.InBox ∧ ∀ name, e.before.points.get? name ≠ some c
  /-- Written coordinates count, and they replace what the table had. -/
  explicit_wins {name : String} {c : Coord} : e.query = .resolve name (some c) →
    e.answer = .ok (c, .explicit) ∧ e.after.points.get? name = some c
  /-- Without them the table answers what it has. -/
  known_kept {name : String} {c : Coord} : e.query = .resolve name none →
    e.before.points.get? name = some c →
      e.answer = .ok (c, .known) ∧ e.after.points.get? name = some c
  /-- Only a name that the table does not have gets a generated position, which it keeps. -/
  generated_new {c : Coord} : e.answer = .ok (c, .generated) →
    e.before.points.get? e.query.name = none ∧ e.after.points.get? e.query.name = some c
  others_kept {other : String} : other ≠ e.query.name →
    e.after.points.get? other = e.before.points.get? other
  lookup_idle {name : String} : e.query = .lookup name → e.after = e.before

/-- The ways of an exchange. -/
inductive Way : Exchange → Prop where
  | explicit (t : PointTable) (name : String) (c : Coord) :
      Way ⟨t, .resolve name (some c), .ok (c, .explicit), t.insert name c⟩
  | known {t : PointTable} {name : String} {c : Coord} (h : t.points.get? name = some c) :
      Way ⟨t, .resolve name none, .ok (c, .known), t⟩
  | generated {t : PointTable} {name : String} {c : Coord} {tape : Tape}
      (h : t.points.get? name = none) (hg : t.generate = .ok (c, tape)) :
      Way ⟨t, .resolve name none, .ok (c, .generated), { t with tape := tape }.insert name c⟩
  | refused {t : PointTable} {name : String} {e : ResolveFault}
      (h : t.points.get? name = none) (hg : t.generate = .error e) :
      Way ⟨t, .resolve name none, .error e, t⟩
  | lookup (t : PointTable) (name : String) :
      Way ⟨t, .lookup name, .ok (t.lookup name), t⟩

theorem way_ofQuery (t : PointTable) (q : Query) : (ofQuery t q).Way := by
  cases q with
  | lookup name => exact .lookup t name
  | resolve name given =>
    simp only [ofQuery, Query.ask, PointTable.resolve]
    cases given with
    | some c => exact .explicit t name c
    | none =>
      dsimp only
      split
      · exact .known ‹_›
      · split
        · exact .generated ‹_› ‹_›
        · exact .refused ‹_› ‹_›

theorem Way.lawful {e : Exchange} (h : e.Way) : e.Lawful := by
  cases h with
  | explicit t name c =>
    exact {
      generated_free := nofun
      explicit_wins := by rintro _ _ ⟨⟩; exact ⟨rfl, PointMap.get?_insert_self ..⟩
      known_kept := nofun
      generated_new := nofun
      others_kept := PointMap.get?_insert_of_ne _ _
      lookup_idle := nofun }
  | @known t name c h =>
    exact {
      generated_free := nofun
      explicit_wins := nofun
      known_kept := by rintro _ d ⟨⟩ hd; cases h.symm.trans hd; exact ⟨rfl, h⟩
      generated_new := nofun
      others_kept _ := rfl
      lookup_idle _ := rfl }
  | @generated t name c tape h hg =>
    exact {
      generated_free := by rintro _ ⟨⟩; exact PointTable.generate_spec hg
      explicit_wins := nofun
      known_kept := by rintro _ d ⟨⟩ hd; cases h.symm.trans hd
      generated_new := by rintro _ ⟨⟩; exact ⟨h, PointMap.get?_insert_self ..⟩
      others_kept := PointMap.get?_insert_of_ne _ _
      lookup_idle := nofun }
  | @refused t name e h hg =>
    exact {
      generated_free := nofun
      explicit_wins := nofun
      known_kept := by rintro _ d ⟨⟩ hd; cases h.symm.trans hd
      generated_new := nofun
      others_kept _ := rfl
      lookup_idle _ := rfl }
  | lookup t name =>
    have hne : ∀ c, Except.ok (t.lookup name) ≠ (.ok (c, .generated) : Except ResolveFault _) :=
      fun c h => t.lookup_ne_generated name (congrArg Prod.snd (Except.ok.inj h))
    exact {
      generated_free h := absurd h (hne _)
      explicit_wins := nofun
      known_kept := nofun
      generated_new h := absurd h (hne _)
      others_kept _ := rfl
      lookup_idle _ := rfl }

variable {e : Exchange} {name : String}

/-- A name stays in the table. -/
theorem Way.isSome_get? (h : e.Way) (hn : (e.before.points.get? name).isSome) :
    (e.after.points.get? name).isSome := by
  cases h with
  | explicit | generated =>
    simp only [PointTable.insert, PointMap.get?_insert]
    split
    · rfl
    · exact hn
  | known | refused | lookup => exact hn

theorem generates_iff : e.generates name = true ↔
    e.query.name = name ∧ ∃ c, e.answer = .ok (c, .generated) := by
  unfold generates
  cases e.answer with
  | error x => simp [Except.toOption]
  | ok a => cases a; simp [Except.toOption]

end Exchange

/-! ## Runs -/

namespace PointTable

/-- The table behind a run. -/
def askAll (t : PointTable) (qs : List Query) : PointTable :=
  qs.foldl (fun t q => (Exchange.ofQuery t q).after) t

/-- The exchanges of a run, each on the table that the one before it left. -/
def history (t : PointTable) : List Query → List Exchange
  | [] => []
  | q :: qs => .ofQuery t q :: (Exchange.ofQuery t q).after.history qs

theorem history_append (t : PointTable) (qs qs' : List Query) :
    t.history (qs ++ qs') = t.history qs ++ (t.askAll qs).history qs' := by
  induction qs generalizing t with
  | nil => rfl
  | cons q qs ih => simp [history, askAll, ih]

theorem askAll_append (t : PointTable) (qs qs' : List Query) :
    t.askAll (qs ++ qs') = (t.askAll qs).askAll qs' :=
  List.foldl_append

theorem askAll_concat (t : PointTable) (qs : List Query) (q : Query) :
    t.askAll (qs ++ [q]) = (Exchange.ofQuery (t.askAll qs) q).after := by
  simp [askAll]

theorem way_of_mem_history {t : PointTable} {qs : List Query} {e : Exchange}
    (h : e ∈ t.history qs) : e.Way := by
  induction qs generalizing t with
  | nil => cases h
  | cons q qs ih =>
    rcases List.mem_cons.1 h with rfl | h
    · exact Exchange.way_ofQuery t q
    · exact ih h

/-- No position is generated for a name that the table has. -/
theorem countP_generates_of_isSome {t : PointTable} {name : String} (qs : List Query)
    (h : (t.points.get? name).isSome) : (t.history qs).countP (Exchange.generates name) = 0 := by
  induction qs generalizing t with
  | nil => rfl
  | cons q qs ih =>
    have hway := Exchange.way_ofQuery t q
    have hq : ¬ (Exchange.ofQuery t q).generates name = true := by
      intro hgen
      obtain ⟨rfl, c, hc⟩ := Exchange.generates_iff.1 hgen
      have hnone : t.points.get? q.name = none := (hway.lawful.generated_new hc).1
      simp [Exchange.ofQuery, hnone] at h
    rw [history, List.countP_cons_of_neg hq]
    exact ih (hway.isSome_get? h)

/-- In the life of a table a name gets a generated position at most once. -/
theorem countP_generates_le (t : PointTable) (qs : List Query) (name : String) :
    (t.history qs).countP (Exchange.generates name) ≤ 1 := by
  induction qs generalizing t with
  | nil => simp [history]
  | cons q qs ih =>
    by_cases hgen : (Exchange.ofQuery t q).generates name
    · obtain ⟨rfl, c, hc⟩ := Exchange.generates_iff.1 hgen
      have hafter := ((Exchange.way_ofQuery t q).lawful.generated_new hc).2
      have hnone := countP_generates_of_isSome qs (Option.isSome_of_eq_some hafter)
      rw [history, List.countP_cons_of_pos hgen]
      omega
    · rw [history, List.countP_cons_of_neg hgen]
      exact ih _

end PointTable

/-! ## Generated positions stay apart -/

/-- Where a run got the last coordinates from that it gave to `name`. -/
def origin (h : List Exchange) (name : String) : Option Provenance :=
  (h.filterMap (·.gives? name)).getLast?

theorem origin_concat (h : List Exchange) (e : Exchange) (name : String) :
    origin (h ++ [e]) name = (e.gives? name).or (origin h name) := by
  unfold origin
  cases he : e.gives? name <;> simp [List.filterMap_append, he]

/-- All names of a set have coordinates, and no two of them have the same. -/
structure PointMap.Apart (m : PointMap) (names : String → Prop) : Prop where
  held {a : String} : names a → (m.get? a).isSome
  apart {a b : String} : names a → names b → a ≠ b → m.get? a ≠ m.get? b

/-- What an exchange does to the coordinates of the names: nothing, or it gives one of them new
ones, and those are free if they are generated. -/
theorem Exchange.Way.effect {e : Exchange} (h : e.Way) :
    ((∀ a, e.gives? a = none) ∧ e.after.points = e.before.points) ∨
    ∃ name c p, (∀ a, e.gives? a = if name = a then some p else none) ∧
      e.after.points = e.before.points.insert name c ∧
      (p = .generated → ∀ b, e.before.points.get? b ≠ some c) := by
  cases h with
  | explicit t name c => exact .inr ⟨name, c, .explicit, fun _ => rfl, rfl, nofun⟩
  | @generated t name c tape h hg =>
    exact .inr ⟨name, c, .generated, fun _ => rfl, rfl, fun _ => (PointTable.generate_spec hg).2⟩
  | known h => exact .inl ⟨fun a => by simp [gives?, Except.toOption], rfl⟩
  | refused h hg => exact .inl ⟨fun a => by simp [gives?, Except.toOption], rfl⟩
  | lookup t name =>
    refine .inl ⟨fun a => ?_, rfl⟩
    simp only [gives?, Except.toOption, PointTable.lookup]
    cases t.points.get? name <;> simp

/-- One exchange keeps the generated positions apart. -/
theorem Exchange.Way.apart {e : Exchange} (h : e.Way) {from? : String → Option Provenance}
    (hapart : e.before.points.Apart (from? · = some .generated)) :
    e.after.points.Apart fun name => (e.gives? name).or (from? name) = some .generated := by
  rcases h.effect with ⟨hgives, hpoints⟩ | ⟨name, c, p, hgives, hpoints, hfree⟩
  · simpa [hgives, hpoints] using hapart
  · rw [hpoints]
    constructor
    · intro a ha
      have held := @hapart.held a
      grind [PointMap.get?_insert]
    · intro a b ha hb hab
      have apart := @hapart.apart a b
      grind [PointMap.get?_insert]

/-- A run keeps the generated positions apart. -/
theorem PointTable.apart_askAll (t : PointTable) (qs : List Query) :
    (t.askAll qs).points.Apart (origin (t.history qs) · = some .generated) := by
  induction qs using List.reverseRecOn with
  | nil => exact ⟨nofun, nofun⟩
  | append_singleton qs q ih =>
    have hway := Exchange.way_ofQuery (t.askAll qs) q
    rw [askAll_concat, history_append]
    simp only [history, origin_concat]
    exact hway.apart ih

/-! ## Every run -/

/-- What holds of every run of a table, whatever it holds at first and whatever its tape says: each
exchange is lawful; the positions of two names that were both generated differ; and no name gets a
generated position twice. -/
theorem PointTable.resolution_invariant (t : PointTable) (qs : List Query) :
    (∀ e ∈ t.history qs, e.Lawful) ∧
    (∀ a b, a ≠ b → origin (t.history qs) a = some .generated →
      origin (t.history qs) b = some .generated →
        ∃ c d, (t.askAll qs).points.get? a = some c ∧ (t.askAll qs).points.get? b = some d ∧
          c ≠ d) ∧
    ∀ name, (t.history qs).countP (Exchange.generates name) ≤ 1 := by
  refine ⟨fun e he => (way_of_mem_history he).lawful, ?_, t.countP_generates_le qs⟩
  intro a b hab ha hb
  have hapart := t.apart_askAll qs
  obtain ⟨c, hc⟩ := Option.isSome_iff_exists.1 (hapart.held ha)
  obtain ⟨d, hd⟩ := Option.isSome_iff_exists.1 (hapart.held hb)
  refine ⟨c, d, hc, hd, ?_⟩
  rintro rfl
  exact hapart.apart ha hb hab (hc.trans hd.symm)

end Planimetry
