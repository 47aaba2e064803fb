import Planimetry.Proofs.Resolution
import Planimetry.Proofs.Steps

/-!
# Where the points of a figure come from

The points of a figure are asked of the table in the order in which its command mentions them. A
point with coordinates that nobody gave it was not known before its command, and a point that is
put is known from then on.

## Main definitions

* `Provenance.isInvented`: the coordinates were given by nobody.
* `Figure.Sourced`: where the points of a figure can come from.
* `Trail`: steps that are taken one after another.

Main statement: `Reading.trail_of_steps`.
-/

namespace Planimetry

namespace Provenance

/-- Whether nobody gave the coordinates. -/
def isInvented : Provenance → Bool
  | generated | defaulted => true
  | explicit | known | derived => false

/-- What a mentioned point can come from. -/
def mentioned : List Provenance := [explicit, known, generated]

/-- What an end of a segment can come from if the table is only looked at. -/
def lookedUp : List Provenance := [known, defaulted]

end Provenance

open Provenance (mentioned lookedUp)

namespace PointTable

variable {t t' t'' : PointTable}

def Knows (t : PointTable) (name : String) : Prop := (t.points.get? name).isSome

/-- What the first table knows is known to the second one. -/
def Grows (t t' : PointTable) : Prop := ∀ name, t.Knows name → t'.Knows name

theorem knows_insert_self (t : PointTable) (name : String) (c : Coord) :
    (t.insert name c).Knows name :=
  Option.isSome_of_eq_some (PointMap.get?_insert_self _ _ _)

theorem grows_insert (t : PointTable) (name : String) (c : Coord) : t.Grows (t.insert name c) := by
  intro other h
  unfold Knows insert at *
  rw [PointMap.get?_insert]
  split
  · rfl
  · exact h

theorem Grows.refl (t : PointTable) : t.Grows t := fun _ h => h

theorem Grows.trans (h : t.Grows t') (h' : t'.Grows t'') : t.Grows t'' :=
  fun name hname => h' name (h name hname)

end PointTable

/-- If the point is invented, the table does not know its name. -/
def Point.Unheld (t : PointTable) (p : Point) : Prop := p.source.isInvented → ¬ t.Knows p.name

theorem Point.unheld_of_given {t : PointTable} {p : Point} (h : p.source.isInvented = false) :
    p.Unheld t := by
  intro hinv
  rw [h] at hinv
  cases hinv

/-- The point comes from one of `sources`, and the table gave it if it could. -/
structure Point.From (t : PointTable) (sources : List Provenance) (p : Point) : Prop where
  source : p.source ∈ sources
  unheld : p.Unheld t

namespace Point.From

variable {t t' : PointTable} {p : Point}

theorem ne_defaulted (h : p.From t mentioned) : p.source ≠ .defaulted := by
  intro e
  have hsource := h.source
  rw [e] at hsource
  simp [mentioned] at hsource

theorem ne_generated (h : p.From t lookedUp) : p.source ≠ .generated := by
  intro e
  have hsource := h.source
  rw [e] at hsource
  simp [lookedUp] at hsource

/-- Only a given point among those mentioned brings its coordinates along. -/
theorem not_carriesCoords (h : p.From t mentioned) (hp : p.source ≠ .explicit) :
    p.source.carriesCoords = false := by
  have hsource : p.source = .known ∨ p.source = .generated := by
    simpa [mentioned, hp] using h.source
  rcases hsource with e | e
  all_goals
    rw [e]
    rfl

theorem not_carriesCoords_of_lookedUp (h : p.From t lookedUp) :
    p.source.carriesCoords = false := by
  have hsource : p.source = .known ∨ p.source = .defaulted := by simpa [lookedUp] using h.source
  rcases hsource with e | e
  all_goals
    rw [e]
    rfl

theorem of_grows {sources : List Provenance} (h : p.From t' sources) (ht : t.Grows t') :
    p.From t sources :=
  ⟨h.source, fun hp hk => h.unheld hp (ht _ hk)⟩

end Point.From

/-- Where the points of a figure come from, if `t` is the table before its command. -/
inductive Figure.Sourced (t : PointTable) : Figure → Prop where
  | point {p : Point} : p.From t mentioned → Sourced t (.point p)
  | network {ps : List Point} : (∀ p ∈ ps, p.From t mentioned) → Sourced t (.network ps)
  | segment {a b : Point} : a.From t mentioned → b.From t mentioned → Sourced t (.segment a b)
  | perpendicular {s : Side} {a b : Point} {arms : Perpendicular} :
      a.From t lookedUp → b.From t lookedUp → Sourced t (.perpendicular s a b arms)
  | triangle {a b c : Point} :
      a.From t mentioned → b.From t mentioned → c.From t mentioned → Sourced t (.triangle a b c)
  | square {s : Side} {a b c d : Point} :
      a.From t mentioned → b.From t mentioned → c.source = .derived → d.source = .derived →
        Sourced t (.square s a b c d)

/-! ## Settling -/

theorem Mention.from_of_settle {m : Mention} {p : Point} {t t' : PointTable}
    (h : m.settle.run t = .ok (p, t')) :
    p.name = m.name ∧ p.From t mentioned ∧ t'.Knows p.name ∧ t.Grows t' := by
  cases becomes_of_settle h with
  | @given c c' hg =>
    have holds := t.knows_insert_self m.name c
    exact ⟨rfl, ⟨by simp [mentioned], Point.unheld_of_given rfl⟩, holds, t.grows_insert m.name c⟩
  | known hg hk =>
    have holds := Option.isSome_of_eq_some hk
    exact ⟨rfl, ⟨by simp [mentioned], Point.unheld_of_given rfl⟩, holds, .refl t⟩
  | @generated c tape hg hn hgen =>
    have unknown : ¬ t.Knows m.name := by simp [PointTable.Knows, hn]
    have holds := PointTable.knows_insert_self { t with tape } m.name c
    have hgrows : t.Grows ({ t with tape }.insert m.name c) := t.grows_insert m.name c
    exact ⟨rfl, ⟨by simp [mentioned], fun _ => unknown⟩, holds, hgrows⟩

theorem Mention.from_of_settleAll {ms : List Mention} {ps : List Point} {t t' : PointTable}
    (h : (ms.mapM settle).run t = .ok (ps, t')) :
    (∀ p ∈ ps, p.From t mentioned) ∧ t.Grows t' := by
  induction ms generalizing t ps with
  | nil =>
    cases h
    exact ⟨by simp, .refl _⟩
  | cons m ms ih =>
    rw [List.mapM_cons] at h
    obtain ⟨p, t₁, hp, h⟩ := Settling.bind_eq_ok_iff.1 h
    obtain ⟨ps, t₂, hps, h⟩ := Settling.bind_eq_ok_iff.1 h
    cases h
    obtain ⟨-, hfrom, -, hgrows⟩ := from_of_settle hp
    obtain ⟨hfroms, hgrows'⟩ := ih hps
    refine ⟨List.forall_mem_cons.2 ⟨hfrom, fun q hq => ?_⟩, hgrows.trans hgrows'⟩
    exact (hfroms q hq).of_grows hgrows

theorem Side.from_lookup (s : Side) (name : String) (t : PointTable) :
    (s.lookup name t).From t lookedUp := by
  unfold lookup PointTable.lookup
  cases h : t.points.get? name with
  | some c => exact ⟨by simp [lookedUp], Point.unheld_of_given rfl⟩
  | none => exact ⟨by simp [lookedUp], fun _ => by simp [PointTable.Knows, h]⟩

/-- What a step does: its points come from the table before it, and the table behind it knows
those that it puts. -/
structure Step.Taken (t : PointTable) (s : Step) (t' : PointTable) : Prop where
  sourced : s.figure.Sourced t
  grows : t.Grows t'
  put {p : Point} : s.figure = .point p → t'.Knows p.name

theorem Operation.taken_of_settle {op : Operation} {s : Step} {t t' : PointTable}
    (h : op.settle.run t = .ok (s, t')) : s.Taken t t' := by
  obtain ⟨-, hc⟩ := settles_of_settle h
  obtain ⟨pos, f⟩ := s
  obtain ⟨pos', c⟩ := op
  cases hc with
  | place hp =>
    obtain ⟨-, hfrom, hknows, hgrows⟩ := Mention.from_of_settle hp
    exact ⟨.point hfrom, hgrows, by rintro _ ⟨⟩; exact hknows⟩
  | connect hps =>
    obtain ⟨hfrom, hgrows⟩ := Mention.from_of_settleAll hps
    refine ⟨.network fun p hp => ?_, hgrows, nofun⟩
    obtain ⟨q, hq, rfl⟩ := List.mem_map.1 hp
    exact ⟨(hfrom q hq).source, (hfrom q hq).unheld⟩
  | segment ha hb =>
    obtain ⟨-, ha, -, hfirst⟩ := Mention.from_of_settle ha
    obtain ⟨-, hb, -, hsecond⟩ := Mention.from_of_settle hb
    exact ⟨.segment ha (hb.of_grows hfirst), hfirst.trans hsecond, nofun⟩
  | @perpendicular s arms =>
    exact ⟨.perpendicular (s.from_lookup _ _) (s.from_lookup _ _), .refl _, nofun⟩
  | triangle ha hb hc =>
    obtain ⟨-, ha, -, hfirst⟩ := Mention.from_of_settle ha
    obtain ⟨-, hb, -, hsecond⟩ := Mention.from_of_settle hb
    obtain ⟨-, hc, -, hthird⟩ := Mention.from_of_settle hc
    have hboth := hfirst.trans hsecond
    exact ⟨.triangle ha (hb.of_grows hfirst) (hc.of_grows hboth), hboth.trans hthird, nofun⟩
  | square ha hb =>
    obtain ⟨-, ha, -, hfirst⟩ := Mention.from_of_settle ha
    obtain ⟨-, hb, -, hsecond⟩ := Mention.from_of_settle hb
    exact ⟨.square ha (hb.of_grows hfirst) rfl rfl, hfirst.trans hsecond, nofun⟩

/-! ## Trails -/

/-- Steps that are taken one after another, each on the table that the one before it left. -/
inductive Trail : PointTable → List Step → PointTable → Prop where
  | nil (t : PointTable) : Trail t [] t
  | cons {t t' t'' : PointTable} {s : Step} {ss : List Step} :
      s.Taken t t' → Trail t' ss t'' → Trail t (s :: ss) t''

/-- The steps of a reading are taken one after another. -/
theorem Reading.trail_of_steps {r : Reading} {ss : List Step} {t t' : PointTable}
    (h : r.steps t = .ok (ss, t')) : Trail t ss t' := by
  obtain ⟨ops, stop⟩ := r
  induction ops generalizing t ss with
  | nil =>
    obtain rfl : stop = none := stop_eq_none_of_steps h
    cases h
    exact .nil _
  | cons op ops ih =>
    obtain ⟨s, t₁, ss, hop, hss, rfl⟩ := exists_of_steps_cons h
    exact .cons (Operation.taken_of_settle hop) (ih hss)

end Planimetry
