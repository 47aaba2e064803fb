import Planimetry.Proofs.GeneratedApart
import Planimetry.Proofs.Transcripts

/-!
# The words of a program

Words are read for generated points and influence nothing else. What a program comes to depends on
the words that it reads, and not on those behind them or on how many there are.

## Main definitions

* `Script.wordsRead`: the words that a program reads.
* `Script.ComesThrough`: the program does not run out of words.
* `Script.SameRun`: two runs of a program that nobody can tell apart.
* `Script.WordLaw`: what is to be said about the words that a program reads.

Main statement: `Script.words_decide`.
-/

namespace Planimetry

/-! ## Tapes behind mentions -/

/-- A generated point takes words, and no other point does. -/
theorem Mention.Becomes.read_spec {m : Mention} {p : Point} {t t' : PointTable}
    (h : m.Becomes t p t') :
    t.tape.read ≤ t'.tape.read ∧ (t'.tape.read = t.tape.read ↔ p.source ≠ .generated) := by
  cases h with
  | given | known => exact ⟨Nat.le_refl _, fun _ => nofun, fun _ => rfl⟩
  | @generated c tape hm hn hg =>
    obtain ⟨ws, hne, hws, rfl, -⟩ := PointTable.exists_words_of_generate hg
    have hpos : 0 < ws.length := List.length_pos_iff.2 hne
    simp only [PointTable.insert, Tape.skip]
    grind

theorem Resolves.read_spec {t t' : PointTable} {rs : List (Mention × Point)}
    (h : Resolves t rs t') :
    t.tape.read ≤ t'.tape.read ∧
      (t'.tape.read = t.tape.read ↔ ∀ r ∈ rs, r.2.source ≠ .generated) := by
  induction h with
  | nil t => simp
  | cons hm _ ih =>
    obtain ⟨hle, hfirst⟩ := hm.read_spec
    obtain ⟨hle', hrest⟩ := ih
    rw [List.forall_mem_cons, ← hfirst, ← hrest]
    omega

/-! ## Runs that nobody can tell apart -/

/-- The compilations differ at most in what is left of their tapes. -/
structure Compilation.Same (c c' : Compilation) : Prop where
  scene : c.drawing.SameScene c'.drawing
  diagnostics : c.diagnostics = c'.diagnostics

namespace Script

variable {s : Script} {t t' : PointTable} {tape : Tape} {d : Drawing}

/-- The words that a program reads. -/
def wordsRead (s : Script) (t : PointTable) : List UInt32 := wordsOf (s.transcript t)

/-- The program does not run out of words. -/
def ComesThrough (s : Script) (t : PointTable) : Prop :=
  ∀ e, s.reading.draw t = .error (.geometry e) → ¬ e.WantsWords

/-- The program reads the same words from both tables, and it comes to the same: the same tree,
primitives, points and diagnostics and the same exported text, or the same fault. -/
structure SameRun (s : Script) (t t' : PointTable) : Prop where
  comesThrough : s.ComesThrough t'
  wordsRead : s.wordsRead t' = s.wordsRead t
  compilation (g : Grid) (sink : Sink) :
    Related Eq Compilation.Same (s.compile t g sink).1 (s.compile t' g sink).1
  exported (g : Grid) (sink : Sink) : (s.compile t' g sink).2 = (s.compile t g sink).2

theorem comesThrough_iff : s.ComesThrough t ↔ s.reading.settle.ComesThrough t := by
  unfold ComesThrough Settling.ComesThrough
  simp only [Reading.draw_eq_geometry_iff]

theorem comesThrough_of_parse (h : s.parse t = .ok d) : s.ComesThrough t := by
  intro e he
  rw [parse_eq_ok_iff.1 h] at he
  cases he

/-- What is compiled is what is parsed. -/
theorem compile_of_sameScene (h : Related Eq Drawing.SameScene (s.parse t) (s.parse t')) (g : Grid)
    (sink : Sink) :
    Related Eq Compilation.Same (s.compile t g sink).1 (s.compile t' g sink).1 ∧
      (s.compile t' g sink).2 = (s.compile t g sink).2 := by
  unfold compile compileTo
  generalize s.parse t = r, s.parse t' = r' at h
  cases h with
  | error he => exact ⟨.error he, rfl⟩
  | @ok d d' hd =>
    simp only [← hd.primitives]
    split
    · exact ⟨.ok ⟨hd, by rw [hd.tree]⟩, rfl⟩
    · exact ⟨.error rfl, rfl⟩

/-! ## What the words decide -/

/-- A program that does not run out of words finds the words that it reads, and it would do so on
every tape that begins with them. -/
theorem spelled (h : s.ComesThrough t) :
    t.tape.Begins (s.wordsRead t) ∧
      ∃ r, Settling.Spelled s.reading.settle s.reading.transcript t.points (s.wordsRead t) r :=
  s.reading.told_settle.spelled (comesThrough_iff.1 h)

theorem sameRun_of_begins (h : s.ComesThrough t) (htape : tape.Begins (s.wordsRead t)) :
    s.SameRun t ⟨t.points, tape⟩ := by
  obtain ⟨hws, r, hr⟩ := spelled h
  have hrun := hr.run_eq hws
  obtain ⟨hrun', hwords⟩ := hr tape htape
  have hcomes : s.ComesThrough ⟨t.points, tape⟩ := by
    rw [comesThrough_iff] at h ⊢
    intro e he
    rw [hrun'] at he
    cases r with
    | error =>
      cases he
      exact h e hrun
    | ok a => cases he
  have hparse : Related Eq Drawing.SameScene (s.parse t) (s.parse ⟨t.points, tape⟩) := by
    unfold parse
    rw [Reading.draw_eq, Reading.draw_eq, hrun, hrun']
    cases r with
    | error e => exact .error rfl
    | ok a =>
      dsimp only [Settling.leaving, Except.map]
      cases s.reading.stop with
      | none => exact .ok ⟨rfl, rfl, rfl⟩
      | some stop => exact .error rfl
  exact ⟨hcomes, hwords, fun g sink => (compile_of_sameScene hparse g sink).1,
    fun g sink => (compile_of_sameScene hparse g sink).2⟩

/-- The table behind a program has the tape without the words that were read. -/
theorem tape_of_parse (h : s.parse t = .ok d) :
    d.table.tape = t.tape.skip (s.wordsRead t).length := by
  obtain ⟨hws, r, hr⟩ := spelled (comesThrough_of_parse h)
  obtain ⟨ss, hrun⟩ := Reading.exists_settle_of_draw (parse_eq_ok_iff.1 h)
  have hleft := hrun.symm.trans (hr.run_eq hws)
  cases r with
  | error e => cases hleft
  | ok a => exact congrArg (·.2.tape) (Except.ok.inj hleft)

/-- A transcript is a run of the table, which the program changes in no other way. -/
theorem exists_history_transcript (s : Script) (t : PointTable) :
    ∃ qs, s.transcript t = t.history qs ∧ ∀ d, s.parse t = .ok d → d.table = t.askAll qs := by
  obtain ⟨qs, hhistory, htable⟩ := s.reading.told_settle.asked t
  refine ⟨qs, hhistory, fun d h => ?_⟩
  obtain ⟨ss, hrun⟩ := Reading.exists_settle_of_draw (parse_eq_ok_iff.1 h)
  exact htable ss d.table hrun

/-- All words that a program reads are needed. -/
theorem not_comesThrough_of_lt (h : s.ComesThrough t) {left : Nat}
    (hleft : left < (s.wordsRead t).length) :
    ¬ s.ComesThrough ⟨t.points, { t.tape with left }⟩ := by
  intro hshort
  obtain ⟨hws, -⟩ := spelled h
  obtain ⟨hws', r, hr⟩ := spelled hshort
  -- What is read from the shorter tape could be read from the longer one as well.
  have hlonger : t.tape.Begins (s.wordsRead ⟨t.points, { t.tape with left }⟩) := by
    have hshorter : (s.wordsRead ⟨t.points, { t.tape with left }⟩).length ≤ left := hws'.left
    have hlength := hws.left
    exact ⟨by omega, hws'.next⟩
  have hsame : s.wordsRead t = s.wordsRead ⟨t.points, { t.tape with left }⟩ := (hr t.tape hlonger).2
  have hshorter : (s.wordsRead ⟨t.points, { t.tape with left }⟩).length ≤ left := hws'.left
  rw [← hsame] at hshorter
  omega

theorem way_of_mem_transcript {e : Exchange} (h : e ∈ s.transcript t) : e.Way :=
  s.reading.told_settle.way h

/-- A program reads no words if it is given no generated answer, and not otherwise. -/
theorem wordsRead_eq_nil_iff :
    s.wordsRead t = [] ↔ ∀ e ∈ s.transcript t, ∀ c, e.answer ≠ .ok (c, .generated) := by
  rw [wordsRead, wordsOf, List.flatMap_eq_nil_iff]
  exact forall₂_congr fun e he => (way_of_mem_transcript he).words_eq_nil_iff

/-- A program that is drawn reads no words if its tree has no generated points, and not otherwise.
-/
theorem wordsRead_eq_nil_iff_of_parse (h : s.parse t = .ok d) :
    s.wordsRead t = [] ↔ ∀ p, ¬ d.Generates p := by
  obtain ⟨rs, -, hps, hrs⟩ := resolves_of_parse h
  have hgenerated : (∀ p, ¬ d.Generates p) ↔ ∀ r ∈ rs, r.2.source ≠ .generated := by
    simp only [generates_iff h, ← hps, List.mem_map]
    grind
  rw [hgenerated, ← hrs.read_spec.2, tape_of_parse h, ← List.length_eq_zero_iff]
  exact Nat.add_eq_left.symm

/-- The words that a program reads, and what they are read for. -/
structure WordLaw (s : Script) (t : PointTable) : Prop where
  /-- The transcript is a run of the table, which the program changes in no other way. -/
  run : ∃ qs, s.transcript t = t.history qs ∧ ∀ d, s.parse t = .ok d → d.table = t.askAll qs
  /-- The words stand next on the tape. -/
  begins : t.tape.Begins (s.wordsRead t)
  /-- On every tape that begins with them the program comes to the same. -/
  same {tape : Tape} : tape.Begins (s.wordsRead t) → s.SameRun t ⟨t.points, tape⟩
  /-- It needs them all. -/
  needed {left : Nat} : left < (s.wordsRead t).length →
    ¬ s.ComesThrough ⟨t.points, { t.tape with left }⟩
  /-- They are gone from the tape behind the program, and no others are. -/
  behind {d : Drawing} : s.parse t = .ok d → d.table.tape = t.tape.skip (s.wordsRead t).length
  /-- A point that is given, known, looked up or refused leaves the tape alone. -/
  idle {e : Exchange} : e ∈ s.transcript t → (∀ c, e.answer ≠ .ok (c, .generated)) →
    e.after.tape = e.before.tape
  /-- Words are read if a position is generated, and not otherwise. -/
  none_iff : s.wordsRead t = [] ↔ ∀ e ∈ s.transcript t, ∀ c, e.answer ≠ .ok (c, .generated)
  none_iff_of_parse {d : Drawing} : s.parse t = .ok d →
    (s.wordsRead t = [] ↔ ∀ p, ¬ d.Generates p)
  /-- A program that reads no words comes to the same on every tape. -/
  same_of_none : s.wordsRead t = [] → ∀ tape, s.SameRun t ⟨t.points, tape⟩

/-- The words that a program reads decide what it comes to. They are read for generated points: a
program whose points are all given, known, looked up, computed or refused reads none. -/
theorem words_decide (h : s.ComesThrough t) : s.WordLaw t where
  run := exists_history_transcript s t
  begins := (spelled h).1
  same := sameRun_of_begins h
  needed := not_comesThrough_of_lt h
  behind := tape_of_parse
  idle {e} he hnone := by
    have hway := way_of_mem_transcript he
    rw [hway.tape_after.2, hway.words_eq_nil_iff.2 hnone]
    rfl
  none_iff := wordsRead_eq_nil_iff
  none_iff_of_parse := wordsRead_eq_nil_iff_of_parse
  same_of_none hnil tape := by
    apply sameRun_of_begins h
    rw [hnil]
    exact tape.begins_nil

/-- Two generated points take four words here, and on every tape that begins with these words the
script comes to the same. -/
theorem four_words_of_movedAway :
    movedAway.ComesThrough fourZeros ∧ movedAway.wordsRead fourZeros = [0, 0, 0, 0] ∧
      ∀ tape : Tape, tape.Begins [0, 0, 0, 0] →
        movedAway.SameRun fourZeros ⟨.empty, tape⟩ := by
  obtain ⟨d, hparse, -, -⟩ := exists_parse_movedAway
  have hwords : movedAway.wordsRead fourZeros = [0, 0, 0, 0] := by decide +kernel
  have h : movedAway.ComesThrough fourZeros := comesThrough_of_parse hparse
  have hlaw : movedAway.WordLaw fourZeros := words_decide h
  refine ⟨h, hwords, fun tape htape => ?_⟩
  apply hlaw.same
  rwa [hwords]

end Script

end Planimetry
