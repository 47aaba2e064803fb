import Planimetry.Proofs.ScriptedDraws
import Planimetry.Proofs.WordUse

/-!
# Runs on scripted tapes

A scripted tape that is long enough never leaves a table without a position as long as the box has a
free one. So every program comes to an end on it, after no more words than can be told beforehand.

## Main definitions

* `Tape.scriptedAt`: a scripted tape at some place.
* `Settling.Within`: the words for a number of positions are enough for a computation.

Main statement: `Script.draws_end`.
-/

namespace Planimetry

open Tape (scriptedWord)

/-- A scripted tape at some place, with a number of words left. -/
def Tape.scriptedAt (words : List UInt32) (place left : Nat) : Tape :=
  ⟨scriptedWord words, place, left⟩

variable {words : List UInt32}

/-! ## Tables on scripted tapes -/

namespace PointTable

/-- As long as the box has room, a position is generated, and the words behind are of no account. -/
theorem exists_generate_scripted {points : PointMap} (hroom : ¬ points.Full) (words : List UInt32)
    (place : Nat) :
    ∃ n ≤ drawBound words, ∃ c, ∀ left, n ≤ left →
      generate ⟨points, .scriptedAt words place left⟩ =
        .ok (c, .scriptedAt words (place + n) (left - n)) := by
  obtain ⟨n, hn, c, hdrawn⟩ :=
    PointMap.exists_drawn_scripted hroom (t := .scriptedAt words place 0) rfl .column
  refine ⟨n, hn, c, fun left hleft => generate_eq_ok_iff.2 ⟨?_, _, hdrawn, ?_, ?_⟩⟩
  · rwa [PointMap.full_iff, Bool.not_eq_true] at hroom
  · exact Tape.begins_next (t := .scriptedAt words place left) hleft
  · rw [Tape.length_next]
    rfl

/-- What a table answers on a long enough tape, it answers on every longer one. -/
theorem exists_resolve_scripted (points : PointMap) (words : List UInt32) (place : Nat)
    (name : String) (given : Option Coord) :
    ∃ n ≤ drawBound words, ∃ answer points', answer ≠ .error .tapeEnded ∧ ∀ left, n ≤ left →
      resolve ⟨points, .scriptedAt words place left⟩ name given =
        (answer, ⟨points', .scriptedAt words (place + n) (left - n)⟩) := by
  cases given with
  | some c =>
    exact ⟨0, Nat.zero_le _, .ok (c, .explicit), points.insert name c, by simp, fun _ _ => rfl⟩
  | none =>
    cases hknown : points.get? name with
    | some c =>
      refine ⟨0, Nat.zero_le _, .ok (c, .known), points, by simp, fun left _ => ?_⟩
      simp only [resolve, hknown]
      rfl
    | none =>
      by_cases hfull : points.Full
      · refine ⟨0, Nat.zero_le _, .error .boxFull, points, by simp, fun left _ => ?_⟩
        rw [resolve_of_get?_eq_none hknown, generate_eq_boxFull_iff.2 hfull]
        rfl
      · obtain ⟨n, hn, c, hc⟩ := exists_generate_scripted hfull words place
        refine ⟨n, hn, .ok (c, .generated), points.insert name c, by simp, fun left hleft => ?_⟩
        rw [resolve_of_get?_eq_none hknown, hc left hleft]
        rfl

theorem exists_ask_scripted (points : PointMap) (words : List UInt32) (place : Nat) (q : Query) :
    ∃ n ≤ drawBound words, ∃ answer points', answer ≠ .error .tapeEnded ∧ ∀ left, n ≤ left →
      q.ask ⟨points, .scriptedAt words place left⟩ =
        (answer, ⟨points', .scriptedAt words (place + n) (left - n)⟩) := by
  cases q with
  | resolve name given => exact exists_resolve_scripted points words place name given
  | lookup name =>
    refine ⟨0, Nat.zero_le _, .ok (lookup ⟨points, .scriptedAt words place 0⟩ name), points, ?_, ?_⟩
    · simp
    · intro left _
      rfl

/-- In a run on a long enough tape no answer is kept back for want of words. -/
theorem answer_of_mem_history_scripted (qs : List Query) {points : PointMap} {place left : Nat}
    (hleft : qs.length * drawBound words ≤ left) {e : Exchange}
    (he : e ∈ history ⟨points, .scriptedAt words place left⟩ qs) :
    e.answer ≠ .error .tapeEnded := by
  induction qs generalizing points place left with
  | nil => cases he
  | cons q qs ih =>
    rw [List.length_cons, Nat.succ_mul] at hleft
    obtain ⟨n, hn, answer, points', hended, hask⟩ := exists_ask_scripted points words place q
    have hfirst := Exchange.ofQuery_eq (hask left (by omega))
    rw [history, hfirst] at he
    rcases List.mem_cons.1 he with rfl | he
    · exact hended
    · exact ih (by omega) he

end PointTable

/-! ## Computations on scripted tapes -/

namespace Settling

variable {α β : Type} {x : Settling α} {f : α → Settling β} {m n : Nat}

/-- On a scripted tape, the words for `n` positions are enough for the computation. -/
def Within (words : List UInt32) (n : Nat) (x : Settling α) : Prop :=
  ∀ t : PointTable, t.tape.word = scriptedWord words → n * drawBound words ≤ t.tape.left →
    x.ComesThrough t ∧ ∀ a t', x.run t = .ok (a, t') →
      t'.tape.word = scriptedWord words ∧ t.tape.left ≤ t'.tape.left + n * drawBound words

theorem within_pure (a : α) : Within words 0 (pure a) := by
  intro t ht hn
  refine ⟨nofun, ?_⟩
  rintro _ _ ⟨⟩
  exact ⟨ht, Nat.le_add_right _ _⟩

theorem within_constructed {pos : Position} {cause : ConstructionFault → GeometryCause}
    (h : ∀ e name c, cause e ≠ .cannotPlace name c) (x : Except ConstructionFault α) :
    Within words 0 (constructed pos cause x) := by
  cases x with
  | ok a => exact within_pure a
  | error e =>
    intro t ht hn
    refine ⟨?_, nofun⟩
    rintro _ ⟨⟩ ⟨name, hcause⟩
    exact h e name _ hcause

theorem within_get {g : PointTable → Settling β} (hg : ∀ t, Within words n (g t)) :
    Within words n (get >>= g) :=
  fun t => hg t t

/-- The words for a sequence are those for its parts. -/
theorem Within.bind (hx : Within words n x) (hf : ∀ a, Within words m (f a)) :
    Within words (n + m) (x >>= f) := by
  intro t ht hn
  rw [Nat.add_mul] at hn ⊢
  obtain ⟨hcomes, hleft⟩ := hx t ht (by omega)
  cases hrun : x.run t with
  | error e =>
    unfold ComesThrough
    rw [run_bind_of_error hrun]
    refine ⟨?_, nofun⟩
    rintro _ ⟨⟩
    exact hcomes e hrun
  | ok r =>
    obtain ⟨a, t₁⟩ := r
    obtain ⟨ht₁, hleft₁⟩ := hleft a t₁ hrun
    obtain ⟨hcomes', hleft'⟩ := hf a t₁ ht₁ (by omega)
    unfold ComesThrough
    rw [run_bind_of_ok hrun]
    refine ⟨hcomes', fun b t' h => ?_⟩
    obtain ⟨ht', hleft₂⟩ := hleft' b t' h
    exact ⟨ht', by omega⟩

theorem Within.bind_still (hx : Within words n x) (hf : ∀ a, Within words 0 (f a)) :
    Within words n (x >>= f) := by
  have hbind := hx.bind hf
  rwa [Nat.add_zero] at hbind

end Settling

open Settling

theorem Mention.within_settle (m : Mention) : Within words 1 m.settle := by
  rintro ⟨points, word, place, left⟩ ht hleft
  obtain rfl : word = scriptedWord words := ht
  obtain ⟨n, hn, answer, points', hended, hresolve⟩ :=
    PointTable.exists_resolve_scripted points words place m.name m.given
  rw [Nat.one_mul] at hleft ⊢
  dsimp only at hleft ⊢
  have hrun := run_settle_of_ask (hresolve left (by omega))
  rw [Tape.scriptedAt] at hrun
  unfold ComesThrough
  rw [hrun]
  cases answer with
  | error x =>
    refine ⟨?_, nofun⟩
    rintro _ ⟨⟩ ⟨name, hcause⟩
    cases hcause
    exact hended rfl
  | ok r =>
    refine ⟨nofun, ?_⟩
    rintro _ _ ⟨⟩
    refine ⟨rfl, ?_⟩
    simp only [Tape.scriptedAt]
    omega

/-- A further mention takes the words for one more position. -/
theorem Mention.within_settle_bind {β : Type} (m : Mention) {f : Point → Settling β} {n : Nat}
    (hf : ∀ p, Within words n (f p)) : Within words (n + 1) (m.settle >>= f) := by
  rw [Nat.add_comm]
  exact m.within_settle.bind hf

theorem Mention.within_settleAll (ms : List Mention) :
    Within words ms.length (ms.mapM settle) := by
  induction ms with
  | nil => exact within_pure []
  | cons m ms ih =>
    rw [List.mapM_cons]
    exact m.within_settle_bind fun p => ih.bind_still fun ps => within_pure (p :: ps)

theorem Command.within_settle (c : Command) : Within words c.mentions.length c.settle := by
  cases c with
  | place m => exact m.within_settle_bind fun _ => within_pure _
  | connect ms =>
    exact (Mention.within_settleAll ms).bind_still fun _ => within_get fun _ => within_pure _
  | segment l m => exact l.within_settle_bind fun _ => m.within_settle_bind fun _ => within_pure _
  | perpendicular s =>
    exact within_get fun t => (within_constructed (by nofun) _).bind_still fun _ => within_pure _
  | triangle l m n =>
    exact l.within_settle_bind fun _ => m.within_settle_bind fun _ => n.within_settle_bind fun _ =>
      within_pure _
  | square s a b =>
    exact Mention.within_settle_bind _ fun _ => Mention.within_settle_bind _ fun _ =>
      (within_constructed (by nofun) _).bind_still fun _ => within_pure _

theorem Operation.within_settle (op : Operation) :
    Within words op.command.mentions.length op.settle :=
  op.command.within_settle.bind_still fun _ => within_pure _

theorem Operation.within_settleAll (ops : List Operation) :
    Within words (ops.flatMap (·.command.mentions)).length (ops.mapM settle) := by
  induction ops with
  | nil => exact within_pure []
  | cons op ops ih =>
    rw [List.mapM_cons, List.flatMap_cons, List.length_append]
    exact op.within_settle.bind fun s => ih.bind_still fun ss => within_pure (s :: ss)

namespace Script

/-- The number of points that a program mentions, those of an unfinished command among them. -/
def mentionCount (s : Script) : Nat := s.mentions.length + s.reading.unfinished.length

theorem within_settle (s : Script) : Within words s.mentionCount s.reading.settle :=
  (Operation.within_settleAll _).bind fun ss =>
    (Mention.within_settleAll _).bind_still fun _ => within_pure ss

/-- A program reads some words of a scripted tape, and those behind them are of no account. -/
theorem exists_run_scripted (s : Script) (points : PointMap) (words : List UInt32) (place : Nat) :
    ∃ n ≤ s.mentionCount * drawBound words,
      (∀ left < n, ¬ s.ComesThrough ⟨points, .scriptedAt words place left⟩) ∧
      ∀ left, n ≤ left →
        s.ComesThrough ⟨points, .scriptedAt words place left⟩ ∧
        (s.wordsRead ⟨points, .scriptedAt words place left⟩).length = n ∧
        s.SameRun ⟨points, .scriptedAt words place n⟩ ⟨points, .scriptedAt words place left⟩ := by
  obtain ⟨enough, henough, hcomes⟩ : ∃ left ≤ s.mentionCount * drawBound words,
      s.ComesThrough ⟨points, .scriptedAt words place left⟩ :=
    ⟨_, Nat.le_refl _, comesThrough_iff.2 (s.within_settle ⟨points, _⟩ rfl (Nat.le_refl _)).1⟩
  obtain ⟨hws, -⟩ := spelled hcomes
  generalize hread : s.wordsRead _ = ws at hws
  have hshort {left : Nat} (hleft : left < ws.length) :
      ¬ s.ComesThrough ⟨points, .scriptedAt words place left⟩ := by
    rw [← hread] at hleft
    exact not_comesThrough_of_lt hcomes hleft
  have hsame {tape : Tape} (htape : tape.Begins ws) :
      s.SameRun ⟨points, .scriptedAt words place enough⟩ ⟨points, tape⟩ := by
    rw [← hread] at htape
    exact sameRun_of_begins hcomes htape
  have hbegins {left : Nat} (hleft : ws.length ≤ left) :
      (Tape.scriptedAt words place left).Begins ws :=
    ⟨hleft, hws.next⟩
  refine ⟨ws.length, hws.left.trans henough, fun left hleft => hshort hleft, fun left hleft => ?_⟩
  have hrun := hsame (hbegins hleft)
  have hleast := hsame (hbegins (Nat.le_refl _))
  refine ⟨hrun.comesThrough, by rw [hrun.wordsRead, hread], ?_⟩
  refine sameRun_of_begins hleast.comesThrough ?_
  rw [hleast.wordsRead, hread]
  exact hbegins hleft

/-- On a scripted tape all draws end, at whatever place they begin: a position is generated for
every table with a free one, every point is resolved, and every run of a table and every program
comes to an end. No more words are read than can be told beforehand, and those behind them make no
difference. -/
theorem draws_end (points : PointMap) (words : List UInt32) (place : Nat) :
    ((∃ c : Coord, c.InBox ∧ ∀ name, points.get? name ≠ some c) →
      ∃ n ≤ drawBound words, ∃ c, ∀ left, n ≤ left →
        PointTable.generate ⟨points, .scriptedAt words place left⟩ =
          .ok (c, .scriptedAt words (place + n) (left - n))) ∧
    (∀ (name : String) (given : Option Coord),
      ∃ n ≤ drawBound words, ∃ answer points', answer ≠ .error .tapeEnded ∧ ∀ left, n ≤ left →
        PointTable.resolve ⟨points, .scriptedAt words place left⟩ name given =
          (answer, ⟨points', .scriptedAt words (place + n) (left - n)⟩)) ∧
    (∀ (qs : List Query) (left : Nat), qs.length * drawBound words ≤ left →
      ∀ e ∈ PointTable.history ⟨points, .scriptedAt words place left⟩ qs,
        e.answer ≠ .error .tapeEnded) ∧
    ∀ s : Script, ∃ n ≤ s.mentionCount * drawBound words,
      (∀ left < n, ¬ s.ComesThrough ⟨points, .scriptedAt words place left⟩) ∧
      ∀ left, n ≤ left →
        s.ComesThrough ⟨points, .scriptedAt words place left⟩ ∧
        (s.wordsRead ⟨points, .scriptedAt words place left⟩).length = n ∧
        s.SameRun ⟨points, .scriptedAt words place n⟩ ⟨points, .scriptedAt words place left⟩ := by
  refine ⟨?_, PointTable.exists_resolve_scripted points words place,
    fun qs left hleft e he => PointTable.answer_of_mem_history_scripted qs hleft he,
    fun s => s.exists_run_scripted points words place⟩
  rintro ⟨c, hc, hfree⟩
  refine PointTable.exists_generate_scripted (fun hfull => ?_) words place
  obtain ⟨name, hname⟩ := hfull c hc
  exact hfree name hname

end Script

end Planimetry
