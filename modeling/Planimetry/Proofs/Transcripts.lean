import Planimetry.Proofs.Draws
import Planimetry.Proofs.FullBox
import Planimetry.Proofs.Wordless

/-!
# Transcripts

A transcript lists what a program asks its table for and what the table answers, up to the first
point that gets no coordinates. It tells which words the program reads from the tape, and that the
rest of the tape is of no account.

## Main definitions

* `Exchange.words`: the words that a table has read for an answer.
* `Script.transcript`: the exchanges of a program.
* `Settling.Told`: what a transcript says about a computation.

Main statement: `Reading.told_settle`.
-/

namespace Planimetry

/-! ## Words of an exchange -/

/-- Generating a position takes some words, and the table would generate it on every tape that
begins with them. -/
theorem PointTable.exists_words_of_generate {t : PointTable} {c : Coord} {tape : Tape}
    (h : t.generate = .ok (c, tape)) :
    ∃ ws ≠ [], t.tape.Begins ws ∧ tape = t.tape.skip ws.length ∧
      ∀ tape' : Tape, tape'.Begins ws →
        generate ⟨t.points, tape'⟩ = .ok (c, tape'.skip ws.length) := by
  obtain ⟨hroom, ws, hdrawn, hws, rfl⟩ := generate_eq_ok_iff.1 h
  exact ⟨ws, hdrawn.ne_nil, hws, rfl, fun tape' htape' =>
    generate_eq_ok_iff.2 ⟨hroom, ws, hdrawn, htape', rfl⟩⟩

namespace Exchange

/-- The words that the table has read for its answer. -/
def words (e : Exchange) : List UInt32 :=
  e.before.tape.next (e.after.tape.read - e.before.tape.read)

/-- The exchange ended for want of words. -/
def WantsWords (e : Exchange) : Prop := e.answer = .error .tapeEnded

theorem words_eq_of_skip {e : Exchange} {ws : List UInt32} (hws : e.before.tape.Begins ws)
    (h : e.after.tape = e.before.tape.skip ws.length) : e.words = ws := by
  rw [words, h, Tape.skip, Nat.add_sub_cancel_left, hws.next]

theorem words_eq_nil {e : Exchange} (h : e.after.tape = e.before.tape) : e.words = [] := by
  rw [words, h, Nat.sub_self]
  rfl

variable {e : Exchange}

/-- Words are read for generated positions and for nothing else. -/
theorem Way.words_eq_nil_iff (h : e.Way) :
    e.words = [] ↔ ∀ c, e.answer ≠ .ok (c, .generated) := by
  cases h with
  | @generated t name c tape hn hg =>
    obtain ⟨ws, hne, hws, htape, -⟩ := PointTable.exists_words_of_generate hg
    rw [words_eq_of_skip hws htape]
    simp [hne]
  | explicit | known | refused =>
    rw [words_eq_nil rfl]
    simp
  | lookup t name =>
    rw [words_eq_nil rfl]
    refine ⟨fun _ c hc => ?_, fun _ => rfl⟩
    exact t.lookup_ne_generated name (congrArg Prod.snd (Except.ok.inj hc))

/-- The words of an exchange stand next on the tape, and it reads them and no others. -/
theorem Way.tape_after (h : e.Way) :
    e.before.tape.Begins e.words ∧ e.after.tape = e.before.tape.skip e.words.length := by
  cases h with
  | @generated t name c tape hn hg =>
    obtain ⟨ws, -, hws, htape, -⟩ := PointTable.exists_words_of_generate hg
    rw [words_eq_of_skip hws htape]
    exact ⟨hws, htape⟩
  | explicit | known | refused | lookup =>
    rw [words_eq_nil rfl]
    exact ⟨Tape.begins_nil _, rfl⟩

/-- What does not want words is answered alike on every tape that begins with the words of the
exchange. -/
theorem Way.ask_again (h : e.Way) (hwords : ¬ e.WantsWords) {tape : Tape}
    (htape : tape.Begins e.words) :
    e.query.ask ⟨e.before.points, tape⟩ =
      (e.answer, ⟨e.after.points, tape.skip e.words.length⟩) := by
  cases h with
  | explicit | lookup =>
    rw [words_eq_nil rfl]
    rfl
  | known h =>
    rw [words_eq_nil rfl]
    simp [Query.ask, PointTable.resolve, h]
  | @refused t name x hn hg =>
    rw [words_eq_nil rfl]
    cases x with
    | tapeEnded => exact absurd rfl hwords
    | boxFull =>
      have hfull : t.points.Full := PointTable.generate_eq_boxFull_iff.1 hg
      have hg' : PointTable.generate ⟨t.points, tape⟩ = .error .boxFull :=
        PointTable.generate_eq_boxFull_iff.2 hfull
      simp [Query.ask, PointTable.resolve, hn, hg']
  | @generated t name c tape' hn hg =>
    obtain ⟨ws, -, hws, htape', hagain⟩ := PointTable.exists_words_of_generate hg
    rw [words_eq_of_skip hws htape'] at htape ⊢
    simp [Query.ask, PointTable.resolve, hn, hagain tape htape, PointTable.insert]

/-- Such an answer takes the same words. -/
theorem Way.words_again (h : e.Way) (hwords : ¬ e.WantsWords) {tape : Tape}
    (htape : tape.Begins e.words) : (ofQuery ⟨e.before.points, tape⟩ e.query).words = e.words := by
  have hafter := congrArg (fun r => r.2.tape) (h.ask_again hwords htape)
  exact words_eq_of_skip htape hafter

theorem ofQuery_eq {t t' : PointTable} {q : Query} {answer} (h : q.ask t = (answer, t')) :
    ofQuery t q = ⟨t, q, answer, t'⟩ := by
  simp [ofQuery, h]

end Exchange

/-- The words of several exchanges. -/
def wordsOf (es : List Exchange) : List UInt32 := es.flatMap Exchange.words

/-! ## Transcripts of computations -/

namespace Settling

variable {α β : Type} {x : Settling α} {f : α → Settling β} {T : PointTable → List Exchange}
  {F : α → PointTable → List Exchange} {t : PointTable}

/-- What is asked behind a computation, if it comes to an end. -/
def behind (x : Settling α) (F : α → PointTable → List Exchange) (t : PointTable) :
    List Exchange :=
  match x.run t with
  | .ok (a, t') => F a t'
  | .error _ => []

/-- A result that leaves this tape behind. -/
def leaving (tape : Tape) :
    Except GeometryFault (α × PointMap) → Except GeometryFault (α × PointTable) :=
  Except.map fun (a, points) => (a, ⟨points, tape⟩)

/-- On every tape that begins with the words `ws`, the computation reads these words, and its result
is `r`. -/
def Spelled (x : Settling α) (T : PointTable → List Exchange) (points : PointMap)
    (ws : List UInt32) (r : Except GeometryFault (α × PointMap)) : Prop :=
  ∀ tape : Tape, tape.Begins ws →
    x.run ⟨points, tape⟩ = leaving (tape.skip ws.length) r ∧ wordsOf (T ⟨points, tape⟩) = ws

/-- The computation comes to an end, and if to a bad one, then not for want of words. -/
def ComesThrough (x : Settling α) (t : PointTable) : Prop :=
  ∀ e, x.run t = .error e → ¬ e.WantsWords

/-- On each table, the transcript holds what the computation asks. -/
structure Told (x : Settling α) (T : PointTable → List Exchange) : Prop where
  /-- The computation is a run of the table, which it changes in no other way. -/
  asked (t : PointTable) : ∃ qs, T t = t.history qs ∧
    ∀ a t', x.run t = .ok (a, t') → t' = t.askAll qs
  /-- A point is not placed if its query was refused, and only then. -/
  refused {t : PointTable} {name : String} {cause : ResolveFault} :
    (∃ pos, x.run t = .error ⟨pos, .cannotPlace name cause⟩) ↔
      ∃ e ∈ T t, e.query.name = name ∧ e.answer = .error cause
  /-- The words of the exchanges are those that are read, and the result depends on no others. -/
  spelled {t : PointTable} : x.ComesThrough t →
    t.tape.Begins (wordsOf (T t)) ∧ ∃ r, Spelled x T t.points (wordsOf (T t)) r

theorem Told.way (h : x.Told T) {e : Exchange} (he : e ∈ T t) : e.Way := by
  obtain ⟨qs, hT, -⟩ := h.asked t
  rw [hT] at he
  exact PointTable.way_of_mem_history he

theorem Spelled.run_eq {points : PointMap} {ws : List UInt32} {r} {tape : Tape}
    (h : Spelled x T points ws r) (htape : tape.Begins ws) :
    x.run ⟨points, tape⟩ = leaving (tape.skip ws.length) r :=
  (h tape htape).1

theorem run_bind_of_ok {a : α} {t' : PointTable} (h : x.run t = .ok (a, t')) :
    (x >>= f).run t = (f a).run t' := by
  rw [StateT.run_bind, h]
  rfl

theorem run_bind_of_error {e : GeometryFault} (h : x.run t = .error e) :
    (x >>= f).run t = .error e := by
  rw [StateT.run_bind, h]
  rfl

theorem behind_of_ok {a : α} {t' : PointTable} (h : x.run t = .ok (a, t')) :
    x.behind F t = F a t' := by
  simp only [behind, h]

theorem behind_of_error {e : GeometryFault} (h : x.run t = .error e) : x.behind F t = [] := by
  simp only [behind, h]

/-- A failed computation is the end of a sequence. -/
theorem Spelled.bind_error {points : PointMap} {ws : List UInt32} {e : GeometryFault}
    (h : Spelled x T points ws (.error e)) :
    Spelled (x >>= f) (fun t => T t ++ x.behind F t) points ws (.error e) := by
  intro tape htape
  obtain ⟨hrun, hws⟩ := h tape htape
  refine ⟨run_bind_of_error hrun, ?_⟩
  simpa [behind_of_error hrun] using hws

/-- The words of the second computation stand behind those of the first one. -/
theorem Spelled.bind_ok {points points' : PointMap} {ws ws' : List UInt32} {a : α} {r}
    (h : Spelled x T points ws (.ok (a, points'))) (h' : Spelled (f a) (F a) points' ws' r) :
    Spelled (x >>= f) (fun t => T t ++ x.behind F t) points (ws ++ ws') r := by
  intro tape htape
  obtain ⟨htape, htape'⟩ := Tape.begins_append.1 htape
  obtain ⟨hrun, hws⟩ := h tape htape
  obtain ⟨hrun', hws'⟩ := h' _ htape'
  rw [run_bind_of_ok hrun, hrun', Tape.skip_skip, List.length_append]
  refine ⟨rfl, ?_⟩
  simp only [wordsOf, behind_of_ok hrun, List.flatMap_append] at hws hws' ⊢
  rw [hws, hws']

theorem told_pure (a : α) : Told (pure a) fun _ => [] where
  asked t := by
    refine ⟨[], rfl, ?_⟩
    rintro _ _ ⟨⟩
    rfl
  refused := ⟨nofun, nofun⟩
  spelled {t} _ := ⟨Tape.begins_nil _, .ok (a, t.points), fun _ _ => ⟨rfl, rfl⟩⟩

theorem told_throw {e : GeometryFault} (h : ∀ name cause, e.cause ≠ .cannotPlace name cause) :
    Told (throw e : Settling α) fun _ => [] where
  asked _ := ⟨[], rfl, nofun⟩
  refused := by
    intro t name cause
    constructor
    · rintro ⟨pos, ⟨⟩⟩
      exact absurd rfl (h name cause)
    · nofun
  spelled _ := ⟨Tape.begins_nil _, .error e, fun _ _ => ⟨rfl, rfl⟩⟩

theorem Told.bind (hx : x.Told T) (hf : ∀ a, (f a).Told (F a)) :
    (x >>= f).Told fun t => T t ++ x.behind F t where
  asked t := by
    obtain ⟨qs, hT, htable⟩ := hx.asked t
    cases hrun : x.run t with
    | error e =>
      rw [behind_of_error hrun, run_bind_of_error hrun, List.append_nil]
      exact ⟨qs, hT, nofun⟩
    | ok r =>
      obtain ⟨a, t'⟩ := r
      obtain rfl := htable a t' hrun
      obtain ⟨qs', hF, htable'⟩ := (hf a).asked (t.askAll qs)
      rw [behind_of_ok hrun, run_bind_of_ok hrun, hT, hF, ← PointTable.history_append]
      refine ⟨qs ++ qs', rfl, fun b t'' h => ?_⟩
      rw [PointTable.askAll_append]
      exact htable' b t'' h
  refused {t name cause} := by
    have hrefused := @hx.refused t name cause
    cases hrun : x.run t with
    | error e =>
      rw [run_bind_of_error hrun, behind_of_error hrun, List.append_nil, ← hrefused, hrun]
      simp only [Except.error.injEq]
    | ok r =>
      obtain ⟨a, t'⟩ := r
      rw [run_bind_of_ok hrun, behind_of_ok hrun, (hf a).refused]
      -- Nothing was refused so far.
      have hnone : ¬ ∃ e ∈ T t, e.query.name = name ∧ e.answer = .error cause := by
        rw [← hrefused, hrun]
        nofun
      grind
  spelled {t} ht := by
    have htx : x.ComesThrough t := fun e he => ht e (run_bind_of_error he)
    obtain ⟨hws, r, hr⟩ := hx.spelled htx
    have hrun := hr.run_eq hws
    cases r with
    | error e =>
      rw [behind_of_error hrun, List.append_nil]
      exact ⟨hws, _, hr.bind_error⟩
    | ok r =>
      obtain ⟨a, points⟩ := r
      rw [behind_of_ok hrun]
      -- The second computation goes on where the first one has left the tape.
      have htf : (f a).ComesThrough _ := fun e he => ht e ((run_bind_of_ok hrun).trans he)
      obtain ⟨hws', r', hr'⟩ := (hf a).spelled htf
      rw [wordsOf, List.flatMap_append]
      exact ⟨Tape.begins_append.2 ⟨hws, hws'⟩, r', hr.bind_ok hr'⟩

/-- What asks nothing adds nothing to a transcript. -/
theorem Told.bind_still (hx : x.Told T) (hf : ∀ a, (f a).Told fun _ => []) : (x >>= f).Told T := by
  have hbind := hx.bind hf
  have hnone (t : PointTable) : x.behind (fun _ _ => []) t = [] := by
    unfold behind
    split <;> rfl
  simpa only [hnone, List.append_nil] using hbind

/-- A computation may look at the points of the table. -/
theorem told_get {g : PointTable → Settling β} {F : PointTable → List Exchange}
    (hg : ∀ t, (g t).Told F)
    (hpoints : ∀ points tape tape', g ⟨points, tape⟩ = g ⟨points, tape'⟩) :
    (get >>= g).Told F where
  asked t := (hg t).asked t
  refused {t} := (hg t).refused
  spelled {t} ht := by
    obtain ⟨hws, r, hr⟩ := (hg t).spelled (t := t) ht
    refine ⟨hws, r, fun tape htape => ?_⟩
    change (g ⟨t.points, tape⟩).run _ = _ ∧ _
    rw [hpoints t.points tape t.tape]
    exact hr tape htape

theorem told_constructed {pos : Position} {cause : ConstructionFault → GeometryCause}
    (h : ∀ e name c, cause e ≠ .cannotPlace name c) (x : Except ConstructionFault α) :
    (constructed pos cause x).Told fun _ => [] := by
  cases x with
  | ok a => exact told_pure a
  | error e => exact told_throw (h e)

end Settling

open Settling

/-! ## Transcripts of programs -/

def Mention.query (m : Mention) : Query := .resolve m.name m.given

/-- The exchanges about some queries, up to the first one that is refused. -/
def PointTable.consult (t : PointTable) : List Query → List Exchange
  | [] => []
  | q :: qs =>
    .ofQuery t q ::
      match q.ask t with
      | (.ok _, t') => t'.consult qs
      | (.error _, _) => []

/-- What a command asks the table. The ends of a perpendicular are only looked up. -/
def Command.queries : Command → List Query
  | perpendicular s => [.lookup s.firstName, .lookup s.secondName]
  | c => c.mentions.map Mention.query

/-- The exchanges of operations that are settled in order. -/
def Operation.transcript : List Operation → PointTable → List Exchange
  | [], _ => []
  | op :: ops, t => t.consult op.command.queries ++ op.settle.behind (fun _ => transcript ops) t

namespace Reading

/-- The points of the command in which the text goes wrong. -/
def unfinished (r : Reading) : List Mention := (r.stop.map Stop.mentions).getD []

/-- The exchanges of a reading: those of its operations, and those about the points of an unfinished
command behind them. -/
def transcript (r : Reading) (t : PointTable) : List Exchange :=
  Operation.transcript r.operations t ++
    (r.operations.mapM Operation.settle).behind
      (fun _ t' => t'.consult (r.unfinished.map Mention.query)) t

/-- All that a reading asks the table for, and the steps that come of it. -/
def settle (r : Reading) : Settling (List Step) := do
  let ss ← r.operations.mapM Operation.settle
  let _ ← r.unfinished.mapM Mention.settle
  return ss

end Reading

def Script.transcript (s : Script) (t : PointTable) : List Exchange := s.reading.transcript t

/-! ## What transcripts say -/

namespace Mention

/-- What comes of a mention if the table gives this answer. -/
def outcome (m : Mention) (points : PointMap) :
    Except ResolveFault (Coord × Provenance) → Except GeometryFault (Point × PointMap)
  | .ok (c, source) => .ok (⟨m.name, c, source, m.pos⟩, points)
  | .error e => .error ⟨m.pos, .cannotPlace m.name e⟩

theorem run_settle_of_ask {m : Mention} {t t' : PointTable} {answer}
    (h : m.query.ask t = (answer, t')) :
    m.settle.run t = leaving t'.tape (m.outcome t'.points answer) := by
  change t.resolve m.name m.given = _ at h
  change m.settle t = _
  rw [settle, h]
  cases answer <;> rfl

/-- A mention is one exchange. -/
theorem told_settle (m : Mention) : m.settle.Told fun t => [.ofQuery t m.query] where
  asked t := by
    refine ⟨[m.query], rfl, fun a t'' h => ?_⟩
    obtain ⟨answer, t', hask⟩ : ∃ answer t', m.query.ask t = (answer, t') := ⟨_, _, rfl⟩
    rw [run_settle_of_ask hask] at h
    have hafter : t.askAll [m.query] = t' := congrArg Prod.snd hask
    cases answer <;> cases h
    exact hafter.symm
  refused {t name cause} := by
    obtain ⟨answer, t', hask⟩ : ∃ answer t', m.query.ask t = (answer, t') := ⟨_, _, rfl⟩
    have hname : m.query.name = m.name := rfl
    simp only [run_settle_of_ask hask, Exchange.ofQuery_eq hask, List.mem_singleton,
      exists_eq_left, hname]
    cases answer <;> simp [outcome, leaving, Except.map]
  spelled {t} ht := by
    obtain ⟨answer, t', hask⟩ : ∃ answer t', m.query.ask t = (answer, t') := ⟨_, _, rfl⟩
    have hway := Exchange.way_ofQuery t m.query
    rw [Exchange.ofQuery_eq hask] at hway ⊢
    rw [wordsOf, List.flatMap_singleton]
    have hwords : answer ≠ .error .tapeEnded := by
      rintro rfl
      exact ht _ (run_settle_of_ask hask) ⟨m.name, rfl⟩
    refine ⟨hway.tape_after.1, m.outcome t'.points answer, fun tape htape => ⟨?_, ?_⟩⟩
    · exact run_settle_of_ask (hway.ask_again hwords htape)
    · rw [wordsOf, List.flatMap_singleton]
      exact hway.words_again hwords htape

/-- What is asked behind a mention is asked on the table that it leaves. -/
theorem told_settle_bind {β : Type} (m : Mention) {f : Point → Settling β} {qs : List Query}
    (hf : ∀ p, (f p).Told (·.consult qs)) :
    (m.settle >>= f).Told (·.consult (m.query :: qs)) := by
  have hbind := m.told_settle.bind hf
  have hcons (t : PointTable) : t.consult (m.query :: qs) =
      [.ofQuery t m.query] ++ m.settle.behind (fun _ t => t.consult qs) t := by
    obtain ⟨answer, t', hask⟩ : ∃ answer t', m.query.ask t = (answer, t') := ⟨_, _, rfl⟩
    simp only [PointTable.consult, hask, behind, run_settle_of_ask hask]
    cases answer <;> rfl
  simpa only [hcons] using hbind

theorem told_settleAll (ms : List Mention) :
    (ms.mapM settle).Told (·.consult (ms.map query)) := by
  induction ms with
  | nil => exact told_pure []
  | cons m ms ih =>
    rw [List.mapM_cons]
    exact m.told_settle_bind fun _ => ih.bind_still fun _ => told_pure _

end Mention

namespace PointTable

variable (t : PointTable) (names : List String)

theorem askAll_lookups : t.askAll (names.map .lookup) = t := by
  induction names with
  | nil => rfl
  | cons name names ih => exact ih

theorem history_lookups :
    t.history (names.map .lookup) = names.map fun name => .ofQuery t (.lookup name) := by
  induction names with
  | nil => rfl
  | cons name names ih => exact congrArg (_ :: ·) ih

theorem consult_lookups : t.consult (names.map .lookup) = t.history (names.map .lookup) := by
  induction names with
  | nil => rfl
  | cons name names ih => exact congrArg (_ :: ·) ih

end PointTable

/-- Lookups are never refused, take no words and leave the table alone. -/
theorem Settling.Told.lookups {α : Type} {x : Settling α} (hx : x.Told fun _ => [])
    (names : List String) : x.Told (·.consult (names.map .lookup)) := by
  have hlookups (t : PointTable) :
      t.consult (names.map .lookup) = names.map fun name => .ofQuery t (.lookup name) :=
    (t.consult_lookups names).trans (t.history_lookups names)
  have hwords (t : PointTable) : wordsOf (t.consult (names.map .lookup)) = [] := by
    simp only [hlookups, wordsOf, List.flatMap_map, List.flatMap_eq_nil_iff]
    exact fun name _ => Exchange.words_eq_nil rfl
  exact {
    asked := by
      intro t
      obtain ⟨qs, hnil, htable⟩ := hx.asked t
      obtain rfl : qs = [] := by
        cases qs with
        | nil => rfl
        | cons q qs => cases hnil
      refine ⟨names.map .lookup, t.consult_lookups names, ?_⟩
      rw [t.askAll_lookups]
      exact htable
    refused := by
      intro t name cause
      rw [hx.refused, hlookups]
      constructor
      · nofun
      · rintro ⟨e, he, -, herror⟩
        obtain ⟨name, -, rfl⟩ := List.mem_map.1 he
        cases herror
    spelled := by
      intro t ht
      obtain ⟨hws, r, hr⟩ := hx.spelled ht
      rw [hwords]
      exact ⟨hws, r, fun tape htape => ⟨hr.run_eq htape, hwords _⟩⟩ }

theorem Command.told_settle (c : Command) : c.settle.Told (·.consult c.queries) := by
  cases c with
  | place m => exact m.told_settle_bind fun _ => told_pure _
  | connect ms =>
    refine (Mention.told_settleAll ms).bind_still fun ps => ?_
    exact told_get (fun _ => told_pure _) fun _ _ _ => rfl
  | segment l m => exact l.told_settle_bind fun _ => m.told_settle_bind fun _ => told_pure _
  | perpendicular s =>
    refine Told.lookups ?_ [s.firstName, s.secondName]
    refine told_get (fun t => ?_) fun _ _ _ => rfl
    exact (told_constructed (by nofun) _).bind_still fun _ => told_pure _
  | triangle l m n =>
    exact l.told_settle_bind fun _ => m.told_settle_bind fun _ => n.told_settle_bind fun _ =>
      told_pure _
  | square s a b =>
    exact Mention.told_settle_bind _ fun _ => Mention.told_settle_bind _ fun _ =>
      (told_constructed (by nofun) _).bind_still fun _ => told_pure _

theorem Operation.told_settle (op : Operation) : op.settle.Told (·.consult op.command.queries) :=
  op.command.told_settle.bind_still fun _ => told_pure _

theorem Operation.told_settleAll (ops : List Operation) :
    (ops.mapM settle).Told (transcript ops) := by
  induction ops with
  | nil => exact told_pure []
  | cons op ops ih =>
    rw [List.mapM_cons]
    exact op.told_settle.bind fun _ => ih.bind_still fun _ => told_pure _

namespace Reading

variable {r : Reading} {t : PointTable}

theorem told_settle (r : Reading) : r.settle.Told r.transcript :=
  (Operation.told_settleAll r.operations).bind fun _ =>
    (Mention.told_settleAll r.unfinished).bind_still fun _ => told_pure _

/-- What is drawn are the steps, unless the text goes wrong behind them. -/
theorem draw_eq (r : Reading) (t : PointTable) :
    r.draw t =
      match r.settle.run t with
      | .error e => .error (.geometry e)
      | .ok (ss, t') =>
        match r.stop with
        | none => .ok (.ofSteps ss t')
        | some stop => .error (.wording stop.fault) := by
  unfold draw settle
  cases hops : (r.operations.mapM Operation.settle).run t with
  | error e => rw [run_bind_of_error hops]
  | ok a =>
    rw [run_bind_of_ok hops]
    obtain ⟨ss, t'⟩ := a
    cases hstop : r.stop with
    | none =>
      simp only [unfinished, hstop]
      rfl
    | some stop =>
      have hunfinished : r.unfinished = stop.mentions := by simp [unfinished, hstop]
      rw [hunfinished]
      dsimp only
      cases hms : (stop.mentions.mapM Mention.settle).run t' with
      | error e => rw [run_bind_of_error hms]
      | ok b =>
        rw [run_bind_of_ok hms]
        rfl

/-- What a program draws leaves the table of its run behind. -/
theorem exists_settle_of_draw {d : Drawing} (h : r.draw t = .ok d) :
    ∃ ss, r.settle.run t = .ok (ss, d.table) := by
  rw [draw_eq] at h
  split at h
  · cases h
  · rename_i ss t' hrun
    split at h
    · cases h
      exact ⟨ss, hrun⟩
    · cases h

theorem draw_eq_geometry_iff {e : GeometryFault} :
    r.draw t = .error (.geometry e) ↔ r.settle.run t = .error e := by
  rw [draw_eq]
  cases r.settle.run t with
  | error e' => simp
  | ok a => cases r.stop <;> simp

end Reading

end Planimetry
