import Planimetry.Proofs.Agreement
import Planimetry.Proofs.Places
import Planimetry.Proofs.Steps
import Planimetry.Proofs.Unplaced

/-!
# The spelling of a program

White space, capital letters, apostrophes, inflections and leading zeros change neither what a
program draws nor what is wrong with it: texts whose tokens are equivalent, one by one, have the
same outcome except for positions, and of faults they have the same one at the same token.

## Main definitions

* `Settling.Agree`: computations on a table that go on in the same way.
* `Script.SameOutcome`: outcomes that differ in positions only.

Main statement: `compile_spelling`.
-/

namespace Planimetry

variable {T : Token → Token → Prop} {α α' β β' : Type} {A : α → α' → Prop} {B : β → β' → Prop}

/-! ## Settling -/

/-- On every table both computations give related results and leave the same table, or both fail,
at related positions. -/
def Settling.Agree (T : Token → Token → Prop) (A : α → α' → Prop) (x : Settling α)
    (x' : Settling α') : Prop :=
  ∀ t, Related (fun e e' => Position.Match T e.pos e'.pos) (fun r r' => A r.1 r'.1 ∧ r.2 = r'.2)
    (x.run t) (x'.run t)

namespace Settling

theorem agree_pure {a : α} {a' : α'} (h : A a a') : Agree T A (pure a) (pure a') :=
  fun _ => .ok ⟨h, rfl⟩

theorem Agree.bind {x : Settling α} {x' : Settling α'} {f : α → Settling β} {f' : α' → Settling β'}
    (h : Agree T A x x') (hf : ∀ a a', A a a' → Agree T B (f a) (f' a')) :
    Agree T B (x >>= f) (x' >>= f') := by
  intro t
  have hx := h t
  rw [StateT.run_bind, StateT.run_bind]
  generalize x.run t = res, x'.run t = res' at hx
  cases hx with
  | @ok r r' hr =>
    obtain ⟨a, t₁⟩ := r
    obtain ⟨a', t₂⟩ := r'
    obtain ⟨ha, rfl⟩ := hr
    exact hf a a' ha t₁
  | error he => exact .error he

theorem agree_get : Agree T Eq get get := fun _ => .ok ⟨rfl, rfl⟩

/-- One computation for each element, in order. -/
theorem agree_mapM {f : α → Settling β} {f' : α' → Settling β'}
    (hf : ∀ a a', A a a' → Agree T B (f a) (f' a')) {as : List α} {as' : List α'}
    (h : List.Forall₂ A as as') : Agree T (List.Forall₂ B) (as.mapM f) (as'.mapM f') := by
  induction h with
  | nil => exact agree_pure .nil
  | cons ha _ ih =>
    rw [List.mapM_cons, List.mapM_cons]
    exact (hf _ _ ha).bind fun _ _ hb => ih.bind fun _ _ hbs => agree_pure (.cons hb hbs)

theorem agree_constructed {pos pos' : Position} {cause cause' : ConstructionFault → GeometryCause}
    (h : Position.Match T pos pos') (x : Except ConstructionFault α) :
    Agree T Eq (constructed pos cause x) (constructed pos' cause' x) := by
  cases x with
  | ok a => exact agree_pure rfl
  | error e => exact fun _ => .error h

end Settling

/-- Points that differ in positions only. -/
def Point.Alike (p p' : Point) : Prop := p.unplaced = p'.unplaced

theorem Point.Alike.coord {p p' : Point} (h : p.Alike p') : p.coord = p'.coord :=
  (Point.mk.inj h).2.1

theorem Mention.agree_settle {m m' : Mention} (h : m.Agree T m') :
    Settling.Agree T Point.Alike m.settle m'.settle := by
  obtain ⟨w, w', hw, hpos, hpos', -⟩ := h.word
  intro t
  change Related _ _ (m.settle t) (m'.settle t)
  unfold settle
  rw [← h.name, ← h.given]
  split
  · exact .ok ⟨rfl, rfl⟩
  · exact .error ⟨w, w', hw, hpos, hpos'⟩

theorem Point.Alike.refresh {p p' : Point} (h : p.Alike p') (t : PointTable) :
    (p.refresh t).Alike (p'.refresh t) := by
  cases p
  cases p'
  cases h
  rfl

theorem map_eq_of_forall₂ {γ : Type} {f : α → γ} {f' : α' → γ} {as : List α} {as' : List α'}
    (h : List.Forall₂ (fun a a' => f a = f' a') as as') : as.map f = as'.map f' := by
  induction h with
  | nil => rfl
  | cons ha _ ih => rw [List.map_cons, List.map_cons, ha, ih]

/-- The figures differ in positions only. -/
theorem Command.agree_settle {c c' : Command} (h : c.Agree T c') :
    Settling.Agree T (fun f f' => f.unplaced = f'.unplaced) c.settle c'.settle := by
  cases h with
  | place hp =>
    refine (Mention.agree_settle hp).bind fun p p' hp => Settling.agree_pure ?_
    exact congrArg Figure.point hp
  | connect hps =>
    refine (Settling.agree_mapM (A := Mention.Agree T) (fun _ _ => Mention.agree_settle) hps).bind
      fun ps ps' hps => ?_
    refine Settling.agree_get.bind fun t t' ht => Settling.agree_pure ?_
    subst ht
    simp only [Figure.unplaced, List.map_map]
    exact congrArg Figure.network (map_eq_of_forall₂ (hps.imp fun _ _ hp => hp.refresh t))
  | segment ha hb =>
    refine (Mention.agree_settle ha).bind fun a a' ha => ?_
    refine (Mention.agree_settle hb).bind fun b b' hb => Settling.agree_pure ?_
    exact congrArg₂ Figure.segment ha hb
  | @perpendicular s s' hs =>
    obtain ⟨x, y, pos⟩ := s
    obtain ⟨x', y', pos'⟩ := s'
    obtain ⟨rfl, rfl, hpos⟩ := hs
    refine Settling.agree_get.bind fun t t' ht => ?_
    subst ht
    refine (Settling.agree_constructed hpos _).bind fun arms arms' harms => Settling.agree_pure ?_
    subst harms
    rfl
  | triangle ha hb hc =>
    refine (Mention.agree_settle ha).bind fun a a' ha => ?_
    refine (Mention.agree_settle hb).bind fun b b' hb => ?_
    refine (Mention.agree_settle hc).bind fun c c' hc => Settling.agree_pure ?_
    simp only [Figure.unplaced, Figure.triangle.injEq]
    exact ⟨ha, hb, hc⟩
  | @square s s' a b hs =>
    obtain ⟨x, y, pos⟩ := s
    obtain ⟨x', y', pos'⟩ := s'
    have hmention := hs.mention
    obtain ⟨rfl, rfl, hpos⟩ := hs
    refine (Mention.agree_settle (hmention x a)).bind fun a a' ha => ?_
    refine (Mention.agree_settle (hmention y b)).bind fun b b' hb => ?_
    have hcorners : squareCorners a.coord b.coord = squareCorners a'.coord b'.coord := by
      rw [ha.coord, hb.coord]
    rw [hcorners]
    refine (Settling.agree_constructed hpos _).bind fun cd cd' hcd => Settling.agree_pure ?_
    subst hcd
    simp only [Figure.unplaced, Figure.square.injEq]
    exact ⟨rfl, ha, hb, rfl, rfl⟩

theorem Operation.agree_settle {op op' : Operation} (h : op.Agree T op') :
    Settling.Agree T (fun s s' => s.unplaced = s'.unplaced) op.settle op'.settle :=
  (Command.agree_settle h.command).bind fun _ _ hf =>
    Settling.agree_pure (congrArg (Step.mk Position.start) hf)

/-! ## Drawings -/

/-- Faults of the same kind, at related tokens or both at the end of the text. -/
inductive DrawingFault.Agree (T : Token → Token → Prop) : DrawingFault → DrawingFault → Prop where
  | wording {f f' : SyntaxFault} :
      Option.Rel T f.found f'.found → Agree T (.wording f) (.wording f')
  | geometry {e e' : GeometryFault} :
      Position.Match T e.pos e'.pos → Agree T (.geometry e) (.geometry e')

/-- Drawings that differ only in the positions in their trees. -/
structure Drawing.Alike (d d' : Drawing) : Prop where
  tree : d.tree.unplaced = d'.tree.unplaced
  primitives : d.primitives = d'.primitives
  table : d.table = d'.table

theorem Drawing.alike_ofSteps {ss ss' : List Step}
    (h : ss.map Step.unplaced = ss'.map Step.unplaced) (t : PointTable) :
    (ofSteps ss t).Alike (ofSteps ss' t) where
  tree := by rw [ofSteps, ofSteps, Step.program_unplaced, Step.program_unplaced, h]
  primitives := by
    have hprims (ss : List Step) : ss.flatMap (·.figure.primitives) =
        (ss.map Step.unplaced).flatMap (·.figure.primitives) := by
      simp [List.flatMap_map, Step.unplaced, Figure.primitives_unplaced]
    rw [ofSteps, ofSteps, hprims ss, hprims ss', h]
  table := rfl

/-- Readings that agree are drawn alike. -/
theorem Reading.agree_draw {r r' : Reading} (h : r.Agree T r') (t : PointTable) :
    Related (DrawingFault.Agree T) Drawing.Alike (r.draw t) (r'.draw t) := by
  have hsteps := Settling.agree_mapM (A := Operation.Agree T) (fun _ _ => Operation.agree_settle)
    h.operations t
  unfold draw
  generalize (r.operations.mapM Operation.settle).run t = res,
    (r'.operations.mapM Operation.settle).run t = res' at hsteps
  cases hsteps with
  | error he => exact .error (.geometry he)
  | @ok a a' ha =>
    obtain ⟨ss, t₁⟩ := a
    obtain ⟨ss', t₂⟩ := a'
    obtain ⟨hss, rfl⟩ := ha
    have hstop := h.stop
    generalize r.stop = o, r'.stop = o' at hstop
    cases hstop with
    | none => exact .ok (Drawing.alike_ofSteps (map_eq_of_forall₂ hss) t₁)
    | @some st st' hst =>
      have hms := Settling.agree_mapM (A := Mention.Agree T) (fun _ _ => Mention.agree_settle)
        hst.mentions t₁
      dsimp only
      generalize (st.mentions.mapM Mention.settle).run t₁ = res,
        (st'.mentions.mapM Mention.settle).run t₁ = res' at hms
      cases hms with
      | ok _ => exact .error (.wording hst.found)
      | error he => exact .error (.geometry he)

/-! ## Outcomes -/

/-- Compilations that differ only in positions. -/
structure Compilation.Alike (c c' : Compilation) : Prop where
  drawing : c.drawing.Alike c'.drawing
  messages : c.diagnostics.map Fault.message = c'.diagnostics.map Fault.message

/-- A sink without limits takes every program. -/
theorem Export.limited_of_finish {e : Export} {sink sink' : Sink} {x : SinkFault}
    (h : e.finish sink = (.error x, sink')) : sink.room ≠ none ∨ sink.refusesFlush := by
  by_contra hfree
  obtain ⟨hroom, hflush⟩ := not_or.1 hfree
  unfold finish at h
  split at h
  · cases h
  · simp [Sink.deliver, Sink.write, Sink.flush, not_not.1 hroom, hflush] at h

namespace Script

/-- Faults that blame the same place of two scripts: the tokens with the same index, or both
ends. -/
structure SameBlame (s s' : Script) (f f' : Fault) : Prop where
  kind : f.kind = f'.kind
  blamed : ∃ k : Nat, s.places[k]? = some f.pos
  place (k : Nat) : s.places[k]? = some f.pos ↔ s'.places[k]? = some f'.pos

/-- Outcomes that differ in positions only. A sink that refuses the drawing of one script refuses
that of the other one as well. -/
inductive SameOutcome (s s' : Script) (sink : Sink) :
    Except Fault Compilation → Except Fault Compilation → Prop where
  | compiled {c c' : Compilation} : c.Alike c' → SameOutcome s s' sink (.ok c) (.ok c')
  | refused {f f' : Fault} : s.SameBlame s' f f' → SameOutcome s s' sink (.error f) (.error f')
  | unwritten (reason : String) : sink.room ≠ none ∨ sink.refusesFlush →
      SameOutcome s s' sink (.error (s.outputFault reason)) (.error (s'.outputFault reason))

/-- Tokens at the same place of two lists that mean the same. -/
def Counterparts (ts ts' : List Token) (t t' : Token) : Prop :=
  t.Equivalent t' ∧ ∃ k : Nat, ts[k]? = some t ∧ ts'[k]? = some t'

theorem forall₂_counterparts {ts ts' : List Token} (h : List.Forall₂ Token.Equivalent ts ts') :
    List.Forall₂ (Counterparts ts ts') ts ts' := by
  rw [List.forall₂_iff_get] at h ⊢
  refine ⟨h.1, fun k hk hk' => ⟨h.2 k hk hk', k, ?_, ?_⟩⟩
  · simp
  · simp

variable {s s' : Script} {t : PointTable} {sink : Sink}

theorem places_of_token {k : Nat} {t : Token} (h : s.tokens[k]? = some t) :
    s.places[k]? = some t.pos := by
  obtain ⟨hk, -⟩ := List.getElem?_eq_some_iff.1 h
  rw [places, List.getElem?_append_left (by simpa using hk), List.getElem?_map, h]
  rfl

theorem places_of_end (s : Script) : s.places[s.tokens.length]? = some s.finish := by
  simp [places]

/-- If no place comes twice, faults with one place in common blame the same. -/
theorem sameBlame_of_places (hs : s.places.Nodup) (hs' : s'.places.Nodup) {f f' : Fault} {k : Nat}
    (hkind : f.kind = f'.kind) (h : s.places[k]? = some f.pos) (h' : s'.places[k]? = some f'.pos) :
    s.SameBlame s' f f' := by
  have only {ps : List Position} (hps : ps.Nodup) {p : Position} (hp : ps[k]? = some p) (j : Nat) :
      ps[j]? = some p ↔ k = j := by
    obtain ⟨hk, -⟩ := List.getElem?_eq_some_iff.1 hp
    constructor
    · intro hj
      exact (List.getElem?_inj hk hps).1 (hp.trans hj.symm)
    · rintro rfl
      exact hp
  exact ⟨hkind, ⟨k, h⟩, fun j => (only hs h j).trans (only hs' h' j).symm⟩

theorem sameBlame_ofDrawing (hs : s.places.Nodup) (hs' : s'.places.Nodup)
    (hlen : s.tokens.length = s'.tokens.length) {e e' : DrawingFault}
    (h : e.Agree (Counterparts s.tokens s'.tokens) e') :
    s.SameBlame s' (.ofDrawing s e) (.ofDrawing s' e') := by
  cases h with
  | @wording f f' hfound =>
    obtain ⟨x, o⟩ := f
    obtain ⟨x', o'⟩ := f'
    cases hfound with
    | none =>
      have hend := s'.places_of_end
      rw [← hlen] at hend
      exact sameBlame_of_places hs hs' rfl s.places_of_end hend
    | some ht =>
      obtain ⟨-, k, ht, ht'⟩ := ht
      exact sameBlame_of_places hs hs' rfl (places_of_token ht) (places_of_token ht')
  | @geometry e e' hpos =>
    obtain ⟨u, u', ⟨-, k, hu, hu'⟩, hpos, hpos'⟩ := hpos
    refine sameBlame_of_places (k := k) hs hs' rfl ?_ ?_
    · exact (places_of_token hu).trans (congrArg some hpos)
    · exact (places_of_token hu').trans (congrArg some hpos')

theorem messages_diagnostics (s : Script) (n : Node) :
    (s.diagnostics n).map Fault.message =
      (n.unplaced.review.map Remark.cause).map RemarkCause.message := by
  rw [Node.causes_review_unplaced, diagnostics, List.map_map, List.map_map]
  rfl

theorem sameOutcome_compileTo (hs : s.places.Nodup) (hs' : s'.places.Nodup)
    (h : List.Forall₂ Token.Equivalent s.tokens s'.tokens) (e : Export) :
    (s.compileTo t e sink).2 = (s'.compileTo t e sink).2 ∧
      s.SameOutcome s' sink (s.compileTo t e sink).1 (s'.compileTo t e sink).1 := by
  have hread := Reading.agree_ofTokens (fun _ _ hc => hc.1) (forall₂_counterparts h)
  have hdraw := Reading.agree_draw hread t
  unfold compileTo parse reading
  generalize (Reading.ofTokens s.tokens).draw t = res,
    (Reading.ofTokens s'.tokens).draw t = res' at hdraw
  cases hdraw with
  | error he => exact ⟨rfl, .refused (sameBlame_ofDrawing hs hs' h.length_eq he)⟩
  | @ok d d' hd =>
    dsimp only
    rw [← hd.primitives]
    cases hsink : (e.addAll d.primitives).finish sink with
    | mk written sink' =>
      cases written with
      | ok e' =>
        refine ⟨rfl, .compiled ⟨hd, ?_⟩⟩
        rw [messages_diagnostics, messages_diagnostics, hd.tree]
      | error x => exact ⟨rfl, .unwritten x.message (Export.limited_of_finish hsink)⟩

/-- Of two texts whose tokens are equivalent, one by one, the same is written, and their outcomes
differ in positions only. -/
theorem compile_spelling {text text' : String}
    (h : List.Forall₂ Token.Equivalent (Token.ofText text) (Token.ofText text'))
    (path path' : Option String) (t : PointTable) (g : Grid) (sink : Sink) :
    ((ofText text path).compile t g sink).2 = ((ofText text' path').compile t g sink).2 ∧
      (ofText text path).SameOutcome (ofText text' path') sink
        ((ofText text path).compile t g sink).1 ((ofText text' path').compile t g sink).1 :=
  sameOutcome_compileTo (nodup_places_ofText text path) (nodup_places_ofText text' path') h _

/-- A program in capitals, with the apostrophe of a typewriter. -/
def inCapitals : String := "З\x27ЄДНАТИ ТОЧКИ A (1,2) , B (3,4) ;"

/-- The same in small letters, with the letter apostrophe and zeros in front, on two lines. -/
def inSmallLetters : String := "зʼєднати точку\nA (01,2) , B (3,004)  ;"

theorem spelling_of_capitals :
    let run (text : String) :=
      (ofText text none).compile (.ofTape ⟨fun _ => 0, 0, 0⟩) .standard .unlimited
    List.Forall₂ Token.Equivalent (Token.ofText inCapitals) (Token.ofText inSmallLetters) ∧
      (run inCapitals).2 = (run inSmallLetters).2 ∧
      (ofText inCapitals none).SameOutcome (ofText inSmallLetters none) .unlimited
        (run inCapitals).1 (run inSmallLetters).1 := by
  have h :
      List.Forall₂ Token.Equivalent (Token.ofText inCapitals) (Token.ofText inSmallLetters) := by
    decide +kernel
  exact ⟨h, compile_spelling h none none _ _ _⟩

end Script

end Planimetry
