import Planimetry.Command.Reader
import Planimetry.Proofs.Grammar

/-!
# Readers that predict

A reader of a language takes the phrases of the language and nothing else, stops only behind a
viable prefix, and decides by the next token alone. A `;` in front tells it no more than the end of
the text does.

## Main definitions

* `Reader.Alike`: texts that readers cannot tell apart without going on.
* `Reader.Reads`: the reader reads a language.

Main statements: `Reads.bind`, for readers one after the other, and `ReadsAt.branch`, for a choice
by the next token.
-/

namespace Planimetry

open scoped Computability
open Grammar (word Viable viable_of_mem)

namespace Reader

variable {α β : Type} {r r' : Reader α} {f : α → Reader β} {L L' : Language Token}
  {stop stop' : Token → Prop} {ok : Token → Prop} {ts u v c : List Token}

/-- The text is at its end, or at a `;`. -/
def Closed (u : List Token) : Prop := ∀ t ∈ u.head?, t.isDelimiter ";"

/-- The texts begin with the same token, or both of them are closed. -/
def Alike (u v : List Token) : Prop := u.head? = v.head? ∨ Closed u ∧ Closed v

/-- The text is at its end, or at a token of `stop`. -/
def Stops (stop : Token → Prop) (u : List Token) : Prop := ∀ t ∈ u.head?, stop t

theorem Alike.append (h : Alike u v) (c : List Token) : Alike (c ++ u) (c ++ v) := by
  cases c with
  | nil => exact h
  | cons t c => exact .inl rfl

theorem stops_nil : Stops stop [] := by simp [Stops]

theorem stops_cons {t : Token} (h : stop t) : Stops stop (t :: u) := by
  intro t' ht'
  obtain rfl : t = t' := Option.some.inj ht'
  exact h

theorem Stops.mono (h : ∀ t, stop' t → stop t) (hu : Stops stop' u) : Stops stop u :=
  fun t ht => h t (hu t ht)

theorem stops_word_mul (h : ∀ t, ok t → stop t) :
    ∀ c ∈ word ok * L, ∀ u, Stops stop' u → Stops stop (c ++ u) := by
  intro c hc u _
  obtain ⟨t, c, ht, -, rfl⟩ := Grammar.mem_word_mul.1 hc
  exact stops_cons (h t ht)

theorem stops_true : Stops (fun _ => True) u := fun _ _ => trivial

/-- The token does not pass the test. -/
def Lacks (q : Token → Bool) (t : Token) : Prop := q t = false

theorem stops_lacks_iff {q : Token → Bool} : Stops (Lacks q) u ↔ ¬ u.head?.any q = true := by
  cases u <;> simp [Stops, Lacks]

/-- A reader of one token takes the token that it accepts. -/
theorem token_eq_ok_iff {e : Expectation} {accept : Token → Except Expectation α}
    {ms ms' : List Mention} {a : α} :
    token e accept ⟨ts, ms⟩ = .ok a ⟨u, ms'⟩ ↔
      ∃ t, accept t = .ok a ∧ ts = t :: u ∧ ms = ms' := by
  unfold token
  cases ts with
  | nil => simp
  | cons t ts =>
    dsimp only
    cases h : accept t with
    | ok b =>
      constructor
      · rintro ⟨⟩
        exact ⟨t, h, rfl, rfl⟩
      · rintro ⟨t', ht', ⟨⟩, rfl⟩
        rw [h] at ht'
        cases ht'
        rfl
    | error x =>
      refine ⟨nofun, ?_⟩
      rintro ⟨t', ht', ⟨⟩, -⟩
      exact nomatch h.symm.trans ht'

/-- A reader of one token takes nothing else. -/
theorem exists_token_eq_error_iff {e : Expectation} {accept : Token → Except Expectation α}
    {ms ms' : List Mention} :
    (∃ x, token e accept ⟨ts, ms⟩ = .error x ⟨u, ms'⟩) ↔
      (∀ t ∈ ts.head?, ¬ ∃ a, accept t = .ok a) ∧ ts = u ∧ ms = ms' := by
  unfold token
  cases ts with
  | nil => simp
  | cons t ts =>
    dsimp only
    cases h : accept t <;> simp [h]

/-- How `r` reads the text `ts`: its phrases are those of `L`, and a phrase that it takes ends at
the end of the text or before a token of `stop`. -/
structure ReadsAt (r : Reader α) (L : Language Token) (stop : Token → Prop) (ts : List Token) :
    Prop where
  /-- What has been taken in the end is a phrase. -/
  taken {ms ms' : List Mention} {a : α} {u : List Token} (h : r ⟨ts, ms⟩ = .ok a ⟨u, ms'⟩) :
    ∃ c ∈ L, ts = c ++ u
  /-- What has been taken before a fault could have become a phrase. -/
  viable {ms ms' : List Mention} {x : Expectation} {u : List Token}
    (h : r ⟨ts, ms⟩ = .error x ⟨u, ms'⟩) : ∃ c, Viable L c ∧ ts = c ++ u
  /-- A phrase in front is taken. -/
  total {c u : List Token} (ms : List Mention) (hts : ts = c ++ u) (hc : c ∈ L)
    (hu : Stops stop u) : ∃ a ms', r ⟨ts, ms⟩ = .ok a ⟨u, ms'⟩
  /-- What follows the taken tokens has been looked at for one token only. -/
  ok_of_alike {ms ms' : List Mention} {a : α} {c u v : List Token} (hts : ts = c ++ u)
    (huv : Alike u v) (h : r ⟨ts, ms⟩ = .ok a ⟨u, ms'⟩) : r ⟨c ++ v, ms⟩ = .ok a ⟨v, ms'⟩
  /-- A fault lies in the next token only. -/
  error_of_alike {ms ms' : List Mention} {x : Expectation} {c u v : List Token} (hts : ts = c ++ u)
    (huv : Alike u v) (h : r ⟨ts, ms⟩ = .error x ⟨u, ms'⟩) :
    ∃ y, r ⟨c ++ v, ms⟩ = .error y ⟨v, ms'⟩

/-- The reader `r` reads the language `L`. -/
structure Reads (r : Reader α) (L : Language Token) (stop : Token → Prop) : Prop where
  phrase : Viable L []
  at_text (ts : List Token) : ReadsAt r L stop ts

/-! ## Combinations of readers -/

/-- Two parts in a row. Where the second phrase begins, the first one may end. -/
theorem ReadsAt.bind (h : ReadsAt r L stop ts) (hL : Viable L' [])
    (hf : ∀ a, ∀ c ∈ L, ∀ u, ts = c ++ u → ReadsAt (f a) L' stop' u)
    (follow : ∀ c ∈ L', ∀ u, Stops stop' u → Stops stop (c ++ u)) :
    ReadsAt (r >>= f) (L * L') stop' ts where
  taken e := by
    obtain ⟨a, ⟨w, ms⟩, hr, hfa⟩ := bind_eq_ok_iff.1 e
    obtain ⟨c, hc, rfl⟩ := h.taken hr
    obtain ⟨c', hc', rfl⟩ := (hf a c hc w rfl).taken hfa
    exact ⟨c ++ c', Language.append_mem_mul hc hc', (List.append_assoc ..).symm⟩
  viable e := by
    rcases bind_eq_error_iff.1 e with hr | ⟨a, ⟨w, ms⟩, hr, hfa⟩
    · obtain ⟨c, hc, rfl⟩ := h.viable hr
      exact ⟨c, hc.mul_right hL, rfl⟩
    · obtain ⟨c, hc, rfl⟩ := h.taken hr
      obtain ⟨c', hc', rfl⟩ := (hf a c hc w rfl).viable hfa
      exact ⟨c ++ c', .mul_left hc hc', (List.append_assoc ..).symm⟩
  total {c u} ms hts hc hu := by
    obtain ⟨c₁, hc₁, c₂, hc₂, rfl⟩ := Language.mem_mul.1 hc
    rw [List.append_assoc] at hts
    obtain ⟨a, ms₁, hr⟩ := h.total ms hts hc₁ (follow c₂ hc₂ u hu)
    obtain ⟨b, ms₂, hfa⟩ := (hf a c₁ hc₁ _ hts).total ms₁ rfl hc₂ hu
    exact ⟨b, ms₂, bind_eq_ok_iff.2 ⟨a, _, hr, hfa⟩⟩
  ok_of_alike {ms ms' b c u v} hts huv e := by
    obtain ⟨a, ⟨w, ms₁⟩, hr, hfa⟩ := bind_eq_ok_iff.1 e
    obtain ⟨c₁, hc₁, hw⟩ := h.taken hr
    obtain ⟨c₂, -, rfl⟩ := (hf a c₁ hc₁ w hw).taken hfa
    obtain rfl : c = c₁ ++ c₂ := by simpa [← List.append_assoc] using hts.symm.trans hw
    have hr' := h.ok_of_alike hw (huv.append c₂) hr
    have hfa' := (hf a c₁ hc₁ _ hw).ok_of_alike rfl huv hfa
    rw [List.append_assoc]
    exact bind_eq_ok_iff.2 ⟨a, _, hr', hfa'⟩
  error_of_alike {ms ms' x c u v} hts huv e := by
    rcases bind_eq_error_iff.1 e with hr | ⟨a, ⟨w, ms₁⟩, hr, hfa⟩
    · obtain ⟨y, hy⟩ := h.error_of_alike hts huv hr
      exact ⟨y, bind_eq_error_iff.2 (.inl hy)⟩
    · obtain ⟨c₁, hc₁, hw⟩ := h.taken hr
      obtain ⟨c₂, -, rfl⟩ := (hf a c₁ hc₁ w hw).viable hfa
      obtain rfl : c = c₁ ++ c₂ := by simpa [← List.append_assoc] using hts.symm.trans hw
      have hr' := h.ok_of_alike hw (huv.append c₂) hr
      obtain ⟨y, hy⟩ := (hf a c₁ hc₁ _ hw).error_of_alike rfl huv hfa
      rw [List.append_assoc]
      exact ⟨y, bind_eq_error_iff.2 (.inr ⟨a, _, hr', hy⟩)⟩

theorem Reads.bind (h : Reads r L stop) (hf : ∀ a, Reads (f a) L' stop')
    (follow : ∀ c ∈ L', ∀ u, Stops stop' u → Stops stop (c ++ u)) :
    Reads (r >>= f) (L * L') stop' := by
  obtain ⟨w, -, hw⟩ := h.phrase
  obtain ⟨a, -⟩ := (h.at_text w).total [] (List.append_nil w).symm hw stops_nil
  have hL := (hf a).phrase
  exact ⟨h.phrase.mul_right hL,
    fun ts => (h.at_text ts).bind hL (fun a _ _ u _ => (hf a).at_text u) follow⟩

/-- Two parts in a row, the first of which ends by itself. -/
theorem Reads.seq (h : Reads r L fun _ => True) (hf : ∀ a, Reads (f a) L' stop') :
    Reads (r >>= f) (L * L') stop' :=
  h.bind hf fun _ _ _ _ => stops_true

theorem Reads.mono (h : Reads r L stop) (hs : ∀ t, stop' t → stop t) : Reads r L stop' where
  phrase := h.phrase
  at_text ts := { h.at_text ts with
    total := fun ms hts hc hu => (h.at_text ts).total ms hts hc (hu.mono hs) }

/-- A reader that takes nothing and looks at nothing. -/
theorem reads_of_still (g : List Mention → α × List Mention)
    (hr : ∀ ts ms, r ⟨ts, ms⟩ = .ok (g ms).1 ⟨ts, (g ms).2⟩) : Reads r 1 stop where
  phrase := viable_of_mem Language.nil_mem_one
  at_text ts :=
    { taken := by
        intro ms ms' a u h
        rw [hr] at h
        cases h
        exact ⟨[], rfl, rfl⟩
      viable := by
        intro ms ms' x u h
        rw [hr] at h
        cases h
      total := by
        intro c u ms hts hc hu
        obtain rfl : c = [] := hc
        subst hts
        exact ⟨_, _, hr _ _⟩
      ok_of_alike := by
        intro ms ms' a c u v hts huv h
        rw [hr] at h
        cases h
        obtain rfl : c = [] := by simpa using hts
        exact hr _ _
      error_of_alike := by
        intro ms ms' x c u v hts huv h
        rw [hr] at h
        cases h }

theorem reads_pure (a : α) : Reads (pure a : Reader α) 1 stop :=
  reads_of_still (fun ms => (a, ms)) fun _ _ => rfl

theorem reads_note (m : Mention) : Reads (note m) 1 stop :=
  reads_of_still (fun ms => (m, ms ++ [m])) fun _ _ => rfl

/-- Noting a point takes nothing. -/
theorem Reads.note_seq {m : Mention} {g : Mention → Reader β} (hg : ∀ m, Reads (g m) L stop) :
    Reads (note m >>= g) L stop := by
  have := (reads_note m).seq hg
  rwa [one_mul] at this

/-- What is made of the result does not matter. -/
theorem ReadsAt.map {g : α → Reader β} (h : ReadsAt r L stop ts)
    (hg : ∀ a, Reads (g a) 1 stop) : ReadsAt (r >>= g) L stop ts := by
  have := h.bind (viable_of_mem Language.nil_mem_one) (fun a _ _ u _ => (hg a).at_text u) ?_
  · rwa [mul_one] at this
  · rintro c rfl u hu
    exact hu

theorem Reads.map {g : α → Reader β} (h : Reads r L stop) (hg : ∀ a, Reads (g a) 1 stop) :
    Reads (r >>= g) L stop :=
  ⟨h.phrase, fun ts => (h.at_text ts).map hg⟩

/-- A reader of one token; a `;` is not what it wants. -/
theorem reads_token {e : Expectation} {accept : Token → Except Expectation α}
    (hok : ∀ t, ok t ↔ ∃ a, accept t = .ok a) (hend : ∀ t, t.isDelimiter ";" → ¬ ok t)
    (hL : Viable (word ok) []) : Reads (token e accept) (word ok) fun _ => True where
  phrase := hL
  at_text ts :=
    { taken := by
        intro ms ms' a u h
        obtain ⟨t, ha, rfl, rfl⟩ := token_eq_ok_iff.1 h
        exact ⟨[t], ⟨t, (hok t).2 ⟨a, ha⟩, rfl⟩, rfl⟩
      viable := by
        intro ms ms' x u h
        obtain ⟨-, rfl, rfl⟩ := exists_token_eq_error_iff.1 ⟨x, h⟩
        exact ⟨[], hL, rfl⟩
      total := by
        rintro _ u ms rfl ⟨t, ht, rfl⟩ -
        obtain ⟨a, ha⟩ := (hok t).1 ht
        exact ⟨a, ms, token_eq_ok_iff.2 ⟨t, ha, rfl, rfl⟩⟩
      ok_of_alike := by
        intro ms ms' a c u v hts huv h
        obtain ⟨t, ha, rfl, rfl⟩ := token_eq_ok_iff.1 h
        have hc : [t] ++ u = c ++ u := hts
        obtain rfl := List.append_cancel_right hc
        exact token_eq_ok_iff.2 ⟨t, ha, rfl, rfl⟩
      error_of_alike := by
        intro ms ms' x c u v hts huv h
        obtain ⟨hx, rfl, rfl⟩ := exists_token_eq_error_iff.1 ⟨x, h⟩
        obtain rfl : c = [] := by simpa using hts
        refine exists_token_eq_error_iff.2 ⟨?_, rfl, rfl⟩
        rcases huv with huv | ⟨-, hv⟩
        · rw [List.nil_append, ← huv]
          exact hx
        · intro t ht ha
          exact hend t (hv t ht) ((hok t).2 ha) }

/-! ## Choices -/

/-- A choice that is made by the next token alone, and not between `;` and the end, falls the same
way on texts that are alike. -/
theorem Alike.iff {p : Option Token → Prop} (hp : ∀ t, t.isDelimiter ";" → (p (some t) ↔ p none))
    (h : Alike u v) : p u.head? ↔ p v.head? := by
  have closed : ∀ w, Closed w → (p w.head? ↔ p none) := by
    intro w hw
    cases w with
    | nil => rfl
    | cons t w => exact hp t (hw t rfl)
  rcases h with h | ⟨hu, hv⟩
  · rw [h]
  · rw [closed u hu, closed v hv]

/-- A test that no `;` passes tells a `;` no more than the end of the text. -/
theorem any_semicolon_iff {q : Token → Bool} (hq : ∀ t, t.isDelimiter ";" → q t = false)
    (t : Token) (ht : t.isDelimiter ";") :
    (some t).any q = true ↔ (none : Option Token).any q = true := by
  simp [hq t ht]

/-- A reader reads as another one does if they agree on all texts like this one. -/
theorem ReadsAt.of_agree {q : Reader α} (h : ReadsAt r L stop ts)
    (agree : ∀ us, Alike ts us → ∀ ms, q ⟨us, ms⟩ = r ⟨us, ms⟩) (hL : ∀ c ∈ L, c ∈ L')
    (sort : ∀ c ∈ L', ∀ u, ts = c ++ u → Stops stop u → c ∈ L) : ReadsAt q L' stop ts where
  taken e := by
    rw [agree ts (.inl rfl)] at e
    obtain ⟨c, hc, hts⟩ := h.taken e
    exact ⟨c, hL c hc, hts⟩
  viable e := by
    rw [agree ts (.inl rfl)] at e
    obtain ⟨c, hc, hts⟩ := h.viable e
    exact ⟨c, hc.mono hL, hts⟩
  total ms hts hc hu := by
    rw [agree ts (.inl rfl)]
    exact h.total ms hts (sort _ hc _ hts hu) hu
  ok_of_alike {ms ms' a c u v} hts huv e := by
    rw [agree ts (.inl rfl)] at e
    rw [agree _ (by rw [hts]; exact huv.append c)]
    exact h.ok_of_alike hts huv e
  error_of_alike {ms ms' x c u v} hts huv e := by
    rw [agree ts (.inl rfl)] at e
    rw [agree _ (by rw [hts]; exact huv.append c)]
    exact h.error_of_alike hts huv e

/-- Reading stops at once where no phrase begins. -/
theorem readsAt_throw (x : Expectation) (hL : Viable L [])
    (none : ∀ c ∈ L, ∀ u, ts = c ++ u → ¬ Stops stop u) :
    ReadsAt (throw x : Reader α) L stop ts where
  taken e := nomatch e
  viable e := by
    cases e
    exact ⟨[], hL, rfl⟩
  total _ hts hc hu := (none _ hc _ hts hu).elim
  ok_of_alike _ _ e := nomatch e
  error_of_alike {ms ms' y c u v} hts _ e := by
    cases e
    obtain rfl : c = [] := by simpa using hts
    exact ⟨x, rfl⟩

/-- A choice by the next token. -/
theorem ReadsAt.branch {p : Option Token → Prop} [DecidablePred p]
    (hp : ∀ t, t.isDelimiter ";" → (p (some t) ↔ p none))
    (h : p ts.head? → ReadsAt r L stop ts) (h' : ¬ p ts.head? → ReadsAt r' L' stop ts)
    (sort : ∀ c ∈ L + L', ∀ u, ts = c ++ u → Stops stop u →
      if p ts.head? then c ∈ L else c ∈ L') :
    ReadsAt (ahead >>= fun o => if p o then r else r') (L + L') stop ts := by
  have run : ∀ us ms, (ahead >>= fun o => if p o then r else r') ⟨us, ms⟩ =
      (if p us.head? then r else r') ⟨us, ms⟩ := fun _ _ => rfl
  by_cases hts : p ts.head?
  · refine (h hts).of_agree ?_ ?_ ?_
    · intro us hus ms
      rw [run, if_pos ((hus.iff hp).1 hts)]
    · exact fun c hc => .inl hc
    · intro c hc u e hu
      simpa [hts] using sort c hc u e hu
  · refine (h' hts).of_agree ?_ ?_ ?_
    · intro us hus ms
      rw [run, if_neg fun hus' => hts ((hus.iff hp).2 hus')]
    · exact fun c hc => .inr hc
    · intro c hc u e hu
      simpa [hts] using sort c hc u e hu

end Reader

end Planimetry
