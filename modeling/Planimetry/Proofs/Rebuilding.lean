import Planimetry.Compilation
import Planimetry.Proofs.Text.Bytes
import Planimetry.Proofs.Text.Numeral
import Planimetry.Proofs.Text.Quoted

/-!
# Rebuilding a drawing

An exported program is read back line by line. The lines that push primitives hold one primitive
each, and another line holds the grid.

## Main definitions

* `Scan`: a computation that takes characters from the front of a text.
* `rebuild`: the primitives and the grid of an exported program.

Main statement: `rebuild_programText`, an export can be read back without loss.
-/

namespace Planimetry

/-! ## Scanning -/

/-- A computation that takes characters from the front of a text. -/
abbrev Scan := StateT (List Char) Option

namespace Scan

/-- Takes the characters of `p`. -/
def skip (p : String) : Scan Unit := fun cs =>
  if p.toList.isPrefixOf cs then some ((), cs.drop p.toList.length) else none

/-- Takes what stands before the next `stop`, and the `stop` as well. -/
def upTo (stop : Char) : Scan (List Char) := fun cs =>
  match cs.dropWhile (· ≠ stop) with
  | [] => none
  | _ :: rest => some (cs.takeWhile (· ≠ stop), rest)

/-- Takes a bounded number and the `stop` behind it. -/
def number (stop : Char) : Scan Int32 := do
  let w ← upTo stop
  let n ← StateT.lift (Text.readNumeral Scalar.least Scalar.greatest w).toOption
  return Int32.ofInt n

/-- Takes digits and the `stop` behind them. -/
def count (stop : Char) : Scan Nat := do
  let w ← upTo stop
  if w.all Char.isDigit then return Nat.ofDigitChars 10 w 0 else failure

def quoted : Scan String := do
  skip "\""
  let text ← (Text.unquoteFrom .plain : Scan (List Char))
  return String.ofList text

/-- The result of a scan that takes a whole line. -/
def whole {α : Type} (x : Scan α) (line : List Char) : Option α :=
  match x.run line with
  | some (a, []) => some a
  | _ => none

/-! ## Lines of an exported program -/

def point : Scan Primitive := do
  skip "Primitive::point("
  let name ← quoted
  skip ", "
  let x ← number ','
  skip " "
  let y ← number ')'
  return .point name ⟨x, y⟩

def segment : Scan Primitive := do
  skip "Primitive::segment("
  let x ← number ','
  skip " "
  let y ← number ','
  skip " "
  let x' ← number ','
  skip " "
  let y' ← number ')'
  return .segment ⟨x, y⟩ ⟨x', y'⟩

def push : Scan Primitive := do
  skip "    primitives.push("
  let p ← point <|> segment
  skip ");"
  return p

def capacity : Scan Nat := do
  skip "    let mut primitives = Vec::with_capacity("
  let n ← count ')'
  skip ";"
  return n

def grid : Scan Grid := do
  skip "    let grid = Grid::new("
  let width ← number ','
  skip " "
  let height ← number ','
  skip " "
  let spacing ← number ')'
  skip ";"
  return Grid.ofMeasures width height spacing

end Scan

theorem Text.toString_self (s : String) : toString s = s := rfl

/-- The lines of a text. Behind its last line feed there is one more line. -/
def Text.lines (text : String) : List (List Char) := text.toList.splitOnP (· == '\n')

/-- What an exported program says. -/
structure Rebuilt where
  capacity : Nat
  primitives : List Primitive
  grid : Grid
deriving DecidableEq

/-- The marks that an exported program prints. -/
def Rebuilt.plot (r : Rebuilt) : List Mark := r.grid.plot r.primitives

/-- Whether the line pushes a primitive. -/
def isPush (line : List Char) : Bool := "    primitives.push(".toList.isPrefixOf line

/-- What an exported program says: all lines that begin like a push are pushes, and the capacity
and the grid stand on the first lines that can be read so. -/
def rebuild (text : String) : Option Rebuilt := do
  let ls := Text.lines text
  let n ← ls.findSome? Scan.capacity.whole
  let ps ← (ls.filter isPush).mapM Scan.push.whole
  let g ← ls.findSome? Scan.grid.whole
  return ⟨n, ps, g⟩

/-! ## What is written -/

namespace Export

theorem expression_point (name : String) (c : Coord) :
    expression (.point name c) = "Primitive::point(" ++ Text.quoted name ++ ", " ++
      toString c.x.toInt ++ ", " ++ toString c.y.toInt ++ ")" := rfl

theorem expression_segment (a b : Coord) :
    expression (.segment a b) = "Primitive::segment(" ++ toString a.x.toInt ++ ", " ++
      toString a.y.toInt ++ ", " ++ toString b.x.toInt ++ ", " ++ toString b.y.toInt ++ ")" := rfl

theorem pushLine_eq (p : Primitive) :
    pushLine p = "    primitives.push(" ++ expression p ++ ");" := rfl

end Export

/-! ## Scans read back what is written -/

namespace Scan

variable {α β : Type} {x : Scan α} {f : α → Scan β} {a : α} {b : β} {out out' : List Char}

/-- The scan takes `out` and has the result `a`, whatever comes behind. -/
def Recovers (x : Scan α) (out : List Char) (a : α) : Prop :=
  ∀ rest, x.run (out ++ rest) = some (a, rest)

theorem Recovers.whole (h : Recovers x out a) : x.whole out = some a := by
  have h := h []
  rw [List.append_nil] at h
  rw [Scan.whole, h]

theorem recovers_pure (a : α) : Recovers (pure a) [] a := fun _ => rfl

theorem recovers_lift {o : Option α} (h : o = some a) : Recovers (StateT.lift o) [] a := by
  rintro rest
  rw [StateT.run_lift, h]
  rfl

theorem Recovers.bind (h : Recovers x out a) (h' : Recovers (f a) out' b) :
    Recovers (x >>= f) (out ++ out') b := by
  intro rest
  rw [StateT.run_bind, List.append_assoc, h]
  exact h' rest

theorem Recovers.orElse_left {y : Scan α} (h : Recovers x out a) : Recovers (x <|> y) out a := by
  intro rest
  change (x.run _ <|> y.run _) = _
  rw [h]
  rfl

theorem Recovers.orElse_right {y : Scan α} (h : Recovers y out a)
    (hx : ∀ rest, x.run (out ++ rest) = none) : Recovers (x <|> y) out a := by
  intro rest
  change (x.run _ <|> y.run _) = _
  rw [hx, h]
  rfl

theorem recovers_skip (p : String) : Recovers (skip p) p.toList () := by
  intro rest
  have h : p.toList.isPrefixOf (p.toList ++ rest) :=
    List.isPrefixOf_iff_prefix.2 (List.prefix_append _ _)
  change skip p _ = _
  rw [skip, if_pos h, List.drop_left]

theorem run_skip_bind_of_not {p : String} {cs : List Char} (h : p.toList.isPrefixOf cs = false) :
    (skip p >>= fun _ => x).run cs = none := by
  have hskip : (skip p).run cs = none := by
    change skip p cs = none
    rw [skip, h]
    rfl
  rw [StateT.run_bind, hskip]
  rfl

theorem whole_skip_bind_of_not {p : String} {cs : List Char} (h : p.toList.isPrefixOf cs = false) :
    (skip p >>= fun _ => x).whole cs = none := by
  rw [whole, run_skip_bind_of_not h]

theorem recovers_upTo {w : List Char} {stop : Char} (h : stop ∉ w) :
    Recovers (upTo stop) (w ++ [stop]) w := by
  intro rest
  have hw : ∀ c ∈ w, decide (c ≠ stop) = true := by
    intro c hc
    have : c ≠ stop := by rintro rfl; exact h hc
    simpa using this
  change upTo stop _ = _
  rw [upTo, List.append_assoc, List.dropWhile_append_of_pos hw, List.takeWhile_append_of_pos hw]
  simp

/-- Neither a sign nor a digit ends a number. -/
theorem recovers_number (n : Int32) {stop : Char} (h : stop ≠ '-') (h' : ¬ stop.isDigit) :
    Recovers (number stop) ((toString n.toInt).toList ++ [stop]) n := by
  have hstop : stop ∉ (toString n.toInt).toList := fun hmem =>
    (Text.mem_toList_toString hmem).elim h h'
  obtain ⟨hlo, hhi⟩ := Scalar.fits_toInt n
  have hread := Text.readNumeral_toString hlo hhi (by decide) (by decide)
  have hnumber : Recovers (number stop) (((toString n.toInt).toList ++ [stop]) ++ ([] ++ []))
      (Int32.ofInt n.toInt) :=
    (recovers_upTo hstop).bind <| (recovers_lift (congrArg Except.toOption hread)).bind <|
      recovers_pure _
  rwa [Int32.ofInt_toInt, List.append_nil, List.append_nil] at hnumber

theorem recovers_number_comma (n : Int32) :
    Recovers (number ',') ((toString n.toInt).toList ++ [',']) n :=
  recovers_number n (by decide) (by decide)

theorem recovers_number_paren (n : Int32) :
    Recovers (number ')') ((toString n.toInt).toList ++ [')']) n :=
  recovers_number n (by decide) (by decide)

theorem recovers_count (n : Nat) {stop : Char} (h : ¬ stop.isDigit) :
    Recovers (count stop) ((toString n).toList ++ [stop]) n := by
  have hstop : stop ∉ (toString n).toList := by
    intro hmem
    rw [Nat.toString_eq_repr, Nat.toList_repr] at hmem
    exact h (Text.isDigit_of_mem_toDigits hmem)
  have hall : (toString n).toList.all Char.isDigit := by
    rw [Nat.toString_eq_repr, Nat.toList_repr, List.all_eq_true]
    exact fun c => Text.isDigit_of_mem_toDigits
  have hvalue : Nat.ofDigitChars 10 (toString n).toList 0 = n := by
    rw [Nat.toString_eq_repr, Nat.toList_repr, Nat.ofDigitChars_ten_toDigits]
  have hcount : Recovers (count stop) (((toString n).toList ++ [stop]) ++ []) n := by
    refine (recovers_upTo hstop).bind ?_
    rw [if_pos hall, hvalue]
    exact recovers_pure n
  rwa [List.append_nil] at hcount

theorem recovers_quoted (s : String) : Recovers quoted (Text.quoted s).toList s := by
  have htext : @Recovers (List Char) (Text.unquoteFrom .plain) (Text.escape s.toList ++ ['"'])
      s.toList := by
    intro rest
    rw [List.append_assoc]
    exact Text.unquoteFrom_escape s.toList rest
  have hquoted : Recovers quoted ("\"".toList ++ ((Text.escape s.toList ++ ['"']) ++ []))
      (String.ofList s.toList) :=
    (recovers_skip "\"").bind (htext.bind (recovers_pure _))
  simpa [Text.quoted] using hquoted

/-! ## Lines of an exported program -/

open Export (expression pushLine expression_point expression_segment pushLine_eq)

theorem recovers_point (name : String) (c : Coord) :
    Recovers point (expression (.point name c)).toList (.point name c) := by
  have hpoint : Recovers point
      ("Primitive::point(".toList ++ ((Text.quoted name).toList ++ (", ".toList ++
        (((toString c.x.toInt).toList ++ [',']) ++ (" ".toList ++
          (((toString c.y.toInt).toList ++ [')']) ++ []))))))
      (.point name c) :=
    (recovers_skip _).bind <| (recovers_quoted name).bind <| (recovers_skip _).bind <|
      (recovers_number_comma c.x).bind <| (recovers_skip _).bind <|
      (recovers_number_paren c.y).bind <| recovers_pure _
  simpa [expression_point] using hpoint

theorem recovers_segment (a b : Coord) :
    Recovers segment (expression (.segment a b)).toList (.segment a b) := by
  have hsegment : Recovers segment
      ("Primitive::segment(".toList ++ (((toString a.x.toInt).toList ++ [',']) ++ (" ".toList ++
        (((toString a.y.toInt).toList ++ [',']) ++ (" ".toList ++
          (((toString b.x.toInt).toList ++ [',']) ++ (" ".toList ++
            (((toString b.y.toInt).toList ++ [')']) ++ []))))))))
      (.segment a b) :=
    (recovers_skip _).bind <| (recovers_number_comma a.x).bind <|
      (recovers_skip _).bind <| (recovers_number_comma a.y).bind <|
      (recovers_skip _).bind <| (recovers_number_comma b.x).bind <|
      (recovers_skip _).bind <| (recovers_number_paren b.y).bind <|
      recovers_pure _
  simpa [expression_segment] using hsegment

/-- A segment is not taken for a point. -/
theorem run_point_segment (a b : Coord) (rest : List Char) :
    point.run ((expression (.segment a b)).toList ++ rest) = none := by
  rw [expression_segment]
  apply run_skip_bind_of_not
  simp [List.isPrefixOf]

theorem recovers_push (p : Primitive) : Recovers push (pushLine p).toList p := by
  have hexpr : Recovers (point <|> segment) (expression p).toList p := by
    cases p with
    | point name c => exact (recovers_point name c).orElse_left
    | segment a b => exact (recovers_segment a b).orElse_right (run_point_segment a b)
  have hpush : Recovers push
      ("    primitives.push(".toList ++ ((expression p).toList ++ (");".toList ++ []))) p :=
    (recovers_skip _).bind <| hexpr.bind <| (recovers_skip _).bind <| recovers_pure p
  simpa [pushLine_eq] using hpush

theorem recovers_capacity (n : Nat) :
    Recovers capacity (s!"    let mut primitives = Vec::with_capacity({n});").toList n := by
  have hcapacity : Recovers capacity
      ("    let mut primitives = Vec::with_capacity(".toList ++
        (((toString n).toList ++ [')']) ++ (";".toList ++ []))) n :=
    (recovers_skip _).bind <| (recovers_count n (by decide)).bind <| (recovers_skip _).bind <|
      recovers_pure n
  simpa [Text.toString_self] using hcapacity

theorem recovers_grid (g : Grid) :
    Recovers grid
      (s!"    let grid = Grid::new({g.width.toInt}, {g.height.toInt}, {g.spacing.toInt});").toList
      (Grid.ofMeasures g.width g.height g.spacing) := by
  have hgrid : Recovers grid
      ("    let grid = Grid::new(".toList ++ (((toString g.width.toInt).toList ++ [',']) ++
        (" ".toList ++ (((toString g.height.toInt).toList ++ [',']) ++ (" ".toList ++
          (((toString g.spacing.toInt).toList ++ [')']) ++ (";".toList ++ [])))))))
      (Grid.ofMeasures g.width g.height g.spacing) :=
    (recovers_skip _).bind <| (recovers_number_comma g.width).bind <|
      (recovers_skip _).bind <| (recovers_number_comma g.height).bind <|
      (recovers_skip _).bind <| (recovers_number_paren g.spacing).bind <|
      (recovers_skip _).bind <| recovers_pure _
  simpa [Text.toString_self] using hgrid

end Scan

/-! ## Lines -/

/-- Lines without line feeds, each ended by one, are the lines of the text. -/
theorem Text.lines_join {ls : List String} (h : ∀ l ∈ ls, '\n' ∉ l.toList) :
    lines (String.join (ls.map (· ++ "\n"))) = ls.map String.toList ++ [[]] := by
  rw [lines, String.toList_join]
  induction ls with
  | nil => rfl
  | cons l ls ih =>
    have hl : ∀ c ∈ l.toList, (c == '\n') = false := by
      intro c hc
      have : c ≠ '\n' := by rintro rfl; exact h l List.mem_cons_self hc
      simpa using this
    have ih := ih fun l hl => h l (List.mem_cons_of_mem _ hl)
    have hnewline : "\n".toList = ['\n'] := rfl
    rw [List.map_cons, List.flatMap_cons, String.toList_append, hnewline, List.append_assoc,
      List.singleton_append, List.splitOnP_append_cons_of_forall_mem hl '\n' rfl, ih]
    rfl

namespace Text

/-- The text has no line feed. -/
def OneLine (s : String) : Prop := '\n' ∉ s.toList

instance (s : String) : Decidable (OneLine s) := inferInstanceAs (Decidable (_ ∉ _))

@[simp] theorem oneLine_append {s s' : String} : OneLine (s ++ s') ↔ OneLine s ∧ OneLine s' := by
  simp [OneLine]

@[simp] theorem oneLine_toString (n : Int) : OneLine (toString n) := fun h =>
  (mem_toList_toString h).elim (by decide) (by decide)

@[simp] theorem oneLine_toString_nat (n : Nat) : OneLine (toString n) := oneLine_toString n

@[simp] theorem oneLine_quoted (s : String) : OneLine (quoted s) := by
  simp [OneLine, quoted, newline_notMem_escape]

end Text

namespace Export

open Text (OneLine)

variable {g : Grid} {ps : List Primitive}

@[simp] theorem oneLine_expression (p : Primitive) : OneLine (expression p) := by
  cases p with
  | point name c =>
    simp only [expression_point, Text.oneLine_append, Text.oneLine_quoted, Text.oneLine_toString]
    decide
  | segment a b =>
    simp only [expression_segment, Text.oneLine_append, Text.oneLine_toString]
    decide

theorem oneLine_pushLine (p : Primitive) : OneLine (pushLine p) := by
  simp only [pushLine_eq, Text.oneLine_append, oneLine_expression]
  decide

/-- Every line of the program stands on one line. -/
theorem oneLine_programLines (g : Grid) (ps : List Primitive) :
    ∀ l ∈ programLines g ps, OneLine l := by
  have hpush : ∀ l ∈ ps.map pushLine, OneLine l := by
    intro l hl
    obtain ⟨p, -, rfl⟩ := List.mem_map.1 hl
    exact oneLine_pushLine p
  simp only [programLines, List.forall_mem_append, List.forall_mem_cons, Text.toString_self,
    Text.oneLine_append, Text.oneLine_toString, Text.oneLine_toString_nat]
  refine ⟨⟨⟨?_, ?_, ?_, ?_, ?_, nofun⟩, hpush⟩, ?_, ?_, ?_, ?_, ?_, ?_, nofun⟩
  all_goals decide

theorem lines_programText (g : Grid) (ps : List Primitive) :
    Text.lines (programText g ps) = (programLines g ps).map String.toList ++ [[]] :=
  Text.lines_join (oneLine_programLines g ps)

/-! ## Reading the lines -/

theorem isPush_pushLine (p : Primitive) : isPush (pushLine p).toList = true := by
  rw [pushLine_eq]
  simp [isPush, List.isPrefixOf]

/-- The lines that begin like a push are those of the primitives. -/
theorem filter_isPush_lines (g : Grid) (ps : List Primitive) :
    (Text.lines (programText g ps)).filter isPush = ps.map fun p => (pushLine p).toList := by
  have hpush :
      (ps.map (String.toList ∘ pushLine)).filter isPush = ps.map (String.toList ∘ pushLine) := by
    rw [List.filter_eq_self]
    intro l hl
    obtain ⟨p, -, rfl⟩ := List.mem_map.1 hl
    exact isPush_pushLine p
  rw [lines_programText]
  simp only [programLines, List.map_append, List.filter_append, List.map_map, hpush]
  simp [isPush, List.isPrefixOf, Text.toString_self]

/-- The first line that can be read so, behind lines that cannot. -/
theorem findSome?_of_none {α β : Type} {f : α → Option β} (pre : List α) {post : List α} {a : α}
    (h : ∀ x ∈ pre, f x = none) (hf : (f a).isSome) : (pre ++ a :: post).findSome? f = f a := by
  rw [List.findSome?_append, List.findSome?_eq_none_iff.2 h, Option.none_or,
    List.findSome?_cons_of_isSome hf]

theorem findSome?_capacity (g : Grid) (ps : List Primitive) :
    (Text.lines (programText g ps)).findSome? Scan.capacity.whole = some ps.length := by
  have hline := (Scan.recovers_capacity ps.length).whole
  rw [lines_programText, ← hline]
  refine findSome?_of_none [_, _, _, _] ?_ (Option.isSome_of_eq_some hline)
  simp only [List.forall_mem_cons]
  refine ⟨?_, ?_, ?_, ?_, nofun⟩
  all_goals
    apply Scan.whole_skip_bind_of_not
    simp [List.isPrefixOf, Text.toString_self]

/-- No push is read as a grid, whatever the name of its point. -/
theorem whole_grid_pushLine (p : Primitive) : Scan.grid.whole (pushLine p).toList = none := by
  rw [pushLine_eq]
  apply Scan.whole_skip_bind_of_not
  simp [List.isPrefixOf]

theorem findSome?_grid (g : Grid) (ps : List Primitive) :
    (Text.lines (programText g ps)).findSome? Scan.grid.whole =
      some (Grid.ofMeasures g.width g.height g.spacing) := by
  have hline := (Scan.recovers_grid g).whole
  have hpush : ∀ l ∈ ps.map (String.toList ∘ pushLine), Scan.grid.whole l = none := by
    intro l hl
    obtain ⟨p, -, rfl⟩ := List.mem_map.1 hl
    exact whole_grid_pushLine p
  rw [lines_programText, ← hline, programLines, List.map_append, List.map_append, List.append_assoc,
    List.append_assoc, List.map_map]
  rw [List.findSome?_append, List.findSome?_eq_none_iff.2, Option.none_or, List.findSome?_append,
    List.findSome?_eq_none_iff.2 hpush, Option.none_or]
  · refine findSome?_of_none [_] ?_ (Option.isSome_of_eq_some hline)
    simp only [List.forall_mem_cons]
    refine ⟨?_, nofun⟩
    apply Scan.whole_skip_bind_of_not
    simp
  · simp only [List.map_cons, List.map_nil, List.forall_mem_cons]
    refine ⟨?_, ?_, ?_, ?_, ?_, nofun⟩
    all_goals
      apply Scan.whole_skip_bind_of_not
      simp [List.isPrefixOf, Text.toString_self]

theorem mapM_push (ps : List Primitive) :
    (ps.map fun p => (pushLine p).toList).mapM Scan.push.whole = some ps := by
  induction ps with
  | nil => rfl
  | cons p ps ih => simp [ih, (Scan.recovers_push p).whole]

/-- An export says what was exported. -/
theorem rebuild_programText (g : Grid) (ps : List Primitive) :
    rebuild (programText g ps) =
      some ⟨ps.length, ps, Grid.ofMeasures g.width g.height g.spacing⟩ := by
  simp only [rebuild, findSome?_capacity, filter_isPush_lines, mapM_push, findSome?_grid]
  rfl

end Export

/-- A grid keeps its spacing when it is made again. -/
theorem Grid.ofMeasures_ofMeasures (w h s : Int32) :
    ofMeasures (ofMeasures w h s).width (ofMeasures w h s).height (ofMeasures w h s).spacing =
      ofMeasures w h s := by
  have max_eq : ∀ a b : Int32, max a b = if a ≤ b then b else a := fun _ _ => rfl
  simp only [ofMeasures, mk.injEq, true_and]
  grind

/-! ## What a compilation writes -/

namespace Script

variable {s : Script} {t : PointTable} {g : Grid} {d : Drawing}

/-- A sink that takes everything gets the export of the drawing. -/
theorem compile_unlimited (h : s.parse t = .ok d) :
    s.compile t g .unlimited =
      (.ok ⟨d, s.diagnostics d.tree⟩,
        ⟨(Export.programText g d.primitives).toUTF8.toList, none, false⟩) := by
  simp [compile, compileTo, h, Export.ofGrid, Export.addAll, Export.finish, Sink.deliver,
    Sink.write, Sink.flush, Sink.unlimited]

end Script

namespace Export

/-- An export can be read back without loss: the text determines the grid and the primitives, each
primitive stands on one line, and what is read from the lines plots the same marks. So it is with
what a compilation writes. -/
theorem programText_lossless (w h s : Int32) (ps : List Primitive) :
    let g := Grid.ofMeasures w h s
    let text := programText g ps
    (∀ w' h' s' ps', programText (Grid.ofMeasures w' h' s') ps' = text →
      Grid.ofMeasures w' h' s' = g ∧ ps' = ps) ∧
    ((Text.lines text).filter isPush).map Scan.push.whole = ps.map some ∧
    rebuild text = some ⟨ps.length, ps, g⟩ ∧
    (rebuild text).map Rebuilt.plot = some (g.plot ps) ∧
    ∀ (sc : Script) (t : PointTable) (c : Compilation) (sink : Sink),
      sc.compile t g .unlimited = (.ok c, sink) →
        ∃ written, String.fromUTF8? ⟨sink.taken.toArray⟩ = some written ∧
          rebuild written = some ⟨c.drawing.primitives.length, c.drawing.primitives, g⟩ := by
  intro g text
  have hread : ∀ ps, rebuild (programText g ps) = some ⟨ps.length, ps, g⟩ := by
    intro ps
    rw [rebuild_programText, Grid.ofMeasures_ofMeasures]
  refine ⟨?_, ?_, hread ps, ?_, ?_⟩
  · intro w' h' s' ps' heq
    have hread' := rebuild_programText (Grid.ofMeasures w' h' s') ps'
    rw [heq, Grid.ofMeasures_ofMeasures, hread ps] at hread'
    obtain ⟨-, rfl, hg⟩ := Rebuilt.mk.inj (Option.some.inj hread')
    exact ⟨hg.symm, rfl⟩
  · rw [filter_isPush_lines, List.map_map]
    exact List.map_congr_left fun p _ => (Scan.recovers_push p).whole
  · rw [hread]
    rfl
  · intro sc t c sink hc
    have hparse := (Script.of_compileTo hc).1
    rw [Script.compile_unlimited hparse] at hc
    obtain ⟨-, rfl⟩ := Prod.mk.inj hc
    exact ⟨_, Text.fromUTF8?_toList_toUTF8 _, hread _⟩

/-- A script of one point. -/
def onePoint : Script := .ofText "поставити точку A (1,2)" none

theorem lossless_of_onePoint :
    ∃ c sink, onePoint.compile (.ofTape ⟨fun _ => 0, 0, 0⟩) (.ofMeasures 800 600 0) .unlimited =
        (.ok c, sink) ∧
      ∃ written, String.fromUTF8? ⟨sink.taken.toArray⟩ = some written ∧
        rebuild written = some ⟨c.drawing.primitives.length, c.drawing.primitives,
          .ofMeasures 800 600 0⟩ := by
  let a : Mention := ⟨"A", ⟨1, 17⟩, some ⟨1, 2⟩⟩
  have e : Reader.operation ⟨onePoint.tokens, []⟩ = .ok ⟨⟨1, 1⟩, .place a⟩ ⟨[], [a]⟩ := by rfl
  obtain ⟨d, h⟩ : ∃ d, onePoint.parse (.ofTape ⟨fun _ => 0, 0, 0⟩) = .ok d := by
    rw [Script.parse, Script.reading, Reading.ofTokens_of_end e]
    exact ⟨_, rfl⟩
  have hc := Script.compile_unlimited (g := .ofMeasures 800 600 0) h
  exact ⟨_, _, hc, (programText_lossless 800 600 0 []).2.2.2.2 _ _ _ _ hc⟩

end Export

end Planimetry
