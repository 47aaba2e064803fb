import Mathlib.Data.List.Lex
import Planimetry.Node.Outline

/-!
# The layout of an outline

The nodes and labels of a tree are found at addresses, which tell for each level which of the
siblings to follow. An outline has one row for each address, in their lexicographic order, and the
address alone tells how far the row is indented and which bars run through it.

## Main definitions

* `Entry.at?`: the node or label at an address.
* `Entry.row`: the row of an address.
* `Node.addresses`: the addresses of a tree in preorder.

Main statements: `lines_eq_map_row`, `mem_addresses_iff` and `pairwise_addresses`.
-/

namespace Planimetry

/-- What has a row of its own in an outline. -/
inductive Entry where
  | node (n : Node)
  | label (text : String)

namespace Entry

def text : Entry → String
  | node n => n.kind.name
  | label text => text

/-- The entries right below another one: the labels of a node, and then its children. -/
def below : Entry → List Entry
  | node n => n.kind.labels.map label ++ n.children.map node
  | label _ => []

/-- The entry at an address. -/
def at? (e : Entry) : List Nat → Option Entry
  | [] => some e
  | i :: a => e.below[i]?.bind fun c => c.at? a

/-- Whether an entry is the last one below its parent. For the top entry `last` tells it. -/
def closes (last : Bool) (e : Entry) (a : List Nat) : Bool :=
  match a.getLast? with
  | none => last
  | some i => (e.at? a.dropLast).any fun parent => parent.below.length = i + 1

/-- The row of an address: a column for each entry above it, with a bar unless that entry is the
last one below its own parent, then the branch to the entry, and its text. -/
def row (indent : String) (last : Bool) (e : Entry) (a : List Nat) : String :=
  indent ++
    String.join ((List.range a.length).map fun k =>
      if e.closes last (a.take k) then "    " else "│   ") ++
    (if e.closes last a then "└── " else "├── ") ++ ((e.at? a).elim "" text)

end Entry

mutual

/-- The addresses of a tree in preorder. -/
def Node.addresses : Node → List (List Nat)
  | .mk kind _ cs =>
    [] :: ((List.range kind.labels.length).map ([·]) ++
      Node.childAddresses kind.labels.length cs)

/-- The addresses of trees below one parent, of which `i` entries come before them. -/
def Node.childAddresses (i : Nat) : List Node → List (List Nat)
  | [] => []
  | c :: cs => c.addresses.map (i :: ·) ++ Node.childAddresses (i + 1) cs

end

/-! ## Entries below one parent -/

mutual

/-- What holds for an entry if it holds for the entries below it holds for every node. -/
theorem Node.entryInduction {P : Entry → Prop} (h : ∀ e, (∀ c ∈ e.below, P c) → P e) :
    ∀ n : Node, P (.node n)
  | .mk kind pos cs => by
    refine h _ fun c hc => ?_
    rcases List.mem_append.1 hc with hc | hc
    · obtain ⟨text, -, rfl⟩ := List.mem_map.1 hc
      exact h _ (List.forall_mem_nil _)
    · obtain ⟨n, hn, rfl⟩ := List.mem_map.1 hc
      exact Node.entryInduction_of_mem h cs n hn

theorem Node.entryInduction_of_mem {P : Entry → Prop} (h : ∀ e, (∀ c ∈ e.below, P c) → P e) :
    ∀ (cs : List Node), ∀ n ∈ cs, P (.node n)
  | [], _, hn => nomatch hn
  | c :: cs, n, hn => by
    rcases List.mem_cons.1 hn with heq | hn
    · rw [heq]
      exact Node.entryInduction h c
    · exact Node.entryInduction_of_mem h cs n hn

end

namespace Entry

theorem induction {P : Entry → Prop} (h : ∀ e, (∀ c ∈ e.below, P c) → P e) (e : Entry) : P e := by
  cases e with
  | node n => exact Node.entryInduction h n
  | label text => exact h _ (List.forall_mem_nil _)

def lines (indent : String) (last : Bool) : Entry → List String
  | node n => n.lines indent last
  | label text => [Node.branch indent last text]

/-- The lines of the entries below one parent, to the last of them. -/
def siblingLines (indent : String) : List Entry → List String
  | [] => []
  | e :: es => e.lines indent es.isEmpty ++ siblingLines indent es

def addresses : Entry → List (List Nat)
  | node n => n.addresses
  | label _ => [[]]

/-- The addresses of entries below one parent, of which `i` come before them. -/
def siblingAddresses (i : Nat) : List Entry → List (List Nat)
  | [] => []
  | e :: es => e.addresses.map (i :: ·) ++ siblingAddresses (i + 1) es

theorem siblingLines_eq (indent : String) (ls : List String) (cs : List Node) :
    siblingLines indent (ls.map label ++ cs.map node) =
      Node.labelLines indent cs.isEmpty ls ++ Node.childLines indent cs := by
  induction ls with
  | nil =>
    rw [List.map_nil, List.nil_append, Node.labelLines, List.nil_append]
    induction cs with
    | nil => rfl
    | cons c cs ih =>
      rw [List.map_cons, siblingLines, ih, Node.childLines, List.isEmpty_map]
      rfl
  | cons l ls ih =>
    rw [List.map_cons, List.cons_append, siblingLines, ih, Node.labelLines]
    cases ls <;> cases cs <;> rfl

theorem lines_eq (indent : String) (last : Bool) (e : Entry) :
    e.lines indent last =
      Node.branch indent last e.text :: siblingLines (Node.indentBelow indent last) e.below := by
  cases e with
  | node n =>
    obtain ⟨kind, pos, cs⟩ := n
    rw [lines, Node.lines, ← siblingLines_eq]
    rfl
  | label text => rfl

theorem siblingAddresses_children (i : Nat) (cs : List Node) :
    siblingAddresses i (cs.map node) = Node.childAddresses i cs := by
  induction cs generalizing i with
  | nil => rfl
  | cons c cs ih =>
    rw [List.map_cons, siblingAddresses, ih, Node.childAddresses]
    rfl

theorem siblingAddresses_eq (i : Nat) (ls : List String) (cs : List Node) :
    siblingAddresses i (ls.map label ++ cs.map node) =
      (List.range ls.length).map (fun j => [i + j]) ++ Node.childAddresses (i + ls.length) cs := by
  induction ls generalizing i with
  | nil => exact siblingAddresses_children i cs
  | cons l ls ih =>
    rw [List.map_cons, List.cons_append, siblingAddresses, ih, List.length_cons,
      List.range_succ_eq_map, List.map_cons, List.map_map]
    simp [addresses, Function.comp_def, Nat.add_assoc, Nat.add_comm 1]

theorem addresses_eq (e : Entry) : e.addresses = [] :: siblingAddresses 0 e.below := by
  cases e with
  | node n =>
    obtain ⟨kind, pos, cs⟩ := n
    have hsiblings := siblingAddresses_eq 0 kind.labels cs
    simp only [Nat.zero_add] at hsiblings
    rw [addresses, Node.addresses, ← hsiblings]
    rfl
  | label text => rfl

/-! ## Rows -/

variable {e c : Entry} {i : Nat}

theorem closes_cons (last : Bool) (hc : e.below[i]? = some c) (a : List Nat) :
    e.closes last (i :: a) = c.closes (e.below.length = i + 1) a := by
  cases a with
  | nil => simp [closes, at?]
  | cons j a => simp [closes, at?, hc, List.getLast?_cons]

theorem row_nil (indent : String) (last : Bool) (e : Entry) :
    e.row indent last [] = Node.branch indent last e.text := by
  simp only [row, List.length_nil, List.range_zero, List.map_nil, String.join_nil,
    String.append_empty]
  rfl

theorem row_cons (indent : String) (last : Bool) (hc : e.below[i]? = some c) (a : List Nat) :
    e.row indent last (i :: a) =
      c.row (Node.indentBelow indent last) (e.below.length = i + 1) a := by
  have hat : e.at? (i :: a) = c.at? a := by simp [at?, hc]
  have htop : e.closes last [] = last := rfl
  simp only [row, hat, closes_cons last hc, htop, List.length_cons, List.range_succ_eq_map,
    List.map_cons, List.map_map, String.join_cons, Function.comp_def, List.take_succ_cons,
    List.take_zero, Node.indentBelow, String.append_assoc]

/-- The lines of an entry are the rows of its addresses. -/
theorem lines_eq_map_row (indent : String) (last : Bool) (e : Entry) :
    e.lines indent last = e.addresses.map (e.row indent last) := by
  induction e using induction generalizing indent last with
  | h e ih =>
    -- the entries below, cut anywhere
    have siblings (pre es : List Entry) (hbelow : e.below = pre ++ es) :
        siblingLines (Node.indentBelow indent last) es =
          (siblingAddresses pre.length es).map (e.row indent last) := by
      induction es generalizing pre with
      | nil => rfl
      | cons c es ihes =>
        have hc : e.below[pre.length]? = some c := by simp [hbelow]
        have hlast : es.isEmpty = decide (e.below.length = pre.length + 1) := by
          cases es <;> simp [hbelow]
        have hrest := ihes (pre ++ [c]) (by simp [hbelow])
        rw [List.length_append, List.length_singleton] at hrest
        rw [siblingLines, siblingAddresses, List.map_append, List.map_map, hrest, hlast,
          ih c (List.mem_of_getElem? hc)]
        congr 1
        exact List.map_congr_left fun a _ => (row_cons indent last hc a).symm
    rw [lines_eq, addresses_eq, List.map_cons, row_nil, siblings [] e.below rfl]
    rfl

/-! ## Addresses -/

theorem mem_siblingAddresses_iff {es : List Entry} {a : List Nat} :
    a ∈ siblingAddresses i es ↔
      ∃ j b, a = (i + j) :: b ∧ ∃ c, es[j]? = some c ∧ b ∈ c.addresses := by
  induction es generalizing i with
  | nil => simp [siblingAddresses]
  | cons e es ih =>
    rw [siblingAddresses, List.mem_append, List.mem_map, ih]
    constructor
    · rintro (⟨b, hb, rfl⟩ | ⟨j, b, rfl, hc⟩)
      · exact ⟨0, b, rfl, e, rfl, hb⟩
      · exact ⟨j + 1, b, by rw [Nat.add_right_comm, Nat.add_assoc], hc⟩
    · rintro ⟨_ | j, b, rfl, c, hc, hb⟩
      · cases hc
        exact .inl ⟨b, hb, rfl⟩
      · exact .inr ⟨j, b, by rw [Nat.add_right_comm, Nat.add_assoc], c, hc, hb⟩

/-- The addresses of an entry are those at which there is one. -/
theorem mem_addresses_iff {a : List Nat} : a ∈ e.addresses ↔ (e.at? a).isSome := by
  induction a generalizing e with
  | nil => simp [addresses_eq, at?]
  | cons i a ih =>
    rw [addresses_eq, List.mem_cons, mem_siblingAddresses_iff]
    cases hc : e.below[i]? with
    | none => simp [at?, hc]
    | some c => simp [at?, hc, ← ih]

/-- The addresses come in preorder. -/
theorem pairwise_addresses (e : Entry) : e.addresses.Pairwise (· < ·) := by
  induction e using induction with
  | h e ih =>
    have siblings (i : Nat) (es : List Entry) (hes : ∀ c ∈ es, c ∈ e.below) :
        (siblingAddresses i es).Pairwise (· < ·) := by
      induction es generalizing i with
      | nil => exact .nil
      | cons c es ihes =>
        obtain ⟨hc, hes⟩ := List.forall_mem_cons.1 hes
        refine List.pairwise_append.2 ⟨?_, ihes (i + 1) hes, ?_⟩
        · refine List.pairwise_map.2 ((ih c hc).imp fun hlt => ?_)
          exact List.cons_lt_cons_iff.2 (.inr ⟨rfl, hlt⟩)
        · intro a ha b hb
          obtain ⟨a, -, rfl⟩ := List.mem_map.1 ha
          obtain ⟨j, b, rfl, -⟩ := mem_siblingAddresses_iff.1 hb
          exact List.cons_lt_cons_iff.2 (.inl (by omega))
    rw [addresses_eq]
    refine List.pairwise_cons.2 ⟨fun a ha => ?_, siblings 0 e.below fun _ => id⟩
    obtain ⟨j, b, rfl, -⟩ := mem_siblingAddresses_iff.1 ha
    exact List.nil_lt_cons _ _

example :
    (Node.mk .operation .start
      [.leaf (.putPoint ⟨"A", ⟨0, 0⟩, .explicit, .start⟩) .start,
        .leaf .buildTriangle .start]).addresses = [[], [0], [0, 0], [0, 1], [1]] := by
  decide

end Entry

end Planimetry
