import Planimetry.Node

/-!
# Outlines

A tree is shown with one line for each node and each label, in preorder, the labels of a node
before its children. Lines are indented by four columns for each level above them; a bar runs
down beside the later siblings of a node.
-/

namespace Planimetry

namespace Node

/-- The line of an entry. `last` tells whether it is the last one below its parent. -/
def branch (indent : String) (last : Bool) (text : String) : String :=
  indent ++ (if last then "└── " else "├── ") ++ text

/-- The indentation below an entry. -/
def indentBelow (indent : String) (last : Bool) : String :=
  indent ++ (if last then "    " else "│   ")

/-- The lines of labels. `closed` tells whether nothing follows them below their parent. -/
def labelLines (indent : String) (closed : Bool) : List String → List String
  | [] => []
  | l :: ls => branch indent (closed && ls.isEmpty) l :: labelLines indent closed ls

mutual

def lines (indent : String) (last : Bool) : Node → List String
  | mk kind _ cs =>
    branch indent last kind.name ::
      (labelLines (indentBelow indent last) cs.isEmpty kind.labels ++
        childLines (indentBelow indent last) cs)

/-- The lines of the trees below one parent, to the last of them. -/
def childLines (indent : String) : List Node → List String
  | [] => []
  | c :: cs => lines indent cs.isEmpty c ++ childLines indent cs

end

/-- The outline of a tree; every line ends with a line feed. -/
def outline (n : Node) : String := String.join ((lines "" true n).map (· ++ "\n"))

end Node

end Planimetry
