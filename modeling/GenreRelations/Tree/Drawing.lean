import GenreRelations.Text.Lines
import GenreRelations.Tree.Basic

/-!
The drawing of a tree for the terminal: one line for each tree and symbol in it, parents before
children. Branch marks lead from a line to the lines of its children.
-/

namespace GenreRelations

/-- A label with the outlines below it. -/
inductive Outline where
  | node (label : Text) (children : List Outline)

namespace Outline

/-- Puts one text before the first line and another before the lines after it. -/
def indent (first rest : Text) : List Text → List Text
  | [] => []
  | l :: ls => (first ++ l) :: ls.map (rest ++ ·)

mutual

def lines : Outline → List Text
  | node label children => label :: childrenLines children

/-- The lines of siblings: the last one ends the bar that runs down beside the others. -/
def childrenLines : List Outline → List Text
  | [] => []
  | [o] => indent "└── ".toList "    ".toList (lines o)
  | o :: p :: os =>
    indent "├── ".toList "│   ".toList (lines o) ++ childrenLines (p :: os)

end

/-- The drawing, every line of it closed by a line feed. -/
def text (o : Outline) : Text := Text.unlines o.lines

end Outline

namespace Tree

mutual

/-- A leaf is labelled with its name, a composite tree with its shape and relation. -/
def outline : Tree → Outline
  | leaf n => .node n []
  | pair l r t => .node (r.operator ++ " pair".toList) [l.outline, t.outline]
  | chain r ts => .node (r.operator ++ " chain".toList) (operandOutlines ts)
  | sequence es => .node "sequence".toList (elementOutlines es)

def operandOutlines : List Tree → List Outline
  | [] => []
  | t :: ts => t.outline :: operandOutlines ts

def elementOutlines : List Element → List Outline
  | [] => []
  | .tree t :: es => t.outline :: elementOutlines es
  | .symbol r :: es => .node r.operator [] :: elementOutlines es

end

/-- The tree drawn for the terminal. -/
def drawing (t : Tree) : Text := t.outline.text

end Tree

end GenreRelations
