import PascalScan.Token.Basic

/-!
# `PascalScan.Token.Outline`: trees written as indented text

A node is written on a line of its own; below it come a heading and its inner nodes, each one
tab further in. Trees may be deeper than the call stack, so `Tree.render` writes the nodes in the
order in which `Tree.foldPreorder` visits them, and the indentation of a node follows from its
depth alone. `Tree.outline` says by recursion what the text is.
-/

set_option autoImplicit false

namespace PascalScan

namespace Tree

variable {α : Type}

/-! ### The layout, by recursion -/

mutual

/-- The outline of a tree whose inner nodes stand one tab further in than `indent`. -/
def outline (line : α → String) (indent : String) : Tree α → String
  | node a [] => line a
  | node a (t :: ts) =>
    line a ++ "\n" ++ indent ++ "Inner tokens:" ++ outlineAll line (indent ++ "\t") (t :: ts)

/-- The outlines of trees, each on a new line after `indent`. -/
def outlineAll (line : α → String) (indent : String) : List (Tree α) → String
  | [] => ""
  | t :: ts => "\n" ++ indent ++ outline line indent t ++ outlineAll line indent ts

end

/-! ### The same text, node by node -/

/-- The indentation of a node. -/
def indentation (indent : String) (depth : Nat) : String :=
  indent ++ String.ofList (List.replicate depth '\t')

/-- What is written for one node: its line, which stands on a line of its own below the top, and
the heading of its inner nodes if it has any. -/
def nodeText (line : α → String) (indentation : String) (depth : Nat) (t : Tree α) : String :=
  let start := if depth = 0 then "" else "\n" ++ indentation
  let heading := if t.inner.isEmpty then "" else "\n" ++ indentation ++ "Inner tokens:"
  start ++ line t.label ++ heading

/-- Writes one node. -/
def writeNode (line : α → String) (indent : String) (written : String) (depth : Nat)
    (t : Tree α) : String :=
  written ++ nodeText line (indentation indent depth) depth t

/-- The outline of a tree, written node by node. -/
def render (line : α → String) (indent : String) (t : Tree α) : String :=
  t.foldPreorder (writeNode line indent) ""

end Tree

namespace Token

/-- The line for one token, of which the characters are `value`. -/
def lineOf (s : Span Kind) (value : String) : String :=
  "Token\x7b OK, type=" ++ s.kind.name ++ " range=(" ++ toString s.start ++ ", " ++
    toString s.stop ++ ") str=" ++ value ++ " \x7d"

/-- The line for one token of `source`. -/
def line (source : String) (s : Span Kind) : String := lineOf s (s.text source)

/-- The outline of a token with the comments nested in it. -/
def render (source : String) (indent : String) (t : Token) : String :=
  Tree.render (line source) indent t

end Token

end PascalScan
