/-!
# `PascalScan.Tree`: labelled trees of any depth

Comments nest without limit, so a token is a tree and no function that runs on one may use the
call stack as deep as the tree goes. The module gives one loop that visits a tree from the top
down and from left to right, and derives everything else from it:

* `foldPreorder` visits every node together with its depth, keeping the siblings still to come
  on each open level in a list;
* `flatten`, `descendants` and `height` are folds;
* `ofPreorder?` builds a tree from its labels and depths, reading them from the last to the first.

Only `map`, which relabels a tree, goes down by recursion: laws are stated with it.
-/

set_option autoImplicit false

namespace PascalScan

/-- A tree with a label at every node. -/
inductive Tree (α : Type) where
  | node (label : α) (inner : List (Tree α))

namespace Tree

variable {α β : Type}

/-- The label at the top. -/
def label : Tree α → α
  | node a _ => a

/-- The trees right below the top. -/
def inner : Tree α → List (Tree α)
  | node _ ts => ts

/-! ### Relabelling -/

/-- The tree of the same shape with `f` applied to every label. -/
def map (f : α → β) : Tree α → Tree β
  | node a ts => node (f a) (ts.map (map f))

/-! ### Visiting every node -/

/-- Visits forests in order, each with the depth of its trees; a tree is visited before the
trees inside it. -/
def foldForests (f : β → Nat → Tree α → β) (acc : β) : List (Nat × List (Tree α)) → β
  | [] => acc
  | (_, []) :: upper => foldForests f acc upper
  | (depth, node a ts :: siblings) :: upper =>
    foldForests f (f acc depth (node a ts)) ((depth + 1, ts) :: (depth, siblings) :: upper)
termination_by forests => forests.foldr (fun p size => sizeOf p.2 + size) 0
decreasing_by
  · simp
  · simp only [List.foldr_cons, List.cons.sizeOf_spec, node.sizeOf_spec]
    omega

/-- Visits a tree and all trees inside it, from the top down and from left to right, each with
its depth below the top. -/
def foldPreorder (f : β → Nat → Tree α → β) (acc : β) (t : Tree α) : β :=
  foldForests f acc [(0, [t])]

/-- The labels of a tree with their depths, from the top down and from left to right. -/
def flatten (t : Tree α) : List (Nat × α) :=
  (t.foldPreorder (fun acc depth t => (depth, t.label) :: acc) []).reverse

/-- The number of trees inside `t` at any depth. -/
def descendants (t : Tree α) : Nat :=
  t.foldPreorder (fun n _ _ => n + 1) 0 - 1

/-- The depth of the deepest tree inside `t`, zero if there is none. -/
def height (t : Tree α) : Nat :=
  t.foldPreorder (fun n depth _ => max n depth) 0

/-! ### Building from depths -/

/-- Puts a label in front of a forest given with depths: the leading trees that are deeper
become its inner trees. -/
def graft (entry : Nat × α) (forest : List (Nat × Tree α)) : List (Nat × Tree α) :=
  let (deeper, others) := forest.span (fun t => entry.1 < t.1)
  (entry.1, node entry.2 (deeper.map (·.2))) :: others

/-- The tree whose labels with depths are listed from the top down and from left to right.
There is none for a list that holds no tree, or more than one. -/
def ofPreorder? (entries : List (Nat × α)) : Option (Tree α) :=
  match entries.foldr graft [] with
  | [(_, t)] => some t
  | _ => none

end Tree

end PascalScan
