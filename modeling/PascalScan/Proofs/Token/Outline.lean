import PascalScan.Token.Outline

/-!
# `PascalScan.Proofs.Token.Outline`: an outline written node by node

`Tree.outline` says by recursion what the outline of a tree is. A tree may be too deep to recurse
on, so an outline is written node by node, and there are two loops that do so.

* `Tree.render` keeps the siblings that wait on each level, and makes the indentation of each node
  anew from its depth.
* `Tree.renderInPlace` keeps one stack of all the nodes that wait, and one buffer for the
  indentation, which is cut for a node further out and lengthened for a node further in. To cut the
  buffer inside a character is a misuse.

At any time what a loop has yet to write is `entries`: an outline for each node that waits, and the
node that is written next leaves the trees inside it waiting in its place (`entry_node`). The buffer
always holds the indentation of some depth (`reindent_indentation`), so it is never cut inside the
characters that all lines begin with.

`render_eq_outline` puts both loops together, for nodes with any labels and for the tokens of a
text.
-/

set_option autoImplicit false

namespace PascalScan

open Text

namespace Tree

variable {α : Type}

/-! ### Writing with one stack and one buffer -/

/-- Cuts a buffer down to `size` bytes if it is longer, and puts tabs at its end if it is
shorter. -/
def reindent (size : Nat) (buffer : List Char) : Except Misuse (List Char) :=
  if byteSize buffer ≤ size then .ok (buffer ++ List.replicate (size - byteSize buffer) '\t')
  else
    match slice? buffer 0 size with
    | some cut => .ok cut
    | none => .error .badSlice

/-- Puts trees of the given depth on a stack, the last one first. -/
def push (depth : Nat) (ts : List (Tree α)) (pending : List (Nat × Tree α)) :
    List (Nat × Tree α) :=
  ts.reverse.foldl (fun pending t => (depth, t) :: pending) pending

/-- The first of the trees is on top. -/
theorem push_eq (depth : Nat) (ts : List (Tree α)) (pending : List (Nat × Tree α)) :
    push depth ts pending = ts.map (depth, ·) ++ pending := by
  rw [push, List.foldl_reverse]
  induction ts with
  | nil => rfl
  | cons t ts ih => exact congrArg ((depth, t) :: ·) ih

/-- The stack gets smaller, as the node that is taken off it is larger than all trees inside it. -/
theorem foldr_sizeOf_push_lt (a : α) (ts : List (Tree α)) (depth : Nat)
    (pending : List (Nat × Tree α)) :
    (push (depth + 1) ts pending).foldr (fun p size => sizeOf p.2 + size) 0 <
      sizeOf (node a ts) + pending.foldr (fun p size => sizeOf p.2 + size) 0 := by
  have hle : (push (depth + 1) ts pending).foldr (fun p size => sizeOf p.2 + size) 0 ≤
      sizeOf ts + pending.foldr (fun p size => sizeOf p.2 + size) 0 := by
    rw [push_eq]
    induction ts with
    | nil => simp
    | cons t ts ih =>
      simp only [List.map_cons, List.cons_append, List.foldr_cons, List.cons.sizeOf_spec]
      omega
  simp only [node.sizeOf_spec]
  omega

/-- Writes the trees on a stack, each with its depth. The indentation of lines without depth takes
`base` bytes. -/
def writePending (line : α → String) (base : Nat) (buffer : List Char) (written : String) :
    List (Nat × Tree α) → Except Misuse String
  | [] => .ok written
  | (depth, node a ts) :: pending =>
    match reindent (base + depth) buffer with
    | .error misuse => .error misuse
    | .ok buffer =>
      writePending line base buffer
        (written ++ nodeText line (String.ofList buffer) depth (node a ts))
        (push (depth + 1) ts pending)
termination_by pending => pending.foldr (fun p size => sizeOf p.2 + size) 0
decreasing_by exact foldr_sizeOf_push_lt a ts depth pending

/-- The outline of a tree, written with one stack and one buffer. -/
def renderInPlace (line : α → String) (indent : String) (t : Tree α) : Except Misuse String :=
  writePending line (byteSize indent.toList) indent.toList "" [(0, t)]

/-! ### What is yet to be written -/

variable {line : α → String} {indent : String}

/-- What is written for a tree of the given depth and for all trees inside it. -/
def entry (line : α → String) (indent : String) (depth : Nat) (t : Tree α) : String :=
  (if depth = 0 then "" else "\n" ++ indentation indent depth) ++
    outline line (indentation indent depth) t

/-- What is written for trees that wait. -/
def entries (line : α → String) (indent : String) (pending : List (Nat × Tree α)) : String :=
  pending.foldr (fun p rest => entry line indent p.1 p.2 ++ rest) ""

/-- On the outermost level there is no tab. -/
theorem indentation_zero : indentation indent 0 = indent := by
  rw [indentation, List.replicate_zero, String.ofList_nil, String.append_empty]

/-- One level further in stands one tab more. -/
theorem indentation_succ (depth : Nat) :
    indentation indent (depth + 1) = indentation indent depth ++ "\t" := by
  rw [indentation, indentation, List.replicate_succ', String.ofList_append, String.append_assoc]

/-- The tree that waits first is written first. -/
theorem entries_cons (depth : Nat) (t : Tree α) (pending : List (Nat × Tree α)) :
    entries line indent ((depth, t) :: pending) =
      entry line indent depth t ++ entries line indent pending :=
  rfl

/-- Trees that wait in two lists are written one list after the other. -/
theorem entries_append (first second : List (Nat × Tree α)) :
    entries line indent (first ++ second) =
      entries line indent first ++ entries line indent second := by
  induction first with
  | nil => exact String.empty_append.symm
  | cons p first ih => rw [List.cons_append, entries_cons, entries_cons, ih, String.append_assoc]

/-- Trees that wait inside the same node are written one after the other. -/
theorem entries_map (depth : Nat) (ts : List (Tree α)) :
    entries line indent (ts.map (depth + 1, ·)) =
      outlineAll line (indentation indent (depth + 1)) ts := by
  induction ts with
  | nil => rfl
  | cons t ts ih =>
    rw [List.map_cons, entries_cons, ih, outlineAll, entry, if_neg (Nat.succ_ne_zero depth)]

/-- A node is written first, and then the trees inside it are, one level further in. -/
theorem entry_node (depth : Nat) (a : α) (ts : List (Tree α)) :
    entry line indent depth (node a ts) =
      nodeText line (indentation indent depth) depth (node a ts) ++
        entries line indent (ts.map (depth + 1, ·)) := by
  rw [entries_map, entry, nodeText, indentation_succ]
  cases ts with
  | nil =>
    simp only [outline, outlineAll, label, inner, List.isEmpty_nil, if_true, String.append_empty]
  | cons t ts =>
    simp only [outline, label, inner, List.isEmpty_cons, Bool.false_eq_true, if_false,
      String.append_assoc]

/-- So the node that is written next leaves the trees inside it waiting in its place. -/
theorem entries_node (depth : Nat) (a : α) (ts : List (Tree α)) (pending : List (Nat × Tree α)) :
    entries line indent ((depth, node a ts) :: pending) =
      nodeText line (indentation indent depth) depth (node a ts) ++
        entries line indent (ts.map (depth + 1, ·) ++ pending) := by
  rw [entries_cons, entry_node, entries_append, String.append_assoc]

/-- What is written for a tree that nothing waits with is its outline. -/
theorem entries_singleton (t : Tree α) : entries line indent [(0, t)] = outline line indent t := by
  rw [entries_cons, entry, if_pos rfl, indentation_zero, String.empty_append]
  exact String.append_empty

/-! ### Siblings kept level by level -/

/-- With the siblings of each level kept apart, all that waits is written, from the innermost level
outwards. -/
theorem foldForests_writeNode (written : String) (forests : List (Nat × List (Tree α))) :
    foldForests (writeNode line indent) written forests =
      written ++ entries line indent (forests.flatMap fun p => p.2.map (p.1, ·)) := by
  fun_induction foldForests (writeNode line indent) written forests with
  | case1 => exact String.append_empty.symm
  | case2 _ _ _ ih => exact ih
  | case3 written depth a ts siblings upper ih =>
    rw [ih, writeNode]
    simp only [List.flatMap_cons, List.map_cons, List.cons_append]
    rw [entries_node, String.append_assoc]

/-- So a tree is written as its outline. -/
theorem render_eq (line : α → String) (indent : String) (t : Tree α) :
    render line indent t = outline line indent t := by
  rw [render, foldPreorder, foldForests_writeNode, ← entries_singleton]
  exact String.empty_append

/-! ### One stack and one buffer -/

/-- The bytes that an indentation takes. -/
theorem byteSize_indentation (depth : Nat) :
    byteSize (indentation indent depth).toList = byteSize indent.toList + depth := by
  induction depth with
  | zero => rw [indentation_zero, Nat.add_zero]
  | succ depth ih =>
    rw [indentation_succ, String.toList_append, byteSize_append, ih]
    rfl

/-- The indentation of a node further in begins with that of a node further out. -/
theorem indentation_add (depth more : Nat) :
    (indentation indent (depth + more)).toList =
      (indentation indent depth).toList ++ List.replicate more '\t' := by
  simp only [indentation, String.toList_append, String.toList_ofList, List.append_assoc,
    List.replicate_append_replicate]

/-- A buffer that holds the indentation of some depth can be made to hold that of any other. -/
theorem reindent_indentation (depth depth' : Nat) :
    reindent (byteSize indent.toList + depth') (indentation indent depth).toList =
      .ok (indentation indent depth').toList := by
  rw [reindent, byteSize_indentation]
  split
  next hle =>
    obtain ⟨more, rfl⟩ := Nat.exists_eq_add_of_le (Nat.le_of_add_le_add_left hle)
    rw [indentation_add]
    congr 3
    omega
  next hlt =>
    -- The node is further out, and what is cut off are tabs.
    obtain ⟨more, rfl⟩ := Nat.exists_eq_add_of_le (show depth' ≤ depth by omega)
    have hcut : slice? (indentation indent (depth' + more)).toList 0
        (byteSize indent.toList + depth') = some (indentation indent depth').toList := by
      refine slice?_eq_some_iff.mpr ⟨[], List.replicate more '\t', ?_, rfl, ?_⟩
      · exact indentation_add depth' more
      · exact (byteSize_indentation depth').symm
    rw [hcut]

/-- The loop can be entered with the indentation of any depth in its buffer. -/
theorem writePending_eq (line : α → String) (indent : String) (depth : Nat) (written : String)
    (pending : List (Nat × Tree α)) :
    writePending line (byteSize indent.toList) (indentation indent depth).toList written pending =
      .ok (written ++ entries line indent pending) := by
  generalize hbuffer : (indentation indent depth).toList = buffer
  fun_induction writePending line (byteSize indent.toList) buffer written pending
    generalizing depth with
  | case1 => rw [entries, List.foldr_nil, String.append_empty]
  | case2 buffer written depth' a ts pending misuse hmisuse =>
    rw [← hbuffer, reindent_indentation] at hmisuse
    cases hmisuse
  | case3 buffer written depth' a ts pending buffer' hbuffer' ih =>
    rw [← hbuffer, reindent_indentation] at hbuffer'
    obtain rfl := Except.ok.inj hbuffer'
    rw [ih depth' rfl, String.ofList_toList, push_eq, entries_node, String.append_assoc]

/-- The loop that keeps one buffer for the indentation writes the outline as well, and its buffer is
never cut inside a character. -/
theorem renderInPlace_eq (line : α → String) (indent : String) (t : Tree α) :
    renderInPlace line indent t = .ok (outline line indent t) := by
  have hwritten := writePending_eq line indent 0 "" [(0, t)]
  rw [indentation_zero, entries_singleton, String.empty_append] at hwritten
  exact hwritten

end Tree

namespace Token

/-- Whatever the kinds, the offsets and the characters at the nodes of a tree are, both loops write
its outline, and the buffer is never cut inside a character. In particular the outline of a token of
`source` is written, with the characters that are read off `source`. -/
theorem render_eq_outline {α : Type} (span : α → Span Kind) (value : α → String) (indent : String) :
    (∀ t : Tree α,
      Tree.renderInPlace (fun a => lineOf (span a) (value a)) indent t =
        .ok (Tree.outline (fun a => lineOf (span a) (value a)) indent t) ∧
      Tree.render (fun a => lineOf (span a) (value a)) indent t =
        Tree.outline (fun a => lineOf (span a) (value a)) indent t) ∧
    ∀ (source : String) (t : Token),
      render source indent t = Tree.outline (fun s => lineOf s (s.text source)) indent t := by
  refine ⟨fun t => ⟨?_, ?_⟩, fun source t => ?_⟩
  · exact Tree.renderInPlace_eq _ indent t
  · exact Tree.render_eq _ indent t
  · exact Tree.render_eq (line source) indent t

/-- A node behind a deep one stands where its own depth wants it. -/
example :
    Tree.outline id "é" (.node "a" [.node "b" [.node "c" []], .node "d" []]) =
      "a\néInner tokens:\né\tb\né\tInner tokens:\né\t\tc\né\td" := by
  cbv

end Token

end PascalScan
