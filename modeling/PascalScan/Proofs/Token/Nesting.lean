import PascalScan.Proofs.Text.Boundary
import PascalScan.Token.Basic

/-!
# `PascalScan.Proofs.Token.Nesting`: a token and all tokens inside it

A comment holds comments to any depth, so what is said of a token often has to be said of all that
is inside it. `Tree.Within u t` means that `u` is `t` itself or lies inside it, at some depth.

`Token.IsStretch source t` is what every token of a text owes to the text: it starts and stops
between characters and its value is what stands there. `Token.isStretch_of_reads` says that what
was read from a cursor is a stretch, and `Token.IsStretch.text_of_part` that a stretch of a part of
a text keeps its value in the text.
-/

set_option autoImplicit false

namespace PascalScan

open Text

/-! ### Trees inside a tree -/

namespace Tree

variable {α β : Type}

/-- The tree `u` is `t`, or it lies inside `t` at some depth. -/
inductive Within : Tree α → Tree α → Prop where
  | self {t : Tree α} : Within t t
  | inner {u v t : Tree α} (hmem : v ∈ t.inner) (h : Within u v) : Within u t

/-- What is inside a node is the node, or it is inside one of the trees right below it. -/
theorem within_node_iff {u : Tree α} {a : α} {ts : List (Tree α)} :
    Within u (node a ts) ↔ u = node a ts ∨ ∃ t ∈ ts, Within u t := by
  constructor
  · intro h
    cases h with
    | self => exact .inl rfl
    | inner hmem h => exact .inr ⟨_, hmem, h⟩
  · rintro (rfl | ⟨t, hmem, h⟩)
    · exact .self
    · exact .inner hmem h

/-- The label of a tree is changed with all the others. -/
@[simp] theorem label_map (f : α → β) (t : Tree α) : (t.map f).label = f t.label := by
  cases t
  rw [map]
  rfl

end Tree

/-! ### Tokens and the text -/

namespace Token

/-- The token is a stretch of `source`. -/
structure IsStretch (source : String) (t : Token) : Prop where
  start_lt_stop : t.start < t.stop
  /-- It starts between two characters. -/
  start_boundary : IsBoundary source.toList t.start
  /-- It stops between two characters. -/
  stop_boundary : IsBoundary source.toList t.stop
  /-- Its value is what stands in between. -/
  value : ∃ cs, slice? source.toList t.start t.stop = some cs ∧
    (Tree.label t).text source = String.ofList cs

/-- The token lies in `source`, as do all tokens inside it. -/
def LiesIn (source : String) (t : Token) : Prop :=
  ∀ u, Tree.Within u t → IsStretch source u

/-- What was read between two cursors is a stretch of the text. -/
theorem isStretch_of_reads {source : String} {c d : Cursor} {s : List Char} {kind : Kind}
    {inner : List Token} (hc : c.StandsIn source.toList) (hr : c.Reads s d) (hs : s ≠ []) :
    IsStretch source (ofSpan kind c.pos d.pos inner) := by
  have hslice : slice? source.toList c.pos d.pos = some s := hc.slice?_of_reads hr
  exact ⟨hr.pos_lt hs, ⟨_, hc⟩, ⟨_, hc.of_reads hr⟩, s, hslice, excerpt_eq_of_slice? hslice⟩

/-- A token that was read is a stretch with all that is inside it, if what is inside it is. -/
theorem liesIn_of_reads {source : String} {c d : Cursor} {s : List Char} {kind : Kind}
    {inner : List Token} (hc : c.StandsIn source.toList) (hr : c.Reads s d) (hs : s ≠ [])
    (hinner : ∀ t ∈ inner, LiesIn source t) :
    LiesIn source (ofSpan kind c.pos d.pos inner) := by
  intro u hu
  rcases Tree.within_node_iff.mp hu with rfl | ⟨t, ht, hut⟩
  · exact isStretch_of_reads hc hr hs
  · exact hinner t ht u hut

/-- A stretch of a part of the text has the same value in the text, where it is found with the size
of what stands before the part added to its offsets. -/
theorem IsStretch.text_of_part {source part : String} {before after : List Char} {t : Token}
    (h : IsStretch part t) (hsource : source.toList = before ++ part.toList ++ after) :
    ((Tree.label t).shift (byteSize before)).text source = (Tree.label t).text part := by
  obtain ⟨cs, hslice, hvalue⟩ := h.value
  rw [hvalue]
  refine excerpt_eq_of_slice? ?_
  rw [hsource]
  exact slice?_of_part hslice

end Token

end PascalScan
