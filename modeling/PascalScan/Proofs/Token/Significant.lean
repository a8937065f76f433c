import PascalScan.Token.Reader

/-!
# `PascalScan.Proofs.Token.Significant`: what a grammar gets to see of the tokens

A grammar that asks for one significant token after the other, until there is none left, gets the
tokens that are no trivia, in their order (`Reader.significant_eq_filter`).
-/

set_option autoImplicit false

namespace PascalScan

namespace Reader

/-- Passing over trivia stops at the first token that is none. -/
theorem rest_skipTrivia (r : Reader) :
    r.skipTrivia.2.rest = r.rest.dropWhile (·.kind.isTrivia) := by
  have hdrop (ts : List Token) :
      ts.drop (ts.takeWhile (·.kind.isTrivia)).length = ts.dropWhile (·.kind.isTrivia) := by
    induction ts with
    | nil => rfl
    | cons t ts ih =>
      rw [List.takeWhile_cons, List.dropWhile_cons]
      split
      · exact ih
      · rfl
  exact hdrop r.rest

/-- A significant token is read off the rest behind trivia. -/
theorem dropWhile_of_nextSignificant {r r' : Reader} {t : Token}
    (h : r.nextSignificant = (some t, r')) :
    r.rest.dropWhile (·.kind.isTrivia) = t :: r'.rest := by
  unfold nextSignificant next at h
  rw [rest_skipTrivia] at h
  split at h
  next => cases h
  next u us hus =>
    cases h
    exact hus

/-- Reading a significant token leaves fewer tokens. -/
theorem length_lt_of_nextSignificant {r r' : Reader} {t : Token}
    (h : r.nextSignificant = (some t, r')) : r'.rest.length < r.rest.length := by
  have hle := (List.dropWhile_sublist (l := r.rest) (·.kind.isTrivia)).length_le
  rw [dropWhile_of_nextSignificant h] at hle
  exact hle

/-- The significant tokens, read one after the other until there is none left. -/
def significant (r : Reader) : List Token :=
  match h : r.nextSignificant with
  | (none, _) => []
  | (some t, r') =>
    have : r'.rest.length < r.rest.length := length_lt_of_nextSignificant h
    t :: r'.significant
termination_by r.rest.length

/-- Trivia in front is of no significance. -/
theorem filter_dropWhile_isTrivia (ts : List Token) :
    (ts.dropWhile (·.kind.isTrivia)).filter (!·.kind.isTrivia) = ts.filter (!·.kind.isTrivia) := by
  induction ts with
  | nil => rfl
  | cons t ts ih =>
    rw [List.dropWhile_cons]
    by_cases ht : t.kind.isTrivia
    · rw [if_pos ht, ih, List.filter_cons_of_neg (by simp [ht])]
    · rw [if_neg ht]

/-- The significant tokens are those that are no trivia, in their order. -/
theorem significant_eq_filter (r : Reader) :
    r.significant = r.rest.filter (!·.kind.isTrivia) := by
  fun_induction significant r with
  | case1 r r' h =>
    have hnil : r.rest.dropWhile (·.kind.isTrivia) = [] := by
      unfold nextSignificant next at h
      rw [rest_skipTrivia] at h
      split at h
      next hnil => exact hnil
      next => cases h
    rw [← filter_dropWhile_isTrivia, hnil]
    rfl
  | case2 r t r' h _ ih =>
    have hdrop := dropWhile_of_nextSignificant h
    have ht : t.kind.isTrivia = false := by
      have hhead := List.head?_dropWhile_not (·.kind.isTrivia) r.rest
      rw [hdrop] at hhead
      exact hhead
    rw [← filter_dropWhile_isTrivia, hdrop, List.filter_cons_of_pos (by simp [ht]), ih]

end Reader

end PascalScan
