import PascalScan.Proofs.Token.Significant
import PascalScan.Token.Request

/-!
# `PascalScan.Proofs.Token.Accounting`: no token is lost and none is read twice

A reader keeps the tokens that are left and counts those that it has read. A `Tally` knows where it
is by an index into the whole list alone. It moves that index by one token at a time, whatever it is
asked for, and it notes each token that it moves past: `nth` and the loops behind `last` and `count`
only ask for the next token, again and again.

A reader stands in a list if it has left what comes behind its position (`Reader.IsOn`). Then the
tally at the same position, which has noted the tokens in front of it (`Reader.tally`), gives the
same reply to any request, and both move to the same position (`Reader.ask_tally`). So what a reader
hands out and passes over, in the order in which it does, are the leading tokens of the list.

`Reader.Serves` says what a reader owes to whoever asks it, and `askAll_accounts` puts both together
for the reader after any requests.
-/

set_option autoImplicit false

namespace PascalScan

/-- A place in a list of tokens, given by an index, and the tokens that were consumed on the way
there. -/
structure Tally where
  position : Nat
  consumed : List Token

namespace Tally

/-! ### Moving one token at a time -/

/-- Moves past the token at the index, if there is one. -/
def advance (tokens : List Token) (s : Tally) : Option Token × Tally :=
  match tokens[s.position]? with
  | some t => (some t, ⟨s.position + 1, s.consumed ++ [t]⟩)
  | none => (none, s)

/-- To find a token is to get closer to the end of the list. -/
theorem lt_of_advance {tokens : List Token} {s s' : Tally} {t : Token}
    (h : s.advance tokens = (some t, s')) :
    tokens.length - s'.position < tokens.length - s.position := by
  unfold advance at h
  split at h
  next u hu =>
    obtain ⟨hlt, -⟩ := List.getElem?_eq_some_iff.mp hu
    cases h
    show tokens.length - (s.position + 1) < tokens.length - s.position
    omega
  next => cases h

/-- Moves past `n` tokens and then past one more. -/
def nth (tokens : List Token) : Nat → Tally → Option Token × Tally
  | 0, s => s.advance tokens
  | n + 1, s =>
    match s.advance tokens with
    | (some _, s) => nth tokens n s
    | (none, s) => (none, s)

/-- Moves past one token after the other until there is none left, and combines them. -/
def fold {β : Type} (tokens : List Token) (f : β → Token → β) (acc : β) (s : Tally) : β × Tally :=
  match h : s.advance tokens with
  | (some t, s') =>
    have : tokens.length - s'.position < tokens.length - s.position := lt_of_advance h
    fold tokens f (f acc t) s'
  | (none, s') => (acc, s')
termination_by tokens.length - s.position

/-- Moves past blanks and comments as long as there are any. -/
def skipTrivia (tokens : List Token) (s : Tally) : Tally :=
  match h : s.advance tokens with
  | (some t, s') =>
    have : tokens.length - s'.position < tokens.length - s.position := lt_of_advance h
    if t.kind.isTrivia then skipTrivia tokens s' else s
  | (none, _) => s
termination_by tokens.length - s.position

/-- The reply to a request, and the tally after it. -/
def ask (tokens : List Token) (s : Tally) : Reader.Request → Reader.Reply × Tally
  | .current => (.token tokens[s.position]?, s)
  | .peek n => (.token tokens[s.position + n]?, s)
  | .advance => (.token (s.advance tokens).1, (s.advance tokens).2)
  | .next => (.token (s.advance tokens).1, (s.advance tokens).2)
  | .nth n => (.token (nth tokens n s).1, (nth tokens n s).2)
  | .last =>
    let (last, s) := fold tokens (fun _ t => some t) none s
    (.token last, s)
  | .count =>
    let (n, s) := fold tokens (fun n _ => n + 1) 0 s
    (.number n, s)
  | .skipTrivia => (.number ((s.skipTrivia tokens).position - s.position), s.skipTrivia tokens)
  | .nextSignificant =>
    (.token ((s.skipTrivia tokens).advance tokens).1, ((s.skipTrivia tokens).advance tokens).2)
  | .sizeHint =>
    (.bounds (tokens.length - s.position) (some (tokens.length - s.position)), s)

/-- The replies to requests that are made one after the other, and the tally after them. -/
def askAll (tokens : List Token) (s : Tally) : List Reader.Request → List Reader.Reply × Tally
  | [] => ([], s)
  | request :: requests =>
    let (reply, s) := s.ask tokens request
    let (replies, s) := s.askAll tokens requests
    (reply :: replies, s)

end Tally

namespace Reader

variable {tokens : List Token} {r : Reader}

/-! ### A reader in a list -/

/-- What the reader has left is what comes behind its position in the list. -/
structure IsOn (r : Reader) (tokens : List Token) : Prop where
  position_le : r.position ≤ tokens.length
  rest_eq : r.rest = tokens.drop r.position

/-- The tally at the position of the reader, which has noted all tokens in front of it. -/
def tally (r : Reader) (tokens : List Token) : Tally := ⟨r.position, tokens.take r.position⟩

/-- A reader starts at the front of its list. -/
theorem isOn_ofList (tokens : List Token) : (ofList tokens).IsOn tokens :=
  ⟨Nat.zero_le _, rfl⟩

/-- The tokens that are left are those of the list that are not read yet. -/
theorem IsOn.length_rest (h : r.IsOn tokens) : r.rest.length = tokens.length - r.position := by
  rw [h.rest_eq, List.length_drop]

/-- The tokens that are left can be found in the list. -/
theorem IsOn.getElem? (h : r.IsOn tokens) (n : Nat) : tokens[r.position + n]? = r.rest[n]? := by
  rw [h.rest_eq, List.getElem?_drop]

/-- Passing over tokens keeps a reader in its list. -/
theorem IsOn.drop (h : r.IsOn tokens) (n : Nat) : (r.drop n).IsOn tokens := by
  have hle := h.position_le
  have hlen := h.length_rest
  refine ⟨?_, ?_⟩
  · show r.position + min n r.rest.length ≤ tokens.length
    omega
  · show r.rest.drop n = tokens.drop (r.position + min n r.rest.length)
    rw [← List.drop_drop, ← h.rest_eq]
    -- To drop more than there is drops all there is.
    rcases Nat.le_total n r.rest.length with hn | hn
    · rw [Nat.min_eq_left hn]
    · rw [Nat.min_eq_right hn, List.drop_of_length_le hn, List.drop_length]

/-- Either nothing is left, or the first token that is left is read. -/
theorem next_cases (r : Reader) :
    (r.rest = [] ∧ r.next = (none, r)) ∨
      ∃ t ts, r.rest = t :: ts ∧ r.next = (some t, ⟨r.position + 1, ts⟩) := by
  unfold next
  split
  next hnil => exact .inl ⟨hnil, rfl⟩
  next t ts hcons => exact .inr ⟨t, ts, hcons, rfl⟩

/-- To pass over tokens is to read one and to pass over the others. -/
theorem drop_succ {t : Token} {ts : List Token} (hrest : r.rest = t :: ts) (n : Nat) :
    r.drop (n + 1) = (Reader.mk (r.position + 1) ts).drop n := by
  simp only [drop, hrest, List.length_cons, List.drop_succ_cons, mk.injEq, and_true]
  omega

/-- At the end there is nothing to pass over. -/
theorem drop_of_rest_eq_nil (hrest : r.rest = []) (n : Nat) : r.drop n = r := by
  obtain ⟨position, rest⟩ := r
  obtain rfl : rest = [] := hrest
  simp only [drop, List.length_nil, Nat.min_zero, Nat.add_zero, List.drop_nil]

/-- Reading a token keeps a reader in its list. -/
theorem IsOn.next (h : r.IsOn tokens) : r.next.2.IsOn tokens := by
  rcases next_cases r with ⟨-, hnext⟩ | ⟨t, ts, hrest, hnext⟩
  · rw [hnext]
    exact h
  · -- The reader is the one that passes over a single token.
    have hdrop := h.drop 1
    rw [drop_succ hrest] at hdrop
    rw [hnext]
    exact hdrop

/-- So does passing over trivia. -/
theorem IsOn.skipTrivia (h : r.IsOn tokens) : r.skipTrivia.2.IsOn tokens := h.drop _

/-- No request leaves the list. -/
theorem IsOn.ask (h : r.IsOn tokens) (request : Request) : (r.ask request).2.IsOn tokens := by
  cases request with
  | current | peek | sizeHint => exact h
  | advance | next => exact h.next
  | nth n => exact (h.drop n).next
  | last | count => exact h.drop _
  | skipTrivia => exact h.skipTrivia
  | nextSignificant => exact h.skipTrivia.next

/-- No number of requests does. -/
theorem IsOn.askAll (h : r.IsOn tokens) (requests : List Request) :
    (r.askAll requests).2.IsOn tokens := by
  induction requests generalizing r with
  | nil => exact h
  | cons request requests ih => exact ih (h.ask request)

/-! ### The tally at the same position -/

/-- A tally moves past the token that the reader reads. -/
theorem advance_tally (h : r.IsOn tokens) :
    (r.tally tokens).advance tokens = (r.next.1, r.next.2.tally tokens) := by
  have hat : tokens[(r.tally tokens).position]? = r.rest[0]? := h.getElem? 0
  rcases next_cases r with ⟨hrest, hnext⟩ | ⟨t, ts, hrest, hnext⟩
  · rw [hrest, List.getElem?_nil] at hat
    rw [hnext, Tally.advance, hat]
  · rw [hrest, List.getElem?_cons_zero] at hat
    -- What is noted grows by the token behind it in the list.
    have htake : tokens.take (r.position + 1) = tokens.take r.position ++ [t] := by
      rw [List.take_add_one, show tokens[r.position]? = some t from hat]
      rfl
    rw [hnext, Tally.advance, hat]
    simp only [tally, htake]

/-- Where the tally finds a token, the reader has it in front, and both stand behind it next. -/
theorem of_advance_tally {t : Token} {s : Tally} (h : r.IsOn tokens)
    (hsome : (r.tally tokens).advance tokens = (some t, s)) :
    ∃ ts, r.rest = t :: ts ∧ (Reader.mk (r.position + 1) ts).IsOn tokens ∧
      (Reader.mk (r.position + 1) ts).tally tokens = s := by
  have hon := h.next
  rw [advance_tally h] at hsome
  obtain ⟨hnext, hs⟩ := Prod.mk.inj hsome
  rcases next_cases r with ⟨-, hnone⟩ | ⟨u, ts, hrest, hread⟩
  · rw [hnone] at hnext
    cases hnext
  · rw [hread] at hnext hs hon
    obtain rfl := Option.some.inj hnext
    exact ⟨ts, hrest, hon, hs⟩

/-- Where the tally finds no token, nothing is left. -/
theorem rest_eq_nil_of_advance_tally {s : Tally} (h : r.IsOn tokens)
    (hnone : (r.tally tokens).advance tokens = (none, s)) : r.rest = [] ∧ s = r.tally tokens := by
  rw [advance_tally h] at hnone
  obtain ⟨hnext, hs⟩ := Prod.mk.inj hnone
  rcases next_cases r with ⟨hrest, hstay⟩ | ⟨u, ts, -, hread⟩
  · rw [hstay] at hs
    exact ⟨hrest, hs.symm⟩
  · rw [hread] at hnext
    cases hnext

/-- Passing over tokens and reading the one behind them moves both to the same place. -/
theorem nth_tally (h : r.IsOn tokens) (n : Nat) :
    Tally.nth tokens n (r.tally tokens) = ((r.nth n).1, (r.nth n).2.tally tokens) := by
  induction n generalizing r with
  | zero =>
    have hdrop : r.drop 0 = r := by simp [drop]
    rw [Tally.nth, nth, hdrop]
    exact advance_tally h
  | succ n ih =>
    rw [Tally.nth, advance_tally h, nth]
    rcases next_cases r with ⟨hrest, hnext⟩ | ⟨t, ts, hrest, hnext⟩
    · rw [drop_of_rest_eq_nil hrest, hnext]
    · have hon := h.next
      rw [hnext] at hon
      rw [drop_succ hrest, hnext]
      exact ih hon

/-- What a loop over the next tokens combines are the tokens that are left. -/
theorem fold_tally {β : Type} (f : β → Token → β) (acc : β) (h : r.IsOn tokens) :
    Tally.fold tokens f acc (r.tally tokens) =
      (r.rest.foldl f acc, (r.drop r.rest.length).tally tokens) := by
  generalize htally : r.tally tokens = s
  fun_induction Tally.fold tokens f acc s generalizing r with
  | case1 acc s t s' hsome _ ih =>
    obtain ⟨ts, hrest, hon, hs'⟩ := of_advance_tally h (htally ▸ hsome)
    rw [ih hon hs', hrest, List.length_cons, drop_succ hrest]
    rfl
  | case2 acc s s' hnone =>
    obtain ⟨hrest, rfl⟩ := rest_eq_nil_of_advance_tally h (htally ▸ hnone)
    rw [drop_of_rest_eq_nil hrest, hrest]
    rfl

/-- Combining tokens by keeping the later one finds the last. -/
theorem foldl_some_eq_getLast? (ts : List Token) :
    ts.foldl (fun _ t => some t) none = ts.getLast? := by
  have hfold (acc : Option Token) :
      ts.foldl (fun _ t => some t) acc = ts.getLast?.or acc := by
    induction ts generalizing acc with
    | nil => simp
    | cons t ts ih => simp [ih, List.getLast?_cons]
  simp [hfold]

/-- Combining tokens by counting finds their number. -/
theorem foldl_succ_eq_length (ts : List Token) : ts.foldl (fun n _ => n + 1) 0 = ts.length := by
  have hfold (acc : Nat) : ts.foldl (fun n _ => n + 1) acc = acc + ts.length := by
    induction ts generalizing acc with
    | nil => rfl
    | cons t ts ih =>
      rw [List.foldl_cons, ih, List.length_cons]
      omega
  simp [hfold]

/-- A tally moves past as many blanks and comments as the reader passes over. -/
theorem skipTrivia_tally (h : r.IsOn tokens) :
    (r.tally tokens).skipTrivia tokens = r.skipTrivia.2.tally tokens := by
  show _ = (r.drop r.leadingTrivia.length).tally tokens
  generalize htally : r.tally tokens = s
  fun_induction Tally.skipTrivia tokens s generalizing r with
  | case1 s t s' hsome _ htrivia ih =>
    obtain ⟨ts, hrest, hon, hs'⟩ := of_advance_tally h (htally ▸ hsome)
    have hleading : r.leadingTrivia.length =
        (Reader.mk (r.position + 1) ts).leadingTrivia.length + 1 := by
      simp [leadingTrivia, hrest, htrivia]
    rw [ih hon hs', hleading, drop_succ hrest]
  | case2 s t s' hsome _ htrivia =>
    obtain ⟨ts, hrest, -, -⟩ := of_advance_tally h (htally ▸ hsome)
    have hleading : r.leadingTrivia = [] := by
      simp [leadingTrivia, hrest, htrivia]
    simp [hleading, drop, ← htally]
  | case3 s s' hnone =>
    obtain ⟨hrest, -⟩ := rest_eq_nil_of_advance_tally h (htally ▸ hnone)
    rw [drop_of_rest_eq_nil hrest, htally]

/-- What trivia are passed over shows in the position. -/
theorem position_skipTrivia (r : Reader) :
    r.skipTrivia.2.position = r.position + r.skipTrivia.1 := by
  have hle : r.leadingTrivia.length ≤ r.rest.length := (List.takeWhile_sublist _).length_le
  show r.position + min r.leadingTrivia.length r.rest.length = r.position + r.leadingTrivia.length
  omega

/-- A tally gives the reply of the reader at its position, and moves as far. -/
theorem ask_tally (h : r.IsOn tokens) (request : Request) :
    (r.tally tokens).ask tokens request =
      ((r.ask request).1, (r.ask request).2.tally tokens) := by
  -- Requests that only look need the token or the number at the position. The others need the lemma
  -- about their loop.
  cases request with
  | current =>
    have hat : tokens[r.position]? = r.rest[0]? := h.getElem? 0
    rw [← List.head?_eq_getElem?] at hat
    show (Reply.token tokens[r.position]?, r.tally tokens) = _
    rw [hat]
    rfl
  | peek n =>
    show (Reply.token tokens[r.position + n]?, r.tally tokens) = _
    rw [h.getElem? n]
    rfl
  | advance | next => rw [Tally.ask, advance_tally h]; rfl
  | nth n => rw [Tally.ask, nth_tally h]; rfl
  | last => rw [Tally.ask, fold_tally _ _ h, foldl_some_eq_getLast?]; rfl
  | count => rw [Tally.ask, fold_tally _ _ h, foldl_succ_eq_length]; rfl
  | skipTrivia =>
    have hposition := position_skipTrivia r
    rw [Tally.ask, skipTrivia_tally h]
    show (Reply.number (r.skipTrivia.2.position - r.position), _) = _
    rw [hposition, Nat.add_sub_cancel_left]
    rfl
  | nextSignificant =>
    rw [Tally.ask, skipTrivia_tally h, advance_tally h.skipTrivia]
    rfl
  | sizeHint =>
    show (Reply.bounds (tokens.length - r.position) (some (tokens.length - r.position)), _) = _
    rw [← h.length_rest]
    rfl

/-- Any sequence of requests gets the same replies from both. -/
theorem askAll_tally (h : r.IsOn tokens) (requests : List Request) :
    (r.tally tokens).askAll tokens requests =
      ((r.askAll requests).1, (r.askAll requests).2.tally tokens) := by
  induction requests generalizing r with
  | nil => rfl
  | cons request requests ih =>
    rw [Tally.askAll, ask_tally h]
    dsimp only
    rw [ih (h.ask request)]
    rfl

/-! ### What a reader owes to whoever asks it -/

/-- No request goes back. -/
theorem position_le_ask (r : Reader) (request : Request) :
    r.position ≤ (r.ask request).2.position := by
  have hdrop (r : Reader) (n : Nat) : r.position ≤ (r.drop n).position := Nat.le_add_right _ _
  have hnext (r : Reader) : r.position ≤ r.next.2.position := by
    rcases next_cases r with ⟨-, hnext⟩ | ⟨t, ts, -, hnext⟩ <;> simp [hnext]
  cases request with
  | current | peek | sizeHint => exact Nat.le_refl _
  | advance | next => exact hnext r
  | nth n => exact Nat.le_trans (hdrop r n) (hnext _)
  | last | count | skipTrivia => exact hdrop r _
  | nextSignificant => exact Nat.le_trans (hdrop r _) (hnext _)

/-- No number of requests does. -/
theorem position_le_askAll (r : Reader) (requests : List Request) :
    r.position ≤ (r.askAll requests).2.position := by
  induction requests generalizing r with
  | nil => exact Nat.le_refl _
  | cons request requests ih => exact Nat.le_trans (position_le_ask r request) (ih _)

/-- As many times as there are tokens left, the next one can be read, and no more often. -/
theorem ask_next_eq_none_iff (r : Reader) (n : Nat) :
    ((r.askAll (List.replicate n .next)).2.ask .next).1 = .token none ↔ r.rest.length ≤ n := by
  induction n generalizing r with
  | zero =>
    show Reply.token r.next.1 = .token none ↔ _
    rcases next_cases r with ⟨hrest, hnext⟩ | ⟨t, ts, hrest, hnext⟩ <;> simp [hrest, hnext]
  | succ n ih =>
    show ((r.next.2.askAll (List.replicate n .next)).2.ask .next).1 = .token none ↔ _
    rw [ih]
    rcases next_cases r with ⟨hrest, hnext⟩ | ⟨t, ts, hrest, hnext⟩ <;> simp [hrest, hnext]

/-- At the end of the list nothing is read any more, and the reader stays there. -/
theorem ask_of_rest_eq_nil (hrest : r.rest = []) :
    ∀ request ∈ [Request.advance, .next, .nextSignificant], r.ask request = (.token none, r) := by
  have hnext : r.next = (none, r) := by simp [Reader.next, hrest]
  have hsignificant : r.nextSignificant = (none, r) := by
    show (r.drop _).next = _
    rw [drop_of_rest_eq_nil hrest, hnext]
  simp [Reader.ask, hnext, hsignificant]

/-- One significant token after the other is read, until there is none left. -/
theorem askAll_nextSignificant (r : Reader) :
    ∃ before after : Reader,
      r.askAll (List.replicate r.significant.length .nextSignificant) =
        (r.significant.map fun t => .token (some t), before) ∧
      before.ask .nextSignificant = (.token none, after) ∧ after.rest = [] := by
  -- The replies follow the loop that `significant` is.
  fun_induction significant r with
  | case1 r after hnone =>
    refine ⟨r, after, rfl, ?_, ?_⟩
    · show (Reply.token r.nextSignificant.1, r.nextSignificant.2) = _
      rw [hnone]
    · -- Behind the trivia no token was found.
      rcases next_cases r.skipTrivia.2 with ⟨hrest, hnext⟩ | ⟨t, ts, -, hnext⟩
      · obtain rfl : r.skipTrivia.2 = after := congrArg Prod.snd (hnext.symm.trans hnone)
        exact hrest
      · cases hnext.symm.trans hnone
  | case2 r t r' hsome _ ih =>
    obtain ⟨before, after, hreplies, hrest⟩ := ih
    refine ⟨before, after, ?_, hrest⟩
    have hask : r.ask .nextSignificant = (.token (some t), r') := by
      show (Reply.token r.nextSignificant.1, r.nextSignificant.2) = _
      rw [hsome]
    rw [List.length_cons, List.replicate_succ, askAll, hask]
    dsimp only
    rw [hreplies]
    rfl

/-- What a reader in a list of tokens owes to whoever asks it. -/
structure Serves (r : Reader) (tokens : List Token) : Prop where
  /-- It is somewhere in the list. -/
  position_le : r.position ≤ tokens.length
  /-- It never goes back. -/
  forward : ∀ requests, r.position ≤ (r.askAll requests).2.position
  /-- It can look ahead without going anywhere. -/
  current : r.ask .current = (.token tokens[r.position]?, r)
  peek : ∀ n, r.ask (.peek n) = (.token tokens[r.position + n]?, r)
  /-- It knows how many tokens it can still read one by one. -/
  sizeHint : ∃ n, r.ask .sizeHint = (.bounds n (some n), r) ∧
    ∀ k, ((r.askAll (List.replicate k .next)).2.ask .next).1 = .token none ↔ n ≤ k
  /-- It passes over trivia up to the first token that is none, and tells how many it passed. -/
  skipTrivia : ∃ n r', r.ask .skipTrivia = (.number n, r') ∧ r'.position = r.position + n ∧
    (∀ t ∈ (tokens.drop r.position).take n, t.kind.isTrivia) ∧
    ∀ t, tokens[r'.position]? = some t → t.kind.isTrivia = false
  /-- It reads the significant tokens that are left one by one, then it is at the end, and there it
  stays. -/
  significant : ∃ before after : Reader,
    r.askAll (List.replicate ((tokens.drop r.position).filter (!·.kind.isTrivia)).length
        .nextSignificant) =
      (((tokens.drop r.position).filter (!·.kind.isTrivia)).map fun t => .token (some t), before) ∧
    before.ask .nextSignificant = (.token none, after) ∧
    after.atEnd ∧ after.position = tokens.length ∧
    ∀ request ∈ [Request.advance, .next, .nextSignificant],
      after.ask request = (.token none, after)

/-- A reader in a list serves from where it is. -/
theorem IsOn.serves (h : r.IsOn tokens) : r.Serves tokens where
  position_le := h.position_le
  forward := position_le_askAll r
  current := by
    show (Reply.token r.rest.head?, r) = _
    rw [List.head?_eq_getElem?, ← h.getElem? 0]
    rfl
  peek n := by
    show (Reply.token r.rest[n]?, r) = _
    rw [← h.getElem? n]
  sizeHint := ⟨r.rest.length, rfl, ask_next_eq_none_iff r⟩
  skipTrivia := by
    refine ⟨r.leadingTrivia.length, r.skipTrivia.2, rfl, position_skipTrivia r, ?_, ?_⟩
    · intro t ht
      -- What is passed over is the longest leading part that holds trivia only.
      have htake : r.rest.take r.leadingTrivia.length = r.leadingTrivia :=
        (List.prefix_iff_eq_take.mp (List.takeWhile_prefix _)).symm
      rw [← h.rest_eq, htake] at ht
      exact List.all_eq_true.mp List.all_takeWhile t ht
    · intro t ht
      -- And the token behind that part, if there is one, is no trivia.
      have hhead := List.head?_dropWhile_not (·.kind.isTrivia) r.rest
      have hat := h.skipTrivia.getElem? 0
      rw [Nat.add_zero, ht, rest_skipTrivia, ← List.head?_eq_getElem?] at hat
      rw [← hat] at hhead
      exact hhead
  significant := by
    obtain ⟨before, after, hreplies, hnone, hrest⟩ := askAll_nextSignificant r
    have hafter : after.IsOn tokens := by
      have hon := (h.askAll (List.replicate r.significant.length .nextSignificant)).ask
        .nextSignificant
      rw [hreplies, hnone] at hon
      exact hon
    rw [significant_eq_filter, h.rest_eq] at hreplies
    refine ⟨before, after, hreplies, hnone, ?_, ?_, ask_of_rest_eq_nil hrest⟩
    · simp [atEnd, hrest]
    · have hle := hafter.position_le
      have hlen := hafter.length_rest
      rw [hrest, List.length_nil] at hlen
      omega

/-- After any requests to a reader of `tokens`, a tally that was asked for the same has given the
same replies, and what it has noted, token by token, are the tokens in front of the position of the
reader: all of them, in their order and each once. And whatever the reader is asked for next, it
serves from where it is. -/
theorem askAll_accounts (tokens : List Token) (requests : List Request) :
    ∃ replies r, (ofList tokens).askAll requests = (replies, r) ∧
      Tally.askAll tokens ⟨0, []⟩ requests = (replies, ⟨r.position, tokens.take r.position⟩) ∧
      r.Serves tokens := by
  have hstart := isOn_ofList tokens
  exact ⟨_, _, rfl, askAll_tally hstart requests, (hstart.askAll requests).serves⟩

end Reader

end PascalScan
