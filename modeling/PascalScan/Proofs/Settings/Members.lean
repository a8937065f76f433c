import PascalScan.Settings.Reading

/-!
# `PascalScan.Proofs.Settings.Members`: what the members of a text give

A text of settings is a list of members. Two of them have a meaning, and each of the two may be
there once; the reader adds one member after the other to what it has (`Members.add`), and refuses
one that it already has.

This says what a list of members gives without looking at the members one by one: `Repeats` if one
of the two is there twice, and `settingsOf` for all other lists. `addAll_eq` is the bridge. Both
sides depend only on the values of either name, so the order of the members and those with other
names do not matter (`repeats_iff_of_perm`, `settingsOf_eq_of_perm`).
-/

set_option autoImplicit false

namespace PascalScan.Settings

open Json

/-! ### Members -/

/-- A member of an object of settings. -/
inductive Member where
  /-- The words shown as reserved. -/
  | keywords (words : List String)
  /-- Whether runs of blanks are shown. -/
  | showBlanks (shown : Bool)
  /-- A member with another name. Its value does not matter. -/
  | other (name : String) (hkeywords : name ≠ keywordsName) (hshowBlanks : name ≠ showBlanksName)
  deriving DecidableEq

namespace Member

/-- The name of a member. -/
def name : Member → String
  | keywords _ => keywordsName
  | showBlanks _ => showBlanksName
  | other name _ _ => name

/-- The member has a meaning. -/
def isKnown : Member → Bool
  | other _ _ _ => false
  | _ => true

/-- The words that a member gives. -/
def keywords? : Member → Option (List String)
  | keywords words => some words
  | _ => none

/-- The truth value that a member gives. -/
def showBlanks? : Member → Option Bool
  | showBlanks shown => some shown
  | _ => none

end Member

/-! ### What the members give -/

/-- All that the members give as the words shown as reserved. -/
def keywordsGiven (ms : List Member) : List (List String) := ms.filterMap Member.keywords?

/-- All that the members say about runs of blanks. -/
def showBlanksGiven (ms : List Member) : List Bool := ms.filterMap Member.showBlanks?

section
variable (ms : List Member) (words : List String) (shown : Bool)

/-- No members give no words. -/
@[simp] theorem keywordsGiven_nil : keywordsGiven [] = [] := rfl

/-- A member with words gives them. -/
@[simp] theorem keywordsGiven_keywords :
    keywordsGiven (.keywords words :: ms) = words :: keywordsGiven ms := rfl

/-- The member about blanks gives no words. -/
@[simp] theorem keywordsGiven_showBlanks :
    keywordsGiven (.showBlanks shown :: ms) = keywordsGiven ms := rfl

/-- No members say nothing about blanks. -/
@[simp] theorem showBlanksGiven_nil : showBlanksGiven [] = [] := rfl

/-- Nor does a member with words. -/
@[simp] theorem showBlanksGiven_keywords :
    showBlanksGiven (.keywords words :: ms) = showBlanksGiven ms := rfl

/-- The member about blanks says whether they are shown. -/
@[simp] theorem showBlanksGiven_showBlanks :
    showBlanksGiven (.showBlanks shown :: ms) = shown :: showBlanksGiven ms := rfl

end

/-- A member with a meaning is given twice. -/
def Repeats (ms : List Member) : Prop :=
  1 < (keywordsGiven ms).length ∨ 1 < (showBlanksGiven ms).length

/-- It can be computed whether a member is given twice. -/
instance (ms : List Member) : Decidable (Repeats ms) := inferInstanceAs (Decidable (_ ∨ _))

/-- The settings that the members give, with defaults for those that are missing. -/
def settingsOf (ms : List Member) : Settings :=
  ⟨(keywordsGiven ms).headD defaultKeywords, (showBlanksGiven ms).headD true⟩

/-! ### Order and other names -/

/-- A value that only members with a meaning have is the same without the others. -/
theorem filterMap_filter_isKnown {α : Type} {f : Member → Option α}
    (hf : ∀ name hkeywords hshowBlanks, f (.other name hkeywords hshowBlanks) = none)
    (ms : List Member) : (ms.filter Member.isKnown).filterMap f = ms.filterMap f := by
  have hsame : (fun m : Member => if m.isKnown then f m else none) = f := by
    funext m
    cases m with
    | keywords | showBlanks => rfl
    | other name hkeywords hshowBlanks => exact (hf name hkeywords hshowBlanks).symm
  rw [List.filterMap_filter, hsame]

section
variable {ms ms' : List Member}
  (h : List.Perm (ms.filter Member.isKnown) (ms'.filter Member.isKnown))
include h

/-- The same members have the same values, perhaps in another order. -/
theorem filterMap_perm {α : Type} {f : Member → Option α}
    (hf : ∀ name hkeywords hshowBlanks, f (.other name hkeywords hshowBlanks) = none) :
    List.Perm (ms.filterMap f) (ms'.filterMap f) := by
  rw [← filterMap_filter_isKnown hf ms, ← filterMap_filter_isKnown hf ms']
  exact h.filterMap f

/-- So the same lists of words are given. -/
theorem keywordsGiven_perm : List.Perm (keywordsGiven ms) (keywordsGiven ms') :=
  filterMap_perm h fun _ _ _ => rfl

/-- And the same is said about blanks. -/
theorem showBlanksGiven_perm : List.Perm (showBlanksGiven ms) (showBlanksGiven ms') :=
  filterMap_perm h fun _ _ _ => rfl

/-- Whether a member is given twice does not depend on the order either. -/
theorem repeats_iff_of_perm : Repeats ms ↔ Repeats ms' := by
  rw [Repeats, Repeats, (keywordsGiven_perm h).length_eq, (showBlanksGiven_perm h).length_eq]

/-- Of at most one value there is one order, so the settings are the same. -/
theorem settingsOf_eq_of_perm (hms : ¬Repeats ms) : settingsOf ms = settingsOf ms' := by
  have single {α : Type} {as bs : List α} (hperm : List.Perm as bs) (hlen : as.length ≤ 1) :
      as = bs := by
    rcases as with _ | ⟨a, _ | ⟨b, as⟩⟩
    · exact hperm.nil_eq
    · exact List.singleton_perm.mp hperm
    · simp at hlen
  simp only [Repeats, not_or, Nat.not_lt] at hms
  rw [settingsOf, settingsOf, single (keywordsGiven_perm h) hms.1,
    single (showBlanksGiven_perm h) hms.2]

end

/-! ### One member after the other -/

/-- Takes one more member, unless it is there already. -/
def Members.add (m : Members) : Member → Except Flaw Members
  | .keywords words =>
    if m.keywords.isSome then .error .mistyped else .ok { m with keywords := some words }
  | .showBlanks shown =>
    if m.showBlanks.isSome then .error .mistyped else .ok { m with showBlanks := some shown }
  | .other _ _ _ => .ok m

/-- Takes members in the order in which they stand. -/
def Members.addAll (m : Members) (ms : List Member) : Except Flaw Members := ms.foldlM Members.add m

/-- The first member is taken first. -/
theorem Members.addAll_cons (m : Members) (member : Member) (ms : List Member) :
    m.addAll (member :: ms) = (m.add member).bind (·.addAll ms) := rfl

/-- Members are refused if one of the two is there twice, counting those that were there before.
Otherwise there is at most one value for each. -/
theorem Members.addAll_eq (ms : List Member) (m : Members) :
    m.addAll ms =
      if 1 < (m.keywords.toList ++ keywordsGiven ms).length ∨
          1 < (m.showBlanks.toList ++ showBlanksGiven ms).length then .error .mistyped
      else .ok ⟨(m.keywords.toList ++ keywordsGiven ms).head?,
        (m.showBlanks.toList ++ showBlanksGiven ms).head?⟩ := by
  induction ms generalizing m with
  | nil =>
    -- What was there before is at most one value for each.
    rcases m with ⟨_ | words, _ | shown⟩ <;> rfl
  | cons member ms ih =>
    rw [Members.addAll_cons]
    cases member with
    | keywords words =>
      rcases m with ⟨_ | found, shown⟩
      · exact ih ⟨some words, shown⟩
      · simp [Members.add, Except.bind]
    | showBlanks shown =>
      rcases m with ⟨words, _ | found⟩
      · exact ih ⟨words, some shown⟩
      · simp [Members.add, Except.bind]
    | other name hkeywords hshowBlanks => exact ih m

/-- All the members of a text together. -/
theorem Members.settings_addAll (ms : List Member) :
    (Members.addAll ⟨none, none⟩ ms).map Members.settings =
      if Repeats ms then .error .mistyped else .ok (settingsOf ms) := by
  have hhead {α : Type} (as : List α) (a : α) : as.head?.getD a = as.headD a := by
    cases as <;> rfl
  have hall : Members.addAll ⟨none, none⟩ ms = if Repeats ms then .error .mistyped
      else .ok ⟨(keywordsGiven ms).head?, (showBlanksGiven ms).head?⟩ :=
    Members.addAll_eq ms ⟨none, none⟩
  rw [hall]
  split
  · rfl
  · simp only [Except.map, Members.settings, hhead, settingsOf]

end PascalScan.Settings
