/-
Stencil/Proofs/Splitting.lean

Splitting a text and joining the parts.  `Parts` says what the parts of a text are: one ends
where the separator occurs for the first time, the next one begins behind it, and the last
one is what holds no separator any more.  The walk that splits a text gives these parts
(`parts_splitAll`), and all that is to be known of them follows by induction on them:
joined by the separator they are the text again, and none of them holds the separator.

The main result is `join_split`, over all values as separators.
-/
import Stencil.Builtin.Method
import Stencil.Proofs.Occurrence

namespace Stencil

namespace Text

variable {separator cs : List Char} {parts : List (List Char)}

/-! ### The parts of a text -/

/-- The parts of a text between the occurrences of a separator, looked for from left to right. -/
inductive Parts (separator : List Char) : List Char → List (List Char) → Prop
  | last {cs : List Char} : ¬ separator <:+: cs → Parts separator cs [cs]
  | part {before after : List Char} {parts : List (List Char)} :
      FirstBehind separator before → Parts separator after parts →
      Parts separator (before ++ separator ++ after) (before :: parts)

theorem Parts.ne_nil (h : Parts separator cs parts) : parts ≠ [] := by
  cases h <;> exact List.cons_ne_nil _ _

/-- Joined by the separator, the parts are the text. -/
theorem Parts.intercalate (h : Parts separator cs parts) : separator.intercalate parts = cs := by
  induction h with
  | last => exact List.intercalate_singleton
  | @part before after parts _ hparts ih =>
    obtain ⟨next, parts, rfl⟩ := List.exists_cons_of_ne_nil hparts.ne_nil
    rw [List.intercalate_cons_cons, ih]

/-- None of the parts holds the separator. -/
theorem Parts.apart (hne : separator ≠ []) (h : Parts separator cs parts) :
    ∀ part ∈ parts, ¬ separator <:+: part := by
  induction h with
  | last hno => exact List.forall_mem_singleton.mpr hno
  | part hfirst _ ih =>
    have hbefore := hfirst.not_infix hne
    exact List.forall_mem_cons.mpr ⟨hbefore, ih⟩

/-! ### Splitting -/

theorem parts_splitAll (hne : separator ≠ []) (cs : List Char) :
    Parts separator cs (splitAll separator cs) := by
  induction hlength : cs.length using Nat.strongRecOn generalizing cs with
  | ind length ih =>
    rw [splitAll_eq hne]
    cases hsplit : splitFirst? separator cs with
    | none => exact .last ((splitFirst?_eq_none_iff hne).mp hsplit)
    | some split =>
      obtain ⟨before, after⟩ := split
      obtain ⟨rfl, hfirst⟩ := (splitFirst?_eq_some_iff hne).mp hsplit
      have hpos := List.length_pos_iff.mpr hne
      rw [List.length_append, List.length_append] at hlength
      exact .part hfirst (ih after.length (by omega) after rfl)

theorem split_of_ne_nil (hne : separator ≠ []) (cs : List Char) :
    split (some separator) none cs = splitAll separator cs := by
  obtain ⟨c, word, rfl⟩ := List.exists_cons_of_ne_nil hne
  rfl

/-- The characters of a text with nothing between them are the text. -/
theorem intercalate_characters (cs : List Char) : [].intercalate (cs.map ([·])) = cs := by
  induction cs with
  | nil => rfl
  | cons c cs ih =>
    cases cs with
    | nil => rfl
    | cons next cs =>
      rw [List.map_cons] at ih
      rw [List.map_cons, List.map_cons, List.intercalate_cons_cons, ih]
      rfl

/-- Whatever a text is split at joins the parts again. -/
theorem intercalate_split (separator cs : List Char) :
    separator.intercalate (split (some separator) none cs) = cs := by
  by_cases hne : separator = []
  · subst hne
    exact intercalate_characters cs
  · rw [split_of_ne_nil hne]
    exact (parts_splitAll hne cs).intercalate

end Text

/-! ### Values -/

namespace Value

variable {s : Value}

theorem ifGiven_of_ne {α : Type} (h : s ≠ .undefined) (given : Value → α) (other : α) :
    s.ifGiven given other = given s := by
  cases s with
  | undefined => exact absurd rfl h
  | _ => rfl

theorem itemChars_ofChars (parts : List (List Char)) : itemChars (parts.map .ofChars) = parts := by
  induction parts with
  | nil => rfl
  | cons part parts ih =>
    rw [List.map_cons, itemChars_cons, ih]
    exact congrArg (· :: parts) String.toList_ofList

/-- A text is split at the text of a separator; without one it is left in one part. -/
theorem callMethod?_split (id : Identity) (t : String) (s : Value) :
    (text t).callMethod? id "split" [s] =
      some (.array id
        ((Text.split (s.ifGiven (fun v => some v.chars) none) none t.toList).map .ofChars)) :=
  rfl

theorem callMethod?_join (id id' : Identity) (parts : List (List Char)) (s : Value) :
    (array id (parts.map .ofChars)).callMethod? id' "join" [s] =
      some (.ofChars ((s.ifGiven Value.chars [',']).intercalate parts)) := by
  show some (ofChars ((s.ifGiven Value.chars [',']).intercalate (itemChars (parts.map .ofChars)))) = _
  rw [itemChars_ofChars]

/-- **A text that is split at a separator, whatever value that is, and joined by it again is what it was;
and none of the parts holds the separator.** -/
theorem join_split (id id' : Identity) (t : String) (s : Value) :
    ∃ parts : List (List Char),
      (text t).callMethod? id "split" [s] = some (.array id (parts.map .ofChars)) ∧
      (array id (parts.map .ofChars)).callMethod? id' "join" [s] = some (.text t) ∧
      (s ≠ .undefined → s.chars ≠ [] → ∀ part ∈ parts, ¬ s.chars <:+: part) := by
  refine ⟨_, callMethod?_split id t s, ?_, fun hs hne => ?_⟩
  · rw [callMethod?_join]
    congr 1
    by_cases hs : s = .undefined
    · subst hs
      show ofChars ([','].intercalate [t.toList]) = .text t
      rw [List.intercalate_singleton, ofChars, String.ofList_toList]
    · rw [ifGiven_of_ne hs, ifGiven_of_ne hs, Text.intercalate_split, ofChars, String.ofList_toList]
  · rw [ifGiven_of_ne hs, Text.split_of_ne_nil hne]
    exact (Text.parts_splitAll hne t.toList).apart hne

/-- A separator that is no text and overlaps with itself. -/
theorem join_split_overlapping :
    let s := array (.given 0) [.text "a", .text "a"]
    s ≠ .undefined ∧ s.chars = "a,a".toList ∧ s.chars ≠ [] ∧
    ∃ parts : List (List Char),
      (text "xa,a,a,").callMethod? (.made 0) "split" [s] =
        some (.array (.made 0) (parts.map .ofChars)) ∧
      (array (.made 0) (parts.map .ofChars)).callMethod? (.made 1) "join" [s] =
        some (.text "xa,a,a,") ∧
      ∀ part ∈ parts, ¬ s.chars <:+: part := by
  intro s
  have hs : s ≠ .undefined := nofun
  have hne : s.chars ≠ [] := List.cons_ne_nil _ _
  obtain ⟨parts, hsplit, hjoin, hnone⟩ := join_split (.made 0) (.made 1) "xa,a,a," s
  exact ⟨hs, rfl, hne, parts, hsplit, hjoin, hnone hs hne⟩

end Value

end Stencil
