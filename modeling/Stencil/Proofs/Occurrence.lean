/-
Stencil/Proofs/Occurrence.lean

Sizes and first occurrences.  The searches of `Text.Search` walk over a text
character by character; here they are told from outside, by how the text is put
together:

* `FirstBehind pattern before` says that `pattern`, written behind `before`,
  occurs there for the first time;
* `splitFirst?_eq_some_iff` and `splitFirst?_eq_none_iff` say that
  `splitFirst?` finds this occurrence, and that it finds one if there is any;
* `splitAll_eq` says that a text is split into its parts by one such cut after the other.

A text can be cut before a first occurrence in only one way
(`FirstBehind.unique`), so whoever scans for first occurrences has no choice.
-/
import Mathlib.Data.List.Infix
import Stencil.Text.Search

namespace Stencil.Text

/-! ### Sizes -/

@[simp] theorem bytes_nil : bytes [] = 0 := rfl

@[simp] theorem bytes_cons (c : Char) (cs : List Char) :
    bytes (c :: cs) = c.utf8Size + bytes cs := rfl

@[simp] theorem bytes_append (cs ds : List Char) : bytes (cs ++ ds) = bytes cs + bytes ds := by
  induction cs with
  | nil => simp
  | cons c cs ih => simp [ih, Nat.add_assoc]

/-- A text that is not empty takes up room. -/
theorem bytes_pos {cs : List Char} (h : cs ≠ []) : 0 < bytes cs := by
  obtain ⟨c, cs, rfl⟩ := List.exists_cons_of_ne_nil h
  have := c.utf8Size_pos
  simp only [bytes_cons]
  omega

/-- The bytes of a text. -/
def utf8 (cs : List Char) : List UInt8 := cs.flatMap String.utf8EncodeChar

theorem utf8_append (cs ds : List Char) : utf8 (cs ++ ds) = utf8 cs ++ utf8 ds := by
  simp [utf8]

@[simp] theorem length_utf8 (cs : List Char) : (utf8 cs).length = bytes cs := by
  induction cs with
  | nil => rfl
  | cons c cs ih =>
    have hcons : utf8 (c :: cs) = String.utf8EncodeChar c ++ utf8 cs := by simp [utf8]
    rw [hcons, List.length_append, String.length_utf8EncodeChar, ih, bytes_cons]

/-! ### First occurrences -/

/-- `pattern`, written behind `before`, occurs there for the first time: an occurrence in the two
together ends where they end. -/
def FirstBehind (pattern before : List Char) : Prop :=
  ∀ lead rest, before ++ pattern = lead ++ pattern ++ rest → rest = []

/-- Where a text begins with the pattern, nothing stands before the first occurrence. -/
theorem FirstBehind.eq_nil {pattern before : List Char} (h : FirstBehind pattern before)
    (after : List Char) (hp : pattern <+: before ++ pattern ++ after) : before = [] := by
  have hlead : pattern <+: before ++ pattern :=
    List.prefix_of_prefix_length_le hp (List.prefix_append _ _) (by simp)
  obtain ⟨rest, hrest⟩ := hlead
  have hnil : rest = [] := h [] rest (by simpa using hrest.symm)
  have hlen := congrArg List.length hrest
  simp only [hnil, List.append_nil, List.length_append] at hlen
  exact List.eq_nil_of_length_eq_zero (by omega)

/-- The pattern itself is its first occurrence. -/
theorem firstBehind_nil (pattern : List Char) : FirstBehind pattern [] := by
  intro lead rest h
  have hlen := congrArg List.length h
  simp only [List.nil_append, List.length_append] at hlen
  exact List.eq_nil_of_length_eq_zero (by omega)

theorem FirstBehind.of_cons {pattern before : List Char} {c : Char}
    (h : FirstBehind pattern (c :: before)) : FirstBehind pattern before := by
  intro lead rest heq
  exact h (c :: lead) rest (by simp [heq])

/-- One character more in front of a first occurrence, at which the pattern does not begin. -/
theorem FirstBehind.cons {pattern before : List Char} {c : Char} (h : FirstBehind pattern before)
    (hc : ¬ pattern <+: c :: (before ++ pattern)) : FirstBehind pattern (c :: before) := by
  intro lead rest heq
  cases lead with
  | nil => exact absurd ⟨rest, by simpa using heq.symm⟩ hc
  | cons d lead =>
    simp only [List.cons_append, List.cons.injEq] at heq
    exact h lead rest heq.2

/-- A text is cut before the first occurrence of a pattern in one way only. -/
theorem FirstBehind.unique {pattern before after before' after' : List Char}
    (h : FirstBehind pattern before) (h' : FirstBehind pattern before')
    (heq : before ++ pattern ++ after = before' ++ pattern ++ after') :
    before = before' ∧ after = after' := by
  -- the shorter of the two texts ends where the pattern begins in the longer one
  induction before generalizing before' with
  | nil =>
    have hp : pattern <+: before' ++ pattern ++ after' := ⟨after, by simpa using heq⟩
    obtain rfl := h'.eq_nil after' hp
    exact ⟨rfl, by simpa using heq⟩
  | cons c before ih =>
    cases before' with
    | nil =>
      have hp : pattern <+: c :: before ++ pattern ++ after := ⟨after', by simpa using heq.symm⟩
      exact absurd (h.eq_nil after hp) (List.cons_ne_nil c before)
    | cons c' before' =>
      simp only [List.cons_append, List.cons.injEq] at heq
      obtain ⟨rfl, heq⟩ := heq
      obtain ⟨rfl, hafter⟩ := ih h.of_cons h'.of_cons heq
      exact ⟨rfl, hafter⟩

/-- The text in front of a first occurrence does not hold the pattern. -/
theorem FirstBehind.not_infix {pattern before : List Char} (hp : pattern ≠ [])
    (h : FirstBehind pattern before) : ¬ pattern <:+: before := by
  rintro ⟨lead, rest, hin⟩
  have hnil : rest ++ pattern = [] := h lead (rest ++ pattern) (by rw [← hin]; simp)
  exact hp (List.append_eq_nil_iff.mp hnil).2

/-- `splitFirst?` cuts a text around the first occurrence of the pattern. -/
theorem splitFirst?_eq_some_iff {pattern : List Char} (hp : pattern ≠ [])
    {cs before after : List Char} :
    splitFirst? pattern cs = some (before, after) ↔
      cs = before ++ pattern ++ after ∧ FirstBehind pattern before := by
  induction cs generalizing before with
  | nil =>
    constructor
    · simp [splitFirst?, hp]
    · rintro ⟨hcs, -⟩
      exact absurd hcs.symm (by simp [hp])
  | cons c cs ih =>
    rw [splitFirst?]
    split
    · -- the pattern stands at the head, so the first occurrence is there and nothing lies before it
      next hpre =>
      obtain ⟨rest, hrest⟩ := List.isPrefixOf_iff_prefix.mp hpre
      rw [← hrest, List.drop_left]
      constructor
      · intro h
        obtain ⟨rfl, rfl⟩ : [] = before ∧ rest = after := by simpa using h
        exact ⟨by simp, firstBehind_nil pattern⟩
      · rintro ⟨hcs, hfirst⟩
        obtain rfl := hfirst.eq_nil after ⟨rest, hcs⟩
        obtain rfl : rest = after := by simpa using hcs
        rfl
    · next hpre =>
      -- it does not stand here, so the occurrences are those behind `c`
      have hno : ¬ pattern <+: c :: cs := fun h => hpre (List.isPrefixOf_iff_prefix.mpr h)
      constructor
      · intro h
        obtain ⟨⟨lead, rest⟩, hsplit, heq⟩ := Option.map_eq_some_iff.mp h
        obtain ⟨rfl, rfl⟩ : c :: lead = before ∧ rest = after := by simpa using heq
        obtain ⟨rfl, hfirst⟩ := ih.mp hsplit
        refine ⟨by simp, hfirst.cons fun hc => hno (hc.trans ?_)⟩
        exact ⟨rest, by simp⟩
      · rintro ⟨hcs, hfirst⟩
        cases before with
        | nil => exact absurd ⟨after, by simpa using hcs.symm⟩ hno
        | cons d lead =>
          simp only [List.cons_append, List.cons.injEq] at hcs
          obtain ⟨rfl, hcs⟩ := hcs
          rw [ih.mpr ⟨hcs, hfirst.of_cons⟩]
          rfl

theorem FirstBehind.splitFirst? {pattern before : List Char} (hp : pattern ≠ [])
    (h : FirstBehind pattern before) (after : List Char) :
    splitFirst? pattern (before ++ pattern ++ after) = some (before, after) :=
  (splitFirst?_eq_some_iff hp).mpr ⟨rfl, h⟩

/-- `splitFirst?` finds nothing exactly where the pattern does not occur. -/
theorem splitFirst?_eq_none_iff {pattern : List Char} (hp : pattern ≠ []) {cs : List Char} :
    splitFirst? pattern cs = none ↔ ¬ pattern <:+: cs := by
  constructor
  · intro h
    induction cs with
    | nil => simpa using hp
    | cons c cs ih =>
      rw [splitFirst?] at h
      split at h
      · cases h
      · next hpre =>
        rw [List.infix_cons_iff]
        rintro (hc | hcs)
        · exact hpre (List.isPrefixOf_iff_prefix.mpr hc)
        · exact ih (by simpa using h) hcs
  · intro hno
    rcases h : splitFirst? pattern cs with - | ⟨before, after⟩
    · rfl
    · obtain ⟨rfl, -⟩ := (splitFirst?_eq_some_iff hp).mp h
      exact absurd ⟨before, after, rfl⟩ hno

/-! ### Patterns of one character -/

theorem firstBehind_singleton_iff {mark : Char} {before : List Char} :
    FirstBehind [mark] before ↔ mark ∉ before := by
  constructor
  · intro h hmem
    exact h.not_infix (List.cons_ne_nil _ _) ((List.singleton_infix_iff _ _).mpr hmem)
  · intro h lead tail heq
    rcases List.eq_nil_or_concat tail with rfl | ⟨tail, last, rfl⟩
    · rfl
    · -- a mark that is not the last character is one of `before`
      rw [List.concat_eq_append, ← List.append_assoc] at heq
      have hbefore : before = lead ++ [mark] ++ tail := (List.append_inj' heq rfl).1
      exact absurd (by simp [hbefore]) h

theorem splitFirst?_mark {mark : Char} {before : List Char} (h : mark ∉ before) (after : List Char) :
    splitFirst? [mark] (before ++ mark :: after) = some (before, after) := by
  have hcut := (firstBehind_singleton_iff.mpr h).splitFirst? (List.cons_ne_nil _ _) after
  rwa [List.append_assoc] at hcut

theorem splitFirst?_mark_eq_none {mark : Char} {cs : List Char} (h : mark ∉ cs) :
    splitFirst? [mark] cs = none :=
  (splitFirst?_eq_none_iff (List.cons_ne_nil _ _)).mpr fun hin =>
    h ((List.singleton_infix_iff _ _).mp hin)

/-! ### Splitting at every occurrence -/

theorem splitFrom_skip {separator : List Char} (word rest : List Char) :
    splitFrom separator word.length (word ++ rest) = splitFrom separator 0 rest := by
  induction word with
  | nil => rfl
  | cons c word ih => rw [List.cons_append, List.length_cons, splitFrom, ih]

/-- A text is split at the first separator, and on behind it. -/
theorem splitAll_eq {separator : List Char} (hne : separator ≠ []) (cs : List Char) :
    splitAll separator cs =
      match splitFirst? separator cs with
      | some (before, after) => before :: splitAll separator after
      | none => [cs] := by
  induction cs with
  | nil => simp [splitAll, splitFrom, splitFirst?, hne]
  | cons c cs ih =>
    by_cases hpre : separator <+: c :: cs
    · obtain ⟨rest, hrest⟩ := hpre
      obtain ⟨d, word, rfl⟩ := List.exists_cons_of_ne_nil hne
      rw [List.cons_append, List.cons.injEq] at hrest
      obtain ⟨rfl, rfl⟩ := hrest
      have hpre : (d :: word).isPrefixOf (d :: (word ++ rest)) = true :=
        List.isPrefixOf_iff_prefix.mpr ⟨rest, rfl⟩
      -- the walk passes over the rest of the separator
      rw [splitAll, splitFrom, splitFirst?, if_pos hpre, if_pos hpre, List.length_cons,
        Nat.add_sub_cancel, splitFrom_skip, List.drop_succ_cons, List.drop_left]
      rfl
    · have hpre : ¬ separator.isPrefixOf (c :: cs) = true := List.isPrefixOf_iff_prefix.not.mpr hpre
      rw [splitAll] at ih ⊢
      rw [splitFrom, splitFirst?, if_neg hpre, if_neg hpre]
      cases hfirst : splitFirst? separator cs with
      | none =>
        rw [hfirst] at ih
        obtain ⟨hpart, hparts⟩ := List.cons.inj ih
        simp [hpart, hparts]
      | some split =>
        rw [hfirst] at ih
        obtain ⟨hpart, hparts⟩ := List.cons.inj ih
        simp [hpart, hparts]

end Stencil.Text
