/-
Stencil/Proofs/DirectivePlaces.lean

Where directives stand.  Every code text that a directive is taken apart into is cut
out of its body where no blanks are parted, so it is anchored in the source where the
body is, and an argument list stands between brackets (`splitCall?_bracketed`).  So a
directive that is classified has its expressions in their places, and one that cannot
be classified fails at a place in the source (`classify_inPlace`).
-/
import Stencil.Directive.Classify
import Stencil.Proofs.ExpressionPlaces

namespace Stencil

open Text

/-- The expressions of a directive are in their places. -/
def Directive.Placed (source : List Char) (d : Directive) : Prop :=
  ∀ span, ∀ mark ∈ d.marks span, ∀ e ∈ mark.expressions, e.Placed source

section Directives

variable {source : List Char} {body rest code : Slice}

/-- A directive with one expression. -/
theorem Directive.Placed.of_single {d : Directive} {e : Expression} (he : e.Placed source)
    (hd : ∀ span, ∃ mark, d.marks span = [mark] ∧ mark.expressions = [e]) : d.Placed source := by
  intro span mark hmark
  obtain ⟨only, hmarks, hexpressions⟩ := hd span
  rw [hmarks] at hmark
  obtain rfl := List.mem_singleton.mp hmark
  rw [hexpressions]
  exact List.forall_mem_singleton.mpr he

/-- A directive without expressions. -/
theorem Directive.Placed.of_none {d : Directive}
    (hd : ∀ span, ∀ mark ∈ d.marks span, mark.expressions = []) : d.Placed source := by
  intro span mark hmark
  rw [hd span mark hmark]
  exact nofun

theorem anchored_classifyOutput? {kind : OutputKind} (h : body.Anchored source)
    (hrest : classifyOutput? body = some (kind, rest)) : rest.Anchored source := by
  obtain ⟨⟨sign, kind'⟩, hsign, hafter⟩ := List.exists_of_findSome?_eq_some hrest
  obtain ⟨behind, hbehind, heq⟩ := Option.map_eq_some_iff.mp hafter
  obtain ⟨rfl, rfl⟩ : kind' = kind ∧ behind = rest := by simpa using heq
  have hsigns : ∀ entry ∈ outputSigns, entry.1.toList.getLast? ≠ some ' ' := by decide
  exact h.after? hbehind (hsigns _ hsign)

theorem split_inPlace (kind : OutputKind) (h : body.Anchored source) (hrest : rest.Anchored source) :
    InPlace source (fun part => part.2.Anchored source) (kind.split rest body.span) := by
  cases kind with
  | plain form => exact hrest
  | array =>
    rw [OutputKind.split]
    split
    · next before separator hsplit =>
      obtain ⟨hchars, -⟩ := (splitFirst?_eq_some_iff (by decide)).mp hsplit
      rw [List.append_assoc] at hchars
      exact hrest.front hchars (by decide)
    · exact hrest
  | truncate =>
    rw [OutputKind.split]
    split
    · next before digits hsplit =>
      simp only
      split
      · exact hrest.front (splitLast?_spec hsplit) (by decide)
      · exact h.within
    · exact h.within

/-- The arguments of a call stand between brackets. -/
theorem splitCall?_bracketed {name : String} {inner : Slice} (h : rest.Anchored source)
    (hsplit : splitCall? rest = some (name, inner)) : inner.Bracketed source := by
  obtain ⟨behind, opened, hname, hopened, hinner⟩ := splitCall?_cases hsplit
  have htrimmed := (h.trimStart.splitName? hname).trimStart
  obtain ⟨hchars, hstart⟩ := Slice.chars_of_after? hopened
  obtain ⟨hback, hbackstart⟩ := Slice.chars_of_before? hinner
  obtain ⟨tail, htail, -⟩ := dropTrailing_spec isBlank opened.chars
  have hanchored := ((htrimmed.after? hopened (by decide)).trimEnd).before? hinner (by decide)
  have hkept : dropTrailing isBlank opened.chars = inner.chars ++ [')'] := hback
  have hstart' : inner.start = behind.trimStart.start + 1 := hbackstart.trans hstart
  refine ⟨by omega, hanchored, ?_⟩
  have hall : behind.trimStart.chars = [] ++ '(' :: (inner.chars ++ [')']) ++ tail := by
    rw [hchars, htail, hkept]
    simp
  have hlast : ([] ++ '(' :: (inner.chars ++ [')'])).getLast? ≠ some ' ' := by simp [List.getLast?_cons]
  have hwhole := htrimmed.sub hall (.inl nofun) (.inl hlast)
  rwa [bytes_nil, Nat.add_zero, ← Nat.add_sub_cancel (n := behind.trimStart.start) (m := 1),
    ← hstart'] at hwhole

theorem anchored_splitLoop? {item : String} (h : rest.Anchored source)
    (hsplit : splitLoop? rest = some (item, code)) : code.Anchored source := by
  simp only [splitLoop?, Option.bind_eq_bind, Option.bind_eq_some_iff, Prod.exists] at hsplit
  obtain ⟨opened, hopened, inner, hinner, _, behind, hname, hsplit⟩ := hsplit
  have hinside := (h.trim.after? hopened (by decide)).before? hinner (by decide)
  have hbehind := hinside.trimStart.splitName? hname
  split at hsplit
  · cases hsplit
  obtain ⟨collection, hcollection, hsplit⟩ := Option.bind_eq_some_iff.mp hsplit
  split at hsplit
  · cases hsplit
  cases hsplit
  exact hbehind.trimStart.afterWord? hcollection (by decide)

theorem readCondition_inPlace (h : body.Anchored source) (hrest : rest.Anchored source) :
    InPlace source (Expression.Placed source) (readCondition rest body.span) := by
  rw [readCondition]
  split
  · exact readExpression_inPlace hrest
  · exact h.within

theorem anchored_afterElseIf? (h : body.Anchored source) (hrest : afterElseIf? body = some rest) :
    rest.Anchored source := by
  rw [afterElseIf?] at hrest
  split at hrest
  · next behind hafter =>
    cases hrest
    exact h.afterWord? hafter (by decide)
  · split at hrest
    · next behind hafter =>
      exact ((h.afterWord? hafter (by decide)).trimStart).afterWord? hrest (by decide)
    · cases hrest

theorem Directive.ofWord?_placed {d : Directive} {chars : List Char}
    (h : Directive.ofWord? chars = some d) : d.Placed source := by
  refine .of_none fun span mark hmark => ?_
  rcases Directive.ofWord?_cases h with rfl | rfl | rfl | rfl | rfl | rfl <;>
    (obtain rfl := List.mem_singleton.mp hmark; rfl)

theorem classify_inPlace (h : body.Anchored source) :
    InPlace source (Directive.Placed source) (classify body) := by
  have htrimmed : body.trim.Anchored source := h.trim
  have hcases := classify_cases body
  generalize classify body = outcome at hcases ⊢
  cases hcases with
  | output houtput =>
    refine (split_inPlace _ h (anchored_classifyOutput? h houtput)).bind fun part hpart => ?_
    refine (readExpression_inPlace hpart).bind fun e he => ?_
    exact .of_single he fun span => ⟨_, rfl, rfl⟩
  | forEach hrest hsplit =>
    have hcollection := anchored_splitLoop? (htrimmed.afterWord? hrest (by decide)) hsplit
    refine (readExpression_inPlace hcollection).bind fun e he => ?_
    exact .of_single he fun span => ⟨_, rfl, rfl⟩
  | word hword => exact Directive.ofWord?_placed hword
  | ifThen hrest =>
    have hcondition := readCondition_inPlace h (htrimmed.afterWord? hrest (by decide))
    exact hcondition.bind fun e he => .of_single he fun span => ⟨_, rfl, rfl⟩
  | elseIf hrest =>
    have hcondition := readCondition_inPlace h (anchored_afterElseIf? htrimmed hrest)
    exact hcondition.bind fun e he => .of_single he fun span => ⟨_, rfl, rfl⟩
  | define =>
    refine .of_none fun span mark hmark => ?_
    obtain rfl := List.mem_singleton.mp hmark
    rfl
  | run hrest hsplit =>
    have hinner := splitCall?_bracketed (htrimmed.afterWord? hrest (by decide)) hsplit
    refine (readArguments_inPlace hinner).bind fun es hes span mark hmark => ?_
    obtain rfl := List.mem_singleton.mp hmark
    exact hes
  | statements =>
    refine (readStatements_inPlace h).bind fun statements hstatements span mark hmark => ?_
    obtain ⟨s, hs, rfl⟩ := List.mem_map.mp hmark
    exact hstatements s hs
  -- the whole body is at fault, and it stands in the source
  | malformed => exact h.within

end Directives

end Stencil
