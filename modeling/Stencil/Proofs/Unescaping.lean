/-
Stencil/Proofs/Unescaping.lean

Reading escaped text back.  Escaping replaces one special character after the other, each
over the whole text; in effect it is one pass that writes every character by itself
(`html_eq_flatMap_replacement`), so nothing that one replacement has written is touched by
another.

`unescape` is the way back: from left to right, an entity stands for its character and
every other character for itself.  No entity begins like another one, and only entities
begin with an ampersand, so it reads what one character was written as and goes on behind
that (`unescape_writtenFor`).  Nothing is lost, then, also where the text itself holds
entities.

The main result is `html_unescapes`.
-/
import Mathlib.Logic.Function.Basic
import Stencil.Proofs.Escaping

namespace Stencil.Escape

variable {c : Char} {entry : Char × String}

/-! ### One pass -/

/-- What escaped text holds in place of a character. -/
def replacement : Char → List Char
  | '&' => "&amp;".toList
  | '<' => "&lt;".toList
  | '>' => "&gt;".toList
  | '\\' => "&#92;".toList
  | '"' => "&quot;".toList
  | '\'' => "&#39;".toList
  | c => [c]

theorem writtenFor_entities (c : Char) : writtenFor entities c = replacement c := by
  unfold replacement
  split
  case h_7 hamp hless hgreater hback hquote happ =>
    simp [writtenFor, entities, List.lookup_cons, beq_false_of_ne hamp, beq_false_of_ne hless,
      beq_false_of_ne hgreater, beq_false_of_ne hback, beq_false_of_ne hquote, beq_false_of_ne happ]
  all_goals rfl

/-- Escaping writes every character by itself. -/
theorem html_eq_flatMap_replacement (text : List Char) : html text = text.flatMap replacement := by
  rw [html_eq_flatMap, funext writtenFor_entities]

theorem html_append (a b : List Char) : html (a ++ b) = html a ++ html b := by
  rw [html_eq_flatMap, html_eq_flatMap, html_eq_flatMap, List.flatMap_append]

/-! ### The way back -/

/-- The walk behind `unescape`, which passes over the rest of an entity that was read. -/
def unescapeFrom : (skip : Nat) → List Char → List Char
  | _, [] => []
  | skip + 1, _ :: cs => unescapeFrom skip cs
  | 0, c :: cs =>
    match entities.find? fun entry => entry.2.toList.isPrefixOf (c :: cs) with
    -- the first character of the entity is the one at hand
    | some (meant, entity) => meant :: unescapeFrom (entity.length - 1) cs
    | none => c :: unescapeFrom 0 cs

/-- The text with its entities read as the characters they are written for, from left to right. -/
def unescape (text : List Char) : List Char := unescapeFrom 0 text

theorem unescapeFrom_skip (word rest : List Char) :
    unescapeFrom word.length (word ++ rest) = unescape rest := by
  induction word with
  | nil => rfl
  | cons c word ih => rw [List.cons_append, List.length_cons, unescapeFrom, ih]

/-- No entity begins like another one. -/
theorem find?_entity (h : entry ∈ entities) (rest : List Char) :
    (entities.find? fun e => e.2.toList.isPrefixOf (entry.2.toList ++ rest)) = some entry := by
  simp only [entities, List.mem_cons, List.not_mem_nil, or_false] at h
  rcases h with rfl | rfl | rfl | rfl | rfl | rfl <;> rfl

theorem unescape_entity (h : entry ∈ entities) (rest : List Char) :
    unescape (entry.2.toList ++ rest) = entry.1 :: unescape rest := by
  obtain ⟨name, hname, -⟩ := entity_eq h
  have hfind := find?_entity h rest
  have hlength : entry.2.length - 1 = name.length := by
    rw [← String.length_toList, hname]
    rfl
  rw [hname, List.cons_append] at hfind ⊢
  rw [unescape, unescapeFrom, hfind]
  simp only [hlength]
  rw [unescapeFrom_skip]

theorem unescape_plain (hc : c ≠ '&') (rest : List Char) :
    unescape (c :: rest) = c :: unescape rest := by
  have hnone : (entities.find? fun e => e.2.toList.isPrefixOf (c :: rest)) = none := by
    refine List.find?_eq_none.mpr fun e he => ?_
    obtain ⟨name, hname, -⟩ := entity_eq he
    simp [hname, List.isPrefixOf, Ne.symm hc]
  rw [unescape, unescapeFrom, hnone]
  rfl

/-- What one character was written as is read as that character. -/
theorem unescape_writtenFor (c : Char) (rest : List Char) :
    unescape (writtenFor entities c ++ rest) = c :: unescape rest := by
  rw [writtenFor]
  cases hlookup : entities.lookup c with
  | some entity =>
    obtain ⟨before, after, hentities, -⟩ := List.lookup_eq_some_iff.mp hlookup
    have hmem : (c, entity) ∈ entities := by simp [hentities]
    exact unescape_entity hmem rest
  | none =>
    -- the ampersand is listed, so `c` is another character
    refine unescape_plain ?_ rest
    rintro rfl
    cases hlookup

/-- What was escaped is read back. -/
theorem unescape_html (text : List Char) : unescape (html text) = text := by
  rw [html_eq_flatMap]
  induction text with
  | nil => rfl
  | cons c text ih => rw [List.flatMap_cons, unescape_writtenFor, ih]

/-- **Escaping is one pass that writes every character by itself, and its entities, read from left to
right, give the text back.** -/
theorem html_unescapes :
    (∀ text, html text = text.flatMap replacement) ∧
    (∀ a b, html (a ++ b) = html a ++ html b) ∧
    Function.Injective html ∧
    ∀ text, unescape (html text) = text :=
  ⟨html_eq_flatMap_replacement, html_append, Function.LeftInverse.injective unescape_html,
    unescape_html⟩

/-- A text that holds entities already. -/
example : unescape (html "&lt;&amp;lt;".toList) = "&lt;&amp;lt;".toList := by decide

end Stencil.Escape
