/-
Stencil/Proofs/Escaping.lean

Text that cannot open or close anything in markup.  A text is escaped if it is made
of characters that mean nothing in markup and of whole entities (`Escaped`); in such
a text none of `<`, `>`, `"` and `'` stands, and an ampersand only begins an entity
(`Escaped.inert`).

Replacing single characters one after the other works on every character by itself
(`replaceEach_eq_flatMap`), so `Escape.html` is a map on characters
(`html_eq_flatMap`).  The escape sequences of an event attribute are resolved behind
the escaping: each of them begins with a backslash, which no entity holds, and so
each is met between the entities and never inside of one
(`Escaped.replaceAll_sequence`).

The main result, `write_pieces`: every form but the raw one writes inert text, the one
for arrays with its separator in between.
-/
import Stencil.Output

namespace Stencil

/-! ### Replacing single characters -/

namespace Text

theorem replaceFrom_singleton (c : Char) (replacement text : List Char) :
    replaceFrom [c] replacement 0 text = text.flatMap fun d => if d = c then replacement else [d] := by
  induction text with
  | nil => rfl
  | cons d text ih =>
    rw [replaceFrom, List.flatMap_cons]
    -- the pattern is one character long, so nothing is left to pass over
    by_cases hd : d = c
    · subst hd
      simpa using ih
    · have hhead : List.isPrefixOf [c] (d :: text) = false := by
        simp [List.isPrefixOf, Ne.symm hd]
      rw [hhead, if_neg hd, ih]
      rfl

/-- Behind a stretch without the first character of the pattern the walk is where it was before. -/
theorem replaceFrom_append {first : Char} {behind replacement front : List Char} (h : first ∉ front)
    (text : List Char) :
    replaceFrom (first :: behind) replacement 0 (front ++ text) =
      front ++ replaceFrom (first :: behind) replacement 0 text := by
  induction front with
  | nil => rfl
  | cons c front ih =>
    obtain ⟨hc, hfront⟩ := not_or.mp (mt List.mem_cons.mpr h)
    have hhead : List.isPrefixOf (first :: behind) (c :: (front ++ text)) = false := by
      simp [List.isPrefixOf, hc]
    rw [List.cons_append, replaceFrom, hhead, ih hfront]
    rfl

end Text

namespace Escape

theorem replaceEach_cons (pattern replacement : List Char)
    (replacements : List (List Char × List Char)) (text : List Char) :
    replaceEach ((pattern, replacement) :: replacements) text =
      replaceEach replacements (Text.replaceAll pattern replacement text) :=
  rfl

/-- Replacing single characters one after the other treats every character by itself. -/
theorem replaceEach_eq_flatMap (replacements : List (Char × List Char)) (text : List Char) :
    replaceEach (replacements.map fun (c, r) => ([c], r)) text =
      text.flatMap fun c => replaceEach (replacements.map fun (c, r) => ([c], r)) [c] := by
  induction replacements generalizing text with
  | nil => simp [replaceEach]
  | cons first replacements ih =>
    obtain ⟨c, r⟩ := first
    simp only [List.map_cons, replaceEach_cons]
    rw [ih, Text.replaceAll, Text.replaceFrom_singleton, List.flatMap_assoc]
    congr 1
    funext d
    rw [ih (Text.replaceAll [c] r [d]), Text.replaceAll, Text.replaceFrom_singleton]
    simp

/-- What is written for a character that `table` may list. -/
def writtenFor (table : List (Char × String)) (c : Char) : List Char :=
  ((table.lookup c).map String.toList).getD [c]

theorem replaceEach_of_not_listed {replacements : List (Char × List Char)} {c : Char}
    (h : ∀ entry ∈ replacements, entry.1 ≠ c) :
    replaceEach (replacements.map fun (c, r) => ([c], r)) [c] = [c] := by
  induction replacements with
  | nil => rfl
  | cons first replacements ih =>
    obtain ⟨d, r⟩ := first
    have hc : c ≠ d := (h (d, r) List.mem_cons_self).symm
    have hfirst : Text.replaceAll [d] r [c] = [c] := by
      rw [Text.replaceAll, Text.replaceFrom_singleton]
      simp [hc]
    rw [List.map_cons, replaceEach_cons, hfirst]
    exact ih fun entry hentry => h entry (List.mem_cons_of_mem _ hentry)

/-- A table whose own characters come out as it says writes every text character by character. -/
theorem replaceEach_table {table : List (Char × String)}
    (h : ∀ entry ∈ table, replaceEach (table.map fun (c, text) => ([c], text.toList)) [entry.1] =
      writtenFor table entry.1)
    (text : List Char) :
    replaceEach (table.map fun (c, text) => ([c], text.toList)) text =
      text.flatMap (writtenFor table) := by
  have hmap : (table.map fun (c, text) => ([c], text.toList)) =
      (table.map fun (c, text) => (c, text.toList)).map fun (c, r) => ([c], r) := by
    rw [List.map_map]
    rfl
  have hchar : ∀ c, replaceEach (table.map fun (c, text) => ([c], text.toList)) [c] =
      writtenFor table c := by
    intro c
    -- a character that the table does not list is touched by none of the replacements
    by_cases hc : c ∈ table.map Prod.fst
    · obtain ⟨entry, hentry, rfl⟩ := List.mem_map.mp hc
      exact h entry hentry
    · have hnone : table.lookup c = none := by
        rw [List.lookup_eq_none_iff]
        intro entry hentry
        rw [bne_iff_ne]
        rintro rfl
        exact hc (List.mem_map_of_mem hentry)
      rw [writtenFor, hnone, hmap, replaceEach_of_not_listed]
      · rfl
      · intro entry hentry
        obtain ⟨listed, hlisted, rfl⟩ := List.mem_map.mp hentry
        rintro rfl
        exact hc (List.mem_map_of_mem hlisted)
  rw [hmap, replaceEach_eq_flatMap, ← hmap]
  congr 1
  funext c
  exact hchar c

/-- Escaping writes every character by itself. -/
theorem html_eq_flatMap (text : List Char) : html text = text.flatMap (writtenFor entities) :=
  replaceEach_table (by decide) text

/-- The entities of the value of an event attribute, where the backslash is no special character. -/
def eventEntities : List (Char × String) :=
  [('&', "&amp;"), ('<', "&lt;"), ('>', "&gt;"), ('"', "&quot;"), ('\'', "&#39;")]

theorem eventHtml_eq (text : List Char) :
    eventHtml text = replaceEach (sequences.map fun (written, meant) => (written.toList, meant.toList))
      (text.flatMap (writtenFor eventEntities)) := by
  rw [← replaceEach_table (by decide) text]
  rfl

end Escape

/-! ### Escaped text -/

/-- A character that means something in markup. -/
def isMarkup (c : Char) : Bool := c = '&' || c = '<' || c = '>' || c = '"' || c = '\''

/-- A text of characters that mean nothing in markup and of whole entities. -/
inductive Escaped : List Char → Prop
  | nil : Escaped []
  | plain {c : Char} {rest : List Char} : isMarkup c = false → Escaped rest → Escaped (c :: rest)
  | entity {entry : Char × String} {rest : List Char} :
      entry ∈ Escape.entities → Escaped rest → Escaped (entry.2.toList ++ rest)

/-- A text that opens and closes nothing in markup: no `<`, `>` or `"` stands in it, `'` only where
`apostrophe` allows it, and every `&` begins an entity that stands in it as a whole. -/
structure Inert (apostrophe : Bool) (text : List Char) : Prop where
  noLess : '<' ∉ text
  noGreater : '>' ∉ text
  noQuote : '"' ∉ text
  noApostrophe : apostrophe = false → '\'' ∉ text
  ampersand : ∀ before after, text = before ++ '&' :: after →
    ∃ entry ∈ Escape.entities, entry.2.toList <+: '&' :: after

/-- An entity is an ampersand with a name that means nothing in markup and in escape sequences. -/
theorem Escape.entity_eq {entry : Char × String} (h : entry ∈ Escape.entities) :
    ∃ name, entry.2.toList = '&' :: name ∧ '\\' ∉ name ∧ ∀ c ∈ name, isMarkup c = false := by
  simp only [Escape.entities, List.mem_cons, List.not_mem_nil, or_false] at h
  rcases h with rfl | rfl | rfl | rfl | rfl | rfl
  all_goals
    exact ⟨_, rfl, by decide, fun c hc => Bool.eq_false_iff.mpr (List.any_eq_false.mp rfl c hc)⟩

namespace Escaped

variable {text rest : List Char}

theorem append (h : Escaped text) (hrest : Escaped rest) : Escaped (text ++ rest) := by
  induction h with
  | nil => exact hrest
  | plain hc _ ih => exact .plain hc ih
  | entity he _ ih =>
    rw [List.append_assoc]
    exact .entity he ih

theorem of_plain (h : ∀ c ∈ text, isMarkup c = false) : Escaped text := by
  induction text with
  | nil => exact .nil
  | cons c text ih =>
    exact .plain (h c List.mem_cons_self) (ih fun d hd => h d (List.mem_cons_of_mem _ hd))

theorem flatMap {write : Char → List Char} (h : ∀ c, Escaped (write c)) (cs : List Char) :
    Escaped (cs.flatMap write) := by
  induction cs with
  | nil => exact .nil
  | cons c cs ih =>
    rw [List.flatMap_cons]
    exact (h c).append ih

/-- Behind a character other than an ampersand the text is escaped again. -/
theorem tail {c : Char} (h : Escaped (c :: rest)) (hc : c ≠ '&') : Escaped rest := by
  generalize hcs : c :: rest = cs at h
  cases h with
  | nil => cases hcs
  | plain _ hrest =>
    cases hcs
    exact hrest
  | entity he _ =>
    obtain ⟨name, hname, -⟩ := Escape.entity_eq he
    rw [hname] at hcs
    cases hcs
    exact absurd rfl hc

/-- Of the characters of markup only the ampersand stands in escaped text. -/
theorem eq_ampersand (h : Escaped text) : ∀ c ∈ text, isMarkup c = true → c = '&' := by
  induction h with
  | nil => exact nofun
  | plain hc _ ih =>
    intro d hd hmarkup
    rcases List.mem_cons.mp hd with rfl | hd
    · rw [hc] at hmarkup
      cases hmarkup
    · exact ih d hd hmarkup
  | entity he _ ih =>
    obtain ⟨name, hname, -, hplain⟩ := Escape.entity_eq he
    intro d hd hmarkup
    rw [hname, List.cons_append, List.mem_cons, List.mem_append] at hd
    rcases hd with rfl | hd | hd
    · rfl
    · rw [hplain d hd] at hmarkup
      cases hmarkup
    · exact ih d hd hmarkup

/-- An ampersand in escaped text begins an entity. -/
theorem entity_of_ampersand (h : Escaped text) : ∀ before after, text = before ++ '&' :: after →
    ∃ entry ∈ Escape.entities, entry.2.toList <+: '&' :: after := by
  induction h with
  | nil =>
    intro before after htext
    simp at htext
  | @plain c rest hc _ ih =>
    intro before after htext
    cases before with
    | nil =>
      cases htext
      cases hc
    | cons d before =>
      cases htext
      exact ih before after rfl
  -- the first ampersand of the entity is its only one
  | @entity entry rest he _ ih =>
    obtain ⟨name, hname, -, hplain⟩ := Escape.entity_eq he
    intro before after htext
    rcases List.append_eq_append_iff.mp htext with ⟨between, rfl, hrest⟩ | ⟨between, hentry, hafter⟩
    · exact ih between after hrest
    · -- the ampersand stands in the entity, so it is the first character of it
      cases between with
      | nil => exact ih [] after hafter.symm
      | cons d between =>
        obtain ⟨rfl, rfl⟩ : '&' = d ∧ after = between ++ rest := by simpa using hafter
        cases before with
        | nil => exact ⟨entry, he, by rw [hentry]; exact List.prefix_append _ _⟩
        | cons first before =>
          rw [hname] at hentry
          cases hentry
          have hamp := hplain '&' (by simp)
          cases hamp

theorem inert (h : Escaped text) (apostrophe : Bool) : Inert apostrophe text where
  noLess hc := by cases h.eq_ampersand _ hc rfl
  noGreater hc := by cases h.eq_ampersand _ hc rfl
  noQuote hc := by cases h.eq_ampersand _ hc rfl
  noApostrophe _ hc := by cases h.eq_ampersand _ hc rfl
  ampersand := h.entity_of_ampersand

/-- Resolving an escape sequence of a backslash and another character leaves text escaped: the sequence
stands between the entities. -/
theorem replaceAll_sequence {second meant : Char} (hsecond : second ≠ '&')
    (hmeant : isMarkup meant = false) (h : Escaped text) :
    Escaped (Text.replaceAll ['\\', second] [meant] text) := by
  -- behind a backslash the walk passes over the second character, so both rests are followed at once
  suffices Escaped (Text.replaceFrom ['\\', second] [meant] 0 text) ∧
      ∀ c rest, text = c :: rest → c ≠ '&' →
        Escaped (Text.replaceFrom ['\\', second] [meant] 0 rest) from this.1
  induction h with
  | nil => exact ⟨.nil, nofun⟩
  | @plain c rest hc hrest ih =>
    refine ⟨?_, ?_⟩
    · rw [Text.replaceFrom]
      split
      · next hhead =>
        cases rest with
        | nil => simp [List.isPrefixOf] at hhead
        | cons d rest =>
          obtain ⟨rfl, rfl⟩ : '\\' = c ∧ second = d := by
            simpa [List.isPrefixOf] using hhead
          exact .plain hmeant (ih.2 second rest rfl hsecond)
      · exact .plain hc ih.1
    · rintro _ _ ⟨⟩ -
      exact ih.1
  | @entity entry rest he hrest ih =>
    obtain ⟨name, hname, hback, -⟩ := Escape.entity_eq he
    refine ⟨?_, ?_⟩
    · rw [Text.replaceFrom_append]
      · exact .entity he ih.1
      · rw [hname]
        simpa using hback
    · intro c behind hcs hc
      rw [hname] at hcs
      cases hcs
      exact absurd rfl hc

end Escaped

/-! ### What the forms write -/

theorem isMarkup_eq_true {c : Char} :
    isMarkup c = true ↔ c = '&' ∨ c = '<' ∨ c = '>' ∨ c = '"' ∨ c = '\'' := by
  simp [isMarkup, or_assoc]

/-- A character of a class that no character of markup belongs to means nothing in markup. -/
theorem isMarkup_eq_false (belongs : Char → Bool) {c : Char} (hc : belongs c = true)
    (h : "&<>\"'".toList.any belongs = false) : isMarkup c = false := by
  rw [Bool.eq_false_iff]
  intro hmarkup
  have hmem : c ∈ "&<>\"'".toList := by
    rcases isMarkup_eq_true.mp hmarkup with rfl | rfl | rfl | rfl | rfl <;> decide
  exact List.any_eq_false.mp h c hmem hc

namespace Escape

/-- Writing entities for all characters of markup leaves escaped text. -/
theorem escaped_writtenFor {table : List (Char × String)} (hsub : ∀ entry ∈ table, entry ∈ entities)
    (hall : "&<>\"'".toList.any (fun c => (table.lookup c).isNone) = false) (c : Char) :
    Escaped (writtenFor table c) := by
  rw [writtenFor]
  cases hlookup : table.lookup c with
  | some entity =>
    obtain ⟨before, after, rfl, -⟩ := List.lookup_eq_some_iff.mp hlookup
    have hentity := Escaped.entity (hsub (c, entity) (by simp)) .nil
    rwa [List.append_nil] at hentity
  | none =>
    have hc : isMarkup c = false :=
      isMarkup_eq_false (fun d => (table.lookup d).isNone) (by simp [hlookup]) hall
    exact .plain hc .nil

theorem escaped_html (text : List Char) : Escaped (html text) := by
  rw [html_eq_flatMap]
  exact .flatMap (escaped_writtenFor (fun _ h => h) (by decide)) text

theorem escaped_eventHtml (text : List Char) : Escaped (eventHtml text) := by
  rw [eventHtml_eq]
  have hescaped : Escaped (text.flatMap (writtenFor eventEntities)) :=
    .flatMap (escaped_writtenFor (by decide) (by decide)) text
  -- the four sequences are resolved one after the other
  refine Escaped.replaceAll_sequence (by decide) (by decide) ?_
  refine Escaped.replaceAll_sequence (by decide) (by decide) ?_
  refine Escaped.replaceAll_sequence (by decide) (by decide) ?_
  exact hescaped.replaceAll_sequence (by decide) (by decide)

/-- The characters of a component of an address. -/
def isUriChar (c : Char) : Bool := isUnreserved c || c = '%'

theorem isUriChar_hexDigit {n : Nat} (h : n < 16) : isUriChar (hexDigit n) = true := by
  revert n
  decide

theorem isUriChar_of_mem {text : List Char} {c : Char} (h : c ∈ uriComponent text) :
    isUriChar c = true := by
  obtain ⟨d, -, hc⟩ := List.mem_flatMap.mp h
  split at hc
  · next hd =>
    obtain rfl := List.mem_singleton.mp hc
    simp [isUriChar, hd]
  · obtain ⟨b, -, hc⟩ := List.mem_flatMap.mp hc
    have hb : b.toNat < 256 := b.toNat_lt
    simp only [percentByte, List.mem_cons, List.not_mem_nil, or_false] at hc
    rcases hc with rfl | rfl | rfl
    · rfl
    · exact isUriChar_hexDigit (by omega)
    · exact isUriChar_hexDigit (Nat.mod_lt _ (by decide))

theorem inert_uriComponent (text : List Char) : Inert true (uriComponent text) where
  noLess hc := by cases isUriChar_of_mem hc
  noGreater hc := by cases isUriChar_of_mem hc
  noQuote hc := by cases isUriChar_of_mem hc
  noApostrophe := nofun
  ampersand before after htext := by
    have hc : isUriChar '&' = true := isUriChar_of_mem (by rw [htext]; simp)
    cases hc

end Escape

/-- What a number with a set number of places is written with. -/
def isAmountChar (c : Char) : Bool := c.isDigit || "-.NaNinf".toList.contains c

theorem isAmountChar_fixedDigits {places units : Nat} {c : Char}
    (h : c ∈ Number.fixedDigits places units) : isAmountChar c = true := by
  have hdigit : ∀ d ∈ Number.digitsOf units, isAmountChar d = true := by
    intro d hd
    have hd : d.isDigit = true := Nat.isDigit_of_mem_toDigits (by decide) (by decide) hd
    rw [isAmountChar, hd, Bool.true_or]
  have hpadded : ∀ d ∈ List.replicate (places + 1 - (Number.digitsOf units).length) '0' ++
      Number.digitsOf units, isAmountChar d = true := by
    intro d hd
    rcases List.mem_append.mp hd with hd | hd
    · obtain rfl := List.eq_of_mem_replicate hd
      rfl
    · exact hdigit d hd
  simp only [Number.fixedDigits] at h
  split at h
  · exact hpadded c h
  · rcases List.mem_append.mp h with h | h
    · exact hpadded c (List.mem_of_mem_take h)
    · rcases List.mem_cons.mp h with rfl | h
      · rfl
      · exact hpadded c (List.mem_of_mem_drop h)

theorem isAmountChar_fixed {places : Nat} {x : Float} {c : Char} (h : c ∈ Number.fixed places x) :
    isAmountChar c = true := by
  have hsigned : ∀ (negative : Bool) (cs : List Char), (∀ d ∈ cs, isAmountChar d = true) →
      ∀ d ∈ (if negative then '-' :: cs else cs), isAmountChar d = true := by
    intro negative cs hcs d hd
    split at hd
    · rcases List.mem_cons.mp hd with rfl | hd
      · rfl
      · exact hcs d hd
    · exact hcs d hd
  simp only [Number.fixed] at h
  split at h
  · exact List.all_eq_true.mp rfl c h
  · exact hsigned _ _ (fun d hd => List.all_eq_true.mp rfl d hd) c h
  · exact hsigned _ _ (fun d => isAmountChar_fixedDigits) c h

theorem escaped_moneyText (v : Value) : Escaped (moneyText v) := by
  refine .of_plain fun c hc => ?_
  simp only [moneyText] at hc
  split at hc
  · exact isMarkup_eq_false isAmountChar (isAmountChar_fixed hc) (by decide)
  · cases hc

theorem mem_intersperse {α : Type} {separator x : α} {items : List α}
    (h : x ∈ items.intersperse separator) : x = separator ∨ x ∈ items := by
  induction items with
  | nil => exact .inr h
  | cons y items ih =>
    cases items with
    | nil => exact .inr h
    | cons z items =>
      rw [List.intersperse_cons_cons, List.mem_cons, List.mem_cons] at h
      rcases h with rfl | rfl | h
      · exact .inr List.mem_cons_self
      · exact .inl rfl
      · exact (ih h).imp_right (List.mem_cons_of_mem _)

/-- What a form writes for a value, where it escapes: inert text, with the separator of an array between
its items. -/
theorem write_pieces (form : OutputForm) (hform : form ≠ .raw) (pageProtocol : String) (v : Value) :
    ∃ pieces : List (List Char), form.write true pageProtocol v = pieces.flatten ∧
      ∀ piece ∈ pieces, (∃ separator, form = .array separator ∧ piece = separator.toList) ∨
        Inert (form = .url) piece := by
  -- all forms but one write one piece
  have single : ∀ text : List Char, Inert (form = .url) text →
      ∃ pieces : List (List Char), text = pieces.flatten ∧
        ∀ piece ∈ pieces, (∃ separator, form = .array separator ∧ piece = separator.toList) ∨
          Inert (form = .url) piece := by
    intro text htext
    refine ⟨[text], by simp, fun piece hpiece => .inr ?_⟩
    obtain rfl := List.mem_singleton.mp hpiece
    exact htext
  cases form with
  | raw => exact absurd rfl hform
  | default | html | protocol => exact single _ ((Escape.escaped_html _).inert _)
  | url => exact single _ (Escape.inert_uriComponent _)
  | eventAttribute => exact single _ ((Escape.escaped_eventHtml _).inert _)
  | money => exact single _ ((escaped_moneyText v).inert _)
  | truncate length =>
    refine single _ ?_
    simp only [OutputForm.write]
    split <;> exact (Escape.escaped_html _).inert _
  | array separator =>
    cases v with
    | array identity items =>
      refine ⟨_, rfl, fun piece hpiece => ?_⟩
      -- the separator is written as it is, the items are escaped
      rcases mem_intersperse hpiece with rfl | hpiece
      · exact .inl ⟨separator, rfl, rfl⟩
      · obtain ⟨text, -, rfl⟩ := List.mem_map.mp hpiece
        exact .inr ((Escape.escaped_html text).inert _)
    | _ => exact ⟨[], rfl, nofun⟩

end Stencil
