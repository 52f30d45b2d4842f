/-
Stencil/Proofs/Reporting.lean

What place a report names.  The place of a character is told by the text in front of it
(`Place.behind`): a line for every line end there, a column for every character behind the
last one.  A walk over a text comes to that place, and every further character takes it to
a later one (`before_walk`), so two characters of a text never have the same place.

A report counts the bytes in front of a fault as characters.  The main result,
`report_location_iff`: the place that it names is that of the fault exactly if every
character in front of the fault is a single byte.
-/
import Mathlib.Data.List.DropRight
import Stencil.Report
import Stencil.Proofs.Faults
import Stencil.Proofs.Lexing

namespace Stencil

open Text

namespace Place

variable {p q : Place} {c : Char} {before text : List Char} {offset n m : Nat}

/-! ### Walking -/

/-- The place of the character behind a text. -/
def behind (before : List Char) : Place :=
  ⟨before.count '\n' + 1, (before.rtakeWhile (· ≠ '\n')).length + 1⟩

theorem behind_concat (before : List Char) (c : Char) :
    behind (before ++ [c]) = (behind before).after c := by
  by_cases hc : c = '\n' <;>
    simp [behind, after, List.count_append, hc]

theorem foldl_after (before : List Char) :
    before.foldl (fun p c => p.after c) first = behind before := by
  induction before using List.reverseRecOn with
  | nil => rfl
  | append_singleton before c ih => rw [List.foldl_concat, ih, behind_concat]

theorem walk_cons (hne : text ≠ []) (p : Place) (c : Char) (offset : Nat) :
    walk p (offset + 1) (c :: text) = walk (p.after c) offset text := by
  obtain ⟨d, rest, rfl⟩ := List.exists_cons_of_ne_nil hne
  rfl

/-- A walk passes the characters of a text that is not yet its end. -/
theorem walk_append (hne : text ≠ []) (p : Place) (before : List Char) (offset : Nat) :
    walk p (before.length + offset) (before ++ text) =
      walk (before.foldl (fun p c => p.after c) p) offset text := by
  induction before generalizing p with
  | nil => rw [List.length_nil, Nat.zero_add, List.nil_append, List.foldl_nil]
  | cons c before ih =>
    have hlength : (c :: before).length + offset = before.length + offset + 1 := by
      rw [List.length_cons]
      omega
    have hbehind : before ++ text ≠ [] := List.append_ne_nil_of_right_ne_nil before hne
    rw [hlength, List.cons_append, walk_cons hbehind, ih, List.foldl_cons]

/-- Where there is a character, the walk to it comes to its place. -/
theorem ofOffset?_length (hne : text ≠ []) (before : List Char) :
    ofOffset? before.length (before ++ text) = some (behind before) := by
  have hwalk := walk_append hne first before 0
  rw [Nat.add_zero, foldl_after] at hwalk
  exact hwalk

theorem ofOffset?_of_lt (h : offset < text.length) :
    ofOffset? offset text = some (behind (text.take offset)) := by
  have hrest : text.drop offset ≠ [] := List.ne_nil_of_length_pos (by rw [List.length_drop]; omega)
  have hplace := ofOffset?_length hrest (text.take offset)
  rwa [List.take_append_drop, List.length_take, Nat.min_eq_left h.le] at hplace

theorem walk_eq_none (h : text.length < offset) (p : Place) : walk p offset text = none := by
  fun_induction walk p offset text with
  | case1 => cases h
  | case2 => rfl
  | case3 => simp at h
  | case4 => rfl
  | case5 p offset c text _ ih => exact ih (by simpa using h)

/-! ### The order of places -/

/-- On an earlier line, or further left on the same. -/
def Before (p q : Place) : Prop := p.line < q.line ∨ p.line = q.line ∧ p.column < q.column

theorem Before.ne (h : p.Before q) : p ≠ q := by
  rintro rfl
  rcases h with h | ⟨-, h⟩ <;> exact Nat.lt_irrefl _ h

theorem before_after (p : Place) (c : Char) : p.Before (p.after c) := by
  rw [after]
  split
  · exact .inl (Nat.lt_succ_self _)
  · exact .inr ⟨rfl, Nat.lt_succ_self _⟩

theorem Before.trans {r : Place} (hpq : p.Before q) (hqr : q.Before r) : p.Before r := by
  rcases hpq with hpq | ⟨hline, hpq⟩ <;> rcases hqr with hqr | ⟨hline', hqr⟩
  · exact .inl (hpq.trans hqr)
  · exact .inl (hline' ▸ hpq)
  · exact .inl (hline ▸ hqr)
  · exact .inr ⟨hline.trans hline', hpq.trans hqr⟩

/-- A walk over at least one character comes to a later place. -/
theorem before_walk (h : walk p (offset + 1) text = some q) : p.Before q := by
  induction text generalizing p offset with
  | nil => cases h
  | cons c text ih =>
    cases text with
    | nil =>
      simp only [walk] at h
      split at h
      · rw [← Option.some.inj h]
        exact .inr ⟨rfl, Nat.lt_succ_self _⟩
      · cases h
    | cons d text =>
      have hstep := before_after p c
      cases offset with
      | zero =>
        rw [← Option.some.inj h]
        exact hstep
      | succ offset => exact hstep.trans (ih h)

/-- A character further behind has a later place. -/
theorem before_of_lt (hlt : n < m) (hn : ofOffset? n text = some p) (hm : ofOffset? m text = some q) :
    p.Before q := by
  have hlength : m ≤ text.length := by
    by_contra hbeyond
    rw [ofOffset?, walk_eq_none (by omega)] at hm
    cases hm
  have hrest : text.drop n ≠ [] := List.ne_nil_of_length_pos (by rw [List.length_drop]; omega)
  have hmore : (text.take n).length + (m - n - 1 + 1) = m := by
    rw [List.length_take]
    omega
  have hwalk := walk_append hrest first (text.take n) (m - n - 1 + 1)
  rw [hmore, List.take_append_drop, foldl_after, ← ofOffset?, hm] at hwalk
  rw [ofOffset?_of_lt (by omega)] at hn
  rw [← Option.some.inj hn]
  exact before_walk hwalk.symm

/-! ### The place in a file -/

theorem toList_inFile (file : String) (p : Place) :
    (p.inFile file).toList = file.toList ++ ':' ::
      (Number.digitsOf p.line ++ ':' :: Number.digitsOf p.column) := by
  simp [inFile, String.toList_append, Number.digitsOf]

/-- Different places are named differently. -/
theorem inFile_inj {file : String} : p.inFile file = q.inFile file ↔ p = q := by
  refine ⟨fun h => ?_, fun h => by rw [h]⟩
  have hcolon : ∀ n, ':' ∉ Number.digitsOf n := fun n hmem => by
    have hdigit := isDecimalDigit_of_mem_digitsOf hmem
    cases hdigit
  have hchars := congrArg String.toList h
  rw [toList_inFile, toList_inFile, List.append_cancel_left_eq, List.cons.injEq] at hchars
  -- the first colon behind the name of the file ends the line
  have hsplit := congrArg (splitFirst? [':']) hchars.2
  rw [splitFirst?_mark (hcolon _), splitFirst?_mark (hcolon _), Option.some.injEq,
    Prod.mk.injEq] at hsplit
  have hline := congrArg Number.natOfDigits hsplit.1
  have hcolumn := congrArg Number.natOfDigits hsplit.2
  rw [natOfDigits_digitsOf, natOfDigits_digitsOf] at hline hcolumn
  cases p
  cases q
  exact congrArg₂ Place.mk hline hcolumn

end Place

/-! ### Reports -/

variable {before after : List Char} {c : Char}

theorem length_le_bytes (cs : List Char) : cs.length ≤ bytes cs := by
  induction cs with
  | nil => exact Nat.le_refl 0
  | cons c cs ih =>
    have hsize := c.utf8Size_pos
    rw [List.length_cons, bytes_cons]
    omega

/-- A text has as many bytes as characters exactly if each of its characters is one byte. -/
theorem bytes_eq_length_iff (cs : List Char) : bytes cs = cs.length ↔ ∀ c ∈ cs, c.utf8Size = 1 := by
  induction cs with
  | nil => simp [bytes]
  | cons c cs ih =>
    have hsize := c.utf8Size_pos
    have hlength := length_le_bytes cs
    rw [List.forall_mem_cons, ← ih, bytes_cons, List.length_cons]
    omega

theorem location_report? {file source : String} {fault : Fault} {span : Span}
    (hspan : fault.span? = some span) :
    (fault.report? file source).map Report.location =
      (Place.ofOffset? span.start source.toList).map (Place.inFile file) := by
  rw [Fault.report?, hspan]
  cases h : Place.ofOffset? span.start source.toList <;> simp [h]

/-- **A report takes the bytes in front of a fault for characters.**  The place that it names is that of
the character at the fault exactly if all characters in front of it are single bytes.  Otherwise it is
the place of a character further behind, or none where the source has no such character. -/
theorem report_location_iff (file source : String) (fault : Fault) {span : Span}
    {before after : List Char} {c : Char} (hspan : fault.span? = some span)
    (hsource : source.toList = before ++ c :: after) (hstart : span.start = bytes before) :
    let location := (fault.report? file source).map Report.location
    (location = some ((Place.behind before).inFile file) ↔ ∀ d ∈ before, d.utf8Size = 1) ∧
    (bytes before < source.toList.length →
      location = some ((Place.behind (source.toList.take (bytes before))).inFile file)) ∧
    (source.toList.length < bytes before → location = none) := by
  intro location
  have hlocation : location =
      (Place.ofOffset? (bytes before) source.toList).map (Place.inFile file) := by
    rw [← hstart]
    exact location_report? hspan
  have hfault : Place.ofOffset? before.length source.toList = some (Place.behind before) := by
    rw [hsource]
    exact Place.ofOffset?_length (List.cons_ne_nil c after) before
  refine ⟨?_, fun hlt => ?_, fun hlt => ?_⟩
  · rw [← bytes_eq_length_iff, hlocation]
    refine ⟨fun h => ?_, fun h => by rw [h, hfault, Option.map_some]⟩
    obtain ⟨place, hplace, hname⟩ := Option.map_eq_some_iff.mp h
    rw [Place.inFile_inj] at hname
    subst hname
    -- more bytes than characters lead to a later place
    refine Nat.le_antisymm (Nat.not_lt.mp fun hlt => ?_) (length_le_bytes before)
    exact (Place.before_of_lt hlt hfault hplace).ne rfl
  · rw [hlocation, Place.ofOffset?_of_lt hlt, Option.map_some]
  · rw [hlocation, Place.ofOffset?, Place.walk_eq_none hlt, Option.map_none]

/-- Behind a line end of two characters, all of them single bytes. -/
theorem report_location_iff_second_line :
    let source := "a\r\n <%x%>"
    let fault : Fault := .render (.unbound "x" ⟨6, 7⟩)
    fault.span? = some ⟨6, 7⟩ ∧
    source.toList = "a\r\n <%".toList ++ 'x' :: "%>".toList ∧
    6 = bytes "a\r\n <%".toList ∧
    (fault.report? "page.html" source).map Report.location = some "page.html:2:4" := by
  intro source fault
  have hsource : source.toList = "a\r\n <%".toList ++ 'x' :: "%>".toList := by decide
  have hstart : 6 = bytes "a\r\n <%".toList := by decide
  have hplace : (Place.behind "a\r\n <%".toList).inFile "page.html" = "page.html:2:4" := by decide
  have hsingle := (bytes_eq_length_iff "a\r\n <%".toList).mp (by decide)
  have hlocation := (report_location_iff "page.html" source fault rfl hsource hstart).1.mpr hsingle
  rw [hplace] at hlocation
  exact ⟨rfl, hsource, hstart, hlocation⟩

/-- Behind a character of two bytes a name is reported one column too far. -/
theorem report_location_drifts :
    let source := "é<%x%>"
    let fault : RenderFault := .unbound "x" ⟨4, 5⟩
    let host : Host := fun _ _ _ => pure (.error "")
    (∃ t, Template.compile source {} = .ok t ∧ t.render host (.object (.given 0) []) = .error fault) ∧
    source.toList = "é<%".toList ++ 'x' :: "%>".toList ∧ 4 = bytes "é<%".toList ∧
    (Place.behind "é<%".toList).inFile "page.html" = "page.html:1:4" ∧
    ((Fault.render fault).report? "page.html" source).map Report.location = some "page.html:1:5" := by
  intro source fault host
  let t : Template :=
    ⟨[.text (String.ofList ['é']), .evaluate (.identifier ⟨4, 5⟩ "x")], true, "http:"⟩
  have ht : Template.compile "é<%x%>" {} = .ok t := rfl
  exact ⟨⟨t, ht, rfl⟩, by decide, by decide, by decide, by decide⟩

end Stencil
