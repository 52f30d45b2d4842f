/-
Stencil/Proofs/OutputForms.lean

Output forms and their parameters.  A directive is an output exactly if its body begins
with a sign, is cut in the way of that sign, and the code that the cut leaves is one
expression (`classify_eq_output_iff`).

The two forms that take a parameter look for its bar in the text, before there are any
tokens.  A length has no bar in it, so the last bar is always the right one; a separator
begins at the first bar, which may be one of the expression (`classify_parameter`).

The code of an expression may end with a semicolon.  Whether one may stand behind the
body as well is a matter of the cut: what it leaves to the parameter is not code
(`classify_semicolon`).
-/
import Stencil.Proofs.Surrounding

namespace Stencil

open Text

variable {body rest : Slice} {kind : OutputKind} {form : OutputForm} {e : Expression} {mark : Char}
  {cs before after gap code length : List Char} {n : Nat}

/-! ### Cuts at a bar -/

namespace Text

theorem splitLast?_eq_none_iff : splitLast? mark cs = none ↔ mark ∉ cs := by
  induction cs with
  | nil => simp [splitLast?]
  | cons c cs ih =>
    rw [splitLast?, List.mem_cons, not_or]
    rcases hsplit : splitLast? mark cs with - | ⟨before, after⟩
    · simp [ih.mp hsplit, eq_comm]
    · simp [← ih, hsplit]

theorem splitLast?_mark (before : List Char) (h : mark ∉ after) :
    splitLast? mark (before ++ mark :: after) = some (before, after) := by
  induction before with
  | nil =>
    rw [List.nil_append, splitLast?, splitLast?_eq_none_iff.mpr h]
    exact if_pos rfl
  | cons c before ih => rw [List.cons_append, splitLast?, ih]

/-- Behind the last mark there is none. -/
theorem not_mem_of_splitLast? (h : splitLast? mark cs = some (before, after)) : mark ∉ after := by
  induction cs generalizing before with
  | nil => cases h
  | cons c cs ih =>
    rw [splitLast?] at h
    split at h
    · next hsplit =>
      cases h
      exact ih hsplit
    · next hnone =>
      split at h <;> cases h
      exact splitLast?_eq_none_iff.mp hnone

/-! ### Ends of texts -/

theorem dropTrailing_concat (p : Char → Bool) (cs : List Char) (c : Char) :
    dropTrailing p (cs ++ [c]) = if p c then dropTrailing p cs else cs ++ [c] := by
  induction cs with
  | nil => rfl
  | cons d cs ih =>
    rw [List.cons_append, dropTrailing, ih]
    by_cases hc : p c = true
    · rw [if_pos hc, if_pos hc, dropTrailing]
    · rw [if_neg hc, if_neg hc]
      cases cs <;> rfl

theorem dropWhile_concat {c : Char} (hc : isBlank c = false) (cs : List Char) :
    (cs ++ [c]).dropWhile isBlank = cs.dropWhile isBlank ++ [c] := by
  rw [List.dropWhile_append]
  cases cs.dropWhile isBlank <;> simp [hc]

theorem trimBlank_concat {c : Char} (hc : isBlank c = false) (cs : List Char) :
    trimBlank (cs ++ [c]) = cs.dropWhile isBlank ++ [c] := by
  rw [trimBlank, trimBoth, dropWhile_concat hc, dropTrailing_concat, if_neg (by simp [hc])]

theorem dropTrailing_eq_self {p : Char → Bool} (h : ∀ c ∈ cs.getLast?, p c = false) :
    dropTrailing p cs = cs := by
  rcases List.eq_nil_or_concat cs with rfl | ⟨front, c, rfl⟩
  · rfl
  · rw [List.concat_eq_append] at h ⊢
    rw [dropTrailing_concat, if_neg (by simp [h c (by simp)])]

/-- A text without white space is left alone. -/
theorem trimBlank_eq_self (h : ∀ c ∈ cs, isBlank c = false) : trimBlank cs = cs := by
  have hfront : cs.dropWhile isBlank = cs := by
    cases cs with
    | nil => rfl
    | cons c cs => simp [h c List.mem_cons_self]
  rw [trimBlank, trimBoth, hfront]
  exact dropTrailing_eq_self fun c hc => h c (List.mem_of_getLast? hc)

end Text

/-! ### Lengths -/

/-- The length that a text gives, if any: white space around it does not count, and semicolons behind
it do not. -/
def lengthOf? (cs : List Char) : Option Nat :=
  Number.readIndex? (dropTrailing (· == ';') (trimBlank cs))

/-- A number is written without white space. -/
theorem Number.isBlank_of_readIndex? (h : readIndex? cs = some n) : ∀ c ∈ cs, isBlank c = false := by
  have hdigits {ds : List Char} (hds : ¬(ds.isEmpty || !ds.all isDecimalDigit) = true) :
      ∀ c ∈ ds, isBlank c = false := fun c hc => by
    by_contra hblank
    have hpart := isNamePart_of_isBlank (by simpa using hblank)
    have hall : ds.all isDecimalDigit = true := by
      by_contra hnot
      exact hds (by simp [hnot])
    rw [isNamePart_of_isDecimalDigit (List.all_eq_true.mp hall c hc)] at hpart
    cases hpart
  unfold readIndex? at h
  split at h <;> simp only at h <;> split at h
  · cases h
  · next hds => exact List.forall_mem_cons.mpr ⟨by decide +kernel, hdigits hds⟩
  · cases h
  · next hds => exact hdigits hds

theorem lengthOf?_digitsOf (h : n < 2 ^ 64) : lengthOf? (Number.digitsOf n) = some n := by
  have hread := Number.readIndex?_digitsOf h
  have hends : dropTrailing (· == ';') (Number.digitsOf n) = Number.digitsOf n :=
    dropTrailing_eq_self fun c hc => beq_false_of_ne <|
      ne_of_belongs (isDecimalDigit_of_mem_digitsOf (List.mem_of_getLast? hc)) (by decide)
  rw [lengthOf?, trimBlank_eq_self (Number.isBlank_of_readIndex? hread), hends, hread]

theorem lengthOf?_concat (cs : List Char) :
    lengthOf? (cs ++ [';']) =
      Number.readIndex? (dropTrailing (· == ';') (cs.dropWhile isBlank)) := by
  rw [lengthOf?, trimBlank_concat (by decide +kernel), dropTrailing_concat]
  rfl

/-- A semicolon behind a length is dropped, unless white space stands in front of it. -/
theorem lengthOf?_semicolon (hgap : AllBlank gap) (h : lengthOf? length = some n) :
    lengthOf? (length ++ gap ++ [';']) = some n ↔
      ∀ c ∈ (length ++ gap).getLast?, isBlank c = false := by
  rw [lengthOf?_concat]
  rcases List.eq_nil_or_concat (length ++ gap) with hnil | ⟨front, c, hfront⟩
  · obtain ⟨rfl, rfl⟩ := List.append_eq_nil_iff.mp hnil
    cases h
  rw [hfront, List.concat_eq_append]
  by_cases hc : isBlank c = true
  · -- the white space is not trimmed off, so what is left is no number
    refine iff_of_false (fun hread => ?_) fun hlast => by simp [hc] at hlast
    have hne : (c == ';') = false := beq_false_of_ne (ne_of_belongs hc (by decide +kernel))
    rw [List.dropWhile_append] at hread
    split at hread
    · rw [List.dropWhile_cons_of_pos hc] at hread
      cases hread
    · rw [dropTrailing_concat, if_neg (by simp [hne])] at hread
      have hplain := Number.isBlank_of_readIndex? hread c (by simp)
      rw [hc] at hplain
      cases hplain
  · have hplain : isBlank c = false := by simpa using hc
    refine iff_of_true ?_ fun d hd => by simp_all
    obtain rfl : gap = [] := by
      rcases List.eq_nil_or_concat gap with rfl | ⟨blanks, b, rfl⟩
      · rfl
      · rw [List.concat_eq_append, List.concat_eq_append, ← List.append_assoc] at hfront
        cases (List.append_inj' hfront rfl).2
        exact absurd (hgap c (by simp)) hc
    rw [List.append_nil, List.concat_eq_append] at hfront
    rw [hfront, lengthOf?, trimBlank_concat hplain] at h
    rwa [dropWhile_concat hplain]

/-! ### Cutting an output form -/

section Cuts

variable {start : Nat} {whole : Span}

theorem split_array (hcode : '|' ∉ code) (after : List Char) :
    OutputKind.array.split ⟨start, code ++ '|' :: after⟩ whole =
      .ok (.array (String.ofList after), ⟨start, code⟩) := by
  rw [OutputKind.split, splitFirst?_mark hcode]

/-- The separator begins behind the first bar. -/
theorem separator_of_split_array {separator : List Char} {part : Slice} (hcode : '|' ∉ code)
    (h : OutputKind.array.split ⟨start, code ++ '|' :: after⟩ whole =
      .ok (.array (String.ofList separator), part)) : separator = after := by
  rw [split_array hcode] at h
  have hform := OutputForm.array.inj (Prod.ext_iff.mp (Except.ok.inj h)).1
  exact (String.ofList_inj.mp hform).symm

theorem split_array_default (hcs : '|' ∉ cs) :
    OutputKind.array.split ⟨start, cs⟩ whole = .ok (.array defaultSeparator, ⟨start, cs⟩) := by
  rw [OutputKind.split, splitFirst?_mark_eq_none hcs]

/-- A cut needs a length behind the last bar. -/
theorem split_truncate_eq_ok_iff {part : Slice} :
    OutputKind.truncate.split rest whole = .ok (form, part) ↔
      ∃ code length n, rest.chars = code ++ '|' :: length ∧ '|' ∉ length ∧
        lengthOf? length = some n ∧ form = .truncate n ∧ part = { rest with chars := code } := by
  rw [OutputKind.split]
  constructor
  · intro h
    split at h
    · next code length hsplit =>
      simp only at h
      split at h <;> cases h
      next n hread =>
      exact ⟨code, length, n, splitLast?_spec hsplit, not_mem_of_splitLast? hsplit, hread, rfl, rfl⟩
    · cases h
  · rintro ⟨code, length, n, hchars, hlength, hread, rfl, rfl⟩
    have hread : Number.readIndex? (dropTrailing (· == ';') (trimBlank length)) = some n := hread
    rw [hchars, splitLast?_mark code hlength]
    simp only [hread]

end Cuts

/-! ### Classifying an output form -/

theorem Gives.of_build {α : Type} {p : Directive → Prop} {r : Except CompileFault α}
    {build : α → Directive} (h : ∀ a, p (build a)) : Gives p (r >>= fun a => pure (build a)) := by
  cases r with
  | ok a =>
    rintro _ ⟨⟩
    exact h a
  | error fault => nofun

/-- Without a sign, a directive is no output. -/
theorem gives_no_output (h : classifyOutput? body = none) :
    Gives (fun d => ∀ form e, d ≠ .output form e) (classify body) := by
  have hcases := classify_cases body
  generalize classify body = outcome at hcases ⊢
  cases hcases with
  | output houtput => cases h.symm.trans houtput
  | word hword =>
    rintro _ ⟨⟩
    rcases Directive.ofWord?_cases hword with rfl | rfl | rfl | rfl | rfl | rfl <;> nofun
  | define =>
    rintro _ ⟨⟩
    nofun
  | forEach | ifThen | elseIf | run | statements => exact .of_build fun _ => nofun
  | malformed => nofun

/-- With a sign, it is an output or nothing. -/
theorem classify_output (h : classifyOutput? body = some (kind, rest)) :
    classify body = kind.split rest body.span >>= fun part =>
      readExpression part.2 >>= fun value => .ok (.output part.1 value) := by
  unfold classify
  rw [h]
  rfl

/-- With a sign, it is what the cut and the code make it. -/
theorem classify_eq_output_iff_of_sign (h : classifyOutput? body = some (kind, rest)) :
    classify body = .ok (.output form e) ↔
      ∃ part, kind.split rest body.span = .ok (form, part) ∧ readExpression part = .ok e := by
  rw [classify_output h]
  constructor
  · intro h
    rcases hsplit : kind.split rest body.span with fault | ⟨form', part⟩ <;> rw [hsplit] at h
    · cases h
    rcases hread : readExpression part with fault | e' <;>
      simp only [bind, Except.bind, hread] at h <;> cases h
    exact ⟨part, rfl, hread⟩
  · rintro ⟨part, hsplit, hread⟩
    simp only [bind, Except.bind, hsplit, hread]

theorem classify_eq_output_iff :
    classify body = .ok (.output form e) ↔
      ∃ kind rest part, classifyOutput? body = some (kind, rest) ∧
        kind.split rest body.span = .ok (form, part) ∧ readExpression part = .ok e := by
  rcases hsign : classifyOutput? body with - | ⟨kind, rest⟩
  · exact iff_of_false (fun h => gives_no_output hsign _ h form e rfl) (by simp)
  rw [classify_eq_output_iff_of_sign hsign]
  constructor
  · rintro ⟨part, hpart⟩
    exact ⟨kind, rest, part, rfl, hpart⟩
  · rintro ⟨_, _, part, ⟨⟩, hpart⟩
    exact ⟨part, hpart⟩

/-! ### Parameters -/

/-- **Parameters of output forms.**  A length may stand behind any expression.  A separator may stand
behind an expression exactly if no bar stands in the code of the expression, be it in a quoted text
or in an operator. -/
theorem classify_parameter (h : readExpression ⟨0, code⟩ = .ok e) (start : Nat) :
    (∀ separator, classify ⟨start, ":a=".toList ++ (code ++ '|' :: separator)⟩ =
      .ok (.output (.array (String.ofList separator)) (e.moved (start + 3))) ↔ '|' ∉ code) ∧
    ∀ n < 2 ^ 64, classify ⟨start, ":s=".toList ++ (code ++ '|' :: Number.digitsOf n)⟩ =
      .ok (.output (.truncate n) (e.moved (start + 3))) := by
  have hread := readExpression_at h (start + 3)
  constructor
  · intro separator
    have hsign : classifyOutput? ⟨start, ":a=".toList ++ (code ++ '|' :: separator)⟩ =
        some (.array, ⟨start + 3, code ++ '|' :: separator⟩) := rfl
    rw [classify_eq_output_iff_of_sign hsign]
    constructor
    · rintro ⟨part, hsplit, -⟩ hbar
      -- the separator would begin inside of the code, so it would be longer than it is
      obtain ⟨first, second, rfl, hfirst⟩ := List.eq_append_cons_of_mem hbar
      rw [List.append_assoc, List.cons_append] at hsplit
      have hlength := congrArg List.length (separator_of_split_array hfirst hsplit)
      simp only [List.length_append, List.length_cons] at hlength
      omega
    · intro hbar
      exact ⟨_, split_array hbar separator, hread⟩
  · intro n hn
    have hsign : classifyOutput? ⟨start, ":s=".toList ++ (code ++ '|' :: Number.digitsOf n)⟩ =
        some (.truncate, ⟨start + 3, code ++ '|' :: Number.digitsOf n⟩) := rfl
    have hbar : '|' ∉ Number.digitsOf n := by
      intro hmem
      have hdigit := isDecimalDigit_of_mem_digitsOf hmem
      revert hdigit
      decide
    apply (classify_eq_output_iff_of_sign hsign).mpr
    exact ⟨_, split_truncate_eq_ok_iff.mpr ⟨code, _, n, rfl, hbar, lengthOf?_digitsOf hn, rfl, rfl⟩,
      hread⟩

/-- An `or` in front of the bar of a length, and in front of that of a separator. -/
theorem classify_parameter_or :
    ∃ e, readExpression ⟨0, "a||b".toList⟩ = .ok e ∧
      classify ⟨0, ":s=a||b|12".toList⟩ = .ok (.output (.truncate 12) (e.moved 3)) ∧
      classify ⟨0, ":a=a||b|, ".toList⟩ ≠ .ok (.output (.array ", ") (e.moved 3)) := by
  have hread : readExpression ⟨0, "a||b".toList⟩ =
      .ok (.binary ⟨0, 4⟩ .or (.identifier ⟨0, 1⟩ "a") (.identifier ⟨3, 4⟩ "b")) := by rfl
  obtain ⟨harray, htruncate⟩ := classify_parameter hread 0
  exact ⟨_, hread, htruncate 12 (by decide),
    fun hclassify => (harray ", ".toList).mp hclassify (by decide)⟩

/-- A bar in a quoted text is taken for that of the separator. -/
theorem classify_quoted_bar :
    ¬ ∀ (code separator : List Char) (e : Expression), readExpression ⟨0, code⟩ = .ok e →
      classify ⟨0, ":a=".toList ++ (code ++ '|' :: separator)⟩ =
        .ok (.output (.array (String.ofList separator)) (e.moved 3)) := by
  intro h
  have hread : readExpression ⟨0, "x.split('|')".toList⟩ =
      .ok (.call ⟨0, 12⟩ (.member ⟨0, 7⟩ (.identifier ⟨0, 1⟩ "x") "split")
        [.literal ⟨8, 11⟩ (.text "|")]) := by rfl
  have hfault : classify ⟨0, ":a=x.split('|')|, ".toList⟩ =
      .error (.malformed .unreadable ⟨12, 12⟩) := by rfl
  have hclassify := h _ ", ".toList _ hread
  cases hfault.symm.trans hclassify

/-! ### A semicolon behind an output form -/

theorem AllBlank.not_mem_bar (h : AllBlank gap) : '|' ∉ gap := by
  intro hmem
  cases h _ hmem

/-- Whether a semicolon is dropped behind an output form, by the text behind its sign. -/
def OutputKind.DropsSemicolon (rest : List Char) : OutputKind → Prop
  | .plain _ => True
  | .array => '|' ∉ rest
  | .truncate => ∀ c ∈ rest.getLast?, isBlank c = false

theorem findSome?_congr {α β : Type} {f g : α → Option β} {l : List α} (h : ∀ a ∈ l, f a = g a) :
    l.findSome? f = l.findSome? g := by
  induction l with
  | nil => rfl
  | cons a l ih =>
    rw [List.findSome?_cons, List.findSome?_cons, h a List.mem_cons_self,
      ih fun b hb => h b (List.mem_cons_of_mem _ hb)]

/-- What a text begins with does not change if something is put behind it with which the beginning does
not go on. -/
theorem Slice.after?_behind {lead tail : List Char} (s : Slice) (h : ∀ c ∈ tail.head?, c ∉ lead) :
    ({ s with chars := s.chars ++ tail } : Slice).after? lead =
      (s.after? lead).map fun rest => { rest with chars := rest.chars ++ tail } := by
  obtain ⟨start, chars⟩ := s
  by_cases hlead : lead <+: chars
  · obtain ⟨cs, rfl⟩ := hlead
    rw [after?_append, List.append_assoc, after?_append]
    rfl
  · rw [after?_eq_none hlead, after?_eq_none]
    · rfl
    · intro hall
      rcases List.prefix_or_prefix_of_prefix hall (List.prefix_append chars tail) with hin | hmore
      · exact hlead hin
      · obtain ⟨more, rfl⟩ := hmore
        have hmore : more <+: tail := (List.prefix_append_right_inj chars).mp hall
        cases more with
        | nil => exact hlead ⟨[], by simp⟩
        | cons c more =>
          obtain ⟨others, rfl⟩ := hmore
          exact h c rfl (by simp)

/-- The sign of a body does not change if white space or a semicolon is put behind the body. -/
theorem classifyOutput?_behind {tail : List Char} (body : Slice)
    (h : ∀ c ∈ tail.head?, isBlank c = true ∨ c = ';') :
    classifyOutput? { body with chars := body.chars ++ tail } =
      (classifyOutput? body).map (Prod.map id fun rest => { rest with chars := rest.chars ++ tail }) := by
  have hsigns : ∀ entry ∈ outputSigns, entry.1.toList.all (fun c => !isBlank c && c != ';') = true :=
    List.all_eq_true.mp rfl
  rw [classifyOutput?, classifyOutput?, List.map_findSome?]
  refine findSome?_congr fun entry hentry => ?_
  obtain ⟨sign, kind⟩ := entry
  have hapart : ∀ c ∈ tail.head?, c ∉ sign.toList := by
    intro c hc hmem
    have hsign := List.all_eq_true.mp (hsigns _ hentry) c hmem
    rcases h c hc with hblank | rfl
    · simp [hblank] at hsign
    · simp at hsign
  have hafter := body.after?_behind hapart
  simp only [hafter, Function.comp_apply, Option.map_map]
  rfl

/-- A separator takes the semicolon in; without one, the semicolon ends the code. -/
theorem split_array_semicolon {start : Nat} {whole whole' : Span} {part : Slice} (hgap : AllBlank gap)
    (hsplit : OutputKind.array.split ⟨start, cs⟩ whole = .ok (form, part))
    (hread : readExpression part = .ok e) :
    (∃ part, OutputKind.array.split ⟨start, cs ++ gap ++ [';']⟩ whole' = .ok (form, part) ∧
      readExpression part = .ok e) ↔ '|' ∉ cs ++ gap := by
  by_cases hbar : '|' ∈ cs
  · refine iff_of_false ?_ fun h => h (List.mem_append_left _ hbar)
    rintro ⟨part', hsplit', -⟩
    obtain ⟨first, second, rfl, hfirst⟩ := List.eq_append_cons_of_mem hbar
    rw [split_array hfirst] at hsplit
    cases hsplit
    rw [List.append_assoc, List.append_assoc, List.cons_append] at hsplit'
    have hlength := congrArg List.length (separator_of_split_array hfirst hsplit')
    simp at hlength
  · rw [split_array_default hbar] at hsplit
    cases hsplit
    have hbars : '|' ∉ cs ++ gap := by simp [hbar, hgap.not_mem_bar]
    have hall : '|' ∉ cs ++ gap ++ [';'] := by simpa using hbars
    exact iff_of_true ⟨_, split_array_default hall, readExpression_semicolon hgap hread⟩ hbars

/-- Behind a length, white space keeps the semicolon from being dropped. -/
theorem split_truncate_semicolon {start : Nat} {whole whole' : Span} {part : Slice} (hgap : AllBlank gap)
    (hsplit : OutputKind.truncate.split ⟨start, cs⟩ whole = .ok (form, part))
    (hread : readExpression part = .ok e) :
    (∃ part, OutputKind.truncate.split ⟨start, cs ++ gap ++ [';']⟩ whole' = .ok (form, part) ∧
      readExpression part = .ok e) ↔ ∀ c ∈ (cs ++ gap).getLast?, isBlank c = false := by
  obtain ⟨code, length, n, hchars, hbar, hlength, rfl, rfl⟩ := split_truncate_eq_ok_iff.mp hsplit
  obtain rfl : cs = code ++ '|' :: length := hchars
  have hbars : '|' ∉ length ++ gap ++ [';'] := by simp [hbar, hgap.not_mem_bar]
  have hne : length ++ gap ≠ [] := fun hnil => by
    rw [(List.append_eq_nil_iff.mp hnil).1] at hlength
    cases hlength
  have hall : code ++ '|' :: length ++ gap ++ [';'] = code ++ '|' :: (length ++ gap ++ [';']) := by
    simp
  have hlast : (code ++ '|' :: length ++ gap).getLast? = (length ++ gap).getLast? := by
    rw [List.append_assoc, List.cons_append, List.append_cons, List.getLast?_append_of_ne_nil _ hne]
  rw [hlast, ← lengthOf?_semicolon hgap hlength, hall]
  constructor
  · rintro ⟨part', hsplit', -⟩
    obtain ⟨code', length', n', hchars', hbar', hlength', hform, -⟩ :=
      split_truncate_eq_ok_iff.mp hsplit'
    have hchars' : code ++ '|' :: (length ++ gap ++ [';']) = code' ++ '|' :: length' := hchars'
    -- there is only one last bar
    have hcut := splitLast?_mark code hbars
    rw [hchars', splitLast?_mark code' hbar'] at hcut
    cases hcut
    rw [OutputForm.truncate.inj hform]
    exact hlength'
  · intro hread'
    exact ⟨_, split_truncate_eq_ok_iff.mpr ⟨code, _, n, rfl, hbars, hread', rfl, rfl⟩, hread⟩

/-- **A semicolon behind an output form.**  It is dropped, with white space in front of it or without,
where what stands behind the sign is code to its end.  A separator takes it in, and a length in front
of it must not be followed by white space. -/
theorem classify_semicolon (hgap : AllBlank gap) (h : classify body = .ok (.output form e)) :
    ∃ kind rest, classifyOutput? body = some (kind, rest) ∧
      (classify { body with chars := body.chars ++ gap ++ [';'] } = .ok (.output form e) ↔
        kind.DropsSemicolon (rest.chars ++ gap)) := by
  obtain ⟨kind, ⟨start, cs⟩, part, hsign, hsplit, hread⟩ := classify_eq_output_iff.mp h
  refine ⟨kind, ⟨start, cs⟩, hsign, ?_⟩
  have hhead : ∀ c ∈ (gap ++ [';']).head?, isBlank c = true ∨ c = ';' := by
    cases gap with
    | nil =>
      rintro _ ⟨⟩
      exact .inr rfl
    | cons c gap =>
      rintro _ ⟨⟩
      exact .inl (hgap c List.mem_cons_self)
  have hbehind : classifyOutput? { body with chars := body.chars ++ gap ++ [';'] } =
      some (kind, ⟨start, cs ++ gap ++ [';']⟩) := by
    rw [List.append_assoc, classifyOutput?_behind body hhead, hsign, List.append_assoc]
    rfl
  rw [classify_eq_output_iff_of_sign hbehind]
  cases kind with
  | plain form' =>
    cases hsplit
    exact iff_of_true ⟨_, rfl, readExpression_semicolon hgap hread⟩ trivial
  | array => exact split_array_semicolon hgap hsplit hread
  | truncate => exact split_truncate_semicolon hgap hsplit hread

/-- Behind a length, with and without white space in front of the semicolon. -/
theorem classify_semicolon_length :
    ∃ e, classify ⟨0, ":s=x|12".toList⟩ = .ok (.output (.truncate 12) e) ∧
      classify ⟨0, ":s=x|12;".toList⟩ = .ok (.output (.truncate 12) e) ∧
      classify ⟨0, ":s=x|12 ;".toList⟩ ≠ .ok (.output (.truncate 12) e) := by
  have hbody : classify ⟨0, ":s=x|12".toList⟩ =
      .ok (.output (.truncate 12) (.identifier ⟨3, 4⟩ "x")) := by rfl
  have hsign : classifyOutput? ⟨0, ":s=x|12".toList⟩ = some (.truncate, ⟨3, "x|12".toList⟩) := rfl
  refine ⟨_, hbody, ?_, fun hblank => ?_⟩
  · obtain ⟨kind, rest, hkind, hiff⟩ := classify_semicolon allBlank_nil hbody
    cases hkind.symm.trans hsign
    refine hiff.mpr fun c hc => ?_
    cases hc
    rfl
  · have hgap : AllBlank [' '] := List.forall_mem_singleton.mpr rfl
    obtain ⟨kind, rest, hkind, hiff⟩ := classify_semicolon hgap hbody
    cases hkind.symm.trans hsign
    cases hiff.mp hblank ' ' rfl

/-- A semicolon that is not dropped. -/
theorem classify_semicolon_blank :
    ¬ ∀ (body : Slice) (gap : List Char) (form : OutputForm) (e : Expression), AllBlank gap →
      classify body = .ok (.output form e) →
      classify { body with chars := body.chars ++ gap ++ [';'] } = .ok (.output form e) := by
  intro h
  have hbody : classify ⟨0, ":s=x|12".toList⟩ =
      .ok (.output (.truncate 12) (.identifier ⟨3, 4⟩ "x")) := by rfl
  have hfault : classify ⟨0, ":s=x|12 ;".toList⟩ =
      .error (.malformed .lengthNotWhole ⟨0, 9⟩) := by rfl
  have hclassify := h _ [' '] _ _ (List.forall_mem_singleton.mpr rfl) hbody
  cases hfault.symm.trans hclassify

end Stencil
