/-
Stencil/Proofs/Places.lean

Places in a source.  An offset is a boundary if it lies between two characters of the
source, and a span lies within the source if both of its ends do so and are in order.

The code of a directive is not always written in the source as it is read: line
comments are blanked, byte for byte, and an argument list stands in square brackets
instead of round ones.  `Mirrors fresh raw text` says that `text` is read where `raw`
is written.  Both take up the same bytes, but not between the same characters, since
several blanks may stand in for one character.  They can be cut alike
wherever a character other than a blank stands on one side (`Mirrors.split`), which is
where every slice of a directive is cut.

A slice that mirrors the source at its place is `Anchored` there.
-/
import Mathlib.Data.List.TakeWhile
import Stencil.Proofs.Occurrence
import Stencil.Segment

namespace Stencil

open Text

/-! ### Boundaries and spans -/

/-- The word is written in the source at the offset. -/
def Stands (source : List Char) (offset : Nat) (word : List Char) : Prop :=
  ∃ before after, source = before ++ word ++ after ∧ offset = bytes before

/-- The offset lies between two characters of the source, or at one of its ends. -/
def Boundary (source : List Char) (offset : Nat) : Prop := Stands source offset []

/-- The span is in order, and both of its ends lie between characters of the source. -/
structure Within (source : List Char) (span : Span) : Prop where
  start : Boundary source span.start
  stop : Boundary source span.stop
  ordered : span.start ≤ span.stop

/-- The span is where the word is written. -/
structure Spells (source : List Char) (span : Span) (word : List Char) : Prop where
  stands : Stands source span.start word
  stop_eq : span.stop = span.start + bytes word

section Boundaries

variable {source word : List Char} {offset : Nat} {span : Span}

theorem Boundary.le (h : Boundary source offset) : offset ≤ bytes source := by
  obtain ⟨before, after, rfl, rfl⟩ := h
  simp

theorem boundary_append (before after : List Char) : Boundary (before ++ after) (bytes before) :=
  ⟨before, after, by simp, rfl⟩

theorem boundary_zero (source : List Char) : Boundary source 0 := boundary_append [] source

theorem boundary_bytes (source : List Char) : Boundary source (bytes source) :=
  ⟨source, [], by simp, rfl⟩

theorem Stands.start (h : Stands source offset word) : Boundary source offset := by
  obtain ⟨before, after, rfl, rfl⟩ := h
  exact ⟨before, word ++ after, by simp, rfl⟩

theorem Stands.stop (h : Stands source offset word) : Boundary source (offset + bytes word) := by
  obtain ⟨before, after, rfl, rfl⟩ := h
  exact ⟨before ++ word, after, by simp, by simp⟩

theorem Boundary.within_at (h : Boundary source offset) : Within source (.at offset) :=
  ⟨h, h, Nat.le_refl _⟩

theorem Spells.within (h : Spells source span word) : Within source span where
  start := h.stands.start
  stop := h.stop_eq ▸ h.stands.stop
  ordered := by
    have hstop := h.stop_eq
    omega

end Boundaries

/-! ### Text that is read where other text is written -/

/-- `Shown fresh c d`: the character `c` is read as `d`; `fresh` unless a comment begins with it. -/
inductive Shown : Bool → Char → Char → Prop
  | keep (c : Char) : Shown true c c
  | opener : Shown true '(' '['
  | closer : Shown true ')' ']'
  | slash : Shown false '/' ' '

/-- `Mirrors fresh raw text`: the text is read where `raw` is written.  A comment is blanked from its
slash to its end; `fresh` if no comment is being blanked in front. -/
inductive Mirrors : Bool → List Char → List Char → Prop
  | nil {fresh : Bool} : Mirrors fresh [] []
  | shown {fresh next : Bool} {c d : Char} {raw text : List Char} :
      Shown next c d → Mirrors next raw text → Mirrors fresh (c :: raw) (d :: text)
  | blank {c : Char} {raw text : List Char} :
      Mirrors false raw text →
      Mirrors false (c :: raw) (List.replicate c.utf8Size ' ' ++ text)

/-- The directive is read where it is written. -/
theorem mirrors_blankComments (raw : List Char) :
    (∀ fresh walk, walk ≠ .comment → Mirrors fresh raw (blankComments walk raw)) ∧
      Mirrors false raw (blankComments .comment raw) := by
  -- both walks at once, as each goes over into the other
  induction raw with
  | nil => exact ⟨fun _ _ _ => .nil, .nil⟩
  | cons c raw ih =>
    obtain ⟨hcode, hcomment⟩ := ih
    constructor
    · intro fresh walk hwalk
      cases walk with
      | quoted quote =>
        refine .shown (.keep c) (hcode true _ ?_)
        split
        · nofun
        · split <;> nofun
      | escaped quote => exact .shown (.keep c) (hcode true _ nofun)
      | comment => exact absurd rfl hwalk
      | code =>
        rw [blankComments]
        split
        · exact .shown (.keep c) (hcode true _ nofun)
        · split
          · next hslash =>
            obtain ⟨rfl, -⟩ := hslash
            exact .shown .slash hcomment
          · exact .shown (.keep c) (hcode true _ nofun)
    · rw [blankComments]
      refine .blank ?_
      split
      · exact hcode false _ nofun
      · exact hcomment

theorem Shown.utf8Size_eq {next : Bool} {c d : Char} (h : Shown next c d) :
    c.utf8Size = d.utf8Size := by
  cases h <;> rfl

/-- A comment shows as a blank. -/
theorem Shown.fresh_of_ne {next : Bool} {c d : Char} (h : Shown next c d) (hd : d ≠ ' ') :
    next = true := by
  cases h with
  | slash => exact absurd rfl hd
  | _ => rfl

/-- A text is not cut between two blanks. -/
def Apart (before after : List Char) : Prop := before.getLast? ≠ some ' ' ∨ after.head? ≠ some ' '

section Mirrors

variable {fresh : Bool} {raw text before after : List Char}

theorem Apart.of_cons {c : Char} (h : Apart (c :: before) after) : Apart before after := by
  rcases h with h | h
  · left
    cases before with
    | nil => nofun
    | cons d before => exact h
  · exact .inr h

/-- Blanks that stand in for a character are not cut. -/
theorem append_eq_of_replicate {n : Nat} (h : before ++ after = List.replicate n ' ' ++ text)
    (hapart : Apart before after) (hbefore : before ≠ []) :
    ∃ behind, before = List.replicate n ' ' ++ behind ∧ text = behind ++ after := by
  rcases List.append_eq_append_iff.mp h with ⟨middle, hreplicate, rfl⟩ | ⟨behind, rfl, rfl⟩
  · -- the cut lies among the blanks, so it lies at their end
    cases middle with
    | nil =>
      rw [List.append_nil] at hreplicate
      exact ⟨[], by simp [hreplicate], rfl⟩
    | cons c middle =>
      have hblank : ∀ d ∈ before ++ c :: middle, d = ' ' := by
        rw [← hreplicate]
        exact fun d hd => (List.mem_replicate.mp hd).2
      obtain ⟨front, last, rfl⟩ := List.eq_nil_or_concat before |>.resolve_left hbefore
      have hlast : last = ' ' := hblank last (by simp)
      have hhead : c = ' ' := hblank c (by simp)
      subst hlast hhead
      rcases hapart with h | h
      · exact absurd (by simp) h
      · exact absurd rfl h
  · exact ⟨behind, rfl, rfl⟩

theorem bytes_replicate_blank (n : Nat) : bytes (List.replicate n ' ') = n := by
  induction n with
  | zero => rfl
  | succ n ih =>
    rw [List.replicate_succ, bytes_cons, ih, Nat.add_comm]
    rfl

/-- What is written is cut where the text is, and no comment is blanked behind a character that is no
blank. -/
theorem Mirrors.split (h : Mirrors fresh raw (before ++ after)) (hapart : Apart before after) :
    ∃ first rest next, raw = first ++ rest ∧ bytes first = bytes before ∧
      Mirrors fresh first before ∧ Mirrors next rest after ∧
      (before = [] → next = fresh) ∧ (before.getLast? ≠ some ' ' → before ≠ [] → next = true) := by
  by_cases hbefore : before = []
  · subst hbefore
    exact ⟨[], raw, fresh, rfl, rfl, .nil, h, fun _ => rfl, fun _ h => absurd rfl h⟩
  generalize hall : before ++ after = all at h
  -- by induction on what is written: its first character belongs to the text in front of the cut, which
  -- may end there
  induction h generalizing before with
  | nil => exact absurd (List.append_eq_nil_iff.mp hall).1 hbefore
  | @shown fresh next c d raw text hshown h ih =>
    obtain ⟨b, before, rfl⟩ := List.exists_cons_of_ne_nil hbefore
    obtain ⟨rfl, rfl⟩ := List.cons.inj hall
    by_cases hnil : before = []
    · subst hnil
      refine ⟨[c], raw, next, rfl, by simp [hshown.utf8Size_eq], .shown hshown .nil, h, nofun,
        fun hlast _ => hshown.fresh_of_ne fun hb => ?_⟩
      subst hb
      exact hlast rfl
    · obtain ⟨first, rest, behind, rfl, hbytes, hfirst, hrest, -, hfresh⟩ := ih hapart.of_cons hnil rfl
      refine ⟨c :: first, rest, behind, rfl, by simp [hshown.utf8Size_eq, hbytes],
        .shown hshown hfirst, hrest, nofun, fun hlast _ => hfresh ?_ hnil⟩
      rwa [List.getLast?_cons_of_ne_nil hnil] at hlast
  | @blank c raw text h ih =>
    -- a blanked character stands for as many blanks as it has bytes; the cut does not part them
    obtain ⟨behind, rfl, rfl⟩ := append_eq_of_replicate hall hapart hbefore
    have hsize : c.utf8Size ≠ 0 := Nat.ne_of_gt c.utf8Size_pos
    by_cases hnil : behind = []
    · subst hnil
      refine ⟨[c], raw, false, rfl, by simp [bytes_replicate_blank], .blank .nil, h,
        fun hnil => absurd hnil hbefore, fun hlast _ => absurd ?_ hlast⟩
      rw [List.append_nil, List.getLast?_replicate, if_neg hsize]
    · rw [Apart, List.getLast?_append_of_ne_nil _ hnil] at hapart
      obtain ⟨first, rest, next, rfl, hbytes, hfirst, hrest, -, hfresh⟩ := ih hapart hnil rfl
      refine ⟨c :: first, rest, next, rfl, by simp [bytes_replicate_blank, hbytes], .blank hfirst,
        hrest, fun hnil => absurd hnil hbefore, fun hlast _ => hfresh ?_ hnil⟩
      rwa [List.getLast?_append_of_ne_nil _ hnil] at hlast

theorem Mirrors.append {raw' text' : List Char} (h : Mirrors fresh raw text)
    (h' : ∀ next, Mirrors next raw' text') : Mirrors fresh (raw ++ raw') (text ++ text') := by
  induction h with
  | nil => exact h' _
  | shown hshown _ ih => exact .shown hshown ih
  | blank _ ih =>
    rw [List.append_assoc]
    exact .blank ih

/-- A character that is no blank and no square bracket is written as it is read. -/
theorem Mirrors.of_cons {c : Char} (h : Mirrors fresh raw (c :: text))
    (hc : c ≠ ' ' ∧ c ≠ '[' ∧ c ≠ ']') : ∃ rest, raw = c :: rest ∧ Mirrors true rest text := by
  generalize hall : c :: text = all at h
  cases h with
  | nil => cases hall
  | @shown _ _ d _ rest _ hshown h =>
    obtain ⟨rfl, rfl⟩ := List.cons.inj hall
    obtain rfl := hshown.fresh_of_ne hc.1
    cases hshown with
    | keep => exact ⟨rest, rfl, h⟩
    | opener => exact absurd rfl hc.2.1
    | closer => exact absurd rfl hc.2.2
  | @blank d raw text h =>
    obtain ⟨n, hn⟩ := Nat.exists_eq_succ_of_ne_zero (Nat.ne_of_gt d.utf8Size_pos)
    rw [hn, List.replicate_succ, List.cons_append] at hall
    exact absurd (List.cons.inj hall).1 hc.1

/-- A word without blanks and brackets is written as it is read. -/
theorem Mirrors.word {word rest : List Char} (h : Mirrors fresh raw (word ++ rest))
    (hword : ∀ c ∈ word, c ≠ ' ' ∧ c ≠ '[' ∧ c ≠ ']') : ∃ behind, raw = word ++ behind := by
  induction word generalizing fresh raw with
  | nil => exact ⟨raw, rfl⟩
  | cons c word ih =>
    obtain ⟨hc, hword⟩ := List.forall_mem_cons.mp hword
    obtain ⟨behind, rfl, hbehind⟩ := Mirrors.of_cons h hc
    obtain ⟨rest, rfl⟩ := ih hbehind hword
    exact ⟨rest, rfl⟩

/-- Code in round brackets is read in square ones. -/
theorem Mirrors.square (h : Mirrors fresh raw ('(' :: (text ++ [')']))) :
    Mirrors fresh raw ('[' :: (text ++ [']'])) := by
  obtain ⟨rest, rfl, hrest⟩ := h.of_cons (by decide)
  obtain ⟨first, last, next, rfl, -, hfirst, hlast, -⟩ := hrest.split (.inr (by decide))
  obtain ⟨none, rfl, hnone⟩ := hlast.of_cons (by decide)
  cases hnone
  exact .shown .opener (hfirst.append fun _ => .shown .closer .nil)

end Mirrors

/-! ### Slices in their places -/

/-- The slice is read where the source has its bytes. -/
def Slice.Anchored (source : List Char) (s : Slice) : Prop :=
  ∃ before raw after fresh, source = before ++ raw ++ after ∧ s.start = bytes before ∧
    Mirrors fresh raw s.chars

namespace Slice.Anchored

variable {source : List Char} {s : Slice} {before middle after : List Char}

/-- Whoever cuts a slice where no blanks are parted cuts it between characters of the source. -/
theorem boundary (h : s.Anchored source) (hs : s.chars = before ++ after) (hapart : Apart before after) :
    Boundary source (s.start + bytes before) := by
  obtain ⟨front, raw, back, fresh, rfl, hstart, hmirrors⟩ := h
  rw [hs] at hmirrors
  obtain ⟨first, rest, next, rfl, hbytes, -⟩ := hmirrors.split hapart
  exact ⟨front ++ first, rest ++ back, by simp, by simp [hstart, hbytes]⟩

/-- Behind a character that is no blank, one blank is one byte. -/
theorem boundary_blank {c : Char} (h : s.Anchored source) (hs : s.chars = before ++ c :: ' ' :: after)
    (hc : c ≠ ' ') : Boundary source (s.start + bytes before + c.utf8Size + 1) := by
  obtain ⟨front, raw, back, fresh, rfl, hstart, hmirrors⟩ := h
  have hlast : (before ++ [c]).getLast? ≠ some ' ' := by simpa using hc
  rw [hs, List.append_cons] at hmirrors
  obtain ⟨first, rest, next, rfl, hbytes, -, hrest, -, hnext⟩ := hmirrors.split (.inl hlast)
  obtain rfl := hnext hlast (by simp)
  generalize hall : ' ' :: after = all at hrest
  cases hrest with
  | nil => cases hall
  | @shown _ next d e raw text hshown _ =>
    obtain ⟨rfl, rfl⟩ := List.cons.inj hall
    have hone : d.utf8Size = 1 := hshown.utf8Size_eq
    refine ⟨front ++ first ++ [d], raw ++ back, by simp, ?_⟩
    simp [hstart, hbytes, hone, Nat.add_assoc]

/-- A word without blanks and brackets stands in the source. -/
theorem stands (h : s.Anchored source) (hs : s.chars = before ++ middle ++ after)
    (hword : ∀ c ∈ middle, c ≠ ' ' ∧ c ≠ '[' ∧ c ≠ ']') (hne : middle ≠ []) :
    Stands source (s.start + bytes before) middle := by
  obtain ⟨front, raw, back, fresh, rfl, hstart, hmirrors⟩ := h
  have hapart : Apart before (middle ++ after) := by
    obtain ⟨c, word, rfl⟩ := List.exists_cons_of_ne_nil hne
    exact .inr fun hc => (hword c List.mem_cons_self).1 (Option.some.inj hc)
  rw [hs, List.append_assoc] at hmirrors
  obtain ⟨first, rest, next, rfl, hbytes, -, hrest, -⟩ := hmirrors.split hapart
  obtain ⟨behind, rfl⟩ := hrest.word hword
  exact ⟨front ++ first, behind ++ back, by simp, by simp [hstart, hbytes]⟩

/-- Code in round brackets may be read in square ones. -/
theorem square {offset : Nat} (h : Slice.Anchored source ⟨offset, '(' :: (middle ++ [')'])⟩) :
    Slice.Anchored source ⟨offset, '[' :: (middle ++ [']'])⟩ := by
  obtain ⟨front, raw, back, fresh, hsource, hstart, hmirrors⟩ := h
  exact ⟨front, raw, back, fresh, hsource, hstart, hmirrors.square⟩

theorem start (h : s.Anchored source) : Boundary source s.start :=
  h.boundary (List.nil_append s.chars).symm (.inl nofun)

theorem stop (h : s.Anchored source) : Boundary source s.stop :=
  h.boundary (List.append_nil _).symm (.inr nofun)

theorem within (h : s.Anchored source) : Within source s.span :=
  ⟨h.start, h.stop, Nat.le_add_right _ _⟩

/-- A part of a slice, cut where no blanks are parted. -/
theorem sub (h : s.Anchored source) (hs : s.chars = before ++ middle ++ after)
    (hfront : Apart before (middle ++ after)) (hback : Apart (before ++ middle) after) :
    Anchored source ⟨s.start + bytes before, middle⟩ := by
  obtain ⟨front, raw, back, fresh, rfl, hstart, hmirrors⟩ := h
  rw [hs] at hmirrors
  obtain ⟨both, behind, -, rfl, -, hboth, -⟩ := hmirrors.split hback
  have hinner : Apart before middle := by
    cases middle with
    | nil => exact .inr nofun
    | cons c middle => exact hfront
  obtain ⟨first, rest, next, rfl, hbytes, -, hrest, -⟩ := hboth.split hinner
  exact ⟨front ++ first, rest, behind ++ back, next, by simp, by simp [hstart, hbytes], hrest⟩

end Slice.Anchored

/-! ### How slices are cut -/

theorem dropTrailing_spec (p : Char → Bool) (cs : List Char) :
    ∃ tail, cs = dropTrailing p cs ++ tail ∧ ∀ c ∈ (dropTrailing p cs).getLast?, p c = false := by
  induction cs with
  | nil => exact ⟨[], rfl, nofun⟩
  | cons c cs ih =>
    obtain ⟨tail, hcs, hlast⟩ := ih
    rw [dropTrailing]
    cases hkept : dropTrailing p cs with
    | nil =>
      rw [hkept] at hcs
      by_cases hc : p c = true
      · exact ⟨c :: cs, by simp [hc], by simp [hc]⟩
      · exact ⟨tail, by simp [hc, ← hcs], by simp [hc]⟩
    | cons d kept =>
      rw [hkept] at hcs hlast
      exact ⟨tail, by rw [List.cons_append, ← hcs], hlast⟩

theorem splitLast?_spec {mark : Char} {cs before after : List Char}
    (h : splitLast? mark cs = some (before, after)) : cs = before ++ mark :: after := by
  induction cs generalizing before after with
  | nil => cases h
  | cons c cs ih =>
    rw [splitLast?] at h
    split at h
    · next first rest hsplit =>
      cases h
      rw [ih hsplit, List.cons_append]
    · split at h
      · next hc =>
        cases h
        rw [hc, List.nil_append]
      · cases h

theorem splitName?_spec {cs letters rest : List Char} (h : Text.splitName? cs = some (letters, rest)) :
    letters ≠ [] ∧ (∀ c ∈ letters, isNamePart c = true) ∧ cs = letters ++ rest := by
  cases cs with
  | nil => cases h
  | cons c cs =>
    rw [Text.splitName?] at h
    split at h
    · next hstart =>
      cases h
      refine ⟨List.cons_ne_nil _ _, ?_, ?_⟩
      · refine List.forall_mem_cons.mpr ⟨?_, fun d hd => List.mem_takeWhile_imp hd⟩
        simp only [isNameStart, Bool.or_eq_true] at hstart
        simp only [isNamePart, Bool.or_eq_true]
        tauto
      · rw [List.cons_append, List.takeWhile_append_dropWhile]
    · cases h

namespace Slice

variable {s rest : Slice} {lead : List Char}

theorem chars_of_after? (h : s.after? lead = some rest) :
    s.chars = lead ++ rest.chars ∧ rest.start = s.start + bytes lead := by
  rw [after?] at h
  split at h
  · next hlead =>
    obtain ⟨behind, hbehind⟩ := List.isPrefixOf_iff_prefix.mp hlead
    cases h
    simp [drop, ← hbehind]
  · cases h

theorem chars_of_before? {last : Char} (h : s.before? last = some rest) :
    s.chars = rest.chars ++ [last] ∧ rest.start = s.start := by
  rw [before?] at h
  split at h
  · next hlast =>
    cases h
    refine ⟨?_, rfl⟩
    obtain ⟨front, hfront⟩ := List.getLast?_eq_some_iff.mp hlast
    simp [hfront]
  · cases h

theorem chars_of_splitName? {name : String} (h : s.splitName? = some (name, rest)) :
    ∃ letters, letters ≠ [] ∧ (∀ c ∈ letters, isNamePart c = true) ∧ name = String.ofList letters ∧
      s.chars = letters ++ rest.chars ∧ rest.start = s.start + bytes letters := by
  rw [splitName?] at h
  split at h
  · next letters behind hsplit =>
    cases h
    obtain ⟨hne, hletters, hchars⟩ := splitName?_spec hsplit
    exact ⟨letters, hne, hletters, rfl, hchars, rfl⟩
  · cases h

variable {source : List Char}

namespace Anchored

/-- The first part of a slice, up to a character that is no blank. -/
theorem front (h : s.Anchored source) {cs after : List Char} {c : Char}
    (hs : s.chars = cs ++ c :: after) (hc : c ≠ ' ') : Anchored source { s with chars := cs } := by
  have hchars : s.chars = [] ++ cs ++ c :: after := hs
  have hback : Apart ([] ++ cs) (c :: after) := .inr fun hblank => hc (Option.some.inj hblank)
  exact h.sub hchars (.inl nofun) hback

/-- The rest of a slice behind something that does not end with a blank. -/
theorem back (h : s.Anchored source) {before cs : List Char} (hs : s.chars = before ++ cs)
    (hlast : before.getLast? ≠ some ' ') : Anchored source ⟨s.start + bytes before, cs⟩ := by
  have hchars : s.chars = before ++ cs ++ [] := by rw [List.append_nil, hs]
  exact h.sub hchars (.inl hlast) (.inr nofun)

theorem after? (h : s.Anchored source) (hrest : s.after? lead = some rest)
    (hlead : lead.getLast? ≠ some ' ') : rest.Anchored source := by
  obtain ⟨hchars, hstart⟩ := chars_of_after? hrest
  have hbehind := h.back hchars hlead
  rwa [← hstart] at hbehind

theorem afterWord? (h : s.Anchored source) (hrest : s.afterWord? lead = some rest)
    (hlead : lead.getLast? ≠ some ' ') : rest.Anchored source := by
  rw [Slice.afterWord?] at hrest
  split at hrest
  · next behind hafter =>
    split at hrest
    · cases hrest
    · cases hrest
      exact h.after? hafter hlead
  · cases hrest

theorem before? {last : Char} (h : s.Anchored source) (hrest : s.before? last = some rest)
    (hlast : last ≠ ' ') : rest.Anchored source := by
  obtain ⟨hchars, hstart⟩ := chars_of_before? hrest
  have hfront := h.front hchars hlast
  rwa [← hstart] at hfront

theorem splitName? {name : String} (h : s.Anchored source) (hrest : s.splitName? = some (name, rest)) :
    rest.Anchored source := by
  obtain ⟨letters, -, hletters, -, hchars, hstart⟩ := chars_of_splitName? hrest
  have hbehind := h.back hchars fun hlast => by
    have hblank := hletters ' ' (List.mem_of_getLast? hlast)
    revert hblank
    decide +kernel
  rwa [← hstart] at hbehind

theorem trimStart (h : s.Anchored source) : s.trimStart.Anchored source := by
  have hchars : s.chars = s.chars.takeWhile isBlank ++ s.chars.dropWhile isBlank ++ [] := by simp
  refine h.sub hchars (.inr fun hhead => ?_) (.inr nofun)
  rw [List.append_nil] at hhead
  have hblank := List.head?_dropWhile_not isBlank s.chars
  rw [hhead] at hblank
  cases hblank

theorem trimEnd (h : s.Anchored source) : s.trimEnd.Anchored source := by
  obtain ⟨tail, hchars, hlast⟩ := dropTrailing_spec isBlank s.chars
  have hall : s.chars = [] ++ dropTrailing isBlank s.chars ++ tail := hchars
  refine h.sub hall (.inl nofun) (.inl fun hblank => ?_)
  have hkept := hlast ' ' hblank
  cases hkept

theorem trim (h : s.Anchored source) : s.trim.Anchored source := h.trimStart.trimEnd

end Anchored

end Slice

end Stencil
