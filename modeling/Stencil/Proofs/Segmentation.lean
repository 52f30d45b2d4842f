/-
Stencil/Proofs/Segmentation.lean

A source and its segments.  `Takes d source piece rest` tells, without offsets
and counters, how one piece (literal text, a directive or a block comment) is
taken off the front of a source by looking for the first left delimiter, and
`Scans d source pieces rest` takes piece after piece.  A star right behind a left
delimiter always opens a comment, also where the right delimiter itself begins
with a star.

* `Scans.unique` — a source is read to its end in one way only;
* `segmentsFrom_of_scans` — the walk over the source follows the reading piece
  by piece, and lays out one segment for every piece that is no comment;
* `exists_scans` — every source is read to its end or to a delimiter that
  nothing closes.

The main result, `segments_decompose`, puts these together: the segments are a
lossless and unique decomposition of the source, and a source is refused exactly
at the first delimiter that nothing closes.
-/
import Mathlib.Data.List.Forall2
import Stencil.Proofs.Occurrence
import Stencil.Segment

namespace Stencil

open Text

/-! ### Pieces -/

/-- A piece of a source.  Unlike a segment it may be a comment, and it holds the text of a directive
as it is written. -/
inductive Piece where
  | literal (text : List Char)
  | directive (raw : List Char)
  | comment (inner : List Char)
deriving DecidableEq, Repr

namespace Piece

/-- How a piece stands in the source, its delimiters included. -/
def written (d : Delimiters) : Piece → List Char
  | .literal text => text
  | .directive raw => d.left ++ raw ++ d.right
  | .comment inner => d.left ++ '*' :: inner ++ '*' :: d.right

/-- The segment of a piece that begins at `offset`; a comment leaves none. -/
def segment? (d : Delimiters) (offset : Nat) : Piece → Option Segment
  | .literal text => some (.literal ⟨offset, text⟩)
  | .directive raw => some (.directive ⟨offset + bytes d.left, blankComments .code raw⟩)
  | .comment _ => none

/-- A piece is cut where the scan for its end says: literal text holds no left delimiter, and the end
of a directive or comment is the first that could be one. -/
def Sound (d : Delimiters) : Piece → Prop
  | .literal text => text ≠ [] ∧ ¬ d.left <:+: text
  | .directive raw => raw.head? ≠ some '*' ∧ FirstBehind d.right raw
  | .comment inner => FirstBehind ('*' :: d.right) inner

end Piece

/-- The text that some pieces make up. -/
def written (d : Delimiters) (pieces : List Piece) : List Char := pieces.flatMap (·.written d)

/-- The segments of some pieces that stand one behind the other from `offset` on. -/
def layout (d : Delimiters) (offset : Nat) : List Piece → List Segment
  | [] => []
  | piece :: pieces =>
    (piece.segment? d offset).toList ++ layout d (offset + bytes (piece.written d)) pieces

@[simp] theorem written_nil (d : Delimiters) : written d [] = [] := rfl

@[simp] theorem written_cons (d : Delimiters) (piece : Piece) (pieces : List Piece) :
    written d (piece :: pieces) = piece.written d ++ written d pieces := rfl

/-- The place of a segment: of its text, or of what stands between its delimiters. -/
def Segment.span : Segment → Span
  | .literal text => text.span
  | .directive body => body.span

/-! ### Reading a source -/

/-- `Closes d inside piece rest`: behind a left delimiter, `inside` begins with the rest of `piece`. -/
inductive Closes (d : Delimiters) : List Char → Piece → List Char → Prop
  | comment {inner rest : List Char} :
      FirstBehind ('*' :: d.right) inner →
      Closes d ('*' :: (inner ++ '*' :: d.right ++ rest)) (.comment inner) rest
  | directive {raw rest : List Char} :
      (raw ++ d.right).head? ≠ some '*' → FirstBehind d.right raw →
      Closes d (raw ++ d.right ++ rest) (.directive raw) rest

/-- `Takes d source piece rest`: the first piece of `source` is `piece`, and `rest` is left. -/
inductive Takes (d : Delimiters) : List Char → Piece → List Char → Prop
  | literal {text rest : List Char} :
      text ≠ [] → FirstBehind d.left text →
      Takes d (text ++ d.left ++ rest) (.literal text) (d.left ++ rest)
  | tail {text : List Char} :
      text ≠ [] → ¬ d.left <:+: text → Takes d text (.literal text) []
  | delimited {inside rest : List Char} {piece : Piece} :
      Closes d inside piece rest → Takes d (d.left ++ inside) piece rest

/-- `Scans d source pieces rest`: whoever reads `source` from left to right can come to `rest` behind
these pieces. -/
inductive Scans (d : Delimiters) : List Char → List Piece → List Char → Prop
  | stop (rest : List Char) : Scans d rest [] rest
  | step {source middle rest : List Char} {piece : Piece} {pieces : List Piece} :
      Takes d source piece middle → Scans d middle pieces rest →
      Scans d source (piece :: pieces) rest

/-- A left delimiter that nothing closes, and the complaint about it. -/
inductive Unclosed (d : Delimiters) : List Char → Complaint → Prop
  | comment {rest : List Char} :
      ¬ ('*' :: d.right) <:+: rest → Unclosed d (d.left ++ '*' :: rest) .unclosedComment
  | directive {rest : List Char} :
      rest.head? ≠ some '*' → ¬ d.right <:+: rest → Unclosed d (d.left ++ rest) .unclosedDirective

variable {d : Delimiters} {source inside rest : List Char} {piece : Piece} {pieces : List Piece}

/-- The first character of a text is that of any longer one. -/
private theorem head?_ne_of_append {cs ds : List Char} {a : Char}
    (h : (cs ++ ds).head? ≠ some a) : cs.head? ≠ some a := by
  cases cs with
  | nil => simp
  | cons c cs => simpa using h

/-- Whether a star stands behind the left delimiter is settled by the directive itself. -/
private theorem star_not_leading {raw : List Char} (hr : d.right ≠ [])
    (h : (raw ++ d.right).head? ≠ some '*') (rest : List Char) :
    ¬ ['*'] <+: raw ++ d.right ++ rest := by
  have hne : raw ++ d.right ≠ [] := by simp [hr]
  obtain ⟨c, cs, hcs⟩ := List.exists_cons_of_ne_nil hne
  rw [hcs] at h ⊢
  simpa [List.cons_prefix_cons, eq_comm] using h

/-! ### Nothing is lost -/

theorem Takes.written_append (h : Takes d source piece rest) :
    piece.written d ++ rest = source := by
  cases h with
  | literal => simp [Piece.written]
  | tail => simp [Piece.written]
  | delimited hclose => cases hclose <;> simp [Piece.written]

theorem Takes.written_ne_nil (hl : d.left ≠ []) (h : Takes d source piece rest) :
    piece.written d ≠ [] := by
  cases h with
  | literal ht => exact ht
  | tail ht => exact ht
  | delimited hclose => cases hclose <;> simp [Piece.written, hl]

theorem Takes.sound (hl : d.left ≠ []) (h : Takes d source piece rest) : piece.Sound d := by
  cases h with
  | literal ht hfirst => exact ⟨ht, hfirst.not_infix hl⟩
  | tail ht hno => exact ⟨ht, hno⟩
  | delimited hclose =>
    cases hclose with
    | comment hfirst => exact hfirst
    | directive hstar hfirst => exact ⟨head?_ne_of_append hstar, hfirst⟩

/-- The pieces and what is left make up the source. -/
theorem Scans.written_append (h : Scans d source pieces rest) :
    written d pieces ++ rest = source := by
  induction h with
  | stop rest => rfl
  | step htake _ ih => rw [written_cons, List.append_assoc, ih, htake.written_append]

theorem Scans.sound (hl : d.left ≠ []) (h : Scans d source pieces rest) :
    ∀ piece ∈ pieces, piece.Sound d := by
  induction h with
  | stop rest => simp
  | step htake _ ih => exact List.forall_mem_cons.mpr ⟨htake.sound hl, ih⟩

/-! ### Reading is deterministic -/

theorem Closes.unique {piece' : Piece} {rest' : List Char} (hr : d.right ≠ [])
    (h : Closes d inside piece rest) (h' : Closes d inside piece' rest') :
    piece = piece' ∧ rest = rest' := by
  generalize hinside : inside = inside' at h'
  cases h with
  | comment hfirst =>
    cases h' with
    | comment hfirst' =>
      simp only [List.cons.injEq, true_and] at hinside
      obtain ⟨rfl, rfl⟩ := hfirst.unique hfirst' hinside
      exact ⟨rfl, rfl⟩
    -- behind the star of a comment no directive can begin
    | directive hstar' => exact absurd ⟨_, hinside⟩ (star_not_leading hr hstar' _)
  | directive hstar hfirst =>
    cases h' with
    | comment => exact absurd ⟨_, hinside.symm⟩ (star_not_leading hr hstar _)
    | directive _ hfirst' =>
      obtain ⟨rfl, rfl⟩ := hfirst.unique hfirst' hinside
      exact ⟨rfl, rfl⟩

/-- Which piece comes first is settled by the first left delimiter. -/
theorem Takes.settled (hl : d.left ≠ []) (h : Takes d source piece rest) :
    match splitFirst? d.left source with
    | none => piece = .literal source ∧ rest = []
    | some ([], inside) => Closes d inside piece rest
    | some (text, after) => piece = .literal text ∧ rest = d.left ++ after := by
  cases h with
  | @literal text after ht hfirst =>
    obtain ⟨c, text, rfl⟩ := List.exists_cons_of_ne_nil ht
    rw [hfirst.splitFirst? hl]
    exact ⟨rfl, rfl⟩
  | tail ht hno =>
    rw [(splitFirst?_eq_none_iff hl).mpr hno]
    exact ⟨rfl, rfl⟩
  | @delimited inside rest piece hclose =>
    have hsplit := (firstBehind_nil d.left).splitFirst? hl inside
    rw [List.nil_append] at hsplit
    rw [hsplit]
    exact hclose

theorem Takes.unique {piece' : Piece} {rest' : List Char} (hl : d.left ≠ []) (hr : d.right ≠ [])
    (h : Takes d source piece rest) (h' : Takes d source piece' rest') :
    piece = piece' ∧ rest = rest' := by
  -- the two readings look for the same left delimiter, so only what is inside of it can differ
  have hs := h.settled hl
  have hs' := h'.settled hl
  generalize splitFirst? d.left source = split at hs hs'
  rcases split with - | ⟨- | ⟨c, text⟩, after⟩
  · exact ⟨hs.1.trans hs'.1.symm, hs.2.trans hs'.2.symm⟩
  · exact hs.unique hr hs'
  · exact ⟨hs.1.trans hs'.1.symm, hs.2.trans hs'.2.symm⟩

theorem Takes.source_ne_nil (hl : d.left ≠ []) (h : Takes d source piece rest) : source ≠ [] := by
  rw [← h.written_append]
  exact List.append_ne_nil_of_left_ne_nil (h.written_ne_nil hl) rest

/-- A source is read to its end in one way only. -/
theorem Scans.unique {pieces' : List Piece} (hl : d.left ≠ []) (hr : d.right ≠ [])
    (h : Scans d source pieces []) (h' : Scans d source pieces' []) : pieces = pieces' := by
  -- no piece is empty, so the readings stop together
  generalize hend : ([] : List Char) = rest at h
  induction h generalizing pieces' with
  | stop rest =>
    subst hend
    cases h' with
    | stop => rfl
    | step htake => exact absurd rfl (htake.source_ne_nil hl)
  | step htake _ ih =>
    cases h' with
    | stop => exact absurd rfl (htake.source_ne_nil hl)
    | step htake' hscan' =>
      obtain ⟨rfl, rfl⟩ := htake.unique hl hr htake'
      rw [ih hscan' hend]

/-! ### The walk takes piece after piece -/

/-- Passing over what is left of a piece. -/
theorem segmentsFrom_skip (d : Delimiters) (skip offset : Nat) (cs : List Char) :
    segmentsFrom d skip offset cs
      = segmentsFrom d 0 (offset + bytes (cs.take skip)) (cs.drop skip) := by
  induction cs generalizing skip offset with
  | nil => simp [segmentsFrom]
  | cons c cs ih =>
    cases skip with
    | zero => simp
    | succ skip =>
      rw [segmentsFrom, ih]
      simp [Nat.add_assoc]

/-- Passing over a piece of which the first character is read. -/
theorem segmentsFrom_behind (d : Delimiters) (offset : Nat) {c : Char} {cs taken rest : List Char}
    (ht : taken ≠ []) (h : taken ++ rest = c :: cs) :
    segmentsFrom d (cs.length - rest.length) (offset + c.utf8Size) cs
      = segmentsFrom d 0 (offset + bytes taken) rest := by
  obtain ⟨c', before, rfl⟩ := List.exists_cons_of_ne_nil ht
  obtain ⟨rfl, rfl⟩ : c' = c ∧ before ++ rest = cs := by simpa using h
  have hlen : (before ++ rest).length - rest.length = before.length := by simp
  rw [hlen, segmentsFrom_skip, List.take_left, List.drop_left, bytes_cons, Nat.add_assoc]

theorem after?_append (offset : Nat) (lead cs : List Char) :
    (⟨offset, lead ++ cs⟩ : Slice).after? lead = some ⟨offset + bytes lead, cs⟩ := by
  have hpre : lead.isPrefixOf (lead ++ cs) = true :=
    List.isPrefixOf_iff_prefix.mpr (List.prefix_append _ _)
  simp [Slice.after?, Slice.drop, hpre]

theorem after?_eq_none {offset : Nat} {lead cs : List Char} (h : ¬ lead <+: cs) :
    (⟨offset, cs⟩ : Slice).after? lead = none := by
  have hpre : ¬ lead.isPrefixOf cs = true := fun hp => h (List.isPrefixOf_iff_prefix.mp hp)
  simp [Slice.after?, hpre]

/-- At literal text the walk takes what stands before the first left delimiter. -/
private theorem segmentsFrom_literal {c : Char} {cs text rest : List Char} (offset : Nat)
    (hno : ¬ d.left <+: c :: cs) (ht : text ≠ []) (htext : text ++ rest = c :: cs)
    (hsplit : (splitFirst? d.left (c :: cs)).elim (c :: cs) Prod.fst = text) :
    segmentsFrom d 0 offset (c :: cs) =
      (segmentsFrom d 0 (offset + bytes text) rest).map (.literal ⟨offset, text⟩ :: ·) := by
  have hlen : text.length - 1 = cs.length - rest.length := by
    have := congrArg List.length htext
    simp only [List.length_append, List.length_cons] at this
    omega
  rw [← segmentsFrom_behind d offset ht htext, ← hlen, segmentsFrom, after?_eq_none hno]
  subst hsplit
  rcases splitFirst? d.left (c :: cs) with - | ⟨before, after⟩ <;> rfl

/-- Behind a left delimiter the walk passes over a comment and takes the body of a directive. -/
private theorem segmentsFrom_delimited {c : Char} {cs inside rest : List Char} (offset : Nat)
    (hr : d.right ≠ []) (hsource : d.left ++ inside = c :: cs) (h : Closes d inside piece rest) :
    segmentsFrom d 0 offset (c :: cs) =
      (segmentsFrom d (cs.length - rest.length) (offset + c.utf8Size) cs).map
        ((piece.segment? d offset).toList ++ ·) := by
  rw [segmentsFrom, ← hsource, after?_append]
  cases h with
  | @comment inner rest hfirst =>
    have hstar := after?_append (offset + bytes d.left) ['*'] (inner ++ '*' :: d.right ++ rest)
    have hsplit := hfirst.splitFirst? (List.cons_ne_nil '*' d.right) rest
    simp only [List.singleton_append] at hstar
    simp only [hstar, hsplit]
    rcases segmentsFrom d (cs.length - rest.length) (offset + c.utf8Size) cs with - | - <;> rfl
  | @directive raw rest hstar hfirst =>
    have hsplit := hfirst.splitFirst? hr rest
    simp only [after?_eq_none (star_not_leading hr hstar rest), hsplit]
    rfl

/-- The walk takes the first piece and goes on with what is left. -/
theorem Takes.segmentsFrom (hl : d.left ≠ []) (hr : d.right ≠ []) (h : Takes d source piece rest)
    (offset : Nat) :
    segmentsFrom d 0 offset source =
      (segmentsFrom d 0 (offset + bytes (piece.written d)) rest).map
        ((piece.segment? d offset).toList ++ ·) := by
  -- the walk reads the first character of the piece and then passes over the others
  have hwritten := h.written_append
  obtain ⟨c, cs, rfl⟩ := List.exists_cons_of_ne_nil (h.source_ne_nil hl)
  generalize hsource : c :: cs = source at h hwritten
  cases h with
  | @literal text rest ht hfirst =>
    have hno : ¬ d.left <+: text ++ d.left ++ rest := fun hp => ht (hfirst.eq_nil rest hp)
    have hsplit := hfirst.splitFirst? hl rest
    rw [← hsource] at hno hsplit hwritten
    rw [← hsource]
    exact segmentsFrom_literal offset hno ht hwritten (by rw [hsplit]; rfl)
  | tail ht hno =>
    have hsplit := (splitFirst?_eq_none_iff hl).mpr hno
    rw [← hsource] at hno hsplit hwritten ht
    rw [← hsource]
    exact segmentsFrom_literal offset (fun hp => hno hp.isInfix) ht hwritten (by rw [hsplit]; rfl)
  | @delimited inside rest piece hclose =>
    have hne := Takes.written_ne_nil hl (.delimited hclose)
    rw [← hsource] at hwritten
    rw [← segmentsFrom_behind d offset hne hwritten, ← hsource,
      segmentsFrom_delimited offset hr hsource.symm hclose]

/-- The walk follows the reading of a source piece by piece. -/
theorem segmentsFrom_of_scans (hl : d.left ≠ []) (hr : d.right ≠ [])
    (h : Scans d source pieces rest) (offset : Nat) :
    segmentsFrom d 0 offset source =
      (segmentsFrom d 0 (offset + bytes (written d pieces)) rest).map
        (layout d offset pieces ++ ·) := by
  induction h generalizing offset with
  | stop rest =>
    simp only [written_nil, bytes_nil, Nat.add_zero, layout, List.nil_append]
    rcases segmentsFrom d 0 offset rest with - | - <;> rfl
  | step htake _ ih =>
    rw [htake.segmentsFrom hl hr, ih, written_cons, bytes_append, ← Nat.add_assoc]
    generalize segmentsFrom d 0 _ _ = behind
    rcases behind with - | - <;> simp [Except.map, layout]

/-- The walk stops at a left delimiter that nothing closes. -/
theorem Unclosed.segmentsFrom {complaint : Complaint} (hl : d.left ≠ [])
    (hr : d.right ≠ []) (h : Unclosed d source complaint) (offset : Nat) :
    segmentsFrom d 0 offset source =
      .error (.malformed complaint ⟨offset, offset + bytes source⟩) := by
  have hne : source ≠ [] := by cases h <;> simp [hl]
  obtain ⟨c, cs, rfl⟩ := List.exists_cons_of_ne_nil hne
  generalize hsource : c :: cs = source at h
  rw [← hsource, Stencil.segmentsFrom, hsource]
  cases h with
  | @comment rest hno =>
    have hstar := after?_append (offset + bytes d.left) ['*'] rest
    have hsplit := (splitFirst?_eq_none_iff (List.cons_ne_nil '*' d.right)).mpr hno
    simp only [List.singleton_append] at hstar
    simp only [after?_append, hstar, hsplit]
    simp [Slice.stop, Nat.add_assoc]
  | @directive rest hstar hno =>
    have hstar' : ¬ ['*'] <+: rest := by
      rintro ⟨tail, rfl⟩
      exact hstar rfl
    have hsplit := (splitFirst?_eq_none_iff hr).mpr hno
    simp only [after?_append, after?_eq_none hstar', hsplit]
    simp [Slice.stop, Nat.add_assoc]

/-! ### Every source is read -/

/-- Every source begins with a piece, or with a left delimiter that nothing closes. -/
theorem takes_or_unclosed (hl : d.left ≠ []) (hr : d.right ≠ []) (hsource : source ≠ []) :
    (∃ piece rest, Takes d source piece rest) ∨ ∃ complaint, Unclosed d source complaint := by
  -- without a left delimiter the source is literal text to its end
  rcases hsplit : splitFirst? d.left source with - | ⟨before, inside⟩
  · exact .inl ⟨_, _, .tail hsource ((splitFirst?_eq_none_iff hl).mp hsplit)⟩
  obtain ⟨rfl, hfirst⟩ := (splitFirst?_eq_some_iff hl).mp hsplit
  by_cases hbefore : before = []
  · subst hbefore
    by_cases hstar : inside.head? = some '*'
    · obtain ⟨inside, rfl⟩ := List.head?_eq_some_iff.mp hstar
      rcases hend : splitFirst? ('*' :: d.right) inside with - | ⟨inner, rest⟩
      · have hno := (splitFirst?_eq_none_iff (List.cons_ne_nil _ _)).mp hend
        exact .inr ⟨_, .comment hno⟩
      · obtain ⟨rfl, hinner⟩ := (splitFirst?_eq_some_iff (List.cons_ne_nil _ _)).mp hend
        exact .inl ⟨_, _, .delimited (.comment hinner)⟩
    · rcases hend : splitFirst? d.right inside with - | ⟨raw, rest⟩
      · exact .inr ⟨_, .directive hstar ((splitFirst?_eq_none_iff hr).mp hend)⟩
      · obtain ⟨rfl, hraw⟩ := (splitFirst?_eq_some_iff hr).mp hend
        exact .inl ⟨_, _, .delimited (.directive (head?_ne_of_append hstar) hraw)⟩
  · exact .inl ⟨_, _, .literal hbefore hfirst⟩

/-- Every source is read to its end or to a left delimiter that nothing closes. -/
theorem exists_scans (hl : d.left ≠ []) (hr : d.right ≠ []) (source : List Char) :
    ∃ pieces rest, Scans d source pieces rest ∧ (rest = [] ∨ ∃ complaint, Unclosed d rest complaint) := by
  -- a piece may be of any length, so the induction is on the length of the source
  induction hn : source.length using Nat.strong_induction_on generalizing source with
  | h n ih =>
    by_cases hsource : source = []
    · exact ⟨[], source, .stop source, .inl hsource⟩
    rcases takes_or_unclosed hl hr hsource with ⟨piece, middle, htake⟩ | hunclosed
    · have hshort : middle.length < n := by
        rw [← hn, ← htake.written_append, List.length_append]
        have := List.length_pos_of_ne_nil (htake.written_ne_nil hl)
        omega
      obtain ⟨pieces, rest, hscan, hrest⟩ := ih _ hshort middle rfl
      exact ⟨piece :: pieces, rest, .step htake hscan, hrest⟩
    · exact ⟨[], source, .stop source, .inr hunclosed⟩

/-! ### Line comments -/

/-- `body` is `raw` but for bytes that became spaces. -/
def Blanked (raw body : List Char) : Prop :=
  List.Forall₂ (fun old new => new = old ∨ new = (32 : UInt8)) (utf8 raw) (utf8 body)

theorem Blanked.bytes_eq {raw body : List Char} (h : Blanked raw body) : bytes body = bytes raw := by
  rw [← length_utf8, ← length_utf8]
  exact (List.Forall₂.length_eq h).symm

theorem Blanked.append {raw raw' body body' : List Char} (h : Blanked raw body)
    (h' : Blanked raw' body') : Blanked (raw ++ raw') (body ++ body') := by
  unfold Blanked
  rw [utf8_append, utf8_append]
  exact List.rel_append h h'

theorem Blanked.refl (raw : List Char) : Blanked raw raw :=
  List.forall₂_same.mpr fun _ _ => .inl rfl

/-- As many spaces as a character has bytes stand in for it. -/
theorem blanked_replicate (c : Char) : Blanked [c] (List.replicate c.utf8Size ' ') := by
  have hspaces (n : Nat) : utf8 (List.replicate n ' ') = List.replicate n 32 := by
    induction n with
    | zero => rfl
    | succ n ih =>
      rw [List.replicate_succ, List.replicate_succ, ← ih]
      rfl
  unfold Blanked
  rw [hspaces, show c.utf8Size = (utf8 [c]).length by simp]
  generalize utf8 [c] = old
  induction old with
  | nil => exact .nil
  | cons b old ih => exact .cons (.inr rfl) ih

/-- Overwriting the line comments of a directive moves nothing and changes only what it blanks. -/
theorem blanked_blankComments (walk : CommentWalk) (raw : List Char) :
    Blanked raw (blankComments walk raw) := by
  induction raw generalizing walk with
  | nil => exact .nil
  | cons c cs ih =>
    have keep (walk : CommentWalk) : Blanked (c :: cs) (c :: blankComments walk cs) :=
      (Blanked.refl [c]).append (ih walk)
    cases walk with
    | quoted quote => exact keep _
    | escaped quote => exact keep _
    | comment => exact (blanked_replicate c).append (ih _)
    | code =>
      rw [blankComments]
      split
      · exact keep _
      · split
        · next hslash =>
          obtain ⟨rfl, -⟩ := hslash
          exact (blanked_replicate '/').append (ih _)
        · exact keep _

/-! ### Where the segments stand -/

/-- A segment shows what stands at its place: literal text as it is, a directive with its line comments
blanked. -/
def Segment.Shows (inside : List Char) : Segment → Prop
  | .literal text => text.chars = inside
  | .directive body => Blanked inside body.chars

/-- A segment stands where the text of its piece does. -/
theorem segment?_placed {part : Segment} {offset : Nat} (h : piece.segment? d offset = some part) :
    ∃ before inside after, piece.written d = before ++ inside ++ after ∧
      part.span = ⟨offset + bytes before, offset + bytes before + bytes inside⟩ ∧
      part.Shows inside := by
  cases piece with
  | literal text =>
    obtain rfl : Segment.literal ⟨offset, text⟩ = part := by simpa [Piece.segment?] using h
    exact ⟨[], text, [], by simp [Piece.written], rfl, rfl⟩
  | directive raw =>
    obtain rfl := by simpa [Piece.segment?] using h
    have hblank := blanked_blankComments .code raw
    refine ⟨d.left, raw, d.right, rfl, ?_, hblank⟩
    rw [Segment.span, Slice.span, Slice.stop, hblank.bytes_eq]
  | comment inner => simp [Piece.segment?] at h

/-- Every segment stands at a stretch of whole characters, and shows it. -/
theorem layout_placed {offset : Nat} {part : Segment} (h : part ∈ layout d offset pieces) :
    ∃ before inside after, written d pieces = before ++ inside ++ after ∧
      part.span = ⟨offset + bytes before, offset + bytes before + bytes inside⟩ ∧
      part.Shows inside := by
  induction pieces generalizing offset with
  | nil => simp [layout] at h
  | cons piece pieces ih =>
    rw [layout, List.mem_append, Option.mem_toList] at h
    rcases h with h | h
    · obtain ⟨before, inside, after, hpiece, hspan, hshows⟩ := segment?_placed h
      exact ⟨before, inside, after ++ written d pieces, by simp [hpiece], hspan, hshows⟩
    · obtain ⟨before, inside, after, hrest, hspan, hshows⟩ := ih h
      refine ⟨piece.written d ++ before, inside, after, by simp [hrest], ?_, hshows⟩
      simp only [hspan, bytes_append, Nat.add_assoc]

/-- The segments come in order and apart from one another. -/
theorem layout_ordered (hr : d.right ≠ []) (hsound : ∀ piece ∈ pieces, piece.Sound d)
    (offset : Nat) :
    (layout d offset pieces).Pairwise fun a b =>
      a.span.start < b.span.start ∧ a.span.stop ≤ b.span.start := by
  induction pieces generalizing offset with
  | nil => exact .nil
  | cons piece pieces ih =>
    obtain ⟨hpiece, hpieces⟩ := List.forall_mem_cons.mp hsound
    rw [layout, List.pairwise_append]
    refine ⟨?_, ih hpieces _, ?_⟩
    · rcases piece.segment? d offset with - | part <;> simp
    · intro part hpart later hlater
      obtain ⟨before, inside, after, -, hspan, -⟩ := layout_placed hlater
      -- the later segment starts behind all of the piece, which ends behind its segment
      have hbehind : part.span.start < offset + bytes (piece.written d) ∧
          part.span.stop ≤ offset + bytes (piece.written d) := by
        rw [Option.mem_toList] at hpart
        cases piece with
        | literal text =>
          obtain rfl : Segment.literal ⟨offset, text⟩ = part := by
            simpa [Piece.segment?] using hpart
          have := bytes_pos hpiece.1
          simp [Segment.span, Slice.span, Slice.stop, Piece.written, this]
        | directive raw =>
          obtain rfl := by simpa [Piece.segment?] using hpart
          have := bytes_pos hr
          have := (blanked_blankComments .code raw).bytes_eq
          simp only [Segment.span, Slice.span, Slice.stop, Piece.written, bytes_append]
          omega
        | comment inner => simp [Piece.segment?] at hpart
      simp only [hspan]
      omega

/-! ### The decomposition -/

/-- The segments of a source are its pieces without the comments, each at its own place. -/
structure Decomposes (d : Delimiters) (source : List Char) (pieces : List Piece)
    (parts : List Segment) : Prop where
  whole : written d pieces = source
  sound : ∀ piece ∈ pieces, piece.Sound d
  parts_eq : parts = layout d 0 pieces
  ordered : parts.Pairwise fun a b => a.span.start < b.span.start ∧ a.span.stop ≤ b.span.start
  placed : ∀ part ∈ parts, ∃ before inside after, source = before ++ inside ++ after ∧
    part.span = ⟨bytes before, bytes before + bytes inside⟩ ∧ part.Shows inside

theorem segments_of_scans (hl : d.left ≠ []) (hr : d.right ≠ []) (h : Scans d source pieces []) :
    segments d source = .ok (layout d 0 pieces) := by
  rw [segments, segmentsFrom_of_scans hl hr h, segmentsFrom]
  simp [Except.map]

theorem Scans.decomposes (hl : d.left ≠ []) (hr : d.right ≠ []) (h : Scans d source pieces []) :
    Decomposes d source pieces (layout d 0 pieces) where
  whole := by simpa using h.written_append
  sound := h.sound hl
  parts_eq := rfl
  ordered := layout_ordered hr (h.sound hl) 0
  placed := by
    intro part hpart
    have hwhole : written d pieces = source := by simpa using h.written_append
    simpa [hwhole] using layout_placed hpart

theorem segments_of_unclosed {complaint : Complaint} (hl : d.left ≠ []) (hr : d.right ≠ [])
    (h : Scans d source pieces rest) (hrest : Unclosed d rest complaint) :
    segments d source =
      .error (.malformed complaint ⟨bytes (written d pieces), bytes source⟩) := by
  rw [segments, segmentsFrom_of_scans hl hr h, hrest.segmentsFrom hl hr, ← h.written_append]
  simp [Except.map]

/-- **Segmentation is a lossless and unique decomposition.**  A source has segments exactly if it can
be read to its end, which can be done in one way only; then the segments are the pieces read without
the comments, and the pieces make up the source.  A source is refused exactly if the reading comes to
a left delimiter that nothing closes, and the fault reaches from there to the end. -/
theorem segments_decompose (d : Delimiters) (hl : d.left ≠ []) (hr : d.right ≠ [])
    (source : List Char) :
    ((∃ parts, segments d source = .ok parts) ↔ ∃ pieces, Scans d source pieces []) ∧
    (∀ pieces pieces', Scans d source pieces [] → Scans d source pieces' [] → pieces = pieces') ∧
    (∀ parts pieces, segments d source = .ok parts → Scans d source pieces [] →
      Decomposes d source pieces parts) ∧
    (∀ fault, segments d source = .error fault ↔
      ∃ pieces rest complaint, Scans d source pieces rest ∧ Unclosed d rest complaint ∧
        fault = .malformed complaint ⟨bytes (written d pieces), bytes source⟩) := by
  obtain ⟨pieces, rest, hscan, hrest⟩ := exists_scans hl hr source
  refine ⟨⟨?_, ?_⟩, fun _ _ => Scans.unique hl hr, ?_, ?_⟩
  · -- a source is read to its end or refused, and it has segments
    rintro ⟨parts, hparts⟩
    rcases hrest with rfl | ⟨complaint, hunclosed⟩
    · exact ⟨pieces, hscan⟩
    · rw [segments_of_unclosed hl hr hscan hunclosed] at hparts
      cases hparts
  · rintro ⟨pieces, hscan⟩
    exact ⟨_, segments_of_scans hl hr hscan⟩
  · -- there is one reading only, so its layout is what the walk gives
    intro parts pieces hparts hscan
    obtain rfl : layout d 0 pieces = parts := by
      simpa [segments_of_scans hl hr hscan] using hparts
    exact hscan.decomposes hl hr
  · intro fault
    constructor
    · intro hfault
      rcases hrest with rfl | ⟨complaint, hunclosed⟩
      · rw [segments_of_scans hl hr hscan] at hfault
        cases hfault
      · refine ⟨pieces, rest, complaint, hscan, hunclosed, ?_⟩
        simpa [segments_of_unclosed hl hr hscan hunclosed] using hfault.symm
    · rintro ⟨pieces, rest, complaint, hscan, hunclosed, rfl⟩
      exact segments_of_unclosed hl hr hscan hunclosed

/-- Delimiters that overlap with themselves and with one another. -/
theorem segments_decompose_overlapping :
    ∃ pieces, Scans ⟨['a', 'a'], ['a', '*']⟩ "xaaa*baaa*".toList pieces [] ∧
      written ⟨['a', 'a'], ['a', '*']⟩ pieces = "xaaa*baaa*".toList := by
  have h := segments_decompose ⟨['a', 'a'], ['a', '*']⟩ (by decide) (by decide)
    "xaaa*baaa*".toList
  obtain ⟨pieces, hscan⟩ := h.1.mp ⟨_, rfl⟩
  exact ⟨pieces, hscan, (h.2.2.1 _ pieces rfl hscan).whole⟩

/-- Where the right delimiter begins with a star, an empty directive reads as the beginning of a
comment: the source is put together of sound pieces, and yet it is refused. -/
theorem empty_directive_opens_comment :
    (∃ pieces, written ⟨['a'], ['*', 'x']⟩ pieces = "a*x".toList ∧
      ∀ piece ∈ pieces, piece.Sound ⟨['a'], ['*', 'x']⟩) ∧
    segments ⟨['a'], ['*', 'x']⟩ "a*x".toList =
      .error (.malformed .unclosedComment ⟨0, 3⟩) := by
  refine ⟨⟨[.directive []], rfl, ?_⟩, rfl⟩
  simpa [Piece.Sound] using firstBehind_nil _

end Stencil
