/-
Stencil/Text/Blank.lean

Sets of characters, and white space as the first of them.

Every character property that the library needs beyond ASCII (white space, letters,
digits, case) is a list of closed ranges of code points, in ascending order, so that a
look-up can stop at the first range that lies above the character.

Two sets of white space are in use: `isBlank`, the characters with the Unicode
property White_Space, separates the words of a directive and the tokens of an
expression; `isTrimmed`, which adds the byte order mark, is what values are
trimmed of.
-/

namespace Stencil

/-! ### Ranges of code points -/

/-- Closed ranges of code points, ascending and apart. -/
abbrev CodeRanges := List (Nat × Nat)

namespace CodeRanges

/-- Whether the code point `n` lies in one of the ranges.  The ranges ascend, so
the first one that begins above `n` ends the search. -/
def covers : CodeRanges → Nat → Bool
  | [], _ => false
  | (lo, hi) :: rest, n => if n < lo then false else n ≤ hi || covers rest n

/-- Whether the ranges are proper, ascending and apart. -/
def ascending : CodeRanges → Bool
  | [] => true
  | [(lo, hi)] => lo ≤ hi
  | (lo, hi) :: (lo', hi') :: rest => lo ≤ hi && hi < lo' && ascending ((lo', hi') :: rest)

variable {ranges rest : CodeRanges} {range : Nat × Nat} {n : Nat}

theorem exists_of_covers (h : ranges.covers n = true) :
    ∃ range ∈ ranges, range.1 ≤ n ∧ n ≤ range.2 := by
  induction ranges with
  | nil => cases h
  | cons range ranges ih =>
    obtain ⟨lo, hi⟩ := range
    rw [covers] at h
    split at h
    · cases h
    · next hlo =>
      rw [Bool.or_eq_true, decide_eq_true_iff] at h
      rcases h with hhi | h
      · exact ⟨(lo, hi), List.mem_cons_self, Nat.le_of_not_lt hlo, hhi⟩
      · obtain ⟨range, hmem, hn⟩ := ih h
        exact ⟨range, List.mem_cons_of_mem _ hmem, hn⟩

theorem le_of_ascending (h : ascending (range :: rest) = true) : range.1 ≤ range.2 := by
  cases rest <;> simp_all [ascending]

theorem ascending_of_cons (h : ascending (range :: rest) = true) : rest.ascending = true := by
  cases rest <;> simp_all [ascending]

/-- Every later range lies above the first one. -/
theorem lt_of_ascending (h : ascending (range :: rest) = true) :
    ∀ later ∈ rest, range.2 < later.1 := by
  induction rest generalizing range with
  | nil => nofun
  | cons next rest ih =>
    have hrest := ascending_of_cons h
    have hnext : range.2 < next.1 := by simp_all [ascending]
    refine List.forall_mem_cons.mpr ⟨hnext, fun later hlater => ?_⟩
    exact Nat.lt_trans (Nat.lt_of_lt_of_le hnext (le_of_ascending hrest)) (ih hrest later hlater)

/-- In ranges that ascend, a search that ends early misses nothing. -/
theorem covers_iff (h : ranges.ascending = true) :
    ranges.covers n = true ↔ ∃ range ∈ ranges, range.1 ≤ n ∧ n ≤ range.2 := by
  refine ⟨exists_of_covers, ?_⟩
  rintro ⟨range, hmem, hlo, hhi⟩
  induction ranges with
  | nil => cases hmem
  | cons first ranges ih =>
    have hproper := le_of_ascending h
    rw [covers]
    rcases List.mem_cons.mp hmem with rfl | hlater
    · rw [if_neg (Nat.not_lt.mpr hlo), decide_eq_true hhi, Bool.true_or]
    · have habove := lt_of_ascending h range hlater
      rw [if_neg (by omega), ih (ascending_of_cons h) hlater, Bool.or_true]

end CodeRanges

/-! ### White space -/

/-- The characters with the property White_Space. -/
def blankRanges : CodeRanges :=
  [(0x09, 0x0D), (0x20, 0x20), (0x85, 0x85), (0xA0, 0xA0), (0x1680, 0x1680), (0x2000, 0x200A),
   (0x2028, 0x2029), (0x202F, 0x202F), (0x205F, 0x205F), (0x3000, 0x3000)]

/-- White space between the parts of a directive. -/
def isBlank (c : Char) : Bool := blankRanges.covers c.toNat

theorem isBlank_iff {c : Char} :
    isBlank c = true ↔ ∃ range ∈ blankRanges, range.1 ≤ c.toNat ∧ c.toNat ≤ range.2 :=
  CodeRanges.covers_iff (by decide)

/-- White space around a value: the byte order mark counts as blank there. -/
def isTrimmed (c : Char) : Bool := isBlank c || c.toNat == 0xFEFF

namespace Text

/-- The text without the longest run of characters at its end that satisfy `p`. -/
def dropTrailing (p : Char → Bool) : List Char → List Char
  | [] => []
  | c :: cs =>
    match dropTrailing p cs with
    | [] => if p c then [] else [c]
    | kept => c :: kept

/-- The text without the characters at either end that satisfy `p`. -/
def trimBoth (p : Char → Bool) (cs : List Char) : List Char :=
  dropTrailing p (cs.dropWhile p)

/-- The text without the white space at its ends. -/
def trimBlank (cs : List Char) : List Char := trimBoth isBlank cs

/-- The text of a value without the white space at its ends. -/
def trimValue (cs : List Char) : List Char := trimBoth isTrimmed cs

end Text

end Stencil
