/-
Stencil/Proofs/Moving.lean

Code that stands further back in a source.  Where `k` bytes are put in front of a
source, every place in it moves by `k` and nothing else changes (`moved`).  Reading
commutes with that, from the cutting of slices up to the statements of a directive:
offsets are copied and added to, but never looked at.

A reading may succeed or fail, and both its value and its fault move; `carry` says so
in one equation, and `carry_bind` takes it from step to step.
-/
import Stencil.Expression.Read
import Stencil.Proofs.Occurrence

namespace Stencil

open Text

/-! ### What moves -/

/-- The place `k` bytes further back. -/
def Span.moved (k : Nat) (s : Span) : Span := ⟨k + s.start, k + s.stop⟩

/-- The same text `k` bytes further back. -/
def Slice.moved (k : Nat) (s : Slice) : Slice := ⟨k + s.start, s.chars⟩

/-- A fault of the same kind `k` bytes further back; a wrong configuration has no place. -/
def CompileFault.moved (k : Nat) : CompileFault → CompileFault
  | .emptyDelimiter => .emptyDelimiter
  | .malformed complaint span => .malformed complaint (span.moved k)

mutual

/-- The same expression `k` bytes further back, with all of its parts. -/
def Expression.moved (k : Nat) : Expression → Expression
  | .literal span value => .literal (span.moved k) value
  | .identifier span name => .identifier (span.moved k) name
  | .array span items => .array (span.moved k) (movedAll k items)
  | .object span entries => .object (span.moved k) (movedEntries k entries)
  | .member span object property => .member (span.moved k) (object.moved k) property
  | .index span object index => .index (span.moved k) (object.moved k) (index.moved k)
  | .call span callee arguments => .call (span.moved k) (callee.moved k) (movedAll k arguments)
  | .unary span operator operand => .unary (span.moved k) operator (operand.moved k)
  | .binary span operator left right =>
    .binary (span.moved k) operator (left.moved k) (right.moved k)
  | .conditional span condition consequent alternative =>
    .conditional (span.moved k) (condition.moved k) (consequent.moved k) (alternative.moved k)
  | .assign span name value => .assign (span.moved k) name (value.moved k)

/-- The same expressions `k` bytes further back. -/
def movedAll (k : Nat) : List Expression → List Expression
  | [] => []
  | e :: es => e.moved k :: movedAll k es

/-- The same entries with their values `k` bytes further back. -/
def movedEntries (k : Nat) : List (String × Expression) → List (String × Expression)
  | [] => []
  | (key, e) :: entries => (key, e.moved k) :: movedEntries k entries

end

/-- The same entry with its value `k` bytes further back. -/
def movedEntry (k : Nat) : String × Expression → String × Expression :=
  Prod.map id (Expression.moved k)

theorem movedAll_eq (k : Nat) (es : List Expression) : movedAll k es = es.map (·.moved k) := by
  induction es with
  | nil => rfl
  | cons e es ih => rw [movedAll, ih, List.map_cons]

theorem movedEntries_eq (k : Nat) (entries : List (String × Expression)) :
    movedEntries k entries = entries.map (movedEntry k) := by
  induction entries with
  | nil => rfl
  | cons entry entries ih =>
    rw [movedEntries, ih, List.map_cons]
    rfl

/-- The same statement `k` bytes further back. -/
def Statement.moved (k : Nat) : Statement → Statement
  | .declare name value => .declare name (value.map (·.moved k))
  | .evaluate value => .evaluate (value.moved k)

/-- The same token `k` bytes further back. -/
def movedToken (k : Nat) : Token × Span → Token × Span := Prod.map id (Span.moved k)

/-! ### Results that move -/

section Results

variable {ε α α' β β' : Type} {onFault : ε → ε}

/-- The same outcome with another value or fault. -/
def carry (onFault : ε → ε) (onValue : α → α') : Except ε α → Except ε α'
  | .ok value => .ok (onValue value)
  | .error fault => .error (onFault fault)

@[simp] theorem carry_ok (onValue : α → α') (value : α) :
    carry onFault onValue (.ok value) = .ok (onValue value) := rfl

@[simp] theorem carry_error (onValue : α → α') (fault : ε) :
    carry onFault onValue (.error fault) = .error (onFault fault) := rfl

/-- What is done with a carried value is carried, where it is for every value. -/
theorem carry_bind {onValue : α → α'} {onResult : β → β'} (r : Except ε α) {f : α → Except ε β}
    {g : α' → Except ε β'} (h : ∀ value, g (onValue value) = carry onFault onResult (f value)) :
    (carry onFault onValue r >>= g) = carry onFault onResult (r >>= f) := by
  cases r with
  | error fault => rfl
  | ok value => exact h value

/-- What may come of a moved value is moved, where it is for every value. -/
theorem map_bind_moved {onValue : α → α'} {onResult : β → β'} (x : Option α) {f : α → Option β}
    {g : α' → Option β'} (h : ∀ value, g (onValue value) = (f value).map onResult) :
    (x.map onValue >>= g) = (x >>= f).map onResult := by
  cases x with
  | none => rfl
  | some value => exact h value

end Results

variable {k : Nat}

/-! ### Slices -/

namespace Slice

@[simp] theorem chars_moved (s : Slice) : (s.moved k).chars = s.chars := rfl

@[simp] theorem stop_moved (s : Slice) : (s.moved k).stop = k + s.stop := Nat.add_assoc _ _ _

@[simp] theorem span_moved (s : Slice) : (s.moved k).span = s.span.moved k := by
  simp [span, Span.moved, Slice.moved, stop, Nat.add_assoc]

@[simp] theorem head_moved (s : Slice) : (s.moved k).head = s.head.moved k := by
  simp [head, Span.moved, Slice.moved, Nat.add_assoc]

@[simp] theorem drop_moved (n : Nat) (s : Slice) : (s.moved k).drop n = (s.drop n).moved k := by
  simp [drop, Slice.moved, Nat.add_assoc]

@[simp] theorem trimStart_moved (s : Slice) : (s.moved k).trimStart = s.trimStart.moved k := by
  simp [trimStart, Slice.moved, Nat.add_assoc]

@[simp] theorem trimEnd_moved (s : Slice) : (s.moved k).trimEnd = s.trimEnd.moved k := rfl

@[simp] theorem trim_moved (s : Slice) : (s.moved k).trim = s.trim.moved k := by
  rw [trim, trimStart_moved, trimEnd_moved, trim]

@[simp] theorem after?_moved (lead : List Char) (s : Slice) :
    (s.moved k).after? lead = (s.after? lead).map (·.moved k) := by
  rw [after?, after?, chars_moved, drop_moved]
  split <;> rfl

@[simp] theorem before?_moved (last : Char) (s : Slice) :
    (s.moved k).before? last = (s.before? last).map (·.moved k) := by
  rw [before?, before?, chars_moved]
  split <;> rfl

@[simp] theorem afterWord?_moved (word : List Char) (s : Slice) :
    (s.moved k).afterWord? word = (s.afterWord? word).map (·.moved k) := by
  rw [afterWord?, afterWord?, after?_moved]
  rcases s.after? word with - | rest
  · rfl
  · simp only [Option.map_some, chars_moved]
    by_cases hname : rest.chars.head?.any isNamePart <;> simp [hname]

@[simp] theorem splitName?_moved (s : Slice) :
    (s.moved k).splitName? = s.splitName?.map (Prod.map id (Slice.moved k)) := by
  rw [splitName?, splitName?, chars_moved]
  rcases Text.splitName? s.chars with - | ⟨name, rest⟩
  · rfl
  · simp [Slice.moved, Nat.add_assoc]

end Slice

/-! ### Tokens -/

theorem Token.scanFrom_moved (skip offset : Nat) (cs : List Char) :
    scanFrom skip (k + offset) cs =
      carry (Span.moved k) (List.map (movedToken k)) (scanFrom skip offset cs) := by
  induction cs generalizing skip offset with
  | nil => rfl
  | cons c cs ih =>
    cases skip with
    | succ skip =>
      rw [scanFrom, scanFrom, Nat.add_assoc]
      exact ih skip _
    | zero =>
      simp only [scanFrom, Nat.add_assoc, ih]
      split
      · rfl
      split
      · next t length _ =>
        refine carry_bind _ fun rest => ?_
        simp [movedToken, Span.moved]
      · next reach _ =>
        rw [carry_error, ← Slice.head_moved, ← Slice.drop_moved]
        rfl

theorem Token.scan_moved (code : Slice) :
    scan (code.moved k) = carry (Span.moved k) (List.map (movedToken k)) (scan code) :=
  scanFrom_moved 0 code.start code.chars

end Stencil
