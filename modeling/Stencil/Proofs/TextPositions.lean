/-
Stencil/Proofs/TextPositions.lean

Positions in texts.  Looking for a text, cutting one out and reading a single character all
count in characters, so they can be put together: where a text is found, as many characters
as it has are the text (`indexOf?_eq_some_iff`), and what is cut at a position joins again.
A position that is given as a number arrives unchanged, since whole numbers below `2^53`
are doubles (`toInt_ofNat`), and as an index it is read from its digits (`member?_ofNat`).

The main result is `indexOf_cuts`.
-/
import Stencil.Builtin.Method
import Stencil.Proofs.Elements

namespace Stencil

namespace Text

variable {pattern cs : List Char} {i k : Nat}

/-! ### Looking for a text -/

theorem indexOf?_nil (pattern : List Char) : indexOf? pattern [] = if pattern = [] then some 0 else none := by
  rw [indexOf?, splitFirst?]
  split <;> rfl

theorem indexOf?_cons (pattern : List Char) (c : Char) (cs : List Char) :
    indexOf? pattern (c :: cs) =
      if pattern.isPrefixOf (c :: cs) then some 0 else (indexOf? pattern cs).map (· + 1) := by
  rw [indexOf?, splitFirst?, indexOf?]
  split
  · rfl
  · rw [Option.map_map, Option.map_map]
    rfl

/-- A text is found at the first position behind which it stands. -/
theorem indexOf?_eq_some_iff :
    indexOf? pattern cs = some i ↔ pattern <+: cs.drop i ∧ ∀ j < i, ¬ pattern <+: cs.drop j := by
  induction cs generalizing i with
  | nil =>
    rw [indexOf?_nil]
    simp only [List.drop_nil, List.prefix_nil]
    split
    · next hempty =>
      constructor
      · rintro ⟨⟩
        exact ⟨hempty, nofun⟩
      · rintro ⟨-, hleast⟩
        cases i with
        | zero => rfl
        | succ i => exact absurd hempty (hleast 0 i.succ_pos)
    · next hne => exact ⟨nofun, fun h => absurd h.1 hne⟩
  | cons c cs ih =>
    rw [indexOf?_cons]
    split
    · -- the pattern stands here, so no later position is the first
      next hhere =>
      have hhere := List.isPrefixOf_iff_prefix.mp hhere
      constructor
      · rintro ⟨⟩
        exact ⟨hhere, nofun⟩
      · rintro ⟨-, hleast⟩
        cases i with
        | zero => rfl
        | succ i => exact absurd hhere (hleast 0 i.succ_pos)
    · next hhere =>
      -- it does not stand here, so the first position is one more than that in the rest
      have hhere : ¬ pattern <+: c :: cs := List.isPrefixOf_iff_prefix.not.mp hhere
      cases i with
      | zero => exact ⟨fun h => by simp at h, fun h => absurd h.1 hhere⟩
      | succ i =>
        rw [Option.map_eq_some_iff]
        constructor
        · rintro ⟨j, hj, hij⟩
          obtain rfl : j = i := Nat.succ.inj hij
          obtain ⟨hfound, hleast⟩ := ih.mp hj
          refine ⟨hfound, fun k hk => ?_⟩
          cases k with
          | zero => exact hhere
          | succ k => exact hleast k (Nat.lt_of_succ_lt_succ hk)
        · rintro ⟨hfound, hleast⟩
          exact ⟨i, ih.mpr ⟨hfound, fun j hj => hleast (j + 1) (Nat.succ_lt_succ hj)⟩, rfl⟩

theorem infix_iff_exists_drop : pattern <:+: cs ↔ ∃ i, pattern <+: cs.drop i := by
  rw [List.infix_iff_prefix_suffix]
  constructor
  · rintro ⟨rest, hstands, hsuffix⟩
    rw [List.suffix_iff_eq_drop] at hsuffix
    exact ⟨_, hsuffix ▸ hstands⟩
  · rintro ⟨i, hstands⟩
    exact ⟨_, hstands, List.drop_suffix i cs⟩

open Classical in
theorem indexOf?_eq_none_iff : indexOf? pattern cs = none ↔ ¬ pattern <:+: cs := by
  rw [infix_iff_exists_drop, Option.eq_none_iff_forall_ne_some]
  constructor
  · intro hnone hoccurs
    -- the first of the positions behind which the text stands
    exact hnone (Nat.find hoccurs) (indexOf?_eq_some_iff.mpr
      ⟨Nat.find_spec hoccurs, fun j hj => Nat.find_min hoccurs hj⟩)
  · intro hno i hfound
    exact hno ⟨i, (indexOf?_eq_some_iff.mp hfound).1⟩

/-- What is found lies in the text. -/
theorem indexOf?_inside (h : indexOf? pattern cs = some i) : i + pattern.length ≤ cs.length := by
  obtain ⟨hstands, hleast⟩ := indexOf?_eq_some_iff.mp h
  have hlength := hstands.length_le
  rw [List.length_drop] at hlength
  by_contra hout
  -- only nothing stands behind the end, and nothing stands at the start already
  have hempty : pattern = [] := List.eq_nil_of_length_eq_zero (by omega)
  subst hempty
  exact hleast 0 (by omega) List.nil_prefix

/-! ### Cutting -/

theorem slice_infix (start stop : Int) (cs : List Char) : slice start stop cs <:+: cs :=
  (List.drop_suffix _ _).isInfix.trans (List.take_prefix _ _).isInfix

theorem substr_natCast (i n : Nat) (cs : List Char) : substr i (some (n : Int)) cs = (cs.drop i).take n := by
  have hstart : ¬ (i : Int) < 0 := by omega
  have hstop : ((i : Int) + max (n : Int) 0).toNat = i + n := by omega
  simp only [substr, if_neg hstart, slice, Option.getD_some, hstop, Int.toNat_natCast, List.drop_take]
  rw [Nat.add_sub_cancel_left]

/-- The characters cut out behind a position are a text exactly if the text stands there. -/
theorem substr_eq_iff : substr i (some (pattern.length : Int)) cs = pattern ↔ pattern <+: cs.drop i := by
  rw [substr_natCast, List.prefix_iff_eq_take, eq_comm]

theorem substring_front (hk : k ≤ cs.length) : substring 0 (some (k : Int)) cs = cs.take k := by
  have hstart : clamp 0 cs = 0 := Nat.zero_min _
  have hstop : clamp k cs = k := Nat.min_eq_left hk
  simp only [substring, hstart, Option.elim_some, hstop, slice]
  simp

theorem substring_back (hk : k ≤ cs.length) : substring k none cs = cs.drop k := by
  have hstart : clamp k cs = k := Nat.min_eq_left hk
  simp only [substring, hstart, Option.elim_none, slice]
  simp [hk]

theorem slice_character {c : Char} (hc : cs[k]? = some c) : slice k ((k : Int) + 1) cs = [c] := by
  have hstop : ((k : Int) + 1).toNat = k + 1 := by omega
  rw [slice, hstop, Int.toNat_natCast, List.drop_take, Nat.add_sub_cancel_left, List.take_one,
    List.head?_drop, hc]
  rfl

end Text

/-! ### Methods -/

namespace Value

variable {id : Identity} {t n : String} {i j k : Nat}

theorem toInt_ofNat (hk : k < 2 ^ 53) : (Value.ofNat k).toInt = k := Number.toInt_ofNat hk

theorem toInt?_ofNat (hk : k < 2 ^ 53) : (Value.ofNat k).toInt? = some (k : Int) :=
  congrArg some (toInt_ofNat hk)

theorem toInt_undefined : undefined.toInt = 0 := by decide

/-- A text that is looked for from a position on stands where the answer says. -/
theorem indexOf_inside (id : Identity) (t : String) (arguments : List Value) :
    ∃ position : Option Nat,
      (text t).callMethod? id "indexOf" arguments = some (positionValue position) ∧
      ∀ i ∈ position, (argumentAt arguments 0).chars <+: t.toList.drop i ∧
        i + (argumentAt arguments 0).chars.length ≤ t.toList.length := by
  refine ⟨_, rfl, fun i hi => ?_⟩
  obtain ⟨j, hj, rfl⟩ := Option.map_eq_some_iff.mp hi
  have hstart : Text.clamp (argumentAt arguments 1).toInt t.toList ≤ t.toList.length :=
    Nat.min_le_right _ _
  have hinside := Text.indexOf?_inside hj
  have hstands := (Text.indexOf?_eq_some_iff.mp hj).1
  rw [List.length_drop] at hinside
  rw [List.drop_drop] at hstands
  exact ⟨hstands, by omega⟩

/-- The functions that cut a text answer with a part of it, whatever they are given. -/
theorem cut_infix (id : Identity) (t : String) {name : String}
    (hname : name ∈ ["substr", "substring", "charAt"]) (arguments : List Value) :
    ∃ part, (text t).callMethod? id name arguments = some (.ofChars part) ∧ part <:+: t.toList := by
  simp only [List.mem_cons, List.not_mem_nil, or_false] at hname
  rcases hname with rfl | rfl | rfl <;> exact ⟨_, rfl, Text.slice_infix _ _ _⟩

theorem callMethod?_indexOf (id : Identity) (t n : String) :
    (text t).callMethod? id "indexOf" [.text n] =
      some (positionValue (Text.indexOf? n.toList t.toList)) := by
  have hstart : Text.clamp undefined.toInt t.toList = 0 := by
    rw [toInt_undefined]
    exact Nat.zero_min _
  show some (positionValue ((Text.indexOf? n.toList
    (t.toList.drop (Text.clamp undefined.toInt t.toList))).map
      (Text.clamp undefined.toInt t.toList + ·))) = _
  rw [hstart, List.drop_zero]
  simp

theorem strictEquals_ofChars {cs : List Char} :
    (ofChars cs).strictEquals (.text n) = true ↔ cs = n.toList := by
  show (String.ofList cs == n) = true ↔ _
  rw [beq_iff_eq, ← String.toList_inj, String.toList_ofList]

/-- The characters of `t` from the position `i` on, as many as `n` has, are `n`. -/
def HasAt (id : Identity) (t n : String) (i : Nat) : Prop :=
  ∃ length part, (text n).member? "length" = some length ∧
    (text t).callMethod? id "substr" [.ofNat i, length] = some part ∧ part.strictEquals (.text n) = true

theorem hasAt_iff (hi : i < 2 ^ 53) (hn : n.toList.length < 2 ^ 53) :
    HasAt id t n i ↔ n.toList <+: t.toList.drop i := by
  have hcall : (text t).callMethod? id "substr" [.ofNat i, .ofNat n.toList.length] =
      some (.ofChars (Text.substr i (some (n.toList.length : Int)) t.toList)) := by
    show some (ofChars (Text.substr (Value.ofNat i).toInt (Value.ofNat n.toList.length).toInt?
      t.toList)) = _
    rw [toInt_ofNat hi, toInt?_ofNat hn]
  have hlength : (text n).member? "length" = some (.ofNat n.toList.length) := rfl
  rw [← Text.substr_eq_iff, ← strictEquals_ofChars]
  constructor
  · rintro ⟨length, part, hmember, hsubstr, hequal⟩
    rw [hlength] at hmember
    cases hmember
    rw [hcall] at hsubstr
    cases hsubstr
    exact hequal
  · exact fun hequal => ⟨_, _, hlength, hcall, hequal⟩

/-- The answer is the first position at which the text stands. -/
theorem indexOf_least (id : Identity) (ht : t.toList.length < 2 ^ 53) (h : n.toList <:+: t.toList) :
    ∃ i, (text t).callMethod? id "indexOf" [.text n] = some (.ofNat i) ∧ HasAt id t n i ∧
      ∀ j < i, ¬ HasAt id t n j := by
  have hn : n.toList.length < 2 ^ 53 := Nat.lt_of_le_of_lt h.length_le ht
  cases hfound : Text.indexOf? n.toList t.toList with
  | none => exact absurd h (Text.indexOf?_eq_none_iff.mp hfound)
  | some i =>
    have hinside := Text.indexOf?_inside hfound
    obtain ⟨hhas, hleast⟩ := Text.indexOf?_eq_some_iff.mp hfound
    refine ⟨i, ?_, (hasAt_iff (by omega) hn).mpr hhas, fun j hj => ?_⟩
    · rw [callMethod?_indexOf, hfound]
      rfl
    · rw [hasAt_iff (by omega) hn]
      exact hleast j hj

theorem indexOf_missing (id : Identity) (h : ¬ n.toList <:+: t.toList) :
    (text t).callMethod? id "indexOf" [.text n] = some (.number (-1.0)) := by
  rw [callMethod?_indexOf, Text.indexOf?_eq_none_iff.mpr h]
  rfl

/-- A text that is cut at a position is its two parts put together. -/
theorem add_substring (id : Identity) (ht : t.toList.length < 2 ^ 53) (hk : k ≤ t.toList.length) :
    ∃ front back, (text t).callMethod? id "substring" [.ofNat 0, .ofNat k] = some front ∧
      (text t).callMethod? id "substring" [.ofNat k] = some back ∧ front.add back = .text t := by
  have hfront : (text t).callMethod? id "substring" [.ofNat 0, .ofNat k] =
      some (.ofChars (t.toList.take k)) := by
    show some (ofChars (Text.substring (Value.ofNat 0).toInt (Value.ofNat k).toInt? t.toList)) = _
    rw [toInt_ofNat (by decide), toInt?_ofNat (by omega), ← Text.substring_front hk]
    rfl
  have hback : (text t).callMethod? id "substring" [.ofNat k] = some (.ofChars (t.toList.drop k)) := by
    show some (ofChars (Text.substring (Value.ofNat k).toInt none t.toList)) = _
    rw [toInt_ofNat (by omega), Text.substring_back hk]
  refine ⟨_, _, hfront, hback, ?_⟩
  show ofChars ((String.ofList (t.toList.take k)).toList ++ (String.ofList (t.toList.drop k)).toList) = _
  rw [String.toList_ofList, String.toList_ofList, List.take_append_drop, ofChars, String.ofList_toList]

/-- A single character is the same by its position and by its index. -/
theorem charAt_eq_member? (id : Identity) (ht : t.toList.length < 2 ^ 53) (hk : k < t.toList.length) :
    ∃ c, t.toList[k]? = some c ∧ (text t).callMethod? id "charAt" [.ofNat k] = some (.ofChars [c]) ∧
      (text t).member? (Value.ofNat k).display = some (.ofChars [c]) := by
  have hc : t.toList[k]? = some t.toList[k] := List.getElem?_eq_getElem hk
  refine ⟨t.toList[k], hc, ?_, ?_⟩
  · show some (ofChars (Text.slice (Value.ofNat k).toInt ((Value.ofNat k).toInt + 1) t.toList)) = _
    rw [toInt_ofNat (by omega), Text.slice_character hc]
  · rw [member?_ofNat rfl (by omega), List.getElem?_map, hc]
    rfl

/-- **Looking for a text and cutting it out count the same characters: a text is found at the least
position at which it can be cut out, what is cut at a position joins again, a character is the same by its
position and by its index, and nothing but parts of the text is answered.** -/
theorem indexOf_cuts (id : Identity) (t n : String) (ht : t.toList.length < 2 ^ 53) :
    (text t).member? "length" = some (.ofNat t.toList.length) ∧
    (n.toList <:+: t.toList →
      ∃ i, (text t).callMethod? id "indexOf" [.text n] = some (.ofNat i) ∧ HasAt id t n i ∧
        ∀ j < i, ¬ HasAt id t n j) ∧
    (¬ n.toList <:+: t.toList →
      (text t).callMethod? id "indexOf" [.text n] = some (.number (-1.0))) ∧
    (∀ k ≤ t.toList.length, ∃ front back,
      (text t).callMethod? id "substring" [.ofNat 0, .ofNat k] = some front ∧
      (text t).callMethod? id "substring" [.ofNat k] = some back ∧ front.add back = .text t) ∧
    (∀ k < t.toList.length, ∃ c, t.toList[k]? = some c ∧
      (text t).callMethod? id "charAt" [.ofNat k] = some (.ofChars [c]) ∧
      (text t).member? (Value.ofNat k).display = some (.ofChars [c])) ∧
    (∀ name ∈ ["substr", "substring", "charAt"], ∀ arguments, ∃ part,
      (text t).callMethod? id name arguments = some (.ofChars part) ∧ part <:+: t.toList) ∧
    ∀ arguments, ∃ position : Option Nat,
      (text t).callMethod? id "indexOf" arguments = some (positionValue position) ∧
      ∀ i ∈ position, (argumentAt arguments 0).chars <+: t.toList.drop i ∧
        i + (argumentAt arguments 0).chars.length ≤ t.toList.length :=
  ⟨rfl, indexOf_least id ht, indexOf_missing id, fun _ hk => add_substring id ht hk,
    fun _ hk => charAt_eq_member? id ht hk, fun _ hname => cut_infix id t hname, indexOf_inside id t⟩

/-- Characters of several bytes, and a text that occurs twice. -/
theorem indexOf_cuts_wide :
    let t := "añbañ🐎ñ🐎"
    let n := "ñ🐎"
    t.toList.length < 2 ^ 53 ∧ n.toList <:+: t.toList ∧ ¬ "🐎b".toList <:+: t.toList ∧
    (∃ i, (text t).callMethod? (.made 0) "indexOf" [.text n] = some (.ofNat i) ∧
      HasAt (.made 0) t n i ∧ ∀ j < i, ¬ HasAt (.made 0) t n j) ∧
    (text t).callMethod? (.made 0) "indexOf" [.text "🐎b"] = some (.number (-1.0)) ∧
    ∃ c, t.toList[5]? = some c ∧
      (text t).callMethod? (.made 0) "charAt" [.ofNat 5] = some (.ofChars [c]) ∧
      (text t).member? (Value.ofNat 5).display = some (.ofChars [c]) := by
  intro t n
  have ht : t.toList.length < 2 ^ 53 := by decide
  have hfound : n.toList <:+: t.toList := by decide
  have hmissing : ¬ "🐎b".toList <:+: t.toList := by decide
  obtain ⟨-, hleast, -, -, hcharacter, -⟩ := indexOf_cuts (.made 0) t n ht
  obtain ⟨-, -, hnone, -⟩ := indexOf_cuts (.made 0) t "🐎b" ht
  exact ⟨ht, hfound, hmissing, hleast hfound, hnone hmissing, hcharacter 5 (by decide)⟩

end Value

end Stencil
