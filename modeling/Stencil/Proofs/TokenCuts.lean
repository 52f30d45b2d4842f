/-
Stencil/Proofs/TokenCuts.lean

Cutting a text between its tokens.  `Lexed behind offset cs ts` walks over a text in front
of another one and lists its tokens.  The walk does not depend on all that stands behind
the text, so it may be softened (`Lexed.softened`); and as nothing may stand there at all,
any row of neighbouring tokens is what the text around which they stand is scanned to
(`exists_cut`).

Every text is walked over to its end or to a place where no token can be read
(`lexed_or_stuck`), which gives both outcomes of a scan.
-/
import Stencil.Proofs.Grammar
import Stencil.Proofs.Lookahead

namespace Stencil

open Text

/-- In front of `behind` the text is read as the tokens. -/
inductive Lexed (behind : List Char) : Nat → List Char → List (Token × Span) → Prop
  | nil (offset : Nat) : Lexed behind offset [] []
  | blank {offset : Nat} {c : Char} {cs : List Char} {ts : List (Token × Span)} :
      isBlank c = true → Lexed behind (offset + c.utf8Size) cs ts → Lexed behind offset (c :: cs) ts
  | token {offset : Nat} {c : Char} {word cs : List Char} {t : Token} {ts : List (Token × Span)} :
      isBlank c = false →
      Token.read (c :: word ++ (cs ++ behind)) = .token t (c :: word).length →
      Lexed behind (offset + bytes (c :: word)) cs ts →
      Lexed behind offset (c :: word ++ cs) ((t, ⟨offset, offset + bytes (c :: word)⟩) :: ts)

/-! ### Walks and scans -/

/-- The walk over a word that is a token, and over what follows it. -/
theorem scanFrom_token {offset : Nat} {c : Char} {word rest : List Char} {t : Token}
    (hblank : isBlank c = false)
    (hread : Token.read (c :: word ++ rest) = .token t (c :: word).length) :
    Token.scanFrom 0 offset (c :: word ++ rest) =
      (Token.scanFrom 0 (offset + bytes (c :: word)) rest).map
        ((t, ⟨offset, offset + bytes (c :: word)⟩) :: ·) := by
  rw [List.cons_append] at hread ⊢
  have htake : (c :: (word ++ rest)).take (word.length + 1) = c :: word := by
    rw [List.take_succ_cons, List.take_left]
  simp only [Token.scanFrom, hblank, hread, List.length_cons, Nat.add_sub_cancel, scanFrom_skip, htake,
    Bool.false_eq_true, if_false, bytes_cons, Nat.add_assoc]
  cases Token.scanFrom 0 (offset + (c.utf8Size + bytes word)) rest <;> rfl

namespace Lexed

variable {behind behind' : List Char} {offset : Nat} {cs cs' : List Char}
  {ts us : List (Token × Span)}

/-- What stands behind a text is scanned where the text ends. -/
theorem scanFrom (h : Lexed behind offset cs ts) :
    Token.scanFrom 0 offset (cs ++ behind) =
      (Token.scanFrom 0 (offset + bytes cs) behind).map (ts ++ ·) := by
  induction h with
  | nil offset =>
    rw [bytes_nil, Nat.add_zero, List.nil_append]
    cases Token.scanFrom 0 offset behind <;> rfl
  | @blank offset c cs ts hblank _ ih =>
    rw [List.cons_append, Token.scanFrom, if_pos hblank, ih, bytes_cons, Nat.add_assoc]
  | @token offset c word cs t ts hblank hread _ ih =>
    rw [List.append_assoc, scanFrom_token hblank hread, ih, bytes_append, Nat.add_assoc]
    cases Token.scanFrom 0 (offset + (bytes (c :: word) + bytes cs)) behind <;> rfl

theorem softened (h : Lexed behind offset cs ts) (hsoft : Softens behind behind') :
    Lexed behind' offset cs ts := by
  induction h with
  | nil => exact .nil _
  | blank hblank _ ih => exact .blank hblank ih
  | @token _ _ _ cs _ _ hblank hread _ ih =>
    exact .token hblank (Token.read_softened (List.cons_ne_nil _ _) hread (hsoft.prepend cs)) ih

theorem append (h : Lexed (cs' ++ behind) offset cs ts) (h' : Lexed behind (offset + bytes cs) cs' us) :
    Lexed behind offset (cs ++ cs') (ts ++ us) := by
  induction h with
  | nil => exact h'
  | blank hblank _ ih =>
    refine .blank hblank (ih ?_)
    rwa [bytes_cons, ← Nat.add_assoc] at h'
  | @token _ c word cs _ _ hblank hread _ ih =>
    rw [List.append_assoc, List.cons_append]
    refine .token hblank (by rwa [List.append_assoc]) (ih ?_)
    rwa [bytes_append, ← Nat.add_assoc] at h'

end Lexed

/-- A text is walked over to its end or to a place where no token can be read. -/
theorem lexed_or_stuck (offset : Nat) (cs : List Char) :
    (∃ ts, Lexed [] offset cs ts) ∨
      ∃ front c rest ts reach, cs = front ++ c :: rest ∧ Lexed (c :: rest) offset front ts ∧
        isBlank c = false ∧ Token.read (c :: rest) = .stuck reach := by
  -- a token may take any number of characters, so the induction is on the length of the text
  induction hn : cs.length using Nat.strong_induction_on generalizing offset cs with
  | h n ih =>
    subst hn
    cases cs with
    | nil => exact .inl ⟨[], .nil offset⟩
    | cons c cs =>
      by_cases hblank : isBlank c = true
      · rcases ih cs.length (by simp) (offset + c.utf8Size) cs rfl with
          ⟨ts, h⟩ | ⟨front, d, rest, ts, reach, rfl, h, hd, hread⟩
        · exact .inl ⟨ts, .blank hblank h⟩
        · exact .inr ⟨c :: front, d, rest, ts, reach, rfl, .blank hblank h, hd, hread⟩
      rw [Bool.not_eq_true] at hblank
      rcases hread : Token.read (c :: cs) with ⟨t, length⟩ | reach
      · have hc : c ≠ ' ' := by
          rintro rfl
          cases hblank
        have htaken := Token.taken_of_read hc hread
        obtain ⟨k, rfl⟩ := Nat.exists_eq_succ_of_ne_zero (Nat.ne_of_gt htaken.pos)
        have hk : k ≤ cs.length := Nat.le_of_succ_le_succ htaken.le
        obtain ⟨word, rest, rfl, rfl⟩ : ∃ word rest, cs = word ++ rest ∧ word.length = k :=
          ⟨cs.take k, cs.drop k, (List.take_append_drop k cs).symm, List.length_take_of_le hk⟩
        rcases ih rest.length (by simp) (offset + bytes (c :: word)) rest rfl with
          ⟨ts, h⟩ | ⟨front, d, rest, ts, reach, rfl, h, hd, hstuck⟩
        · have hread : Token.read (c :: word ++ (rest ++ [])) = .token t (c :: word).length := by
            rw [List.append_nil]
            exact hread
          exact .inl ⟨_, .token hblank hread h⟩
        · refine .inr ⟨c :: word ++ front, d, rest, _, reach, by simp, .token hblank hread h, hd, hstuck⟩
      · exact .inr ⟨[], c, cs, [], reach, rfl, .nil offset, hblank, hread⟩

section Scan

variable {code : Slice} {ts : List (Token × Span)}

theorem Lexed.scan (h : Lexed [] code.start code.chars ts) : Token.scan code = .ok ts := by
  have hscan := h.scanFrom
  rwa [List.append_nil, Token.scanFrom, Except.map, List.append_nil] at hscan

theorem Lexed.scan_stuck {front rest : List Char} {c : Char} {reach : Nat}
    (h : Lexed (c :: rest) code.start front ts) (hchars : code.chars = front ++ c :: rest)
    (hblank : isBlank c = false) (hread : Token.read (c :: rest) = .stuck reach) :
    Token.scan code =
      .error ((⟨code.start + bytes front, c :: rest⟩ : Slice).drop reach).head := by
  rw [Token.scan, hchars, h.scanFrom, Token.scanFrom]
  simp only [hblank, hread]
  rfl

/-- A scan gives the tokens of the walk over the whole text. -/
theorem scan_eq_ok_iff : Token.scan code = .ok ts ↔ Lexed [] code.start code.chars ts := by
  refine ⟨fun hscan => ?_, Lexed.scan⟩
  rcases lexed_or_stuck code.start code.chars with
    ⟨us, h⟩ | ⟨front, c, rest, us, reach, hchars, h, hblank, hread⟩
  · cases hscan.symm.trans h.scan
    exact h
  · cases hscan.symm.trans (h.scan_stuck hchars hblank hread)

/-- A scan fails where the walk cannot go on. -/
theorem stuck_of_scan {span : Span} (hscan : Token.scan code = .error span) :
    ∃ front c rest ts reach, code.chars = front ++ c :: rest ∧ Lexed (c :: rest) code.start front ts ∧
      isBlank c = false ∧ Token.read (c :: rest) = .stuck reach ∧
      span = ((⟨code.start + bytes front, c :: rest⟩ : Slice).drop reach).head := by
  rcases lexed_or_stuck code.start code.chars with
    ⟨us, h⟩ | ⟨front, c, rest, us, reach, hchars, h, hblank, hread⟩
  · cases hscan.symm.trans h.scan
  · cases hscan.symm.trans (h.scan_stuck hchars hblank hread)
    exact ⟨front, c, rest, us, reach, hchars, h, hblank, hread, rfl⟩

end Scan

/-! ### Cuts -/

section Cuts

variable {behind : List Char} {offset : Nat} {cs : List Char} {ts us mid : List (Token × Span)}

/-- A text may be cut in front of any of its tokens. -/
theorem Lexed.split (h : Lexed behind offset cs (ts ++ us)) (hus : us ≠ []) :
    ∃ front back, cs = front ++ back ∧ Lexed (back ++ behind) offset front ts ∧
      Lexed behind (offset + bytes front) back us ∧ BeginsAt (offset + bytes front) us := by
  generalize hall : ts ++ us = all at h
  induction h generalizing ts with
  | nil => exact absurd (List.append_eq_nil_iff.mp hall).2 hus
  | @blank offset c cs all hblank _ ih =>
    obtain ⟨front, back, rfl, hfront, hback, hbegins⟩ := ih hall
    refine ⟨c :: front, back, rfl, .blank hblank hfront, ?_⟩
    rw [bytes_cons, ← Nat.add_assoc]
    exact ⟨hback, hbegins⟩
  | @token offset c word cs t all hblank hread h ih =>
    cases ts with
    | nil =>
      obtain rfl : us = _ := hall
      exact ⟨[], c :: word ++ cs, rfl, .nil offset, .token hblank hread h, .cons⟩
    | cons entry ts =>
      obtain ⟨rfl, htail⟩ := List.cons.inj hall
      obtain ⟨front, back, rfl, hfront, hback, hbegins⟩ := ih htail
      refine ⟨c :: word ++ front, back, by simp, .token hblank ?_ hfront, ?_⟩
      · rwa [List.append_assoc] at hread
      · rw [bytes_append, ← Nat.add_assoc]
        exact ⟨hback, hbegins⟩

/-- A text may be cut behind any of its tokens. -/
theorem Lexed.trim (h : Lexed behind offset cs (ts ++ us)) (hts : ts ≠ []) :
    ∃ front back, cs = front ++ back ∧ Lexed (back ++ behind) offset front ts ∧
      Lexed behind (offset + bytes front) back us ∧ EndsAt (offset + bytes front) ts := by
  generalize hall : ts ++ us = all at h
  induction h generalizing ts with
  | nil => exact absurd (List.append_eq_nil_iff.mp hall).1 hts
  | @blank offset c cs all hblank _ ih =>
    obtain ⟨front, back, rfl, hfront, hback, hends⟩ := ih hts hall
    refine ⟨c :: front, back, rfl, .blank hblank hfront, ?_⟩
    rw [bytes_cons, ← Nat.add_assoc]
    exact ⟨hback, hends⟩
  | @token offset c word cs t all hblank hread hcs ih =>
    obtain ⟨entry, ts, rfl⟩ := List.exists_cons_of_ne_nil hts
    obtain ⟨rfl, htail⟩ := List.cons.inj hall
    by_cases hnil : ts = []
    · subst hnil
      obtain rfl : us = all := htail
      have hword : Lexed (cs ++ behind) offset (c :: word ++ []) _ := .token hblank hread (.nil _)
      rw [List.append_nil] at hword
      exact ⟨c :: word, cs, rfl, hword, hcs, .concat []⟩
    · obtain ⟨front, back, rfl, hfront, hback, hends⟩ := ih hnil htail
      refine ⟨c :: word ++ front, back, by simp, .token hblank ?_ hfront, ?_⟩
      · rwa [List.append_assoc] at hread
      · rw [bytes_append, ← Nat.add_assoc]
        exact ⟨hback, hends.cons _⟩

/-- Only an empty row of tokens is read from an empty text. -/
theorem Lexed.ne_nil (h : Lexed behind offset cs ts) (hts : ts ≠ []) : cs ≠ [] := by
  cases h with
  | nil => exact absurd rfl hts
  | _ => exact List.cons_ne_nil _ _

/-- Neighbouring tokens are what the text from the first of them to the last is scanned to, and where
other tokens stand beside them, so does other text. -/
theorem exists_cut {code : Slice} (hscan : Token.scan code = .ok (ts ++ (mid ++ us))) (hmid : mid ≠ []) :
    ∃ front text back, code.chars = front ++ (text ++ back) ∧
      (ts ≠ [] → front ≠ []) ∧ (us ≠ [] → back ≠ []) ∧
      Token.scan ⟨code.start + bytes front, text⟩ = .ok mid ∧
      Covers ⟨code.start + bytes front, code.start + bytes front + bytes text⟩ mid := by
  obtain ⟨front, rest, hchars, hfront, hrest, hbegins⟩ :=
    (scan_eq_ok_iff.mp hscan).split (by simp [hmid])
  obtain ⟨text, back, rfl, htext, hback, hends⟩ := hrest.trim hmid
  refine ⟨front, text, back, hchars, hfront.ne_nil, hback.ne_nil,
    scan_eq_ok_iff.mpr (htext.softened (.nil _)), ?_, hends⟩
  obtain ⟨t, span, others, heq, hstart⟩ := hbegins
  obtain ⟨entry, mid, rfl⟩ := List.exists_cons_of_ne_nil hmid
  cases heq
  exact ⟨t, span, mid, rfl, hstart⟩

end Cuts

end Stencil
