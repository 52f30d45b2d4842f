/-
Stencil/Proofs/Arguments.lean

Argument lists.  The text of an argument list is read between two brackets that do not
belong to it, so the question is whether the text can do anything with these brackets but
stand between them.  It cannot: the tokens of a list of items are balanced
(`Makes.balanced`), the first and the last token are always the brackets that were put
there (`Lexed.of_opener`, `Lexed.of_closer`), and only an array literal begins with a
square bracket and is read as an array (`Makes.items_of_array`).

So what is read is a list of items that are read by themselves, each at its place.  The main
result, `readArguments_iff_list`, says this of every text, and that a text fails which
closes a bracket that it has not opened.
-/
import Stencil.Proofs.DirectiveForms
import Stencil.Proofs.TokenTiling

namespace Stencil

open Text

variable {ts us : List (Token × Span)} {t : Token} {span first last : Span} {b : Bracket}

/-! ### Balanced tokens -/

/-- How often the token stands in the row. -/
def tally (t : Token) (ts : List (Token × Span)) : Nat := (ts.map Prod.fst).count t

@[simp] theorem tally_nil (t : Token) : tally t [] = 0 := rfl

@[simp] theorem tally_cons (t t' : Token) (span : Span) (ts : List (Token × Span)) :
    tally t ((t', span) :: ts) = tally t ts + if t' = t then 1 else 0 := by
  simp [tally, List.count_cons]

@[simp] theorem tally_append (t : Token) (ts us : List (Token × Span)) :
    tally t (ts ++ us) = tally t ts + tally t us := by
  simp [tally]

/-- What is closed in the row was opened before that in the row, and what is opened there is closed. -/
structure Balanced (ts : List (Token × Span)) : Prop where
  opened : ∀ b front, front <+: ts → tally (.closing b) front ≤ tally (.opening b) front
  closed : ∀ b, tally (.closing b) ts = tally (.opening b) ts

/-- Somewhere in the row a bracket is closed that was not opened there. -/
def Overcloses (ts : List (Token × Span)) : Prop :=
  ∃ b front, front <+: ts ∧ tally (.opening b) front < tally (.closing b) front

/-- A token that is no bracket. -/
def Token.Plain (t : Token) : Prop := ∀ b, t ≠ .opening b ∧ t ≠ .closing b

namespace Balanced

theorem not_overcloses (h : Balanced ts) : ¬ Overcloses ts := by
  rintro ⟨b, front, hfront, hless⟩
  exact Nat.not_lt.mpr (h.opened b front hfront) hless

theorem nil : Balanced [] where
  opened b front hfront := by simp [List.prefix_nil.mp hfront]
  closed _ := rfl

theorem append (h : Balanced ts) (h' : Balanced us) : Balanced (ts ++ us) where
  opened b front hfront := by
    obtain ⟨rest, hrest⟩ := hfront
    rcases List.append_eq_append_iff.mp hrest with ⟨left, hts, -⟩ | ⟨left, rfl, hus⟩
    · exact h.opened b front ⟨left, hts.symm⟩
    · have hleft := h'.opened b left ⟨rest, hus.symm⟩
      have hclosed := h.closed b
      simp only [tally_append]
      omega
  closed b := by simp only [tally_append, h.closed b, h'.closed b]

theorem cons (ht : t.Plain) (h : Balanced ts) : Balanced ((t, span) :: ts) where
  opened b front hfront := by
    rcases List.prefix_cons_iff.mp hfront with rfl | ⟨inner, rfl, hinner⟩
    · exact Nat.le_refl _
    · simpa [(ht b).1, (ht b).2] using h.opened b inner hinner
  closed b := by simpa [(ht b).1, (ht b).2] using h.closed b

theorem single (ht : t.Plain) : Balanced [(t, span)] := .cons ht .nil

theorem bracketed (b : Bracket) (h : Balanced ts) :
    Balanced ((.opening b, first) :: (ts ++ [(.closing b, last)])) where
  opened b' front hfront := by
    rcases List.prefix_cons_iff.mp hfront with rfl | ⟨inner, rfl, hinner⟩
    · exact Nat.le_refl _
    rcases List.prefix_concat_iff.mp hinner with rfl | hinner
    · have hclosed := h.closed b'
      simp
      omega
    · have hopened := h.opened b' inner hinner
      simp
      omega
  closed b' := by
    have hclosed := h.closed b'
    simp
    omega

end Balanced

theorem Token.plain_symbol (s : Symbol) : (Token.symbol s).Plain := fun _ => ⟨nofun, nofun⟩

theorem Token.plain_name (n : String) : (Token.name n).Plain := fun _ => ⟨nofun, nofun⟩

theorem Token.plain_word (w : Word) : (Token.word w).Plain := fun _ => ⟨nofun, nofun⟩

/-- A token that stands for something is plain where no bracket stands for anything. -/
theorem Token.plain_of_some {α : Type} {f : Token → Option α} {a : α} (h : f t = some a)
    (hopening : ∀ b, f (.opening b) = none) (hclosing : ∀ b, f (.closing b) = none) : t.Plain := by
  refine fun b => ⟨?_, ?_⟩
  · rintro rfl
    rw [hopening] at h
    cases h
  · rintro rfl
    rw [hclosing] at h
    cases h

open Token in
/-- Brackets are balanced in every phrase. -/
theorem Makes.balanced {phrase : Phrase} (h : Makes phrase ts) : Balanced ts := by
  have hkey {t : Token} {key : String} (h : keyOfToken? t = some key) : t.Plain :=
    plain_of_some h (fun _ => rfl) fun _ => rfl
  induction h with
  | literal ht => exact .single (plain_of_some ht (fun _ => rfl) fun _ => rfl)
  | identifier => exact .single (plain_name _)
  | group _ ih | array _ ih | object _ ih => exact ih.bracketed _
  | member _ ih => exact ih.append (.cons (plain_symbol _) (.single (plain_name _)))
  | index _ _ ih ihi => exact ih.append (ihi.bracketed _)
  | call _ _ ih ihes => exact ih.append (ihes.bracketed _)
  | unary ht _ _ ih => exact .cons (plain_of_some ht (fun _ => rfl) fun _ => rfl) ih
  | binary ht _ _ _ ihl ihr => exact ihl.append (.cons (plain_of_some ht (fun _ => rfl) fun _ => rfl) ihr)
  | conditional _ _ _ ihc iha ihb =>
    exact ihc.append (.cons (plain_symbol _) (iha.append (.cons (plain_symbol _) ihb)))
  | assign _ ih => exact .cons (plain_name _) (.cons (plain_symbol _) ih)
  | noItems | noEntries | noStatements => exact .nil
  | leadingItem _ _ ihes ihx => exact ihes.append (ihx.append (.single (plain_symbol _)))
  | lastItem _ _ ihes ihx => exact ihes.append ihx
  | leadingEntry _ ht _ ihes ihx =>
    exact ihes.append (.cons (hkey ht)
      (.cons (plain_symbol _) (ihx.append (.single (plain_symbol _)))))
  | lastEntry _ ht _ ihes ihx =>
    exact ihes.append (.cons (hkey ht) (.cons (plain_symbol _) ihx))
  | itemsEnd _ ih | entriesEnd _ ih | programEnded _ ih | programDeclared _ ih => exact ih
  | semicolon _ ih | comma _ ih => exact ih.append (.single (plain_symbol _))
  | declareWord _ ih => exact ih.append (.single (plain_word _))
  | declareName _ ih => exact ih.append (.single (plain_name _))
  | declareValue _ _ ih ihx => exact ih.append (.cons (plain_name _) (.cons (plain_symbol _) ihx))
  | evaluate _ _ ih ihx => exact ih.append ihx

/-! ### Semicolons -/

/-- The phrase is an expression or a part of one. -/
def Phrase.IsPart : Phrase → Prop
  | .operand .. | .leadingItems _ | .items _ | .leadingEntries _ | .entries _ => True
  | .ended _ | .declaring _ | .declared _ | .program _ => False

/-- No semicolon stands in an expression. -/
theorem Makes.unended {phrase : Phrase} (h : Makes phrase ts) (hpart : phrase.IsPart) :
    ∀ span, (.symbol .semicolon, span) ∉ ts := by
  have hkeys {t : Token} {key : String} (hkey : keyOfToken? t = some key) : .symbol .semicolon ≠ t := by
    rintro rfl
    cases hkey
  intro span
  -- only phrases that are no part of an expression have a semicolon; the others have none of their own
  induction h with
  | literal hvalue =>
    simp only [List.mem_singleton, Prod.mk.injEq, not_and]
    rintro rfl
    cases hvalue
  | unary ht _ _ ih =>
    simp only [List.mem_cons, Prod.mk.injEq, not_or, not_and]
    refine ⟨?_, ih trivial⟩
    rintro rfl
    cases ht
  | binary ht _ _ _ ihl ihr =>
    simp only [List.mem_append, List.mem_cons, Prod.mk.injEq, not_or, not_and]
    refine ⟨ihl trivial, ?_, ihr trivial⟩
    rintro rfl
    cases ht
  | leadingEntry _ hkey _ ihes ihx => simp [ihes trivial, ihx trivial, hkeys hkey]
  | lastEntry _ hkey _ ihes ihx => simp [ihes trivial, ihx trivial, hkeys hkey]
  | identifier | noItems | noEntries => simp
  | group _ ih | array _ ih | object _ ih | member _ ih | assign _ ih => simp [ih trivial]
  | index _ _ ih ih' | call _ _ ih ih' | leadingItem _ _ ih ih' | lastItem _ _ ih ih' =>
    simp [ih trivial, ih' trivial]
  | conditional _ _ _ ihc iha ihb => simp [ihc trivial, iha trivial, ihb trivial]
  | itemsEnd _ ih | entriesEnd _ ih => exact ih trivial
  | _ => cases hpart

/-! ### Items from the first to the last -/

/-- The tokens of items, from the first to the last, with commas between them and maybe one behind the
last. -/
inductive Listed : List Expression → List (Token × Span) → Prop
  | none : Listed [] []
  | last {x : Operand} {ts : List (Token × Span)} : Makes (.operand 0 x) ts → Listed [x.value] ts
  | next {x : Operand} {es : List Expression} {ts us : List (Token × Span)} {comma : Span} :
      Makes (.operand 0 x) ts → Listed es us →
      Listed (x.value :: es) (ts ++ (.symbol .comma, comma) :: us)

/-- Items with a comma behind each may stand in front of any others. -/
theorem Makes.listed_append {front es : List Expression} (h : Makes (.leadingItems front) ts)
    (hes : Listed es us) : Listed (front ++ es) (ts ++ us) := by
  generalize hphrase : Phrase.leadingItems front = phrase at h
  induction h generalizing front es us with
  | noItems =>
    cases hphrase
    exact hes
  | @leadingItem items x ts vs comma _ hx ih =>
    cases hphrase
    have hnext : Listed (x.value :: es) (vs ++ (.symbol .comma, comma) :: us) := .next hx hes
    simpa using ih hnext rfl
  | _ => cases hphrase

theorem Makes.listed {es : List Expression} (h : Makes (.items es) ts) : Listed es ts := by
  cases h with
  | itemsEnd h =>
    have hnone := h.listed_append .none
    rwa [List.append_nil, List.append_nil] at hnone
  | lastItem h hx => exact h.listed_append (.last hx)

/-! ### Taking texts apart -/

namespace Lexed

variable {behind cs : List Char} {offset : Nat}

theorem allBlank (h : Lexed behind offset cs []) : AllBlank cs := by
  generalize hts : ([] : List (Token × Span)) = ts at h
  induction h with
  | nil => exact allBlank_nil
  | blank hblank _ ih => exact List.forall_mem_cons.mpr ⟨hblank, ih hts⟩
  | token => cases hts

/-- A character that is a token whatever stands behind it is the first token of its text. -/
theorem of_sign {c : Char} {t : Token} (hread : ∀ cs, Token.read (c :: cs) = .token t 1)
    (hblank : isBlank c = false) (h : Lexed behind offset (c :: cs) ts) :
    ∃ span us, ts = (t, span) :: us ∧ Lexed behind (offset + c.utf8Size) cs us := by
  generalize htext : c :: cs = text at h
  cases h with
  | nil => cases htext
  | blank hc =>
    obtain ⟨rfl, -⟩ := List.cons.inj htext
    rw [hblank] at hc
    cases hc
  | @token _ _ word _ _ _ _ hword h =>
    obtain ⟨rfl, rfl⟩ := List.cons.inj htext
    rw [List.cons_append, hread] at hword
    obtain ⟨rfl, hlength⟩ := Reading.token.inj hword
    obtain rfl := List.eq_nil_of_length_eq_zero (Nat.succ.inj hlength).symm
    exact ⟨_, _, rfl, h⟩

theorem of_opener (h : Lexed behind offset (b.opener :: cs) ts) :
    ∃ span us, ts = (.opening b, span) :: us ∧ Lexed behind (offset + 1) cs us := by
  have hsize : offset + 1 = offset + b.opener.utf8Size := by cases b <;> rfl
  rw [hsize]
  exact h.of_sign (fun cs => by cases b <;> rfl) (by cases b <;> rfl)

/-- A token at whose first character the text begins is read off the front of the text. -/
theorem of_begins {s : Symbol} (h : Lexed behind offset cs ((.symbol s, span) :: us))
    (hstart : span.start = offset) :
    ∃ rest, cs = s.spelling ++ rest ∧ Lexed behind (offset + bytes s.spelling) rest us := by
  generalize hts : (Token.symbol s, span) :: us = ts at h
  cases h with
  | nil => cases hts
  | @blank _ c _ _ _ h =>
    -- the token would stand behind the blank
    have hmem : (Token.symbol s, span) ∈ ts := hts ▸ List.mem_cons_self
    obtain ⟨front, _, word, back, -, hspan, -⟩ := h.of_mem hmem
    have hsize := c.utf8Size_pos
    rw [hspan] at hstart
    simp only at hstart
    omega
  | token _ hread h =>
    cases hts
    obtain ⟨hworded, -⟩ := Token.worded_of_read (List.cons_ne_nil _ _) hread
    generalize hword : _ :: _ = word at h hworded
    cases hworded
    exact ⟨_, rfl, h⟩

end Lexed

/-- A closing bracket is the last character of no token but itself. -/
theorem Token.Worded.of_closer {front : List Char} (h : Worded (front ++ [b.closer]) t) :
    front = [] ∧ t = .closing b := by
  have hmem : b.closer ∈ front ++ [b.closer] := by simp
  generalize hword : front ++ [b.closer] = word at h hmem
  have hlast : word.getLast? = some b.closer := by rw [← hword, List.getLast?_concat]
  cases h with
  | opening b' => cases b <;> cases b' <;> cases hlast
  | closing b' =>
    have hone : front ++ [b.closer] = [] ++ [b'.closer] := hword
    obtain ⟨rfl, hb⟩ := List.append_inj' hone rfl
    cases b <;> cases b' <;> first | exact ⟨rfl, rfl⟩ | cases hb
  | number x hparts =>
    have hpart := hparts _ hmem
    cases b <;> cases hpart
  | @text quote raw hquote =>
    rw [← List.cons_append, List.getLast?_concat] at hlast
    rcases hquote with rfl | rfl <;> cases b <;> cases hlast
  | name hparts | word _ hparts =>
    have hplain : isNamePart b.closer = false := by cases b <;> decide +kernel
    rw [hparts _ hmem] at hplain
    cases hplain
  | symbol s => cases b <;> cases s <;> cases hlast

/-- A closing bracket at the end of a text is its last token. -/
theorem Lexed.of_closer {behind cs : List Char} {offset : Nat}
    (h : Lexed behind offset (cs ++ [b.closer]) ts) :
    ∃ us span, ts = us ++ [(.closing b, span)] ∧ Lexed (b.closer :: behind) offset cs us := by
  generalize htext : cs ++ [b.closer] = text at h
  induction h generalizing cs with
  | nil => simp at htext
  | @blank _ c _ _ hblank _ ih =>
    cases cs with
    | nil =>
      obtain ⟨rfl, -⟩ := List.cons.inj htext
      cases b <;> cases hblank
    | cons d cs =>
      obtain ⟨rfl, htail⟩ := List.cons.inj htext
      obtain ⟨us, span, rfl, h⟩ := ih htail
      exact ⟨us, span, rfl, .blank hblank h⟩
  | @token offset c word rest t ts hblank hread h ih =>
    rcases List.eq_nil_or_concat rest with rfl | ⟨rest, d, rfl⟩
    · -- the bracket is the end of the last word, so it is all of it
      have hworded := (Token.worded_of_read (List.cons_ne_nil _ _) hread).1
      rw [List.append_nil] at htext
      rw [← htext] at hworded
      obtain ⟨rfl, rfl⟩ := hworded.of_closer
      cases h
      exact ⟨[], _, rfl, .nil _⟩
    · rw [List.concat_eq_append, ← List.append_assoc] at htext
      obtain ⟨rfl, heq⟩ := List.append_inj' htext rfl
      obtain rfl : b.closer = d := List.singleton_inj.mp heq
      obtain ⟨us, span, rfl, hrest⟩ := ih (List.concat_eq_append ..).symm
      refine ⟨_ :: us, span, rfl, .token hblank ?_ hrest⟩
      simpa using hread

/-! ### Between the brackets -/

/-- Among what begins with a square bracket only an array literal is read as an array. -/
theorem Makes.items_of_array {level : Nat} {x : Operand} {es : List Expression}
    (h : Makes (.operand level x) ((.opening .square, first) :: ts)) (hx : x.value = .array span es) :
    ∃ us last, ts = us ++ [(.closing .square, last)] ∧ Makes (.items es) us := by
  generalize hall : (Token.opening .square, first) :: ts = all at h
  cases h with
  | array h =>
    cases hx
    obtain ⟨-, rfl⟩ := List.cons.inj hall
    exact ⟨_, _, rfl, h⟩
  | group => cases hall
  | _ => cases hx

variable {text : List Char} {offset : Nat} {e : Expression} {es : List Expression}

/-- The text at the offset is read as the expression, which needs no semicolon. -/
structure ReadsAlone (offset : Nat) (text : List Char) (e : Expression) : Prop where
  read : readExpression ⟨offset, text⟩ = .ok e
  unended : ∀ ts, Token.scan ⟨offset, text⟩ = .ok ts → ∀ span, (.symbol .semicolon, span) ∉ ts

theorem ReadsAlone.of_makes {x : Operand} (h : Lexed [] offset text ts) (hx : Makes (.operand 0 x) ts) :
    ReadsAlone offset text x.value where
  read := readExpression_of_makes h.scan hx
  unended us hus := by
    obtain rfl : ts = us := Except.ok.inj (h.scan.symm.trans hus)
    exact hx.unended trivial

/-- It is the code of an expression, which may be moved to any other place. -/
theorem ReadsAlone.writesCode (h : ReadsAlone offset text e) : WritesCode offset text e := by
  have hplace : (⟨0, text⟩ : Slice).moved offset = ⟨offset, text⟩ := rfl
  have hread := h.read
  rw [← hplace, readExpression_moved] at hread
  rcases hcode : readExpression ⟨0, text⟩ with fault | code
  · rw [hcode] at hread
    cases hread
  rw [hcode] at hread
  obtain rfl : code.moved offset = e := Except.ok.inj hread
  have hcodeOf : IsCodeOf text code := ⟨hcode, fun ts hscan span hmem => ?_⟩
  · have hwrites : WritesCode offset ([] ++ (text ++ [])) (code.moved (offset + bytes [])) :=
      .intro allBlank_nil allBlank_nil hcodeOf
    simpa using hwrites
  · have hmoved : Token.scan ⟨offset, text⟩ = .ok (ts.map (movedToken offset)) := by
      rw [← hplace, Token.scan_moved, hscan]
      rfl
    exact h.unended _ hmoved _ (List.mem_map_of_mem hmem)

theorem WritesList.imp {α : Type} {writes writes' : Nat → List Char → α → Prop} {as : List α}
    (himp : ∀ offset text a, writes offset text a → writes' offset text a)
    (h : WritesList writes offset text as) : WritesList writes' offset text as := by
  induction h with
  | none hgap => exact .none hgap
  | last h => exact .last (himp _ _ _ h)
  | next h _ ih => exact .next (himp _ _ _ h) ih

/-- Tokens of items are read off items with commas between them. -/
theorem Listed.writesList (h : Listed es ts) (hlexed : Lexed [] offset text ts) :
    WritesList ReadsAlone offset text es := by
  induction h generalizing offset text with
  | none => exact .none hlexed.allBlank
  | last hx => exact .last (.of_makes hlexed hx)
  | next hx _ ih =>
    obtain ⟨front, back, rfl, hfront, hback, hbegins⟩ := hlexed.split (List.cons_ne_nil _ _)
    obtain ⟨t, span, us, heq, hstart⟩ := hbegins
    cases heq
    obtain ⟨rest, rfl, hrest⟩ := hback.of_begins hstart
    exact .next (.of_makes (hfront.softened (.nil _)) hx) (ih hrest)

/-- A text that is read as arguments is a list of items. -/
theorem writesList_of_readArguments (hoffset : 0 < offset) (h : readArguments ⟨offset, text⟩ = .ok es) :
    WritesList ReadsAlone offset text es := by
  obtain ⟨offset, rfl⟩ := Nat.exists_eq_succ_of_ne_zero (Nat.ne_of_gt hoffset)
  rw [readArguments] at h
  split at h
  · next hblank =>
    cases h
    exact .none (List.all_eq_true.mp hblank)
  rcases hread : readExpression ⟨offset, '[' :: text ++ [']']⟩ with fault | whole
  · rw [Nat.succ_sub_one, hread] at h
    cases h
  rw [Nat.succ_sub_one, hread] at h
  cases whole with
  | array span items =>
    obtain rfl : items = es := Except.ok.inj h
    obtain ⟨ts, hscan, hmakes⟩ := readStatements_eq_ok_iff.mp (readStatements_of_readExpression hread)
    have hlexed : Lexed [] offset (Bracket.square.opener :: (text ++ [Bracket.square.closer])) ts :=
      scan_eq_ok_iff.mp hscan
    obtain ⟨first, rest, rfl, hrest⟩ := hlexed.of_opener
    obtain ⟨us, last, rfl, hinner⟩ := hrest.of_closer
    -- the two brackets are no semicolons, so there is one statement between them
    obtain ⟨x, hx, hvalue⟩ := hmakes.operand_of_evaluate (by simp) (by simp [List.getLast?_cons])
    obtain ⟨us', last', heq, hitems⟩ := hx.items_of_array hvalue
    obtain ⟨rfl, -⟩ := List.append_inj' heq rfl
    exact hitems.listed.writesList (hinner.softened (.nil _))
  | _ => cases h

/-- The tokens of a list of items are balanced. -/
theorem WritesList.balanced (h : WritesList ReadsAlone offset text es)
    (hscan : Token.scan ⟨offset, text⟩ = .ok ts) : Balanced ts := by
  obtain ⟨us, hlexed, hitems⟩ := (h.imp fun _ _ _ => ReadsAlone.writesCode).lexed severs_nil
  obtain rfl : us = ts := Except.ok.inj (hlexed.scan.symm.trans hscan)
  simpa using (hitems .noItems).balanced

/-- **The brackets around arguments cannot be escaped.**  A text is read as arguments if it is blank or lists
expressions with commas between them, and maybe one behind the last, and then as just these
expressions, each as it is read by itself at its place.  A text that closes a bracket which it has not
opened, as the one that is put in front of it, always fails. -/
theorem readArguments_iff_list (hoffset : 0 < offset) :
    (∀ es, readArguments ⟨offset, text⟩ = .ok es ↔ WritesList ReadsAlone offset text es) ∧
      ∀ ts, Token.scan ⟨offset, text⟩ = .ok ts → Overcloses ts →
        ∃ fault, readArguments ⟨offset, text⟩ = .error fault := by
  have hiff : ∀ es, readArguments ⟨offset, text⟩ = .ok es ↔ WritesList ReadsAlone offset text es :=
    fun es => ⟨writesList_of_readArguments hoffset,
      fun h => (h.imp fun _ _ _ => ReadsAlone.writesCode).readArguments hoffset⟩
  refine ⟨hiff, fun ts hscan hover => ?_⟩
  rcases hread : readArguments ⟨offset, text⟩ with fault | es
  · exact ⟨fault, rfl⟩
  · exact absurd hover (((hiff es).mp hread).balanced hscan).not_overcloses

/-- A list with a comma at its end, and four texts that make expressions or statements together with the
brackets around them. -/
theorem readArguments_iff_list_escapes :
    0 < 5 ∧
    WritesList ReadsAlone 5 "a, f(b),".toList
      [.identifier ⟨5, 6⟩ "a", .call ⟨8, 12⟩ (.identifier ⟨8, 9⟩ "f") [.identifier ⟨10, 11⟩ "b"]] ∧
    ∀ text ∈ ["a] + [b", "a][0", "1]; [2", "];["],
      ∃ fault, readArguments ⟨5, text.toList⟩ = .error fault := by
  have hpos : 0 < 5 := by decide
  refine ⟨hpos, ((readArguments_iff_list hpos).1 _).mp rfl, ?_⟩
  have hover : ∀ text ∈ ["a] + [b", "a][0", "1]; [2", "];["],
      ∃ ts, Token.scan ⟨5, text.toList⟩ = .ok ts ∧ Overcloses ts := by
    simp only [List.forall_mem_cons]
    refine ⟨?_, ?_, ?_, ?_, List.forall_mem_nil _⟩ <;>
      exact ⟨_, rfl, .square, _, List.take_prefix 2 _, by decide⟩
  intro text htext
  obtain ⟨ts, hscan, hts⟩ := hover text htext
  exact (readArguments_iff_list hpos).2 ts hscan hts

end Stencil
