import Mathlib.Data.List.TakeWhile
import CodecForge.Proofs.Text.Characters
import CodecForge.Source.Grammar

/-!
# Identifiers

What a text that is read as an identifier looks like: a character that starts identifiers, and then
such as go on with them, perhaps behind the mark of a raw identifier.  A text of this form that is
no keyword is an identifier, so that identifiers are read again from their own texts, and so is one
of two underscores and characters that go on with identifiers, since no keyword begins so.
-/

namespace CodecForge.Source

open CodecForge.Text

/-! ### Words -/

/-- The characters are those of an identifier without mark. -/
inductive IsWord : List Char → Prop
  | mk {c : Char} {cs : List Char} (hstart : isIdentStart c = true)
      (hcontinue : ∀ x ∈ cs, isIdentContinue x = true) : IsWord (c :: cs)

theorem IsWord.isIdentContinue {w : List Char} (h : IsWord w) :
    ∀ c ∈ w, Text.isIdentContinue c = true := by
  obtain ⟨hstart, hcontinue⟩ := h
  exact List.forall_mem_cons.2 ⟨isIdentContinue_of_isIdentStart hstart, hcontinue⟩

theorem IsWord.exists_cons {w : List Char} (h : IsWord w) :
    ∃ c cs, w = c :: cs ∧ isIdentStart c = true := by
  obtain ⟨hstart, -⟩ := h
  exact ⟨_, _, rfl, hstart⟩

theorem IsWord.isIdentStart {c : Char} {cs : List Char} (h : IsWord (c :: cs)) :
    Text.isIdentStart c = true := by
  obtain ⟨hstart, -⟩ := h
  exact hstart

theorem isWord_of_all {c : Char} {cs : List Char} (hstart : Text.isIdentStart c = true)
    (hcontinue : cs.all Text.isIdentContinue = true) : IsWord (c :: cs) :=
  .mk hstart (List.all_eq_true.1 hcontinue)

theorem IsWord.append {w cs : List Char} (h : IsWord w)
    (hcs : ∀ c ∈ cs, Text.isIdentContinue c = true) : IsWord (w ++ cs) := by
  obtain ⟨hstart, hcontinue⟩ := h
  exact .mk hstart fun x hx => (List.mem_append.1 hx).elim (hcontinue x) (hcs x)

/-- The text is a word, perhaps behind the mark of a raw identifier. -/
def IsName (name : String) : Prop :=
  IsWord name.toList ∨ ∃ w, IsWord w ∧ name.toList = 'r' :: '#' :: w

/-- What stands behind the mark of a raw identifier, if the text has it, is a word with a raw
form. -/
def RawAllowed (name : String) : Prop :=
  ∀ w, name.toList = 'r' :: '#' :: w → String.ofList w ∉ Lexer.neverRaw

theorem IsWord.rawAllowed {name : String} (h : IsWord name.toList) : RawAllowed name := by
  intro w htext
  have hmark := h.isIdentContinue '#' (by simp [htext])
  exact absurd hmark (by decide)

theorem Ident.bare_of_isWord {i : Ident} (h : IsWord i.text.toList) : i.bare = i.text := by
  unfold Ident.bare
  split
  · next name htext =>
    have hmark := h.isIdentContinue '#' (by simp [htext])
    exact absurd hmark (by decide)
  · rfl

theorem Ident.bare_of_mark {i : Ident} {w : List Char} (h : i.text.toList = 'r' :: '#' :: w) :
    i.bare = String.ofList w := by
  unfold Ident.bare
  rw [h]
  rfl

/-- Without the mark, a name is a word. -/
theorem IsName.bare {i : Ident} (h : IsName i.text) : IsWord i.bare.toList := by
  obtain hword | ⟨w, hw, htext⟩ := h
  · rwa [Ident.bare_of_isWord hword]
  · rwa [Ident.bare_of_mark htext, String.toList_ofList]

namespace Lexer

theorem before_append (w rest : List Char) : before (w ++ rest) rest = String.ofList w := by
  simp [before]

theorem afterPlainIdent?_eq_some {s rest : List Char} (h : afterPlainIdent? s = some rest) :
    ∃ w, IsWord w ∧ s = w ++ rest := by
  cases s with
  | nil => cases h
  | cons c s =>
    simp only [afterPlainIdent?, Option.ite_none_right_eq_some, Option.some.injEq] at h
    obtain ⟨hstart, rfl⟩ := h
    refine ⟨c :: s.takeWhile isIdentContinue, .mk hstart fun x hx => ?_, ?_⟩
    · exact List.mem_takeWhile_imp hx
    · rw [List.cons_append, List.takeWhile_append_dropWhile]

theorem after?_eq_some {start : String} {s rest : List Char} (h : after? start s = some rest) :
    s = start.toList ++ rest := by
  unfold after? at h
  split at h
  · next hstarts =>
    cases h
    rw [List.isPrefixOf_iff_prefix, List.prefix_iff_eq_append] at hstarts
    exact hstarts.symm
  · cases h

theorem afterIdent?_eq_some {s rest : List Char} (h : afterIdent? s = some rest) :
    IsName (before s rest) ∧ RawAllowed (before s rest) := by
  unfold afterIdent? at h
  split at h
  · obtain ⟨w, hw, rfl⟩ := afterPlainIdent?_eq_some h
    have hword : IsWord (String.ofList w).toList := by rwa [String.toList_ofList]
    rw [before_append]
    exact ⟨.inl hword, hword.rawAllowed⟩
  · next body hbody =>
    obtain ⟨hrest, hraw⟩ := Option.filter_eq_some_iff.1 h
    obtain ⟨w, hw, rfl⟩ := afterPlainIdent?_eq_some hrest
    rw [after?_eq_some hbody, ← List.append_assoc, before_append]
    refine ⟨.inr ⟨w, hw, by simp⟩, fun w' htext => ?_⟩
    obtain rfl : w = w' := by simpa using htext
    simpa [before_append] using hraw

theorem leaf?_eq_ident {s rest : List Char} {name : String}
    (h : leaf? s = some (.ident name, rest)) : IsName name ∧ RawAllowed name := by
  unfold leaf? at h
  split at h
  · cases h
  · split at h
    · simp only [lifetime?, Option.bind_eq_bind, Option.bind_eq_some_iff] at h
      obtain ⟨body, -, rest', -, h⟩ := h
      split at h <;> cases h
    · split at h
      · split at h <;> cases h
      · split at h
        · cases h
        · obtain ⟨rest', hrest', h⟩ := Option.map_eq_some_iff.1 h
          cases h
          exact afterIdent?_eq_some hrest'

/-! ### Runs -/

/-- The words that stand in the sequence, outside of its groups, are names, and raw ones only
where that is allowed. -/
def NamesWords (ts : Tokens) : Prop :=
  ∀ name, Token.ident name ∈ ts → IsName name ∧ RawAllowed name

theorem docComment?_eq_some {s rest : List Char} {doc : Tokens}
    (h : docComment? s = some (doc, rest)) : ∃ inner comment, doc = docAttribute inner comment := by
  have hkept : ∀ x : Option (Bool × List Char × List Char),
      (x.bind fun y =>
        if noBareCarriage y.2.1 then some (docAttribute y.1 y.2.1, y.2.2) else none) =
          some (doc, rest) → ∃ inner comment, doc = docAttribute inner comment := by
    intro x hx
    obtain ⟨y, -, hy⟩ := Option.bind_eq_some_iff.1 hx
    split at hy
    · cases hy
      exact ⟨y.1, y.2.1, rfl⟩
    · cases hy
  simp only [docComment?, Option.bind_eq_bind] at h
  repeat' split at h
  all_goals exact hkept _ h

theorem namesWords_docAttribute (inner : Bool) (comment : List Char) :
    NamesWords (docAttribute inner comment) := by
  intro name hname
  cases inner <;> simp [docAttribute, Token.brackets] at hname

theorem NamesWords.cons {t : Token} {ts : Tokens}
    (ht : ∀ name, t = .ident name → IsName name ∧ RawAllowed name) (hts : NamesWords ts) :
    NamesWords (t :: ts) := by
  intro name hname
  obtain hname | hname := List.mem_cons.1 hname
  · exact ht name hname.symm
  · exact hts name hname

/-- Every word that is read is a name. -/
theorem namesWords_of_run {fuel : Nat} {stack : List (Delimiter × Tokens)} {acc ts : Tokens}
    {s : List Char} (h : run fuel stack acc s = some ts)
    (hstack : ∀ o ∈ stack, NamesWords o.2) (hacc : NamesWords acc) : NamesWords ts := by
  induction fuel generalizing stack acc s with
  | zero => cases h
  | succ fuel ih =>
    cases s with
    | nil =>
      simp only [run, Option.ite_none_right_eq_some, Option.some.injEq] at h
      obtain ⟨-, rfl⟩ := h
      exact fun name hname => hacc name (List.mem_reverse.1 hname)
    | cons c s =>
      rw [run] at h
      split at h
      · exact ih h hstack hacc
      split at h
      · exact ih h hstack hacc
      split at h
      · next doc rest hdoc =>
        obtain ⟨inner, comment, rfl⟩ := docComment?_eq_some hdoc
        refine ih h hstack fun name hname => ?_
        obtain hname | hname := List.mem_append.1 hname
        · exact namesWords_docAttribute inner comment name (List.mem_reverse.1 hname)
        · exact hacc name hname
      split at h
      · -- a group is opened, and what stands before it is kept
        refine ih h (List.forall_mem_cons.2 ⟨hacc, hstack⟩) fun name hname => ?_
        cases hname
      · -- a group is closed, and is one token behind what stands before it
        split at h
        · next d' outer stack' =>
          split at h
          · rw [List.forall_mem_cons] at hstack
            exact ih h hstack.2 (.cons (fun name hname => nomatch hname) hstack.1)
          · cases h
        · cases h
      · split at h
        · next t rest hleaf =>
          refine ih h hstack (.cons (fun name ht => ?_) hacc)
          subst ht
          exact leaf?_eq_ident hleaf
        · cases h

end Lexer

/-! ### Texts that are read as identifiers -/

theorem run_ident {name : String} (rest : Tokens) (h : isIdentWord name = true) :
    Parser.ident.run (.ident name :: rest) = some (⟨name⟩, rest) := by
  simp [Parser.ident, Parser.peek, Parser.require, beginsIdent, h, Parser.anyWord]

theorem run_ident_of_not {ts : Tokens} (h : beginsIdent ts = false) :
    Parser.ident.run ts = none := by
  have hfailure : (failure : Parser Unit).run ts = none := rfl
  simp [Parser.ident, Parser.peek, Parser.require, h, hfailure]

/-- A word that is no keyword is the identifier of this text, and nothing else is one. -/
theorem all_ident_eq_some_iff {ts : Tokens} {i : Ident} :
    Parser.all Parser.ident ts = some i ↔ ts = [.ident i.text] ∧ isIdentWord i.text = true := by
  unfold Parser.all
  cases hbegins : beginsIdent ts with
  | false =>
    rw [run_ident_of_not hbegins]
    simp only [reduceCtorEq, false_iff, not_and]
    rintro rfl hword
    rw [beginsIdent, hword] at hbegins
    cases hbegins
  | true =>
    match ts, hbegins with
    | .ident name :: rest, hword =>
      rw [run_ident rest hword]
      cases rest with
      | nil =>
        simp only [Option.some.injEq, List.cons.injEq, Token.ident.injEq, and_true]
        constructor
        · rintro rfl
          exact ⟨rfl, hword⟩
        · rintro ⟨rfl, -⟩
          rfl
      | cons t rest => simp

/-- The text of an identifier: a name that is no keyword, and raw only where that is allowed. -/
structure IsIdentText (text : String) : Prop where
  isName : IsName text
  rawAllowed : RawAllowed text
  isIdentWord : isIdentWord text = true

/-- What is read as an identifier has the text of one. -/
theorem isIdentText_of_parse {text : String} {i : Ident} (h : Ident.parse? text = some i) :
    IsIdentText i.text := by
  obtain ⟨ts, hts, hall⟩ := Option.bind_eq_some_iff.1 h
  obtain ⟨rfl, hword⟩ := all_ident_eq_some_iff.1 hall
  have hnames := Lexer.namesWords_of_run hts (by simp) (fun name hname => nomatch hname)
  obtain ⟨hname, hraw⟩ := hnames i.text List.mem_cons_self
  exact ⟨hname, hraw, hword⟩

theorem isName_of_parse {text : String} {i : Ident} (h : Ident.parse? text = some i) :
    IsName i.text :=
  (isIdentText_of_parse h).isName

/-! ### Texts that begin like identifiers -/

namespace Lexer

variable {fuel : Nat} {stack : List (Delimiter × Tokens)} {acc : Tokens} {t : Token} {c : Char}
  {w cs rest : List Char}

/-- Where no blank, no comment and no bracket begins, one token is read. -/
theorem run_of_leaf (hblank : isBlank c = false) (hslash : c ≠ '/') (hopens : opens? c = none)
    (hcloses : closes? c = none) (hleaf : leaf? (c :: cs) = some (t, rest)) :
    run (fuel + 1) stack acc (c :: cs) = run fuel stack (t :: acc) rest := by
  have hcomment : afterComment? (c :: cs) = none := by
    simp [afterComment?, startsWith, hslash.symm]
  have hdoc : docComment? (c :: cs) = none := by
    simp [docComment?, startsWith, hslash.symm]
  rw [run]
  simp [hblank, hcomment, hdoc, hleaf, hopens, hcloses]

theorem run_of_isIdentStart (hc : isIdentStart c = true)
    (hleaf : leaf? (c :: cs) = some (t, rest)) :
    run (fuel + 1) stack acc (c :: cs) = run fuel stack (t :: acc) rest := by
  refine run_of_leaf ?_ (ne_of_isIdentStart hc (by decide)) ?_ ?_ hleaf
  · rw [← Bool.not_eq_true]
    exact fun hblank => absurd hc (by rw [isIdentStart_of_isBlank hblank]; decide)
  · unfold opens?
    split <;> first | rfl | exact absurd hc (by decide)
  · unfold closes?
    split <;> first | rfl | exact absurd hc (by decide)

theorem afterInteger?_of_isIdentStart (hc : isIdentStart c = true) :
    afterInteger? (c :: cs) = none := by
  have hzero : c ≠ '0' := ne_of_isIdentStart hc (by decide)
  have hdigits : afterDigits? 10 true (c :: cs) = none := by
    unfold afterDigits?
    split
    · rfl
    · split
      · next d hd =>
        have hten := ten_le_of_hexDigit? hc hd
        rw [if_neg (by omega), Bool.or_true, if_pos rfl]
      · rfl
  unfold afterInteger?
  split <;> simp_all

theorem startsMark_of_isIdentStart (hc : isIdentStart c = true) : startsMark (c :: cs) = false := by
  have hmarks : ("~!@#$%^&*-=+|;:,<.>/?\x27".toList.all fun x => !isIdentStart x) = true := by
    decide
  have hnot : ¬ c ∈ "~!@#$%^&*-=+|;:,<.>/?\x27".toList := fun hmem => by
    simpa [hc] using List.all_eq_true.1 hmarks c hmem
  simp only [startsMark, List.head?_cons, Option.any_some, List.contains_eq_mem, hnot,
    decide_false, Bool.and_false]

/-- What begins as identifiers do and opens no literal of text is an identifier. -/
theorem leaf?_of_isIdentStart (hc : isIdentStart c = true)
    (hstring : afterString? (c :: cs) = none) (hchar : afterChar? (c :: cs) = none)
    (hopenings : literalOpenings.any (startsWith (c :: cs)) = false) :
    leaf? (c :: cs) =
      (afterIdent? (c :: cs)).map fun rest => (.ident (before (c :: cs) rest), rest) := by
  have hfloat : afterFloat? (c :: cs) = none := by
    simp [afterFloat?, not_isDigit_of_isIdentStart hc]
  have hliteral : afterLiteral? (c :: cs) = none := by
    simp [afterLiteral?, hstring, hchar, hfloat, afterInteger?_of_isIdentStart hc]
  have hquote : startsWith (c :: cs) "\x27" = false := by
    have hne : '\x27' ≠ c := (ne_of_isIdentStart hc (by decide)).symm
    have hstart : "\x27".toList = ['\x27'] := rfl
    rw [startsWith, hstart, List.isPrefixOf_cons_cons, beq_eq_false_iff_ne.2 hne, Bool.false_and]
  simp only [leaf?, hliteral, hquote, startsMark_of_isIdentStart hc, hopenings,
    Bool.false_eq_true, if_false]

/-! ### Words -/

theorem afterPlainIdent?_word (hw : IsWord w) (hrest : atWordEnd rest = true) :
    afterPlainIdent? (w ++ rest) = some rest := by
  obtain ⟨hstart, hcontinue⟩ := hw
  rw [List.cons_append, afterPlainIdent?, if_pos hstart, List.dropWhile_append_of_pos hcontinue]
  cases rest with
  | nil => rfl
  | cons x rest =>
    have hx : isIdentContinue x = false := by simpa [atWordEnd] using hrest
    rw [List.dropWhile_cons, hx]
    rfl

theorem before_nil (w : List Char) : before w [] = String.ofList w := by
  simpa using before_append w []

theorem rawOpening_of_isIdentContinue (h : ∀ x ∈ w, isIdentContinue x = true) :
    rawOpening w = none := by
  unfold rawOpening
  split
  · exact absurd (h '"' List.mem_cons_self) (by decide)
  · exact absurd (h '#' List.mem_cons_self) (by decide)
  · rfl

/-- No text that holds another character begins a word. -/
theorem startsWith_of_isIdentContinue {start : String} (h : ∀ x ∈ w, isIdentContinue x = true)
    (hother : (start.toList.any fun x => !isIdentContinue x) = true) :
    startsWith w start = false := by
  rw [← Bool.not_eq_true, startsWith, List.isPrefixOf_iff_prefix]
  obtain ⟨x, hx, hother⟩ := List.any_eq_true.1 hother
  intro hstarts
  rw [h x (hstarts.subset hx)] at hother
  cases hother

/-- A word that stands alone is one token. -/
theorem leaf?_word (hw : IsWord w) : leaf? w = some (.ident (String.ofList w), []) := by
  have hcontinue := hw.isIdentContinue
  have hquote : '"' ∉ w := fun hmem => absurd (hcontinue _ hmem) (by decide)
  have htick : '\x27' ∉ w := fun hmem => absurd (hcontinue _ hmem) (by decide)
  have hplain : afterPlainIdent? w = some [] := by
    simpa using @afterPlainIdent?_word w [] hw rfl
  have hstring : afterString? w = none := by
    simp only [afterString?, Option.map_eq_none_iff]
    split <;> simp_all [rawOpening_of_isIdentContinue]
  have hchar : afterChar? w = none := by
    simp only [afterChar?]
    split <;> simp_all
  have hopenings : literalOpenings.any (startsWith w) = false := by
    have hothers : ∀ o ∈ literalOpenings, (o.toList.any fun x => !isIdentContinue x) = true := by
      decide
    exact List.any_eq_false.2 fun o ho => by
      simp [startsWith_of_isIdentContinue hcontinue (hothers o ho)]
  have hmark : after? "r#" w = none := by
    have hno := @startsWith_of_isIdentContinue w "r#" hcontinue (by decide)
    rw [startsWith] at hno
    rw [after?, hno]
    rfl
  obtain ⟨hstart, -⟩ := hw
  rw [leaf?_of_isIdentStart hstart hstring hchar hopenings, afterIdent?, hmark]
  simp only [hplain, Option.map_some, before_nil]

/-- A word behind the mark of raw identifiers is one token with it. -/
theorem leaf?_raw (hw : IsWord w) (hraw : String.ofList w ∉ neverRaw) :
    leaf? ('r' :: '#' :: w) = some (.ident (String.ofList ('r' :: '#' :: w)), []) := by
  have hplain : afterPlainIdent? w = some [] := by
    simpa using @afterPlainIdent?_word w [] hw rfl
  have hopening : rawOpening w = none := rawOpening_of_isIdentContinue hw.isIdentContinue
  have hstring : afterString? ('r' :: '#' :: w) = none := by
    simp [afterString?, rawOpening, hopening]
  have hchar : afterChar? ('r' :: '#' :: w) = none := rfl
  have hmark : after? "r#" ('r' :: '#' :: w) = some w := rfl
  have hopenings : literalOpenings.any (startsWith ('r' :: '#' :: w)) = false := by
    obtain ⟨hstart, -⟩ := hw
    have hquote := ne_of_isIdentStart hstart (x := '"') (by decide)
    have hhash := ne_of_isIdentStart hstart (x := '#') (by decide)
    simp [literalOpenings, startsWith, List.isPrefixOf_cons_cons, hquote.symm, hhash.symm]
  rw [leaf?_of_isIdentStart (by decide) hstring hchar hopenings, afterIdent?, hmark]
  simp [hplain, before_nil, hraw]

/-- A word that goes on with no character of one, and begins like no literal, is one token. -/
theorem leaf?_word_append (hw : IsWord (c :: cs)) (hrest : atWordEnd rest = true)
    (hr : 'r' ≠ c) (hb : 'b' ≠ c) (hc : 'c' ≠ c) :
    leaf? (c :: (cs ++ rest)) = some (.ident (String.ofList (c :: cs)), rest) := by
  have hplain := afterPlainIdent?_word hw hrest
  have hbefore := before_append (c :: cs) rest
  have hstart := hw.isIdentStart
  have hquote : c ≠ '"' := ne_of_isIdentStart hstart (by decide)
  have htick : c ≠ '\x27' := ne_of_isIdentStart hstart (by decide)
  rw [List.cons_append] at hplain hbefore
  have hstring : afterString? (c :: (cs ++ rest)) = none := by
    simp only [afterString?, Option.map_eq_none_iff]
    split <;> simp_all
  have hchar : afterChar? (c :: (cs ++ rest)) = none := by
    simp only [afterChar?]
    split <;> simp_all
  have hopenings : literalOpenings.any (startsWith (c :: (cs ++ rest))) = false := by
    simp [literalOpenings, startsWith, List.isPrefixOf_cons_cons, hr, hb, hc]
  have hmark : after? "r#" (c :: (cs ++ rest)) = none := by
    simp [after?, hr]
  rw [leaf?_of_isIdentStart hstart hstring hchar hopenings, afterIdent?, hmark]
  simp only [hplain, Option.map_some, hbefore]

end Lexer

theorem tokenize_of_isIdentStart {text : String} {c : Char} {cs : List Char}
    (htext : text.toList = c :: cs) (hc : isIdentStart c = true) :
    tokenize text = Lexer.run (cs.length + 2) [] [] (c :: cs) := by
  rw [tokenize, htext]
  split
  · next heq =>
    obtain ⟨rfl, -⟩ := List.cons.inj heq
    rw [isIdentStart_byteOrderMark] at hc
    cases hc
  · rfl

namespace IsIdentText

variable {text : String}

theorem tokenize (h : IsIdentText text) : tokenize text = some [.ident text] := by
  have hleaf : Lexer.leaf? text.toList = some (.ident text, []) := by
    obtain hword | ⟨w, hw, htext⟩ := h.isName
    · rw [Lexer.leaf?_word hword, String.ofList_toList]
    · rw [htext, Lexer.leaf?_raw hw (h.rawAllowed w htext), ← htext, String.ofList_toList]
  obtain ⟨c, cs, htext, hc⟩ : ∃ c cs, text.toList = c :: cs ∧ isIdentStart c = true := by
    obtain hword | ⟨w, -, htext⟩ := h.isName
    · exact hword.exists_cons
    · exact ⟨_, _, htext, by decide⟩
  rw [htext] at hleaf
  rw [tokenize_of_isIdentStart htext hc, Lexer.run_of_isIdentStart hc hleaf]
  rfl

/-- The text of an identifier is read as this identifier. -/
theorem parse (h : IsIdentText text) : Ident.parse? text = some ⟨text⟩ := by
  rw [Ident.parse?, readText, h.tokenize]
  exact all_ident_eq_some_iff.2 ⟨rfl, h.isIdentWord⟩

end IsIdentText

/-- An identifier is read again from its own text. -/
theorem parse_text {text : String} {i : Ident} (h : Ident.parse? text = some i) :
    Ident.parse? i.text = some i :=
  (isIdentText_of_parse h).parse

/-- A text is no keyword if none begins as it does. -/
theorem isIdentWord_of_start {text : String} {start rest : List Char}
    (hkeywords : ∀ k ∈ keywords, k.toList.take start.length ≠ start)
    (htext : text.toList = start ++ rest) : isIdentWord text = true := by
  simp only [isIdentWord, Bool.not_eq_true', List.contains_eq_mem, decide_eq_false_iff_not]
  intro hmem
  exact hkeywords text hmem (by rw [htext, List.take_left])

/-- Behind a word that no keyword begins with, an identifier without mark is one again. -/
theorem parse_append {start : String} {i : Ident} (hstart : IsWord start.toList)
    (hkeywords : ∀ k ∈ keywords, k.toList.take start.toList.length ≠ start.toList)
    (hi : IsIdentText i.text) (hunmarked : i.bare = i.text) :
    Ident.parse? (start ++ i.text) = some ⟨start ++ i.text⟩ := by
  have htail : IsWord i.text.toList := hunmarked ▸ hi.isName.bare
  have hword : IsWord (start ++ i.text).toList := by
    rw [String.toList_append]
    exact hstart.append htail.isIdentContinue
  exact IsIdentText.parse ⟨.inl hword, hword.rawAllowed,
    isIdentWord_of_start hkeywords String.toList_append⟩

/-- A word that a mark parts from another is no identifier. -/
theorem parse_of_parted {text : String} {c : Char} {cs w : List Char} (hv : IsWord (c :: cs))
    (hr : 'r' ≠ c) (hb : 'b' ≠ c) (hc : 'c' ≠ c) (hw : IsWord w)
    (htext : text.toList = c :: (cs ++ '#' :: w)) : Ident.parse? text = none := by
  have hstart := hv.isIdentStart
  have hfirst := @Lexer.leaf?_word_append c cs ('#' :: w) hv rfl hr hb hc
  have hmark : Lexer.leaf? ('#' :: w) = some (.mark '#' (Lexer.startsMark w), w) := by
    have hliteral : Lexer.afterLiteral? ('#' :: w) = none := by
      simp [Lexer.afterLiteral?, Lexer.afterString?, Lexer.afterChar?, Lexer.afterFloat?,
        Lexer.afterInteger?, Lexer.afterDigits?, hexDigit?]
    rw [Lexer.leaf?, hliteral]
    rfl
  have hlast := Lexer.leaf?_word hw
  obtain ⟨c', cs', rfl, hstart'⟩ := hw.exists_cons
  have htokens : tokenize text = some
      [.ident (String.ofList (c :: cs)), .mark '#' (Lexer.startsMark (c' :: cs')),
        .ident (String.ofList (c' :: cs'))] := by
    have hfuel : (cs ++ '#' :: c' :: cs').length + 2 = cs.length + cs'.length + 1 + 1 + 1 + 1 := by
      simp only [List.length_append, List.length_cons]
      omega
    rw [tokenize_of_isIdentStart htext hstart, hfuel, Lexer.run_of_isIdentStart hstart hfirst,
      Lexer.run_of_leaf (by decide) (by decide) rfl rfl hmark,
      Lexer.run_of_isIdentStart hstart' hlast]
    rfl
  rw [Ident.parse?, readText, htokens, Option.eq_none_iff_forall_ne_some]
  intro i hread
  simpa using (all_ident_eq_some_iff.1 hread).1

/-- Two underscores and characters that go on with identifiers are the identifier of this text. -/
theorem parse_of_underscores {text : String} {cs : List Char}
    (htext : text.toList = '_' :: '_' :: cs) (hcs : ∀ c ∈ cs, isIdentContinue c = true) :
    Ident.parse? text = some ⟨text⟩ := by
  have hword : IsWord text.toList := by
    rw [htext]
    exact .mk (by decide) (List.forall_mem_cons.2 ⟨by decide, hcs⟩)
  exact IsIdentText.parse ⟨.inl hword, hword.rawAllowed,
    @isIdentWord_of_start text ['_', '_'] cs (by decide) htext⟩

end CodecForge.Source
