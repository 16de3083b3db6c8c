import SchemaAccessors.Proofs.JavaLiterals
import SchemaAccessors.Proofs.JavaOutline
import SchemaAccessors.Proofs.Validity

/-!
# Text in Java comments

Java translates unicode escapes before it looks for comments, so a comment ends where the translated text has an
asterisk and a stroke. Documentation is escaped such that the text itself has none (`not_infix_escapeDoc`), but an
escape may stand for one of the two. In what is printed of a schema no escape does, since JSON has none for visible
characters and doubles the backslashes of its texts. The URI of a schema is copied as it is. This file says that a
documentation text can end its comment only by the URI in it.
-/

namespace SchemaAccessors

/-! ## Blanks -/

namespace Text

/-- Blanks are in the first plane, and are no marks of comments. -/
lemma lt_of_isBlank {c : Char} (h : isBlank c = true) : c.toNat < 0x10000 ∧ c.toNat ≠ 0x2a ∧ c.toNat ≠ 0x2f := by
  simp only [isBlank, Bool.or_eq_true, Bool.and_eq_true, decide_eq_true_eq, beq_iff_eq] at h
  omega

lemma hexValue?_of_isBlank {c : Char} (h : isBlank c = true) : hexValue? c = none := by
  have hrange {a b : Char} (hrange : a ≤ c ∧ c ≤ b) : a.toNat ≤ c.toNat ∧ c.toNat ≤ b.toNat := hrange
  simp only [isBlank, Bool.or_eq_true, Bool.and_eq_true, decide_eq_true_eq, beq_iff_eq] at h
  unfold hexValue?
  split_ifs with hdigit hsmall hlarge
  · have hdigit : 0x30 ≤ c.toNat ∧ c.toNat ≤ 0x39 := hrange hdigit
    omega
  · have hsmall : 0x61 ≤ c.toNat ∧ c.toNat ≤ 0x66 := hrange hsmall
    omega
  · have hlarge : 0x41 ≤ c.toNat ∧ c.toNat ≤ 0x46 := hrange hlarge
    omega
  · rfl

end Text

namespace Render.Java

open Python.Literal (units)

namespace Escapes

lemma endsEscapes_of_isBlank {c : Char} (h : Text.isBlank c = true) : EndsEscapes c := by
  refine ⟨(Text.lt_of_isBlank h).1, ?_, ?_, Text.hexValue?_of_isBlank h⟩ <;>
  · rintro rfl
    exact absurd h (by decide)

end Escapes

/-! ## Comments -/

namespace Comment

/-- The units that end a comment: an asterisk and a stroke. -/
def closing : List Nat := [0x2a, 0x2f]

/-- What is behind the first end of a comment. -/
def behindEnd : List Nat → Option (List Nat)
  | 0x2a :: 0x2f :: rest => some rest
  | _ :: rest => behindEnd rest
  | [] => none

/-- What is behind a comment that begins behind blanks. -/
def behind? (us : List Nat) : Option (List Nat) :=
  match us.dropWhile (· = 0x20) with
  | 0x2f :: 0x2a :: rest => behindEnd rest
  | _ => none

/-- Java can translate a text, and finds no end of a comment in it. -/
def StaysOpen (text : List Char) : Prop :=
  ∃ us, Escapes.translate .plain text = some us ∧ ¬ closing <:+: us

instance (text : List Char) : Decidable (StaysOpen text) :=
  match h : Escapes.translate .plain text with
  | some us =>
    decidable_of_iff (¬ closing <:+: us)
      ⟨fun hopen => ⟨us, h, hopen⟩, fun ⟨_, hus, hopen⟩ => Option.some.inj (h.symm.trans hus) ▸ hopen⟩
  | none => isFalse fun ⟨_, hus, _⟩ => nomatch h.symm.trans hus

/-- A block is one comment to Java, to its own end, whatever stands on the lines around it. -/
def EndsAtLast (block : List Char) : Prop :=
  ∃ us, (∀ before behind, Escapes.translate .plain (before ++ '\n' :: (block ++ '\n' :: behind)) =
      (Escapes.translate .plain before).bind fun us₁ =>
        (Escapes.translate .plain behind).map fun us₂ => us₁ ++ 0x0a :: (us ++ 0x0a :: us₂)) ∧
    ∀ us₂, behind? (us ++ us₂) = some us₂

/-! ### Where a comment ends -/

lemma infix_append_cons {x y unit : Nat} (hx : unit ≠ x) (hy : unit ≠ y) (us us' : List Nat) :
    [x, y] <:+: us ++ unit :: us' ↔ [x, y] <:+: us ∨ [x, y] <:+: us' := by
  induction us with
  | nil => simp [List.infix_cons_iff, hx.symm]
  | cons u us ih =>
    have hprefix : [x, y] <+: u :: (us ++ unit :: us') ↔ [x, y] <+: u :: us := by
      cases us with
      | nil => simp [hy.symm]
      | cons v us => simp
    rw [List.cons_append, List.infix_cons_iff, List.infix_cons_iff, ih, hprefix, or_assoc]

lemma behindEnd_cons {unit : Nat} {us : List Nat} (h : ¬ closing <+: unit :: us) :
    behindEnd (unit :: us) = behindEnd us := by
  rw [behindEnd]
  rintro rest rfl rfl
  exact h ⟨rest, rfl⟩

lemma closing_infix_cons {unit : Nat} {us : List Nat} :
    closing <:+: unit :: us ↔ (unit = 0x2a ∧ us.head? = some 0x2f) ∨ closing <:+: us := by
  have hprefix : closing <+: unit :: us ↔ unit = 0x2a ∧ us.head? = some 0x2f := by
    cases us with
    | nil => simp [closing]
    | cons u us => simp [closing, eq_comm]
  rw [List.infix_cons_iff, hprefix]

/-- The first end is found where it is, if there is none before it. -/
lemma behindEnd_append {us : List Nat} (h : ¬ closing <:+: us) {unit : Nat} (hunit : unit ≠ 0x2f) (rest : List Nat) :
    behindEnd (us ++ unit :: rest) = behindEnd (unit :: rest) := by
  induction us with
  | nil => rfl
  | cons u us ih =>
    rw [List.infix_cons_iff, not_or] at h
    rw [List.cons_append, behindEnd_cons, ih h.2]
    intro hprefix
    cases us with
    | nil => simp [closing, hunit.symm] at hprefix
    | cons v us => exact h.1 (by simpa [closing] using hprefix)

lemma exists_behindEnd_of_infix {us : List Nat} (h : closing <:+: us) (rest : List Nat) :
    ∃ found, behindEnd (us ++ rest) = some found ∧ rest.length ≤ found.length := by
  induction us with
  | nil => simp [closing] at h
  | cons u us ih =>
    by_cases hhere : closing <+: u :: us
    · obtain ⟨tail, htail⟩ := hhere
      refine ⟨tail ++ rest, ?_, by simp⟩
      rw [← htail, List.append_assoc]
      rfl
    · have hrest := (List.infix_cons_iff.1 h).resolve_left hhere
      obtain ⟨found, hfound, hlength⟩ := ih hrest
      refine ⟨found, ?_, hlength⟩
      rw [List.cons_append, behindEnd_cons, hfound]
      intro hprefix
      cases us with
      | nil => simp [closing] at hrest
      | cons v us => exact hhere (by simpa [closing] using hprefix)

/-- The end that a comment is written with is the first one, exactly if there is none in its text. -/
lemma behindEnd_eq_iff (us rest : List Nat) :
    behindEnd (us ++ [0x20, 0x2a, 0x2f] ++ rest) = some rest ↔ ¬ closing <:+: us := by
  rw [List.append_assoc]
  constructor
  · intro hend h
    obtain ⟨found, hfound, hlength⟩ := exists_behindEnd_of_infix h ([0x20, 0x2a, 0x2f] ++ rest)
    rw [hend, Option.some.injEq] at hfound
    rw [← hfound, List.length_append] at hlength
    exact absurd hlength (Nat.not_le_of_gt (Nat.lt_add_of_pos_left (by decide)))
  · intro h
    exact behindEnd_append h (by decide) _

/-! ### Text that ends no comment -/

/-- A blank separates what is in front of it from what is behind. -/
lemma staysOpen_append_cons {c : Char} (hc : Text.isBlank c = true) (text rest : List Char) :
    StaysOpen (text ++ c :: rest) ↔ StaysOpen text ∧ StaysOpen rest := by
  obtain ⟨-, hstar, hstroke⟩ := Text.lt_of_isBlank hc
  unfold StaysOpen
  rw [Escapes.translate_append_cons (Escapes.endsEscapes_of_isBlank hc)]
  cases Escapes.translate .plain text with
  | none => simp
  | some us =>
    cases Escapes.translate .plain rest with
    | none => simp
    | some us' => simp [closing, infix_append_cons hstar hstroke, not_or]

lemma staysOpen_nil : StaysOpen [] :=
  ⟨[], rfl, by simp [closing]⟩

lemma staysOpen_append_blanks {blanks : List Char} (h : ∀ c ∈ blanks, Text.isBlank c = true) (text : List Char) :
    StaysOpen (text ++ blanks) ↔ StaysOpen text := by
  induction blanks generalizing text with
  | nil => rw [List.append_nil]
  | cons c blanks ih =>
    obtain ⟨hc, hblanks⟩ := List.forall_mem_cons.1 h
    have hrest : StaysOpen blanks := by simpa using (ih hblanks []).2 staysOpen_nil
    rw [staysOpen_append_cons hc, and_iff_left hrest]

lemma staysOpen_blanks_append {blanks : List Char} (h : ∀ c ∈ blanks, Text.isBlank c = true) (text : List Char) :
    StaysOpen (blanks ++ text) ↔ StaysOpen text := by
  induction blanks with
  | nil => rfl
  | cons c blanks ih =>
    obtain ⟨hc, hblanks⟩ := List.forall_mem_cons.1 h
    have hsplit : c :: blanks ++ text = [] ++ c :: (blanks ++ text) := rfl
    rw [hsplit, staysOpen_append_cons hc, and_iff_right staysOpen_nil, ih hblanks]

end Comment

/-- No escape of a text stands for a mark of comments. -/
inductive Overt : List Char → Prop
  | nil : Overt []
  | plain {c : Char} {rest : List Char} (hc : c ≠ '\\') (h : Overt rest) : Overt (c :: rest)
  | hidden {c : Char} {rest : List Char} (hc : c ∉ ['u', '&', '<', '>', '*']) (hbasic : c.toNat < 0x10000)
      (h : Overt rest) : Overt ('\\' :: c :: rest)
  | escape {unit : Nat} {rest : List Char} (hunit : unit < 0x10000) (hmark : unit ∉ [0x2a, 0x2f]) (h : Overt rest) :
      Overt (Json.unitEscape unit ++ rest)

namespace Overt

variable {text text' : List Char}

lemma append (h : Overt text) (h' : Overt text') : Overt (text ++ text') := by
  induction h with
  | nil => exact h'
  | plain hc _ ih => exact .plain hc ih
  | hidden hc hbasic _ ih => exact .hidden hc hbasic ih
  | escape hunit hmark _ ih =>
    rw [List.append_assoc]
    exact .escape hunit hmark ih

lemma of_notMem (h : '\\' ∉ text) : Overt text := by
  induction text with
  | nil => exact .nil
  | cons c text ih =>
    obtain ⟨hc, htext⟩ := List.ne_and_not_mem_of_not_mem_cons h
    exact .plain hc.symm (ih htext)

lemma of_cons {c : Char} (hc : c ≠ '\\') (h : Overt (c :: text)) : Overt text := by
  generalize hwhole : c :: text = whole at h
  cases h with
  | nil => cases hwhole
  | plain _ h => exact (List.cons.inj hwhole).2 ▸ h
  | hidden => exact absurd (List.cons.inj hwhole).1 hc
  | escape => exact absurd (List.cons.inj hwhole).1 hc

/-- What ends a comment shows as its end. -/
lemma exists_translate (h : Overt text) : ∃ us, Escapes.translate .plain text = some us ∧
    (us.head? = some 0x2f → text.head? = some '/') ∧ (Comment.closing <:+: us → "*/".toList <:+: text) := by
  induction h with
  | nil => exact ⟨[], rfl, by simp, by simp [Comment.closing]⟩
  | @plain c rest hc _ ih =>
    obtain ⟨us, hus, hhead, hends⟩ := ih
    have hnot : '\\' ∉ [c] := fun hmem => hc (List.mem_singleton.1 hmem).symm
    have htranslate : Escapes.translate .plain (c :: rest) = some (units c ++ us) := by
      have hone := Escapes.translate_plain hnot rest
      rwa [hus, List.flatMap_singleton] at hone
    refine ⟨_, htranslate, ?_⟩
    unfold Python.Literal.units
    split
    · -- the character is its own unit
      have hself {n : Nat} (hn : c.toNat = n) : c = Char.ofNat n := by rw [← hn, Char.ofNat_toNat]
      refine ⟨fun hfirst => congrArg some (hself (Option.some.inj hfirst)), fun hinfix => ?_⟩
      rcases Comment.closing_infix_cons.1 hinfix with ⟨hstar, hstroke⟩ | hinfix
      · obtain ⟨tail, rfl⟩ := List.head?_eq_some_iff.1 (hhead hstroke)
        rw [hself hstar]
        exact ⟨[], tail, rfl⟩
      · exact (hends hinfix).trans (List.suffix_cons c rest).isInfix
    · refine ⟨fun hfirst => ?_, fun hinfix => ?_⟩
      · have hunit := Option.some.inj hfirst
        omega
      · rcases Comment.closing_infix_cons.1 hinfix with ⟨hstar, -⟩ | hinfix
        · omega
        rcases Comment.closing_infix_cons.1 hinfix with ⟨hstar, -⟩ | hinfix
        · omega
        · exact (hends hinfix).trans (List.suffix_cons c rest).isInfix
  | @hidden c rest hc hbasic _ ih =>
    obtain ⟨us, hus, hhead, hends⟩ := ih
    have hu : c ≠ 'u' := fun heq => hc (heq ▸ List.mem_cons_self)
    refine ⟨0x5c :: c.toNat :: us, by rw [Escapes.translate_kept hu hbasic, hus, Option.map_some]; rfl, by simp,
      fun hinfix => ?_⟩
    rcases Comment.closing_infix_cons.1 hinfix with ⟨hstar, -⟩ | hinfix
    · exact absurd hstar (by decide)
    rcases Comment.closing_infix_cons.1 hinfix with ⟨hstar, -⟩ | hinfix
    · obtain rfl : c = '*' := by rw [← Char.ofNat_toNat c, hstar]
      exact absurd (by decide) hc
    · exact (hends hinfix).trans (List.suffix_append ['\\', c] rest).isInfix
  | @escape unit rest hunit hmark _ ih =>
    obtain ⟨us, hus, hhead, hends⟩ := ih
    refine ⟨unit :: us, by rw [Escapes.translate_unitEscape hunit, hus, Option.map_some], fun hfirst => ?_,
      fun hinfix => ?_⟩
    · exact absurd (by simp [Option.some.inj hfirst]) hmark
    · rcases Comment.closing_infix_cons.1 hinfix with ⟨hstar, -⟩ | hinfix
      · exact absurd (by simp [hstar]) hmark
      · exact (hends hinfix).trans (List.suffix_append (Json.unitEscape unit) rest).isInfix

end Overt

/-! ## Escaped text -/

/-- Characters that are escaped, or with which something begins that is. -/
def IsSpecial (c : Char) : Prop :=
  c ∈ ['&', '<', '>', '*']

instance (c : Char) : Decidable (IsSpecial c) :=
  inferInstanceAs (Decidable (_ ∈ _))

lemma escapeDoc_cons {c : Char} (hc : ¬ IsSpecial c) (rest : List Char) :
    escapeDoc (c :: rest) = c :: escapeDoc rest := by
  simp only [IsSpecial, List.mem_cons, List.not_mem_nil, or_false, not_or] at hc
  obtain ⟨hand, hless, hgreater, hstar⟩ := hc
  rw [escapeDoc]
  · exact hand
  · exact hless
  · exact hgreater
  · exact fun _ h => absurd h hstar

lemma escapeDoc_append {start : List Char} (h : ∀ c ∈ start, ¬ IsSpecial c) (rest : List Char) :
    escapeDoc (start ++ rest) = start ++ escapeDoc rest := by
  induction start with
  | nil => rfl
  | cons c start ih =>
    obtain ⟨hc, hstart⟩ := List.forall_mem_cons.1 h
    rw [List.cons_append, escapeDoc_cons hc, ih hstart, List.cons_append]

/-- Text is escaped up to a character without regard to what is behind, if that character is no part of an escape. -/
lemma escapeDoc_append_cons {c : Char} (hc : ¬ IsSpecial c) (hstroke : c ≠ '/') (text rest : List Char) :
    escapeDoc (text ++ c :: rest) = escapeDoc text ++ c :: escapeDoc rest := by
  fun_induction escapeDoc text with
  | case1 text ih => rw [List.cons_append, escapeDoc, ih, List.append_assoc]
  | case2 text ih => rw [List.cons_append, escapeDoc, ih, List.append_assoc]
  | case3 text ih => rw [List.cons_append, escapeDoc, ih, List.append_assoc]
  | case4 text ih => rw [List.cons_append, List.cons_append, escapeDoc, ih, List.append_assoc]
  | case5 d text h₁ h₂ h₃ h₄ ih =>
    rw [List.cons_append, escapeDoc, ih, List.cons_append]
    · exact h₁
    · exact h₂
    · exact h₃
    · intro behind hd hbehind
      cases text with
      | nil => exact hstroke (List.cons.inj hbehind).1
      | cons e text => exact h₄ text hd (congrArg (· :: text) (List.cons.inj hbehind).1)
  | case6 => rw [List.nil_append, List.nil_append, escapeDoc_cons hc]

lemma not_isSpecial_hexDigits (width n : Nat) : ∀ c ∈ Text.hexDigits width n, ¬ IsSpecial c := by
  have hdigit : ∀ n < 16, ¬ IsSpecial (Text.hexDigit n) := by decide
  induction width generalizing n with
  | zero => exact fun c hc => (List.not_mem_nil hc).elim
  | succ width ih =>
    rw [Text.hexDigits, List.forall_mem_append, List.forall_mem_singleton]
    exact ⟨ih _, hdigit _ (Nat.mod_lt _ (by decide))⟩

lemma Overt.escaped {text : List Char} (h : Overt text) : Overt (escapeDoc text) := by
  induction h with
  | nil => exact .nil
  | @plain c rest hc h ih =>
    generalize hwhole : c :: rest = whole
    fun_cases escapeDoc whole with
    | case1 rest' =>
      obtain ⟨-, rfl⟩ := List.cons.inj hwhole
      exact (of_notMem (by decide)).append ih
    | case2 rest' =>
      obtain ⟨-, rfl⟩ := List.cons.inj hwhole
      exact (of_notMem (by decide)).append ih
    | case3 rest' =>
      obtain ⟨-, rfl⟩ := List.cons.inj hwhole
      exact (of_notMem (by decide)).append ih
    | case4 rest' =>
      obtain ⟨-, rfl⟩ := List.cons.inj hwhole
      rw [escapeDoc_cons (by decide)] at ih
      exact (of_notMem (by decide)).append (ih.of_cons (by decide))
    | case5 =>
      obtain ⟨rfl, rfl⟩ := List.cons.inj hwhole
      exact .plain hc ih
    | case6 => cases hwhole
  | @hidden c rest hc hbasic _ ih =>
    have hspecial : ∀ d ∈ ['\\', c], ¬ IsSpecial d := by
      refine List.forall_mem_cons.2 ⟨by decide, List.forall_mem_singleton.2 fun hd => hc (List.mem_cons_of_mem _ hd)⟩
    have hkept := escapeDoc_append hspecial rest
    rw [List.cons_append, List.singleton_append] at hkept
    rw [hkept]
    exact .hidden hc hbasic ih
  | @escape unit rest hunit hmark _ ih =>
    have hspecial : ∀ d ∈ Json.unitEscape unit, ¬ IsSpecial d := by
      rw [Json.unitEscape, List.forall_mem_cons, List.forall_mem_cons]
      exact ⟨by decide, by decide, not_isSpecial_hexDigits 4 unit⟩
    rw [escapeDoc_append hspecial]
    exact .escape hunit hmark ih

lemma Overt.staysOpen {text : List Char} (h : Overt text) : Comment.StaysOpen (escapeDoc text) := by
  obtain ⟨us, hus, -, hends⟩ := h.escaped.exists_translate
  exact ⟨us, hus, fun hinfix => not_infix_escapeDoc text (hends hinfix)⟩

/-! ## Printed values -/

lemma overt_intercalate {separator : String} {parts : List String} (hseparator : Overt separator.toList)
    (hparts : ∀ part ∈ parts, Overt part.toList) : Overt (String.intercalate separator parts).toList := by
  induction parts with
  | nil => exact .nil
  | cons part parts ih =>
    obtain ⟨hpart, hrest⟩ := List.forall_mem_cons.1 hparts
    cases parts with
    | nil => simpa using hpart
    | cons next parts =>
      rw [String.intercalate_cons_cons, String.toList_append, String.toList_append]
      exact (hpart.append hseparator).append (ih hrest)

lemma overt_encodeChar (c : Char) : Overt (Json.encodeChar c) := by
  rcases Python.Literal.encodeChar_eq c with ⟨mark, hmark, hwritten⟩ | ⟨hplain, ⟨hwritten, -⟩ | hwritten⟩
  · have hall : ∀ p ∈ Python.Literal.marks, p.2 ∉ ['u', '&', '<', '>', '*'] ∧ p.2.toNat < 0x10000 := by decide
    obtain ⟨hc, hbasic⟩ := hall _ hmark
    rw [hwritten]
    exact .hidden hc hbasic .nil
  · rw [hwritten]
    refine .plain ?_ .nil
    rintro rfl
    exact hplain '\\' (by decide)
  · -- the marks of comments are visible characters, which are not escaped
    have hmarks : ∀ unit ∈ units c, unit ∉ [0x2a, 0x2f] := by
      intro unit hunit hmark
      have hvisible : ∀ n ∈ [0x2a, 0x2f], n < 0xd800 ∧ '\\' ∉ Json.encodeChar (Char.ofNat n) := by decide
      obtain ⟨hlt, hnot⟩ := hvisible unit hmark
      rw [← Literal.eq_ofNat_of_mem_units hunit hlt, hwritten] at hnot
      exact hnot (List.mem_flatMap.2 ⟨unit, hunit, List.mem_cons_self⟩)
    have hlt := Python.Literal.units_lt c
    rw [hwritten]
    generalize units c = us at hmarks hlt
    induction us with
    | nil => exact .nil
    | cons unit us ih =>
      obtain ⟨hmark, hmarks⟩ := List.forall_mem_cons.1 hmarks
      obtain ⟨hunit, hlt⟩ := List.forall_mem_cons.1 hlt
      exact .escape hunit hmark (ih hmarks hlt)

lemma overt_encodeString (text : String) : Overt (Json.encodeString text).toList := by
  have hchars : Overt (text.toList.flatMap Json.encodeChar) := by
    induction text.toList with
    | nil => exact .nil
    | cons c chars ih => exact (overt_encodeChar c).append ih
  rw [Json.encodeString, String.toList_ofList]
  exact (hchars.plain (by decide)).append (.of_notMem (by decide))

lemma overt_numeral {text : String} (h : ∀ c ∈ text.toList, Text.IsNumeral c) : Overt text.toList :=
  .of_notMem fun hmem => absurd (h _ hmem) (by decide)

lemma overt_block {depth : Nat} {opening closing : String} {parts : List String} (hopening : Overt opening.toList)
    (hclosing : Overt closing.toList) (hparts : ∀ part ∈ parts, Overt part.toList) :
    Overt (Json.block depth opening closing parts).toList := by
  have hindentation (depth : Nat) : Overt (Json.indentation depth).toList := by
    refine .of_notMem fun hmem => ?_
    rw [Json.indentation, String.toList_ofList] at hmem
    exact absurd (List.eq_of_mem_replicate hmem) (by decide)
  have hfeed : Overt "\n".toList := .of_notMem (by decide)
  have hstart := hfeed.append (hindentation (depth + 1))
  have hcomma : Overt ",".toList := .of_notMem (by decide)
  rw [← String.toList_append] at hstart
  have hseparator := hcomma.append hstart
  rw [← String.toList_append] at hseparator
  simp only [Json.block, String.toList_append] at hstart ⊢
  exact ((((hopening.append hstart).append (overt_intercalate hseparator hparts)).append hfeed).append
    (hindentation depth)).append hclosing

mutual

/-- In what is printed of a schema, no escape stands for a mark of comments. -/
lemma overt_indentedAt (depth : Nat) : (value : Json) → Overt (value.indentedAt depth).toList
  | .null => by
    rw [Json.indentedAt]
    exact .of_notMem (by decide)
  | .bool b => by
    rw [Json.indentedAt]
    exact .of_notMem (by cases b <;> decide)
  | .int n => overt_numeral (isNumeral_int n)
  | .float x => overt_numeral x.isNumeral_json
  | .str s => overt_encodeString s
  | .arr [] => by
    rw [Json.indentedAt]
    exact .of_notMem (by decide)
  | .arr (x :: xs) =>
    overt_block (.of_notMem (by decide)) (.of_notMem (by decide))
      (List.forall_mem_cons.2 ⟨overt_indentedAt (depth + 1) x, overt_indentedElements (depth + 1) xs⟩)
  | .obj [] => by
    rw [Json.indentedAt]
    exact .of_notMem (by decide)
  | .obj ((key, x) :: ms) => by
    refine overt_block (.of_notMem (by decide)) (.of_notMem (by decide))
      (List.forall_mem_cons.2 ⟨?_, overt_indentedMembers (depth + 1) ms⟩)
    rw [String.toList_append, String.toList_append]
    exact ((overt_encodeString key).append (.of_notMem (by decide))).append (overt_indentedAt (depth + 1) x)

lemma overt_indentedElements (depth : Nat) : (xs : List Json) →
    ∀ part ∈ Json.indentedElements depth xs, Overt part.toList
  | [] => fun _ hpart => (List.not_mem_nil hpart).elim
  | x :: xs => List.forall_mem_cons.2 ⟨overt_indentedAt depth x, overt_indentedElements depth xs⟩

lemma overt_indentedMembers (depth : Nat) : (ms : Members) →
    ∀ part ∈ Json.indentedMembers depth ms, Overt part.toList
  | [] => fun _ hpart => (List.not_mem_nil hpart).elim
  | (key, x) :: ms => by
    refine List.forall_mem_cons.2 ⟨?_, overt_indentedMembers depth ms⟩
    rw [String.toList_append, String.toList_append]
    exact ((overt_encodeString key).append (.of_notMem (by decide))).append (overt_indentedAt depth x)

end

lemma overt_quotedList_kinds (kinds : List Kind) : Overt (Text.quotedList (kinds.map Kind.name)).toList := by
  have hword (k : Kind) : '\\' ∉ (Text.quoted k.name).toList := by
    cases k <;> decide +kernel
  rw [Text.quotedList, String.toList_append, String.toList_append]
  refine (Overt.append (.of_notMem (by decide)) (overt_intercalate (.of_notMem (by decide)) fun word hmem => ?_)).append
    (.of_notMem (by decide))
  simp only [List.map_map, List.mem_map, Function.comp_apply] at hmem
  obtain ⟨k, -, rfl⟩ := hmem
  exact .of_notMem (hword k)

/-! ## Documentation -/

/-- Behind the URI, documentation is printed. -/
lemma exists_documentation (s : Setting) (n : SchemaNode) : ∃ printed, Overt printed ∧
    (Drafting.documentation s n).toList = "Created from".toList ++ ' ' :: (n.uri.toList ++ '\n' :: printed) := by
  have hkinds (label : String) (hlabel : '\\' ∉ label.toList) (kinds : List Kind) :
      Overt (label ++ Text.quotedList (kinds.map Kind.name)).toList := by
    rw [String.toList_append]
    exact (Overt.of_notMem hlabel).append (overt_quotedList_kinds kinds)
  have hschema : ∀ text ∈ (if s.config.includeSchemaJsonInDocs.truthy then [(Json.obj n.members).indented] else []),
      Overt text.toList := by
    split
    · exact List.forall_mem_singleton.2 (overt_indentedAt 0 _)
    · exact fun _ htext => (List.not_mem_nil htext).elim
  refine ⟨(String.intercalate "\n" (
      ["Explicit types " ++ Text.quotedList (n.kinds.map Kind.name),
        "Inferred types " ++ Text.quotedList ((Members.inferredKinds n.members).map Kind.name)] ++
      if s.config.includeSchemaJsonInDocs.truthy then [(Json.obj n.members).indented] else [])).toList,
    overt_intercalate (.of_notMem (by decide)) ?_, ?_⟩
  · refine List.forall_mem_append.2 ⟨List.forall_mem_cons.2 ⟨hkinds _ (by decide) _, ?_⟩, hschema⟩
    exact List.forall_mem_singleton.2 (hkinds _ (by decide) _)
  · simp [Drafting.documentation, String.intercalate_cons_cons, toString]

/-- Escaped documentation can end its comment only by the URI in it. -/
theorem staysOpen_documentation (s : Setting) (n : SchemaNode) :
    Comment.StaysOpen (escapeDoc (Drafting.documentation s n).toList) ↔ Comment.StaysOpen (escapeDoc n.uri.toList) := by
  obtain ⟨printed, hprinted, hdoc⟩ := exists_documentation s n
  have hlabel : Comment.StaysOpen (escapeDoc "Created from".toList) := (Overt.of_notMem (by decide)).staysOpen
  rw [hdoc, escapeDoc_append_cons (by decide) (by decide), escapeDoc_append_cons (by decide) (by decide),
    Comment.staysOpen_append_cons (by decide), Comment.staysOpen_append_cons (by decide), and_iff_right hlabel,
    and_iff_left hprinted.staysOpen]

end Render.Java

end SchemaAccessors
