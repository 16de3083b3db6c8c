import Mathlib.Algebra.Group.Nat.Defs
import Mathlib.Tactic.Common
import SchemaAccessors.Proofs.Outcome
import SchemaAccessors.Render.Python

/-!
# String literals of Python

A key or a text of a default is written as a JSON string, and Python reads it as a literal of its own. The rules
agree on every escape that is written, but for pairs of escapes: JSON writes a character beyond the basic plane as
its two UTF-16 units, and to Python each of them is a character of its own. So a literal means the text that it was
written for, if all characters of the text are in the basic plane, and only then.
-/

namespace SchemaAccessors.Render.Python

/-! ## Reading a literal

A text is read as a list of code points, because a literal may hold surrogates, which are no characters. Lines end in
line feeds. -/

namespace Literal

/-- Where a reader of a literal stands. -/
inductive Mode
  | plain
  /-- Behind a backslash. -/
  | escaped
  /-- In a hexadecimal escape: how many digits are to come after the next one, and the value so far. -/
  | hex (more value : Nat)
  /-- In an octal escape: how many digits may come, and the value so far. -/
  | octal (more value : Nat)
  | closed

/-- Characters that stand for one code point behind a backslash. -/
def shortEscape? : Char → Option Nat
  | '\\' => some 0x5c
  | '\x27' => some 0x27
  | '"' => some 0x22
  | 'a' => some 0x07
  | 'b' => some 0x08
  | 'f' => some 0x0c
  | 'n' => some 0x0a
  | 'r' => some 0x0d
  | 't' => some 0x09
  | 'v' => some 0x0b
  | _ => none

def octalValue? (c : Char) : Option Nat :=
  if '0' ≤ c ∧ c ≤ '7' then some (c.toNat - 0x30) else none

/-- A character of a literal, outside of escapes. A line does not end in a literal, and no code has a null in it. -/
def plainStep (c : Char) : Option (List Nat × Mode) :=
  if c = '"' then some ([], .closed)
  else if c = '\\' then some ([], .escaped)
  else if c = '\n' ∨ c = '\r' ∨ c = '\x00' then none
  else some ([c.toNat], .plain)

/-- A character behind a backslash. A line end is dropped, and what begins no escape is kept with the backslash.
Characters are not found by their names. -/
def escapeStep (c : Char) : Option (List Nat × Mode) :=
  match shortEscape? c, octalValue? c with
  | some point, _ => some ([point], .plain)
  | none, some digit => some ([], .octal 2 digit)
  | none, none =>
    if c = '\n' then some ([], .plain)
    else if c = 'x' then some ([], .hex 1 0)
    else if c = 'u' then some ([], .hex 3 0)
    else if c = 'U' then some ([], .hex 7 0)
    else if c = 'N' ∨ c = '\r' ∨ c = '\x00' then none
    else some ([0x5c, c.toNat], .plain)

/-- What one more character adds, and where the reader stands behind it. -/
def step : Mode → Char → Option (List Nat × Mode)
  | .plain, c => plainStep c
  | .escaped, c => escapeStep c
  | .hex more value, c => do
    let value := value * 16 + (← Text.hexValue? c)
    match more with
    | 0 => if value < 0x110000 then some ([value], .plain) else none
    | more + 1 => some ([], .hex more value)
  | .octal more value, c =>
    match more, octalValue? c with
    | more + 1, some digit => some ([], .octal more (value * 8 + digit))
    | _, _ => (plainStep c).map fun (points, next) => (value :: points, next)
  | .closed, _ => none

/-- Reads on to the end of the literal: its code points, and the text behind it. -/
def readFrom : Mode → List Char → Option (List Nat × List Char)
  | .closed, text => some ([], text)
  | _, [] => none
  | mode, c :: rest => do
    let (points, next) ← step mode c
    let (more, behind) ← readFrom next rest
    return (points ++ more, behind)

/-- Reads a literal between quotation marks. Three of them open a literal of another kind. -/
def read (text : List Char) : Option (List Nat × List Char) :=
  match text with
  | '"' :: rest => if ['"', '"'].isPrefixOf rest then none else readFrom .plain rest
  | _ => none

/-! ## Reading what JSON writes -/

/-- The UTF-16 units of a character. -/
def units (c : Char) : List Nat :=
  if c.toNat < 0x10000 then [c.toNat]
  else [0xd800 + (c.toNat - 0x10000) / 0x400, 0xdc00 + (c.toNat - 0x10000) % 0x400]

lemma units_lt (c : Char) : ∀ unit ∈ units c, unit < 0x10000 := by
  have hvalid : c.toNat < 0xd800 ∨ 0xdfff < c.toNat ∧ c.toNat < 0x110000 := c.valid
  intro unit hunit
  unfold units at hunit
  split at hunit
  · rw [List.mem_singleton.1 hunit]
    assumption
  · simp only [List.mem_cons, List.not_mem_nil, or_false] at hunit
    omega

/-- What one character adds in front of what is read behind it. -/
lemma readFrom_of_step {mode next : Mode} {c : Char} {points : List Nat} (hmode : mode ≠ .closed)
    (h : step mode c = some (points, next)) (rest : List Char) :
    readFrom mode (c :: rest) = (readFrom next rest).map fun found => (points ++ found.1, found.2) := by
  rw [readFrom]
  · rw [h, Option.bind_eq_bind, Option.bind_some]
    dsimp only
    cases readFrom next rest <;> rfl
  · exact hmode

lemma readFrom_of_silent {mode next : Mode} {c : Char} (hmode : mode ≠ .closed) (h : step mode c = some ([], next))
    (rest : List Char) : readFrom mode (c :: rest) = readFrom next rest := by
  rw [readFrom_of_step hmode h]
  exact Option.map_id'

/-- All digits but the last add to the value. -/
lemma readFrom_hexDigits {width n : Nat} (hn : n < 16 ^ width) (more value : Nat) (rest : List Char) :
    readFrom (.hex (width + more) value) (Text.hexDigits width n ++ rest) =
      readFrom (.hex more (value * 16 ^ width + n)) rest := by
  induction width generalizing n more rest with
  | zero =>
    obtain rfl : n = 0 := by omega
    simp [Text.hexDigits]
  | succ width ih =>
    have hdiv : n / 16 < 16 ^ width := by
      rw [Nat.div_lt_iff_lt_mul (by decide)]
      rwa [Nat.pow_succ] at hn
    have hmod : n % 16 < 16 := Nat.mod_lt n (by decide)
    have hvalue : (value * 16 ^ width + n / 16) * 16 + n % 16 = value * 16 ^ (width + 1) + n := by
      rw [Nat.pow_succ, ← Nat.mul_assoc]
      omega
    have hlast : step (.hex (more + 1) (value * 16 ^ width + n / 16)) (Text.hexDigit (n % 16)) =
        some ([], .hex more (value * 16 ^ (width + 1) + n)) := by
      rw [← hvalue]
      simp [step, Text.hexValue?_hexDigit hmod]
    rw [Text.hexDigits, List.append_assoc, List.singleton_append, Nat.succ_add_eq_add_succ, ih hdiv (more + 1),
      readFrom_of_silent (by simp) hlast]

/-- An escape of four digits stands for the code point with that number. -/
lemma readFrom_unitEscape {unit : Nat} (h : unit < 0x10000) (rest : List Char) :
    readFrom .plain (Json.unitEscape unit ++ rest) =
      (readFrom .plain rest).map fun found => (unit :: found.1, found.2) := by
  have hdiv : unit / 16 < 16 ^ 3 := by omega
  have hmod : unit % 16 < 16 := Nat.mod_lt unit (by decide)
  have hlast : step (.hex 0 (unit / 16)) (Text.hexDigit (unit % 16)) = some ([unit], .plain) := by
    have hvalue : unit / 16 * 16 + unit % 16 = unit := by omega
    simp [step, Text.hexValue?_hexDigit hmod, hvalue]
    omega
  have hdigits : Text.hexDigits 4 unit = Text.hexDigits 3 (unit / 16) ++ [Text.hexDigit (unit % 16)] := rfl
  have hfirst := readFrom_hexDigits hdiv 0 0 (Text.hexDigit (unit % 16) :: rest)
  rw [Nat.zero_mul, Nat.zero_add] at hfirst
  have hbackslash : step .plain '\\' = some ([], .escaped) := rfl
  have hmark : step .escaped 'u' = some ([], .hex 3 0) := rfl
  rw [Json.unitEscape, hdigits, List.cons_append, List.cons_append, List.append_assoc, List.singleton_append,
    readFrom_of_silent (by simp) hbackslash, readFrom_of_silent (by simp) hmark, hfirst,
    readFrom_of_step (by simp) hlast]
  rfl

/-- A character behind a backslash that stands for one code point. -/
lemma readFrom_shortEscape {c : Char} {point : Nat} (h : shortEscape? c = some point) (rest : List Char) :
    readFrom .plain ('\\' :: c :: rest) = (readFrom .plain rest).map fun found => (point :: found.1, found.2) := by
  have hbackslash : step .plain '\\' = some ([], .escaped) := rfl
  have hescape : step .escaped c = some ([point], .plain) := by
    simp [step, escapeStep, h]
  rw [readFrom_of_silent (by simp) hbackslash, readFrom_of_step (by simp) hescape]
  rfl

lemma readFrom_unitEscapes {us : List Nat} (h : ∀ unit ∈ us, unit < 0x10000) (rest : List Char) :
    readFrom .plain (us.flatMap Json.unitEscape ++ rest) =
      (readFrom .plain rest).map fun found => (us ++ found.1, found.2) := by
  induction us with
  | nil => exact Option.map_id'.symm
  | cons unit us ih =>
    have hrest := ih fun u hu => h u (List.mem_cons_of_mem _ hu)
    rw [List.flatMap_cons, List.append_assoc, readFrom_unitEscape (h unit List.mem_cons_self), hrest, Option.map_map]
    rfl

/-- The characters that JSON has short escapes for, each with the letter or mark behind the backslash. -/
def marks : List (Char × Char) :=
  [('"', '"'), ('\\', '\\'), ('\n', 'n'), ('\r', 'r'), ('\t', 't'), ('\x08', 'b'), ('\x0c', 'f')]

/-- A character is written as a short escape, as itself, or as an escape for each of its units. -/
lemma encodeChar_eq (c : Char) :
    (∃ mark, (c, mark) ∈ marks ∧ Json.encodeChar c = ['\\', mark]) ∨
      (∀ mark, (c, mark) ∉ marks) ∧
        (Json.encodeChar c = [c] ∧ 0x20 ≤ c.toNat ∧ c.toNat < 0x7f ∨
          Json.encodeChar c = (units c).flatMap Json.unitEscape) := by
  by_cases hshort : c ∈ marks.map Prod.fst
  · obtain ⟨⟨_, mark⟩, hmark, rfl⟩ := List.mem_map.1 hshort
    have hall : ∀ p ∈ marks, Json.encodeChar p.1 = ['\\', p.2] := by decide
    exact .inl ⟨mark, hmark, hall _ hmark⟩
  · refine .inr ⟨fun mark hmark => hshort (List.mem_map_of_mem hmark), ?_⟩
    simp only [marks, List.map_cons, List.map_nil, List.mem_cons, List.not_mem_nil, or_false, not_or] at hshort
    obtain ⟨hquote, hbackslash, hfeed, hreturn, htab, hback, hpage⟩ := hshort
    have hlong : Json.encodeChar c =
        if 0x20 ≤ c.toNat ∧ c.toNat < 0x7f then [c] else (units c).flatMap Json.unitEscape := by
      unfold Json.encodeChar units
      dsimp only
      rw [if_neg hquote, if_neg hbackslash, if_neg hfeed, if_neg hreturn, if_neg htab, if_neg hback, if_neg hpage]
      split
      · rfl
      · split <;> simp
    rw [hlong]
    split
    · next hvisible => exact .inl ⟨rfl, hvisible⟩
    · exact .inr rfl

/-- To Python, a short escape stands for its character, and no other character is mistaken for anything else. -/
lemma encodeChar_cases (c : Char) :
    (∃ mark, Json.encodeChar c = ['\\', mark] ∧ shortEscape? mark = some c.toNat ∧ c.toNat < 0x10000) ∨
      (Json.encodeChar c = [c] ∧ c ≠ '"' ∧ plainStep c = some ([c.toNat], .plain) ∧ c.toNat < 0x10000) ∨
      Json.encodeChar c = (units c).flatMap Json.unitEscape := by
  rcases encodeChar_eq c with ⟨mark, hmark, hwritten⟩ | ⟨hplain, ⟨hwritten, hvisible⟩ | hwritten⟩
  · have hall : ∀ p ∈ marks, shortEscape? p.2 = some p.1.toNat ∧ p.1.toNat < 0x10000 := by decide
    exact .inl ⟨mark, hwritten, hall _ hmark⟩
  · have hne {d : Char} (hd : d ∈ marks.map Prod.fst ∨ d.toNat < 0x20) : c ≠ d := by
      rintro rfl
      rcases hd with hd | hd
      · obtain ⟨⟨_, mark⟩, hmark, rfl⟩ := List.mem_map.1 hd
        exact hplain mark hmark
      · exact absurd hd (by omega)
    have hquote : c ≠ '"' := hne (.inl (by decide))
    have hbackslash : c ≠ '\\' := hne (.inl (by decide))
    have hfeed : c ≠ '\n' := hne (.inl (by decide))
    have hreturn : c ≠ '\r' := hne (.inl (by decide))
    have hnull : c ≠ '\x00' := hne (.inr (by decide))
    exact .inr (.inl ⟨hwritten, hquote, by simp [plainStep, hquote, hbackslash, hfeed, hreturn, hnull], by omega⟩)
  · exact .inr (.inr hwritten)

/-- A character is read as its units. -/
lemma readFrom_encodeChar (c : Char) (rest : List Char) :
    readFrom .plain (Json.encodeChar c ++ rest) =
      (readFrom .plain rest).map fun found => (units c ++ found.1, found.2) := by
  rcases encodeChar_cases c with ⟨mark, hwritten, hmark, hbasic⟩ | ⟨hwritten, -, hplain, hbasic⟩ | hwritten
  · rw [hwritten, units, if_pos hbasic]
    exact readFrom_shortEscape hmark rest
  · rw [hwritten, units, if_pos hbasic, List.singleton_append]
    have hstep : step .plain c = some ([c.toNat], .plain) := hplain
    exact readFrom_of_step (by simp) hstep rest
  · rw [hwritten]
    exact readFrom_unitEscapes (units_lt c) rest

/-- Characters up to the end of the literal. -/
lemma readFrom_encoded (text rest : List Char) :
    readFrom .plain (text.flatMap Json.encodeChar ++ '"' :: rest) = some (text.flatMap units, rest) := by
  induction text with
  | nil =>
    have hclosed : step .plain '"' = some ([], .closed) := rfl
    rw [List.flatMap_nil, List.nil_append, readFrom_of_silent (by simp) hclosed, readFrom]
    rfl
  | cons c text ih =>
    rw [List.flatMap_cons, List.append_assoc, readFrom_encodeChar, ih]
    rfl

/-- No character is written with a quotation mark in front. -/
lemma exists_encodeChar (c : Char) : ∃ first tail, Json.encodeChar c = first :: tail ∧ first ≠ '"' := by
  rcases encodeChar_cases c with ⟨mark, hwritten, -, -⟩ | ⟨hwritten, hquote, -, -⟩ | hwritten
  · exact ⟨_, _, hwritten, by decide⟩
  · exact ⟨_, _, hwritten, hquote⟩
  · rw [hwritten, units]
    split <;> exact ⟨_, _, rfl, by decide⟩

/-- What JSON writes for a text is read to its end, as the UTF-16 units of the text. -/
theorem read_encodeString (text : String) {rest : List Char} (hrest : rest.head? ≠ some '"') :
    read ((Json.encodeString text).toList ++ rest) = some (text.toList.flatMap units, rest) := by
  have hopen : ['"', '"'].isPrefixOf (text.toList.flatMap Json.encodeChar ++ '"' :: rest) = false := by
    cases text.toList with
    | nil =>
      cases rest with
      | nil => rfl
      | cons d rest =>
        have hd : ('"' == d) = false := beq_false_of_ne fun h => hrest (congrArg some h.symm)
        simp [List.isPrefixOf, hd]
    | cons c more =>
      obtain ⟨first, tail, hwritten, hfirst⟩ := exists_encodeChar c
      have hd : ('"' == first) = false := beq_false_of_ne hfirst.symm
      simp [hwritten, List.isPrefixOf, hd]
  rw [Json.encodeString, String.toList_ofList]
  show read ('"' :: ((text.toList.flatMap Json.encodeChar ++ ['"']) ++ rest)) = _
  rw [List.append_assoc, List.singleton_append, read, hopen, if_neg Bool.false_ne_true, readFrom_encoded]

/-- The units of a text are its code points, if all of it is in the basic plane, and only then. -/
lemma units_eq_iff (text : List Char) :
    text.flatMap units = text.map Char.toNat ↔ ∀ c ∈ text, c.toNat < 0x10000 := by
  constructor
  · intro h c hc
    have hmem : c.toNat ∈ text.flatMap units := by
      rw [h]
      exact List.mem_map_of_mem hc
    obtain ⟨d, -, hd⟩ := List.mem_flatMap.1 hmem
    exact units_lt d _ hd
  · intro h
    rw [List.map_eq_flatMap]
    have hunits : text.map units = text.map fun c => [c.toNat] :=
      List.map_congr_left fun c hc => if_pos (h c hc)
    rw [List.flatMap_def, List.flatMap_def, hunits]

end Literal

/-! ## Literals in expressions -/

/-- In a code, a literal with some code points stands between two texts. -/
def HasLiteral (code before : String) (points : List Nat) (behind : String) : Prop :=
  ∃ rest, code.toList = before.toList ++ rest ∧ Literal.read rest = some (points, behind.toList)

/-- The code points of a text. -/
def points (text : String) : List Nat :=
  text.toList.map Char.toNat

lemma hasLiteral_iff {code before text behind : String} (hcode : code = before ++ Json.encodeString text ++ behind)
    (hbehind : behind.toList.head? ≠ some '"') :
    HasLiteral code before (points text) behind ↔ ∀ c ∈ text.toList, c.toNat < 0x10000 := by
  have hread := Literal.read_encodeString text hbehind
  rw [← Literal.units_eq_iff]
  constructor
  · rintro ⟨rest, hrest, hpoints⟩
    rw [hcode, String.toList_append, String.toList_append, List.append_assoc] at hrest
    rw [← List.append_cancel_left hrest, hread] at hpoints
    exact congrArg Prod.fst (Option.some.inj hpoints)
  · intro hunits
    refine ⟨(Json.encodeString text).toList ++ behind.toList, ?_, ?_⟩
    · rw [hcode, String.toList_append, String.toList_append, List.append_assoc]
    · rw [hread, hunits]
      rfl

/-- The texts that an expression has literals for: its key, and a literal or default that is a text. -/
def quoted : Expr → List String
  | .literal (.str text) => [text]
  | .property _ key _ (some (.str text)) => [key, text]
  | .property _ key _ _ => [key]
  | .item _ _ _ (some (.str text)) => [text]
  | .presence _ key => [key]
  | .construct _ argument => quoted argument
  | _ => []

/-- A text stands in a code as a literal, and no other literal begins right behind it. -/
def Quotes (code text : String) : Prop :=
  ∃ before behind, code = before ++ Json.encodeString text ++ behind ∧ behind.toList.head? ≠ some '"'

lemma Quotes.of_eq {code : String} (before text behind : String)
    (h : code = before ++ Json.encodeString text ++ behind) (hbehind : behind.toList.head? ≠ some '"') :
    Quotes code text :=
  ⟨before, behind, h, hbehind⟩

lemma Quotes.append_cons {code text : String} (h : Quotes code text) (start : String) {mark : Char}
    (hmark : mark ≠ '"') (rest : List Char) : Quotes (start ++ code ++ String.ofList (mark :: rest)) text := by
  obtain ⟨before, behind, rfl, hbehind⟩ := h
  refine .of_eq (start ++ before) text (behind ++ String.ofList (mark :: rest)) ?_ ?_
  · simp only [String.append_assoc]
  · rw [String.toList_append, String.toList_ofList]
    cases hchars : behind.toList with
    | nil => simpa using hmark
    | cons c chars =>
      rw [hchars] at hbehind
      exact hbehind

/-- Every text of an expression stands in its code as a literal. -/
lemma quotes_of_expr {m : Model} {e : Expr} {code : String} (hcode : expr m e = .ok code) :
    ∀ text ∈ quoted e, Quotes code text := by
  induction e generalizing code with
  | literal value =>
    cases value with
    | str text =>
      intro text' htext
      obtain rfl := List.mem_singleton.1 htext
      obtain rfl := Except.ok.inj hcode
      exact .of_eq "" text' "" (by simp [literal]) (by decide)
    | _ => exact fun text htext => absurd htext List.not_mem_nil
  | property f key kind default? =>
    cases default? with
    | none =>
      intro text htext
      obtain rfl := List.mem_singleton.1 htext
      obtain rfl := Except.ok.inj hcode
      exact .of_eq (fieldText f ++ "[") text "]" rfl (by decide)
    | some value =>
      obtain rfl := Except.ok.inj hcode
      have hkey : Quotes (fieldText f ++ ".get(" ++ Json.encodeString key ++ ", " ++ literal value ++ ")") key :=
        .of_eq (fieldText f ++ ".get(") key (", " ++ literal value ++ ")") (by simp [String.append_assoc]) (by simp)
      cases value with
      | str text =>
        intro text' htext
        rcases List.mem_cons.1 htext with rfl | htext
        · exact hkey
        · obtain rfl := List.mem_singleton.1 htext
          exact .of_eq (fieldText f ++ ".get(" ++ Json.encodeString key ++ ", ") text' ")" rfl (by decide)
      | _ =>
        intro text htext
        obtain rfl := List.mem_singleton.1 htext
        exact hkey
  | item f index kind default? =>
    cases default? with
    | none => exact fun text htext => absurd htext List.not_mem_nil
    | some value =>
      cases value with
      | str text =>
        intro text' htext
        obtain rfl := List.mem_singleton.1 htext
        obtain rfl := Except.ok.inj hcode
        exact .of_eq _ text' "" (String.append_empty).symm (by decide)
      | _ => exact fun text htext => absurd htext List.not_mem_nil
  | presence f key =>
    intro text htext
    obtain rfl := List.mem_singleton.1 htext
    obtain rfl := Except.ok.inj hcode
    have hshape : Json.encodeString text ++ " in " ++ fieldText f =
        "" ++ Json.encodeString text ++ (" in " ++ fieldText f) := by
      simp [String.append_assoc]
    exact .of_eq "" text (" in " ++ fieldText f) hshape (by simp)
  | construct type argument ih =>
    intro text htext
    obtain ⟨inner, hinner, hcode⟩ := bind_eq_ok.1 hcode
    obtain rfl := Except.ok.inj hcode
    exact (ih hinner text htext).append_cons (m.qualifiedName type ++ "(") (by decide) []
  | field f => exact fun text htext => absurd htext List.not_mem_nil
  | length f => exact fun text htext => absurd htext List.not_mem_nil
  | foreign value => cases hcode

/-- Every text of an expression has a literal in its code. Python reads that literal as the text, if the text is in
the basic plane, and only then. -/
theorem exists_hasLiteral_of_expr {m : Model} {e : Expr} {code : String} (hcode : expr m e = .ok code) :
    ∀ text ∈ quoted e, ∃ before behind, code = before ++ Json.encodeString text ++ behind ∧
      (HasLiteral code before (points text) behind ↔ ∀ c ∈ text.toList, c.toNat < 0x10000) := by
  intro text htext
  obtain ⟨before, behind, hplace, hbehind⟩ := quotes_of_expr hcode text htext
  exact ⟨before, behind, hplace, hasLiteral_iff hplace hbehind⟩

/-! ### Texts in the basic plane and beyond -/

namespace Quoted

def field : Field :=
  { name := "jsonObject", type := { raw := .object } }

/-- A getter with a default, for a key that needs escapes. -/
def lookup : Expr :=
  .property field "a\"\\\n" .string (some (.str "é\x7f\\u0041"))

def model : Model :=
  .empty [] []

end Quoted

/-- Neither quotation marks nor escapes nor letters beyond ASCII are in the way. -/
theorem exists_hasLiteral_of_escapes :
    ∃ code, expr Quoted.model Quoted.lookup = .ok code ∧
      (∃ before behind, HasLiteral code before (points "a\"\\\n") behind) ∧
      ∃ before behind, HasLiteral code before (points "é\x7f\\u0041") behind := by
  have hcode : expr Quoted.model Quoted.lookup = .ok _ := rfl
  have hall := exists_hasLiteral_of_expr hcode
  obtain ⟨before, behind, -, hkey⟩ := hall "a\"\\\n" List.mem_cons_self
  obtain ⟨before', behind', -, hdefault⟩ := hall "é\x7f\\u0041" (List.mem_cons_of_mem _ List.mem_cons_self)
  exact ⟨_, hcode, ⟨before, behind, hkey.2 (by decide)⟩, before', behind', hdefault.2 (by decide)⟩

/-- The key is one character, and the literal that is looked up in its place is two surrogates. -/
theorem surrogates_in_place_of_character :
    ∃ code, expr Quoted.model (.property Quoted.field "😀" .string none) = .ok code ∧ points "😀" = [0x1f600] ∧
      HasLiteral code "self._json_object[" [0xd83d, 0xde00] "]" ∧
      ¬ HasLiteral code "self._json_object[" (points "😀") "]" := by
  have hcode : "self._json_object[\"\\ud83d\\ude00\"]" = "self._json_object[" ++ Json.encodeString "😀" ++ "]" := by
    decide +kernel
  refine ⟨"self._json_object[\"\\ud83d\\ude00\"]", ?_, by decide, ⟨"\"\\ud83d\\ude00\"]".toList, ?_, ?_⟩, ?_⟩
  · rw [hcode]
    rfl
  · decide +kernel
  · decide +kernel
  · rw [hasLiteral_iff hcode (by decide)]
    decide

end SchemaAccessors.Render.Python
