import Mathlib.Tactic.Common
import SchemaAccessors.Proofs.Literals

/-!
# String literals of Java

Java reads a text in two steps: unicode escapes are translated first, wherever they stand, and literals are read from
the UTF-16 units that come out. A text is written as a JSON string, whose escapes belong to both steps. None of those
that the first step translates stands for a quotation mark, a backslash or the end of a line, so the second step finds
the end of the literal where it was written, and in front of it the units of the text.
-/

namespace SchemaAccessors.Render.Java

open Python.Literal (units units_lt)

/-! ## Unicode escapes

A backslash begins an escape if it is followed by a `u` and an even number of backslashes stands in front of it. -/

namespace Escapes

/-- Where the translation stands. -/
inductive Mode
  | plain
  /-- Behind a backslash that may begin an escape. -/
  | backslash
  /-- Behind a `u` of an escape, which may have several. -/
  | marked
  /-- In the digits of an escape: how many are to come after the next one, and the value so far. -/
  | digits (more value : Nat)

def digitStep (more value : Nat) (c : Char) : Option (List Nat × Mode) := do
  let value := value * 16 + (← Text.hexValue? c)
  match more with
  | 0 => some ([value], .plain)
  | more + 1 => some ([], .digits more value)

/-- What one more character adds, and where the translation stands behind it. The second of two backslashes begins
no escape. -/
def step : Mode → Char → Option (List Nat × Mode)
  | .plain, c => some (if c = '\\' then ([], .backslash) else (units c, .plain))
  | .backslash, c =>
    some (if c = 'u' then ([], .marked) else if c = '\\' then ([0x5c, 0x5c], .plain) else (0x5c :: units c, .plain))
  | .marked, c => if c = 'u' then some ([], .marked) else digitStep 3 0 c
  | .digits more value, c => digitStep more value c

/-- The units of a text, unless an escape in it is not complete. -/
def translate : Mode → List Char → Option (List Nat)
  | .plain, [] => some []
  | .backslash, [] => some [0x5c]
  | _, [] => none
  | mode, c :: rest => do
    let (us, next) ← step mode c
    return us ++ (← translate next rest)

lemma translate_of_step {mode next : Mode} {c : Char} {us : List Nat} (h : step mode c = some (us, next))
    (rest : List Char) : translate mode (c :: rest) = (translate next rest).map (us ++ ·) := by
  rw [translate, h, Option.bind_eq_bind, Option.bind_some]
  dsimp only
  cases translate next rest <;> rfl

lemma translate_of_silent {mode next : Mode} {c : Char} (h : step mode c = some ([], next)) (rest : List Char) :
    translate mode (c :: rest) = translate next rest := by
  rw [translate_of_step h]
  exact Option.map_id'

/-- Text without backslashes stands for itself. -/
lemma translate_plain {text : List Char} (h : '\\' ∉ text) (rest : List Char) :
    translate .plain (text ++ rest) = (translate .plain rest).map (text.flatMap units ++ ·) := by
  induction text with
  | nil => exact Option.map_id'.symm
  | cons c text ih =>
    obtain ⟨hc, htext⟩ := List.ne_and_not_mem_of_not_mem_cons h
    have hstep : step .plain c = some (units c, .plain) := congrArg some (if_neg hc.symm)
    rw [List.cons_append, translate_of_step hstep, ih htext, Option.map_map, List.flatMap_cons]
    simp [Function.comp_def]

/-- All digits but the last add to the value. -/
lemma translate_hexDigits {width n : Nat} (hn : n < 16 ^ width) (more value : Nat) (rest : List Char) :
    translate (.digits (width + more) value) (Text.hexDigits width n ++ rest) =
      translate (.digits more (value * 16 ^ width + n)) rest := by
  induction width generalizing n more rest with
  | zero =>
    obtain rfl : n = 0 := by omega
    simp [Text.hexDigits]
  | succ width ih =>
    have hdiv : n / 16 < 16 ^ width := by
      rw [Nat.div_lt_iff_lt_mul (by decide)]
      rwa [Nat.pow_succ] at hn
    have hmod : n % 16 < 16 := Nat.mod_lt n (by decide)
    have hvalue : (value * 16 ^ width + n / 16) * 16 + n % 16 = value * 16 ^ (width + 1) + n := by
      rw [Nat.pow_succ, ← Nat.mul_assoc]
      omega
    have hlast : step (.digits (more + 1) (value * 16 ^ width + n / 16)) (Text.hexDigit (n % 16)) =
        some ([], .digits more (value * 16 ^ (width + 1) + n)) := by
      rw [← hvalue]
      simp [step, digitStep, Text.hexValue?_hexDigit hmod]
    rw [Text.hexDigits, List.append_assoc, List.singleton_append, Nat.succ_add_eq_add_succ, ih hdiv (more + 1),
      translate_of_silent hlast]

/-- The digits of an escape are not mistaken for one more `u`. -/
lemma translate_marked (n : Nat) (rest : List Char) :
    translate .marked (Text.hexDigits 4 n ++ rest) = translate (.digits 3 0) (Text.hexDigits 4 n ++ rest) := by
  have hfirst : ∃ tail, Text.hexDigits 4 n = Text.hexDigit (n / 16 / 16 / 16 % 16) :: tail := ⟨_, rfl⟩
  obtain ⟨tail, htail⟩ := hfirst
  have hdigit : ∀ d < 16, Text.hexDigit d ≠ 'u' := by decide
  have hsame : step .marked (Text.hexDigit (n / 16 / 16 / 16 % 16)) =
      step (.digits 3 0) (Text.hexDigit (n / 16 / 16 / 16 % 16)) := if_neg (hdigit _ (Nat.mod_lt _ (by decide)))
  rw [htail, List.cons_append, translate, translate, hsame]

/-- An escape is translated to its unit. -/
lemma translate_unitEscape {unit : Nat} (h : unit < 0x10000) (rest : List Char) :
    translate .plain (Json.unitEscape unit ++ rest) = (translate .plain rest).map (unit :: ·) := by
  have hdiv : unit / 16 < 16 ^ 3 := by omega
  have hmod : unit % 16 < 16 := Nat.mod_lt unit (by decide)
  have hlast : step (.digits 0 (unit / 16)) (Text.hexDigit (unit % 16)) = some ([unit], .plain) := by
    have hvalue : unit / 16 * 16 + unit % 16 = unit := by omega
    simp [step, digitStep, Text.hexValue?_hexDigit hmod, hvalue]
  have hdigits : Text.hexDigits 4 unit = Text.hexDigits 3 (unit / 16) ++ [Text.hexDigit (unit % 16)] := rfl
  have hfirst := translate_hexDigits hdiv 0 0 (Text.hexDigit (unit % 16) :: rest)
  rw [Nat.zero_mul, Nat.zero_add] at hfirst
  have hbackslash : step .plain '\\' = some ([], .backslash) := rfl
  have hmark : step .backslash 'u' = some ([], .marked) := rfl
  rw [Json.unitEscape, List.cons_append, List.cons_append, translate_of_silent hbackslash, translate_of_silent hmark,
    translate_marked, hdigits, List.append_assoc, List.singleton_append, hfirst, translate_of_step hlast]
  rfl

/-- A backslash in front of anything but a `u` is kept, with what it stands in front of. -/
lemma translate_kept {mark : Char} (hmark : mark ≠ 'u') (hbasic : mark.toNat < 0x10000) (rest : List Char) :
    translate .plain ('\\' :: mark :: rest) = (translate .plain rest).map ([0x5c, mark.toNat] ++ ·) := by
  have hbackslash : step .plain '\\' = some ([], .backslash) := rfl
  have hkept : step .backslash mark = some ([0x5c, mark.toNat], .plain) := by
    by_cases hsecond : mark = '\\'
    · rw [hsecond]
      rfl
    · simp [step, hmark, hsecond, units, hbasic]
  rw [translate_of_silent hbackslash, translate_of_step hkept]

end Escapes

/-! ## Literals -/

namespace Literal

/-- Where a reader of a literal stands. -/
inductive Mode
  | plain
  /-- Behind a backslash. -/
  | escaped
  /-- In an octal escape: how many digits may come, and the value so far. -/
  | octal (more value : Nat)
  | closed

/-- Units that stand for one unit behind a backslash: `b`, `s`, `t`, `n`, `f`, `r`, quotation marks, the backslash. -/
def shortEscape? : Nat → Option Nat
  | 0x62 => some 0x08
  | 0x73 => some 0x20
  | 0x74 => some 0x09
  | 0x6e => some 0x0a
  | 0x66 => some 0x0c
  | 0x72 => some 0x0d
  | 0x22 => some 0x22
  | 0x27 => some 0x27
  | 0x5c => some 0x5c
  | _ => none

def octalValue? (unit : Nat) : Option Nat :=
  if 0x30 ≤ unit ∧ unit < 0x38 then some (unit - 0x30) else none

/-- A unit of a literal, outside of escapes. A line does not end in a literal. -/
def plainStep (unit : Nat) : Option (List Nat × Mode) :=
  if unit = 0x22 then some ([], .closed)
  else if unit = 0x5c then some ([], .escaped)
  else if unit = 0x0a ∨ unit = 0x0d then none
  else some ([unit], .plain)

/-- What one more unit adds, and where the reader stands behind it. An octal escape has three digits if it stands for
less than 256, and nothing is an escape but what is known as one. -/
def step : Mode → Nat → Option (List Nat × Mode)
  | .plain, unit => plainStep unit
  | .escaped, unit =>
    match shortEscape? unit, octalValue? unit with
    | some value, _ => some ([value], .plain)
    | none, some digit => some ([], .octal (if digit < 4 then 2 else 1) digit)
    | none, none => none
  | .octal more value, unit =>
    match more, octalValue? unit with
    | more + 1, some digit => some ([], .octal more (value * 8 + digit))
    | _, _ => (plainStep unit).map fun (us, next) => (value :: us, next)
  | .closed, _ => none

/-- Reads on to the end of the literal: what it stands for, and the units behind it. -/
def readFrom : Mode → List Nat → Option (List Nat × List Nat)
  | .closed, us => some ([], us)
  | _, [] => none
  | mode, unit :: rest => do
    let (us, next) ← step mode unit
    let (more, behind) ← readFrom next rest
    return (us ++ more, behind)

/-- Reads a literal between quotation marks. Three of them open a block of text. -/
def read : List Nat → Option (List Nat × List Nat)
  | 0x22 :: rest => if [0x22, 0x22].isPrefixOf rest then none else readFrom .plain rest
  | _ => none

lemma readFrom_of_step {mode next : Mode} {unit : Nat} {us : List Nat} (hmode : mode ≠ .closed)
    (h : step mode unit = some (us, next)) (rest : List Nat) :
    readFrom mode (unit :: rest) = (readFrom next rest).map fun found => (us ++ found.1, found.2) := by
  rw [readFrom]
  · rw [h, Option.bind_eq_bind, Option.bind_some]
    dsimp only
    cases readFrom next rest <;> rfl
  · exact hmode

lemma readFrom_of_silent {mode next : Mode} {unit : Nat} (hmode : mode ≠ .closed)
    (h : step mode unit = some ([], next)) (rest : List Nat) : readFrom mode (unit :: rest) = readFrom next rest := by
  rw [readFrom_of_step hmode h]
  exact Option.map_id'

/-! ### Reading what JSON writes -/

/-- Characters are written for a content: they are translated to units that begin with no quotation mark, and these
are read as the content. -/
structure Spells (written : List Char) (us content : List Nat) : Prop where
  translated : ∀ rest, Escapes.translate .plain (written ++ rest) = (Escapes.translate .plain rest).map (us ++ ·)
  unquoted : ∃ first tail, us = first :: tail ∧ first ≠ 0x22
  read : ∀ behind, readFrom .plain (us ++ behind) =
    (readFrom .plain behind).map fun found => (content ++ found.1, found.2)

lemma Spells.append {written more : List Char} {us us' content content' : List Nat} (h : Spells written us content)
    (h' : Spells more us' content') : Spells (written ++ more) (us ++ us') (content ++ content') where
  translated rest := by
    rw [List.append_assoc, h.translated, h'.translated, Option.map_map]
    simp [Function.comp_def]
  unquoted := by
    obtain ⟨first, tail, rfl, hfirst⟩ := h.unquoted
    exact ⟨first, tail ++ us', rfl, hfirst⟩
  read behind := by
    rw [List.append_assoc, h.read, h'.read, Option.map_map]
    simp [Function.comp_def]

/-- Units that do not mean anything else in a literal. -/
def Ordinary (unit : Nat) : Prop :=
  unit ∉ [0x22, 0x5c, 0x0a, 0x0d]

lemma readFrom_ordinary {unit : Nat} (h : Ordinary unit) (rest : List Nat) :
    readFrom .plain (unit :: rest) = (readFrom .plain rest).map fun found => ([unit] ++ found.1, found.2) := by
  simp only [Ordinary, List.mem_cons, List.not_mem_nil, or_false, not_or] at h
  exact readFrom_of_step (by simp) (by simp [step, plainStep, h]) rest

lemma spells_visible {c : Char} (h : Ordinary c.toNat) (hbasic : c.toNat < 0x10000) :
    Spells [c] [c.toNat] [c.toNat] where
  translated rest := by
    have hbackslash : '\\' ∉ [c] := by
      rw [List.mem_singleton]
      rintro rfl
      exact h (by decide)
    rw [Escapes.translate_plain hbackslash, List.flatMap_singleton, units, if_pos hbasic]
  unquoted := ⟨_, _, rfl, fun heq => h (heq ▸ List.mem_cons_self)⟩
  read behind := readFrom_ordinary h behind

lemma spells_shortEscape {mark : Char} {value : Nat} (h : shortEscape? mark.toNat = some value) (hu : mark ≠ 'u')
    (hbasic : mark.toNat < 0x10000) : Spells ['\\', mark] [0x5c, mark.toNat] [value] where
  translated := Escapes.translate_kept hu hbasic
  unquoted := ⟨_, _, rfl, by decide⟩
  read behind := by
    have hbackslash : step .plain 0x5c = some ([], .escaped) := rfl
    have hescape : step .escaped mark.toNat = some ([value], .plain) := by
      simp [step, h]
    rw [List.cons_append, List.singleton_append, readFrom_of_silent (by simp) hbackslash,
      readFrom_of_step (by simp) hescape]

lemma spells_unitEscape {unit : Nat} (h : Ordinary unit) (hunit : unit < 0x10000) :
    Spells (Json.unitEscape unit) [unit] [unit] where
  translated := Escapes.translate_unitEscape hunit
  unquoted := ⟨_, _, rfl, fun heq => h (heq ▸ List.mem_cons_self)⟩
  read behind := readFrom_ordinary h behind

/-- A character is written for its units. -/
lemma exists_spells_encodeChar (c : Char) : ∃ us, Spells (Json.encodeChar c) us (units c) := by
  rcases Python.Literal.encodeChar_eq c with ⟨mark, hmark, hwritten⟩ | ⟨hplain, hwritten⟩
  · have hall : ∀ p ∈ Python.Literal.marks, shortEscape? p.2.toNat = some p.1.toNat ∧ p.2 ≠ 'u' ∧
        p.2.toNat < 0x10000 ∧ units p.1 = [p.1.toNat] := by decide
    obtain ⟨hescape, hu, hbasic, hunits⟩ := hall _ hmark
    rw [hwritten, hunits]
    exact ⟨_, spells_shortEscape hescape hu hbasic⟩
  · have hordinary : Ordinary c.toNat := by
      intro hmem
      have hall : ∀ n ∈ [0x22, 0x5c, 0x0a, 0x0d], ∃ mark, (Char.ofNat n, mark) ∈ Python.Literal.marks := by
        simp [Python.Literal.marks]
      obtain ⟨mark, hmark⟩ := hall _ hmem
      rw [Char.ofNat_toNat] at hmark
      exact hplain mark hmark
    rcases hwritten with ⟨hwritten, hvisible⟩ | hwritten
    · have hbasic : c.toNat < 0x10000 := by omega
      rw [hwritten, units, if_pos hbasic]
      exact ⟨_, spells_visible hordinary hbasic⟩
    · have hlt := units_lt c
      rw [hwritten]
      unfold units at hlt ⊢
      split
      · rename_i hbasic
        simp only [List.flatMap_singleton]
        exact ⟨_, spells_unitEscape hordinary hbasic⟩
      · next hbeyond =>
        rw [if_neg hbeyond] at hlt
        obtain ⟨hhigh, hlow⟩ := List.forall_mem_cons.1 hlt
        have hsurrogate {unit : Nat} (hunit : 0xd800 ≤ unit) : Ordinary unit := by
          simp only [Ordinary, List.mem_cons, List.not_mem_nil, or_false]
          omega
        simp only [List.flatMap_cons, List.flatMap_nil, List.append_nil]
        exact ⟨_, (spells_unitEscape (hsurrogate (by omega)) hhigh).append
          (spells_unitEscape (hsurrogate (by omega)) (hlow _ List.mem_cons_self))⟩

/-- What JSON writes for a text is, to Java, one literal that ends at its own last mark, and stands for the units of
the text. -/
theorem exists_read_encodeString (text : String) : ∃ us,
    (∀ rest, Escapes.translate .plain ((Json.encodeString text).toList ++ rest) =
      (Escapes.translate .plain rest).map (us ++ ·)) ∧
    ∀ behind, behind.head? ≠ some 0x22 → read (us ++ behind) = some (text.toList.flatMap units, behind) := by
  have hopening : Escapes.step .plain '"' = some ([0x22], .plain) := rfl
  have hclosing (behind : List Nat) : readFrom .plain (0x22 :: behind) = some ([], behind) := by
    have hclosed : step .plain 0x22 = some ([], .closed) := rfl
    rw [readFrom_of_silent (by simp) hclosed, readFrom]
  cases hchars : text.toList with
  | nil =>
    refine ⟨[0x22, 0x22], fun rest => ?_, fun behind hbehind => ?_⟩
    · simp only [Json.encodeString, hchars, String.toList_ofList, List.flatMap_nil, List.cons_append,
        List.nil_append, Escapes.translate_of_step hopening, Option.map_map]
      rfl
    · have hblock : [0x22, 0x22].isPrefixOf (0x22 :: behind) = false := by
        cases behind with
        | nil => rfl
        | cons unit behind =>
          have hne : (0x22 == unit) = false := beq_false_of_ne fun h => hbehind (congrArg some h.symm)
          simp [List.isPrefixOf, hne]
      rw [List.cons_append, List.singleton_append, read, hblock, if_neg Bool.false_ne_true, hclosing]
      rfl
  | cons c chars =>
    have hspells : ∃ us, Spells ((c :: chars).flatMap Json.encodeChar) us ((c :: chars).flatMap units) := by
      clear hchars
      induction chars generalizing c with
      | nil => simpa using exists_spells_encodeChar c
      | cons d chars ih =>
        obtain ⟨us, hus⟩ := exists_spells_encodeChar c
        obtain ⟨us', hus'⟩ := ih d
        exact ⟨us ++ us', hus.append hus'⟩
    obtain ⟨us, hus⟩ := hspells
    obtain ⟨first, tail, hfirst, hne⟩ := hus.unquoted
    refine ⟨0x22 :: us ++ [0x22], fun rest => ?_, fun behind _ => ?_⟩
    · rw [Json.encodeString, hchars, String.toList_ofList, List.cons_append, List.cons_append,
        Escapes.translate_of_step hopening, List.append_assoc, hus.translated, List.singleton_append,
        Escapes.translate_of_step hopening]
      simp [Option.map_map, Function.comp_def]
    · have hblock : [0x22, 0x22].isPrefixOf (us ++ 0x22 :: behind) = false := by
        have hmark : (0x22 == first) = false := beq_false_of_ne hne.symm
        simp [hfirst, List.isPrefixOf, hmark]
      rw [List.append_assoc, List.singleton_append, List.cons_append, read, hblock, if_neg Bool.false_ne_true,
        hus.read, hclosing]
      simp

end Literal

end SchemaAccessors.Render.Java
