import Mathlib
import SchemaAccessors.Output.Check
import SchemaAccessors.Proofs.Outcome
import SchemaAccessors.Proofs.Printing

/-!
# Braces of Java code

The check of Java code counts the braces of a file, in strings and comments as well as in code. Code itself closes
what it opens, so a file passes if the texts that are copied into it balance. To follow this through the rendering,
`surplus` counts by how many braces a text opens more than it closes. It adds up over whatever is joined, and neither
escaping nor cutting into lines, indenting or trimming changes it.
-/

namespace SchemaAccessors

/-! ## Counting braces -/

namespace Text

/-- By how many braces a text opens more than it closes. -/
def surplus (text : List Char) : Int :=
  text.count '\x7b' - text.count '\x7d'

@[simp] lemma surplus_append (a b : List Char) : surplus (a ++ b) = surplus a + surplus b := by
  simp only [surplus, List.count_append]
  omega

lemma surplus_cons (c : Char) (text : List Char) : surplus (c :: text) = surplus [c] + surplus text :=
  surplus_append [c] text

lemma surplus_eq_zero {text : List Char} (h : ∀ c ∈ text, c ≠ '\x7b' ∧ c ≠ '\x7d') : surplus text = 0 := by
  have hopening : text.count '\x7b' = 0 := List.count_eq_zero.2 fun hmem => (h _ hmem).1 rfl
  have hclosing : text.count '\x7d' = 0 := List.count_eq_zero.2 fun hmem => (h _ hmem).2 rfl
  simp [surplus, hopening, hclosing]

lemma surplus_singleton {c : Char} (h : c ≠ '\x7b' ∧ c ≠ '\x7d') : surplus [c] = 0 :=
  surplus_eq_zero fun _ hd => List.mem_singleton.1 hd ▸ h

lemma surplus_alphanum {text : String} (h : ∀ c ∈ text.toList, c.isAlphanum = true) : surplus text.toList = 0 := by
  refine surplus_eq_zero fun c hc => ⟨?_, ?_⟩ <;>
  · rintro rfl
    exact absurd (h _ hc) (by decide)

lemma surplus_numeral {text : List Char} (h : ∀ c ∈ text, IsNumeral c) : surplus text = 0 := by
  refine surplus_eq_zero fun c hc => ⟨?_, ?_⟩ <;>
  · rintro rfl
    exact absurd (h _ hc) (by decide)

lemma surplus_reverse (text : List Char) : surplus text.reverse = surplus text := by
  simp [surplus]

/-- Taking away what is no brace changes nothing. -/
lemma surplus_dropWhile {p : Char → Bool} (hopening : p '\x7b' = false) (hclosing : p '\x7d' = false)
    (text : List Char) : surplus (text.dropWhile p) = surplus text := by
  have htaken : surplus (text.takeWhile p) = 0 := by
    refine surplus_eq_zero fun c hc => ⟨?_, ?_⟩ <;>
    · rintro rfl
      have htrue := List.mem_takeWhile_imp hc
      simp_all
  conv_rhs => rw [← List.takeWhile_append_dropWhile (p := p) (l := text), surplus_append, htaken, zero_add]

lemma surplus_intercalate {separator : String} (h : surplus separator.toList = 0) (texts : List String) :
    surplus (String.intercalate separator texts).toList = (texts.map fun text => surplus text.toList).sum := by
  induction texts with
  | nil => rfl
  | cons text texts ih =>
    cases texts with
    | nil => simp
    | cons next rest =>
      rw [String.intercalate_cons_cons, String.toList_append, String.toList_append, surplus_append, surplus_append, h,
        ih]
      simp

lemma surplus_intercalate_eq_zero {separator : String} (h : surplus separator.toList = 0) {texts : List String}
    (htexts : ∀ text ∈ texts, surplus text.toList = 0) :
    surplus (String.intercalate separator texts).toList = 0 := by
  rw [surplus_intercalate h]
  refine List.sum_eq_zero fun x hx => ?_
  obtain ⟨text, htext, rfl⟩ := List.mem_map.1 hx
  exact htexts text htext

/-- Line ends are no braces, so the lines of a text have its braces. -/
lemma surplus_linesFrom (line text : List Char) :
    ((linesFrom line text).map surplus).sum = surplus line + surplus text := by
  have hend {c : Char} (h : isLineEnd c = true) : surplus [c] = 0 := by
    refine surplus_singleton ⟨?_, ?_⟩ <;>
    · rintro rfl
      exact absurd h (by decide)
  have hreturn : surplus ['\r'] = 0 := by decide
  have hfeed : surplus ['\n'] = 0 := by decide
  have hnil : surplus [] = 0 := rfl
  fun_induction linesFrom line text with
  | case1 line hempty =>
    rw [List.isEmpty_iff.1 hempty]
    rfl
  | case2 line hempty => simp [surplus_reverse, hnil]
  | case3 line rest ih =>
    rw [List.map_cons, List.sum_cons, ih, surplus_reverse, surplus_cons '\r', surplus_cons '\n']
    omega
  | case4 line c rest hpair hc ih =>
    rw [List.map_cons, List.sum_cons, ih, surplus_reverse, surplus_cons c rest, hend hc]
    omega
  | case5 line c rest hpair hc ih =>
    rw [ih, surplus_cons c line, surplus_cons c rest]
    omega

lemma surplus_trimRight (text : String) : surplus (trimRight text).toList = surplus text.toList := by
  rw [trimRight, String.toList_ofList, surplus_reverse, surplus_dropWhile (by decide) (by decide), surplus_reverse]

end Text

open Text (surplus surplus_append)

/-! ## JSON text -/

namespace Json

lemma surplus_hexDigits (width n : Nat) : surplus (Text.hexDigits width n) = 0 := by
  have hdigit : ∀ n < 16, surplus [Text.hexDigit n] = 0 := by decide
  induction width generalizing n with
  | zero => rfl
  | succ width ih =>
    rw [Text.hexDigits, surplus_append, ih, hdigit _ (Nat.mod_lt _ (by omega))]
    rfl

lemma surplus_unitEscape (unit : Nat) : surplus (unitEscape unit) = 0 := by
  have hmark : surplus ['\\', 'u'] = 0 := by decide
  show surplus (['\\', 'u'] ++ Text.hexDigits 4 unit) = 0
  rw [surplus_append, hmark, surplus_hexDigits, add_zero]

/-- Braces stand for themselves in a string, and no escape has any. -/
lemma surplus_encodeChar (c : Char) : surplus (encodeChar c) = surplus [c] := by
  have hother (h : ¬ (0x20 ≤ c.toNat ∧ c.toNat < 0x7f)) : surplus [c] = 0 := by
    refine Text.surplus_singleton ⟨?_, ?_⟩ <;>
    · rintro rfl
      exact h (by decide)
  unfold encodeChar
  dsimp only
  split_ifs with h₁ h₂ h₃ h₄ h₅ h₆ h₇ hshown
  · rw [h₁]; decide
  · rw [h₂]; decide
  · rw [h₃]; decide
  · rw [h₄]; decide
  · rw [h₅]; decide
  · rw [h₆]; decide
  · rw [h₇]; decide
  · rfl
  · rw [surplus_unitEscape, hother hshown]
  · rw [surplus_append, surplus_unitEscape, surplus_unitEscape, hother hshown, add_zero]

lemma surplus_encodeString (text : String) : surplus (encodeString text).toList = surplus text.toList := by
  have hchars (chars : List Char) : surplus (chars.flatMap encodeChar) = surplus chars := by
    induction chars with
    | nil => rfl
    | cons c chars ih => rw [List.flatMap_cons, surplus_append, surplus_encodeChar, ih, Text.surplus_cons c chars]
  have hmark : surplus ['"'] = 0 := by decide
  rw [encodeString, String.toList_ofList, surplus_append, Text.surplus_cons, hchars, hmark, zero_add, add_zero]

lemma surplus_bool (b : Bool) : surplus (if b then "true" else "false").toList = 0 := by
  cases b <;> decide

mutual

/-- A value on one line closes the braces that it opens, if its texts do. -/
lemma surplus_compact : (value : Json) → (∀ text ∈ value.texts, surplus text.toList = 0) →
    surplus value.compact.toList = 0
  | null, _ => by decide
  | bool b, _ => surplus_bool b
  | int n, _ => Text.surplus_numeral (isNumeral_int n)
  | float x, _ => Text.surplus_numeral x.isNumeral_json
  | str s, h => (surplus_encodeString s).trans (h s List.mem_cons_self)
  | arr xs, h => by
    have hseparator : surplus ", ".toList = 0 := by decide
    have hparts := Text.surplus_intercalate_eq_zero hseparator (surplus_compactElements xs h)
    simp only [compact, String.toList_append, surplus_append, hparts]
    decide
  | obj ms, h => by
    have hseparator : surplus ", ".toList = 0 := by decide
    have hparts := Text.surplus_intercalate_eq_zero hseparator (surplus_compactMembers ms h)
    simp only [compact, String.toList_append, surplus_append, hparts]
    decide

lemma surplus_compactElements : (xs : List Json) → (∀ text ∈ elementTexts xs, surplus text.toList = 0) →
    ∀ part ∈ compactElements xs, surplus part.toList = 0
  | [], _ => fun part hpart => (List.not_mem_nil hpart).elim
  | x :: xs, h => by
    obtain ⟨hx, hxs⟩ := List.forall_mem_append.1 h
    exact List.forall_mem_cons.2 ⟨surplus_compact x hx, surplus_compactElements xs hxs⟩

lemma surplus_compactMembers : (ms : Members) → (∀ text ∈ memberTexts ms, surplus text.toList = 0) →
    ∀ part ∈ compactMembers ms, surplus part.toList = 0
  | [], _ => fun part hpart => (List.not_mem_nil hpart).elim
  | (key, x) :: ms, h => by
    obtain ⟨hkey, hrest⟩ := List.forall_mem_cons.1 h
    obtain ⟨hx, hms⟩ := List.forall_mem_append.1 hrest
    refine List.forall_mem_cons.2 ⟨?_, surplus_compactMembers ms hms⟩
    simp only [String.toList_append, surplus_append, surplus_encodeString, hkey, surplus_compact x hx]
    decide

end

lemma surplus_indentation (depth : Nat) : surplus (indentation depth).toList = 0 := by
  refine Text.surplus_eq_zero fun c hc => ?_
  rw [indentation, String.toList_ofList] at hc
  rw [List.eq_of_mem_replicate hc]
  decide

lemma surplus_block {depth : Nat} {opening closing : String} {parts : List String}
    (hmarks : surplus opening.toList + surplus closing.toList = 0) (hparts : ∀ part ∈ parts, surplus part.toList = 0) :
    surplus (block depth opening closing parts).toList = 0 := by
  have hfeed : surplus "\n".toList = 0 := by decide
  have hcomma : surplus ",".toList = 0 := by decide
  have hseparator : surplus ("," ++ ("\n" ++ indentation (depth + 1))).toList = 0 := by
    simp only [String.toList_append, surplus_append, hfeed, hcomma, surplus_indentation]
    rfl
  have hjoined := Text.surplus_intercalate_eq_zero hseparator hparts
  simp only [block, String.toList_append, surplus_append, hfeed, surplus_indentation] at hjoined ⊢
  omega

mutual

lemma surplus_indentedAt (depth : Nat) : (value : Json) → (∀ text ∈ value.texts, surplus text.toList = 0) →
    surplus (value.indentedAt depth).toList = 0
  | null, _ => by
    rw [indentedAt]
    decide
  | bool b, _ => surplus_bool b
  | int n, _ => Text.surplus_numeral (isNumeral_int n)
  | float x, _ => Text.surplus_numeral x.isNumeral_json
  | str s, h => (surplus_encodeString s).trans (h s List.mem_cons_self)
  | arr [], _ => by
    rw [indentedAt]
    decide
  | arr (x :: xs), h => by
    obtain ⟨hx, hxs⟩ := List.forall_mem_append.1 h
    rw [indentedAt]
    refine surplus_block (by decide) (List.forall_mem_cons.2 ⟨surplus_indentedAt (depth + 1) x hx, ?_⟩)
    exact surplus_indentedElements (depth + 1) xs hxs
  | obj [], _ => by
    rw [indentedAt]
    decide
  | obj ((key, x) :: ms), h => by
    obtain ⟨hkey, hrest⟩ := List.forall_mem_cons.1 h
    obtain ⟨hx, hms⟩ := List.forall_mem_append.1 hrest
    rw [indentedAt]
    refine surplus_block (by decide) (List.forall_mem_cons.2 ⟨?_, surplus_indentedMembers (depth + 1) ms hms⟩)
    simp only [String.toList_append, surplus_append, surplus_encodeString, hkey, surplus_indentedAt (depth + 1) x hx]
    decide

lemma surplus_indentedElements (depth : Nat) : (xs : List Json) →
    (∀ text ∈ elementTexts xs, surplus text.toList = 0) →
    ∀ part ∈ indentedElements depth xs, surplus part.toList = 0
  | [], _ => fun part hpart => (List.not_mem_nil hpart).elim
  | x :: xs, h => by
    obtain ⟨hx, hxs⟩ := List.forall_mem_append.1 h
    exact List.forall_mem_cons.2 ⟨surplus_indentedAt depth x hx, surplus_indentedElements depth xs hxs⟩

lemma surplus_indentedMembers (depth : Nat) : (ms : Members) →
    (∀ text ∈ memberTexts ms, surplus text.toList = 0) →
    ∀ part ∈ indentedMembers depth ms, surplus part.toList = 0
  | [], _ => fun part hpart => (List.not_mem_nil hpart).elim
  | (key, x) :: ms, h => by
    obtain ⟨hkey, hrest⟩ := List.forall_mem_cons.1 h
    obtain ⟨hx, hms⟩ := List.forall_mem_append.1 hrest
    refine List.forall_mem_cons.2 ⟨?_, surplus_indentedMembers depth ms hms⟩
    simp only [String.toList_append, surplus_append, surplus_encodeString, hkey, surplus_indentedAt depth x hx]
    decide

end

end Json

end SchemaAccessors
