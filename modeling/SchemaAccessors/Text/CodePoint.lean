import SchemaAccessors.Text.Hex
import SchemaAccessors.Text.Utf8

/-!
# Texts with surrogates on their own

An escape can name one half of a surrogate pair without the other half. The text that is read then has a code
point that is no character: there is no UTF-8 for it, so the text cannot be written as octets. Where only
characters will do, U+FFFD stands for it.
-/

namespace SchemaAccessors

/-- A code point of a text that was read: a character, or a surrogate on its own. -/
inductive CodePoint
  | char (c : Char)
  /-- U+D800 and `offset` more. -/
  | surrogate (offset : Fin 0x800)
deriving DecidableEq, Repr

namespace CodePoint

/-- The code point of a number. -/
def ofNat (n : Nat) : CodePoint :=
  if h : 0xd800 ≤ n ∧ n ≤ 0xdfff then .surrogate ⟨n - 0xd800, by omega⟩ else .char (Char.ofNat n)

def char? : CodePoint → Option Char
  | char c => some c
  | surrogate _ => none

def surrogate? : CodePoint → Option (Fin 0x800)
  | char _ => none
  | surrogate offset => some offset

/-- The character, or the one that stands for a surrogate. -/
def toChar (p : CodePoint) : Char :=
  p.char?.getD Text.Utf8.replacement

end CodePoint

/-- A text that was read. -/
abbrev CodePoints := List CodePoint

/-- Why a text cannot be written as octets: the surrogates that stand together first, and the count of code points
before them. -/
structure Unencodable where
  before : Nat
  surrogates : List (Fin 0x800)
deriving DecidableEq, Repr

def Unencodable.message (u : Unencodable) : String :=
  let found := match u.surrogates with
    | [offset] =>
      s!"character '\\u{String.ofList (Text.hexDigits 4 (0xd800 + offset))}' in position {u.before}"
    | offsets => s!"characters in position {u.before}-{u.before + offsets.length - 1}"
  s!"'utf-8' codec can't encode {found}: surrogates not allowed"

namespace CodePoints

def ofString (text : String) : CodePoints :=
  text.toList.map .char

/-- The text with U+FFFD for each surrogate. -/
def replaced (t : CodePoints) : String :=
  String.ofList (t.map CodePoint.toChar)

/-- What is wrong with a text that has a surrogate. -/
def fault (t : CodePoints) : Unencodable :=
  let first := t.dropWhile (·.char?.isSome)
  ⟨t.length - first.length, (first.takeWhile (·.surrogate?.isSome)).filterMap CodePoint.surrogate?⟩

/-- The characters, if there are no surrogates. -/
def characters? : CodePoints → Option (List Char)
  | [] => some []
  | .char c :: rest => (characters? rest).map (c :: ·)
  | .surrogate _ :: _ => none

/-! ## Texts of characters -/

theorem ofString_injective {s t : String} (h : ofString s = ofString t) : s = t :=
  String.toList_injective (List.map_inj_right (fun _ _ hc => CodePoint.char.inj hc) |>.1 h)

@[simp] theorem replaced_ofString (s : String) : (ofString s).replaced = s := by
  have hchars : s.toList.map (CodePoint.toChar ∘ .char) = s.toList := List.map_id' s.toList
  rw [replaced, ofString, List.map_map, hchars, String.ofList_toList]

theorem characters?_eq_some_iff {t : CodePoints} {chars : List Char} :
    t.characters? = some chars ↔ t = chars.map .char := by
  induction t generalizing chars with
  | nil => cases chars <;> simp [characters?]
  | cons p rest ih =>
    cases p with
    | char c =>
      simp only [characters?, Option.map_eq_some_iff, ih]
      cases chars with
      | nil => simp
      | cons d ds =>
        simp only [List.map_cons, List.cons.injEq, CodePoint.char.injEq]
        constructor
        · rintro ⟨_, hrest, rfl, rfl⟩
          exact ⟨rfl, hrest⟩
        · rintro ⟨rfl, hrest⟩
          exact ⟨ds, hrest, rfl, rfl⟩
    | surrogate offset => cases chars <;> simp [characters?]

@[simp] theorem characters?_ofString (s : String) : (ofString s).characters? = some s.toList :=
  characters?_eq_some_iff.2 rfl

/-- A text has characters only, or a surrogate. -/
theorem characters?_eq_none_iff {t : CodePoints} :
    t.characters? = none ↔ ∃ offset, CodePoint.surrogate offset ∈ t := by
  induction t with
  | nil => simp [characters?]
  | cons p rest ih => cases p <;> simp [characters?, ih]

/-- Where nothing was replaced, the text has characters only. -/
theorem replaced_eq_iff {t : CodePoints} {s : String} (h : Text.Utf8.replacement ∉ s.toList) :
    t.replaced = s ↔ t = ofString s := by
  constructor
  · intro hs
    have hchars : t.map CodePoint.toChar = s.toList := by
      rw [← hs, replaced, String.toList_ofList]
    rw [ofString, ← hchars, List.map_map]
    refine (List.map_id' t).symm.trans (List.map_congr_left fun p hp => ?_)
    cases p with
    | char c => rfl
    | surrogate offset =>
      refine absurd ?_ h
      rw [← hchars]
      exact List.mem_map.2 ⟨_, hp, rfl⟩
  · rintro rfl
    exact replaced_ofString s

end CodePoints

end SchemaAccessors
