import SchemaAccessors.Proofs.JavaCode
import SchemaAccessors.Proofs.JavaStrings

/-!
# Literals in Java expressions

Keys and defaults are the only texts that an expression has from a schema, and each is written as a literal. Between
two literals there are names and marks that begin no literal, no comment and no escape, so the literals can be told
from what is around them: `Written` is how the code of an expression is put together, and from it comes what Java finds
in the code when it has translated the unicode escapes, in the code alone and in a file around it.
-/

namespace SchemaAccessors.Render.Java

open Python.Literal (units)

/-! ## Translating what stands in front of a literal -/

namespace Escapes

lemma translate_of_broken {mode : Mode} {c : Char} (h : step mode c = none) (rest : List Char) :
    translate mode (c :: rest) = none := by
  rw [translate, h]
  rfl

/-- A character that stands for itself and cannot go on with an escape. -/
def EndsEscapes (c : Char) : Prop :=
  c.toNat < 0x10000 ∧ c ≠ 'u' ∧ c ≠ '\\' ∧ Text.hexValue? c = none

instance (c : Char) : Decidable (EndsEscapes c) :=
  inferInstanceAs (Decidable (_ ∧ _))

/-- What is in front of a character that ends every escape is translated without regard to what follows. -/
lemma translate_append_cons {c : Char} (hc : EndsEscapes c) (mode : Mode) (text rest : List Char) :
    translate mode (text ++ c :: rest) =
      (translate mode text).bind fun us => (translate .plain rest).map (us ++ c.toNat :: ·) := by
  obtain ⟨hbasic, hu, hbackslash, hdigit⟩ := hc
  have hunits : units c = [c.toNat] := if_pos hbasic
  induction text generalizing mode with
  | nil =>
    rw [List.nil_append]
    cases mode with
    | plain =>
      have hstep : step .plain c = some ([c.toNat], .plain) := by simp [step, hbackslash, hunits]
      rw [translate_of_step hstep, translate, Option.bind_some]
      rfl
    | backslash =>
      have hstep : step .backslash c = some ([0x5c, c.toNat], .plain) := by simp [step, hu, hbackslash, hunits]
      rw [translate_of_step hstep, translate, Option.bind_some]
      rfl
    | marked => exact translate_of_broken (by simp [step, hu, digitStep, hdigit]) rest
    | digits more value => exact translate_of_broken (by simp [step, digitStep, hdigit]) rest
  | cons d text ih =>
    rw [List.cons_append]
    cases hstep : step mode d with
    | none => rw [translate_of_broken hstep, translate_of_broken hstep, Option.bind_none]
    | some found =>
      obtain ⟨us, next⟩ := found
      rw [translate_of_step hstep, translate_of_step hstep, ih]
      cases translate next text <;> simp [Function.comp_def]

/-- A quotation mark ends every escape. -/
lemma translate_append_mark (mode : Mode) (text rest : List Char) :
    translate mode (text ++ '"' :: rest) =
      (translate mode text).bind fun us => (translate .plain ('"' :: rest)).map (us ++ ·) := by
  have hmark : step .plain '"' = some ([0x22], .plain) := rfl
  simp only [translate_append_cons (c := '"') (by decide), translate_of_step hmark, Option.map_map]
  rfl

end Escapes

/-! ## Codes with literals -/

/-- A character that begins and ends no literal, no comment and no escape. -/
def IsBetween (c : Char) : Prop :=
  c ∉ ['"', '\x27', '/', '\\']

instance (c : Char) : Decidable (IsBetween c) :=
  inferInstanceAs (Decidable (¬ _))

/-- A code is put together from literals for some texts, and from characters of some kind. A mark stands between any
two literals. -/
inductive Written (P : Char → Prop) : List Char → List String → Prop
  | plain {text : List Char} (h : ∀ c ∈ text, P c) : Written P text []
  | literal (text : String) : Written P (Json.encodeString text).toList [text]
  | behind {gap code : List Char} {found : List String} (hgap : ∀ c ∈ gap, P c) (h : Written P code found) :
      Written P (gap ++ code) found
  | append {code code' : List Char} {found found' : List String} {mark : Char} (h : Written P code found)
      (hmark : IsBetween mark) (h' : Written P code' found') : Written P (code ++ mark :: code') (found ++ found')

namespace Written

variable {P : Char → Prop} {code : List Char} {found : List String}

/-- Every text of a code has a literal in it, and what is behind the literal does not go on with it. -/
lemma exists_literal (h : Written P code found) {text : String} (htext : text ∈ found) :
    ∃ before behind, code = before ++ (Json.encodeString text).toList ++ behind ∧
      ∀ c, behind.head? = some c → IsBetween c := by
  induction h with
  | plain h => cases htext
  | literal text' =>
    obtain rfl := List.mem_singleton.1 htext
    exact ⟨[], [], by simp, nofun⟩
  | @behind gap code found hgap h ih =>
    obtain ⟨before, behind, rfl, hbehind⟩ := ih htext
    exact ⟨gap ++ before, behind, by simp, hbehind⟩
  | @append code code' found found' mark h hmark h' ih ih' =>
    rcases List.mem_append.1 htext with htext | htext
    · obtain ⟨before, behind, rfl, hbehind⟩ := ih htext
      refine ⟨before, behind ++ mark :: code', by simp, fun c hc => ?_⟩
      cases behind with
      | nil =>
        obtain rfl : mark = c := Option.some.inj hc
        exact hmark
      | cons d behind => exact hbehind c hc
    · obtain ⟨before, behind, rfl, hbehind⟩ := ih' htext
      exact ⟨code ++ mark :: before, behind, by simp, hbehind⟩

/-- The last literal has a mark behind it. -/
lemma before {mark : Char} (h : Written P code found) (hmark : IsBetween mark) : Written P (code ++ [mark]) found := by
  have hnone : Written P [] [] := .plain nofun
  have happend := Written.append h hmark hnone
  rwa [List.append_nil] at happend

variable (hP : ∀ c, IsBetween c → P c)

include hP

lemma text {gap : List Char} (h : ∀ c ∈ gap, IsBetween c) : Written P gap [] :=
  .plain fun c hc => hP c (h c hc)

lemma marks {gap : List Char} (hgap : ∀ c ∈ gap, IsBetween c) (h : Written P code found) :
    Written P (gap ++ code) found :=
  .behind (fun c hc => hP c (hgap c hc)) h

end Written

/-! ### Reading them -/

namespace Literal

/-- What is found in units without comments and character literals: the contents of the literals, in their order. -/
inductive Scans : List Nat → List (List Nat) → Prop
  | nil : Scans [] []
  | other {unit : Nat} {us : List Nat} {found : List (List Nat)} (h : unit ∉ [0x22, 0x27, 0x2f, 0x5c])
      (rest : Scans us found) : Scans (unit :: us) found
  | literal {us content behind : List Nat} {found : List (List Nat)} (h : read us = some (content, behind))
      (rest : Scans behind found) : Scans us (content :: found)

/-- A unit that is no surrogate is a character. -/
lemma eq_ofNat_of_mem_units {c : Char} {unit : Nat} (hunit : unit ∈ units c) (hlt : unit < 0xd800) :
    c = Char.ofNat unit := by
  unfold Python.Literal.units at hunit
  split at hunit
  · rw [List.mem_singleton.1 hunit, Char.ofNat_toNat]
  · simp only [List.mem_cons, List.not_mem_nil, or_false] at hunit
    omega

/-- The units of what is between literals are no marks either. -/
lemma notMem_of_units {c : Char} (hc : IsBetween c) {unit : Nat} (hunit : unit ∈ units c) :
    unit ∉ [0x22, 0x27, 0x2f, 0x5c] := by
  intro hmark
  have hsmall : ∀ n ∈ [0x22, 0x27, 0x2f, 0x5c], n < 0xd800 ∧ ¬ IsBetween (Char.ofNat n) := by decide
  obtain ⟨hlt, hnot⟩ := hsmall unit hmark
  rw [eq_ofNat_of_mem_units hunit hlt] at hc
  exact hnot hc

lemma units_ne_nil (c : Char) : units c ≠ [] := by
  unfold Python.Literal.units
  split <;> simp

/-- What is between literals holds none. -/
lemma Scans.between {text : List Char} (h : ∀ c ∈ text, IsBetween c) {behind : List Nat} {found : List (List Nat)}
    (hbehind : Scans behind found) : Scans (text.flatMap units ++ behind) found := by
  have hunits : ∀ unit ∈ text.flatMap units, unit ∉ [0x22, 0x27, 0x2f, 0x5c] := by
    intro unit hunit
    obtain ⟨c, hc, hmem⟩ := List.mem_flatMap.1 hunit
    exact notMem_of_units (h c hc) hmem
  generalize text.flatMap units = us at hunits
  induction us with
  | nil => exact hbehind
  | cons unit us ih =>
    obtain ⟨hunit, hus⟩ := List.forall_mem_cons.1 hunits
    exact .other hunit (ih hus)

/-- Nothing but a quotation mark begins with its unit. -/
lemma head?_units_ne {c : Char} (hc : c ≠ '"') (rest : List Nat) : (units c ++ rest).head? ≠ some 0x22 := by
  intro hhead
  rw [List.head?_append_of_ne_nil _ (units_ne_nil c)] at hhead
  exact hc (eq_ofNat_of_mem_units (List.mem_of_head? hhead) (by decide))

/-- Text that begins neither with a quotation mark nor with an escape does not come out as one that does. -/
lemma head?_ne_of_translate {text : List Char} {us : List Nat} (h : Escapes.translate .plain text = some us)
    (hquote : text.head? ≠ some '"') (hescape : text.head? ≠ some '\\') : us.head? ≠ some 0x22 := by
  cases text with
  | nil =>
    obtain rfl : [] = us := Option.some.inj h
    exact nofun
  | cons c text =>
    have hc : c ≠ '\\' := fun heq => hescape (congrArg some heq)
    have hstep : Escapes.step .plain c = some (units c, .plain) := congrArg some (if_neg hc)
    rw [Escapes.translate_of_step hstep] at h
    obtain ⟨rest, -, rfl⟩ := Option.map_eq_some_iff.1 h
    exact head?_units_ne (fun heq => hquote (congrArg some heq)) rest

end Literal

/-- In a code that is put together from literals and marks, Java finds these literals and no others. -/
lemma Written.exists_scans {code : List Char} {found : List String} (h : Written IsBetween code found) : ∃ us,
    (∀ rest, Escapes.translate .plain (code ++ rest) = (Escapes.translate .plain rest).map (us ++ ·)) ∧
      ∀ behind contents, behind.head? ≠ some 0x22 → Literal.Scans behind contents →
        Literal.Scans (us ++ behind) ((found.map fun text => text.toList.flatMap units) ++ contents) := by
  have htranslated {text : List Char} (htext : ∀ c ∈ text, IsBetween c) (rest : List Char) :
      Escapes.translate .plain (text ++ rest) =
        (Escapes.translate .plain rest).map (text.flatMap units ++ ·) :=
    Escapes.translate_plain (fun hmem => htext _ hmem (by decide)) rest
  induction h with
  | plain htext => exact ⟨_, htranslated htext, fun behind contents _ hscans => .between htext hscans⟩
  | literal text =>
    obtain ⟨us, hus, hread⟩ := Literal.exists_read_encodeString text
    exact ⟨us, hus, fun behind contents hbehind hscans => .literal (hread behind hbehind) hscans⟩
  | @behind gap code found hgap _ ih =>
    obtain ⟨us, hus, hscans⟩ := ih
    refine ⟨gap.flatMap units ++ us, fun rest => ?_, fun behind contents hbehind hrest => ?_⟩
    · rw [List.append_assoc, htranslated hgap, hus, Option.map_map]
      simp [Function.comp_def]
    · rw [List.append_assoc]
      exact .between hgap (hscans behind contents hbehind hrest)
  | @append code code' found found' mark _ hmark _ ih ih' =>
    obtain ⟨us, hus, hscans⟩ := ih
    obtain ⟨us', hus', hscans'⟩ := ih'
    have hone : ∀ c ∈ [mark], IsBetween c := by simpa using hmark
    refine ⟨us ++ (units mark ++ us'), fun rest => ?_, fun behind contents hbehind hrest => ?_⟩
    · have hshape : code ++ mark :: code' ++ rest = code ++ ([mark] ++ (code' ++ rest)) := by simp
      rw [hshape, hus, htranslated hone, hus', Option.map_map, Option.map_map]
      simp [Function.comp_def]
    · rw [List.append_assoc, List.append_assoc, List.map_append, List.append_assoc]
      apply hscans
      · exact Literal.head?_units_ne (fun heq => hmark (by simp [heq])) _
      · have hbetween := Literal.Scans.between hone (hscans' behind contents hbehind hrest)
        rwa [List.flatMap_singleton] at hbetween

/-- A literal in a code is translated alike in all surroundings, and read to its own end. -/
lemma Written.reads {P : Char → Prop} {code : List Char} {found : List String} (h : Written P code found)
    {text : String} (htext : text ∈ found) :
    ∃ before behind us, code = before ++ (Json.encodeString text).toList ++ behind ∧
      Escapes.translate .plain (Json.encodeString text).toList = some us ∧
      ∀ start rest, rest.head? ≠ some '"' → rest.head? ≠ some '\\' →
        ∀ us₁ us₂, Escapes.translate .plain (start ++ before) = some us₁ →
          Escapes.translate .plain (behind ++ rest) = some us₂ →
            Escapes.translate .plain (start ++ code ++ rest) = some (us₁ ++ (us ++ us₂)) ∧
              Literal.read (us ++ us₂) = some (text.toList.flatMap units, us₂) := by
  obtain ⟨before, behind, hcode, hbehind⟩ := h.exists_literal htext
  obtain ⟨us, hus, hread⟩ := Literal.exists_read_encodeString text
  obtain ⟨inner, hinner⟩ : ∃ inner, (Json.encodeString text).toList = '"' :: inner := ⟨_, String.toList_ofList⟩
  refine ⟨before, behind, us, hcode, by simpa [Escapes.translate] using hus [], ?_⟩
  intro start rest hquote hescape us₁ us₂ hstart hrest
  have hshape : start ++ code ++ rest = (start ++ before) ++ '"' :: (inner ++ (behind ++ rest)) := by
    rw [hcode, hinner]
    simp
  have hliteral := hus (behind ++ rest)
  rw [hinner, List.cons_append, hrest] at hliteral
  constructor
  · rw [hshape, Escapes.translate_append_mark, hstart, hliteral]
    rfl
  · apply hread
    cases behind with
    | nil => exact Literal.head?_ne_of_translate hrest hquote hescape
    | cons c behind =>
      have hc : c ∉ ['"', '\x27', '/', '\\'] := hbehind c rfl
      refine Literal.head?_ne_of_translate hrest ?_ ?_ <;>
      · intro heq
        obtain rfl := Option.some.inj heq
        exact hc (by decide)

/-! ## Values -/

lemma isBetween_of_isNumeral {c : Char} (h : Text.IsNumeral c) : IsBetween c := by
  have hmarks : ∀ d ∈ ['"', '\x27', '/', '\\'], ¬ Text.IsNumeral d := by decide
  exact fun hmem => hmarks c hmem h

lemma isBetween_double (x : Binary64) : ∀ c ∈ (double x).toList, IsBetween c :=
  forall_mem_double (fun _ => isBetween_of_isNumeral) (by decide) x

/-! ## Expressions -/

/-- The texts that a lookup has literals for, in their order: those of what is looked up, which is written twice where
the default is chosen by a test, and those of the default. -/
def lookupTexts (key : List String) (kind : RawKind) : Option Json → List String
  | none => key
  | some value => key ++ (if (lookupKind kind).isNone then key else []) ++ value.texts

/-- The texts that an expression has literals for, in their order. -/
def quoted : Expr → List String
  | .literal value => value.texts
  | .property _ key kind default? => lookupTexts [key] kind default?
  | .item _ _ kind default? => lookupTexts [] kind default?
  | .presence _ key => [key]
  | .construct _ argument => quoted argument
  | .field _ | .length _ | .foreign _ => []

section Codes

variable {P : Char → Prop} (hP : ∀ c, IsBetween c → P c)

include hP

/-- One more part, with a comma behind it. -/
lemma Written.intercalate_cons {part : String} {parts found found' : List String} (h : Written P part.toList found)
    (hrest : Written P (String.intercalate ", " parts).toList found') (hnone : parts = [] → found' = []) :
    Written P (String.intercalate ", " (part :: parts)).toList (found ++ found') := by
  cases parts with
  | nil =>
    rw [hnone rfl, List.append_nil]
    simpa using h
  | cons next parts =>
    have hcomma : IsBetween ',' := by decide
    have hblank : ∀ c ∈ [' '], IsBetween c := by decide
    rw [String.intercalate_cons_cons, String.toList_append, String.toList_append, List.append_assoc]
    exact .append h hcomma (.marks hP hblank hrest)

mutual

/-- A value on one line has literals for its texts. -/
lemma written_compact : (value : Json) → Written P value.compact.toList value.texts
  | .null => .text hP (by decide)
  | .bool b => .text hP (by cases b <;> decide)
  | .int n => .text hP fun c hc => isBetween_of_isNumeral (isNumeral_int n c hc)
  | .float x => .text hP fun c hc => isBetween_of_isNumeral (x.isNumeral_json c hc)
  | .str s => .literal s
  | .arr xs => by
    rw [Json.compact, Json.texts, String.toList_append, String.toList_append, List.append_assoc]
    exact .marks hP (by decide) (.before (written_compactElements xs) (by decide))
  | .obj ms => by
    rw [Json.compact, Json.texts, String.toList_append, String.toList_append, List.append_assoc]
    exact .marks hP (by decide) (.before (written_compactMembers ms) (by decide))

lemma written_compactElements : (xs : List Json) →
    Written P (String.intercalate ", " (Json.compactElements xs)).toList (Json.elementTexts xs)
  | [] => .plain nofun
  | x :: xs => by
    refine .intercalate_cons hP (written_compact x) (written_compactElements xs) fun hnone => ?_
    cases xs with
    | nil => rfl
    | cons y xs => cases hnone

lemma written_compactMembers : (ms : Members) →
    Written P (String.intercalate ", " (Json.compactMembers ms)).toList (Json.memberTexts ms)
  | [] => .plain nofun
  | (key, x) :: ms => by
    have hmember : Written P (Json.encodeString key ++ ": " ++ x.compact).toList (key :: x.texts) := by
      have hcolon : IsBetween ':' := by decide
      have hblank : ∀ c ∈ [' '], IsBetween c := by decide
      rw [String.toList_append, String.toList_append, List.append_assoc]
      exact .append (.literal key) hcolon (.marks hP hblank (written_compact x))
    refine .intercalate_cons hP hmember (written_compactMembers ms) fun hnone => ?_
    cases ms with
    | nil => rfl
    | cons m ms => cases hnone

end

/-- A default has literals for its texts. -/
lemma Form.written {kind : RawKind} {value : Json} {text : String} (h : Form kind value text) :
    Written P text.toList value.texts := by
  have hnumber (n : Int) : ∀ c ∈ (toString n).toList, IsBetween c := fun c hc =>
    isBetween_of_isNumeral (isNumeral_int n c hc)
  have hconverted (x : Binary64) : ∀ c ∈ ("(int) " ++ Java.double x).toList, IsBetween c := by
    rw [String.toList_append, List.forall_mem_append]
    exact ⟨by decide, isBetween_double x⟩
  cases h with
  | bool b => exact .text hP (by cases b <;> decide)
  | int fits => exact .text hP (hnumber _)
  | @long n other wide fits =>
    have htext : (s!"{n}L").toList = (toString n).toList ++ ['L'] := String.toList_append
    rw [htext]
    exact .before (.text hP (hnumber n)) (by decide)
  | nearest other wide wider hx => exact .text hP (isBetween_double _)
  | convertedNearest same wide hx => exact .text hP (hconverted _)
  | double other => exact .text hP (isBetween_double _)
  | whole same value fits => exact .text hP (hnumber _)
  | converted same => exact .text hP (hconverted _)
  | str s => exact .literal s
  | null => exact .text hP (by decide)
  | arr xs => exact written_compact hP _
  | obj ms => exact written_compact hP _

lemma forall_mem_castField {f : Field} (h : ∀ c ∈ f.name.toList, P c) (kind : RawKind) :
    ∀ c ∈ (castField f kind).toList, P c := by
  have hraw : ∀ c ∈ (rawType kind).toList, IsBetween c := by cases kind <;> decide
  have hmarks : ∀ c ∈ "((".toList ++ ") ".toList ++ ")".toList, IsBetween c := by decide
  unfold castField
  split
  · exact h
  · have htext : (s!"(({rawType kind}) {f.name})").toList =
        "((".toList ++ ((rawType kind).toList ++ (") ".toList ++ (f.name.toList ++ ")".toList))) := by simp [toString]
    simp only [List.forall_mem_append] at hmarks
    simp only [htext, List.forall_mem_append]
    exact ⟨fun c hc => hP c (hmarks.1.1 c hc), fun c hc => hP c (hraw c hc), fun c hc => hP c (hmarks.1.2 c hc), h,
      fun c hc => hP c (hmarks.2 c hc)⟩

lemma written_lookup {target key text : String} {keys : List String} (htarget : ∀ c ∈ target.toList, P c)
    (hkey : Written P key.toList keys) {kind : RawKind} {default? : Option Json}
    (h : lookup target key kind default? = .ok text) : Written P text.toList (lookupTexts keys kind default?) := by
  cases default? with
  | none =>
    have hname : ∀ c ∈ (".get" ++ (lookupKind kind).getD "" ++ "(").toList, IsBetween c := by cases kind <;> decide
    have htext : text.toList =
        target.toList ++ ((".get" ++ (lookupKind kind).getD "" ++ "(").toList ++ (key.toList ++ [')'])) := by
      rw [← Except.ok.inj h]
      simp [toString]
    rw [htext]
    exact .behind htarget (.marks hP hname (.before hkey (by decide)))
  | some value =>
    obtain ⟨default, hliteral, hlast⟩ := bind_eq_ok.1 h
    have hdefault : Written P default.toList value.texts := (form_of_literalFor hliteral).written hP
    cases hkind : lookupKind kind with
    | none =>
      -- the default is chosen by a test, and the key is written in both branches
      rw [hkind] at hlast
      have htext : text.toList = target.toList ++ (".opt(".toList ++ (key.toList ++ ')' :: (" != null ? ".toList ++
          (target.toList ++ (".get(".toList ++ (key.toList ++ ')' :: (" : ".toList ++ default.toList))))))) := by
        rw [← Except.ok.inj hlast]
        simp [toString]
      have htwice : lookupTexts keys kind (some value) = keys ++ (keys ++ value.texts) := by
        simp [lookupTexts, hkind]
      rw [htext, htwice]
      refine .behind htarget (.marks hP (by decide) (.append hkey (by decide) (.marks hP (by decide) ?_)))
      exact .behind htarget (.marks hP (by decide) (.append hkey (by decide) (.marks hP (by decide) hdefault)))
    | some name =>
      rw [hkind] at hlast
      have hname : ∀ c ∈ (".opt" ++ name ++ "(").toList, IsBetween c := by cases kind <;> cases hkind <;> decide
      have htext : text.toList = target.toList ++ ((".opt" ++ name ++ "(").toList ++ (key.toList ++ ',' ::
          ([' '] ++ (default.toList ++ [')'])))) := by
        rw [← Except.ok.inj hlast]
        simp [toString]
      have honce : lookupTexts keys kind (some value) = keys ++ value.texts := by
        simp [lookupTexts, hkind]
      rw [htext, honce]
      exact .behind htarget (.marks hP hname (.append hkey (by decide)
        (.marks hP (by decide) (.before hdefault (by decide)))))

/-- The code of an expression is put together from the literals for its texts, from names and from marks. -/
lemma written_of_expr {m : Model} (htypes : ∀ id, ∀ c ∈ (typeName m id).toList, P c) {e : Expr}
    (hnames : ∀ name ∈ e.names, ∀ c ∈ name.toList, P c) {code : String} (h : expr m e = .ok code) :
    Written P code.toList (quoted e) := by
  induction e generalizing code with
  | field f =>
    rw [← Except.ok.inj h]
    exact .plain (hnames f.name List.mem_cons_self)
  | literal value => exact (form_of_literal h).written hP
  | property f key kind default? =>
    exact written_lookup hP (forall_mem_castField hP (hnames f.name List.mem_cons_self) _) (.literal key) h
  | item f index kind default? =>
    have hindex := hnames index.name (List.mem_cons_of_mem _ List.mem_cons_self)
    exact written_lookup hP (forall_mem_castField hP (hnames f.name List.mem_cons_self) _) (.plain hindex) h
  | presence f key =>
    have htext : code.toList = (castField f .object).toList ++ (".has(".toList ++
        ((Json.encodeString key).toList ++ [')'])) := by
      rw [← Except.ok.inj h]
      simp [toString]
    rw [htext]
    exact .behind (forall_mem_castField hP (hnames f.name List.mem_cons_self) _)
      (.marks hP (by decide) (.before (.literal key) (by decide)))
  | length f =>
    have htext : code.toList = (castField f .array).toList ++ ".length()".toList := by
      rw [← Except.ok.inj h]
      simp [toString]
    rw [htext]
    exact .behind (forall_mem_castField hP (hnames f.name List.mem_cons_self) _) (.text hP (by decide))
  | construct type argument ih =>
    obtain ⟨inner, hinner, hlast⟩ := bind_eq_ok.1 h
    have htext : code.toList = "new ".toList ++ ((typeName m type).toList ++ ("(".toList ++ (inner.toList ++ [')']))) := by
      rw [← Except.ok.inj hlast]
      simp [toString]
    rw [htext]
    exact .marks hP (by decide) (.behind (htypes type) (.marks hP (by decide) (.before (ih hnames hinner) (by decide))))
  | foreign value => cases h

end Codes

/-- Java reads every literal in the code of an expression to its own last mark, as the units of its text, wherever the
code is written: unicode escapes are translated over all of what is around it, and the literal comes out as the same
units, from which it is read unless another mark is put right behind the code. And where all names are names, what
Java finds in the code are literals for the texts of the expression, in their order, and no others. -/
theorem reads_literals_of_expr {m : Model} {e : Expr} {code : String} (h : expr m e = .ok code) :
    (∀ text ∈ quoted e, ∃ before behind us, code = before ++ Json.encodeString text ++ behind ∧
      Escapes.translate .plain (Json.encodeString text).toList = some us ∧
      ∀ start rest, rest.head? ≠ some '"' → rest.head? ≠ some '\\' →
        ∀ us₁ us₂, Escapes.translate .plain (start ++ before.toList) = some us₁ →
          Escapes.translate .plain (behind.toList ++ rest) = some us₂ →
            Escapes.translate .plain (start ++ code.toList ++ rest) = some (us₁ ++ (us ++ us₂)) ∧
              Literal.read (us ++ us₂) = some (text.toList.flatMap units, us₂)) ∧
    ((∀ id, ∀ c ∈ (typeName m id).toList, IsBetween c) → (∀ name ∈ e.names, ∀ c ∈ name.toList, IsBetween c) →
      ∃ us, Escapes.translate .plain code.toList = some us ∧
        Literal.Scans us ((quoted e).map fun text => text.toList.flatMap units)) := by
  refine ⟨fun text htext => ?_, fun htypes hnames => ?_⟩
  · have hwritten : Written (fun _ => True) code.toList (quoted e) :=
      written_of_expr (fun _ _ => trivial) (fun _ _ _ => trivial) (fun _ _ _ _ => trivial) h
    obtain ⟨before, behind, us, hcode, hreads⟩ := hwritten.reads htext
    refine ⟨String.ofList before, String.ofList behind, us, ?_, by simpa only [String.toList_ofList] using hreads⟩
    rw [← String.toList_inj, hcode]
    simp
  · have hwritten : Written IsBetween code.toList (quoted e) := written_of_expr (fun _ => id) htypes hnames h
    obtain ⟨us, hus, hscans⟩ := hwritten.exists_scans
    refine ⟨us, by simpa [Escapes.translate] using hus [], ?_⟩
    simpa using hscans [] [] (by simp) .nil

/-! ### Texts that look like escapes -/

namespace Quoted

def field : Field :=
  { name := "jsonObject", type := { raw := .object } }

/-- A getter with a default, for a key that needs escapes. The default has what looks like an escape. -/
def lookup : Expr :=
  .property field "a\"\\\n" .null (some (.str "\\u0022é\x7f😀"))

def model : Model :=
  .empty [] []

lemma isBetween_typeName (id : TypeId) : ∀ c ∈ (typeName model id).toList, IsBetween c := by
  have hname : typeName model id = "" := by
    simp [typeName, Model.namespaceOf?, Model.qualifiedName, Model.enclosing, Model.outer?, Model.nameOf, model,
      Model.empty]
  rw [hname]
  exact fun c hc => (List.not_mem_nil hc).elim

end Quoted

/-- The key is found twice, since the default is chosen by a test, and nothing of the default is taken for a mark. -/
theorem reads_literals_of_escapes :
    ∃ code us, expr Quoted.model Quoted.lookup = .ok code ∧ Escapes.translate .plain code.toList = some us ∧
      Literal.Scans us [[0x61, 0x22, 0x5c, 0x0a], [0x61, 0x22, 0x5c, 0x0a],
        [0x5c, 0x75, 0x30, 0x30, 0x32, 0x32, 0xe9, 0x7f, 0xd83d, 0xde00]] := by
  have hcode : expr Quoted.model Quoted.lookup = .ok _ := rfl
  have hnames : ∀ name ∈ Quoted.lookup.names, ∀ c ∈ name.toList, IsBetween c := by decide
  obtain ⟨us, hus, hscans⟩ := (reads_literals_of_expr hcode).2 Quoted.isBetween_typeName hnames
  have hunits : ((quoted Quoted.lookup).map fun text => text.toList.flatMap units) =
      [[0x61, 0x22, 0x5c, 0x0a], [0x61, 0x22, 0x5c, 0x0a],
        [0x5c, 0x75, 0x30, 0x30, 0x32, 0x32, 0xe9, 0x7f, 0xd83d, 0xde00]] := by decide
  rw [hunits] at hscans
  exact ⟨_, us, hcode, hus, hscans⟩

end SchemaAccessors.Render.Java
