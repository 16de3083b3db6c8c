import SchemaAccessors.Proofs.DecimalText
import SchemaAccessors.Proofs.JavaOutline
import SchemaAccessors.Proofs.JavaStrings
import SchemaAccessors.Proofs.Scoping

/-!
# Types of default values in Java

A default is an argument of a lookup, so its text has to be an expression of a type that the parameter takes. The
expressions that are written are literals, with a sign or a conversion in front of them, and constants of the class
`Double`, which only mean that class where no generated type has its name. A default that is of the kind of its lookup
has a type that the lookup takes, and no other default has.
-/

namespace SchemaAccessors.Render.Java

/-! ## Types of expressions -/

inductive ValueType
  | boolean
  | int
  | long
  | double
  | string
deriving DecidableEq

/-- Whether a value of a type can be passed for a parameter with the type of raw values of a kind. A number that is
passed for an object is boxed first. -/
def ValueType.assigns : ValueType → RawKind → Bool
  | boolean, .boolean => true
  | int, .integer => true
  | int, .number | long, .number | double, .number => true
  | string, .string => true
  | _, .null | _, .any => true
  | _, _ => false

/-- Whether digits are a decimal number. Behind a zero they would be an octal one. -/
def isDecimal (digits : List Char) : Bool :=
  digits = ['0'] || digits.head?.any (· ≠ '0')

/-- Whether a number is not beyond a bound, which is greater by one behind a minus sign. -/
def isWithin (negated : Bool) (most n : Nat) : Bool :=
  n ≤ if negated then most + 1 else most

/-- Whether a decimal number is a literal: it is not rounded to infinity, nor to zero unless it is zero. -/
def isRepresented (digits : Nat) (scale : Int) : Bool :=
  digits = 0 || match Binary64.ofDecimal false digits scale with
    | .finite _ significand _ => significand ≠ 0
    | _ => false

/-- The type of a literal for a number. -/
def numberType? (negated : Bool) (text : List Char) : Option ValueType :=
  match Json.spanDigits text with
  | (digits, []) =>
    if isDecimal digits && isWithin negated 2147483647 (Number.ofDigits digits) then some .int else none
  | (digits, ['L']) =>
    if isDecimal digits && isWithin negated 9223372036854775807 (Number.ofDigits digits) then some .long else none
  | _ => (Binary64.decimal? text).bind fun (digits, scale) => if isRepresented digits scale then some .double else none

/-- The constants of the class `Double` that are numbers without digits. -/
def constants : List String :=
  ["Double.NaN", "Double.POSITIVE_INFINITY", "Double.NEGATIVE_INFINITY"]

/-- The type of a literal or a constant, where the class `Double` is or is not to be found by its name. -/
def operandType? (known negated : Bool) (text : List Char) : Option ValueType :=
  if (["true", "false"].map String.toList).contains text then if negated then none else some .boolean
  else if (constants.map String.toList).contains text then if known then some .double else none
  else numberType? negated text

def signedType? (known : Bool) : List Char → Option ValueType
  | '-' :: text => operandType? known true text
  | text => operandType? known false text

/-- Numbers are converted, and nothing else. -/
def convertedType? (known : Bool) (text : List Char) : Option ValueType :=
  match signedType? known text with
  | some .int | some .long | some .double => some .int
  | _ => none

/-- The type of an expression without unicode escapes that is no literal for a text. -/
def plainType? (known : Bool) : List Char → Option ValueType
  | '(' :: 'i' :: 'n' :: 't' :: ')' :: ' ' :: text => convertedType? known text
  | text => signedType? known text

/-- The type of an expression at some place in code, if it is one of those that defaults are written as. -/
def expressionType? (scope : Scope) (text : String) : Option ValueType := do
  let us ← Escapes.translate .plain text.toList
  if us.head? = some 0x22 then
    let (_, behind) ← Literal.read us
    if behind = [] then some .string else none
  else plainType? (scope.simple? "Double").isNone (us.map Char.ofNat)

/-- An expression can be passed for a parameter with the type of raw values of a kind. -/
def Assignable (scope : Scope) (text : String) (kind : RawKind) : Prop :=
  ∃ type, expressionType? scope text = some type ∧ type.assigns kind = true

/-! ## Numbers that are written -/

lemma head?_toDigits_ne_zero {n : Nat} (hn : n ≠ 0) : (Nat.toDigits 10 n).head? ≠ some '0' := by
  induction n using Nat.strong_induction_on with
  | _ n ih =>
    rw [Nat.toDigits_eq_if (by decide)]
    split
    · next hlt =>
      have hall : ∀ d < 10, d ≠ 0 → [d.digitChar].head? ≠ some '0' := by decide
      exact hall n hlt hn
    · next hge =>
      rw [List.head?_append_of_ne_nil _ Nat.toDigits_ne_nil]
      exact ih (n / 10) (by omega) (by omega)

lemma isDecimal_toDigits (n : Nat) : isDecimal (Nat.toDigits 10 n) = true := by
  rcases eq_or_ne n 0 with rfl | hn
  · decide
  · have hhead := head?_toDigits_ne_zero hn
    obtain ⟨c, rest, hdigits⟩ := List.exists_cons_of_ne_nil (Nat.toDigits_ne_nil (n := n) (b := 10))
    rw [hdigits] at hhead ⊢
    have hc : c ≠ '0' := fun h => hhead (congrArg some h)
    simp [isDecimal, hc]

/-- An integer is written as its digits, behind its sign. -/
lemma toList_int (n : Int) : (toString n).toList =
    if n < 0 then '-' :: Nat.toDigits 10 n.natAbs else Nat.toDigits 10 n.natAbs := by
  cases n with
  | ofNat n => exact Nat.toList_repr
  | negSucc n =>
    show ("-" ++ n.succ.repr).toList = _
    rw [String.toList_append, Nat.toList_repr, if_pos (Int.negSucc_lt_zero n)]
    rfl

section Types

variable {known negated : Bool}

lemma numberType?_int {n : Nat} (h : isWithin negated 2147483647 n = true) :
    numberType? negated (Nat.toDigits 10 n) = some .int := by
  rw [numberType?, Binary64.spanDigits_self (Binary64.allDigits_toDigits n)]
  simp [isDecimal_toDigits, Number.ofDigits_toDigits, h]

lemma numberType?_long {n : Nat} (h : isWithin negated 9223372036854775807 n = true) :
    numberType? negated (Nat.toDigits 10 n ++ ['L']) = some .long := by
  have hmark : ∀ c ∈ ['L'].head?, c.isDigit = false := fun c hc => by
    obtain rfl := Option.some.inj hc
    decide
  rw [numberType?, Binary64.spanDigits_append (Binary64.allDigits_toDigits n) hmark]
  simp [isDecimal_toDigits, Number.ofDigits_toDigits, h]

lemma numberType?_decimal {text : List Char} {digits : Nat} {scale : Int}
    (h : Binary64.decimal? text = some (digits, scale)) (hrepresented : isRepresented digits scale = true) :
    numberType? negated text = some .double := by
  unfold numberType?
  split
  · next digits' hspan =>
    rw [Binary64.decimal?, hspan] at h
    simp [Json.fraction?] at h
  · next digits' hspan =>
    rw [Binary64.decimal?, hspan] at h
    simp [Json.fraction?, Json.exponent?] at h
  · simp [h, hrepresented]

/-- An operand that begins with a digit is a number. -/
lemma operandType?_of_isDigit {c : Char} {rest : List Char} (hc : c.isDigit = true) :
    operandType? known negated (c :: rest) = numberType? negated (c :: rest) := by
  have hnot {words : List String} (hwords : ∀ word ∈ words, word.toList.head?.any Char.isDigit = false) :
      ¬ (words.map String.toList).contains (c :: rest) = true := by
    rw [List.contains_iff_mem]
    intro hmem
    obtain ⟨word, hword, heq⟩ := List.mem_map.1 hmem
    have hfalse := hwords word hword
    rw [heq, List.head?_cons, Option.any_some, hc] at hfalse
    cases hfalse
  rw [operandType?, if_neg (hnot (by decide)), if_neg (hnot (by decide))]

lemma signedType?_of_isDigit {c : Char} {rest : List Char} (hc : c.isDigit = true) (negative : Bool) :
    signedType? known (if negative then '-' :: c :: rest else c :: rest) = numberType? negative (c :: rest) := by
  cases negative with
  | true => exact operandType?_of_isDigit hc
  | false =>
    have hminus : c ≠ '-' := by
      rintro rfl
      exact absurd hc (by decide)
    rw [if_neg Bool.false_ne_true, signedType?, operandType?_of_isDigit hc]
    rintro text heq
    exact hminus (List.cons.inj heq).1

end Types

end SchemaAccessors.Render.Java

/-- Whether a number is written with digits. -/
def SchemaAccessors.Binary64.hasDigits : Binary64 → Bool
  | .finite .. => true
  | _ => false

namespace SchemaAccessors.Render.Java

/-! ## Texts of numbers -/

section Numbers

variable {known : Bool}

lemma signedType?_double (x : Binary64) :
    signedType? known (double x).toList = if x.hasDigits || known then some .double else none := by
  cases x with
  | nan => cases known <;> rfl
  | infinite negative => cases negative <;> cases known <;> rfl
  | finite negative significand exponent =>
    obtain ⟨body, digits, scale, htext, hread, hround⟩ := Binary64.exists_decimal?_text significand exponent
    have hrepresented : isRepresented digits scale = true := by
      rcases hround with rfl | ⟨hne, hround⟩
      · rfl
      · simp [isRepresented, hround, hne]
    have hbody : ∃ c rest, body = c :: rest ∧ c.isDigit = true := by
      cases body with
      | nil => cases hread
      | cons c rest =>
        refine ⟨c, rest, rfl, ?_⟩
        by_contra hc
        have hspan : Json.spanDigits (c :: rest) = ([], c :: rest) := by
          simp [Json.spanDigits, List.span_eq_takeWhile_dropWhile, hc]
        simp [Binary64.decimal?, hspan] at hread
    obtain ⟨c, rest, rfl, hc⟩ := hbody
    show signedType? known ((Binary64.finite negative significand exponent).text Binary64.plainLayout).toList = _
    rw [htext, String.toList_ofList, signedType?_of_isDigit hc, numberType?_decimal hread hrepresented]
    rfl

/-- An integer, with or without a mark behind it, is a literal behind its sign. -/
lemma signedType?_int (n : Int) (mark : List Char) :
    signedType? known ((toString n).toList ++ mark) =
      numberType? (decide (n < 0)) (Nat.toDigits 10 n.natAbs ++ mark) := by
  obtain ⟨c, rest, hdigits⟩ := List.exists_cons_of_ne_nil (Nat.toDigits_ne_nil (n := n.natAbs) (b := 10))
  have hc : c.isDigit = true := Binary64.allDigits_toDigits n.natAbs c (hdigits ▸ List.mem_cons_self)
  rw [toList_int, hdigits]
  by_cases hn : n < 0
  · rw [if_pos hn, decide_eq_true hn]
    exact signedType?_of_isDigit hc true
  · rw [if_neg hn, decide_eq_false hn]
    exact signedType?_of_isDigit hc false

lemma signedType?_of_isInt {n : Int} (h : isInt n = true) : signedType? known (toString n).toList = some .int := by
  have hwithin : isWithin (decide (n < 0)) 2147483647 n.natAbs = true := by
    simp only [isInt, Bool.and_eq_true, decide_eq_true_eq] at h
    simp only [isWithin, decide_eq_true_eq]
    split <;> omega
  have htext : (toString n).toList = (toString n).toList ++ [] := (List.append_nil _).symm
  rw [htext, signedType?_int, List.append_nil, numberType?_int hwithin]

lemma signedType?_of_isLong {n : Int} (h : isLong n = true) :
    signedType? known ((toString n).toList ++ ['L']) = some .long := by
  have hwithin : isWithin (decide (n < 0)) 9223372036854775807 n.natAbs = true := by
    simp only [isLong, Bool.and_eq_true, decide_eq_true_eq] at h
    simp only [isWithin, decide_eq_true_eq]
    split <;> omega
  rw [signedType?_int, numberType?_long hwithin]

lemma convertedType?_double (x : Binary64) :
    convertedType? known (double x).toList = if x.hasDigits || known then some .int else none := by
  rw [convertedType?, signedType?_double]
  cases x.hasDigits || known <;> rfl

end Numbers

/-! ## Texts of defaults -/

/-- Characters that stand for themselves and begin no literal for a text. -/
def IsPlain (c : Char) : Prop :=
  c.toNat < 128 ∧ c ≠ '\\' ∧ c ≠ '"'

instance (c : Char) : Decidable (IsPlain c) :=
  inferInstanceAs (Decidable (_ ∧ _))

/-- Characters of an operand, which begin no conversion either. -/
def IsOperand (c : Char) : Prop :=
  IsPlain c ∧ c ≠ '('

instance (c : Char) : Decidable (IsOperand c) :=
  inferInstanceAs (Decidable (_ ∧ _))

lemma isOperand_of_isNumeral {c : Char} (h : Text.IsNumeral c) : IsOperand c := by
  have hmarks : ∀ d ∈ ['-', '+', '.'], IsOperand d := by decide
  rcases h with h | h | h | h
  · refine ⟨⟨Naming.toNat_lt_of_isAlphanum h, ?_, ?_⟩, ?_⟩ <;> rintro rfl <;> exact absurd h (by decide)
  · exact hmarks c (by simp [h])
  · exact hmarks c (by simp [h])
  · exact hmarks c (by simp [h])

lemma isOperand_int (n : Int) : ∀ c ∈ (toString n).toList, IsOperand c := fun c hc =>
  isOperand_of_isNumeral (isNumeral_int n c hc)

lemma isOperand_double (x : Binary64) : ∀ c ∈ (double x).toList, IsOperand c :=
  forall_mem_double (fun _ => isOperand_of_isNumeral) (by decide) x

lemma expressionType?_of_plain {text : String} (h : ∀ c ∈ text.toList, IsPlain c) (scope : Scope) :
    expressionType? scope text = plainType? (scope.simple? "Double").isNone text.toList := by
  have hbackslash : '\\' ∉ text.toList := fun hmem => (h _ hmem).2.1 rfl
  have hunits : text.toList.flatMap Python.Literal.units = text.toList.map Char.toNat :=
    (Python.Literal.units_eq_iff _).2 fun c hc => (h c hc).1.trans (by decide)
  have htranslated : Escapes.translate .plain text.toList = some (text.toList.map Char.toNat) := by
    have hplain := Escapes.translate_plain hbackslash []
    rw [List.append_nil, hunits] at hplain
    exact hplain.trans (by simp [Escapes.translate])
  have hhead : (text.toList.map Char.toNat).head? ≠ some 0x22 := by
    intro hquote
    obtain ⟨c, hc, hvalue⟩ := List.mem_map.1 (List.mem_of_head? hquote)
    refine (h c hc).2.2 ?_
    rw [← Char.ofNat_toNat c, hvalue]
  have hback : (text.toList.map Char.toNat).map Char.ofNat = text.toList := by
    rw [List.map_map]
    exact List.map_id'' Char.ofNat_toNat _
  rw [expressionType?, htranslated, Option.bind_eq_bind, Option.bind_some, if_neg hhead, hback]

/-- What JSON writes for a text is an expression for a text. -/
lemma expressionType?_encodeString (scope : Scope) (text : String) :
    expressionType? scope (Json.encodeString text) = some .string := by
  obtain ⟨us, htranslated, hread⟩ := Literal.exists_read_encodeString text
  have hus := htranslated []
  have hfound := hread [] (by simp)
  rw [List.append_nil] at hus hfound
  have hsome : Escapes.translate .plain (Json.encodeString text).toList = some us := by
    rw [hus]
    simp [Escapes.translate]
  have hhead : us.head? = some 0x22 := by
    unfold Literal.read at hfound
    split at hfound
    · rfl
    · cases hfound
  rw [expressionType?, hsome, Option.bind_eq_bind, Option.bind_some, if_pos hhead, hfound]
  rfl

/-- The type that a default for a lookup of a kind is written with, if it can be a default. -/
def defaultType? (kind : RawKind) : Json → Option ValueType
  | .bool _ => some .boolean
  | .int n => some (if kind = .integer ∨ isInt n then .int else if isLong n then .long else .double)
  | .float _ => some (if kind = .integer then .int else .double)
  | .str _ => some .string
  | _ => none

/-- Whether a default is written as a constant of the class `Double`. -/
def needsDouble : Json → Bool
  | .float x => !x.hasDigits
  | _ => false

/-- Whether a default is of the kind of a lookup: any number for one that gives numbers. -/
def admits : RawKind → Json → Bool
  | .boolean, .bool _ => true
  | .integer, .int _ | .integer, .float _ => true
  | .number, .int _ | .number, .float _ => true
  | .string, .str _ => true
  | _, _ => false

section Literals

variable {scope : Scope}

lemma expressionType?_of_operand {text : String} (h : ∀ c ∈ text.toList, IsOperand c) (scope : Scope) :
    expressionType? scope text = signedType? (scope.simple? "Double").isNone text.toList := by
  rw [expressionType?_of_plain (fun c hc => (h c hc).1), plainType?]
  exact fun rest heq => (h '(' (heq ▸ List.mem_cons_self)).2 rfl

lemma expressionType?_of_isInt {n : Int} (h : isInt n = true) : expressionType? scope (toString n) = some .int := by
  rw [expressionType?_of_operand (isOperand_int n), signedType?_of_isInt h]

lemma expressionType?_of_isLong {n : Int} (h : isLong n = true) : expressionType? scope s!"{n}L" = some .long := by
  have htext : (s!"{n}L").toList = (toString n).toList ++ ['L'] := String.toList_append
  have hoperand : ∀ c ∈ (s!"{n}L").toList, IsOperand c := by
    rw [htext]
    exact List.forall_mem_append.2 ⟨isOperand_int n, by decide⟩
  rw [expressionType?_of_operand hoperand, htext, signedType?_of_isLong h]

lemma expressionType?_double (x : Binary64) : expressionType? scope (double x) =
    if x.hasDigits || (scope.simple? "Double").isNone then some .double else none := by
  rw [expressionType?_of_operand (isOperand_double x), signedType?_double]

lemma expressionType?_converted (x : Binary64) : expressionType? scope ("(int) " ++ double x) =
    if x.hasDigits || (scope.simple? "Double").isNone then some .int else none := by
  have htext : ("(int) " ++ double x).toList = "(int) ".toList ++ (double x).toList := String.toList_append
  have hplain : ∀ c ∈ ("(int) " ++ double x).toList, IsPlain c := by
    rw [htext]
    exact List.forall_mem_append.2 ⟨by decide, fun c hc => (isOperand_double x c hc).1⟩
  rw [expressionType?_of_plain hplain, htext]
  exact convertedType?_double x

/-- A whole number is finite. -/
lemma hasDigits_of_toInt? {x : Binary64} {n : Int} (h : x.toInt? = some n) : x.hasDigits = true := by
  cases x with
  | nan => cases h
  | infinite negative => cases h
  | finite negative significand exponent => rfl

/-- An integer is rounded to a finite number, or refused. -/
lemma hasDigits_of_nearest {n : Int} {x : Binary64} (h : nearest n = .ok x) : x.hasDigits = true := by
  have hratio : (∃ negative, Binary64.ofRatio (n < 0) n.natAbs 1 = .infinite negative) ∨
      (Binary64.ofRatio (n < 0) n.natAbs 1).hasDigits = true := by
    unfold Binary64.ofRatio
    split
    · exact .inr rfl
    · dsimp only
      generalize (if _ = Nat.pow 2 53 then _ else _ : Nat × Int) = rounded
      split
      · exact .inl ⟨_, rfl⟩
      · exact .inr rfl
  unfold nearest Binary64.ofInt? at h
  split at h
  · next found =>
    split at found
    · cases found
    · next hfinite =>
      obtain rfl := Option.some.inj found
      obtain rfl := Except.ok.inj h
      exact hratio.resolve_left fun ⟨negative, hinfinite⟩ => hfinite negative hinfinite
  · cases h

/-- A default is written as an expression of the type that it should have. Only if it is a constant, the class of the
constant has to be found by its name. -/
theorem expressionType?_literalFor {kind : RawKind} {value : Json} {text : String} {type : ValueType}
    (h : literalFor kind value = .ok text) (htype : defaultType? kind value = some type) :
    expressionType? scope text =
      if needsDouble value = true ∧ (scope.simple? "Double").isSome then none else some type := by
  have hconstant (x : Binary64) (type : ValueType) :
      (if x.hasDigits || (scope.simple? "Double").isNone then some type else none) =
        if needsDouble (.float x) = true ∧ (scope.simple? "Double").isSome then none else some type := by
    cases hx : x.hasDigits <;> cases hs : scope.simple? "Double" <;> simp [needsDouble, hx]
  have hdigits {x : Binary64} (hx : x.hasDigits = true) (type : ValueType) :
      (if x.hasDigits || (scope.simple? "Double").isNone then some type else none) = some type := by
    rw [hx, Bool.true_or, if_pos rfl]
  cases form_of_literalFor h with
  | bool b =>
    obtain rfl : .boolean = type := Option.some.inj htype
    rw [if_neg fun hneeds : needsDouble (.bool b) = true ∧ _ => Bool.false_ne_true hneeds.1]
    cases b <;> exact expressionType?_of_operand (by decide) scope
  | int fits =>
    rw [if_neg fun hneeds => Bool.false_ne_true hneeds.1, ← htype, defaultType?, if_pos (.inr fits)]
    exact expressionType?_of_isInt fits
  | long other wide fits =>
    rw [if_neg fun hneeds => Bool.false_ne_true hneeds.1, ← htype, defaultType?, if_neg (by simp [other, wide]),
      if_pos fits]
    exact expressionType?_of_isLong fits
  | nearest other wide wider hx =>
    rw [if_neg fun hneeds => Bool.false_ne_true hneeds.1, ← htype, defaultType?, if_neg (by simp [other, wide]),
      wider, if_neg Bool.false_ne_true, expressionType?_double, hdigits (hasDigits_of_nearest hx)]
  | convertedNearest same wide hx =>
    rw [if_neg fun hneeds => Bool.false_ne_true hneeds.1, ← htype, defaultType?, if_pos (.inl same),
      expressionType?_converted, hdigits (hasDigits_of_nearest hx)]
  | double other =>
    rw [← htype, defaultType?, if_neg other, expressionType?_double, hconstant]
  | whole same hvalue fits =>
    rw [← hconstant, hdigits (hasDigits_of_toInt? hvalue), expressionType?_of_isInt fits, ← htype,
      defaultType?, if_pos same]
  | converted same =>
    rw [← htype, defaultType?, if_pos same, expressionType?_converted, hconstant]
  | str s =>
    obtain rfl : .string = type := Option.some.inj htype
    rw [if_neg fun hneeds => Bool.false_ne_true hneeds.1]
    exact expressionType?_encodeString scope s
  | null => cases htype
  | arr xs => cases htype
  | obj ms => cases htype

/-- The type of a default is one that its lookup takes, if the default is of the kind of the lookup, and only then. -/
lemma assigns_of_defaultType? {kind : RawKind} {value : Json} {type : ValueType} (hkind : (lookupKind kind).isSome)
    (htype : defaultType? kind value = some type) : type.assigns kind = admits kind value := by
  cases value with
  | null => cases htype
  | arr xs => cases htype
  | obj ms => cases htype
  | bool b =>
    obtain rfl : .boolean = type := Option.some.inj htype
    cases kind <;> first | rfl | cases hkind
  | str s =>
    obtain rfl : .string = type := Option.some.inj htype
    cases kind <;> first | rfl | cases hkind
  | float x =>
    rw [← Option.some.inj htype]
    cases kind <;> first | rfl | cases hkind
  | int n =>
    rw [← Option.some.inj htype]
    cases kind <;> cases isInt n <;> cases isLong n <;> first | rfl | cases hkind

/-- A default is assignable to the type of its lookup, if it is of the kind of the lookup and the name of its class is
not taken from it, and only then. -/
theorem assignable_iff_of_literalFor {kind : RawKind} {value : Json} {text : String}
    (h : literalFor kind value = .ok text) (hkind : (lookupKind kind).isSome) (hvalue : (defaultType? kind value).isSome) :
    Assignable scope text kind ↔
      admits kind value = true ∧ (needsDouble value = true → scope.simple? "Double" = none) := by
  obtain ⟨type, htype⟩ := Option.isSome_iff_exists.1 hvalue
  unfold Assignable
  rw [expressionType?_literalFor h htype, ← assigns_of_defaultType? hkind htype]
  split
  · next hcaptured =>
    constructor
    · rintro ⟨_, hnone, -⟩
      cases hnone
    · rintro ⟨-, hfound⟩
      rw [hfound hcaptured.1] at hcaptured
      cases hcaptured.2
  · next hfree =>
    have hfound : needsDouble value = true → scope.simple? "Double" = none := by
      intro hneeds
      by_contra hsome
      exact hfree ⟨hneeds, Option.isSome_iff_ne_none.2 hsome⟩
    rw [and_iff_left hfound]
    constructor
    · rintro ⟨_, hfirst, hsecond⟩
      rwa [Option.some.inj hfirst]
    · exact fun hadmits => ⟨type, rfl, hadmits⟩

end Literals

end SchemaAccessors.Render.Java
