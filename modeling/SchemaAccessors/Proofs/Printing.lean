import Mathlib.Tactic.Common
import SchemaAccessors.Json.Printer
import SchemaAccessors.Proofs.Spelling
import SchemaAccessors.Wrapper.Model

/-!
# What printing copies

Code is put together from fixed words, from names, and from printed JSON values. Names are letters and digits, and
so are numbers but for signs and points; all other characters that a check may meet come from the texts inside
values, which are copied. This file says which texts those are: the keys and strings of a value (`Json.texts`), and
the names and copied texts of a wrapper type.
-/

namespace SchemaAccessors

/-! ## Characters of texts -/

/-- What is said of all characters of a text is decided by going through the text, not through all characters. -/
instance (priority := high) Text.decidableForallMem (text : List Char) (P : Char → Prop) [DecidablePred P] :
    Decidable (∀ c ∈ text, P c) :=
  List.decidableBAll P text

/-- What holds of all characters of some texts and of the separator holds of those of the joined text. -/
lemma forall_mem_intercalate {P : Char → Prop} {separator : String} (h : ∀ c ∈ separator.toList, P c)
    {texts : List String} (htexts : ∀ text ∈ texts, ∀ c ∈ text.toList, P c) :
    ∀ c ∈ (String.intercalate separator texts).toList, P c := by
  induction texts with
  | nil => exact fun c hc => (List.not_mem_nil hc).elim
  | cons text rest ih =>
    obtain ⟨htext, hrest⟩ := List.forall_mem_cons.1 htexts
    cases rest with
    | nil => simpa using htext
    | cons next rest =>
      rw [String.intercalate_cons_cons, String.toList_append, String.toList_append, List.forall_mem_append,
        List.forall_mem_append]
      exact ⟨⟨htext, h⟩, ih hrest⟩

/-- A joined text ends with the last of its parts. -/
lemma suffix_intercalate (separator : String) (texts : List String) (last : String) :
    last.toList <:+ (String.intercalate separator (texts ++ [last])).toList := by
  induction texts with
  | nil => simp
  | cons text rest ih =>
    have hrest : rest ++ [last] ≠ [] := by simp
    obtain ⟨next, others, hcons⟩ := List.exists_cons_of_ne_nil hrest
    rw [List.cons_append, hcons, String.intercalate_cons_cons, String.toList_append, ← hcons]
    exact ih.trans (List.suffix_append _ _)

/-! ## Numbers -/

/-- A character of a printed number: a letter or digit, a sign or a point. -/
def Text.IsNumeral (c : Char) : Prop :=
  c.isAlphanum = true ∨ c = '-' ∨ c = '+' ∨ c = '.'

instance (c : Char) : Decidable (Text.IsNumeral c) :=
  inferInstanceAs (Decidable (_ ∨ _))

open Text (IsNumeral)

lemma isNumeral_toDigits (n : Nat) : ∀ c ∈ Nat.toDigits 10 n, IsNumeral c := fun _ hc =>
  .inl (Naming.isAlphanum_of_isDigit (Nat.isDigit_of_mem_toDigits (by omega) (by omega) hc))

lemma isNumeral_int (n : Int) : ∀ c ∈ (toString n).toList, IsNumeral c := by
  cases n with
  | ofNat n =>
    show ∀ c ∈ n.repr.toList, IsNumeral c
    rw [Nat.toList_repr]
    exact isNumeral_toDigits n
  | negSucc n =>
    show ∀ c ∈ ("-" ++ n.succ.repr).toList, IsNumeral c
    rw [String.toList_append, Nat.toList_repr, List.forall_mem_append]
    exact ⟨by decide, isNumeral_toDigits _⟩

namespace Binary64

/-! What holds of digits and of the marks between them holds of all that a finite number is printed with. -/

section Finite

variable {P : Char → Prop} (hdigits : ∀ c, c.isDigit = true → P c) (hmarks : ∀ c ∈ ['-', '+', '.', 'e'], P c)

include hdigits

lemma forall_mem_toDigits (n : Nat) : ∀ c ∈ Nat.toDigits 10 n, P c := fun c hc =>
  hdigits c (Nat.isDigit_of_mem_toDigits (by omega) (by omega) hc)

lemma forall_mem_zeros (n : Nat) : ∀ c ∈ zeros n, P c := by
  intro c hc
  rw [List.eq_of_mem_replicate hc]
  exact hdigits '0' (by decide)

include hmarks

lemma forall_mem_positional {digits : List Char} (h : ∀ c ∈ digits, P c) (point : Int) :
    ∀ c ∈ positional digits point, P c := by
  have hpoint : P '.' := hmarks '.' (by decide)
  have hzero : P '0' := hdigits '0' (by decide)
  unfold positional
  split
  · simp only [List.forall_mem_append, List.forall_mem_cons]
    exact ⟨⟨hzero, hpoint, forall_mem_zeros hdigits _⟩, h⟩
  · have hpadded : ∀ c ∈ digits ++ zeros (point.toNat - digits.length), P c :=
      List.forall_mem_append.2 ⟨h, forall_mem_zeros hdigits _⟩
    dsimp only
    split
    · exact List.forall_mem_append.2 ⟨hpadded, by simpa using ⟨hpoint, hzero⟩⟩
    · next hrest _ =>
      simp only [List.forall_mem_append, List.forall_mem_cons]
      exact ⟨fun c hc => hpadded c (List.mem_of_mem_take hc), hpoint, fun c hc => hpadded c (List.mem_of_mem_drop hc)⟩

lemma forall_mem_scientific {digits : List Char} (h : ∀ c ∈ digits, P c) (layout : Layout) (exponent : Int) :
    ∀ c ∈ scientific layout digits exponent, P c := by
  have hsign : P (if exponent < 0 then '-' else '+') := by
    split
    · exact hmarks '-' (by decide)
    · exact hmarks '+' (by decide)
  have hpoint : P '.' := hmarks '.' (by decide)
  have hmark : P 'e' := hmarks 'e' (by decide)
  unfold scientific
  simp only [List.forall_mem_append, List.forall_mem_cons]
  refine ⟨⟨?_, hmark, hsign, forall_mem_zeros hdigits _⟩, forall_mem_toDigits hdigits _⟩
  split
  · simp only [List.forall_mem_cons] at h ⊢
    exact ⟨h.1, hpoint, h.2⟩
  · exact h

lemma forall_mem_finite (layout : Layout) (negative : Bool) (significand : Nat) (exponent : Int) :
    ∀ c ∈ ((finite negative significand exponent).text layout).toList, P c := by
  have hshown (digits : Nat) (scale : Int) : ∀ c ∈ (significantDigits digits scale).1, P c := by
    intro c hc
    refine forall_mem_toDigits hdigits digits c ?_
    exact List.mem_reverse.1 (List.dropWhile_subset _ (List.mem_reverse.1 hc))
  have hsigned {body : List Char} (hbody : ∀ c ∈ body, P c) : ∀ c ∈ if negative then '-' :: body else body, P c := by
    split
    · exact List.forall_mem_cons.2 ⟨hmarks '-' (by decide), hbody⟩
    · exact hbody
  unfold text
  rw [String.toList_ofList]
  refine hsigned ?_
  split
  · have hzero : P '0' := hdigits '0' (by decide)
    have hpoint : P '.' := hmarks '.' (by decide)
    simpa using ⟨hzero, hpoint, hzero⟩
  · dsimp only
    split
    · exact forall_mem_positional hdigits hmarks (hshown _ _) _
    · exact forall_mem_scientific hdigits hmarks (hshown _ _) _ _

end Finite

/-- A printed number has only letters and digits, signs and points, if the words for numbers without digits have. -/
lemma isNumeral_text {layout : Layout} (hnan : ∀ c ∈ layout.nan.toList, IsNumeral c)
    (hinfinity : ∀ c ∈ layout.infinity.toList, IsNumeral c) (x : Binary64) :
    ∀ c ∈ (x.text layout).toList, IsNumeral c := by
  cases x with
  | nan => exact hnan
  | infinite negative =>
    unfold text
    rw [String.toList_append, List.forall_mem_append]
    exact ⟨by cases negative <;> decide, hinfinity⟩
  | finite negative significand exponent =>
    have hdigits (c : Char) (hc : c.isDigit = true) : IsNumeral c := .inl (Naming.isAlphanum_of_isDigit hc)
    exact forall_mem_finite hdigits (by decide) layout negative significand exponent

lemma isNumeral_plain (x : Binary64) : ∀ c ∈ (x.text plainLayout).toList, IsNumeral c :=
  isNumeral_text (by decide) (by decide) x

lemma isNumeral_json (x : Binary64) : ∀ c ∈ (x.text jsonLayout).toList, IsNumeral c :=
  isNumeral_text (by decide) (by decide) x

end Binary64

/-! ## Texts of values -/

namespace Json

mutual

/-- The texts in a value: its keys and strings, at any depth. -/
def texts : Json → List String
  | str s => [s]
  | arr xs => elementTexts xs
  | obj ms => memberTexts ms
  | _ => []

def elementTexts : List Json → List String
  | [] => []
  | x :: xs => texts x ++ elementTexts xs

def memberTexts : Members → List String
  | [] => []
  | (key, x) :: ms => key :: (texts x ++ memberTexts ms)

end

lemma mem_memberTexts {ms : Members} {key : String} {value : Json} (h : (key, value) ∈ ms) :
    key ∈ memberTexts ms ∧ value.texts ⊆ memberTexts ms := by
  induction ms with
  | nil => cases h
  | cons m ms ih =>
    obtain ⟨k, x⟩ := m
    rw [memberTexts]
    rcases List.mem_cons.1 h with heq | h
    · obtain ⟨rfl, rfl⟩ := Prod.mk.inj heq
      exact ⟨List.mem_cons_self, List.Subset.trans (List.subset_append_left _ _) (List.subset_cons_self _ _)⟩
    · obtain ⟨hkey, hvalue⟩ := ih h
      refine ⟨List.mem_cons_of_mem _ (List.mem_append_right _ hkey), fun text htext => ?_⟩
      exact List.mem_cons_of_mem _ (List.mem_append_right _ (hvalue htext))

lemma texts_subset_of_get? {ms : Members} {key : String} {value : Json} (h : ms.get? key = some value) :
    value.texts ⊆ (obj ms).texts :=
  (mem_memberTexts (Members.mem_of_get? h)).2

end Json

/-! ## Texts of wrapper types -/

/-- The names of the field and of the index that an expression uses. -/
def Expr.names : Expr → List String
  | .field f | .property f _ _ _ | .presence f _ | .length f => [f.name]
  | .item f index _ _ => [f.name, index.name]
  | .construct _ argument => argument.names
  | .literal _ | .foreign _ => []

/-- The texts that an expression copies: its key, and the texts of its literal or default. -/
def Expr.copied : Expr → List String
  | .literal value => value.texts
  | .property _ key _ default? => key :: default?.elim [] Json.texts
  | .item _ _ _ default? => default?.elim [] Json.texts
  | .presence _ key => [key]
  | .construct _ argument => argument.copied
  | .field _ | .length _ | .foreign _ => []

def Method.names (method : Method) : List String :=
  method.name :: (method.parameters.map (·.name) ++ method.body?.elim [] Expr.names)

def Method.copied (method : Method) : List String :=
  method.body?.elim [] Expr.copied

def Constructor.names (c : Constructor) : List String :=
  c.parameters.map (·.name) ++ c.assignments.flatMap fun (field, parameter) => [field, parameter]

namespace WrapperType

/-- The names that the code of a class declares and uses. Names of other classes are not among them. -/
def names (t : WrapperType) : List String :=
  t.name :: (t.fields.map (·.name) ++ t.constructors.flatMap Constructor.names ++ t.methods.flatMap Method.names)

/-- The texts that the code of a class copies, its documentation aside. -/
def copied (t : WrapperType) : List String :=
  t.methods.flatMap Method.copied

/-- All names are letters and digits. -/
def Plain (t : WrapperType) : Prop :=
  ∀ name ∈ t.names, ∀ c ∈ name.toList, c.isAlphanum = true

end WrapperType

/-! ## Files and classes of a model -/

/-- What holds of a dot and of all characters of the names of types holds of those of qualified names. -/
lemma Model.forall_mem_qualifiedName {m : Model} {P : Char → Prop} (hdot : P '.')
    (h : ∀ t ∈ m.types, ∀ c ∈ t.name.toList, P c) (id : TypeId) :
    (∀ c ∈ (m.nameOf id).toList, P c) ∧ ∀ c ∈ (m.qualifiedName id).toList, P c := by
  have hname (id : TypeId) : ∀ c ∈ (m.nameOf id).toList, P c := by
    cases ht : m.types[id]? with
    | none => simp [nameOf, ht]
    | some t =>
      rw [nameOf, ht]
      exact h t (List.mem_of_getElem? ht)
  have hseparator : ∀ c ∈ ".".toList, P c := List.forall_mem_singleton.2 hdot
  refine ⟨hname id, forall_mem_intercalate hseparator fun name hmem => ?_⟩
  obtain ⟨outer, -, rfl⟩ := List.mem_map.1 hmem
  exact hname outer

/-- The namespace that a type is in is one of the model. -/
lemma Model.mem_namespaces {m : Model} {id : TypeId} {name : String} (h : m.namespaceOf? id = some name) :
    name ∈ m.namespaces := by
  unfold namespaceOf? at h
  obtain ⟨t, -, ht⟩ := Option.bind_eq_some_iff.1 h
  split at ht
  · exact List.mem_of_getElem? ht
  · cases ht

lemma Table.put_of_notMem {κ α : Type} [DecidableEq κ] {t : Table κ α} {key : κ} (h : key ∉ t.keys) (value : α) :
    t.put key value = t ++ [(key, value)] :=
  if_neg h

lemma Table.mem_put {κ α : Type} [DecidableEq κ] {t : Table κ α} {key : κ} {value : α} {e : κ × α}
    (h : e ∈ t.put key value) : e ∈ t ∨ e = (key, value) := by
  unfold put at h
  split at h
  · obtain ⟨e', he', rfl⟩ := List.mem_map.1 h
    split
    · exact .inr rfl
    · exact .inl he'
  · exact (List.mem_append.1 h).imp id List.mem_singleton.1

/-- The type at the top of a tree. -/
def TypeTree.root : TypeTree → TypeId × WrapperType
  | .node id t _ => (id, t)

mutual

/-- The type of a tree and the types inside it. -/
def TypeTree.types : TypeTree → List WrapperType
  | .node _ t inner => t :: TypeTree.allTypes inner

def TypeTree.allTypes : List TypeTree → List WrapperType
  | [] => []
  | tree :: rest => tree.types ++ TypeTree.allTypes rest

end

lemma TypeTree.types_subset_allTypes {tree : TypeTree} {trees : List TypeTree} (h : tree ∈ trees) :
    tree.types ⊆ allTypes trees := by
  induction trees with
  | nil => cases h
  | cons first rest ih =>
    rw [allTypes]
    rcases List.mem_cons.1 h with rfl | h
    · exact List.subset_append_left _ _
    · exact List.Subset.trans (ih h) (List.subset_append_right _ _)

/-- Trees hold types of the model. -/
lemma Model.types_treesFrom (m : Model) (fuel : Nat) (c : Container) :
    TypeTree.allTypes (m.treesFrom fuel c) ⊆ m.types := by
  induction fuel generalizing c with
  | zero => exact List.nil_subset _
  | succ fuel ih =>
    have hinner (children : List (TypeId × WrapperType)) (h : ∀ p ∈ children, p.2 ∈ m.types) :
        TypeTree.allTypes (children.map fun p => .node p.1 p.2 (m.treesFrom fuel (.inside p.1))) ⊆ m.types := by
      induction children with
      | nil => exact List.nil_subset _
      | cons p children ihc =>
        obtain ⟨hp, hrest⟩ := List.forall_mem_cons.1 h
        exact List.append_subset.2 ⟨List.cons_subset.2 ⟨hp, ih _⟩, ihc hrest⟩
    refine hinner _ fun p hp => ?_
    obtain ⟨q, hq, rfl⟩ := List.mem_map.1 hp
    exact List.fst_mem_of_mem_zipIdx (List.mem_filter.1 hq).1

end SchemaAccessors
