import Mathlib.Data.List.TakeWhile
import Mathlib.Tactic.Common
import SchemaAccessors.Naming

/-!
# The spelling of names

Names are made from texts that may hold any character, and varied by the digits at their end. Whatever they are
made from, they are spelled alike: a capital, then letters and digits of ASCII. No name is empty or has a dot
in it, so names between dots can be told apart again.
-/

namespace SchemaAccessors.Naming

/-- Whether a name is spelled like the name of a type: a capital, then ASCII letters and digits. -/
def isTypeName (name : String) : Bool :=
  match name.toList with
  | c :: rest => c.isUpper && rest.all Char.isAlphanum
  | [] => false

lemma isTypeName_iff {name : String} :
    isTypeName name = true ↔
      ∃ c rest, name.toList = c :: rest ∧ c.isUpper = true ∧ ∀ d ∈ rest, d.isAlphanum = true := by
  unfold isTypeName
  cases name.toList with
  | nil => simp
  | cons c rest => simp

lemma isTypeName_ofList {c : Char} {rest : List Char} (hc : c.isUpper = true)
    (hrest : ∀ d ∈ rest, d.isAlphanum = true) : isTypeName (String.ofList (c :: rest)) = true :=
  isTypeName_iff.2 ⟨c, rest, String.toList_ofList, hc, hrest⟩

/-! ## Classes of characters -/

lemma isAlphanum_iff {c : Char} :
    c.isAlphanum = true ↔ (c.isUpper = true ∨ c.isLower = true) ∨ c.isDigit = true := by
  show (c.isUpper || c.isLower || c.isDigit) = true ↔ _
  rw [Bool.or_eq_true, Bool.or_eq_true]

lemma isAlphanum_of_isUpper {c : Char} (h : c.isUpper = true) : c.isAlphanum = true :=
  isAlphanum_iff.2 (.inl (.inl h))

lemma isAlphanum_of_isDigit {c : Char} (h : c.isDigit = true) : c.isAlphanum = true :=
  isAlphanum_iff.2 (.inr h)

lemma toNat_lt_of_isAlphanum {c : Char} (h : c.isAlphanum = true) : c.toNat < 128 := by
  have below {last : Char} (hascii : last.toNat < 128) (hle : c.val ≤ last.val) : c.toNat < 128 :=
    (UInt32.le_iff_toNat_le.1 hle).trans_lt hascii
  rcases isAlphanum_iff.1 h with (hupper | hlower) | hdigit
  · have hrange : c.val ≥ 'A'.val ∧ c.val ≤ 'Z'.val := of_decide_eq_true hupper
    exact below (by decide) hrange.2
  · have hrange := (Bool.and_eq_true _ _).mp (show (c.val ≥ 'a'.val && c.val ≤ 'z'.val) = true from hlower)
    exact below (by decide) (of_decide_eq_true hrange.2)
  · have hrange := (Bool.and_eq_true _ _).mp (show (c.val ≥ '0'.val && c.val ≤ '9'.val) = true from hdigit)
    exact below (by decide) (of_decide_eq_true hrange.2)

/-- What holds of all letters and digits can be checked on ASCII. -/
lemma alphanum_induction {P : Char → Prop} (h : ∀ n < 128, (Char.ofNat n).isAlphanum = true → P (Char.ofNat n))
    {c : Char} (hc : c.isAlphanum = true) : P c := by
  have hascii := toNat_lt_of_isAlphanum hc
  rw [← Char.ofNat_toNat c] at hc ⊢
  exact h c.toNat hascii hc

lemma not_isDigit_of_isUpper {c : Char} (h : c.isUpper = true) : c.isDigit = false :=
  alphanum_induction (P := fun c => c.isUpper = true → c.isDigit = false) (by decide)
    (isAlphanum_of_isUpper h) h

lemma isAlphanum_toUpper {c : Char} (h : c.isAlphanum = true) : c.toUpper.isAlphanum = true :=
  alphanum_induction (P := fun c => c.toUpper.isAlphanum = true) (by decide) h

lemma isUpper_of_not_isDigit_toUpper {c : Char} (h : c.isAlphanum = true) (hdigit : c.toUpper.isDigit = false) :
    c.toUpper.isUpper = true :=
  alphanum_induction (P := fun c => c.toUpper.isDigit = false → c.toUpper.isUpper = true) (by decide) h hdigit

lemma all_isAlphanum_of_isTypeName {name : String} (h : isTypeName name = true) :
    ∀ c ∈ name.toList, c.isAlphanum = true := by
  obtain ⟨c, rest, hname, hc, hrest⟩ := isTypeName_iff.1 h
  intro d hd
  rw [hname] at hd
  rcases List.mem_cons.1 hd with rfl | hd
  · exact isAlphanum_of_isUpper hc
  · exact hrest d hd

lemma notMem_of_isTypeName {c : Char} (hc : c.isAlphanum = false) {name : String} (h : isTypeName name = true) :
    c ∉ name.toList := by
  intro hmem
  rw [all_isAlphanum_of_isTypeName h c hmem] at hc
  exact Bool.noConfusion hc

/-! ## Names of texts -/

/-- The words of a text are made of letters and digits. -/
lemma all_isAlphanum_of_mem_wordsFrom {text word : List Char} (hword : ∀ c ∈ word, c.isAlphanum = true)
    {w : List Char} (hw : w ∈ wordsFrom word text) : ∀ c ∈ w, c.isAlphanum = true := by
  induction text generalizing word with
  | nil =>
    unfold wordsFrom at hw
    split at hw
    · cases hw
    · rw [List.mem_singleton.1 hw]
      exact fun c hc => hword c (List.mem_reverse.1 hc)
  | cons d text ih =>
    unfold wordsFrom at hw
    split at hw
    · next hd =>
      refine ih (fun c hc => ?_) hw
      rcases List.mem_cons.1 hc with rfl | hc
      · exact hd
      · exact hword c hc
    · split at hw
      · exact ih (fun c hc => (List.not_mem_nil hc).elim) hw
      · rcases List.mem_cons.1 hw with rfl | hw
        · exact fun c hc => hword c (List.mem_reverse.1 hc)
        · exact ih (fun c hc => (List.not_mem_nil hc).elim) hw

/-- The words of a text in one begin with a capital or a digit. -/
lemma of_camelChars_eq_cons {text : List Char} {c : Char} {rest : List Char} (h : camelChars text = c :: rest) :
    (c.isDigit = false → c.isUpper = true) ∧ ∀ d ∈ c :: rest, d.isAlphanum = true := by
  have hwords : ∀ w ∈ wordsFrom [] text, ∀ d ∈ w, d.isAlphanum = true := fun w hw =>
    all_isAlphanum_of_mem_wordsFrom (fun d hd => (List.not_mem_nil hd).elim) hw
  unfold camelChars at h
  generalize wordsFrom [] text = words at h hwords
  have hcapitalized (w : List Char) (hw : ∀ d ∈ w, d.isAlphanum = true) :
      ∀ d ∈ capitalize w, d.isAlphanum = true := by
    intro d hd
    cases w with
    | nil => cases hd
    | cons first w =>
      rcases List.mem_cons.1 hd with rfl | hd
      · exact isAlphanum_toUpper (hw first List.mem_cons_self)
      · exact hw d (List.mem_cons_of_mem first hd)
  constructor
  · induction words with
    | nil => cases h
    | cons w words ih =>
      rw [List.flatMap_cons] at h
      cases w with
      | nil => exact ih h fun w hw => hwords w (List.mem_cons_of_mem _ hw)
      | cons first w =>
        obtain ⟨rfl, -⟩ := List.cons.inj h
        exact isUpper_of_not_isDigit_toUpper (hwords _ List.mem_cons_self first List.mem_cons_self)
  · intro d hd
    rw [← h, List.mem_flatMap] at hd
    obtain ⟨w, hw, hd⟩ := hd
    exact hcapitalized w (hwords w hw) d hd

/-- Every text has a name that is spelled like the name of a type. -/
theorem isTypeName_identifier (text : String) : isTypeName (identifier text) = true := by
  unfold identifier identifierChars
  split
  · decide
  · next c rest hcamel =>
    obtain ⟨hupper, hall⟩ := of_camelChars_eq_cons hcamel
    split
    · refine isTypeName_ofList (by decide) fun d hd => ?_
      rcases List.mem_append.1 hd with hd | hd
      · have hstem : digitStem.tail.all Char.isAlphanum = true := by decide
        exact List.all_eq_true.1 hstem d hd
      · exact hall d hd
    · next hdigit =>
      exact isTypeName_ofList (hupper (by simpa using hdigit)) fun d hd => hall d (List.mem_cons_of_mem c hd)

lemma isTypeName_typeName (uri : String) : isTypeName (typeName uri) = true :=
  isTypeName_identifier (leaf uri)

/-! ## Variations

The digits at the end of a name do not reach its first character. -/

lemma exists_stem_of_cutNumber {c : Char} (hc : c.isDigit = false) (rest : List Char) :
    ∃ stem, (cutNumber (c :: rest)).1 = c :: stem ∧ stem ⊆ rest := by
  have hback : ((rest.reverse ++ [c]).dropWhile Char.isDigit).reverse
      = c :: (rest.reverse.dropWhile Char.isDigit).reverse := by
    rw [List.dropWhile_append]
    split
    · next hempty =>
      rw [List.isEmpty_iff] at hempty
      simp [hempty, hc]
    · simp
  refine ⟨(rest.reverse.dropWhile Char.isDigit).reverse, ?_, fun d hd => ?_⟩
  · simpa [cutNumber] using hback
  · exact List.mem_reverse.1 (List.dropWhile_subset _ (List.mem_reverse.1 hd))

/-- A variation of a name is spelled like one. -/
theorem isTypeName_vary {name : String} (h : isTypeName name = true) : isTypeName (vary name) = true := by
  obtain ⟨c, rest, hname, hc, hrest⟩ := isTypeName_iff.1 h
  have hfeed : '\n' ∉ name.toList := notMem_of_isTypeName (by decide) h
  have hending : ending name.toList = cutNumber (c :: rest) := by
    unfold ending
    rw [if_neg fun hlast => hfeed (List.mem_of_getLast? hlast), hname]
  obtain ⟨stem, hstem, hsub⟩ := exists_stem_of_cutNumber (not_isDigit_of_isUpper hc) rest
  unfold vary varyChars
  rw [hending]
  split
  · rw [hname]
    refine isTypeName_ofList hc fun d hd => ?_
    rcases List.mem_append.1 hd with hd | hd
    · exact hrest d hd
    · rw [List.mem_singleton.1 hd]
      decide
  · next hcut =>
    rw [hcut] at hstem
    dsimp only at hstem
    rw [hstem]
    refine isTypeName_ofList hc fun d hd => ?_
    rcases List.mem_append.1 hd with hd | hd
    · exact hrest d (hsub hd)
    · exact isAlphanum_of_isDigit (Nat.isDigit_of_mem_toDigits (by omega) (by omega) hd)

lemma isTypeName_of_next {name name' : String} (h : isTypeName name = true) (hnext : next name = .ok name') :
    isTypeName name' = true := by
  rw [eq_vary_of_next hnext]
  exact isTypeName_vary h

end SchemaAccessors.Naming
