import Mathlib.Data.List.Basic
import Mathlib.Logic.Function.Iterate
import SchemaAccessors.Proofs.Spelling

/-!
# Names that are varied again and again

A name that is taken is varied, and its variation again, until a free one is found. From its first variation on,
a name is a stem that no digit ends and a number behind it, and each variation counts that number up. So no
variation leads back to a name that was tried: neither to one with a number that has zeros in front or a line feed
behind, nor to one without a number.
-/

namespace SchemaAccessors

/-- What is written of a number is read as that number. -/
lemma Number.ofDigits_toDigits (n : Nat) : ofDigits (Nat.toDigits 10 n) = n := by
  have hvalue : (fun n c => n * 10 + digitValue c) = fun n c => 10 * n + (c.toNat - '0'.toNat) := by
    funext n c
    rw [Nat.mul_comm]
    rfl
  rw [ofDigits, hvalue, ← Nat.ofDigitChars_eq_foldl]
  exact Nat.ofDigitChars_ten_toDigits

namespace Naming

/-! ## Stems and numbers -/

/-- Whether a text ends in no digit. -/
def Unnumbered (stem : List Char) : Prop :=
  ∀ c ∈ stem.getLast?, c.isDigit = false

/-- A stem with a number behind it. -/
def withNumber (stem : List Char) (n : Nat) : List Char :=
  stem ++ Nat.toDigits 10 n

/-- A text is what stands before the digits at its end, and those digits. -/
lemma cutNumber_append (text : List Char) : (cutNumber text).1 ++ (cutNumber text).2 = text := by
  unfold cutNumber
  rw [← List.reverse_append, List.takeWhile_append_dropWhile, List.reverse_reverse]

lemma unnumbered_cutNumber (text : List Char) : Unnumbered (cutNumber text).1 := by
  intro c hc
  simp only [cutNumber, List.getLast?_reverse] at hc
  have hhead := List.head?_dropWhile_not Char.isDigit text.reverse
  rw [Option.mem_def.1 hc] at hhead
  exact hhead

/-- The digits behind a stem that no digit ends are the number that is cut off. -/
lemma cutNumber_of_unnumbered {stem digits : List Char} (hstem : Unnumbered stem)
    (hdigits : ∀ c ∈ digits, c.isDigit = true) : cutNumber (stem ++ digits) = (stem, digits) := by
  have hback : stem.reverse.takeWhile Char.isDigit = [] ∧ stem.reverse.dropWhile Char.isDigit = stem.reverse := by
    unfold Unnumbered at hstem
    rw [← List.head?_reverse] at hstem
    cases hrev : stem.reverse with
    | nil => exact ⟨rfl, rfl⟩
    | cons c rest =>
      rw [hrev] at hstem
      have hc := hstem c rfl
      simp [hc]
  have hall : ∀ c ∈ digits.reverse, c.isDigit = true := fun c hc => hdigits c (List.mem_reverse.1 hc)
  simp only [cutNumber, List.reverse_append]
  rw [List.takeWhile_append_of_pos hall, List.dropWhile_append_of_pos hall, hback.1, hback.2, List.append_nil,
    List.reverse_reverse, List.reverse_reverse]

lemma isDigit_of_mem_toDigits {n : Nat} {c : Char} (h : c ∈ Nat.toDigits 10 n) : c.isDigit = true :=
  Nat.isDigit_of_mem_toDigits (by omega) (by omega) h

/-- A digit ends a stem with a number. -/
lemma getLast?_withNumber_ne {c : Char} (hc : c.isDigit = false) (stem : List Char) (n : Nat) :
    (withNumber stem n).getLast? ≠ some c := by
  rw [withNumber, List.getLast?_append_of_ne_nil _ Nat.toDigits_ne_nil]
  intro hlast
  rw [isDigit_of_mem_toDigits (List.mem_of_getLast? hlast)] at hc
  exact Bool.noConfusion hc

/-! ## Counting up -/

/-- The variation of a name with a number has the next number. -/
lemma varyChars_withNumber {stem : List Char} (hstem : Unnumbered stem) (n : Nat) :
    varyChars (withNumber stem n) = withNumber stem (n + 1) := by
  have hending : ending (withNumber stem n) = (stem, Nat.toDigits 10 n) := by
    rw [ending, if_neg (getLast?_withNumber_ne (by decide) stem n)]
    exact cutNumber_of_unnumbered hstem fun c => isDigit_of_mem_toDigits
  unfold varyChars
  rw [hending]
  cases hdigits : Nat.toDigits 10 n with
  | nil => exact (Nat.toDigits_ne_nil hdigits).elim
  | cons d digits =>
    dsimp only
    rw [← hdigits, Number.ofDigits_toDigits, withNumber]

/-- The variation of any text is a stem with a number, and the text itself is none with that number or a higher
one. -/
lemma exists_varyChars_eq (text : List Char) :
    ∃ stem n, Unnumbered stem ∧ varyChars text = withNumber stem n ∧ ∀ m ≥ n, text ≠ withNumber stem m := by
  rcases hending : ending text with ⟨stem, digits⟩
  cases digits with
  | nil =>
    have hvary : varyChars text = text ++ ['2'] := by
      unfold varyChars
      rw [hending]
    unfold ending at hending
    have htext : Unnumbered text := by
      split_ifs at hending with hfeed
      · intro c hc
        obtain rfl : '\n' = c := Option.some.inj (hfeed.symm.trans hc)
        decide
      · have hall := cutNumber_append text
        rw [hending] at hall
        have hstem := unnumbered_cutNumber text
        rw [hending] at hstem
        rwa [← hall, List.append_nil]
    refine ⟨text, 2, htext, hvary, fun m _ htexts => ?_⟩
    have hempty : Nat.toDigits 10 m = [] := List.self_eq_append_right.1 htexts
    exact Nat.toDigits_ne_nil hempty
  | cons d digits =>
    have hvary : varyChars text = stem ++ Nat.toDigits 10 (Number.ofDigits (d :: digits) + 1) := by
      unfold varyChars
      rw [hending]
    unfold ending at hending
    refine ⟨stem, Number.ofDigits (d :: digits) + 1, ?_, hvary, fun m hm htext => ?_⟩
    · have hstem := unnumbered_cutNumber (if text.getLast? = some '\n' then text.dropLast else text)
      rwa [hending] at hstem
    · -- The number at the end of the text is the one that was counted up, so it is lower.
      rw [if_neg (by rw [htext]; exact getLast?_withNumber_ne (by decide) stem m)] at hending
      have hall := cutNumber_append text
      rw [hending, htext] at hall
      have hdigits : d :: digits = Nat.toDigits 10 m := List.append_cancel_left hall
      rw [hdigits, Number.ofDigits_toDigits] at hm
      omega

lemma iterate_varyChars_withNumber {stem : List Char} (hstem : Unnumbered stem) (n k : Nat) :
    varyChars^[k] (withNumber stem n) = withNumber stem (n + k) := by
  induction k with
  | zero => rfl
  | succ k ih => rw [Function.iterate_succ_apply', ih, varyChars_withNumber hstem, Nat.add_assoc]

lemma toList_iterate_vary (name : String) (k : Nat) : (vary^[k] name).toList = varyChars^[k] name.toList := by
  induction k with
  | zero => rfl
  | succ k ih => rw [Function.iterate_succ_apply', Function.iterate_succ_apply', ← ih, vary, String.toList_ofList]

/-- From its first variation on, a name is a stem with a number that is counted up, and the name itself is none with
that number or a higher one. -/
lemma exists_iterate_vary_eq (name : String) :
    ∃ stem n, Unnumbered stem ∧ (∀ k, (vary^[k + 1] name).toList = withNumber stem (n + k)) ∧
      ∀ m ≥ n, name.toList ≠ withNumber stem m := by
  obtain ⟨stem, n, hstem, hvary, hne⟩ := exists_varyChars_eq name.toList
  refine ⟨stem, n, hstem, fun k => ?_, hne⟩
  calc
    (vary^[k + 1] name).toList = varyChars^[k] (varyChars name.toList) := by
      rw [toList_iterate_vary, Function.iterate_succ_apply]
    _ = withNumber stem (n + k) := by rw [hvary, iterate_varyChars_withNumber hstem]

/-- However often it is varied, no name comes back. -/
lemma iterate_vary_succ_ne (name : String) (k : Nat) : vary^[k + 1] name ≠ name := by
  obtain ⟨stem, n, -, hnumbered, hne⟩ := exists_iterate_vary_eq name
  intro hback
  refine hne (n + k) (Nat.le_add_right n k) ?_
  rw [← hnumbered, hback]

/-- The variations of a name are all different. -/
lemma iterate_vary_injective (name : String) : Function.Injective fun k => vary^[k] name := by
  have hlt : ∀ i j, i < j → vary^[i] name ≠ vary^[j] name := by
    intro i j hij hsame
    obtain ⟨k, rfl⟩ := Nat.exists_eq_add_of_lt hij
    refine iterate_vary_succ_ne (vary^[i] name) k ?_
    rw [← Function.iterate_add_apply, hsame]
    congr 1
    omega
  intro i j hsame
  rcases Nat.lt_trichotomy i j with h | h | h
  · exact (hlt i j h hsame).elim
  · exact h
  · exact (hlt j i h hsame.symm).elim

/-- However often a name is varied, it is spelled like the name of a type. -/
lemma isTypeName_iterate_vary {name : String} (h : isTypeName name = true) (k : Nat) :
    isTypeName (vary^[k] name) = true := by
  induction k generalizing name with
  | zero => exact h
  | succ k ih => exact ih (isTypeName_vary h)

/-- Whatever a name is, its variations are a stem with a number that is counted up. So no two of them are the same, and
none is the name; and if the name is spelled like the name of a type, they all are. -/
theorem variations_of_name (name : String) :
    (∃ stem n, Unnumbered stem ∧ ∀ k, (vary^[k + 1] name).toList = withNumber stem (n + k)) ∧
      (∀ i j, i ≠ j → vary^[i] name ≠ vary^[j] name) ∧
      (isTypeName name = true → ∀ k, isTypeName (vary^[k] name) = true) := by
  refine ⟨?_, fun i j hne hsame => ?_, isTypeName_iterate_vary⟩
  · obtain ⟨stem, n, hstem, hnumbered, -⟩ := exists_iterate_vary_eq name
    exact ⟨stem, n, hstem, hnumbered⟩
  · exact hne (iterate_vary_injective name hsame)

/-- A number with zeros in front loses them, and has one more digit behind the nines. -/
theorem variations_of_name_of_zeros :
    isTypeName "Row007" = true ∧ vary "Row007" = "Row8" ∧ vary^[93] "Row007" = "Row100" ∧
      vary^[3] "Row007" ≠ vary^[93] "Row007" ∧ isTypeName (vary^[93] "Row007") = true := by
  have hspelled : isTypeName "Row007" = true := by decide
  obtain ⟨-, hdiffer, hall⟩ := variations_of_name "Row007"
  exact ⟨hspelled, by decide, by decide +kernel, hdiffer 3 93 (by decide), hall hspelled 93⟩

/-- Only digits of ASCII are counted up, and a line feed behind them is lost. -/
example : vary "Row9\n" = "Row10" ∧ vary "Row٣" = "Row٣2" ∧ vary "Row\n" = "Row\n2" := by decide

end Naming

end SchemaAccessors
