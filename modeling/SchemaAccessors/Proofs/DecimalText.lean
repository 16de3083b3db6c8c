import Mathlib.Data.Int.Log
import Mathlib.Data.Rat.Floor
import Mathlib.Tactic.FieldSimp
import Mathlib.Tactic.Positivity
import Mathlib.Tactic.Ring
import SchemaAccessors.Number.Decimal
import SchemaAccessors.Json.Reader
import SchemaAccessors.Proofs.Variations

/-!
# Reading decimal text back

A decimal number is rounded to the nearest double-precision number, and what it is rounded to depends on its value
alone: zeros that move the decimal point make no difference. A double-precision number is printed with digits that
are rounded to it, and wherever the layout puts the point and the exponent, these digits are read again.
-/

namespace SchemaAccessors.Binary64

/-! ## Rounding depends on the value -/

lemma overPower_pos {num den : Nat} (hden : 0 < den) (e : Int) : 0 < (overPower num den e).2 := by
  unfold overPower
  split
  · exact Nat.mul_pos hden (Nat.pow_pos (by decide))
  · exact hden

lemma cast_overPower (num den : Nat) (e : Int) :
    ((overPower num den e).1 : ℚ) / (overPower num den e).2 = (num : ℚ) / den / 2 ^ e := by
  unfold overPower
  split
  · next he =>
    obtain ⟨k, rfl⟩ := Int.eq_ofNat_of_zero_le he
    rw [Int.toNat_natCast, zpow_natCast, div_div]
    push_cast [Nat.pow_eq]
    rfl
  · next he =>
    obtain ⟨k, rfl⟩ := Int.exists_eq_neg_ofNat (not_le.1 he).le
    rw [neg_neg, Int.toNat_natCast, zpow_neg, zpow_natCast, div_inv_eq_mul, div_mul_eq_mul_div]
    push_cast [Nat.pow_eq]
    rfl

/-- The exponent is that of the power of two below the ratio, less the 52 bits behind the first one. -/
lemma exponentFor_eq {num den : Nat} (hnum : 0 < num) (hden : 0 < den) :
    exponentFor num den = max leastExponent (Int.log 2 ((num : ℚ) / den) - 52) := by
  have hratio : (0 : ℚ) < (num : ℚ) / den := by positivity
  have hpow (k : Nat) : ((2 : ℕ) : ℚ) ^ k = ((2 ^ k : Nat) : ℚ) := by push_cast; rfl
  have hlower : (num.log2 : Int) - den.log2 - 1 ≤ Int.log 2 ((num : ℚ) / den) := by
    have hnum' : ((2 ^ num.log2 : Nat) : ℚ) ≤ num := by exact_mod_cast Nat.log2_self_le hnum.ne'
    have hden' : (den : ℚ) ≤ ((2 ^ (den.log2 + 1) : Nat) : ℚ) := by exact_mod_cast Nat.lt_log2_self.le
    rw [← Int.zpow_le_iff_le_log (by decide) hratio, sub_sub, zpow_sub₀ (by norm_num)]
    have hexponent : ((2 : ℕ) : ℚ) ^ ((den.log2 : Int) + 1) = ((2 ^ (den.log2 + 1) : Nat) : ℚ) := by
      rw [← hpow]
      exact_mod_cast rfl
    rw [hexponent, zpow_natCast, hpow]
    gcongr
  have hupper : Int.log 2 ((num : ℚ) / den) < (num.log2 : Int) + 1 - den.log2 := by
    have hnum' : (num : ℚ) < ((2 ^ (num.log2 + 1) : Nat) : ℚ) := by exact_mod_cast Nat.lt_log2_self
    have hden' : ((2 ^ den.log2 : Nat) : ℚ) ≤ den := by exact_mod_cast Nat.log2_self_le hden.ne'
    rw [← Int.lt_zpow_iff_log_lt (by decide) hratio, zpow_sub₀ (by norm_num)]
    have hexponent : ((2 : ℕ) : ℚ) ^ ((num.log2 : Int) + 1) = ((2 ^ (num.log2 + 1) : Nat) : ℚ) := by
      rw [← hpow]
      exact_mod_cast rfl
    rw [hexponent, zpow_natCast, hpow]
    exact div_lt_div₀ hnum' hden' (by positivity) (by positivity)
  have hfits (e : Int) : (overPower num den e).1 / (overPower num den e).2 < Nat.pow 2 53 ↔
      Int.log 2 ((num : ℚ) / den) < e + 53 := by
    have hcast := cast_overPower num den e
    have hpos : (0 : ℚ) < (overPower num den e).2 := by exact_mod_cast overPower_pos hden e
    have hpower : (0 : ℚ) < ((2 : ℕ) : ℚ) ^ e := zpow_pos (by norm_num) e
    rw [Nat.div_lt_iff_lt_mul (overPower_pos hden e), ← Int.lt_zpow_iff_log_lt (by decide) hratio, add_comm,
      zpow_add₀ (by norm_num), ← div_lt_iff₀ hpower]
    push_cast at hcast ⊢
    rw [← hcast, div_lt_iff₀ hpos]
    exact_mod_cast Iff.rfl
  unfold exponentFor
  dsimp only
  split
  · next h =>
    rw [hfits] at h
    congr 1
    omega
  · next h =>
    rw [hfits] at h
    congr 1
    omega

lemma roundHalfEven_mul {c : Nat} (hc : 0 < c) (num den : Nat) :
    roundHalfEven (num * c) (den * c) = roundHalfEven num den := by
  unfold roundHalfEven
  dsimp only
  rw [Nat.mul_div_mul_right _ _ hc, Nat.mul_mod_mul_right, ← Nat.mul_assoc]
  simp only [Nat.mul_lt_mul_right hc]

/-- A ratio is rounded as it is when it is expanded. -/
lemma ofRatio_mul (negative : Bool) {num den c : Nat} (hden : 0 < den) (hc : 0 < c) :
    ofRatio negative (num * c) (den * c) = ofRatio negative num den := by
  rcases Nat.eq_zero_or_pos num with rfl | hnum
  · simp [ofRatio]
  have hne : num * c ≠ 0 := (Nat.mul_pos hnum hc).ne'
  have hexponent : exponentFor (num * c) (den * c) = exponentFor num den := by
    rw [exponentFor_eq (Nat.mul_pos hnum hc) (Nat.mul_pos hden hc), exponentFor_eq hnum hden]
    push_cast
    rw [mul_div_mul_right _ _ (Nat.cast_ne_zero.2 hc.ne')]
  have hover (e : Int) : overPower (num * c) (den * c) e = ((overPower num den e).1 * c, (overPower num den e).2 * c) := by
    unfold overPower
    split <;> simp only [Nat.mul_right_comm]
  unfold ofRatio
  dsimp only
  rw [if_neg hne, if_neg hnum.ne', hexponent, hover, roundHalfEven_mul hc]

lemma ofRatio_congr (negative : Bool) {num den num' den' : Nat} (hden : 0 < den) (hden' : 0 < den')
    (h : num * den' = num' * den) : ofRatio negative num den = ofRatio negative num' den' := by
  rw [← ofRatio_mul negative hden hden', h, Nat.mul_comm den, ofRatio_mul negative hden' hden]

lemma digitCount_mul_pow {n : Nat} (hn : 0 < n) (k : Nat) : digitCount (n * 10 ^ k) = digitCount n + k := by
  induction k with
  | zero => simp
  | succ k ih =>
    have hpos : 0 < n * 10 ^ k := Nat.mul_pos hn (Nat.pow_pos (by decide))
    have happend := Nat.toDigits_append_toDigits (b := 10) (d := 0) (by decide) hpos (by decide)
    rw [Nat.add_zero, Nat.toDigits_zero] at happend
    have hvalue : n * 10 ^ (k + 1) = 10 * (n * 10 ^ k) := by
      rw [Nat.pow_succ]
      ring
    rw [digitCount, hvalue, ← happend, List.length_append, List.length_singleton, ← digitCount, ih, Nat.add_assoc]

/-- A decimal number is rounded as it is when zeros are written behind its digits and taken from its scale. -/
theorem ofDecimal_mul_pow (negative : Bool) (digits k : Nat) (scale : Int) :
    ofDecimal negative (digits * 10 ^ k) scale = ofDecimal negative digits (scale + k) := by
  rcases Nat.eq_zero_or_pos digits with rfl | hdigits
  · simp [ofDecimal]
  have hne : digits * 10 ^ k ≠ 0 := (Nat.mul_pos hdigits (Nat.pow_pos (by decide))).ne'
  have hplace : scale + (digitCount (digits * 10 ^ k) : Nat) = scale + k + digitCount digits := by
    rw [digitCount_mul_pow hdigits]
    push_cast
    ring
  have hpow (n : Nat) : 0 < Nat.pow 10 n := Nat.pow_pos (by decide)
  unfold ofDecimal
  rw [if_neg hne, if_neg hdigits.ne', hplace]
  split
  · rfl
  split
  · rfl
  split
  · next h =>
    rw [if_pos (by omega)]
    refine ofRatio_congr negative (by decide) (by decide) ?_
    have hsum : (scale + k).toNat = scale.toNat + k := by omega
    rw [hsum, Nat.pow_eq, Nat.pow_eq, Nat.pow_add]
    ring
  · next h =>
    split
    · next h' =>
      refine ofRatio_congr negative (hpow _) (by decide) ?_
      have hsum : k = (scale + k).toNat + (-scale).toNat := by omega
      rw [Nat.pow_eq, Nat.pow_eq, Nat.mul_one, Nat.mul_assoc, ← Nat.pow_add, ← hsum]
    · next h' =>
      refine ofRatio_congr negative (hpow _) (hpow _) ?_
      have hsum : (-scale).toNat = k + (-(scale + k)).toNat := by omega
      rw [Nat.pow_eq, Nat.pow_eq, hsum, Nat.mul_assoc, ← Nat.pow_add]

/-! ## Digits that are rounded to a number -/

lemma ofDecimal_of_onGrid? {x : Binary64} {num den digits : Nat} {scale : Int}
    (h : onGrid? x num den scale = some digits) : ofDecimal false digits scale = x := by
  have hround (n d : Nat) : roundHalfEven n d = n / d ∨ roundHalfEven n d = n / d + 1 := by
    unfold roundHalfEven
    dsimp only
    split
    · exact .inl rfl
    split
    · exact .inr rfl
    · omega
  unfold onGrid? at h
  generalize (if 0 ≤ scale then (num, den * Nat.pow 10 scale.toNat) else (num * Nat.pow 10 (-scale).toNat, den)) =
    ratio at h
  obtain ⟨n, d⟩ := ratio
  dsimp only at h
  split at h
  · next hbelow habove =>
    obtain rfl := Option.some.inj h
    rcases hround n d with hn | hn
    · rw [hn]
      exact beq_iff_eq.1 hbelow
    · rw [hn]
      exact beq_iff_eq.1 habove
  · next hbelow _ =>
    obtain rfl := Option.some.inj h
    exact beq_iff_eq.1 hbelow
  · next _ habove =>
    obtain rfl := Option.some.inj h
    exact beq_iff_eq.1 habove
  · cases h

/-- The digits that are searched for are rounded to the number, if any are found. -/
lemma of_shortestFrom (x : Binary64) (num den : Nat) (point : Int) (count fuel : Nat) :
    shortestFrom x num den point count fuel = (0, 0) ∨
      ofDecimal false (shortestFrom x num den point count fuel).1 (shortestFrom x num den point count fuel).2 = x := by
  induction fuel generalizing count with
  | zero => exact .inl rfl
  | succ fuel ih =>
    unfold shortestFrom
    split
    · next hfound => exact .inr (ofDecimal_of_onGrid? hfound)
    · exact ih (count + 1)

/-! ## Reading a decimal number

A decimal number has a fraction, or an exponent, or both. -/

/-- The digits of a decimal number and the scale of its last digit. -/
def decimal? (text : List Char) : Option (Nat × Int) :=
  let (whole, rest) := Json.spanDigits text
  let (fraction, rest) := (Json.fraction? rest).getD ([], rest)
  if whole.isEmpty then none
  else if rest.isEmpty then
    if fraction.isEmpty then none else some (Number.ofDigits (whole ++ fraction), -fraction.length)
  else match Json.exponent? rest with
    | some (e, []) => some (Number.ofDigits (whole ++ fraction), e - fraction.length)
    | _ => none

def AllDigits (text : List Char) : Prop :=
  ∀ c ∈ text, c.isDigit = true

lemma allDigits_toDigits (n : Nat) : AllDigits (Nat.toDigits 10 n) := fun _ hc =>
  Nat.isDigit_of_mem_toDigits (by decide) (by decide) hc

@[simp] lemma length_zeros (n : Nat) : (zeros n).length = n :=
  List.length_replicate

lemma allDigits_zeros (n : Nat) : AllDigits (zeros n) := by
  intro c hc
  rw [List.eq_of_mem_replicate hc]
  decide

lemma AllDigits.append {a b : List Char} (ha : AllDigits a) (hb : AllDigits b) : AllDigits (a ++ b) :=
  List.forall_mem_append.2 ⟨ha, hb⟩

/-- Digits are read up to what is no digit. -/
lemma spanDigits_append {digits rest : List Char} (hdigits : AllDigits digits)
    (hrest : ∀ c ∈ rest.head?, c.isDigit = false) : Json.spanDigits (digits ++ rest) = (digits, rest) := by
  have hstop : rest.takeWhile Char.isDigit = [] ∧ rest.dropWhile Char.isDigit = rest := by
    cases rest with
    | nil => exact ⟨rfl, rfl⟩
    | cons c rest =>
      have hc := hrest c rfl
      simp [hc]
  rw [Json.spanDigits, List.span_eq_takeWhile_dropWhile, List.takeWhile_append_of_pos hdigits,
    List.dropWhile_append_of_pos hdigits, hstop.1, hstop.2, List.append_nil]

lemma spanDigits_point {digits : List Char} (hdigits : AllDigits digits) (rest : List Char) :
    Json.spanDigits (digits ++ '.' :: rest) = (digits, '.' :: rest) := by
  refine spanDigits_append hdigits fun c hc => ?_
  obtain rfl : '.' = c := Option.some.inj hc
  decide

lemma spanDigits_self {digits : List Char} (hdigits : AllDigits digits) : Json.spanDigits digits = (digits, []) := by
  have hnone : ∀ c ∈ ([] : List Char).head?, c.isDigit = false := by simp
  simpa using spanDigits_append hdigits hnone

lemma ofDigits_append_zeros (digits : List Char) (k : Nat) :
    Number.ofDigits (digits ++ zeros k) = Number.ofDigits digits * 10 ^ k := by
  induction k with
  | zero => simp [zeros]
  | succ k ih =>
    have hzero : Number.digitValue '0' = 0 := rfl
    rw [zeros, List.replicate_succ', ← List.append_assoc, Number.ofDigits, List.foldl_append, ← Number.ofDigits,
      ← zeros, ih, List.foldl_cons, List.foldl_nil, hzero, Nat.add_zero, Nat.pow_succ, Nat.mul_assoc]

lemma ofDigits_zeros_append (k : Nat) (digits : List Char) :
    Number.ofDigits (zeros k ++ digits) = Number.ofDigits digits := by
  have hzeros : Number.ofDigits (zeros k) = 0 := by
    simpa [Number.ofDigits] using ofDigits_append_zeros [] k
  rw [Number.ofDigits, List.foldl_append, ← Number.ofDigits, hzeros]
  rfl

/-- Digits on both sides of the point. -/
lemma decimal?_fraction {whole fraction : List Char} (hwhole : AllDigits whole) (hne : whole ≠ [])
    (hfraction : AllDigits fraction) (hne' : fraction ≠ []) :
    decimal? (whole ++ '.' :: fraction) = some (Number.ofDigits (whole ++ fraction), -(fraction.length : Int)) := by
  have hread : Json.fraction? ('.' :: fraction) = some (fraction, []) := by
    rw [Json.fraction?, spanDigits_self hfraction]
    cases fraction with
    | nil => exact absurd rfl hne'
    | cons c fraction => rfl
  rw [decimal?, spanDigits_point hwhole]
  simp [hread, hne, hne']

/-- Digits with an exponent behind them, and with a point somewhere between them or without. -/
lemma decimal?_exponent {whole fraction power : List Char} (hwhole : AllDigits whole) (hne : whole ≠ [])
    (hfraction : AllDigits fraction) (hpower : AllDigits power) (hne' : power ≠ []) (negative : Bool) :
    decimal? (whole ++ (if fraction = [] then [] else '.' :: fraction) ++
        'e' :: (if negative then '-' else '+') :: power) =
      some (Number.ofDigits (whole ++ fraction),
        (if negative then -Number.ofDigits power else Number.ofDigits power : Int) - fraction.length) := by
  have hexponent : Json.exponent? ('e' :: (if negative then '-' else '+') :: power) =
      some ((if negative then -Number.ofDigits power else Number.ofDigits power : Int), []) := by
    obtain ⟨c, rest, rfl⟩ := List.exists_cons_of_ne_nil hne'
    cases negative <;> simp [Json.exponent?, spanDigits_self hpower]
  have hmark : ∀ c ∈ ('e' :: (if negative then '-' else '+') :: power).head?, c.isDigit = false := by
    intro c hc
    obtain rfl : 'e' = c := Option.some.inj hc
    decide
  generalize 'e' :: (if negative then '-' else '+') :: power = tail at hexponent hmark
  have htail : tail ≠ [] := by
    rintro rfl
    cases hexponent
  by_cases hpoint : fraction = []
  · have hnone : Json.fraction? tail = none := by
      cases tail with
      | nil => rfl
      | cons c tail =>
        have hc : c ≠ '.' := by
          rintro rfl
          cases hexponent
        rw [Json.fraction?]
        simpa using hc
    rw [if_pos hpoint, List.append_nil, decimal?, spanDigits_append hwhole hmark, hpoint]
    simp [hnone, hexponent, hne, htail]
  · have hsome : Json.fraction? ('.' :: (fraction ++ tail)) = some (fraction, tail) := by
      rw [Json.fraction?, spanDigits_append hfraction hmark]
      cases fraction with
      | nil => exact absurd rfl hpoint
      | cons c fraction => rfl
    rw [if_neg hpoint, List.append_assoc, List.cons_append, decimal?, spanDigits_point hwhole]
    simp [hsome, hexponent, hne, htail]

/-! ## Reading what is printed -/

section Positional

variable {digits : List Char} {point : Int}

/-- A point in front of all digits. -/
lemma decimal?_positional_of_nonpos (hdigits : AllDigits digits) (hne : digits ≠ []) (hpoint : point ≤ 0) :
    decimal? (positional digits point) = some (Number.ofDigits digits, point - digits.length) := by
  have hall : AllDigits (zeros (-point).toNat ++ digits) := (allDigits_zeros _).append hdigits
  have hread := decimal?_fraction (allDigits_zeros 1) (by decide) hall (by simp [hne])
  rw [← List.append_assoc, List.append_assoc, ofDigits_zeros_append, ofDigits_zeros_append] at hread
  rw [positional, if_pos hpoint]
  refine hread.trans ?_
  rw [List.length_append, length_zeros]
  congr 2
  omega

/-- A point behind all digits, with zeros up to it and one behind it. -/
lemma decimal?_positional_of_length_le (hdigits : AllDigits digits) (hne : digits ≠ []) (hpoint : 0 < point)
    (hle : digits.length ≤ point.toNat) : decimal? (positional digits point) =
      some (Number.ofDigits digits * 10 ^ (point.toNat - digits.length + 1), -1) := by
  have hpadded : AllDigits (digits ++ zeros (point.toNat - digits.length)) := hdigits.append (allDigits_zeros _)
  have hlength : (digits ++ zeros (point.toNat - digits.length)).length = point.toNat := by
    rw [List.length_append, length_zeros]
    omega
  have hread := decimal?_fraction hpadded (by simp [hne]) (allDigits_zeros 1) (by decide)
  rw [ofDigits_append_zeros, ofDigits_append_zeros, Nat.mul_assoc, ← Nat.pow_add, length_zeros] at hread
  rw [positional, if_neg (not_le.2 hpoint)]
  dsimp only
  rw [List.drop_eq_nil_of_le hlength.le]
  exact hread

/-- A point among the digits. -/
lemma decimal?_positional_of_lt (hdigits : AllDigits digits) (hpoint : 0 < point) (hlt : point.toNat < digits.length) :
    decimal? (positional digits point) = some (Number.ofDigits digits, point - digits.length) := by
  have hnone : zeros (point.toNat - digits.length) = [] := by
    rw [zeros, Nat.sub_eq_zero_of_le hlt.le, List.replicate_zero]
  have htake : digits.take point.toNat ≠ [] := by
    rw [ne_eq, List.take_eq_nil_iff, not_or, ← List.length_eq_zero_iff]
    omega
  have hdrop : digits.drop point.toNat ≠ [] := by
    rw [ne_eq, List.drop_eq_nil_iff]
    omega
  have hread := decimal?_fraction (fun c hc => hdigits c (List.mem_of_mem_take hc)) htake
    (fun c hc => hdigits c (List.mem_of_mem_drop hc)) hdrop
  rw [positional, if_neg (not_le.2 hpoint)]
  dsimp only
  rw [hnone, List.append_nil]
  split
  · next hnil => exact absurd hnil hdrop
  · refine hread.trans ?_
    rw [List.take_append_drop, List.length_drop]
    congr 2
    omega

/-- Wherever the point stands among digits, they are read with that point. -/
lemma exists_decimal?_positional (hdigits : AllDigits digits) (hne : digits ≠ []) (point : Int) :
    ∃ k : Nat, decimal? (positional digits point) =
      some (Number.ofDigits digits * 10 ^ k, point - digits.length - k) := by
  by_cases hpoint : point ≤ 0
  · exact ⟨0, by simp [decimal?_positional_of_nonpos hdigits hne hpoint]⟩
  by_cases hle : digits.length ≤ point.toNat
  · refine ⟨point.toNat - digits.length + 1, ?_⟩
    rw [decimal?_positional_of_length_le hdigits hne (by omega) hle]
    congr 2
    omega
  · exact ⟨0, by simp [decimal?_positional_of_lt hdigits (by omega) (Nat.lt_of_not_le hle)]⟩

end Positional

/-- Digits with an exponent are read with that exponent. -/
lemma decimal?_scientific (layout : Layout) {digits : List Char} (hdigits : AllDigits digits) (hne : digits ≠ [])
    (exponent : Int) : decimal? (scientific layout digits exponent) =
      some (Number.ofDigits digits, exponent - (digits.length - 1 : Nat)) := by
  obtain ⟨first, others, rfl⟩ := List.exists_cons_of_ne_nil hne
  have hfirst : AllDigits [first] := fun c hc => hdigits c (by simp [List.mem_singleton.1 hc])
  have hothers : AllDigits others := fun c hc => hdigits c (List.mem_cons_of_mem _ hc)
  have hpower : AllDigits (zeros (layout.exponentDigits - (Nat.toDigits 10 exponent.natAbs).length) ++
      Nat.toDigits 10 exponent.natAbs) := (allDigits_zeros _).append (allDigits_toDigits _)
  have hparts : scientific layout (first :: others) exponent =
      [first] ++ (if others = [] then [] else '.' :: others) ++
        'e' :: (if decide (exponent < 0) then '-' else '+') ::
          (zeros (layout.exponentDigits - (Nat.toDigits 10 exponent.natAbs).length) ++
            Nat.toDigits 10 exponent.natAbs) := by
    cases others <;> simp [scientific]
  have hread := decimal?_exponent hfirst (by simp) hothers hpower (by simp [Nat.toDigits_ne_nil])
    (decide (exponent < 0))
  rw [ofDigits_zeros_append, Number.ofDigits_toDigits] at hread
  rw [hparts, hread]
  congr 2
  simp only [decide_eq_true_eq, List.length_cons, Nat.add_sub_cancel]
  split <;> omega

/-- The digits that are shown are those of the number without the zeros at their end. -/
lemma exists_significantDigits {n : Nat} (hn : n ≠ 0) (scale : Int) : ∃ k : Nat,
    AllDigits (significantDigits n scale).1 ∧ (significantDigits n scale).1 ≠ [] ∧
      n = Number.ofDigits (significantDigits n scale).1 * 10 ^ k ∧
      (significantDigits n scale).2 - (significantDigits n scale).1.length = scale + k := by
  set all := Nat.toDigits 10 n with hall
  set shown := (all.reverse.dropWhile (· == '0')).reverse with hshown
  have hzeros : ∀ c ∈ all.reverse.takeWhile (· == '0'), c = '0' := by
    intro c hc
    have hzero := List.mem_takeWhile_imp hc
    exact beq_iff_eq.1 hzero
  have hsplit : all = shown ++ zeros (all.reverse.takeWhile (· == '0')).length := by
    rw [zeros, ← List.eq_replicate_length.2 hzeros, hshown]
    have hback := congrArg List.reverse (List.takeWhile_append_dropWhile (p := (· == '0')) (l := all.reverse))
    rw [List.reverse_append, List.reverse_reverse, List.eq_replicate_length.2 hzeros, List.reverse_replicate] at hback
    rw [← List.eq_replicate_length.2 hzeros] at hback
    exact hback.symm
  generalize (all.reverse.takeWhile (· == '0')).length = k at hsplit
  have hvalue : n = Number.ofDigits shown * 10 ^ k := by
    rw [← ofDigits_append_zeros, ← hsplit, hall, Number.ofDigits_toDigits]
  refine ⟨k, fun c hc => ?_, ?_, hvalue, ?_⟩
  · have hmem : c ∈ all := by
      rw [hsplit]
      exact List.mem_append_left _ hc
    exact allDigits_toDigits n c hmem
  · intro hnone
    have hnil : shown = [] := hnone
    rw [hnil] at hvalue
    exact hn (by simpa [Number.ofDigits] using hvalue)
  · have hlength : all.length = shown.length + k := by
      rw [hsplit, List.length_append, length_zeros]
    show scale + all.length - shown.length = _
    rw [hlength]
    push_cast
    ring

/-- A finite number is printed as a decimal number, behind its sign. What that is rounded to is the number, unless
it is zero. -/
theorem exists_decimal?_text (significand : Nat) (exponent : Int) : ∃ body digits scale,
    (∀ negative, (finite negative significand exponent).text plainLayout =
      String.ofList (if negative then '-' :: body else body)) ∧
    decimal? body = some (digits, scale) ∧
    (digits = 0 ∨ significand ≠ 0 ∧ ofDecimal false digits scale = finite false significand exponent) := by
  by_cases hzero : significand = 0
  · refine ⟨['0', '.', '0'], 0, -1, fun negative => ?_, by decide, .inl rfl⟩
    rw [text, if_pos hzero]
  have hshortest : ∀ negative, (finite negative significand exponent).text plainLayout = String.ofList
      (let found := significantDigits (shortest significand exponent).1 (shortest significand exponent).2
      let body := if plainLayout.positionalFrom ≤ found.2 - 1 ∧ found.2 - 1 < plainLayout.scientificFrom
        then positional found.1 found.2 else scientific plainLayout found.1 (found.2 - 1)
      if negative then '-' :: body else body) := by
    intro negative
    rw [text, if_neg hzero]
  have hround : shortest significand exponent = (0, 0) ∨
      ofDecimal false (shortest significand exponent).1 (shortest significand exponent).2 =
        finite false significand exponent := of_shortestFrom _ _ _ _ _ _
  generalize shortest significand exponent = found at hshortest hround
  rcases hround with rfl | hround
  · refine ⟨['0', '.', '0'], 0, -1, fun negative => (hshortest negative).trans ?_, by decide, .inl rfl⟩
    cases negative <;> rfl
  obtain ⟨n, s⟩ := found
  have hn : n ≠ 0 := by
    rintro rfl
    exact hzero (Binary64.finite.inj hround).2.1.symm
  obtain ⟨k, hdigits, hne, hvalue, hpoint⟩ := exists_significantDigits hn s
  dsimp only at hshortest hround
  generalize significantDigits n s = shown at hshortest hdigits hne hvalue hpoint
  obtain ⟨shown, point⟩ := shown
  dsimp only at hshortest hdigits hne hvalue hpoint
  have hread : ∃ j : Nat, decimal? (if plainLayout.positionalFrom ≤ point - 1 ∧ point - 1 < plainLayout.scientificFrom
      then positional shown point else scientific plainLayout shown (point - 1)) =
        some (Number.ofDigits shown * 10 ^ j, point - shown.length - j) := by
    split
    · exact exists_decimal?_positional hdigits hne point
    · refine ⟨0, (decimal?_scientific plainLayout hdigits hne (point - 1)).trans ?_⟩
      have hlength : 0 < shown.length := List.length_pos_iff.2 hne
      rw [Nat.pow_zero, Nat.mul_one]
      congr 2
      omega
  obtain ⟨j, hread⟩ := hread
  refine ⟨_, _, _, hshortest, hread, .inr ⟨hzero, ?_⟩⟩
  rw [ofDecimal_mul_pow, sub_add_cancel, hpoint, ← ofDecimal_mul_pow, ← hvalue, hround]

end SchemaAccessors.Binary64
