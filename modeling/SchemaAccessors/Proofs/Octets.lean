import Mathlib.Tactic.Common
import SchemaAccessors.Uri.Percent

/-!
# Escapes read back

A text is written as the octets of its UTF-8, and the octets that may not stand in a URI as escapes. Both are
undone by lenient readers, which give some text for everything. On what was written they are exact: no octet
of a text is ill-formed, and no `%` stands for itself.
-/

namespace SchemaAccessors.Text.Utf8

/-! ## The octets of one character

The first octet says how many follow and bounds the second one. The bounds leave out what is written with fewer
octets, the surrogates, and what is beyond Unicode; a character is none of these. -/

lemma decodeFrom_cons (state : Option Open) (octet : UInt8) (rest : List UInt8) :
    decodeFrom state (octet :: rest)
      = (step state octet.toNat).1 ++ decodeFrom (step state octet.toNat).2 rest := by
  cases state <;> rfl

lemma toNat_ofNat_octet {octet : Nat} (h : octet < 256) : (UInt8.ofNat octet).toNat = octet := by
  rw [UInt8.toNat_ofNat']
  exact Nat.mod_eq_of_lt h

lemma decodeFrom_first {octet : Nat} {o : Open} (rest : List UInt8) (h : octet < 256)
    (hstart : start octet = ([], some o)) :
    decodeFrom none (UInt8.ofNat octet :: rest) = decodeFrom (some o) rest := by
  have hstep : step none octet = ([], some o) := hstart
  rw [decodeFrom_cons, toNat_ofNat_octet h, hstep]
  rfl

lemma decodeFrom_inner {octet : Nat} {o : Open} (rest : List UInt8) (h : octet < 256)
    (hbounds : o.low ≤ octet ∧ octet ≤ o.high) (hmissing : o.missing ≠ 1) :
    decodeFrom (some o) (UInt8.ofNat octet :: rest)
      = decodeFrom (some ⟨o.missing - 1, o.value * 64 + (octet - 0x80), 0x80, 0xbf⟩) rest := by
  have hstep : step (some o) octet = ([], some ⟨o.missing - 1, o.value * 64 + (octet - 0x80), 0x80, 0xbf⟩) := by
    simp only [step, if_pos hbounds, if_neg hmissing]
  rw [decodeFrom_cons, toNat_ofNat_octet h, hstep]
  rfl

lemma decodeFrom_last {octet : Nat} {o : Open} (rest : List UInt8) (h : octet < 256)
    (hbounds : o.low ≤ octet ∧ octet ≤ o.high) (hmissing : o.missing = 1) :
    decodeFrom (some o) (UInt8.ofNat octet :: rest)
      = Char.ofNat (o.value * 64 + (octet - 0x80)) :: decodeFrom none rest := by
  have hstep : step (some o) octet = ([Char.ofNat (o.value * 64 + (octet - 0x80))], none) := by
    simp only [step, if_pos hbounds, if_pos hmissing]
  rw [decodeFrom_cons, toNat_ofNat_octet h, hstep]
  rfl

/-- The first of three octets, and what it asks of the second. -/
lemma start_of_three {n : Nat} (hlow : 0x800 ≤ n) (hhigh : n < 0x10000) (hvalid : n < 0xd800 ∨ 0xdfff < n) :
    ∃ low high, start (n / 4096 + 224) = ([], some ⟨2, n / 4096, low, high⟩)
      ∧ low ≤ n / 64 % 64 + 128 ∧ n / 64 % 64 + 128 ≤ high := by
  have h80 : ¬ n / 4096 + 224 < 0x80 := by omega
  have hc2 : ¬ n / 4096 + 224 < 0xc2 := by omega
  have he0 : ¬ n / 4096 + 224 < 0xe0 := by omega
  by_cases hfirst : n / 4096 = 0
  · refine ⟨0xa0, 0xbf, by simp [start, hfirst], ?_, ?_⟩ <;> omega
  · by_cases hsurrogate : n / 4096 = 0xd
    · refine ⟨0x80, 0x9f, by simp [start, hsurrogate], ?_, ?_⟩ <;> omega
    · have hnote0 : n / 4096 + 224 ≠ 0xe0 := by omega
      have hnoted : n / 4096 + 224 ≠ 0xed := by omega
      have hf0 : n / 4096 + 224 < 0xf0 := by omega
      refine ⟨0x80, 0xbf, ?_, ?_, ?_⟩
      · simp only [start, if_neg h80, if_neg hc2, if_neg he0, if_neg hnote0, if_neg hnoted, if_pos hf0,
          Nat.add_sub_cancel]
      all_goals omega

/-- The first of four octets, and what it asks of the second. -/
lemma start_of_four {n : Nat} (hlow : 0x10000 ≤ n) (hhigh : n < 0x110000) :
    ∃ low high, start (n / 262144 + 240) = ([], some ⟨3, n / 262144, low, high⟩)
      ∧ low ≤ n / 4096 % 64 + 128 ∧ n / 4096 % 64 + 128 ≤ high := by
  by_cases hfirst : n / 262144 = 0
  · refine ⟨0x90, 0xbf, by simp [start, hfirst], ?_, ?_⟩ <;> omega
  · by_cases hlast : n / 262144 = 4
    · refine ⟨0x80, 0x8f, by simp [start, hlast], ?_, ?_⟩ <;> omega
    · have hvalue : n / 262144 = 1 ∨ n / 262144 = 2 ∨ n / 262144 = 3 := by omega
      refine ⟨0x80, 0xbf, ?_, ?_, ?_⟩
      · rcases hvalue with h | h | h <;> simp [start, h]
      all_goals omega

lemma decodeFrom_of_one {n : Nat} (rest : List UInt8) (h : n < 0x80) :
    decodeFrom none (UInt8.ofNat n :: rest) = Char.ofNat n :: decodeFrom none rest := by
  have hstep : step none n = ([Char.ofNat n], none) := if_pos h
  rw [decodeFrom_cons, toNat_ofNat_octet (by omega), hstep]
  rfl

lemma decodeFrom_of_two {n : Nat} (rest : List UInt8) (hlow : 0x80 ≤ n) (hhigh : n < 0x800) :
    decodeFrom none (UInt8.ofNat (n / 64 + 192) :: UInt8.ofNat (n % 64 + 128) :: rest)
      = Char.ofNat n :: decodeFrom none rest := by
  have hstart : start (n / 64 + 192) = ([], some ⟨1, n / 64, 0x80, 0xbf⟩) := by
    have h80 : ¬ n / 64 + 192 < 0x80 := by omega
    have hc2 : ¬ n / 64 + 192 < 0xc2 := by omega
    have he0 : n / 64 + 192 < 0xe0 := by omega
    simp only [start, if_neg h80, if_neg hc2, if_pos he0, Nat.add_sub_cancel]
  have hlast : 0x80 ≤ n % 64 + 128 ∧ n % 64 + 128 ≤ 0xbf := by omega
  have hvalue : n / 64 * 64 + (n % 64 + 128 - 0x80) = n := by omega
  rw [decodeFrom_first _ (by omega) hstart, decodeFrom_last _ (by omega) hlast rfl, hvalue]

lemma decodeFrom_of_three {n : Nat} (rest : List UInt8) (hlow : 0x800 ≤ n) (hhigh : n < 0x10000)
    (hvalid : n < 0xd800 ∨ 0xdfff < n) :
    decodeFrom none
        (UInt8.ofNat (n / 4096 + 224) :: UInt8.ofNat (n / 64 % 64 + 128) :: UInt8.ofNat (n % 64 + 128) :: rest)
      = Char.ofNat n :: decodeFrom none rest := by
  obtain ⟨low, high, hstart, hbounds⟩ := start_of_three hlow hhigh hvalid
  have hlast : 0x80 ≤ n % 64 + 128 ∧ n % 64 + 128 ≤ 0xbf := by omega
  have hvalue : (n / 4096 * 64 + (n / 64 % 64 + 128 - 0x80)) * 64 + (n % 64 + 128 - 0x80) = n := by omega
  rw [decodeFrom_first _ (by omega) hstart, decodeFrom_inner _ (by omega) hbounds (Nat.succ_ne_self 1),
    decodeFrom_last _ (by omega) hlast rfl, hvalue]

lemma decodeFrom_of_four {n : Nat} (rest : List UInt8) (hlow : 0x10000 ≤ n) (hhigh : n < 0x110000) :
    decodeFrom none
        (UInt8.ofNat (n / 262144 + 240) :: UInt8.ofNat (n / 4096 % 64 + 128)
          :: UInt8.ofNat (n / 64 % 64 + 128) :: UInt8.ofNat (n % 64 + 128) :: rest)
      = Char.ofNat n :: decodeFrom none rest := by
  obtain ⟨low, high, hstart, hbounds⟩ := start_of_four hlow hhigh
  have hthird : 0x80 ≤ n / 64 % 64 + 128 ∧ n / 64 % 64 + 128 ≤ 0xbf := by omega
  have hlast : 0x80 ≤ n % 64 + 128 ∧ n % 64 + 128 ≤ 0xbf := by omega
  have hvalue :
      ((n / 262144 * 64 + (n / 4096 % 64 + 128 - 0x80)) * 64 + (n / 64 % 64 + 128 - 0x80)) * 64
        + (n % 64 + 128 - 0x80) = n := by omega
  have hthree : (3 : Nat) ≠ 1 := by decide
  rw [decodeFrom_first _ (by omega) hstart, decodeFrom_inner _ (by omega) hbounds hthree,
    decodeFrom_inner _ (by omega) hthird (Nat.succ_ne_self 1), decodeFrom_last _ (by omega) hlast rfl, hvalue]

/-- The octets of a character are read as that character. -/
lemma decodeFrom_utf8EncodeChar (c : Char) (rest : List UInt8) :
    decodeFrom none (String.utf8EncodeChar c ++ rest) = c :: decodeFrom none rest := by
  have hvalid : c.val.toNat < 0xd800 ∨ 0xdfff < c.val.toNat ∧ c.val.toNat < 0x110000 := c.valid
  have hc : Char.ofNat c.val.toNat = c := Char.ofNat_toNat c
  dsimp only [String.utf8EncodeChar]
  set n := c.val.toNat
  by_cases h1 : n ≤ 127
  · rw [if_pos h1, ← hc]
    exact decodeFrom_of_one rest (by omega)
  rw [if_neg h1]
  by_cases h2 : n ≤ 2047
  · have hfirst : n / 64 % 32 = n / 64 := by omega
    rw [if_pos h2, hfirst, ← hc]
    exact decodeFrom_of_two rest (by omega) (by omega)
  rw [if_neg h2]
  by_cases h3 : n ≤ 65535
  · have hfirst : n / 4096 % 16 = n / 4096 := by omega
    rw [if_pos h3, hfirst, ← hc]
    exact decodeFrom_of_three rest (by omega) (by omega) (by omega)
  · have hfirst : n / 262144 % 8 = n / 262144 := by omega
    rw [if_neg h3, hfirst, ← hc]
    exact decodeFrom_of_four rest (by omega) (by omega)

theorem decode_encode (text : List Char) : decode (encode text) = text := by
  unfold decode encode
  induction text with
  | nil => rfl
  | cons c text ih => rw [List.flatMap_cons, decodeFrom_utf8EncodeChar, ih]

end SchemaAccessors.Text.Utf8

namespace SchemaAccessors.Uri

variable {safe : Char → Bool}

/-! ## Octets and their escapes -/

lemma toNat_ofNat_of_isAscii {n : Nat} (h : n < 0x80) : (Char.ofNat n).toNat = n := by
  rw [Char.ofNat, dif_pos (Or.inl (by omega))]
  rfl

/-- An octet as it stands in a URI. -/
def writeOctet (safe : Char → Bool) (octet : UInt8) : List Char :=
  if octet.toNat < 0x80 && safe (Char.ofNat octet.toNat) then [Char.ofNat octet.toNat]
  else escapeOctet octet.toNat

lemma escape_eq (safe : Char → Bool) (text : List Char) :
    escape safe text = (Text.Utf8.encode text).flatMap (writeOctet safe) := rfl

lemma octets_cons {c : Char} (h : c ≠ '%') (rest : List Char) :
    octets (c :: rest) = UInt8.ofNat c.toNat :: octets rest := by
  rw [octets]
  intro a b rest' hc
  exact absurd hc h

lemma octets_escapeOctet (octet : UInt8) (rest : List Char) :
    octets (escapeOctet octet.toNat ++ rest) = octet :: octets rest := by
  have hoctet : octet.toNat < 256 := octet.toNat_lt
  have hhigh : octet.toNat / 16 < 16 := by omega
  have hlow : octet.toNat % 16 < 16 := by omega
  have hvalue : octet.toNat / 16 * 16 + octet.toNat % 16 = octet.toNat := by omega
  show octets ('%' :: Text.upperHexDigit (octet.toNat / 16) :: Text.upperHexDigit (octet.toNat % 16) :: rest) = _
  rw [octets, Text.hexValue?_upperHexDigit hhigh, Text.hexValue?_upperHexDigit hlow]
  simp only [hvalue, UInt8.ofNat_toNat]

lemma octets_writeOctet (hsafe : safe '%' = false) (octet : UInt8) (rest : List Char) :
    octets (writeOctet safe octet ++ rest) = octet :: octets rest := by
  unfold writeOctet
  split
  · next h =>
    simp only [Bool.and_eq_true, decide_eq_true_eq] at h
    have hne : Char.ofNat octet.toNat ≠ '%' := by
      intro hc
      rw [hc, hsafe] at h
      exact Bool.false_ne_true h.2
    have hchar : (Char.ofNat octet.toNat).toNat = octet.toNat := toNat_ofNat_of_isAscii h.1
    rw [List.singleton_append, octets_cons hne, hchar, UInt8.ofNat_toNat]
  · exact octets_escapeOctet octet rest

/-- Where a `%` is escaped, what is written stands for the octets it was written for. -/
lemma octets_escape (hsafe : safe '%' = false) (text : List Char) :
    octets (escape safe text) = Text.Utf8.encode text := by
  rw [escape_eq]
  induction Text.Utf8.encode text with
  | nil => rfl
  | cons octet rest ih => rw [List.flatMap_cons, octets_writeOctet hsafe, ih]

/-! ## Escaped text

It is ASCII, so it is read in one piece. -/

lemma mem_escapeOctet {c : Char} {octet : UInt8} (h : c ∈ escapeOctet octet.toNat) :
    c = '%' ∨ ∃ n < 16, c = Text.upperHexDigit n := by
  have hoctet : octet.toNat < 256 := octet.toNat_lt
  simp only [escapeOctet, List.mem_cons, List.not_mem_nil, or_false] at h
  rcases h with h | h | h
  · exact Or.inl h
  · exact Or.inr ⟨octet.toNat / 16, by omega, h⟩
  · exact Or.inr ⟨octet.toNat % 16, by omega, h⟩

/-- What escaped text is made of. -/
lemma mem_escape {c : Char} {text : List Char} (h : c ∈ escape safe text) :
    (c.toNat < 0x80 ∧ safe c) ∨ c = '%' ∨ ∃ n < 16, c = Text.upperHexDigit n := by
  rw [escape_eq, List.mem_flatMap] at h
  obtain ⟨octet, -, hc⟩ := h
  unfold writeOctet at hc
  split at hc
  · next hsafe =>
    simp only [Bool.and_eq_true, decide_eq_true_eq] at hsafe
    have hchar : (Char.ofNat octet.toNat).toNat = octet.toNat := toNat_ofNat_of_isAscii hsafe.1
    rw [List.mem_singleton] at hc
    rw [hc, hchar]
    exact Or.inl hsafe
  · exact Or.inr (mem_escapeOctet hc)

lemma isAscii_upperHexDigit {n : Nat} (h : n < 16) : (Text.upperHexDigit n).toNat < 0x80 := by
  revert n; decide

lemma isAscii_of_mem_escape {c : Char} {text : List Char} (h : c ∈ escape safe text) : c.toNat < 0x80 := by
  rcases mem_escape h with ⟨h, -⟩ | rfl | ⟨n, hn, rfl⟩
  · exact h
  · decide
  · exact isAscii_upperHexDigit hn

lemma unescapeFrom_of_isAscii {text : List Char} (h : ∀ c ∈ text, c.toNat < 0x80) (run : List Char) :
    unescapeFrom run text = Text.Utf8.decode (octets (run.reverse ++ text)) := by
  induction text generalizing run with
  | nil => rw [unescapeFrom, List.append_nil]
  | cons c text ih =>
    have hc : c.toNat < 0x80 := h c List.mem_cons_self
    have htext : ∀ c ∈ text, c.toNat < 0x80 := fun d hd => h d (List.mem_cons_of_mem c hd)
    rw [unescapeFrom, if_pos hc, ih htext, List.reverse_cons, List.append_assoc, List.singleton_append]

/-- Undoing escapes gives the text back. -/
theorem unescape_escape (hsafe : safe '%' = false) (text : List Char) : unescape (escape safe text) = text := by
  unfold unescape
  rw [unescapeFrom_of_isAscii fun c hc => isAscii_of_mem_escape hc, List.reverse_nil, List.nil_append,
    octets_escape hsafe, Text.Utf8.decode_encode]

end SchemaAccessors.Uri
