import SquidVideoCache.Lib.Number

/-!
# Characters and words of a text

The functions of the C library that compare, search and convert strings, and the decimal
numerals that `printf` writes.
-/

namespace SquidVideoCache.Lib
open List

variable {c : UInt8} {s a b : List UInt8}

lemma forall_byte {P : UInt8 → Prop} (h : ∀ n < 256, P (UInt8.ofNat n)) (c : UInt8) : P c := by
  have hc := h _ c.toNat_lt
  rwa [UInt8.ofNat_toNat] at hc

def tolower (c : UInt8) : UInt8 := if 65 ≤ c ∧ c ≤ 90 then c + 32 else c

lemma tolower_tolower (c : UInt8) : tolower (tolower c) = tolower c :=
  forall_byte (P := fun c => tolower _ = tolower c) (by decide +kernel) c

/-- Whether two strings are equal but for the case of their letters. -/
def strcasecmp (a b : List UInt8) : Bool := (cString a).map tolower = (cString b).map tolower

/-- Whether a string has a space, a tab, a newline or a CR. -/
def stringHasWhitespace (s : List UInt8) : Bool :=
  (cString s).any fun c => c = 32 || c = 9 || c = 10 || c = 13

/-! ## The last occurrence -/

/-- What stands before the last occurrence of a character, and what stands behind it. -/
def splitLast (c : UInt8) : List UInt8 → Option (List UInt8 × List UInt8)
  | [] => none
  | x :: s =>
    match splitLast c s with
    | some (a, b) => some (x :: a, b)
    | none => if x = c then some ([], s) else none

lemma splitLast_eq_none : splitLast c s = none ↔ c ∉ s := by
  induction s with
  | nil => simp [splitLast]
  | cons x s ih =>
    unfold splitLast
    cases hs : splitLast c s with
    | some ab =>
      have hmem : c ∈ s := by
        by_contra hnot
        rw [ih.mpr hnot] at hs
        cases hs
      simp [hmem]
    | none =>
      have hnot := ih.mp hs
      by_cases hx : x = c
      · simp [hx]
      · simp [hx, hnot, Ne.symm hx]

lemma splitLast_append (h : c ∉ b) : splitLast c (a ++ c :: b) = some (a, b) := by
  induction a with
  | nil => simp [splitLast, splitLast_eq_none.mpr h]
  | cons x a ih => simp [splitLast, ih]

lemma splitLast_eq_some (h : splitLast c s = some (a, b)) : s = a ++ c :: b ∧ c ∉ b := by
  induction s generalizing a with
  | nil => cases h
  | cons x s ih =>
    unfold splitLast at h
    cases hs : splitLast c s with
    | some ab =>
      rw [hs] at h
      cases h
      obtain ⟨rfl, hnot⟩ := ih hs
      exact ⟨rfl, hnot⟩
    | none =>
      rw [hs] at h
      simp only [Option.ite_none_right_eq_some] at h
      obtain ⟨rfl, rfl, rfl⟩ := h
      exact ⟨rfl, splitLast_eq_none.mp hs⟩

/-! ## Numbers -/

/-- A `long` as an `int`. -/
def toInt (n : ℤ) : ℤ := n.bmod (2 ^ 32)

def atoi (s : List UInt8) : ℤ := toInt (strtoll 10 (cString s)).value

/-- The text of `%d` for a number that is not negative. -/
def decimal (n : ℕ) : List UInt8 :=
  if n < 10 then [48 + n.toUInt8] else decimal (n / 10) ++ [48 + (n % 10).toUInt8]

lemma numeral_append (base : ℕ) (digits : List UInt8) (d : UInt8) :
    numeral base (digits ++ [d]) = numeral base digits * base + digitValue d := by
  simp [numeral]

lemma digitValue_decimal {n : ℕ} (h : n < 10) : digitValue (48 + n.toUInt8) = n := by
  have hall : ∀ n < 10, digitValue (48 + n.toUInt8) = n := by decide
  exact hall n h

lemma numeral_decimal (n : ℕ) : numeral 10 (decimal n) = n := by
  fun_induction decimal n with
  | case1 n h => simp [numeral, digitValue_decimal h]
  | case2 n h ih =>
    rw [numeral_append, digitValue_decimal (Nat.mod_lt n (by decide))]
    omega

lemma decimal_ne_nil (n : ℕ) : decimal n ≠ [] := by
  unfold decimal
  split_ifs
  · simp
  · simp

lemma mem_decimal {n : ℕ} (h : c ∈ decimal n) : digitValue c < 10 := by
  fun_induction decimal n with
  | case1 n hn =>
    rw [mem_singleton.mp h, digitValue_decimal hn]
    exact hn
  | case2 n hn ih =>
    rw [mem_append, mem_singleton] at h
    obtain hleft | rfl := h
    · exact ih hleft
    · rw [digitValue_decimal (Nat.mod_lt n (by decide))]
      exact Nat.mod_lt n (by decide)

/-- The text of `%d` for any number. -/
def signedDecimal (n : ℤ) : List UInt8 := if n < 0 then 45 :: decimal n.natAbs else decimal n.natAbs

lemma mem_signedDecimal {n : ℤ} (h : c ∈ signedDecimal n) : c = 45 ∨ digitValue c < 10 := by
  unfold signedDecimal at h
  split_ifs at h
  · exact (mem_cons.mp h).imp_right mem_decimal
  · exact .inr (mem_decimal h)

lemma strtoll_minus {digits rest : List UInt8} (hne : digits ≠ []) (hdigits : ∀ c ∈ digits, digitValue c < 10)
    (hend : ∀ c ∈ rest.head?, 10 ≤ digitValue c) :
    strtoll 10 (45 :: (digits ++ rest)) = signed true (numeral 10 digits) (1 + digits.length) := by
  have hrun : (digits ++ rest).takeWhile (digitValue · < 10) = digits := by
    apply takeWhile_run
    · simpa using hdigits
    · intro c hc
      simpa using hend c hc
  simp [strtoll, isSpace, sign, hexMark_ten, hrun, hne]

lemma strtoll_signedDecimal {n : ℤ} (hmin : -2 ^ 63 ≤ n) (hmax : n ≤ maxOff) {rest : List UInt8}
    (hend : ∀ c ∈ rest.head?, 10 ≤ digitValue c) :
    ∃ used, used ≠ 0 ∧ strtoll 10 (signedDecimal n ++ rest) = ⟨n, used, false⟩ := by
  have hdigits : ∀ c ∈ decimal n.natAbs, digitValue c < 10 := fun c hc => mem_decimal hc
  have hne := decimal_ne_nil n.natAbs
  have hlen := length_pos_of_ne_nil hne
  unfold signedDecimal
  split_ifs with hneg
  · refine ⟨1 + (decimal n.natAbs).length, by omega, ?_⟩
    rw [cons_append, strtoll_minus hne hdigits hend, numeral_decimal, signed, if_pos rfl, if_pos (by omega)]
    simp only [Converted.mk.injEq, and_true]
    omega
  · have hread := strtoll_numeral (by decide : 10 ≤ 36) (forall_mem_nil _) hne hdigits hend (hexMark_ten _)
      (by rw [numeral_decimal]; omega)
    refine ⟨0 + (decimal n.natAbs).length, by omega, ?_⟩
    rw [nil_append] at hread
    rw [hread, numeral_decimal]
    simp only [Converted.mk.injEq, and_true]
    exact ⟨by omega, rfl⟩

lemma atoi_numeral {digits rest : List UInt8} (hne : digits ≠ []) (hdigits : ∀ c ∈ digits, digitValue c < 10)
    (hend : ∀ c ∈ (cString rest).head?, 10 ≤ digitValue c) (h : numeral 10 digits < 2 ^ 31) :
    atoi (digits ++ rest) = numeral 10 digits := by
  have hcut : cString (digits ++ rest) = digits ++ cString rest := by
    apply takeWhile_append_of_pos
    intro c hc
    have : c ≠ 0 := fun h0 => absurd (hdigits c hc) (by rw [h0]; decide)
    simpa using this
  have hread := strtoll_numeral (by decide : 10 ≤ 36) (forall_mem_nil _) hne hdigits hend (hexMark_ten _)
    (by unfold maxOff; omega)
  rw [nil_append] at hread
  rw [atoi, hcut, hread]
  exact Int.bmod_eq_of_le (by simp only; omega) (by simp only; omega)

lemma atoi_decimal {n : ℕ} (h : n ≤ 65535) : atoi (decimal n) = n := by
  have hend : ∀ c ∈ (cString []).head?, 10 ≤ digitValue c := by simp [cString]
  have hread := atoi_numeral (decimal_ne_nil n) (fun c hc => mem_decimal hc) hend (by rw [numeral_decimal]; omega)
  rwa [append_nil, numeral_decimal] at hread

end SquidVideoCache.Lib
