import SquidVideoCache.Lib.CString

/-!
# Reading numbers from text

`strtoll` of the C library, for the bases of at most 36: blanks, a sign, in base sixteen
also `0x`, and as many digits as there are. The text is a string without its terminator.
-/

namespace SquidVideoCache.Lib
open List

/-- `isspace` in the C locale. -/
def isSpace (c : UInt8) : Bool := c = 32 || (9 ≤ c && c ≤ 13)

def isHexDigit (c : UInt8) : Bool := (48 ≤ c && c ≤ 57) || (65 ≤ c && c ≤ 70) || (97 ≤ c && c ≤ 102)

/-- A letter counts from ten on; no other byte is a digit of any base. -/
def digitValue (c : UInt8) : ℕ :=
  if 48 ≤ c ∧ c ≤ 57 then c.toNat - 48
  else if 65 ≤ c ∧ c ≤ 90 then c.toNat - 55
  else if 97 ≤ c ∧ c ≤ 122 then c.toNat - 87
  else 36

def numeral (base : ℕ) (digits : List UInt8) : ℕ := digits.foldl (fun n c => n * base + digitValue c) 0

/-- What a conversion returns: the number, how many bytes it has used, and whether it is out of range. -/
structure Converted where
  value : ℤ
  used : ℕ
  range : Bool
  deriving DecidableEq, Repr

def maxOff : ℤ := 2 ^ 63 - 1

/-- The value of a sum or a difference as a `squid_off_t`. -/
def toOff (n : ℤ) : ℤ := n.bmod (2 ^ 64)

def signed (negative : Bool) (n : ℕ) (used : ℕ) : Converted :=
  if negative then if (n : ℤ) ≤ 2 ^ 63 then ⟨-n, used, false⟩ else ⟨-2 ^ 63, used, true⟩
  else if (n : ℤ) ≤ maxOff then ⟨n, used, false⟩ else ⟨maxOff, used, true⟩

/-- The bytes of the sign and whether it is a minus. -/
def sign : List UInt8 → ℕ × Bool
  | 45 :: _ => (1, true)
  | 43 :: _ => (1, false)
  | _ => (0, false)

/-- The bytes of the mark of base sixteen, which a digit has to follow. -/
def hexMark (base : ℕ) : List UInt8 → ℕ
  | 48 :: x :: d :: _ => if base = 16 ∧ (x = 120 ∨ x = 88) ∧ isHexDigit d then 2 else 0
  | _ => 0

def strtoll (base : ℕ) (s : List UInt8) : Converted :=
  let blanks := (s.takeWhile isSpace).length
  let (signLen, negative) := sign (s.drop blanks)
  let start := blanks + signLen + hexMark base (s.drop (blanks + signLen))
  let digits := (s.drop start).takeWhile (digitValue · < base)
  if digits = [] then ⟨0, 0, false⟩ else signed negative (numeral base digits) (start + digits.length)

variable {n : ℤ} {rest digits blanks s : List UInt8} {c : UInt8} {base : ℕ}

lemma toOff_of_le (hmin : -2 ^ 63 ≤ n) (hmax : n ≤ maxOff) : toOff n = n := by
  unfold maxOff at hmax
  exact Int.bmod_eq_of_le (by omega) (by omega)

lemma toOff_of_gt (hgt : maxOff < n) (hlt : n < 2 ^ 64 + 2 ^ 63) : toOff n = n - 2 ^ 64 := by
  unfold maxOff at hgt
  rw [toOff, Int.bmod_def]
  omega

lemma takeWhile_run {p : UInt8 → Bool} {run : List UInt8} (hrun : ∀ c ∈ run, p c)
    (hrest : ∀ c ∈ rest.head?, p c = false) : (run ++ rest).takeWhile p = run := by
  rw [takeWhile_append_of_pos hrun]
  cases rest with
  | nil => simp
  | cons c rest => simp [hrest c rfl]

lemma not_isSpace_of_digit (hc : digitValue c < 36) : isSpace c = false := by
  have hran : 48 ≤ c.toNat := by
    simp [digitValue, UInt8.le_iff_toNat_le] at hc
    split_ifs at hc
    all_goals omega
  simp only [isSpace, UInt8.le_iff_toNat_le,
    ← UInt8.toNat_inj]
  simp
  omega

lemma sign_of_digit (hc : digitValue c < 36) (s : List UInt8) : sign (c :: s) = (0, false) := by
  unfold sign
  split
  · rename_i heq
    cases heq
    exact absurd hc (by decide)
  · rename_i heq
    cases heq
    exact absurd hc (by decide)
  · rfl

lemma hexMark_of_digits (hne : digits ≠ [])
    (hdigits : ∀ c ∈ digits, digitValue c < 16) (hrest : ∀ c ∈ rest.head?, c ≠ 120 ∧ c ≠ 88) :
    hexMark base (digits ++ rest) = 0 := by
  unfold hexMark
  split
  · rename_i x d _ heq
    rw [if_neg]
    rintro ⟨-, hx, -⟩
    -- the second byte is a digit or the first of the rest
    match digits, hne with
    | [c], _ =>
      obtain ⟨-, hrest'⟩ := List.cons.inj heq
      have hfir : rest = x :: d :: _ := hrest'
      have := hrest x (by rw [hfir]; rfl)
      tauto
    | c :: c' :: _, _ =>
      obtain ⟨-, heq'⟩ := List.cons.inj heq
      obtain ⟨rfl, -⟩ := List.cons.inj heq'
      have := hdigits c' (by simp)
      rcases hx with rfl | rfl
      · exact absurd this (by decide)
      · exact absurd this (by decide)
  · rfl

section

variable (hbase : base ≤ 36)
  (hblanks : ∀ c ∈ blanks, isSpace c)
  (hne : digits ≠ [])
  (hdigits : ∀ c ∈ digits, digitValue c < base)
  (hend : ∀ c ∈ rest.head?, base ≤ digitValue c)
  (hmark : hexMark base (digits ++ rest) = 0)

include hbase hblanks hne hdigits hend hmark

lemma strtoll_run :
    strtoll base (blanks ++ (digits ++ rest)) = signed false (numeral base digits) (blanks.length + digits.length) := by
  obtain ⟨d, ds, rfl⟩ := exists_cons_of_ne_nil hne
  have hd : digitValue d < 36 := (hdigits d (by simp)).trans_le hbase
  have hspa : (blanks ++ (d :: ds ++ rest)).takeWhile isSpace = blanks := by
    apply takeWhile_run hblanks
    intro c hc
    obtain rfl : d = c := by simpa using hc
    exact not_isSpace_of_digit hd
  have hrun : (d :: ds ++ rest).takeWhile (digitValue · < base) = d :: ds := by
    apply takeWhile_run
    · simpa using hdigits
    · intro c hc
      simpa using hend c hc
  have hsign : sign (d :: ds ++ rest) = (0, false) := sign_of_digit hd _
  simp only [strtoll, hspa, drop_left, hsign, Nat.add_zero, hmark, hrun, if_neg hne]

lemma strtoll_numeral
    (hfits : (numeral base digits : ℤ) ≤ maxOff) : strtoll base (blanks ++ (digits ++ rest)) =
      ⟨numeral base digits, blanks.length + digits.length, false⟩ := by
  rw [strtoll_run hbase hblanks hne hdigits hend hmark, signed, if_neg Bool.false_ne_true, if_pos hfits]

end

lemma hexMark_ten (s : List UInt8) : hexMark 10 s = 0 := by
  unfold hexMark
  split
  · exact if_neg fun h => absurd h.1 (by decide)
  · rfl

lemma signed_bounds (negative : Bool) (n used : ℕ) :
    -2 ^ 63 ≤ (signed negative n used).value ∧ (signed negative n used).value ≤ maxOff := by
  unfold signed maxOff
  split_ifs <;> constructor <;> simp only <;> omega

lemma strtoll_bounds (base : ℕ) (s : List UInt8) : -2 ^ 63 ≤ (strtoll base s).value ∧ (strtoll base s).value ≤ maxOff := by
  unfold strtoll
  dsimp only
  split_ifs
  · exact ⟨by decide, by decide⟩
  · exact signed_bounds _ _ _

lemma signed_nonneg (n used : ℕ) : 0 ≤ (signed false n used).value := by
  rw [signed, if_neg Bool.false_ne_true]
  split_ifs
  · exact Int.natCast_nonneg n
  · exact (by decide : 0 ≤ maxOff)

lemma sign_eq_of_minus (h : (sign s).2 = true) : ∃ tail, s = 45 :: tail ∧ sign s = (1, true) := by
  unfold sign at h ⊢
  split at h
  · exact ⟨_, rfl, rfl⟩
  · exact absurd h Bool.false_ne_true
  · exact absurd h Bool.false_ne_true

lemma strtoll_negative (h : (strtoll 10 s).value < 0) (hran : (strtoll 10 s).range = false) :
    ∃ blanks digits rest, s = blanks ++ 45 :: (digits ++ rest) ∧ (∀ c ∈ blanks, isSpace c) ∧ digits ≠ [] ∧
      (∀ c ∈ digits, digitValue c < 10) ∧ (∀ c ∈ rest.head?, 10 ≤ digitValue c) ∧
      (strtoll 10 s).value = -numeral 10 digits := by
  have hblanks : ∀ c ∈ s.takeWhile isSpace, isSpace c := fun c hc => mem_takeWhile_imp hc
  have hdrop : s.drop (s.takeWhile isSpace).length = s.dropWhile isSpace := by
    have hleft : (s.takeWhile isSpace ++ s.dropWhile isSpace).drop (s.takeWhile isSpace).length = s.dropWhile isSpace :=
      drop_left
    rwa [takeWhile_append_dropWhile] at hleft
  have hmin : (sign (s.dropWhile isSpace)).2 = true := by
    by_contra hplus
    simp only [strtoll, hdrop, Bool.eq_false_of_not_eq_true hplus] at h
    split_ifs at h
    · exact absurd h (lt_irrefl 0)
    · exact absurd h (signed_nonneg _ _).not_gt
  obtain ⟨tail, htail, hsign⟩ := sign_eq_of_minus hmin
  have hstart : s.drop ((s.takeWhile isSpace).length + 1) = tail := by
    rw [← drop_drop, hdrop, htail, drop_one, tail_cons]
  simp only [strtoll, hdrop, hsign, hexMark_ten, hstart] at h hran ⊢
  split_ifs at h hran ⊢ with hdigits
  · exact absurd h (lt_irrefl 0)
  refine ⟨s.takeWhile _, tail.takeWhile _, tail.dropWhile (digitValue · < 10), ?_, hblanks, hdigits,
    fun c hc => by simpa using mem_takeWhile_imp hc, fun c hc => ?_, ?_⟩
  · rw [takeWhile_append_dropWhile, ← htail, takeWhile_append_dropWhile]
  · have hhead := head?_dropWhile_not (fun c => decide (digitValue c < 10)) tail
    rw [Option.mem_def.1 hc] at hhead
    simpa using hhead
  · rw [signed, if_pos rfl] at hran ⊢
    split_ifs at hran ⊢
    rfl

end SquidVideoCache.Lib
