import SquidVideoCache.Lib.Text
import Mathlib.Tactic.Ring

/-!
# Machine words in memory

Words of a number of bytes, least significant byte first. A signed word is read as the number in its range
with the same remainder, and a read from a buffer is checked against its size.
-/

namespace SquidVideoCache.Lib

/-! ## Bytes of a number -/

def leBytes : ℕ → ℕ → List UInt8
  | 0, _ => []
  | w + 1, n => n.toUInt8 :: leBytes w (n / 256)

def leValue (bytes : List UInt8) : ℕ := bytes.foldr (fun c n => c.toNat + 256 * n) 0

@[simp] lemma length_leBytes (w n : ℕ) : (leBytes w n).length = w := by
  induction w generalizing n with
  | zero => rfl
  | succ w ih => rw [leBytes, List.length_cons, ih]

lemma leValue_leBytes {w n : ℕ} (h : n < 256 ^ w) : leValue (leBytes w n) = n := by
  induction w generalizing n with
  | zero =>
    have hzero : n = 0 := by simpa using h
    rw [hzero]
    rfl
  | succ w ih =>
    have hdiv : n / 256 < 256 ^ w := Nat.div_lt_of_lt_mul (by rwa [pow_succ, mul_comm] at h)
    have hrest : leValue (leBytes w (n / 256)) = n / 256 := ih hdiv
    show (n.toUInt8).toNat + 256 * leValue (leBytes w (n / 256)) = n
    rw [UInt8.toNat_ofNat']
    omega

/-! ## Signed words -/

/-- A number as an unsigned word of 64 bits. -/
def size64 (n : ℤ) : ℕ := (n % 2 ^ 64).toNat

/-- A byte as a signed character. -/
def schar (c : UInt8) : ℤ := (c.toNat : ℤ).bmod 256

lemma toInt_of_lt {n : ℤ} (h0 : 0 ≤ n) (h : n < 2 ^ 31) : toInt n = n := by
  unfold toInt
  rw [Int.bmod_def]
  omega

lemma toInt_of_ge {n : ℤ} (h : 2 ^ 31 ≤ n) (hlt : n < 2 ^ 32) : toInt n < 0 := by
  rw [toInt, Int.bmod_def]
  omega

lemma size64_of_lt {n : ℤ} (h0 : 0 ≤ n) (h : n < 2 ^ 63) : size64 n = n.toNat := by
  unfold size64
  omega

/-! ## Checked reads -/

/-- The `n` bytes at `j` are bytes of the buffer. -/
def Covered (buf : List UInt8) (j : ℤ) (n : ℕ) : Prop := 0 ≤ j ∧ j + n ≤ buf.length

instance (buf : List UInt8) (j : ℤ) (n : ℕ) : Decidable (Covered buf j n) := inferInstanceAs (Decidable (_ ∧ _))

def bytesAt (buf : List UInt8) (j : ℤ) (n : ℕ) : List UInt8 := (buf.drop j.toNat).take n

def byteAt (buf : List UInt8) (j : ℤ) : UInt8 := buf.getD j.toNat 0

def intAt (buf : List UInt8) (j : ℤ) : ℤ := toInt (leValue (bytesAt buf j 4))

def loadAt (buf : List UInt8) (j : ℤ) (n : ℕ) : Exec (List UInt8) :=
  if Covered buf j n then .ok (bytesAt buf j n) else .error .bounds

def loadByte (buf : List UInt8) (j : ℤ) : Exec UInt8 := if Covered buf j 1 then .ok (byteAt buf j) else .error .bounds

def loadInt (buf : List UInt8) (j : ℤ) : Exec ℤ := if Covered buf j 4 then .ok (intAt buf j) else .error .bounds

section
variable {pre post : List UInt8} {j : ℤ}

lemma loadAt_append {bytes : List UInt8} {n : ℕ} (hj : j = pre.length) (hn : n = bytes.length) :
    loadAt (pre ++ (bytes ++ post)) j n = .ok bytes := by
  subst hj hn
  unfold loadAt bytesAt
  rw [if_pos (by simp [Covered]), Int.toNat_natCast, List.drop_left, List.take_left]

lemma loadByte_append {c : UInt8} (hj : j = pre.length) : loadByte (pre ++ (c :: post)) j = .ok c := by
  subst hj
  unfold loadByte byteAt
  rw [if_pos (by simp [Covered])]
  simp

lemma loadInt_append {n : ℕ} (hj : j = pre.length) (hn : n < 2 ^ 31) :
    loadInt (pre ++ (leBytes 4 n ++ post)) j = .ok n := by
  subst hj
  have hbyt : bytesAt (pre ++ (leBytes 4 n ++ post)) pre.length 4 = leBytes 4 n := by
    unfold bytesAt
    rw [Int.toNat_natCast, List.drop_left, List.take_left' (length_leBytes 4 n)]
  unfold loadInt intAt
  rw [if_pos (by simp [Covered]), hbyt, leValue_leBytes (by omega), toInt_of_lt (by omega) (by omega)]

end

end SquidVideoCache.Lib
