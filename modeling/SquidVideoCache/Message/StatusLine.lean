import SquidVideoCache.Lib.Words

/-!
# Status lines, HttpStatusLine.c

The two numbers of the version are read as long as they are below 65536. The status is read
to the end of its digits, whatever it comes to.
-/

namespace SquidVideoCache.Message

open Lib List

def isDigit (c : UInt8) : Bool := 48 ≤ c && c ≤ 57

structure HttpStatusLine where
  major : ℤ
  minor : ℤ
  status : ℤ
  deriving DecidableEq, Repr

/-- `for (; s < end && xisdigit(*s) && ...; s++) { n = n * 10; n = n + *s - '0'; }`
The number and what is left; an `int` that overflows wraps. -/
def readDigits (goOn : ℤ → Bool) (n : ℤ) : List UInt8 → ℤ × List UInt8
  | [] => (n, [])
  | c :: s =>
    if isDigit c && goOn n then readDigits goOn (toInt (toInt (n * 10) + c.toNat - 48)) s else (n, c :: s)

def below65536 (n : ℤ) : Bool := n < 65536

/-- `http/` -/
def httpSlash : List UInt8 := [104, 116, 116, 112, 47]

def httpStatusLineParse (start : List UInt8) (stop : ℕ) : Option HttpStatusLine :=
  -- the first two tests do not ask for `end`
  if (start.take 5).map tolower ≠ httpSlash ∨ ¬ (start.drop 5).head?.any isDigit then none
  else
    let maj := readDigits below65536 0 ((start.take stop).drop 5)
    if maj.2 = [] ∨ 65536 ≤ maj.1 ∨ maj.2.head? ≠ some 46 then none
    else
      let min := readDigits below65536 0 maj.2.tail
      if min.2 = [] ∨ 65536 ≤ min.1 then none
      else
        -- `if (*s != ' ') { }` lets any byte pass
        let status := readDigits (fun _ => true) 0 min.2.tail
        if status.2 = [] then none else some ⟨maj.1, min.1, status.1⟩

/-! ## The digits of a line -/

def digitRun (line : List UInt8) (k : ℕ) : List UInt8 := (line.drop k).takeWhile isDigit

def numeralFrom (n : ℕ) (run : List UInt8) : ℕ := run.foldl (fun n c => n * 10 + digitValue c) n

def majorRun (line : List UInt8) : List UInt8 := digitRun line 5

def minorRun (line : List UInt8) : List UInt8 := digitRun line (5 + (majorRun line).length + 1)

def statusRun (line : List UInt8) : List UInt8 :=
  digitRun line (5 + (majorRun line).length + 1 + (minorRun line).length + 1)

/-- The numbers are those that the digits denote. -/
structure Denotes (line : List UInt8) (sline : HttpStatusLine) : Prop where
  major : sline.major = numeral 10 (majorRun line)
  minor : sline.minor = numeral 10 (minorRun line)
  status : sline.status = numeral 10 (statusRun line)
  status_nonneg : 0 ≤ sline.status

variable {c : UInt8} {n : ℕ} {s line start : List UInt8} {stop : ℕ} {sline : HttpStatusLine}

lemma digit_eq (hc : isDigit c) : (c.toNat : ℤ) - 48 = digitValue c ∧ digitValue c < 10 := by
  simp only [isDigit, Bool.and_eq_true, decide_eq_true_eq] at hc
  have hran : 48 ≤ c.toNat ∧ c.toNat ≤ 57 := by simpa [UInt8.le_iff_toNat_le] using hc
  rw [digitValue, if_pos hc]
  omega

lemma toInt_step (n : ℤ) (hc : isDigit c) :
    toInt (toInt (toInt n * 10) + c.toNat - 48) = toInt (n * 10 + digitValue c) := by
  have hdig := (digit_eq hc).1
  have hsum : toInt (toInt n * 10) + c.toNat - 48 = toInt (toInt n * 10) + digitValue c := by omega
  rw [hsum]
  simp only [toInt, Int.bmod_add_bmod]
  rw [← Int.bmod_add_bmod, Int.bmod_mul_bmod, Int.bmod_add_bmod]

lemma toInt_eq_self_iff : toInt n = n ↔ n < 2 ^ 31 := by
  refine ⟨fun h => ?_, fun h => toInt_of_lt (by omega) (by omega)⟩
  have hlt : toInt n < 2 ^ 31 := Int.bmod_lt (by decide)
  omega

/-- Without a limit all digits are read, and the number may wrap. -/
theorem readDigits_all (n : ℕ) (s : List UInt8) : readDigits (fun _ => true) (toInt n) s =
    (toInt (numeralFrom n (s.takeWhile isDigit)), s.dropWhile isDigit) := by
  induction s generalizing n with
  | nil => rfl
  | cons c s ih =>
    cases hc : isDigit c with
    | false => simp [readDigits, numeralFrom, hc]
    | true =>
      have hstep := ih (n * 10 + digitValue c)
      push_cast at hstep
      simp [readDigits, numeralFrom, hc, toInt_step n hc, hstep]

/-- A number that is still below the limit when the loop ends has not wrapped. -/
theorem readDigits_below (hn : n < 65536) (hlt : (readDigits below65536 n s).1 < 65536) :
    readDigits below65536 n s = (↑(numeralFrom n (s.takeWhile isDigit)), s.dropWhile isDigit) := by
  induction s generalizing n with
  | nil => rfl
  | cons c s ih =>
    cases hc : isDigit c with
    | false => simp [readDigits, numeralFrom, hc]
    | true =>
      have hval : toInt (toInt ((n : ℤ) * 10) + c.toNat - 48) = (n * 10 + digitValue c : ℕ) := by
        have hstep := toInt_step n hc
        have hself : toInt n = n := toInt_of_lt (by omega) (by omega)
        rw [hself] at hstep
        have hdig := (digit_eq hc).2
        have hexa := toInt_of_lt (n := n * 10 + digitValue c) (by omega) (by omega)
        rw [hstep, hexa]
        rfl
      have hread : readDigits below65536 n (c :: s) = readDigits below65536 (n * 10 + digitValue c : ℕ) s := by
        rw [readDigits, hc, hval, if_pos]
        simpa [below65536] using hn
      rw [hread] at hlt ⊢
      have hnext : n * 10 + digitValue c < 65536 := by
        -- the loop stops as soon as the limit is reached
        by_contra hge
        cases s with
        | nil => simp [readDigits] at hlt; omega
        | cons d s =>
          rw [readDigits, if_neg (by simp [below65536]; omega)] at hlt
          omega
      rw [ih hnext hlt]
      simp [numeralFrom, hc]

lemma dropWhile_drop (line : List UInt8) (k : ℕ) :
    (line.drop k).dropWhile isDigit = line.drop (k + (digitRun line k).length) := by
  have happ := takeWhile_append_dropWhile (p := isDigit) (l := line.drop k)
  have hdrop := congrArg (drop (digitRun line k).length) happ
  rwa [digitRun, drop_left, drop_drop] at hdrop

lemma readVersion_drop {k : ℕ} (hlt : (readDigits below65536 0 (line.drop k)).1 < 65536) :
    readDigits below65536 0 (line.drop k) =
      (↑(numeral 10 (digitRun line k)), line.drop (k + (digitRun line k).length)) := by
  rw [← dropWhile_drop]
  exact readDigits_below (n := 0) (by omega) hlt

lemma readStatus_drop (line : List UInt8) (k : ℕ) :
    (readDigits (fun _ => true) 0 (line.drop k)).1 = toInt (numeral 10 (digitRun line k)) := by
  have hall := readDigits_all 0 (line.drop k)
  rw [toInt_of_lt (by omega) (by omega), Nat.cast_zero] at hall
  rw [hall, digitRun, numeral, numeralFrom]

lemma numbers_of_accepted (h : httpStatusLineParse start stop = some sline) :
    sline.major = numeral 10 (majorRun (start.take stop)) ∧ sline.minor = numeral 10 (minorRun (start.take stop)) ∧
    sline.status = toInt (numeral 10 (statusRun (start.take stop))) := by
  simp only [httpStatusLineParse] at h
  generalize start.take stop = line at h ⊢
  split_ifs at h with hfir hmajo hmino hend
  cases h
  simp only [not_or, not_le] at hmajo hmino
  have hmaj := readVersion_drop hmajo.2.1
  rw [hmaj] at hmino ⊢
  rw [tail_drop] at hmino ⊢
  have hmin := readVersion_drop hmino.2
  rw [hmin, tail_drop]
  exact ⟨rfl, rfl, readStatus_drop line _⟩

/-- An accepted line has the numbers that its digits denote exactly if the status is below 2^31. -/
theorem httpStatusLineParse_denotes_iff (h : httpStatusLineParse start stop = some sline) :
    Denotes (start.take stop) sline ↔ numeral 10 (statusRun (start.take stop)) < 2 ^ 31 := by
  obtain ⟨hmaj, hmin, hstat⟩ := numbers_of_accepted h
  constructor
  · intro hden
    exact toInt_eq_self_iff.mp (hstat.symm.trans hden.status)
  · intro hlt
    have hval := hstat.trans (toInt_eq_self_iff.mpr hlt)
    exact ⟨hmaj, hmin, hval, by omega⟩

/-- `HTTP/1.0 200 ` -/
def okLine : List UInt8 := [72, 84, 84, 80, 47, 49, 46, 48, 32, 50, 48, 48, 32]

theorem httpStatusLineParse_denotes_ok : Denotes (okLine.take 13) ⟨1, 0, 200⟩ := by
  have hacc : httpStatusLineParse okLine 13 = some ⟨1, 0, 200⟩ := by decide +kernel
  exact (httpStatusLineParse_denotes_iff hacc).mpr (by decide +kernel)

/-- `HTTP/1.0 4294967496 ` -/
def wrappedLine : List UInt8 :=
  [72, 84, 84, 80, 47, 49, 46, 48, 32, 52, 50, 57, 52, 57, 54, 55, 52, 57, 54, 32]

theorem httpStatusLineParse_wraps : httpStatusLineParse wrappedLine 20 = some ⟨1, 0, 200⟩ ∧
    ¬ Denotes (wrappedLine.take 20) ⟨1, 0, 200⟩ := by
  refine ⟨by decide +kernel, fun h => ?_⟩
  exact absurd h.status (by decide +kernel)

end SquidVideoCache.Message
