import Mathlib.Data.List.Basic

/-!
# Bits of a list of words

A list of words of `w` bits has bit `n` in the word `n / w`. Setting or clearing a bit of a word adds or removes
one number, and words of zeros behind the list add none.
-/

namespace SquidVideoCache.Lib

variable {w : ℕ} {words : List (BitVec w)} {x : BitVec w} {n m : ℕ}

def bitAt (words : List (BitVec w)) (n : ℕ) : Bool := words[n / w]?.any (·.getLsbD (n % w))

lemma bitAt_of_getElem (h : words[n / w]? = some x) : bitAt words n = x.getLsbD (n % w) := by
  simp [bitAt, h]

lemma lt_of_bitAt (hw : 0 < w) (h : bitAt words n = true) : n < words.length * w := by
  unfold bitAt at h
  cases hget : words[n / w]? with
  | none => simp [hget] at h
  | some x =>
    obtain ⟨hlt, -⟩ := List.getElem?_eq_some_iff.1 hget
    exact (Nat.div_lt_iff_lt_mul hw).1 hlt

lemma bitAt_set (h : words[n / w]? = some x) (y : BitVec w) (m : ℕ) :
    bitAt (words.set (n / w) y) m = if m / w = n / w then y.getLsbD (m % w) else bitAt words m := by
  obtain ⟨hlt, -⟩ := List.getElem?_eq_some_iff.1 h
  unfold bitAt
  rw [List.getElem?_set]
  split_ifs with heq hne hne
  · rfl
  · exact absurd heq.symm hne
  · exact absurd hne.symm heq
  · rfl

lemma eq_iff_div_mod (w n m : ℕ) : m = n ↔ m / w = n / w ∧ m % w = n % w := by
  constructor
  · rintro rfl
    exact ⟨rfl, rfl⟩
  · rintro ⟨hdiv, hmod⟩
    rw [← Nat.div_add_mod m w, hdiv, hmod, Nat.div_add_mod]

lemma bitAt_set_or (hw : 0 < w) (h : words[n / w]? = some x) (m : ℕ) :
    bitAt (words.set (n / w) (x ||| BitVec.twoPow w (n % w))) m = true ↔ m = n ∨ bitAt words m = true := by
  rw [bitAt_set h, eq_iff_div_mod w n m]
  split_ifs with hdiv
  · rw [bitAt_of_getElem (hdiv ▸ h), BitVec.getLsbD_or, BitVec.getLsbD_twoPow]
    simp only [Bool.or_eq_true, Bool.and_eq_true, decide_eq_true_eq, Nat.mod_lt n hw, hdiv, true_and]
    exact or_comm.trans (or_congr_left eq_comm)
  · simp [hdiv]

lemma bitAt_set_and_not (hw : 0 < w) (h : words[n / w]? = some x) (m : ℕ) :
    bitAt (words.set (n / w) (x &&& ~~~BitVec.twoPow w (n % w))) m = true ↔ m ≠ n ∧ bitAt words m = true := by
  have hmod : m % w < w := Nat.mod_lt m hw
  rw [bitAt_set h, Ne, eq_iff_div_mod w n m]
  split_ifs with hdiv
  · rw [bitAt_of_getElem (hdiv ▸ h), BitVec.getLsbD_and, BitVec.getLsbD_not, BitVec.getLsbD_twoPow]
    simp only [Bool.and_eq_true, Bool.not_eq_true', Bool.and_eq_false_iff, decide_eq_true_eq, decide_eq_false_iff_not,
      Nat.mod_lt n hw, hmod, hdiv, true_and, not_true_eq_false, false_or]
    exact and_comm.trans (and_congr_left' (not_congr eq_comm))
  · simp [hdiv]

lemma bitAt_append_zeros (words : List (BitVec w)) (k n : ℕ) : bitAt (words ++ List.replicate k 0) n = bitAt words n := by
  unfold bitAt
  rcases Nat.lt_or_ge (n / w) words.length with hlt | hge
  · rw [List.getElem?_append_left hlt]
  · rw [List.getElem?_append_right hge, List.getElem?_eq_none hge, List.getElem?_replicate]
    split_ifs <;> simp

lemma exists_clear_of_ne_allOnes (h : x ≠ BitVec.allOnes w) : ∃ b < w, x.getLsbD b = false := by
  by_contra! hset
  apply h
  apply BitVec.eq_of_getLsbD_eq
  intro b hb
  simpa [hb] using hset b hb

/-! ## Going round a list -/

lemma exists_round {n v : ℕ} (word : ℕ) (hv : v < n) : ∃ i < n, (word + i) % n = v := by
  have hlt : word % n < n := Nat.mod_lt _ (by omega)
  have hword : n * (word / n) + word % n = word := Nat.div_add_mod word n
  by_cases hle : word % n ≤ v
  · refine ⟨v - word % n, by omega, ?_⟩
    have hsum : word + (v - word % n) = v + n * (word / n) := by omega
    rw [hsum, Nat.add_mul_mod_self_left, Nat.mod_eq_of_lt hv]
  · refine ⟨v + n - word % n, by omega, ?_⟩
    have hsum : word + (v + n - word % n) = v + n * (word / n + 1) := by
      rw [Nat.mul_succ]
      omega
    rw [hsum, Nat.add_mul_mod_self_left, Nat.mod_eq_of_lt hv]

end SquidVideoCache.Lib
