import SquidVideoCache.Filemap.Model
import SquidVideoCache.Lib.Bits
import Mathlib.Data.Finset.Card

/-!
# The set of a file map

A map represents the set of the numbers whose bits are set.
-/

namespace SquidVideoCache.Filemap
open Lib List Except

variable {fm fm' : FileMap} {S : Finset ℕ} {n : ℕ}

structure Represents (fm : FileMap) (S : Finset ℕ) : Prop where
  size : ∃ j ≤ 10, fm.maxNFiles = 2 ^ (14 + j)
  nwords : fm.nwords = fm.maxNFiles / bitsInALong
  length : fm.fileMap.length = fm.nwords
  mem_iff : ∀ n, n ∈ S ↔ bitAt fm.fileMap n = true

lemma Represents.size_eq (h : Represents fm S) : fm.maxNFiles = fm.fileMap.length * bitsInALong := by
  obtain ⟨j, -, hsize⟩ := h.size
  have hdvd : bitsInALong ∣ fm.maxNFiles := by
    rw [hsize, Nat.add_comm, Nat.pow_add, show 2 ^ 14 = bitsInALong * 256 by rfl]
    exact (Nat.dvd_mul_right _ _).mul_left _
  rw [h.length, h.nwords, Nat.div_mul_cancel hdvd]

lemma Represents.lt_of_mem (h : Represents fm S) (hn : n ∈ S) : n < fm.maxNFiles := by
  rw [h.size_eq]
  exact lt_of_bitAt (by decide) ((h.mem_iff n).1 hn)

lemma Represents.size_le (h : Represents fm S) : fm.maxNFiles ≤ filemapMaxSize := by
  obtain ⟨j, hj, hsize⟩ := h.size
  rw [hsize]
  exact Nat.pow_le_pow_right (by decide) (by omega)

lemma represents_create : Represents fileMapCreate ∅ := by
  refine ⟨⟨0, by decide, rfl⟩, rfl, length_replicate, fun n => ?_⟩
  have hzer := bitAt_append_zeros ([] : List Word) (fmInitialNumber / bitsInALong) n
  have hemp : bitAt fileMapCreate.fileMap n = false := hzer
  simp [hemp]

/-! ## Words -/

lemma Represents.wordAt_eq (h : Represents fm S) (hn : n < fm.maxNFiles) :
    ∃ x, fm.fileMap[n / bitsInALong]? = some x ∧ wordAt fm (n / bitsInALong) = .ok x := by
  have hlt : n / bitsInALong < fm.fileMap.length := by
    rw [Nat.div_lt_iff_lt_mul (by decide), ← h.size_eq]
    exact hn
  have hget := getElem?_eq_getElem hlt
  exact ⟨_, hget, by rw [wordAt, hget]⟩

lemma and_bitmask_ne_zero (x : Word) (n : ℕ) : (x &&& bitmask n != 0) = x.getLsbD (n % bitsInALong) := by
  have hlt : n % bitsInALong < bitsInALong := Nat.mod_lt n (by decide)
  rw [bitmask, BitVec.and_twoPow]
  split_ifs with hbit
  · rw [hbit, bne_iff_ne]
    intro hzero
    have hself := congrArg (fun y => BitVec.getLsbD y (n % bitsInALong)) hzero
    simp [hlt] at hself
  · simp [hbit]

lemma Represents.test_eq (h : Represents fm S) (n : ℕ) : fileMapBitTest fm n = .ok (decide (n ∈ S)) := by
  unfold fileMapBitTest
  split_ifs with hle
  · have hnot : n ∉ S := fun hn => absurd (h.lt_of_mem hn) hle.not_gt
    rw [decide_eq_false hnot]
  · obtain ⟨x, hget, hword⟩ := h.wordAt_eq (not_le.1 hle)
    rw [hword, ok_bind, and_bitmask_ne_zero, ← bitAt_of_getElem hget]
    congr 1
    rw [Bool.eq_iff_iff, decide_eq_true_eq, h.mem_iff]

/-! ## Growing -/

lemma Represents.grow_eq (h : Represents fm S) (hsize : fm.maxNFiles * 2 ≤ filemapMaxSize) :
    ∃ fm', fileMapGrow fm = .ok fm' ∧ Represents fm' S ∧ fm'.maxNFiles = fm.maxNFiles * 2 ∧
      fm'.nFilesInMap = fm.nFilesInMap := by
  have hgrow : fileMapGrow fm = .ok { fm with
      maxNFiles := fm.maxNFiles * 2
      nwords := fm.maxNFiles * 2 / bitsInALong
      fileMap := fm.fileMap ++ List.replicate (fm.maxNFiles * 2 / bitsInALong - fm.nwords) 0 } := by
    rw [fileMapGrow, cAssert_pos hsize]
    rfl
  refine ⟨_, hgrow, ⟨?_, rfl, ?_, fun n => ?_⟩, rfl, rfl⟩
  · obtain ⟨j, -, hj⟩ := h.size
    have hdou : fm.maxNFiles * 2 = 2 ^ (14 + (j + 1)) := by
      rw [hj, ← Nat.add_assoc, Nat.pow_succ]
    refine ⟨j + 1, ?_, hdou⟩
    rw [hdou] at hsize
    have hle := (Nat.pow_le_pow_iff_right (by decide : 1 < 2)).1 hsize
    omega
  · have hle : fm.maxNFiles / bitsInALong ≤ fm.maxNFiles * 2 / bitsInALong := Nat.div_le_div_right (by omega)
    rw [length_append, length_replicate, h.length, h.nwords]
    exact Nat.add_sub_of_le hle
  · rw [h.mem_iff, bitAt_append_zeros]

lemma Represents.double_le (h : Represents fm S) (hlt : fm.maxNFiles < filemapMaxSize) : fm.maxNFiles * 2 ≤ filemapMaxSize := by
  obtain ⟨j, -, hj⟩ := h.size
  rw [hj] at hlt ⊢
  have hj' := (Nat.pow_lt_pow_iff_right (by decide : 1 < 2)).1 hlt
  rw [← Nat.pow_succ]
  exact Nat.pow_le_pow_right (by decide) (by omega)

lemma Represents.growTo_eq {k j : ℕ} (h : Represents fm S) (hn : n < filemapMaxSize) (hj : fm.maxNFiles = 2 ^ (14 + j))
    (hk : 10 < k + j) :
    ∃ fm', fileMapGrowTo n k fm = .ok fm' ∧ Represents fm' S ∧ n < fm'.maxNFiles ∧ fm'.nFilesInMap = fm.nFilesInMap := by
  induction k generalizing fm j with
  | zero =>
    have hle := h.size_le
    rw [hj] at hle
    have hle' := (Nat.pow_le_pow_iff_right (by decide : 1 < 2)).1 hle
    omega
  | succ k ih =>
    rw [fileMapGrowTo]
    split_ifs with hsma
    · obtain ⟨fm₁, hgrow, h₁, hsize, hcou⟩ := h.grow_eq (h.double_le (by omega))
      rw [hgrow]
      have hj₁ : fm₁.maxNFiles = 2 ^ (14 + (j + 1)) := by
        rw [hsize, hj, ← Nat.add_assoc, Nat.pow_succ]
      obtain ⟨fm₂, hrest, h₂, hlt, hcou₂⟩ := ih h₁ hj₁ (by omega)
      exact ⟨fm₂, hrest, h₂, hlt, hcou₂.trans hcou⟩
    · exact ⟨fm, rfl, h, not_le.1 hsma, rfl⟩

/-! ## Setting and resetting -/

section

variable (h : Represents fm S)

include h

lemma Represents.set_eq (hn : n < filemapMaxSize) :
    ∃ fm', fileMapBitSet fm n = .ok (fm', n) ∧ Represents fm' (insert n S) ∧ fm'.nFilesInMap = fm.nFilesInMap + 1 := by
  obtain ⟨j, hj, hsize⟩ := h.size
  obtain ⟨fm₁, hgrow, h₁, hlt, hcou⟩ := h.growTo_eq (k := growRounds) hn hsize (by unfold growRounds; omega)
  obtain ⟨x, hget, hword⟩ := h₁.wordAt_eq hlt
  rw [fileMapBitSet, hgrow, ok_bind, hword]
  refine ⟨_, rfl, ⟨h₁.size, h₁.nwords, ?_, fun m => ?_⟩, congrArg (· + 1) hcou⟩
  · rw [length_set]
    exact h₁.length
  · rw [Finset.mem_insert, h₁.mem_iff]
    exact (bitAt_set_or (by decide) hget m).symm

lemma Represents.reset_eq (hn : n < fm.maxNFiles) :
    ∃ fm', fileMapBitReset fm n = .ok fm' ∧ Represents fm' (S.erase n) ∧ fm'.nFilesInMap = fm.nFilesInMap - 1 := by
  obtain ⟨x, hget, hword⟩ := h.wordAt_eq hn
  rw [fileMapBitReset, hword]
  refine ⟨_, rfl, ⟨h.size, h.nwords, ?_, fun m => ?_⟩, rfl⟩
  · rw [length_set]
    exact h.length
  · rw [Finset.mem_erase, h.mem_iff]
    exact (bitAt_set_and_not (by decide) hget m).symm

/-! ## Allocating -/

/-- The loop stops at a word that is not full, or has seen only full ones. -/
theorem Represents.nextWord_eq {word : ℕ} (hword : word < fm.nwords) (count : ℕ) :
    ∃ v < fm.nwords, nextWord fm count word = .ok v ∧ ((∃ x, fm.fileMap[v]? = some x ∧ x ≠ BitVec.allOnes bitsInALong) ∨
        ∀ i < count, fm.fileMap[(word + i) % fm.nwords]? = some (BitVec.allOnes bitsInALong)) := by
  induction count generalizing word with
  | zero => exact ⟨word, hword, rfl, .inr (by simp)⟩
  | succ count ih =>
    have hget := getElem?_eq_getElem (hword.trans_eq h.length.symm)
    rw [nextWord, wordAt, hget]
    rw [ok_bind]
    split_ifs with hfull
    · exact ⟨word, hword, rfl, .inl ⟨_, hget, hfull⟩⟩
    · rw [not_not] at hfull
      obtain ⟨v, hv, heq, hspec⟩ := ih (Nat.mod_lt _ (by omega))
      refine ⟨v, hv, heq, hspec.imp_right fun hall i hi => ?_⟩
      cases i with
      | zero => rw [Nat.add_zero, Nat.mod_eq_of_lt hword, hget, hfull]
      | succ i =>
        have hnext := hall i (by omega)
        rwa [Nat.mod_add_mod, Nat.add_assoc, Nat.add_comm 1 i] at hnext

lemma Represents.firstFree_eq (ns : List ℕ) : firstFree fm ns = .ok (ns.find? (· ∉ S)) := by
  induction ns with
  | nil => rfl
  | cons n ns ih =>
    rw [firstFree, h.test_eq]
    by_cases hn : n ∈ S
    · simp [hn, ih]
    · simp [hn]

lemma Represents.getLsbD_eq {word b : ℕ} {x : Word} (hget : fm.fileMap[word]? = some x)
    (hb : b < bitsInALong) : x.getLsbD b = true ↔ word * bitsInALong + b ∈ S := by
  have hdiv : (word * bitsInALong + b) / bitsInALong = word := by
    rw [Nat.mul_comm, Nat.mul_add_div (by decide), Nat.div_eq_of_lt hb, Nat.add_zero]
  have hmod : (word * bitsInALong + b) % bitsInALong = b := by
    rw [Nat.mul_comm, Nat.mul_add_mod, Nat.mod_eq_of_lt hb]
  rw [h.mem_iff, bitAt, hdiv, hmod, hget]
  rfl

lemma Represents.searchFree_eq {suggestion : ℕ} (hs : suggestion < fm.maxNFiles) :
    ∃ found, searchFree fm suggestion = .ok found ∧ (∀ n ∈ found, n ∉ S ∧ n < fm.maxNFiles) ∧
      (found = none → ∀ n < fm.maxNFiles, n ∈ S) := by
  rw [searchFree, h.test_eq, ok_bind]
  by_cases hused : suggestion ∈ S
  · rw [if_pos (decide_eq_true hused)]
    have hword : suggestion / bitsInALong < fm.nwords := by
      rw [Nat.div_lt_iff_lt_mul (by decide), ← h.length, ← h.size_eq]
      exact hs
    obtain ⟨v, hv, hnext, hspec⟩ := h.nextWord_eq hword _
    rw [hnext, ok_bind, h.firstFree_eq]
    refine ⟨_, rfl, fun n hn => ?_, fun hnone n hn => ?_⟩
    · have hfree : n ∉ S := by simpa using find?_some hn
      have hmem := mem_of_find?_eq_some hn
      simp only [wordNumbers, mem_map, mem_range] at hmem
      obtain ⟨b, hb, rfl⟩ := hmem
      refine ⟨hfree, ?_⟩
      rw [h.size_eq, h.length]
      calc v * bitsInALong + b < v * bitsInALong + bitsInALong := by omega
        _ = (v + 1) * bitsInALong := (Nat.succ_mul v _).symm
        _ ≤ fm.nwords * bitsInALong := Nat.mul_le_mul_right _ hv
    · have hall : ∀ b < bitsInALong, v * bitsInALong + b ∈ S := by
        intro b hb
        have hb' := find?_eq_none.1 hnone _ (mem_map_of_mem (mem_range.2 hb))
        simpa using hb'
      rcases hspec with ⟨x, hget, hne⟩ | hrou
      · obtain ⟨b, hb, hcle⟩ := exists_clear_of_ne_allOnes hne
        have hset := (h.getLsbD_eq hget hb).2 (hall b hb)
        rw [hcle] at hset
        cases hset
      · -- every word is full
        have hn' : n / bitsInALong < fm.nwords := by
          rw [Nat.div_lt_iff_lt_mul (by decide), ← h.length, ← h.size_eq]
          exact hn
        obtain ⟨i, hi, hind⟩ := exists_round _ hn'
        have hget := hrou i hi
        rw [hind] at hget
        rw [h.mem_iff, bitAt_of_getElem hget, BitVec.getLsbD_allOnes]
        exact decide_eq_true (Nat.mod_lt n (by decide))
  · rw [if_neg (by simpa using hused)]
    exact ⟨some _, rfl, by simpa using ⟨hused, hs⟩, by simp⟩

lemma Represents.allocate_eq (suggestion : ℕ) (habs : ∃ m < filemapMaxSize, m ∉ S) :
    ∃ fm' n, fileMapAllocate fm suggestion = .ok (fm', n) ∧ n < filemapMaxSize ∧ n ∉ S ∧ Represents fm' S ∧
      fm'.nFilesInMap = fm.nFilesInMap ∧
      fm'.maxNFiles = if ∀ m < fm.maxNFiles, m ∈ S then fm.maxNFiles * 2 else fm.maxNFiles := by
  have hpos : 0 < fm.maxNFiles := by
    obtain ⟨j, -, hj⟩ := h.size
    rw [hj]
    exact Nat.two_pow_pos _
  have hsug : (if fm.maxNFiles ≤ suggestion then 0 else suggestion) < fm.maxNFiles := by
    split_ifs <;> omega
  obtain ⟨found, hsea, hfree, hfull⟩ := h.searchFree_eq hsug
  rw [fileMapAllocate, growRounds, allocateRounds, hsea]
  cases found with
  | some n =>
    obtain ⟨hn, hlt⟩ := hfree n rfl
    refine ⟨fm, n, rfl, hlt.trans_le h.size_le, hn, h, rfl, ?_⟩
    rw [if_neg fun hall => hn (hall n hlt)]
  | none =>
    -- the first number of the new half is free
    obtain ⟨m, hm, hmS⟩ := habs
    have hfull := hfull rfl
    have hroom : fm.maxNFiles < filemapMaxSize := by
      by_contra hge
      exact hmS (hfull m (by omega))
    obtain ⟨fm₁, hgrow, h₁, hsize, hcou⟩ := h.grow_eq (h.double_le hroom)
    have hnew : fm.maxNFiles ∉ S := fun hmem => absurd (h.lt_of_mem hmem) (lt_irrefl _)
    have hhalf : fm₁.maxNFiles / 2 = fm.maxNFiles := by omega
    have hbel : ¬fm₁.maxNFiles ≤ fm.maxNFiles := by omega
    refine ⟨fm₁, fm.maxNFiles, ?_, hroom, hnew, h₁, hcou, ?_⟩
    · simp only [hgrow, ok_bind]
      rw [allocateRounds, hhalf, if_neg hbel, searchFree, h₁.test_eq, ok_bind, if_neg (by simpa using hnew)]
      rfl
    · rw [if_pos hfull, hsize]

lemma Represents.allocate_full (suggestion : ℕ) (hall : ∀ m < filemapMaxSize, m ∈ S) :
    fileMapAllocate fm suggestion = .error .assertion := by
  have hsize : fm.maxNFiles = filemapMaxSize := by
    refine le_antisymm h.size_le ?_
    by_contra! hlt
    exact absurd (h.lt_of_mem (hall _ hlt)) (lt_irrefl _)
  have hpos : 0 < fm.maxNFiles := hsize ▸ Nat.two_pow_pos _
  have hsug : (if fm.maxNFiles ≤ suggestion then 0 else suggestion) < fm.maxNFiles := by
    split_ifs <;> omega
  obtain ⟨found, hsea, hfree, -⟩ := h.searchFree_eq hsug
  rw [fileMapAllocate, growRounds, allocateRounds, hsea]
  cases found with
  | some n =>
    obtain ⟨hn, hlt⟩ := hfree n rfl
    exact absurd (hall n (hsize ▸ hlt)) hn
  | none =>
    have hgrow : ¬fm.maxNFiles * 2 ≤ filemapMaxSize := by omega
    simp only [fileMapGrow, cAssert, if_neg hgrow]
    rfl

end

/-! ## Runs -/

def contents : List Call → Finset ℕ
  | [] => ∅
  | .set n :: past => insert n (contents past)
  | .reset n :: past => (contents past).erase n
  | .test _ :: past => contents past
  | .allocate _ :: past => contents past

/-- Only numbers that are absent are set, and only numbers that are present are reset. -/
def Proper : List Call → Prop
  | [] => True
  | .set n :: past => n ∉ contents past ∧ Proper past
  | .reset n :: past => n ∈ contents past ∧ Proper past
  | .test _ :: past => Proper past
  | .allocate _ :: past => Proper past

/-- File numbers have 24 bits, and only numbers in the range of the map are reset. -/
def Allowed (fm : FileMap) : Call → Prop
  | .set n => n < filemapMaxSize
  | .reset n => n < fm.maxNFiles
  | .test n => n < filemapMaxSize
  | .allocate n => n < filemapMaxSize

/-- The maps that calls lead to from the empty one, with the calls so far. -/
inductive Runs : List Call → FileMap → Prop
  | create : Runs [] fileMapCreate
  | call {past : List Call} {fm fm' : FileMap} (c : Call) (h : Runs past fm) (hc : Allowed fm c) (hstep : step fm c = .ok fm') :
      Runs (c :: past) fm'

variable {past : List Call}

lemma Runs.represents (h : Runs past fm) :
    Represents fm (contents past) ∧ (Proper past → fm.nFilesInMap = (contents past).card) := by
  induction h with
  | create => exact ⟨represents_create, fun _ => rfl⟩
  | @call past fm fm' c _ hc hstep ih =>
    obtain ⟨hrep, hcard⟩ := ih
    cases c with
    | set n =>
      obtain ⟨fm₁, hset, h₁, hcou⟩ := hrep.set_eq hc
      rw [step, hset] at hstep
      obtain rfl := ok.inj hstep
      refine ⟨h₁, fun hpro => ?_⟩
      rw [hcou, hcard hpro.2, contents, Finset.card_insert_of_notMem hpro.1]
      rfl
    | reset n =>
      obtain ⟨fm₁, hres, h₁, hcou⟩ := hrep.reset_eq hc
      rw [step, hres] at hstep
      obtain rfl := ok.inj hstep
      refine ⟨h₁, fun hpro => ?_⟩
      rw [hcou, hcard hpro.2, contents, Finset.card_erase_of_mem hpro.1]
      have hpos := Finset.card_pos.2 ⟨n, hpro.1⟩
      omega
    | test n =>
      rw [step, hrep.test_eq] at hstep
      obtain rfl := ok.inj hstep
      exact ⟨hrep, hcard⟩
    | allocate suggestion =>
      by_cases hall : ∀ m < filemapMaxSize, m ∈ contents past
      · rw [step, hrep.allocate_full _ hall] at hstep
        cases hstep
      · obtain ⟨fm₁, n, hallo, -, -, h₁, hcou, -⟩ := hrep.allocate_eq _ (by simpa using hall)
        rw [step, hallo] at hstep
        obtain rfl := ok.inj hstep
        exact ⟨h₁, fun hpro => hcou.trans (hcard hpro)⟩

/-- After every run the map is the set of the numbers that the calls have left, and a number can be allocated as long
as there is one. -/
theorem Runs.finite_set (h : Runs past fm) :
    (∀ n < filemapMaxSize, fileMapBitTest fm n = .ok (decide (n ∈ contents past))) ∧
    (Proper past → fm.nFilesInMap = (contents past).card) ∧
    (∀ n < filemapMaxSize, ∃ fm', fileMapBitSet fm n = .ok (fm', n)) ∧
    (∀ n < fm.maxNFiles, ∃ fm', fileMapBitReset fm n = .ok fm') ∧
    ∀ suggestion < filemapMaxSize, (∃ m < filemapMaxSize, m ∉ contents past) →
      ∃ fm' n, fileMapAllocate fm suggestion = .ok (fm', n) ∧ n < filemapMaxSize ∧ n ∉ contents past ∧
        fm'.maxNFiles = if ∀ m < fm.maxNFiles, m ∈ contents past then fm.maxNFiles * 2 else fm.maxNFiles := by
  obtain ⟨hrep, hcard⟩ := h.represents
  refine ⟨fun n _ => hrep.test_eq n, hcard, fun n hn => ?_, fun n hn => ?_, fun suggestion _ habs => ?_⟩
  · obtain ⟨fm', hset, -⟩ := hrep.set_eq hn
    exact ⟨fm', hset⟩
  · obtain ⟨fm', hres, -⟩ := hrep.reset_eq hn
    exact ⟨fm', hres⟩
  · obtain ⟨fm', n, hall, hlt, hfree, -, -, hsize⟩ := hrep.allocate_eq _ habs
    exact ⟨fm', n, hall, hlt, hfree, hsize⟩

/-- The second number makes the map grow. -/
theorem finite_set_grown : ∃ fm, Runs [.set 20000, .set 0] fm ∧ fm.nFilesInMap = 2 ∧ fileMapBitTest fm 20000 = .ok true ∧
    ∃ fm' n, fileMapAllocate fm 0 = .ok (fm', n) ∧ n ∉ contents [.set 20000, .set 0] := by
  obtain ⟨fm₁, hset₁, h₁, -⟩ := represents_create.set_eq (n := 0) (by decide)
  obtain ⟨fm₂, hset₂, -, -⟩ := h₁.set_eq (n := 20000) (by decide)
  have hrun₁ : Runs [.set 0] fm₁ := .call _ .create (by decide : 0 < filemapMaxSize) (by rw [step, hset₁]; rfl)
  have hrun₂ : Runs [.set 20000, .set 0] fm₂ :=
    .call _ hrun₁ (by decide : 20000 < filemapMaxSize) (by rw [step, hset₂]; rfl)
  obtain ⟨htest, hcard, -, -, hall⟩ := Runs.finite_set hrun₂
  obtain ⟨fm', n, heq, -, hfree, -⟩ := hall 0 (by decide) ⟨1, by decide, by decide⟩
  refine ⟨fm₂, hrun₂, hcard ⟨by decide, by decide, trivial⟩, ?_, fm', n, heq, hfree⟩
  rw [htest 20000 (by decide)]
  rfl

/-- The number is below 2^24 but beyond the array of the empty map. -/
theorem reset_beyond : 16384 < filemapMaxSize ∧ step fileMapCreate (.reset 16384) = .error .bounds := by
  refine ⟨by decide, ?_⟩
  rfl

end SquidVideoCache.Filemap
