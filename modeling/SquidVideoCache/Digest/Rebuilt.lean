import SquidVideoCache.Digest.Run

/-!
# The keys of a rebuilt digest

A rebuild starts with a digest without keys, of the old size or of another one. Only
`cacheDigestClear` sets its counters back.
-/

namespace SquidVideoCache.Digest

open Lib List

def cbitTest (mask : List UInt8) (bit : ℕ) : Bool := mask.getD (bit / 8) 0 &&& (1 <<< (bit % 8).toUInt8) ≠ 0

def cacheDigestTest (cd : CacheDigest) (key : List UInt8) : Bool :=
  [0, 1, 2, 3].all fun i => cbitTest cd.mask (cacheDigestHashKey cd key i)

def cacheDigestDel (cd : CacheDigest) : CacheDigest := { cd with delCount := cd.delCount + 1 }

def storeDigestDel (cd : CacheDigest) (e : StoreEntry) : CacheDigest :=
  if !e.keyPrivate && cacheDigestTest cd e.key then cacheDigestDel cd else cd

variable {cfg : Config} {cd cd' : CacheDigest} {s s' s₀ : State} {key : List UInt8} {keys : List (List UInt8)}
  {mask : List UInt8} {b b' : ℕ}

lemma or_and_eq (x y m : UInt8) : (x ||| y) &&& m = (x &&& m) ||| (y &&& m) := by
  apply UInt8.toBitVec_inj.mp
  ext i
  simp [Bool.and_or_distrib_right]

lemma cbitTest_of_cbitTest (h : cbitTest mask b) : cbitTest (cbitSet mask b') b := by
  simp only [cbitTest, cbitSet, getD_eq_getElem?_getD, decide_eq_true_eq] at h ⊢
  rw [getElem?_modify]
  cases hbyte : mask[b / 8]? with
  | none => simp [hbyte] at h
  | some x =>
    rw [hbyte] at h
    by_cases hsame : b' / 8 = b / 8
    · simp only [hsame, if_true, Option.map_eq_map, Option.map_some, Option.getD_some]
      rw [or_and_eq, Ne, UInt8.or_eq_zero_iff]
      exact fun h0 => h h0.1
    · simpa [hsame] using h

lemma cbitTest_cbitSet (hb : b / 8 < mask.length) : cbitTest (cbitSet mask b) b := by
  have hbit : ∀ k < 8, ((1 : UInt8) <<< Nat.toUInt8 k) ≠ 0 := by decide
  simp only [cbitTest, cbitSet, getD_eq_getElem?_getD, decide_eq_true_eq]
  rw [getElem?_modify, getElem?_eq_getElem hb]
  simp only [if_true, Option.map_eq_map, Option.map_some, Option.getD_some]
  rw [or_and_eq, Ne, UInt8.or_eq_zero_iff, UInt8.and_self]
  exact fun h0 => hbit _ (Nat.mod_lt b (by decide)) h0.2

lemma hashKey_lt (cd : CacheDigest) (key : List UInt8) (i : ℕ) : cacheDigestHashKey cd key i / 8 < cd.mask.length := by
  have hpos := cd.mask_pos
  have hlt : cacheDigestHashKey cd key i < cd.mask.length * 8 := Nat.mod_lt _ (by omega)
  omega

/-- What an addition makes of the bits. -/
theorem cacheDigestTest_add (cd : CacheDigest) (key : List UInt8) : cacheDigestTest (cacheDigestAdd cd key) key ∧
    ∀ other, cacheDigestTest cd other → cacheDigestTest (cacheDigestAdd cd key) other := by
  have hsame : ∀ other i, cacheDigestHashKey (cacheDigestAdd cd key) other i = cacheDigestHashKey cd other i := by
    intro other i
    simp [cacheDigestHashKey, cacheDigestAdd]
  have hlt := hashKey_lt cd key
  constructor
  · simp only [cacheDigestTest, all_cons, all_nil, Bool.and_true, Bool.and_eq_true, hsame]
    refine ⟨?_, ?_, ?_, ?_⟩
    · exact cbitTest_of_cbitTest (cbitTest_of_cbitTest (cbitTest_of_cbitTest (cbitTest_cbitSet (hlt 0))))
    · exact cbitTest_of_cbitTest (cbitTest_of_cbitTest (cbitTest_cbitSet (by simpa using hlt 1)))
    · exact cbitTest_of_cbitTest (cbitTest_cbitSet (by simpa using hlt 2))
    · exact cbitTest_cbitSet (by simpa using hlt 3)
  · intro other htest
    simp only [cacheDigestTest, all_eq_true, hsame] at htest ⊢
    intro i hi
    exact cbitTest_of_cbitTest (cbitTest_of_cbitTest (cbitTest_of_cbitTest (cbitTest_of_cbitTest (htest i hi))))

/-! ## A rebuild -/

/-- The number of buckets of a step. -/
def bucketCount (cfg : Config) (s : State) : ℤ :=
  if s.rebuildOffset + rebuildChunk cfg > cfg.storeHashBuckets
  then cfg.storeHashBuckets - (s.rebuildOffset : ℤ) else rebuildChunk cfg

/-- The keys that a step adds. -/
def stepKeys (cfg : Config) (s : State) : List (List UInt8) :=
  ((bucketEntries s (bucketCount cfg s).toNat).filter (storeDigestAddable cfg)).map (·.key)

/-- The states after the start of a rebuild in `s₀`, with the keys that have been added. Whatever else goes
on leaves the digest alone, but for entries that are deleted. -/
inductive Rebuilding (cfg : Config) (s₀ : State) : State → List (List UInt8) → Prop
  | resume {s : State} (h : storeDigestRebuildResume cfg s₀ = .ok s) : Rebuilding cfg s₀ s []
  | step {s s' : State} {keys : List (List UInt8)} (hs : Rebuilding cfg s₀ s keys)
      (h : storeDigestRebuildStep cfg s = .ok s') : Rebuilding cfg s₀ s' (keys ++ stepKeys cfg s)
  | delete {s : State} {keys : List (List UInt8)} (hs : Rebuilding cfg s₀ s keys) (e : StoreEntry) :
      Rebuilding cfg s₀ { s with digest := storeDigestDel s.digest e } keys
  | other {s s' : State} {keys : List (List UInt8)} (hs : Rebuilding cfg s₀ s keys) (h : s'.digest = s.digest) :
      Rebuilding cfg s₀ s' keys

/-- The change of the capacity is a big one. -/
def Resizes (cfg : Config) (s : State) : Prop := ∃ cd, storeDigestResize cfg s.store s.digest = .ok (some cd)

/-- The digest has been filled with keys, its counter starting from `n`. -/
structure Filled (n : ℕ) (keys : List (List UInt8)) (cd : CacheDigest) : Prop where
  count : cd.count = n + keys.length
  test : ∀ key ∈ keys, cacheDigestTest cd key

lemma Filled.foldl {n : ℕ} (entries : List StoreEntry) (h : Filled n keys cd) :
    Filled n (keys ++ (entries.filter (storeDigestAddable cfg)).map (·.key)) (entries.foldl (storeDigestAdd cfg) cd) := by
  induction entries generalizing cd keys with
  | nil => simpa using h
  | cons e entries ih =>
    rw [foldl_cons, storeDigestAdd]
    split_ifs with hadd
    · have hadde := cacheDigestTest_add cd e.key
      have hone : Filled n (keys ++ [e.key]) (cacheDigestAdd cd e.key) := by
        refine ⟨?_, fun key hkey => ?_⟩
        · have hcou := h.count
          rw [length_append, length_singleton]
          change cd.count + 1 = _
          omega
        · rcases mem_append.mp hkey with hkey | hkey
          · exact hadde.2 key (h.test key hkey)
          · rw [mem_singleton.mp hkey]
            exact hadde.1
      rw [filter_cons_of_pos hadd, map_cons, ← singleton_append, ← append_assoc]
      exact ih hone
    · rw [filter_cons_of_neg hadd]
      exact ih h

lemma digest_rewriteResume (s : State) :
    Ends (fun _ => True) (fun s' => s'.digest = s.digest) (storeDigestRewriteResume cfg s) := by
  unfold storeDigestRewriteResume
  split
  · trivial
  · exact (ends_true _).bind fun _ _ => rfl

lemma digest_rebuildStep (s : State) : Ends (fun _ => True)
    (fun s' => s'.digest = (bucketEntries s (bucketCount cfg s).toNat).foldl (storeDigestAdd cfg) s.digest)
    (storeDigestRebuildStep cfg s) := by
  refine ends_ite (fun _ => trivial) fun _ => (ends_true _).bind fun _ _ => ends_ite (fun _ => trivial) fun _ => ?_
  refine ends_ite (fun _ => ?_) fun _ => rfl
  refine (ends_true _).bind fun _ _ => ends_ite (fun _ => ?_) fun _ => rfl
  exact digest_rewriteResume _

lemma count_cacheDigestInit {cap bpe : ℤ} {m n : ℕ} (h : cacheDigestInit cap bpe n m = .ok cd) : cd.count = n := by
  unfold cacheDigestInit at h
  split at h
  · split at h
    · injection h with h
      rw [← h]
    · cases h
  · cases h

lemma resume_filled (h : storeDigestRebuildResume cfg s₀ = .ok s) :
    (Resizes cfg s₀ ∧ Filled s₀.digest.count [] s.digest) ∨ (¬ Resizes cfg s₀ ∧ Filled 0 [] s.digest) := by
  simp only [storeDigestRebuildResume, bind_eq_ok] at h
  obtain ⟨-, -, -, -, resized, hres, h⟩ := h
  cases h
  cases resized with
  | none =>
    refine .inr ⟨?_, rfl, by simp⟩
    rintro ⟨cd, hcd⟩
    rw [hres] at hcd
    cases hcd
  | some cd =>
    refine .inl ⟨⟨cd, hres⟩, ?_, by simp⟩
    -- the counters of the old digest are kept
    simp only [storeDigestResize, bind_eq_ok] at hres
    obtain ⟨cap, -, hres⟩ := hres
    split_ifs at hres
    · cases hres
    · simp only [bind_eq_ok] at hres
      obtain ⟨cd', hcha, heq⟩ := hres
      cases heq
      exact count_cacheDigestInit hcha

lemma Rebuilding.filled (h : Rebuilding cfg s₀ s keys) :
    (Resizes cfg s₀ ∧ Filled s₀.digest.count keys s.digest) ∨ (¬ Resizes cfg s₀ ∧ Filled 0 keys s.digest) := by
  induction h with
  | resume h => exact resume_filled h
  | step _ h ih =>
    rw [(digest_rebuildStep _).ok_of_eq h]
    exact ih.imp (.imp_right (.foldl _)) (.imp_right (.foldl _))
  | delete _ e ih =>
    have hdel : ∀ {n keys cd}, Filled n keys cd → Filled n keys (storeDigestDel cd e) := by
      intro n keys cd hcd
      unfold storeDigestDel
      split_ifs
      · exact ⟨hcd.count, hcd.test⟩
      · exact hcd
    exact ih.imp (.imp_right hdel) (.imp_right hdel)
  | other _ h ih => rwa [h]

/-- After a rebuild the digest has the keys that were added. It counts them exactly if it was not resized,
or had counted nothing before. -/
theorem rebuilding_count_iff (h : Rebuilding cfg s₀ s keys) :
    (s.digest.count = keys.length ∧ ∀ key ∈ keys, cacheDigestTest s.digest key) ↔
      ¬ Resizes cfg s₀ ∨ s₀.digest.count = 0 := by
  rcases h.filled with ⟨hres, hfil⟩ | ⟨hsame, hfil⟩
  · have hcou := hfil.count
    constructor
    · intro hkeys
      exact .inr (by omega)
    · rintro (hnot | hzero)
      · exact absurd hres hnot
      · exact ⟨by omega, hfil.test⟩
  · have hcou := hfil.count
    exact iff_of_true ⟨by omega, hfil.test⟩ (.inl hsame)

/-- A digest for one key that has counted `n` of them, and a store that has grown to two entries. -/
def counted (n : ℕ) : State := { smallInit with
    digest := { smallInit.digest with count := n }
    rebuildLock := true
    store := { smallStore with memInUse := 2 } }

def resumed (n : ℕ) : State := (storeDigestRebuildResume smallConfig (counted n)).toOption.getD (counted n)

def finished (n : ℕ) : State := (storeDigestRebuildStep smallConfig (resumed n)).toOption.getD (resumed n)

theorem rebuilding_count_first : (finished 0).digest.count = (stepKeys smallConfig (resumed 0)).length := by
  have hres : storeDigestRebuildResume smallConfig (counted 0) = .ok (resumed 0) := eq_ok_of_isOk (by decide +kernel) _
  have hstep : storeDigestRebuildStep smallConfig (resumed 0) = .ok (finished 0) := eq_ok_of_isOk (by decide +kernel) _
  exact ((rebuilding_count_iff (.step (.resume hres) hstep)).mpr (.inr rfl)).1

/-- The digest had counted one key, and counts two after a rebuild that has added one. -/
theorem rebuilding_count_resized : Rebuilding smallConfig (counted 1) (finished 1) (stepKeys smallConfig (resumed 1)) ∧
    (finished 1).rebuilt.isSome ∧ (finished 1).digest.count = 2 ∧ (stepKeys smallConfig (resumed 1)).length = 1 := by
  have hres : storeDigestRebuildResume smallConfig (counted 1) = .ok (resumed 1) := eq_ok_of_isOk (by decide +kernel) _
  have hstep : storeDigestRebuildStep smallConfig (resumed 1) = .ok (finished 1) := eq_ok_of_isOk (by decide +kernel) _
  exact ⟨.step (.resume hres) hstep, by decide +kernel⟩

end SquidVideoCache.Digest
