import SquidVideoCache.SwapSize.Run

/-!
# File numbers and keys while a log is read

A file number is marked in the map of its directory as long as an entry has it, and no two entries
have the same number or the same key. A record may add an entry, recycle one, or both.
-/

namespace SquidVideoCache.SwapSize
open Lib Function List Option
open CleanLog (Flags EntryFlag ebitTest ebitSet ebitClr SwapLogData fileMapBitTest fileMapBitSet storeUfsDirMapBitReset
  storeUfsDirValidFileno MapOk ebitTest_ebitSet_of_ne ebitTest_ebitClr_of_ne ebitTest_ebitClr_self)

variable {Key : Type} {cfg : Config Key} {s s' : State Key} {i : ℕ} {e e' : StoreEntry Key}
  {a : Option (StoreEntry Key)}

/-! ## Directories -/

/-- The entry of the slot has file `n` of directory `d`. -/
def HasFile (s : State Key) (d n : ℤ) (i : ℕ) : Prop := ∃ e, s.slot i = some e ∧ e.swapDirn = d ∧ e.swapFilen = n

/-- The entries of a directory have different file numbers, and these are the numbers that are marked. -/
structure DirOk (d : ℤ) (s : State Key) : Prop where
  map : MapOk (s.maps d)
  nonneg : ∀ n i, HasFile s d n i → 0 ≤ n
  distinct : ∀ n i j, HasFile s d n i → HasFile s d n j → i = j
  marked : ∀ n, fileMapBitTest (s.maps d) n = true ↔ ∃ i, HasFile s d n i

lemma DirOk.set {d : ℤ} (h : DirOk d s) (hslot : ∀ j, s'.slot j = if j = i then a else s.slot j)
    (ha : ∀ x ∈ a, x.swapDirn = d → HasFile s d x.swapFilen i) (hmap : MapOk (s'.maps d))
    (hmar : ∀ n, fileMapBitTest (s'.maps d) n = true ↔
      fileMapBitTest (s.maps d) n = true ∧ (HasFile s d n i → ∃ x ∈ a, x.swapDirn = d)) : DirOk d s' := by
  have hof : ∀ n j, HasFile s' d n j → HasFile s d n j := by
    rintro n j ⟨x, hx, hdirn, hfil⟩
    rw [hslot] at hx
    split_ifs at hx with hj
    · subst hj hfil
      exact ha x hx hdirn
    · exact ⟨x, hx, hdirn, hfil⟩
  refine ⟨hmap, fun n j hj => h.nonneg n j (hof n j hj), fun n j k hj hk => h.distinct n j k (hof n j hj) (hof n k hk),
    fun n => ?_⟩
  rw [hmar, h.marked]
  constructor
  · rintro ⟨⟨j, hj⟩, hkept⟩
    by_cases hji : j = i
    · subst hji
      obtain ⟨x, hx, hdirn⟩ := hkept hj
      -- the entry that replaces it has the number of the old one
      obtain ⟨y, hy, -, hfil⟩ := hj
      obtain ⟨y', hy', -, hfil'⟩ := ha x hx hdirn
      obtain rfl := some.inj (hy.symm.trans hy')
      exact ⟨j, x, by rw [hslot, if_pos rfl]; exact hx, hdirn, hfil'.symm.trans hfil⟩
    · obtain ⟨x, hx, hfile⟩ := hj
      exact ⟨j, x, by rw [hslot, if_neg hji]; exact hx, hfile⟩
  · rintro ⟨j, hj⟩
    refine ⟨⟨j, hof n j hj⟩, fun hi => ?_⟩
    obtain rfl := h.distinct n j i (hof n j hj) hi
    obtain ⟨x, hx, hdirn, -⟩ := hj
    rw [hslot, if_pos rfl] at hx
    exact ⟨x, hx, hdirn⟩

lemma DirOk.keep {d : ℤ} (h : DirOk d s) (hi : s.slot i = some e)
    (hslot : ∀ j, s'.slot j = if j = i then some e' else s.slot j) (hdirn : e'.swapDirn = e.swapDirn)
    (hfil : e'.swapFilen = e.swapFilen) (hmaps : s'.maps = s.maps) : DirOk d s' := by
  refine h.set hslot ?_ (hmaps ▸ h.map) fun n => ?_
  · intro x hx hx'
    obtain rfl := some.inj hx
    exact ⟨e, hi, hdirn.symm.trans hx', hfil.symm⟩
  · rw [hmaps]
    refine ⟨fun hn => ⟨hn, ?_⟩, fun hn => hn.1⟩
    rintro ⟨x, hx, hxd, -⟩
    obtain rfl := some.inj (hi.symm.trans hx)
    exact ⟨e', rfl, hdirn.trans hxd⟩

lemma DirOk.append {d : ℤ} (h : DirOk d s) (hentr : s'.entries = s.entries ++ [some e]) (hmap : MapOk (s'.maps d))
    (hnn : e.swapDirn = d → 0 ≤ e.swapFilen) (hfree : e.swapDirn = d → fileMapBitTest (s.maps d) e.swapFilen = false)
    (hmar : ∀ n, fileMapBitTest (s'.maps d) n = true ↔
      e.swapDirn = d ∧ n = e.swapFilen ∨ fileMapBitTest (s.maps d) n = true) : DirOk d s' := by
  have hslot := slot_append hentr
  have hlast : s.slot s.entries.length = none := by
    rw [State.slot, getElem?_eq_none le_rfl]
    rfl
  have hhas : ∀ n j, HasFile s' d n j ↔ j = s.entries.length ∧ e.swapDirn = d ∧ e.swapFilen = n ∨ HasFile s d n j := by
    intro n j
    unfold HasFile
    rw [hslot]
    split_ifs with hj
    · simp [hj, hlast]
    · simp [hj]
  have hold : ∀ n j, HasFile s d n j → ¬(e.swapDirn = d ∧ e.swapFilen = n) := by
    rintro n j hj ⟨hdirn, rfl⟩
    have hset := (h.marked _).2 ⟨j, hj⟩
    rw [hfree hdirn] at hset
    cases hset
  refine ⟨hmap, fun n j hj => ?_, fun n j k hj hk => ?_, fun n => ?_⟩
  · rcases (hhas n j).1 hj with ⟨-, hdirn, rfl⟩ | hj
    · exact hnn hdirn
    · exact h.nonneg n j hj
  · rcases (hhas n j).1 hj with ⟨hlen, hfile⟩ | hj' <;> rcases (hhas n k).1 hk with ⟨hlen', hfile'⟩ | hk'
    · exact hlen.trans hlen'.symm
    · exact absurd hfile (hold n k hk')
    · exact absurd hfile' (hold n j hj')
    · exact h.distinct n j k hj' hk'
  · simp only [hmar, h.marked, hhas, exists_or, exists_eq_left]
    exact or_congr_left (and_congr_right fun _ => eq_comm)

/-! ## Keys -/

/-- No two entries have the same key, and private keys are below the counter. -/
structure KeysOk (s : State Key) : Prop where
  distinct : ∀ i j e e', s.slot i = some e → s.slot j = some e' → e.key = e'.key → i = j
  counted : ∀ i e k, s.slot i = some e → e.key = .inr k → k ≤ s.keyCounter
  shared : ∀ i e key, s.slot i = some e → e.key = .inl key → ebitTest e.flags .keyPrivate = false

/-- One slot is set to an entry whose key is that of no other entry. -/
theorem KeysOk.of_slot (h : KeysOk s) (hslot : ∀ j, s'.slot j = if j = i then a else s.slot j)
    (hctr : s.keyCounter ≤ s'.keyCounter) (hnew : ∀ x ∈ a, (∀ j y, j ≠ i → s.slot j = some y → x.key ≠ y.key) ∧
      (∀ k, x.key = .inr k → k ≤ s'.keyCounter) ∧ ∀ key, x.key = .inl key → ebitTest x.flags .keyPrivate = false) :
    KeysOk s' := by
  refine ⟨fun j k x y hx hy hkey => ?_, fun j x k hx hkey => ?_, fun j x key hx hkey => ?_⟩
  · rw [hslot] at hx hy
    split_ifs at hx hy with hj hk hk
    · exact hj.trans hk.symm
    · exact absurd hkey ((hnew x hx).1 k y hk hy)
    · exact absurd hkey.symm ((hnew y hy).1 j x hj hx)
    · exact h.distinct j k x y hx hy hkey
  · rw [hslot] at hx
    split_ifs at hx with hj
    · exact (hnew x hx).2.1 k hkey
    · exact (h.counted j x k hx hkey).trans hctr
  · rw [hslot] at hx
    split_ifs at hx with hj
    · exact (hnew x hx).2.2 key hkey
    · exact h.shared j x key hx hkey

lemma KeysOk.set (h : KeysOk s) (hi : s.slot i = some e) (hslot : ∀ j, s'.slot j = if j = i then a else s.slot j)
    (ha : ∀ x ∈ a, Rekeyed s.keyCounter s'.keyCounter e x) (hctr : s.keyCounter ≤ s'.keyCounter) : KeysOk s' := by
  -- the key of the slot is the old one or a new one
  refine h.of_slot hslot hctr fun x hx => ⟨fun j y hji hy hkey => ?_, fun k hkey => ?_, fun key hkey => ?_⟩
  all_goals rcases ha x hx with ⟨-, hsame, hflag⟩ | ⟨hnext, hfre⟩
  · exact hji (h.distinct j i y e hy hi (hkey.symm.trans hsame))
  · have hle := h.counted j y _ hy (hkey.symm.trans hfre)
    omega
  · exact (h.counted i e k hi (hsame.symm.trans hkey)).trans hctr
  · rw [hfre, Sum.inr.injEq] at hkey
    exact hkey.ge
  · exact hflag.trans (h.shared i e key hi (hsame.symm.trans hkey))
  · rw [hfre] at hkey
    cases hkey

lemma KeysOk.append {key : Key} (h : KeysOk s) (hentr : s'.entries = s.entries ++ [some e]) (hkey : e.key = .inl key)
    (hnew : ∀ j x, s.slot j = some x → x.key ≠ .inl key) (hflag : ebitTest e.flags .keyPrivate = false)
    (hctr : s'.keyCounter = s.keyCounter) : KeysOk s' := by
  refine h.of_slot (slot_append hentr) hctr.ge fun x hx => ?_
  obtain rfl := some.inj hx
  refine ⟨fun j y _ hy hxy => hnew j y hy (hxy.symm.trans hkey), fun k hk => ?_, fun _ _ => hflag⟩
  rw [hkey] at hk
  cases hk

/-! ## Recycling -/

lemma Recycled.keysOk (h : Recycled s i e a s') (hi : s.slot i = some e) (hs : KeysOk s) : KeysOk s' :=
  hs.set hi (slot_set hi h.entries) h.rekeyed h.counter

lemma Recycled.dirOk {d : ℤ} (h : Recycled s i e a s') (hi : s.slot i = some e) (hs : DirOk d s) : DirOk d s' := by
  cases a with
  | some x =>
    obtain ⟨hdirn, hfil, -⟩ := h.file x rfl
    exact hs.keep hi (slot_set hi h.entries) hdirn hfil (by simpa using h.maps)
  | none =>
    have hmaps := h.maps
    have hhas : ∀ n, HasFile s d n i ↔ e.swapDirn = d ∧ e.swapFilen = n := by
      intro n
      simp [HasFile, hi]
    by_cases hd : e.swapDirn = d ∧ -1 < e.swapFilen
    · obtain ⟨rfl, hfil⟩ := hd
      have hres : s'.maps e.swapDirn = storeUfsDirMapBitReset (s.maps e.swapDirn) e.swapFilen := by
        rw [hmaps, if_pos ⟨rfl, hfil⟩]
        exact update_self _ _ _
      obtain ⟨hok, htest⟩ := hs.map.reset _
      refine hs.set (slot_set hi h.entries) (by simp) (hres ▸ hok) fun n => ?_
      rw [hres, htest, hhas]
      refine ⟨fun hn => ⟨hn.2, fun hfile => absurd hfile.2.symm hn.1⟩, fun hn => ⟨fun heq => ?_, hn.1⟩⟩
      obtain ⟨x, hx, -⟩ := hn.2 ⟨rfl, heq.symm⟩
      cases hx
    · -- the entry has no file in the directory
      have hsame : s'.maps d = s.maps d := by
        rw [hmaps]
        split_ifs with hres
        · exact update_of_ne (fun heq => hd ⟨heq.symm, hres.2⟩) _ _
        · rfl
      refine hs.set (slot_set hi h.entries) (by simp) (hsame ▸ hs.map) fun n => ?_
      rw [hsame, hhas]
      refine ⟨fun hn => ⟨hn, fun hfile => ?_⟩, fun hn => hn.1⟩
      have hnn := hs.nonneg n i ((hhas n).2 hfile)
      exact absurd ⟨hfile.1, by omega⟩ hd

lemma storeRecycle_of_requested (cfg : Config Key) (hi : s.slot i = some e) (hloc : storeEntryLocked e = true)
    (hreq : ebitTest e.flags .releaseRequest = true) : storeRecycle cfg i s = .ok s := by
  rw [storeRecycle, entryAt_eq hi, ok_bind, if_neg (by simp [hloc]), storeRelease, entryAt_eq hi, ok_bind, if_pos hloc,
    storeReleaseRequest, entryAt_eq hi, ok_bind, if_pos hreq]
  rfl

/-! ## Records -/

/-- The keys and the UFS directories are as they should be. -/
structure Good (ufs : Set ℕ) (s : State Key) : Prop where
  keys : KeysOk s
  dirs : ∀ d ∈ ufs, DirOk d s

variable {ufs : Set ℕ} {d : ℕ} {r : SwapLogData Key}

lemma good_init (cfg : Config Key) (ufs : Set ℕ) : Good ufs (.init cfg) := by
  have hnone : ∀ i, (State.init cfg).slot i = none := fun i => by simp [State.slot, State.init]
  refine ⟨⟨by simp [hnone], by simp [hnone], by simp [hnone]⟩, fun d _ => ⟨CleanLog.mapOk_create, ?_, ?_, ?_⟩⟩
  · simp [HasFile, hnone]
  · simp [HasFile, hnone]
  · intro n
    have htest : fileMapBitTest ((State.init cfg).maps d) n = false := CleanLog.mapOk_create.test n
    simp [HasFile, hnone, htest]

lemma Good.recycle (cfg : Config Key) (hs : Good ufs s) (hi : s.slot i = some e) :
    ∃ s', storeRecycle cfg i s = .ok s' ∧ Good ufs s' := by
  obtain ⟨s', a, heq, hrec, -⟩ := storeRecycle_recycled cfg hi
  exact ⟨s', heq, hrec.keysOk hi hs.keys, fun d hd => hrec.dirOk hi (hs.dirs d hd)⟩

lemma addDiskRestore_eq {fm : CleanLog.FileMap} (hset : fileMapBitSet (s.maps d) r.swapFilen = .ok fm) :
    storeUfsDirAddDiskRestore d r s =
      .ok { s with maps := update s.maps d fm, entries := s.entries ++ [some (diskEntry d r)] } := by
  rw [storeUfsDirAddDiskRestore, hset]
  rfl

lemma Good.addDiskRestore (hs : Good ufs s) (hd : d ∈ ufs) (hran : 0 ≤ r.swapFilen ∧ r.swapFilen < 2 ^ 24)
    (hfree : fileMapBitTest (s.maps d) r.swapFilen = false) (hnew : ∀ j x, s.slot j = some x → x.key ≠ .inl r.key) :
    ∃ s', storeUfsDirAddDiskRestore d r s = .ok s' ∧ Good ufs s' := by
  obtain ⟨fm, hset, hok, htest⟩ := (hs.dirs d hd).map.set hran.2
  have hpriv : ebitTest (diskEntry d r).flags .keyPrivate = false := by
    rw [diskEntry, ebitTest_ebitClr_of_ne (by decide), ebitTest_ebitClr_self]
  refine ⟨_, addDiskRestore_eq hset, hs.keys.append rfl rfl hnew hpriv rfl, fun d' hd' => ?_⟩
  by_cases hdd : d' = d
  · subst hdd
    refine (hs.dirs d' hd').append rfl ?_ (fun _ => hran.1) (fun _ => hfree) fun n => ?_
    · simpa using hok
    · simp [htest, diskEntry]
  · have hne : (d : ℤ) ≠ d' := by omega
    have hmaps : update s.maps (d : ℤ) fm d' = s.maps d' := update_of_ne hne.symm _ _
    refine (hs.dirs d' hd').append rfl ?_ (fun hdirn => absurd hdirn hne) (fun hdirn => absurd hdirn hne) fun n => ?_
    · simpa [hmaps] using (hs.dirs d' hd').map
    · simp [hmaps, diskEntry, hne]

lemma rebuildKnown_good_iff (cfg : Config Key) (hs : Good ufs s) (hd : d ∈ ufs) (hran : 0 ≤ r.swapFilen ∧ r.swapFilen < 2 ^ 24)
    (hsha : ebitTest r.flags .keyPrivate = false) (hi : s.slot i = some e) (hkey : e.key = .inl r.key) :
    ∃ s', rebuildKnown cfg d r i s = .ok s' ∧ (Good ufs s' ↔
      ¬(fileMapBitTest (s.maps d) r.swapFilen = false ∧ e.lastref < r.lastref ∧ storeEntryLocked e = true ∧
        ebitTest e.flags .releaseRequest = true)) := by
  rw [rebuildKnown, entryAt_eq hi, ok_bind]
  split_ifs with hold hused hsame
  · exact ⟨s, rfl, fun _ h => absurd hold (not_le.2 h.2.1), fun _ => hs⟩
  · -- the record of the file itself
    refine ⟨_, rfl, fun _ h => absurd (hused.symm.trans h.1) (by simp), fun _ => ⟨?_, fun d' hd' => ?_⟩⟩
    · refine hs.keys.set hi (slot_set hi rfl) (fun x hx => ?_) le_rfl
      obtain rfl := some.inj hx
      exact .inl ⟨rfl, rfl, hsha.trans (hs.keys.shared i e _ hi hkey).symm⟩
    · exact (hs.dirs d' hd').keep hi (slot_set hi rfl) rfl rfl rfl
  · exact ⟨s, rfl, fun _ h => absurd (hused.symm.trans h.1) (by simp), fun _ => hs⟩
  · have hfree : fileMapBitTest (s.maps d) r.swapFilen = false := by simpa using hused
    have hnewe : e.lastref < r.lastref := not_le.1 hold
    by_cases hcla : storeEntryLocked e = true ∧ ebitTest e.flags .releaseRequest = true
    · -- the old entry stays, so the new one is the second with its key
      rw [storeRecycle_of_requested cfg hi hcla.1 hcla.2]
      obtain ⟨fm, hset, -⟩ := (hs.dirs d hd).map.set hran.2
      refine ⟨_, addDiskRestore_eq hset, fun hgood => ?_, fun h => absurd ⟨hfree, hnewe, hcla⟩ h⟩
      obtain ⟨hlt, -⟩ := List.getElem?_eq_some_iff.1 (slot_eq_some.1 hi)
      have hentr : ({ s with maps := update s.maps d fm, entries := s.entries ++ [some (diskEntry d r)] } :
          State Key).entries = s.entries ++ [some (diskEntry d r)] := rfl
      have hold := (slot_append hentr i).trans ((if_neg hlt.ne).trans hi)
      have hnew := (slot_append hentr _).trans (if_pos rfl)
      have hlast := hgood.keys.distinct i _ e _ hold hnew hkey
      omega
    · obtain ⟨s₁, a, heq, hrec, -⟩ := storeRecycle_recycled cfg hi
      have hs₁ : Good ufs s₁ := ⟨hrec.keysOk hi hs.keys, fun d' hd' => hrec.dirOk hi (hs.dirs d' hd')⟩
      have hnew : ∀ j x, s₁.slot j = some x → x.key ≠ .inl r.key := by
        intro j x hx hxkey
        rw [slot_set hi hrec.entries] at hx
        split_ifs at hx with hj
        · have hpriv := hrec.gone hcla (hs.keys.shared i e _ hi hkey) x hx
          rw [hxkey] at hpriv
          cases hpriv
        · exact hj (hs.keys.distinct j i x e hx hi (hxkey.trans hkey.symm))
      obtain ⟨s₂, hadd, hs₂⟩ := hs₁.addDiskRestore hd hran (hrec.unmarked hfree) hnew
      rw [heq]
      exact ⟨s₂, hadd, fun _ h => hcla h.2.2, fun _ => hs₂⟩

variable [DecidableEq Key]

lemma storeGet_eq_some {key : Key} (h : storeGet s key = some i) : ∃ e, s.slot i = some e ∧ e.key = .inl key := by
  obtain ⟨hlt, hany, -⟩ := findIdx?_eq_some_iff_getElem.1 h
  cases he : s.entries[i] with
  | none => simp [he] at hany
  | some e => exact ⟨e, slot_eq_some.2 (List.getElem?_eq_some_iff.2 ⟨hlt, he⟩), by simpa [he] using hany⟩

lemma storeGet_eq_none {key : Key} (h : storeGet s key = none) (j : ℕ) (x : StoreEntry Key) (hx : s.slot j = some x) :
    x.key ≠ .inl key := by
  have hany := findIdx?_eq_none_iff.1 h _ (mem_of_getElem? (slot_eq_some.1 hx))
  simpa using hany

/-- A newer record of another file, for an entry that is locked and marked for release. -/
def Clash (d : ℕ) (r : SwapLogData Key) (s : State Key) : Prop :=
  r.op = .add ∧ ebitTest r.flags .keyPrivate = false ∧ fileMapBitTest (s.maps d) r.masked.swapFilen = false ∧
    ∃ i e, storeGet s r.key = some i ∧ s.slot i = some e ∧ e.lastref < r.lastref ∧
      storeEntryLocked e = true ∧ ebitTest e.flags .releaseRequest = true

lemma rebuildRecord_good_iff (cfg : Config Key) (hs : Good ufs s) (hd : d ∈ ufs) (r : SwapLogData Key) :
    ∃ s', rebuildRecord cfg d r s = .ok s' ∧ (Good ufs s' ↔ ¬Clash d r s) := by
  have hran : 0 ≤ r.masked.swapFilen ∧ r.masked.swapFilen < 2 ^ 24 :=
    ⟨Int.emod_nonneg _ (by decide), Int.emod_lt_of_pos _ (by decide)⟩
  unfold rebuildRecord Clash
  cases hop : r.op with
  | nop => exact ⟨s, rfl, by simp, fun _ => hs⟩
  | max => exact ⟨s, rfl, by simp, fun _ => hs⟩
  | del =>
    have hgood : ∃ s', rebuildDel cfg r s = .ok s' ∧ Good ufs s' := by
      unfold rebuildDel
      cases hget : storeGet s r.key with
      | none => exact ⟨s, rfl, hs⟩
      | some i =>
        obtain ⟨e, hi, -⟩ := storeGet_eq_some hget
        simp only [entryAt_eq hi, ok_bind]
        split_ifs
        · exact hs.recycle cfg hi
        · exact ⟨s, rfl, hs⟩
    obtain ⟨s', heq, hs'⟩ := hgood
    exact ⟨s', heq, by simp, fun _ => hs'⟩
  | add =>
    have hval : storeUfsDirValidFileno (s.maps d) r.masked.swapFilen false = true := by
      simp [storeUfsDirValidFileno, hran.1]
    simp only [true_and]
    split_ifs with hpriv
    · exact ⟨s, rfl, fun _ h => absurd (hpriv.symm.trans h.1) (by simp), fun _ => hs⟩
    · have hsha : ebitTest r.flags .keyPrivate = false := by simpa using hpriv
      unfold rebuildAdd
      cases hget : storeGet s r.masked.key with
      | none =>
        have hget' : storeGet s r.key = none := hget
        have hgood : ∃ s', (if fileMapBitTest (s.maps d) r.masked.swapFilen then .ok s else storeUfsDirAddDiskRestore d r.masked s) =
            .ok s' ∧ Good ufs s' := by
          split_ifs with hused
          · exact ⟨s, rfl, hs⟩
          · exact hs.addDiskRestore hd hran (by simpa using hused) (storeGet_eq_none hget)
        obtain ⟨s', heq, hs'⟩ := hgood
        exact ⟨s', heq, by simp [hget'], fun _ => hs'⟩
      | some i =>
        have hget' : storeGet s r.key = some i := hget
        obtain ⟨e, hi, hkey⟩ := storeGet_eq_some hget
        obtain ⟨s', heq, hgood⟩ := rebuildKnown_good_iff cfg hs hd hran hsha hi hkey
        refine ⟨s', heq, hgood.trans (not_congr ?_)⟩
        constructor
        · rintro ⟨hfree, hcla⟩
          exact ⟨hsha, hfree, i, e, hget', hi, hcla⟩
        · rintro ⟨-, hfree, j, x, hj, hx, hcla⟩
          obtain rfl := some.inj (hget'.symm.trans hj)
          obtain rfl := some.inj (hi.symm.trans hx)
          exact ⟨hfree, hcla⟩

/-! ## Logs -/

/-- The records of a log, one after the other. -/
def replay (cfg : Config Key) (d : ℕ) (log : List (SwapLogData Key)) (s : State Key) : Exec (State Key) :=
  log.foldlM (fun s r => rebuildRecord cfg d r s) s

lemma replay_cons {s₁ : State Key} (h : rebuildRecord cfg d r s = .ok s₁) (log : List (SwapLogData Key)) :
    replay cfg d (r :: log) s = replay cfg d log s₁ := by
  rw [replay, foldlM_cons, h]
  rfl

/-- After every record of a log the keys and the file numbers are as they should be, exactly if no record clashes. -/
theorem replay_good_iff (cfg : Config Key) (hs : Good ufs s) (hd : d ∈ ufs) (log : List (SwapLogData Key)) :
    (∀ read, read <+: log → ∃ s', replay cfg d read s = .ok s' ∧ Good ufs s') ↔
      ∀ read r, read ++ [r] <+: log → ∀ s', replay cfg d read s = .ok s' → ¬Clash d r s' := by
  induction log generalizing s with
  | nil =>
    refine ⟨fun _ read r hread => absurd (prefix_nil.1 hread) (by simp), fun _ read hread => ?_⟩
    rw [prefix_nil.1 hread]
    exact ⟨s, rfl, hs⟩
  | cons r log ih =>
    obtain ⟨s₁, hs₁, hgood⟩ := rebuildRecord_good_iff cfg hs hd r
    constructor
    · intro h
      have hfir : Good ufs s₁ := by
        obtain ⟨s', heq, hs'⟩ := h [r] (by simp)
        rw [replay_cons hs₁] at heq
        obtain rfl := Except.ok.inj heq
        exact hs'
      have hrest := (ih hfir).1 fun read hread => by
        obtain ⟨s', heq, hs'⟩ := h _ ((prefix_cons_inj r).2 hread)
        exact ⟨s', (replay_cons hs₁ read).symm.trans heq, hs'⟩
      intro read x hread s' heq
      cases read with
      | nil =>
        obtain rfl := Except.ok.inj heq
        obtain ⟨rfl, -⟩ := cons_prefix_cons.1 hread
        exact hgood.1 hfir
      | cons y read =>
        obtain ⟨rfl, htail⟩ := cons_prefix_cons.1 hread
        exact hrest read x htail s' ((replay_cons hs₁ read).symm.trans heq)
    · intro h
      have hfir : Good ufs s₁ := hgood.2 (h [] r (by simp) s rfl)
      have hrest := (ih hfir).2 fun read x hread s' heq =>
        h _ x ((prefix_cons_inj r).2 hread) s' ((replay_cons hs₁ read).trans heq)
      intro read hread
      cases read with
      | nil => exact ⟨s, rfl, hs⟩
      | cons y read =>
        obtain ⟨rfl, htail⟩ := cons_prefix_cons.1 hread
        obtain ⟨s', heq, hs'⟩ := hrest read htail
        exact ⟨s', (replay_cons hs₁ read).trans heq, hs'⟩

/-- The second record marks the entry of the first as special and released, the third is of another file. -/
def releasedLog : List (SwapLogData ℕ) := [⟨.add, 3, 1, 1, -1, 1, 100, 1, 0, 7⟩,
    ⟨.add, 3, 2, 2, -1, 1, 100, 1, ebitSet (ebitSet 0 .entrySpecial) .releaseRequest, 7⟩,
    ⟨.add, 4, 3, 3, -1, 1, 100, 1, 0, 7⟩]

theorem replay_good_twoRecords :
    (∀ read, read <+: releasedLog.take 2 → ∃ s', replay oneDirectory 0 read (.init oneDirectory) = .ok s' ∧ Good {0} s') ↔
      ∀ read r, read ++ [r] <+: releasedLog.take 2 → ∀ s', replay oneDirectory 0 read (.init oneDirectory) = .ok s' →
        ¬Clash 0 r s' :=
  replay_good_iff _ (good_init _ {0}) rfl _

/-- Two entries have the same key. -/
theorem not_good_releasedLog : ∃ s', replay oneDirectory 0 releasedLog (.init oneDirectory) = .ok s' ∧
    ∃ e e', s'.slot 0 = some e ∧ s'.slot 1 = some e' ∧ e.key = e'.key := by
  have hkeys : (replay oneDirectory 0 releasedLog (.init oneDirectory)).map
      (fun s => ((s.slot 0).map StoreEntry.key, (s.slot 1).map StoreEntry.key)) = .ok (some (.inl 7), some (.inl 7)) := by
    decide +kernel
  cases hrun : replay oneDirectory 0 releasedLog (.init oneDirectory) with
  | error f =>
    rw [hrun] at hkeys
    cases hkeys
  | ok s' =>
    rw [hrun] at hkeys
    obtain ⟨hfir, hsec⟩ := Prod.mk.inj (Except.ok.inj hkeys)
    obtain ⟨e, he, hkey⟩ := map_eq_some_iff.1 hfir
    obtain ⟨e', he', hkey'⟩ := map_eq_some_iff.1 hsec
    exact ⟨s', rfl, e, e', he, he', hkey.trans hkey'.symm⟩

end SquidVideoCache.SwapSize
