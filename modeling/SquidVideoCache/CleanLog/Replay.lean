import SquidVideoCache.CleanLog.Write
import Mathlib.Algebra.Order.BigOperators.Group.Finset
import Mathlib.Tactic.NormNum

/-!
# Clean logs are read back

While clean logs are read, the index has the entries whose records have been read and each file map
their file numbers. Keys and file numbers are unique, so a record always finds its key new and its
file number free and is loaded, whatever the order of the events of the directories.
-/

namespace SquidVideoCache.CleanLog
open Lib Function List Except

variable {Key : Type} {flags : Flags} {f g : EntryFlag} {e x y : StoreEntry Key} {ix : Index Key} {d : ℕ}
  {fm fm' : FileMap} {k : ℕ} {n : ℤ} {p : ℤ → Prop} {rest : List (StoreEntry Key)} {rb : RebuildState Key}

/-! ## Flags -/

lemma ebitTest_ebitSet_of_ne (h : f.bit ≠ g.bit) : ebitTest (ebitSet flags f) g = ebitTest flags g := by
  simp [ebitTest, ebitSet, h]

lemma ebitTest_ebitClr_of_ne (h : f.bit ≠ g.bit) : ebitTest (ebitClr flags f) g = ebitTest flags g := by
  have hg : g.bit < 16 := by cases g <;> decide
  simp [ebitTest, ebitClr, h.symm, hg]

lemma ebitTest_ebitClr_self (flags : Flags) (f : EntryFlag) : ebitTest (ebitClr flags f) f = false := by
  simp [ebitTest, ebitClr]

lemma ebitClr_of_not (h : ebitTest flags f = false) : ebitClr flags f = flags := by
  refine BitVec.eq_of_getLsbD_eq fun i hi => ?_
  by_cases hfi : f.bit = i
  · subst hfi
    exact (ebitTest_ebitClr_self flags f).trans h.symm
  · simp [ebitClr, Ne.symm hfi, hi]

/-! ## The entries that are written -/

lemma written_iff : written e = true ↔ 0 ≤ e.swapFilen ∧ e.swapStatus = .done ∧ 0 < e.swapFileSz ∧
    ebitTest e.flags .releaseRequest = false ∧ ebitTest e.flags .keyPrivate = false ∧
    ebitTest e.flags .entrySpecial = false := by
  unfold written
  split_ifs <;> simp_all

/-- What becomes of an entry that is written and read back. -/
def restored (e : StoreEntry Key) : StoreEntry Key := diskEntry e.swapDirn.toNat (swapLogData .add e)

lemma restored_flags (h : written e = true) :
    (restored e).flags = ebitClr (ebitSet e.flags .entryCachable) .entryValidated := by
  obtain ⟨-, -, -, hrel, hpriv, -⟩ := written_iff.1 h
  have hrel' : ebitTest (ebitSet e.flags .entryCachable) .releaseRequest = false := by
    rw [ebitTest_ebitSet_of_ne (by decide), hrel]
  have hpriv' : ebitTest (ebitSet e.flags .entryCachable) .keyPrivate = false := by
    rw [ebitTest_ebitSet_of_ne (by decide), hpriv]
  show ebitClr (ebitClr (ebitClr (ebitSet e.flags .entryCachable) .releaseRequest) .keyPrivate) .entryValidated = _
  rw [ebitClr_of_not hrel', ebitClr_of_not hpriv']

lemma Index.mem_selected (hd : d < ix.nConfigured) :
    x ∈ ix.selected d ↔ x ∈ ix.entries ∧ x.swapDirn = d ∧ written x = true := by
  rw [Index.selected, mem_filter, (ix.walks d hd).mem_iff, mem_filter, decide_eq_true_iff, and_assoc]

lemma Index.nodup (ix : Index Key) : ix.entries.Nodup := List.Nodup.of_map _ ix.keys

lemma Index.nodup_selected (hd : d < ix.nConfigured) : (ix.selected d).Nodup :=
  ((ix.walks d hd).nodup_iff.2 (ix.nodup.filter _)).filter _

lemma Index.eq_of_key_eq (ix : Index Key) (hx : x ∈ ix.entries) (hy : y ∈ ix.entries) (h : x.key = y.key) : x = y :=
  inj_on_of_nodup_map ix.keys hx hy h

/-! ## File maps -/

/-- The size of a map is one that growing can give, and it has the file numbers of some entries. -/
structure Mapped (p : ℤ → Prop) (fm : FileMap) : Prop where
  size : ∃ j ≤ 10, fm.maxNFiles = 2 ^ (14 + j)
  bits : ∀ n, fm.bits n = true ↔ p n

lemma fileMapGrowTo_eq {j : ℕ} (hn : n < 2 ^ 24) (hj : j ≤ 10) (hfm : fm.maxNFiles = 2 ^ (14 + j))
    (hk : 10 - j < k) : ∃ i ≤ 10, fileMapGrowTo n k fm = .ok { fm with maxNFiles := 2 ^ (14 + i) } := by
  induction k generalizing fm j with
  | zero => exact absurd hk (Nat.not_lt_zero _)
  | succ k ih =>
    rw [fileMapGrowTo]
    split_ifs with hsma
    · have hlt : j ≠ 10 := by
        rintro rfl
        rw [hfm] at hsma
        exact absurd (hsma.trans_lt hn) (lt_irrefl _)
      have hdou : fm.maxNFiles * 2 = 2 ^ (14 + (j + 1)) := by
        rw [hfm, ← Nat.add_assoc, pow_succ]
      have hassert : fm.maxNFiles * 2 ≤ filemapMaxSize := by
        rw [hdou]
        exact pow_le_pow_right₀ (by norm_num) (by omega)
      rw [fileMapGrow, cAssert_pos hassert]
      exact ih (by omega) hdou (by omega)
    · exact ⟨j, hj, by rw [← hfm]⟩

lemma fileMapGrowTo_bounds (h : fileMapGrowTo n k fm = .ok fm') : n < fm'.maxNFiles ∧
    (0 ≤ fm.maxNFiles → fm.maxNFiles ≤ fm'.maxNFiles) ∧
    (fm.maxNFiles ≤ filemapMaxSize → fm'.maxNFiles ≤ filemapMaxSize) := by
  induction k generalizing fm with
  | zero => exact absurd h (by simp [fileMapGrowTo])
  | succ k ih =>
    rw [fileMapGrowTo] at h
    split_ifs at h with hsma
    · obtain ⟨grown, hgro, h⟩ := bind_eq_ok.mp h
      rw [fileMapGrow, bind_eq_ok] at hgro
      obtain ⟨_, hassert, hgro⟩ := hgro
      obtain rfl := ok.inj hgro
      obtain ⟨hlt, hle, hmax⟩ := ih h
      refine ⟨hlt, fun hpos => ?_, fun _ => hmax (cAssert_eq_ok.1 hassert)⟩
      have hdou : fm.maxNFiles ≤ fm.maxNFiles * 2 := by omega
      exact hdou.trans (hle (hpos.trans hdou))
    · obtain rfl := ok.inj h
      exact ⟨not_le.mp hsma, fun _ => le_rfl, id⟩

lemma fileMapBitTest_of_set (h : fileMapBitSet fm n = .ok fm') : fileMapBitTest fm' n = true := by
  rw [fileMapBitSet, bind_eq_ok] at h
  obtain ⟨grown, hgro, h⟩ := h
  obtain rfl := ok.inj h
  have hlt := (fileMapGrowTo_bounds hgro).1
  rw [fileMapBitTest, if_neg hlt.not_ge]
  exact update_self _ _ _

lemma Mapped.set (h : Mapped p fm) (hn : n < 2 ^ 24) :
    ∃ fm', fileMapBitSet fm n = .ok fm' ∧ Mapped (fun i => i = n ∨ p i) fm' := by
  obtain ⟨j, hj, hsize⟩ := h.size
  obtain ⟨i, hi, hgrow⟩ := fileMapGrowTo_eq hn hj hsize (k := 12) (by omega)
  refine ⟨{ maxNFiles := 2 ^ (14 + i), bits := update fm.bits n true }, ?_, ⟨i, hi, rfl⟩, ?_⟩
  · rw [fileMapBitSet, hgrow]
    rfl
  · intro m
    by_cases hm : m = n
    · simp [hm]
    · simp [hm, h.bits m]

lemma Mapped.test (h : Mapped p fm) (hn : ¬ p n) : fileMapBitTest fm n = false := by
  unfold fileMapBitTest
  split_ifs
  · rfl
  · rw [← Bool.not_eq_true, h.bits n]
    exact hn

lemma Mapped.congr {q : ℤ → Prop} (h : Mapped p fm) (hpq : ∀ n, p n ↔ q n) : Mapped q fm :=
  ⟨h.size, fun n => (h.bits n).trans (hpq n)⟩

/-- A map of a size that growing can give, without bits beyond it. -/
structure MapOk (fm : FileMap) : Prop where
  size : ∃ j ≤ 10, fm.maxNFiles = 2 ^ (14 + j)
  within : ∀ n, fm.bits n = true → n < fm.maxNFiles

lemma mapOk_create : MapOk fileMapCreate := ⟨⟨0, by decide, rfl⟩, fun _ h => absurd h (by simp [fileMapCreate])⟩

lemma MapOk.test (h : MapOk fm) (n : ℤ) : fileMapBitTest fm n = fm.bits n := by
  unfold fileMapBitTest
  split_ifs with hle
  · cases hbit : fm.bits n with
    | false => rfl
    | true => exact absurd (h.within n hbit) hle.not_gt
  · rfl

lemma MapOk.set (h : MapOk fm) (hn : n < 2 ^ 24) : ∃ fm', fileMapBitSet fm n = .ok fm' ∧ MapOk fm' ∧
      ∀ m, fileMapBitTest fm' m = true ↔ m = n ∨ fileMapBitTest fm m = true := by
  obtain ⟨fm', hset, hmapp⟩ := Mapped.set ⟨h.size, fun _ => Iff.rfl⟩ hn
  have hok : MapOk fm' := by
    refine ⟨hmapp.size, fun m hm => ?_⟩
    rw [fileMapBitSet, bind_eq_ok] at hset
    obtain ⟨grown, hgro, hset⟩ := hset
    obtain rfl := ok.inj hset
    obtain ⟨j, -, hsize⟩ := h.size
    have hpos : 0 ≤ fm.maxNFiles := by
      rw [hsize]
      positivity
    obtain ⟨hlt, hle, -⟩ := fileMapGrowTo_bounds hgro
    rcases (hmapp.bits m).1 hm with rfl | hold
    · exact hlt
    · exact (h.within m hold).trans_le (hle hpos)
  refine ⟨fm', hset, hok, fun m => ?_⟩
  rw [hok.test, h.test]
  exact hmapp.bits m

lemma MapOk.lt_of_set (h : MapOk fm) (hset : fileMapBitSet fm n = .ok fm') : n < 2 ^ 24 := by
  rw [fileMapBitSet, bind_eq_ok] at hset
  obtain ⟨grown, hgro, -⟩ := hset
  obtain ⟨j, hj, hsize⟩ := h.size
  have hmax : fm.maxNFiles ≤ filemapMaxSize := by
    rw [hsize]
    exact pow_le_pow_right₀ (by norm_num) (by omega)
  obtain ⟨hlt, -, hle⟩ := fileMapGrowTo_bounds hgro
  exact hlt.trans_le (hle hmax)

lemma unmarked_reset {m : ℤ} (h : fileMapBitTest fm m = false) (n : ℤ) :
    fileMapBitTest (storeUfsDirMapBitReset fm n) m = false := by
  unfold storeUfsDirMapBitReset
  split_ifs
  · by_cases hm : m = n
    · simp [fileMapBitTest, fileMapBitReset, hm]
    · simpa [fileMapBitTest, fileMapBitReset, hm] using h
  · exact h

lemma MapOk.reset (h : MapOk fm) (n : ℤ) : MapOk (storeUfsDirMapBitReset fm n) ∧
      ∀ m, fileMapBitTest (storeUfsDirMapBitReset fm n) m = true ↔ m ≠ n ∧ fileMapBitTest fm m = true := by
  unfold storeUfsDirMapBitReset
  split_ifs with hset
  · have hok : MapOk (fileMapBitReset fm n) := by
      refine ⟨h.size, fun m hm => h.within m ?_⟩
      by_cases hmn : m = n
      · simp [fileMapBitReset, hmn] at hm
      · simpa [fileMapBitReset, hmn] using hm
    refine ⟨hok, fun m => ?_⟩
    rw [hok.test, h.test]
    by_cases hmn : m = n
    · simp [fileMapBitReset, hmn]
    · simp [fileMapBitReset, hmn]
  · refine ⟨h, fun m => ⟨fun hm => ⟨?_, hm⟩, fun hm => hm.2⟩⟩
    rintro rfl
    exact hset hm

/-! ## One record -/

/-- What an event still has to read of the records of some entries. -/
def Reads (todo : List (StoreEntry Key)) : RebuildState Key → Prop
  | ⟨.checkVersion, log⟩ => log = storeUfsWriteSwapLogheader :: records todo
  | ⟨.swapLog, log⟩ => log = records todo
  | ⟨.complete, _⟩ => todo = []

structure Replayed (ix : Index Key) (loaded : List (StoreEntry Key)) (s : State Key) : Prop where
  index : s.index = loaded.map restored
  nodup : loaded.Nodup
  selected : ∀ x ∈ loaded, ∃ d < ix.nConfigured, x ∈ ix.selected d
  reads : ∀ d < ix.nConfigured, ∃ todo, Reads todo (s.rebuilds d) ∧ todo.Nodup ∧
    ∀ x, x ∈ todo ↔ x ∈ ix.selected d ∧ x ∉ loaded
  maps : ∀ d < ix.nConfigured, Mapped (fun n => ∃ x ∈ loaded, x.swapDirn = d ∧ x.swapFilen = n) (s.maps d)

variable {loaded : List (StoreEntry Key)} {s s' : State Key}

lemma Replayed.entry (h : Replayed ix loaded s) (hx : x ∈ loaded) : x ∈ ix.entries := by
  obtain ⟨d, hd, hsel⟩ := h.selected x hx
  exact ((Index.mem_selected hd).1 hsel).1

lemma Replayed.file_new (h : Replayed ix loaded s) (hd : d < ix.nConfigured) (hx : x ∈ ix.selected d) (hnew : x ∉ loaded) :
    fileMapBitTest (s.maps d) x.swapFilen = false := by
  obtain ⟨hentr, hdirn, hwri⟩ := (Index.mem_selected hd).1 hx
  refine (h.maps d hd).test ?_
  rintro ⟨y, hy, hydi, hyfi⟩
  have hfile : 0 ≤ y.swapFilen := hyfi ▸ (written_iff.1 hwri).1
  have hyx : y = x := ix.files y (h.entry hy) x hentr (hydi.trans hdirn.symm) hyfi hfile
  exact hnew (hyx ▸ hy)

lemma masked_of_selected (hd : d < ix.nConfigured) (hx : x ∈ ix.selected d) :
    (swapLogData .add x).masked = swapLogData .add x := by
  obtain ⟨hentr, -, hwri⟩ := (Index.mem_selected hd).1 hx
  have hmod : x.swapFilen % 2 ^ 24 = x.swapFilen := Int.emod_eq_of_lt (written_iff.1 hwri).1 (ix.bounded x hentr)
  show { swapLogData .add x with swapFilen := x.swapFilen % 2 ^ 24 } = _
  rw [hmod]
  rfl

/-- An entry that is loaded is not private and has a file, so that the new log takes it. -/
theorem storeDirSwapLog_diskEntry (r : SwapLogData Key) (hr : 0 ≤ r.swapFilen) :
    ∃ newLogs, storeDirSwapLog (diskEntry d r) .add s = .ok { s with newLogs := newLogs } := by
  have hpriv : ebitTest (diskEntry d r).flags .keyPrivate = false := by
    rw [diskEntry, ebitTest_ebitClr_of_ne (by decide), ebitTest_ebitClr_self]
  rw [storeDirSwapLog, cAssert_pos hpriv, cAssert_pos (show 0 ≤ (diskEntry d r).swapFilen from hr)]
  split_ifs
  · exact ⟨s.newLogs, rfl⟩
  · exact ⟨_, rfl⟩

lemma Replayed.load (h : Replayed ix loaded s) (rb : RebuildState Key)
    (newLogs : ℕ → List (LogRecord Key)) (hd : d < ix.nConfigured) (hx : x ∈ ix.selected d) (hnew : x ∉ loaded) (hrb : Reads rest rb)
    (hnod : rest.Nodup) (hrest : ∀ y, y ∈ rest ↔ y ∈ ix.selected d ∧ y ∉ x :: loaded)
    (hfm : Mapped (fun n => n = x.swapFilen ∨ ∃ y ∈ loaded, y.swapDirn = d ∧ y.swapFilen = n) fm) :
    Replayed ix (x :: loaded) ⟨restored x :: s.index, update s.rebuilds d rb, update s.maps d fm, newLogs⟩ := by
  have hdirn : x.swapDirn = d := ((Index.mem_selected hd).1 hx).2.1
  have hoth : ∀ i, i ≠ d → x.swapDirn ≠ i := fun i hi h => hi (by omega)
  refine ⟨by rw [h.index, map_cons], nodup_cons.2 ⟨hnew, h.nodup⟩, ?_, ?_, ?_⟩
  · intro y hy
    rcases mem_cons.1 hy with rfl | hy
    · exact ⟨d, hd, hx⟩
    · exact h.selected y hy
  · intro i hi
    show ∃ todo, Reads todo (update s.rebuilds d rb i) ∧ _
    by_cases hid : i = d
    · subst hid
      rw [update_self]
      exact ⟨rest, hrb, hnod, hrest⟩
    · obtain ⟨todo, hrea, htodo, hmem⟩ := h.reads i hi
      rw [update_of_ne hid]
      refine ⟨todo, hrea, htodo, fun y => (hmem y).trans (and_congr_right fun hy => ?_)⟩
      -- The entry is in another directory.
      have hne : y ≠ x := by
        rintro rfl
        exact hoth i hid ((Index.mem_selected hi).1 hy).2.1
      simp [hne]
  · intro i hi
    show Mapped _ (update s.maps d fm i)
    by_cases hid : i = d
    · subst hid
      rw [update_self]
      refine hfm.congr fun n => ?_
      simp [hdirn, eq_comm]
    · rw [update_of_ne hid]
      refine (h.maps i hi).congr fun n => ?_
      simp [hoth i hid]

/-! ## What is left to read -/

def turnsLeft (rb : RebuildState Key) : ℕ :=
  match rb.func with
  | .checkVersion => rb.log.length + 1
  | .swapLog => rb.log.length + 1
  | .complete => 0

lemma Replayed.setRebuild {todo : List (StoreEntry Key)} (h : Replayed ix loaded s)
    (hd : d < ix.nConfigured) (hrb : Reads todo rb) (hnod : todo.Nodup)
    (hmem : ∀ x, x ∈ todo ↔ x ∈ ix.selected d ∧ x ∉ loaded) : Replayed ix loaded (s.setRebuild d rb) := by
  refine ⟨h.index, h.nodup, h.selected, ?_, h.maps⟩
  intro i hi
  show ∃ todo, Reads todo (update s.rebuilds d rb i) ∧ _
  by_cases hid : i = d
  · subst hid
    rw [update_self]
    exact ⟨todo, hrb, hnod, hmem⟩
  · rw [update_of_ne hid]
    exact h.reads i hi

def eventsLeft (nConfigured : ℕ) (s : State Key) : ℕ := ∑ d ∈ Finset.range nConfigured, turnsLeft (s.rebuilds d)

lemma turnsLeft_pos (h : rb.func ≠ .complete) : 0 < turnsLeft rb := by
  unfold turnsLeft
  split
  · exact Nat.succ_pos _
  · exact Nat.succ_pos _
  next hcmp => exact absurd hcmp h

/-- An event of a directory leaves the other directories alone and has read something. -/
def Stepped (ix : Index Key) (d k : ℕ) (s s' : State Key) : Prop :=
  ∃ loaded rb, Replayed ix loaded s' ∧ s'.rebuilds = update s.rebuilds d rb ∧
    turnsLeft rb ≤ turnsLeft (s.rebuilds d) - k

lemma Stepped.eventsLeft_lt (h : Stepped ix d 1 s s') (he : enabled ix.nConfigured s d) :
    eventsLeft ix.nConfigured s' < eventsLeft ix.nConfigured s := by
  rw [enabled, Bool.and_eq_true, decide_eq_true_iff, decide_eq_true_iff] at he
  obtain ⟨loaded, rb, -, hrebu, hle⟩ := h
  have hpos := turnsLeft_pos he.2
  refine Finset.sum_lt_sum (fun i _ => ?_) ⟨d, Finset.mem_range.2 he.1, ?_⟩
  · rw [hrebu]
    by_cases hid : i = d
    · subst hid
      rw [update_self]
      omega
    · rw [update_of_ne hid]
  · rw [hrebu, update_self]
    omega

lemma replayed_init {logs : ℕ → List (LogRecord Key)} (hlogs : ∀ d < ix.nConfigured, logs d = ix.cleanLog d) :
    Replayed ix [] (State.init logs) := by
  refine ⟨rfl, nodup_nil, fun x hx => absurd hx not_mem_nil, ?_, ?_⟩
  · intro d hd
    exact ⟨ix.selected d, hlogs d hd, Index.nodup_selected hd, by simp⟩
  · intro d _
    exact ⟨⟨0, Nat.zero_le _, rfl⟩, by simp [State.init, fileMapCreate]⟩

lemma Replayed.perm (h : Replayed ix loaded s) (hdone : ∀ d, enabled ix.nConfigured s d = false) :
    ((ix.entries.filter written).map restored).Perm s.index := by
  rw [h.index]
  refine List.Perm.map _ ((perm_ext_iff_of_nodup (ix.nodup.filter _) h.nodup).2 fun x => ?_)
  rw [mem_filter]
  constructor
  · rintro ⟨hentr, hwri⟩
    obtain ⟨d, hd, hdirn⟩ := ix.placed x hentr (written_iff.1 hwri).1
    obtain ⟨todo, hrea, -, hmem⟩ := h.reads d hd
    have hcmp : (s.rebuilds d).func = .complete := by
      have hoff := hdone d
      rw [enabled, decide_eq_true hd, Bool.true_and, decide_eq_false_iff_not, not_not] at hoff
      exact hoff
    have hnil : todo = [] := by
      cases hcas : s.rebuilds d with
      | mk func log =>
        rw [hcas] at hcmp hrea
        cases hcmp
        exact hrea
    by_contra hnew
    have hx := (hmem x).2 ⟨(Index.mem_selected hd).2 ⟨hentr, hdirn, hwri⟩, hnew⟩
    rw [hnil] at hx
    exact absurd hx not_mem_nil
  · intro hx
    obtain ⟨d, hd, hsel⟩ := h.selected x hx
    obtain ⟨hentr, -, hwri⟩ := (Index.mem_selected hd).1 hsel
    exact ⟨hentr, hwri⟩

/-- The fields of an entry that its record has, apart from the flags, and its directory. -/
structure SameMeta (x y : StoreEntry Key) : Prop where
  key : y.key = x.key
  swapFilen : y.swapFilen = x.swapFilen
  swapDirn : y.swapDirn = x.swapDirn
  swapFileSz : y.swapFileSz = x.swapFileSz
  timestamp : y.timestamp = x.timestamp
  lastref : y.lastref = x.lastref
  expires : y.expires = x.expires
  lastmod : y.lastmod = x.lastmod
  refcount : y.refcount = x.refcount

/-- The entries of `new` are those of `old` that are eligible, each with flags that the relation allows. -/
def Recreated (eligible : StoreEntry Key → Bool) (flags : Flags → Flags → Prop) (old new : List (StoreEntry Key)) : Prop :=
  ∃ l, l.Perm new ∧ List.Forall₂ (fun x y => SameMeta x y ∧ flags x.flags y.flags) (old.filter eligible) l

lemma restored_sameMeta (hx : x ∈ ix.entries) (h : written x = true) : SameMeta x (restored x) := by
  obtain ⟨d, -, hdirn⟩ := ix.placed x hx (written_iff.1 h).1
  refine ⟨rfl, rfl, ?_, rfl, rfl, rfl, rfl, rfl, rfl⟩
  show ((x.swapDirn.toNat : ℕ) : ℤ) = x.swapDirn
  rw [hdirn, Int.toNat_natCast]

lemma Replayed.recreated (h : Replayed ix loaded s) (hdone : ∀ d, enabled ix.nConfigured s d = false) :
    Recreated written (fun f g => g = ebitClr (ebitSet f .entryCachable) .entryValidated) ix.entries s.index := by
  refine ⟨_, h.perm hdone, List.forall₂_map_right_iff.2 (List.forall₂_same.2 fun x hx => ?_)⟩
  obtain ⟨hentr, hwri⟩ := mem_filter.1 hx
  exact ⟨restored_sameMeta hentr hwri, restored_flags hwri⟩

/-! ## The next record -/

variable [DecidableEq Key] {cfg : Config}

section

variable (h : Replayed ix loaded s) (hd : d < ix.nConfigured) (hx : x ∈ ix.selected d) (hnew : x ∉ loaded)

include h hd hx hnew

lemma Replayed.key_new : storeGet s x.key = none := by
  rw [storeGet, h.index, find?_eq_none]
  intro y hy
  obtain ⟨z, hz, rfl⟩ := mem_map.1 hy
  rw [decide_eq_true_iff]
  intro hkey
  have hzx : z = x := ix.eq_of_key_eq (h.entry hz) ((Index.mem_selected hd).1 hx).1 hkey
  exact hnew (hzx ▸ hz)

lemma Replayed.rebuildRecord_eq (rb : RebuildState Key) : rebuildRecord cfg d (s.setRebuild d rb) (.data (swapLogData .add x)) =
      loadNew d (swapLogData .add x) (s.setRebuild d rb) := by
  obtain ⟨hfile, -, -, -, hpriv, -⟩ := written_iff.1 ((Index.mem_selected hd).1 hx).2.2
  have hkey : storeGet (s.setRebuild d rb) (swapLogData .add x).key = none := h.key_new hd hx hnew
  have hbit : fileMapBitTest ((s.setRebuild d rb).maps d) (swapLogData .add x).swapFilen = false := h.file_new hd hx hnew
  have hval : storeUfsDirValidFileno ((s.setRebuild d rb).maps d) (swapLogData .add x).swapFilen false = true := by
    have hneg : ¬ (swapLogData .add x).swapFilen < 0 := Int.not_lt.2 hfile
    rw [storeUfsDirValidFileno, if_neg hneg]
    rfl
  have hflag : ¬ ebitTest (swapLogData .add x).flags .keyPrivate = true := by
    rw [Bool.not_eq_true]
    exact hpriv
  show (if _ then _ else if _ then _ else rebuildAdd cfg d (swapLogData .add x).masked _) = _
  rw [masked_of_selected hd hx, if_neg (not_not.2 hval), if_neg hflag, rebuildAdd, hkey, hbit]

end

lemma Replayed.record (cfg : Config) (h : Replayed ix loaded s) (hd : d < ix.nConfigured)
    (hnod : (x :: rest).Nodup) (hmem : ∀ y, y ∈ x :: rest ↔ y ∈ ix.selected d ∧ y ∉ loaded) :
    ∃ s', rebuildRecord cfg d (s.setRebuild d ⟨.swapLog, records rest⟩) (.data (swapLogData .add x)) = .ok s' ∧
      Replayed ix (x :: loaded) s' ∧ s'.rebuilds = update s.rebuilds d ⟨.swapLog, records rest⟩ := by
  obtain ⟨hx, hnew⟩ := (hmem x).1 mem_cons_self
  obtain ⟨hentr, hdirn, hwri⟩ := (Index.mem_selected hd).1 hx
  have hrest : ∀ y, y ∈ rest ↔ y ∈ ix.selected d ∧ y ∉ x :: loaded := by
    intro y
    have hxre := (nodup_cons.1 hnod).1
    by_cases hyx : y = x
    · subst hyx
      simp [hxre]
    · simpa [hyx] using hmem y
  obtain ⟨fm, hset, hfm⟩ := (h.maps d hd).set (ix.bounded x hentr)
  have hres : diskEntry d (swapLogData .add x) = restored x := by
    rw [restored, hdirn, Int.toNat_natCast]
  obtain ⟨newLogs, hlog⟩ := storeDirSwapLog_diskEntry (swapLogData .add x) (written_iff.1 hwri).1
  refine ⟨_, ?_, h.load ⟨.swapLog, records rest⟩ newLogs hd hx hnew rfl (nodup_cons.1 hnod).2 hrest hfm, rfl⟩
  rw [h.rebuildRecord_eq hd hx hnew]
  show (fileMapBitSet (s.maps d) x.swapFilen >>= _) >>= _ = _
  rw [hset, hres]
  rw [hres] at hlog
  exact hlog

/-! ## Events and runs -/

lemma storeUfsDirRebuildFromSwapLog_stepped (hd : d < ix.nConfigured) (k : ℕ) (h : Replayed ix loaded s)
    (hfunc : (s.rebuilds d).func = .swapLog) :
    Ends (fun _ => False) (Stepped ix d k s) (storeUfsDirRebuildFromSwapLog cfg d k s) := by
  induction k generalizing loaded s with
  | zero => exact ⟨loaded, s.rebuilds d, h, (update_eq_self d _).symm, le_rfl⟩
  | succ k ih =>
    obtain ⟨todo, hrea, hnod, hmem⟩ := h.reads d hd
    have hrb : s.rebuilds d = ⟨.swapLog, records todo⟩ := by
      cases hcas : s.rebuilds d with
      | mk func log =>
        rw [hcas] at hfunc hrea
        cases hfunc
        rw [show log = records todo from hrea]
    rw [storeUfsDirRebuildFromSwapLog, hrb]
    cases todo with
    | nil => exact ⟨loaded, ⟨.complete, []⟩, h.setRebuild hd rfl hnod hmem, rfl, Nat.zero_le _⟩
    | cons x rest =>
      obtain ⟨t, ht, hrep, hrebu⟩ := h.record cfg hd hnod hmem
      show Ends _ _ (rebuildRecord cfg d (s.setRebuild d ⟨.swapLog, records rest⟩) (.data (swapLogData .add x)) >>= _)
      rw [ht]
      have hself : t.rebuilds d = ⟨.swapLog, records rest⟩ := by rw [hrebu, update_self]
      refine (ih hrep (by rw [hself])).mono ?_
      rintro s' ⟨loaded', rb, hrep', hreb', hle⟩
      refine ⟨loaded', rb, hrep', ?_, ?_⟩
      · rw [hreb', hrebu, update_idem]
      · rw [hself] at hle
        rw [hrb]
        have hlen : turnsLeft (⟨.swapLog, records (x :: rest)⟩ : RebuildState Key) =
            turnsLeft (⟨.swapLog, records rest⟩ : RebuildState Key) + 1 := rfl
        omega

lemma Config.speed_pos (cfg : Config) : 0 < cfg.speed := by
  unfold Config.speed
  split_ifs <;> norm_num

lemma storeRebuild_stepped (h : Replayed ix loaded s) (he : enabled ix.nConfigured s d) :
    Ends (fun _ => False) (Stepped ix d 1 s) (storeRebuild cfg s d) := by
  rw [enabled, Bool.and_eq_true, decide_eq_true_iff, decide_eq_true_iff] at he
  obtain ⟨hd, hfunc⟩ := he
  unfold storeRebuild
  split
  next hche =>
    obtain ⟨todo, hrea, hnod, hmem⟩ := h.reads d hd
    have hrb : s.rebuilds d = ⟨.checkVersion, storeUfsWriteSwapLogheader :: records todo⟩ := by
      cases hcas : s.rebuilds d with
      | mk func log =>
        rw [hcas] at hche hrea
        cases hche
        rw [show log = storeUfsWriteSwapLogheader :: records todo from hrea]
    rw [storeUfsDirRebuildFromSwapLogCheckVersion, hrb]
    refine ⟨loaded, ⟨.swapLog, records todo⟩, h.setRebuild hd rfl hnod hmem, rfl, ?_⟩
    rw [hrb]
    exact le_rfl
  next hread =>
    refine (storeUfsDirRebuildFromSwapLog_stepped hd _ h hread).mono ?_
    rintro s' ⟨loaded', rb, hrep, hrebu, hle⟩
    have hspe := cfg.speed_pos
    exact ⟨loaded', rb, hrep, hrebu, by omega⟩
  next hcmp => exact absurd hcmp hfunc

/-- Clean logs are written whenever no rebuild is under way. However their events alternate, reading them
never fails and comes to an end, and it recreates the entries that are public, swapped out with a size, not
special and not to be released. Each has its record's fields; it is cachable and not validated. -/
theorem recreated_of_reached (cfg : Config) (ix : Index Key) (logs : ℕ → List (LogRecord Key)) :
    ∃ r, storeDirWriteCleanLogs 0 ix logs = .ok r ∧
      ∀ es s, (machine ix.nConfigured cfg r.1).Reached (fun _ _ => true) es s →
        (∀ d, enabled ix.nConfigured s d → ∃ s', storeRebuild cfg s d = .ok s') ∧
          es.length ≤ ∑ d ∈ Finset.range ix.nConfigured, ((r.1 d).length + 1) ∧
          ((∀ d, enabled ix.nConfigured s d = false) →
            Recreated written (fun f g => g = ebitClr (ebitSet f .entryCachable) .entryValidated) ix.entries s.index) := by
  have hlogs := storeDirWriteCleanLogs_ends ix logs
  cases hwri : storeDirWriteCleanLogs 0 ix logs with
  | error err => exact (hlogs.error_of_eq hwri).elim
  | ok r =>
    refine ⟨r, rfl, fun es s hs => ?_⟩
    have hinit : ∃ loaded, Replayed ix loaded (machine ix.nConfigured cfg r.1).init :=
      ⟨[], replayed_init (hlogs.ok_of_eq hwri)⟩
    have hstep : ∀ s d s', (∃ loaded, Replayed ix loaded s) → enabled ix.nConfigured s d → storeRebuild cfg s d = .ok s' →
        (∃ loaded, Replayed ix loaded s') ∧ eventsLeft ix.nConfigured s' < eventsLeft ix.nConfigured s := by
      rintro s d s' ⟨loaded, hrep⟩ he hstep
      have hste := (storeRebuild_stepped hrep he).ok_of_eq hstep
      have hlt := hste.eventsLeft_lt he
      obtain ⟨loaded', -, hrep', -⟩ := hste
      exact ⟨⟨loaded', hrep'⟩, hlt⟩
    obtain ⟨⟨loaded, hrep⟩, hlen⟩ := hs.inv_and_length_le _ hinit hstep
    refine ⟨fun d he => ?_, (Nat.le_add_right _ _).trans hlen, hrep.recreated⟩
    cases hstep : storeRebuild cfg s d with
    | error err => exact ((storeRebuild_stepped hrep he).error_of_eq hstep).elim
    | ok s' => exact ⟨s', rfl⟩

/-! ## An entry that is not validated -/

/-- One directory with one public entry on disk that is cachable but not validated. -/
def unvalidatedIndex : Index ℕ where
  entries := [⟨7, 10, 20, 30, 10, 4096, 1, ebitSet 0 .entryCachable, 3, 0, .ok, .done⟩]
  nConfigured := 1
  policy := fun _ => [⟨7, 10, 20, 30, 10, 4096, 1, ebitSet 0 .entryCachable, 3, 0, .ok, .done⟩]
  walks := by
    intro d hd
    obtain rfl : d = 0 := by omega
    simp
  placed := by simp
  bounded := by simp
  keys := by simp
  files := by simp

lemma exists_unvalidatedRun : ∃ r, storeDirWriteCleanLogs 0 unvalidatedIndex (fun _ => []) = .ok r ∧
    ∃ s, (machine 1 ⟨false, 0⟩ r.1).Reached (fun _ _ => true) [0, 0] s ∧ (∀ d, enabled 1 s d = false) ∧
      s.index.length = 1 := by
  let r := (storeDirWriteCleanLogs 0 unvalidatedIndex fun _ => []).toOption.getD (fun _ => [], 0)
  refine ⟨r, eq_ok_of_isOk (by decide +kernel) _, ?_⟩
  obtain ⟨s, hs, hcmp, hlen⟩ := (machine 1 ⟨false, 0⟩ r.1).exists_reached (fun _ _ => true) [0, 0]
    (fun s => (s.rebuilds 0).func = .complete ∧ s.index.length = 1) (by decide +kernel)
  refine ⟨s, hs, fun d => ?_, hlen⟩
  by_cases hd : d = 0
  · subst hd
    simp [enabled, hcmp]
  · simp [enabled, hd]

theorem recreated_unvalidatedRun : ∃ r, storeDirWriteCleanLogs 0 unvalidatedIndex (fun _ => []) = .ok r ∧
    ∃ s, (machine 1 ⟨false, 0⟩ r.1).Reached (fun _ _ => true) [0, 0] s ∧ s.index.length = 1 ∧
      Recreated written (fun f g => g = ebitClr (ebitSet f .entryCachable) .entryValidated)
        unvalidatedIndex.entries s.index := by
  obtain ⟨r, hr, s, hs, hdone, hlen⟩ := exists_unvalidatedRun
  obtain ⟨r', hr', hall⟩ := recreated_of_reached ⟨false, 0⟩ unvalidatedIndex (fun _ => [])
  obtain rfl : r = r' := by
    rw [hr] at hr'
    exact ok.inj hr'
  exact ⟨r, hr, s, hs, hlen, (hall [0, 0] s hs).2.2 hdone⟩

/-- The public entries on disk that are validated, not special and not to be released. -/
def validatedOnDisk (e : StoreEntry Key) : Bool :=
  e.swapStatus = .done && ebitTest e.flags .entryValidated && !ebitTest e.flags .keyPrivate &&
    !ebitTest e.flags .entrySpecial && !ebitTest e.flags .releaseRequest

/-- The entry is not validated, but it is recreated. -/
theorem not_recreated_unvalidatedRun : ∃ r, storeDirWriteCleanLogs 0 unvalidatedIndex (fun _ => []) = .ok r ∧
    ∃ s, (machine 1 ⟨false, 0⟩ r.1).Reached (fun _ _ => true) [0, 0] s ∧ (∀ d, enabled 1 s d = false) ∧
      ¬ Recreated validatedOnDisk (fun f g => ebitClr g .entryValidated = ebitClr f .entryValidated)
        unvalidatedIndex.entries s.index := by
  obtain ⟨r, hr, s, hs, hdone, hlen⟩ := exists_unvalidatedRun
  refine ⟨r, hr, s, hs, hdone, ?_⟩
  rintro ⟨l, hperm, hall⟩
  have hnone : unvalidatedIndex.entries.filter validatedOnDisk = [] := by decide
  rw [hnone, List.forall₂_nil_left_iff] at hall
  have hlength := hperm.length_eq
  rw [hall, hlen] at hlength
  exact absurd hlength (by decide)

end SquidVideoCache.CleanLog
