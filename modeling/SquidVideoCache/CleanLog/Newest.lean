import SquidVideoCache.CleanLog.Replay

/-!
# Several records of one file

A log that was not cleaned has a record for each time an object was written to it, so a key and its
file number occur again and again.
-/

namespace SquidVideoCache.CleanLog
open Lib Function List Option

variable {Key : Type} {e : StoreEntry Key} {log : List (SwapLogData Key)}

structure AddsFile (key : Key) (f : ℤ) (r : SwapLogData Key) : Prop where
  op : r.op = .add
  key : r.key = key
  file : r.masked.swapFilen = f
  shared : ebitTest r.flags .keyPrivate = false

def Newest (log : List (SwapLogData Key)) (e : StoreEntry Key) : Prop :=
  ∃ r ∈ log, (∀ x ∈ log, x.lastref ≤ r.lastref) ∧
    e.lastref = r.lastref ∧ e.timestamp = r.timestamp ∧ e.expires = r.expires ∧ e.lastmod = r.lastmod

def advance (e : StoreEntry Key) (r : SwapLogData Key) : StoreEntry Key :=
  if r.lastref ≤ e.lastref then e else updateMeta r e

def entryAfter (d : ℕ) : List (SwapLogData Key) → Option (StoreEntry Key)
  | [] => none
  | r :: later => some (later.foldl advance (diskEntry d r.masked))

lemma entryAfter_append {d : ℕ} {read : List (SwapLogData Key)} (h : entryAfter d read = some e)
    (r : SwapLogData Key) : entryAfter d (read ++ [r]) = some (advance e r) := by
  cases read with
  | nil => exact absurd h.symm (some_ne_none e)
  | cons first later =>
    obtain rfl := some.inj h
    simp [entryAfter]

lemma entryAfter_file {d : ℕ} {key : Key} {f : ℤ} {read : List (SwapLogData Key)}
    (hread : ∀ r ∈ read, AddsFile key f r) (h : entryAfter d read = some e) :
    e.swapFilen = f ∧ e.swapDirn = d ∧ e.storeStatus = .ok := by
  induction read using List.reverseRecOn generalizing e with
  | nil => exact absurd h.symm (some_ne_none e)
  | append_singleton read r ih =>
    obtain ⟨hread, hr⟩ := forall_mem_append.mp hread
    cases hbef : entryAfter d read with
    | none =>
      cases read with
      | nil =>
        obtain rfl := some.inj h
        exact ⟨(forall_mem_singleton.mp hr).file, rfl, rfl⟩
      | cons first later => exact absurd hbef (some_ne_none _)
    | some before =>
      obtain ⟨hfile, hdirn, hstat⟩ := ih hread hbef
      obtain rfl := some.inj ((entryAfter_append hbef r).symm.trans h)
      unfold advance
      split_ifs
      · exact ⟨hfile, hdirn, hstat⟩
      · exact ⟨hfile, hdirn, hstat⟩

/-! ## One record and another -/

lemma Newest.lastref_lt_iff (h : Newest log e) (t : ℤ) : e.lastref < t ↔ ∀ x ∈ log, x.lastref < t := by
  obtain ⟨r, hr, hmax, hlas, -⟩ := h
  rw [hlas]
  exact ⟨fun hlt x hx => (hmax x hx).trans_lt hlt, fun hall => hall r hr⟩

lemma Newest.advance_iff (h : Newest log e) (r : SwapLogData Key) :
    Newest (log ++ [r]) (advance e r) ↔ ((∀ x ∈ log, x.lastref < r.lastref) → r.timestamp = r.lastref) := by
  rw [← h.lastref_lt_iff]
  unfold advance
  split_ifs with hold
  · refine ⟨fun _ hlt => absurd hold hlt.not_ge, fun _ => ?_⟩
    obtain ⟨x, hx, hmax, hmeta⟩ := h
    refine ⟨x, mem_append_left _ hx, ?_, hmeta⟩
    rw [forall_mem_append, forall_mem_singleton]
    exact ⟨hmax, hold.trans hmeta.1.le⟩
  · have hlt : e.lastref < r.lastref := not_le.mp hold
    have hbef := (h.lastref_lt_iff _).mp hlt
    refine ⟨fun hnew _ => ?_, fun htime => ?_⟩
    · -- the largest `lastref` is that of the new record
      obtain ⟨x, hx, hmax, hlas, -⟩ := hnew
      have hle : r.lastref ≤ x.lastref := hmax r (by simp)
      rcases mem_append.mp hx with hx | hx
      · exact absurd (hbef x hx) hle.not_gt
      · obtain rfl := mem_singleton.mp hx
        exact hlas
    · refine ⟨r, by simp, ?_, htime hlt, rfl, rfl, rfl⟩
      rw [forall_mem_append, forall_mem_singleton]
      exact ⟨fun x hx => (hbef x hx).le, le_rfl⟩

/-- Every record that is newer than all before it, of which there are some, has its time stamp as `lastref`. -/
def Stamped (log : List (SwapLogData Key)) : Prop :=
  ∀ before r, before ++ [r] <+: log → before ≠ [] → (∀ x ∈ before, x.lastref < r.lastref) → r.timestamp = r.lastref

lemma stamped_append {r : SwapLogData Key} :
    Stamped (log ++ [r]) ↔ Stamped log ∧ (log ≠ [] → (∀ x ∈ log, x.lastref < r.lastref) → r.timestamp = r.lastref) := by
  constructor
  · intro h
    exact ⟨fun before x hx => h before x (hx.trans (prefix_append _ _)), h log r (prefix_refl _)⟩
  · rintro ⟨hlog, hr⟩ before x hx
    rcases prefix_concat_iff.mp hx with heq | hx
    · obtain ⟨rfl, hlast⟩ := append_inj' heq rfl
      obtain rfl := singleton_inj.mp hlast
      exact hr
    · exact hlog before x hx

lemma newest_singleton (d : ℕ) (r : SwapLogData Key) : Newest [r] (diskEntry d r.masked) := by
  refine ⟨r, by simp, ?_, rfl, rfl, rfl, rfl⟩
  rw [forall_mem_singleton]

lemma forall_newest_iff (d : ℕ) (log : List (SwapLogData Key)) :
    (∀ read, read <+: log → ∀ e ∈ entryAfter d read, Newest read e) ↔ Stamped log := by
  induction log using List.reverseRecOn with
  | nil =>
    constructor
    · intro _ before r hr
      exact absurd (prefix_nil.mp hr) (by simp)
    · rintro - read hread e he
      rw [prefix_nil.mp hread] at he
      exact absurd he.symm (some_ne_none e)
  | append_singleton log r ih =>
    have hspl : (∀ read, read <+: log ++ [r] → ∀ e ∈ entryAfter d read, Newest read e) ↔
        (∀ read, read <+: log → ∀ e ∈ entryAfter d read, Newest read e) ∧
          ∀ e ∈ entryAfter d (log ++ [r]), Newest (log ++ [r]) e := by
      simp only [prefix_concat_iff, or_imp, forall_and, forall_eq]
      exact and_comm
    rw [hspl, ih, stamped_append]
    apply and_congr_right
    intro hsta
    cases hlog : entryAfter d log with
    | none =>
      cases log with
      | nil =>
        refine ⟨fun _ hne => absurd rfl hne, fun _ e he => ?_⟩
        obtain rfl := some.inj he
        exact newest_singleton d r
      | cons first later => exact absurd hlog (some_ne_none _)
    | some e =>
      have hne : log ≠ [] := by
        rintro rfl
        exact absurd hlog.symm (some_ne_none e)
      have hnewe : Newest log e := ih.mpr hsta log (prefix_refl _) e hlog
      rw [entryAfter_append hlog, ← hnewe.advance_iff]
      simp [hne]

/-! ## The replay -/

variable [DecidableEq Key]

/-- The directory has read some records of the file and has others before it. -/
structure After (d : ℕ) (key : Key) (f : ℤ) (read rest : List (SwapLogData Key)) (s : State Key) : Prop where
  log : (s.rebuilds d).log = rest.map .data
  entry : storeGet s key = entryAfter d read
  used : fileMapBitTest (s.maps d) f = decide (read ≠ [])
  size : ∃ j ≤ 10, (s.maps d).maxNFiles = 2 ^ (14 + j)

variable {d : ℕ} {key : Key} {f : ℤ} {read rest : List (SwapLogData Key)} {r : SwapLogData Key} {s : State Key}

lemma loadNew_eq (h : After d key f [] (r :: rest) s) (hr : AddsFile key f r) :
    ∃ s', loadNew d r.masked (s.setRebuild d ⟨.swapLog, rest.map .data⟩) = .ok s' ∧ After d key f [r] rest s' := by
  have hf : 0 ≤ r.masked.swapFilen ∧ r.masked.swapFilen < 2 ^ 24 :=
    ⟨Int.emod_nonneg _ (by decide), Int.emod_lt_of_pos _ (by decide)⟩
  obtain ⟨fm, hset, hmapp⟩ := Mapped.set ⟨h.size, fun _ => Iff.rfl⟩ hf.2
  obtain ⟨newLogs, hlog⟩ := storeDirSwapLog_diskEntry _ hf.1
  refine ⟨⟨diskEntry d r.masked :: s.index, update s.rebuilds d ⟨.swapLog, rest.map .data⟩,
    update s.maps d fm, newLogs⟩, ?_, ?_, ?_, ?_, ?_⟩
  · change (fileMapBitSet (s.maps d) r.masked.swapFilen >>= _) >>= _ = _
    rw [hset]
    exact hlog
  · simp
  · exact find?_cons_of_pos (decide_eq_true hr.key)
  · have htest := fileMapBitTest_of_set hset
    rw [hr.file] at htest
    simpa using htest
  · simpa using hmapp.size

lemma storeGet_storeUpdateMeta (hr : r.key = key) :
    storeGet (storeUpdateMeta r s) key = (storeGet s key).map (updateMeta r) := by
  have hkey : ∀ x : StoreEntry Key, (if x.key = r.key then updateMeta r x else x).key = x.key := by
    intro x
    split_ifs <;> rfl
  simp only [storeGet, storeUpdateMeta, find?_map, comp_def, hkey]
  cases hfind : s.index.find? (fun x => x.key = key) with
  | none => rfl
  | some x =>
    have hx : x.key = key := by simpa using find?_some hfind
    simp [hx, hr]

lemma After.nextRecord (cfg : Config) (h : After d key f read (r :: rest) s) (hread : ∀ x ∈ read, AddsFile key f x)
    (hr : AddsFile key f r) : ∃ s', rebuildRecord cfg d (s.setRebuild d ⟨.swapLog, rest.map .data⟩) (.data r) = .ok s' ∧
      After d key f (read ++ [r]) rest s' := by
  have hval : storeUfsDirValidFileno ((s.setRebuild d ⟨.swapLog, rest.map .data⟩).maps d) r.masked.swapFilen false = true := by
    have hf : 0 ≤ r.masked.swapFilen := Int.emod_nonneg _ (by decide)
    simp [storeUfsDirValidFileno, hf]
  have hget : storeGet (s.setRebuild d ⟨.swapLog, rest.map .data⟩) r.masked.key = entryAfter d read :=
    (congrArg _ hr.key).trans h.entry
  have htest : fileMapBitTest ((s.setRebuild d ⟨.swapLog, rest.map .data⟩).maps d) r.masked.swapFilen = decide (read ≠ []) :=
    hr.file ▸ h.used
  simp only [rebuildRecord, hr.op, hval, hr.shared, not_true_eq_false, Bool.false_eq_true, if_false, rebuildAdd]
  rw [hget, htest]
  cases hentr : entryAfter d read with
  | none =>
    cases read with
    | nil => exact loadNew_eq h hr
    | cons first later => exact absurd hentr (some_ne_none _)
  | some e =>
    have hne : read ≠ [] := by
      rintro rfl
      exact absurd hentr.symm (some_ne_none e)
    obtain ⟨hfile, hdirn, hstat⟩ := entryAfter_file hread hentr
    rw [decide_eq_true hne]
    dsimp only
    have haft := entryAfter_append hentr r
    have hused : fileMapBitTest (s.maps d) f = decide (read ++ [r] ≠ []) := h.used.trans (by simp [hne])
    split_ifs with hold hsame
    · refine ⟨_, rfl, by simp [State.setRebuild], ?_, hused, h.size⟩
      have hold' : r.lastref ≤ e.lastref := hold
      rw [haft, advance, if_pos hold']
      exact h.entry.trans hentr
    · refine ⟨_, rfl, by simp [State.setRebuild, storeUpdateMeta], ?_, hused, h.size⟩
      have hold' : ¬r.lastref ≤ e.lastref := hold
      have hmas : r.masked.key = key := hr.key
      rw [storeGet_storeUpdateMeta hmas, haft, advance, if_neg hold']
      change (storeGet s key).map _ = _
      rw [h.entry, hentr]
      rfl
    · exact absurd ⟨hfile.trans hr.file.symm, hdirn⟩ hsame

lemma After.readSome (cfg : Config) (n : ℕ) (h : After d key f read rest s) (hread : ∀ x ∈ read, AddsFile key f x)
    (hrest : ∀ x ∈ rest, AddsFile key f x) :
    ∃ s', storeUfsDirRebuildFromSwapLog cfg d n s = .ok s' ∧ After d key f (read ++ rest.take n) (rest.drop n) s' := by
  induction n generalizing s read rest with
  | zero => exact ⟨s, rfl, by simpa using h⟩
  | succ n ih =>
    cases rest with
    | nil =>
      refine ⟨s.setRebuild d ⟨.complete, []⟩, ?_, ?_⟩
      · rw [storeUfsDirRebuildFromSwapLog, h.log]
        rfl
      · simp only [take_nil, append_nil]
        exact ⟨by simp [State.setRebuild], h.entry, h.used, h.size⟩
    | cons r rest =>
      obtain ⟨hr, hrest⟩ := forall_mem_cons.mp hrest
      obtain ⟨s₁, hs₁, h₁⟩ := h.nextRecord cfg hread hr
      have hread₁ : ∀ x ∈ read ++ [r], AddsFile key f x := by
        rw [forall_mem_append, forall_mem_singleton]
        exact ⟨hread, hr⟩
      obtain ⟨s₂, hs₂, h₂⟩ := ih h₁ hread₁ hrest
      refine ⟨s₂, ?_, by simpa using h₂⟩
      rw [storeUfsDirRebuildFromSwapLog, h.log]
      change (rebuildRecord cfg d (s.setRebuild d ⟨.swapLog, rest.map .data⟩) (.data r) >>= _) = _
      rw [hs₁]
      exact hs₂

def replay (cfg : Config) (d : ℕ) (counts : List ℕ) (s : State Key) : Exec (State Key) :=
  counts.foldlM (fun s n => storeUfsDirRebuildFromSwapLog cfg d n s) s

lemma After.replay (cfg : Config) (counts : List ℕ) (h : After d key f read rest s)
    (hread : ∀ x ∈ read, AddsFile key f x) (hrest : ∀ x ∈ rest, AddsFile key f x) :
    ∃ s', replay cfg d counts s = .ok s' ∧ After d key f (read ++ rest.take counts.sum) (rest.drop counts.sum) s' := by
  induction counts generalizing s read rest with
  | nil => exact ⟨s, rfl, by simpa using h⟩
  | cons n counts ih =>
    obtain ⟨s₁, hs₁, h₁⟩ := h.readSome cfg n hread hrest
    have hread₁ : ∀ x ∈ read ++ rest.take n, AddsFile key f x := by
      rw [forall_mem_append]
      exact ⟨hread, fun x hx => hrest x (mem_of_mem_take hx)⟩
    obtain ⟨s₂, hs₂, h₂⟩ := ih h₁ hread₁ fun x hx => hrest x (mem_of_mem_drop hx)
    refine ⟨s₂, ?_, ?_⟩
    · rw [CleanLog.replay, foldlM_cons, hs₁]
      exact hs₂
    · rw [sum_cons, take_add, ← append_assoc, ← drop_drop]
      exact h₂

lemma replay_entryAfter (cfg : Config) (hadds : ∀ r ∈ log, AddsFile key f r)
    (hlog : (s.rebuilds d).log = log.map .data) (hkey : storeGet s key = none) (hfree : fileMapBitTest (s.maps d) f = false)
    (hsize : ∃ j ≤ 10, (s.maps d).maxNFiles = 2 ^ (14 + j)) (counts : List ℕ) :
    ∃ s', replay cfg d counts s = .ok s' ∧ storeGet s' key = entryAfter d (log.take counts.sum) := by
  have hstart : After d key f [] log s := ⟨hlog, hkey, by simpa using hfree, hsize⟩
  obtain ⟨s', hs', haft⟩ := hstart.replay cfg counts (forall_mem_nil _) hadds
  exact ⟨s', hs', by simpa using haft.entry⟩

/-- The log of one file, read into an index without the key and a map without the file number, leaves a record with
the largest `lastref` after every number of records exactly if it is stamped. -/
theorem replay_newest_iff (cfg : Config) {log : List (SwapLogData Key)} (hne : log ≠ []) (hadds : ∀ r ∈ log, AddsFile key f r)
    (hlog : (s.rebuilds d).log = log.map .data) (hkey : storeGet s key = none) (hfree : fileMapBitTest (s.maps d) f = false)
    (hsize : ∃ j ≤ 10, (s.maps d).maxNFiles = 2 ^ (14 + j)) :
    (∀ counts : List ℕ, 0 < counts.sum → ∃ s' e, replay cfg d counts s = .ok s' ∧ storeGet s' key = some e ∧
      Newest (log.take counts.sum) e) ↔ Stamped log := by
  have hrun := replay_entryAfter cfg hadds hlog hkey hfree hsize
  rw [← forall_newest_iff d]
  constructor
  · intro h read hread e he
    have htake : log.take [read.length].sum = read := by
      exact (prefix_iff_eq_take.mp hread).symm
    have hpos : 0 < [read.length].sum := by
      rw [sum_singleton, length_pos_iff]
      rintro rfl
      exact absurd he.symm (some_ne_none e)
    obtain ⟨s', e', hs', he', hnewe⟩ := h _ hpos
    obtain ⟨s'', hs'', hentr⟩ := hrun _
    obtain rfl := Except.ok.inj (hs'.symm.trans hs'')
    rw [htake] at hentr hnewe
    obtain rfl := some.inj (he'.symm.trans (hentr.trans he))
    exact hnewe
  · intro h counts hpos
    obtain ⟨s', hs', hentr⟩ := hrun counts
    obtain ⟨r, rest, hcons⟩ : ∃ r rest, log.take counts.sum = r :: rest := by
      apply exists_cons_of_ne_nil
      rw [Ne, take_eq_nil_iff, not_or]
      exact ⟨hpos.ne', hne⟩
    have hsome : entryAfter d (log.take counts.sum) = some (rest.foldl advance (diskEntry d r.masked)) := by
      rw [hcons]
      rfl
    exact ⟨s', _, hs', hentr.trans hsome, h _ (List.take_prefix _ _) _ hsome⟩

/-- Two records of file 3, of which the second is newer. -/
def twoRecords (stamp : ℤ) : List (SwapLogData ℕ) :=
  [⟨.add, 3, 1, 1, -1, 1, 100, 1, 0, 7⟩, ⟨.add, 3, stamp, 5, -1, 1, 100, 1, 0, 7⟩]

lemma addsFile_twoRecords (stamp : ℤ) : ∀ r ∈ twoRecords stamp, AddsFile 7 3 r := by
  have hsha : ebitTest 0 .keyPrivate = false := by decide
  simp only [twoRecords, forall_mem_cons, not_mem_nil, false_implies, implies_true, and_true]
  exact ⟨⟨rfl, rfl, rfl, hsha⟩, ⟨rfl, rfl, rfl, hsha⟩⟩

theorem replay_newest_twoRecords : (∀ counts : List ℕ, 0 < counts.sum → ∃ s' e,
      replay ⟨false, 0⟩ 0 counts (State.init fun _ => (twoRecords 5).map .data) = .ok s' ∧ storeGet s' 7 = some e ∧
      Newest ((twoRecords 5).take counts.sum) e) ↔ Stamped (twoRecords 5) :=
  replay_newest_iff ⟨false, 0⟩ (by simp [twoRecords]) (addsFile_twoRecords 5) rfl rfl rfl ⟨0, by decide, rfl⟩

/-- An object that was used again without being fetched again. -/
theorem not_newest_twoRecords : ∃ s' e, replay ⟨false, 0⟩ 0 [2] (State.init fun _ => (twoRecords 2).map .data) = .ok s' ∧
    storeGet s' 7 = some e ∧ ¬Newest (twoRecords 2) e := by
  obtain ⟨s', hs', hentr⟩ := replay_entryAfter ⟨false, 0⟩ (s := State.init fun _ => (twoRecords 2).map .data)
    (addsFile_twoRecords 2) rfl rfl rfl ⟨0, by decide, rfl⟩ [2]
  refine ⟨s', _, hs', hentr, ?_⟩
  rintro ⟨r, -, hmax, hlas, -⟩
  have hfive : 5 ≤ r.lastref := hmax ⟨.add, 3, 2, 5, -1, 1, 100, 1, 0, 7⟩ (by decide)
  have htwo : (2 : ℤ) = r.lastref := hlas
  omega

end SquidVideoCache.CleanLog
