import SquidVideoCache.CleanLog.Model

/-!
# What a clean log has

The directories take turns, one entry at a time, and records wait in a buffer. `Holds` says of one
directory that its file, its buffer and the records of what its walker still has make up a given log, so
the order of the turns and the places where the buffer is flushed do not matter.
-/

namespace SquidVideoCache.CleanLog
open Lib Function List

variable {Key : Type} {st : CleanState Key} {l : List (LogRecord Key)} {e : StoreEntry Key} {c c' : Clean Key}
  {rest : List (StoreEntry Key)}

def records (es : List (StoreEntry Key)) : List (LogRecord Key) := es.map fun e => .data (swapLogData .add e)

def Index.selected (ix : Index Key) (d : ℕ) : List (StoreEntry Key) := (ix.policy d).filter written

def Index.cleanLog (ix : Index Key) (d : ℕ) : List (LogRecord Key) :=
  storeUfsWriteSwapLogheader :: records (ix.selected d)

/-! ## One directory -/

structure Holds (l : List (LogRecord Key)) (st : CleanState Key) : Prop where
  text : st.file ++ st.outbuf ++ records (st.walker.filter written) = l
  room : st.outbuf.length * sizeofSwapLogData + sizeofSwapLogData ≤ cleanBufSz

lemma holds_start (policy : List (StoreEntry Key)) :
    Holds (storeUfsWriteSwapLogheader :: records (policy.filter written)) (storeUfsDirWriteCleanStart policy) :=
  ⟨rfl, show 0 * 72 + 72 ≤ 16384 by decide⟩

lemma CleanState.flushFull_file (st : CleanState Key) :
    st.flushFull.file ++ st.flushFull.outbuf = st.file ++ st.outbuf := by
  unfold CleanState.flushFull
  split_ifs
  · exact append_nil _
  · rfl

lemma CleanState.flushFull_walker (st : CleanState Key) : st.flushFull.walker = st.walker := by
  unfold CleanState.flushFull
  split_ifs <;> rfl

lemma CleanState.flushFull_room (st : CleanState Key) :
    st.flushFull.outbuf.length * sizeofSwapLogData + sizeofSwapLogData ≤ cleanBufSz := by
  unfold CleanState.flushFull
  split_ifs with hfull
  · show 0 * 72 + 72 ≤ 16384
    decide
  · exact Nat.le_of_not_lt hfull

lemma Holds.skip (h : Holds l st) (hw : st.walker = e :: rest) (he : written e = false) :
    Holds l { st with walker := rest } := by
  refine ⟨?_, h.room⟩
  have htext := h.text
  rwa [hw, filter_cons_of_neg (by simp [he])] at htext

lemma Holds.write (h : Holds l st) (hw : st.walker = e :: rest) (he : written e = true) :
    ∃ t, storeUfsDirWriteCleanEntry { st with walker := rest } e = .ok t ∧ t.walker = rest ∧ Holds l t := by
  refine ⟨_, if_neg (Nat.not_lt.2 h.room), CleanState.flushFull_walker _, ?_, CleanState.flushFull_room _⟩
  rw [CleanState.flushFull_file, CleanState.flushFull_walker, ← h.text, hw, filter_cons_of_pos he]
  simp [CleanState.push, records]

lemma Holds.done (h : Holds l st) (hw : st.walker = []) : storeUfsDirWriteCleanDone st = l := by
  have htext := h.text
  rwa [hw, filter_nil, records, map_nil, append_nil] at htext

/-! ## The rounds -/

structure Turned (logs : ℕ → List (LogRecord Key)) (ds : List ℕ) (c c' : Clean Key) : Prop where
  holds : ∀ d, Holds (logs d) (c'.dirs d)
  others : ∀ d, d ∉ ds → c'.dirs d = c.dirs d
  shrinks : ∀ d, (c'.dirs d).walker.length ≤ (c.dirs d).walker.length
  turns : ∀ d ∈ ds, (c'.dirs d).walker.length ≤ (c.dirs d).walker.length - 1
  notdone : c'.notdone = true ↔ c.notdone = true ∨ ∃ d ∈ ds, (c.dirs d).walker ≠ []

variable {logs : ℕ → List (LogRecord Key)} {d : ℕ} {ds : List ℕ}

lemma turned_nil (hc : ∀ d, Holds (logs d) (c.dirs d)) : Turned logs [] c c :=
  ⟨hc, fun _ _ => rfl, fun _ => le_rfl, fun _ hd => absurd hd not_mem_nil, by simp⟩

lemma Turned.cons {c'' : Clean Key} (h : Turned logs [d] c c') (h' : Turned logs ds c' c'') :
    Turned logs (d :: ds) c c'' := by
  refine ⟨h'.holds, ?_, fun i => (h'.shrinks i).trans (h.shrinks i), ?_, ?_⟩
  · intro i hi
    rw [mem_cons, not_or] at hi
    rw [h'.others i hi.2, h.others i (mem_singleton.not.2 hi.1)]
  · intro i hi
    have hfir := h.shrinks i
    have hrest := h'.shrinks i
    rcases mem_cons.1 hi with rfl | hi
    · exact hrest.trans (h.turns i (mem_singleton_self i))
    · have := h'.turns i hi
      omega
  · rw [h'.notdone, h.notdone]
    constructor
    · rintro ((hc | ⟨i, hi, hne⟩) | ⟨i, hi, hne⟩)
      · exact Or.inl hc
      · exact Or.inr ⟨i, mem_cons.2 (Or.inl (mem_singleton.1 hi)), hne⟩
      · refine Or.inr ⟨i, mem_cons_of_mem d hi, fun hnil => hne ?_⟩
        have := h.shrinks i
        rw [hnil, length_nil, Nat.le_zero, length_eq_zero_iff] at this
        exact this
    · rintro (hc | ⟨i, hi, hne⟩)
      · exact Or.inl (Or.inl hc)
      · by_cases hid : i = d
        · exact Or.inl (Or.inr ⟨i, mem_singleton.2 hid, hne⟩)
        · have hsame := h.others i (mem_singleton.not.2 hid)
          refine Or.inr ⟨i, (mem_cons.1 hi).resolve_left hid, ?_⟩
          rwa [hsame]

lemma Clean.put_turned {st : CleanState Key} {n : ℕ}
    (hc : ∀ d, Holds (logs d) (c.dirs d)) (hw : (c.dirs d).walker = e :: rest) (hst : Holds (logs d) st)
    (hrest : st.walker = rest) : Turned logs [d] c { c.put d st with n := n } := by
  have hlen : ((update c.dirs d st) d).walker.length = (c.dirs d).walker.length - 1 := by
    rw [update_self, hrest, hw, length_cons, Nat.add_sub_cancel]
  refine ⟨?_, ?_, ?_, ?_, ?_⟩
  · intro i
    show Holds (logs i) (update c.dirs d st i)
    by_cases hi : i = d
    · subst hi
      rw [update_self]
      exact hst
    · rw [update_of_ne hi]
      exact hc i
  · intro i hi
    exact update_of_ne (mem_singleton.not.1 hi) _ _
  · intro i
    show ((update c.dirs d st) i).walker.length ≤ _
    by_cases hi : i = d
    · subst hi
      omega
    · rw [update_of_ne hi]
  · intro i hi
    obtain rfl := mem_singleton.1 hi
    exact hlen.le
  · refine iff_of_true rfl (Or.inr ⟨d, mem_singleton_self d, ?_⟩)
    rw [hw]
    exact cons_ne_nil _ _

lemma cleanTurn_turned (hc : ∀ d, Holds (logs d) (c.dirs d)) (d : ℕ) :
    Ends (fun _ => False) (Turned logs [d] c) (cleanTurn c d) := by
  unfold cleanTurn
  split
  · rename_i hw
    refine ⟨hc, fun _ _ => rfl, fun _ => le_rfl, ?_, ?_⟩
    · intro i hi
      rw [mem_singleton.1 hi, hw]
      exact Nat.zero_le _
    · simp [hw]
  · rename_i e rest hw
    refine ends_ite (fun he => ?_) (fun he => ?_)
    · obtain ⟨t, ht, hrest, hhol⟩ := (hc d).write hw he
      rw [ht]
      exact Clean.put_turned hc hw hhol hrest
    · exact Clean.put_turned hc hw ((hc d).skip hw (Bool.eq_false_iff.2 he)) rfl

lemma foldlM_turned (hc : ∀ d, Holds (logs d) (c.dirs d)) (ds : List ℕ) :
    Ends (fun _ => False) (Turned logs ds c) (ds.foldlM cleanTurn c) := by
  induction ds generalizing c with
  | nil => exact turned_nil hc
  | cons d ds ih =>
    exact (cleanTurn_turned hc d).bind fun c' h => (ih h.holds).mono fun c'' h' => h.cons h'

lemma Turned.done (h : Turned logs ds c c') (hidle : ¬ c'.notdone = true) (hd : d ∈ ds) :
    storeUfsDirWriteCleanDone (c'.dirs d) = logs d := by
  rw [h.notdone, not_or] at hidle
  have hnil : (c.dirs d).walker = [] := by
    by_contra hne
    exact hidle.2 ⟨d, hd, hne⟩
  have hshr := h.shrinks d
  rw [hnil, length_nil, Nat.le_zero, length_eq_zero_iff] at hshr
  exact (h.holds d).done hshr

lemma cleanRound_turned (n : ℕ) (hc : ∀ d, Holds (logs d) (c.dirs d)) :
    Ends (fun _ => False) (Turned logs (List.range n) { c with notdone := false }) (cleanRound n c) :=
  foldlM_turned (c := { c with notdone := false }) hc _

/-- The loop ends when the walkers are empty, in one round more than the longest of them has entries. -/
theorem cleanLoop_ends (n k : ℕ) (hc : ∀ d, Holds (logs d) (c.dirs d)) (hk : ∀ d < n, (c.dirs d).walker.length ≤ k) :
    Ends (fun _ => False) (fun c' => ∀ d < n, storeUfsDirWriteCleanDone (c'.dirs d) = logs d) (cleanLoop n (k + 1) c) := by
  induction k generalizing c with
  | zero =>
    refine (cleanRound_turned n hc).bind fun c' h => ?_
    have hidle : ¬ c'.notdone = true := by
      rw [h.notdone]
      rintro (hfal | ⟨d, hd, hne⟩)
      · cases hfal
      · exact hne (length_eq_zero_iff.1 (Nat.le_zero.1 (hk d (mem_range.1 hd))))
    rw [if_neg hidle]
    exact fun d hd => h.done hidle (mem_range.2 hd)
  | succ k ih =>
    refine (cleanRound_turned n hc).bind fun c' h => ends_ite (fun _ => ih h.holds ?_) (fun hidle => ?_)
    · intro d hd
      have hturn : (c'.dirs d).walker.length ≤ (c.dirs d).walker.length - 1 := h.turns d (mem_range.2 hd)
      have hlen := hk d hd
      omega
    · exact fun d hd => h.done hidle (mem_range.2 hd)

lemma storeDirWriteCleanLogs_ends (ix : Index Key) (logs : ℕ → List (LogRecord Key)) :
    Ends (fun _ => False) (fun r => ∀ d < ix.nConfigured, r.1 d = ix.cleanLog d) (storeDirWriteCleanLogs 0 ix logs) := by
  have hwalk : ∀ d < ix.nConfigured, (ix.policy d).length ≤ ix.entries.length := by
    intro d hd
    rw [(ix.walks d hd).length_eq]
    exact length_filter_le _ _
  refine (cleanLoop_ends _ _ (fun d => holds_start _) hwalk).bind fun c hc => ?_
  intro d hd
  exact (if_pos hd).trans (hc d hd)

end SquidVideoCache.CleanLog
