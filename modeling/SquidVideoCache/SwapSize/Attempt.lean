import SquidVideoCache.SwapSize.FileNumbers

/-!
# Swapouts that fail

`storeUfsCreate` marks the number of a new file before it opens the file. A swapout fails if the
file cannot be opened, or if a write or the close reports an error.
-/

namespace SquidVideoCache.SwapSize
open Lib Function Option Except
open CleanLog (SwapLogData FileMap fileMapBitTest fileMapBitSet storeUfsDirMapBitReset MapOk)

variable {Key : Type} {cfg : Config Key} {s s' s₀ : State Key} {i : ℕ} {e e' : StoreEntry Key}
  {a : Option (StoreEntry Key)}
  {d n filn : ℤ} {fm : FileMap} {j : ℕ}

/-! ## Opening the file -/

/-- The directory and the number of the file, or NULL if it cannot be opened. The number is the one that
`storeUfsDirMapBitAllocate` finds. -/
def storeUfsCreate (d filn : ℤ) (opened : Bool) (s : State Key) : Exec (Option (ℤ × ℤ) × State Key) := do
  let fm ← fileMapBitSet (s.maps d) filn
  pure (if opened then some (d, filn) else none, { s with maps := update s.maps d fm })

/-- `storeSwapOutStart` with what `storeUfsCreate` returned. -/
def startWith (i : ℕ) (e : StoreEntry Key) (s : State Key) : Option (ℤ × ℤ) → State Key
  | none => s.setEntry i { e with swapStatus := .none }
  | some sio => s.setEntry i { e with swapStatus := .writing, swapFilen := sio.2, swapDirn := sio.1, lockCount := e.lockCount + 1 }

def tryStart (i : ℕ) (d filn : ℤ) (opened : Bool) (s : State Key) : Exec (State Key) := do
  let e ← entryAt i s
  let r ← storeUfsCreate d filn opened s
  pure (startWith i e r.2 r.1)

/-! ## The machine -/

/-- The events of the store, where `swapOutStart` is a swapout whose file is opened. -/
inductive AttemptEvent (Key : Type) where
  | store (ev : Event Key)
  | createFailed (i : ℕ) (d filn : ℤ)

section
variable [DecidableEq Key] (cfg : Config Key)

def attemptEnabled (s : State Key) : AttemptEvent Key → Bool
  | .store ev => enabled cfg s ev
  | .createFailed i d filn => enabled cfg s (.swapOutStart i d filn) && decide (filn < 2 ^ 24)

def attemptStep (s : State Key) : AttemptEvent Key → Exec (State Key)
  | .store ev => step cfg s ev
  | .createFailed i d filn => tryStart i d filn false s

def attempts : Machine (State Key) (AttemptEvent Key) Fault := ⟨.init cfg, attemptEnabled cfg, attemptStep cfg⟩

end

/-- The file of the swapout of a slot after one more event. -/
def allocatedNext (i : ℕ) (file : Option (ℤ × ℤ)) : AttemptEvent Key → Option (ℤ × ℤ)
  | .store (.swapOutStart j d filn) => if j = i then some (d, filn) else file
  | .store (.swapOutClosed j _) => if j = i then none else file
  | _ => file

/-- The file that was allocated for the swapout of a slot that is still going on. -/
def allocated (i : ℕ) (es : List (AttemptEvent Key)) : Option (ℤ × ℤ) := es.foldl (allocatedNext i) none

/-- The file of the swapout that fails with the event, and whether it was opened. -/
def failure (es : List (AttemptEvent Key)) : AttemptEvent Key → Option (ℤ × ℤ × Bool)
  | .createFailed _ d filn => some (d, filn, false)
  | .store (.swapOutClosed i none) => (allocated i es).map fun file => (file.1, file.2, true)
  | _ => none

/-! ## Marks and files -/

lemma mapOk_resetBit (h : ∀ d, MapOk (s.maps d)) (d n d' : ℤ) : MapOk ((s.resetBit d n).maps d') := by
  rw [resetBit_maps]
  split_ifs
  · exact ((h d).reset n).1
  · exact h d'

lemma test_resetBit (h : ∀ d, MapOk (s.maps d)) (d n d' n' : ℤ) :
    fileMapBitTest ((s.resetBit d n).maps d') n' = true ↔ ¬(d' = d ∧ n' = n) ∧ fileMapBitTest (s.maps d') n' = true := by
  rw [resetBit_maps]
  split_ifs with hd
  · subst hd
    rw [((h d').reset n).2]
    simp
  · simp [hd]

lemma mapOk_update (h : ∀ d, MapOk (s.maps d)) (hset : fileMapBitSet (s.maps d) n = .ok fm) (d' : ℤ) :
    MapOk (update s.maps d fm d') ∧
      ∀ n', fileMapBitTest (update s.maps d fm d') n' = true ↔ d' = d ∧ n' = n ∨ fileMapBitTest (s.maps d') n' = true := by
  by_cases hd : d' = d
  · subst hd
    obtain ⟨fm', hset', hok, htest⟩ := (h d').set ((h d').lt_of_set hset)
    obtain rfl := ok.inj (hset.symm.trans hset')
    rw [update_self]
    exact ⟨hok, fun n' => by simp [htest]⟩
  · rw [update_of_ne hd]
    exact ⟨h d', fun n' => by simp [hd]⟩

/-- No two entries have the same file, and the files of entries are marked. -/
structure FilesOk (s : State Key) : Prop where
  map : ∀ d, MapOk (s.maps d)
  distinct : ∀ d n i j, 0 ≤ n → HasFile s d n i → HasFile s d n j → i = j
  marked : ∀ d n i, 0 ≤ n → HasFile s d n i → fileMapBitTest (s.maps d) n = true

lemma FilesOk.of_sub (hs : FilesOk s) (hmap : ∀ d, MapOk (s'.maps d))
    (hfiles : ∀ d n i, 0 ≤ n → HasFile s' d n i → HasFile s d n i)
    (hmar : ∀ d n i, 0 ≤ n → HasFile s' d n i → fileMapBitTest (s.maps d) n = true → fileMapBitTest (s'.maps d) n = true) :
    FilesOk s' where
  map := hmap
  distinct d n i j hn hi hj := hs.distinct d n i j hn (hfiles d n i hn hi) (hfiles d n j hn hj)
  marked d n i hn hi := hmar d n i hn hi (hs.marked d n i hn (hfiles d n i hn hi))

lemma FilesOk.of_new (hs : FilesOk s) (hset : fileMapBitSet (s.maps d) filn = .ok fm)
    (hfree : fileMapBitTest (s.maps d) filn = false) (hmaps : s'.maps = update s.maps d fm)
    (hfiles : ∀ d' n j, 0 ≤ n → HasFile s' d' n j → j = i ∧ d' = d ∧ n = filn ∨ HasFile s d' n j) : FilesOk s' := by
  have hnot : ∀ j n, 0 ≤ n → n = filn → ¬ HasFile s d n j := by
    rintro j n hn rfl hj
    have hset := hs.marked d n j hn hj
    rw [hfree] at hset
    cases hset
  refine ⟨fun d' => ?_, fun d' n j k hn hj hk => ?_, fun d' n j hn hj => ?_⟩
  · rw [hmaps]
    exact (mapOk_update hs.map hset d').1
  · rcases hfiles d' n j hn hj with ⟨hji, hd, hfiln⟩ | hj' <;> rcases hfiles d' n k hn hk with ⟨hki, hd', hfiln'⟩ | hk'
    · exact hji.trans hki.symm
    · exact absurd (hd ▸ hk') (hnot k n hn hfiln)
    · exact absurd (hd' ▸ hj') (hnot j n hn hfiln')
    · exact hs.distinct d' n j k hn hj' hk'
  · rw [hmaps, (mapOk_update hs.map hset d').2]
    exact (hfiles d' n j hn hj).imp And.right (hs.marked d' n j hn)

/-- The entry of the slot is swapped out to file `n` of directory `d`. -/
def Writing (s : State Key) (d n : ℤ) (i : ℕ) : Prop :=
  ∃ e, s.slot i = some e ∧ e.swapStatus = .writing ∧ e.swapDirn = d ∧ e.swapFilen = n

lemma Writing.hasFile (h : Writing s d n i) : HasFile s d n i := by
  obtain ⟨e, hi, -, hfile⟩ := h
  exact ⟨e, hi, hfile⟩

/-- The files stay in order and the swapouts go on. -/
structure Keeps (s s' : State Key) : Prop where
  files : FilesOk s → FilesOk s'
  writers : ∀ d n i, Writing s' d n i ↔ Writing s d n i

lemma Keeps.refl (s : State Key) : Keeps s s := ⟨id, fun _ _ _ => Iff.rfl⟩

lemma Keeps.trans (h : Keeps s s₀) (h' : Keeps s₀ s') : Keeps s s' where
  files hs := h'.files (h.files hs)
  writers d n i := (h'.writers d n i).trans (h.writers d n i)

lemma Keeps.of_eq (hentr : s'.entries = s.entries) (hmaps : s'.maps = s.maps) : Keeps s s' := by
  have hslot : ∀ j, s'.slot j = s.slot j := by
    intro j
    rw [State.slot, hentr]
    rfl
  have hfile : ∀ d n j, HasFile s' d n j ↔ HasFile s d n j := by
    intro d n j
    rw [HasFile, HasFile, hslot]
  refine ⟨fun hs => hs.of_sub (fun d => ?_) (fun d n j _ => (hfile d n j).1) fun d n j _ _ hmark => ?_, fun d n j => ?_⟩
  · rw [hmaps]
    exact hs.map d
  · rwa [hmaps]
  · rw [Writing, Writing, hslot]

section

variable (h : Touched s i e a s') (hi : s.slot i = some e)

include h hi

lemma Touched.writing_iff : Writing s' d n j ↔ Writing s d n j := by
  unfold Writing
  rw [slot_set hi h.entries]
  split_ifs with hj
  · subst hj
    rw [hi]
    cases a with
    | some x =>
      obtain ⟨hdirn, hfil, hstat⟩ := h.file x rfl
      simp [hdirn, hfil, hstat]
    | none =>
      have hidle := h.idle rfl
      simp [hidle]
  · rfl

lemma Touched.hasFile (hj : HasFile s' d n j) : HasFile s d n j ∧ (a = none → j ≠ i) := by
  obtain ⟨x, hx, hdirn, hfil⟩ := hj
  rw [slot_set hi h.entries] at hx
  split_ifs at hx with hj
  · subst hj
    obtain ⟨hd, hn, -⟩ := h.file x hx
    exact ⟨⟨e, hi, hd.symm.trans hdirn, hn.symm.trans hfil⟩, fun hnone => by simp [hnone] at hx⟩
  · exact ⟨⟨x, hx, hdirn, hfil⟩, fun _ => hj⟩

lemma Touched.keeps : Keeps s s' := by
  refine ⟨fun hs => hs.of_sub (fun d => ?_) (fun d n j _ hj => (h.hasFile hi hj).1) fun d n j hn hj hmark => ?_,
    fun d n j => h.writing_iff hi⟩
  · rw [h.maps]
    split_ifs
    · exact mapOk_resetBit hs.map _ _ d
    · exact hs.map d
  · rw [h.maps]
    split_ifs with hres
    · rw [test_resetBit hs.map]
      refine ⟨?_, hmark⟩
      rintro ⟨rfl, rfl⟩
      -- the file of the entry that is freed is not the file of another
      obtain ⟨hj', hne⟩ := h.hasFile hi hj
      exact hne hres.1 (hs.distinct _ _ j i hn hj' ⟨e, hi, rfl, rfl⟩)
    · exact hmark

end

/-! ## The functions -/

lemma keeps_append (hentr : s'.entries = s.entries ++ [some e]) (hstat : e.swapStatus ≠ .writing)
    (hfiles : FilesOk s → (∀ d n j, 0 ≤ n → HasFile s' d n j →
      j = s.entries.length ∧ d = e.swapDirn ∧ n = e.swapFilen ∨ HasFile s d n j) → FilesOk s') : Keeps s s' := by
  have hslot := slot_append hentr
  have hlast : s.slot s.entries.length = none := by
    rw [State.slot, List.getElem?_eq_none le_rfl]
    rfl
  refine ⟨fun hs => hfiles hs fun d n j _ hj => ?_, fun d n j => ?_⟩
  · obtain ⟨x, hx, hdirn, hfil⟩ := hj
    rw [hslot] at hx
    split_ifs at hx with hj
    · obtain rfl := some.inj hx
      exact .inl ⟨hj, hdirn.symm, hfil.symm⟩
    · exact .inr ⟨x, hx, hdirn, hfil⟩
  · unfold Writing
    rw [hslot]
    split_ifs with hj
    · simp [hj, hlast, hstat]
    · rfl

lemma keeps_stable (s : State Key) : Stable cfg False (Keeps s) where
  frame h hentr hmaps _ := h.trans (.of_eq hentr hmaps)
  touch h hi htou _ := h.trans (htou.keeps hi)
  create {s₀} cachable curtime h := by
    have hnew : Keeps s₀ (storeCreateEntry cachable curtime s₀) := by
      refine keeps_append rfl (by simp) fun hs hsub => hs.of_sub hs.map (fun d n j hn hj => ?_) fun _ _ _ _ _ hmark => hmark
      rcases hsub d n j hn hj with ⟨-, -, hfil⟩ | hj'
      · -- a new entry has no file
        have hneg : n = -1 := hfil
        omega
      · exact hj'
    exact h.trans hnew
  restore h _ hfree hset :=
    h.trans (keeps_append rfl (by simp [diskEntry]) fun hs hsub => hs.of_new hset hfree rfl hsub)
  validate {s₀ i e} h hi _ _ := by
    have hset : Touched s₀ i e _ (s₀.setEntry i { e with flags := CleanLog.ebitSet e.flags .entryValidated }) :=
      touched_set rfl ⟨rfl, rfl, rfl⟩ rfl
    exact (h.trans (hset.keeps hi)).trans (.of_eq rfl rfl)

/-! ## The start and the end of a swapout -/

lemma storeSwapOutStart_spec (hs : FilesOk s) (hi : s.slot i = some e)
    (hfree : fileMapBitTest (s.maps d) filn = false) (h : storeSwapOutStart i d filn s = .ok s') :
    FilesOk s' ∧ ∀ d' n j, Writing s' d' n j ↔ if j = i then d' = d ∧ n = filn else Writing s d' n j := by
  rw [storeSwapOutStart, entryAt_eq hi, ok_bind, bind_eq_ok] at h
  obtain ⟨fm, hset, h⟩ := h
  obtain rfl := ok.inj h
  have hslot : ∀ j, (State.setEntry { s with maps := update s.maps d fm } i
      { e with swapStatus := .writing, swapFilen := filn, swapDirn := d, lockCount := e.lockCount + 1 }).slot j =
      if j = i then some { e with swapStatus := .writing, swapFilen := filn, swapDirn := d, lockCount := e.lockCount + 1 }
      else s.slot j := slot_set hi rfl
  refine ⟨hs.of_new (i := i) hset hfree rfl fun d' n j _ hj => ?_, fun d' n j => ?_⟩
  · obtain ⟨x, hx, hdirn, hfil⟩ := hj
    rw [hslot] at hx
    split_ifs at hx with hji
    · obtain rfl := some.inj hx
      exact .inl ⟨hji, hdirn.symm, hfil.symm⟩
    · exact .inr ⟨x, hx, hdirn, hfil⟩
  · unfold Writing
    rw [hslot]
    split_ifs
    · simp [eq_comm]
    · rfl

lemma storeSwapOutFileClosed_spec (cfg : Config Key) (hs : FilesOk s) (hi : s.slot i = some e) (hwr : e.swapStatus = .writing)
    (size : Option ℤ) : ∃ s', storeSwapOutFileClosed cfg i size s = .ok s' ∧ FilesOk s' ∧
      (∀ d n j, Writing s' d n j ↔ j ≠ i ∧ Writing s d n j) ∧
      (size = none → (∀ d n j, 0 ≤ n → HasFile s' d n j → j ≠ i ∧ HasFile s d n j) ∧
        s'.maps = (if 0 < e.swapFilen then s.resetBit e.swapDirn e.swapFilen else s).maps) := by
  obtain ⟨s₁, x, hend, hentr, -, hidle, hdone, hfai⟩ := swapOutEnd_spec cfg hi hwr size
  have hslot := slot_set hi hentr
  obtain ⟨s', a, hunl, htou, -⟩ := storeUnlockObject_touched cfg ((hslot i).trans (if_pos rfl))
  have hkee := htou.keeps ((hslot i).trans (if_pos rfl))
  have hwri : ∀ d n j, Writing s₁ d n j ↔ j ≠ i ∧ Writing s d n j := by
    intro d n j
    unfold Writing
    rw [hslot]
    split_ifs with hj
    · simp [hj, hidle]
    · simp [hj]
  have hfiles : ∀ d n j, 0 ≤ n → HasFile s₁ d n j → HasFile s d n j ∧ (size = none → j ≠ i) := by
    rintro d n j hn ⟨y, hy, hdirn, hfil⟩
    rw [hslot] at hy
    split_ifs at hy with hj
    · obtain rfl := some.inj hy
      by_cases hsize : size = none
      · have hneg := (hfai hsize).2
        omega
      · obtain ⟨-, hd, hf⟩ := hdone hsize
        exact ⟨⟨e, hj ▸ hi, hd.symm.trans hdirn, hf.symm.trans hfil⟩, fun hnone => absurd hnone hsize⟩
    · exact ⟨⟨y, hy, hdirn, hfil⟩, fun _ => hj⟩
  have hs₁ : FilesOk s₁ := by
    refine hs.of_sub (fun d => ?_) (fun d n j hn hj => (hfiles d n j hn hj).1) fun d n j hn hj hmark => ?_
    · by_cases hsize : size = none
      · rw [(hfai hsize).1]
        split_ifs
        · exact mapOk_resetBit hs.map _ _ d
        · exact hs.map d
      · rw [(hdone hsize).1]
        exact hs.map d
    · by_cases hsize : size = none
      · rw [(hfai hsize).1]
        split_ifs
        · rw [test_resetBit hs.map]
          refine ⟨?_, hmark⟩
          rintro ⟨rfl, rfl⟩
          obtain ⟨hj', hne⟩ := hfiles _ _ j hn hj
          exact hne hsize (hs.distinct _ _ j i hn hj' ⟨e, hi, rfl, rfl⟩)
        · exact hmark
      · rwa [(hdone hsize).1]
  refine ⟨s', ?_, hkee.files hs₁, fun d n j => (hkee.writers d n j).trans (hwri d n j), fun hsize => ⟨fun d n j hn hj => ?_, ?_⟩⟩
  · rw [storeSwapOutFileClosed, entryAt_eq hi, ok_bind, cAssert_pos hwr, hend]
    exact hunl
  · obtain ⟨hj', hne⟩ := hfiles d n j hn ((htou.hasFile ((hslot i).trans (if_pos rfl)) hj).1)
    exact ⟨hne hsize, hj'⟩
  · have hmaps := htou.maps
    rw [(hfai hsize).2, if_neg (by simp)] at hmaps
    rw [hmaps, (hfai hsize).1]

/-! ## Swapouts that go on -/

/-- The swapouts that go on are those that were started, each to the file that was allocated for it. -/
structure Tracked (es : List (AttemptEvent Key)) (s : State Key) : Prop where
  files : FilesOk s
  writers : ∀ d n i, Writing s d n i ↔ allocated i es = some (d, n)
  nonneg : ∀ d n i, Writing s d n i → 0 ≤ n

lemma tracked_init (cfg : Config Key) : Tracked [] (State.init cfg) := by
  have hnone : ∀ i, (State.init cfg).slot i = none := fun i => by simp [State.slot, State.init]
  refine ⟨⟨fun _ => CleanLog.mapOk_create, ?_, ?_⟩, ?_, ?_⟩
  · simp [HasFile, hnone]
  · simp [HasFile, hnone]
  · simp [Writing, hnone, allocated]
  · simp [Writing, hnone]

lemma allocated_append (i : ℕ) (es : List (AttemptEvent Key)) (ev : AttemptEvent Key) :
    allocated i (es ++ [ev]) = allocatedNext i (allocated i es) ev := by
  rw [allocated, List.foldl_append]
  rfl

variable {es : List (AttemptEvent Key)} {ev : AttemptEvent Key}

lemma Tracked.keep (ht : Tracked es s) (h : Keeps s s') (hev : ∀ i file, allocatedNext i file ev = file) :
    Tracked (es ++ [ev]) s' := by
  refine ⟨h.files ht.files, fun d n i => ?_, fun d n i hw => ht.nonneg d n i ((h.writers d n i).1 hw)⟩
  rw [h.writers, ht.writers, allocated_append, hev]

/-- The number stays marked, although the entry does not get it. -/
theorem tryStart_failed (hs : FilesOk s) (hi : s.slot i = some e) (hidle : e.swapStatus = .none) (hfiln : filn < 2 ^ 24) :
    ∃ s', tryStart i d filn false s = .ok s' ∧ Keeps s s' ∧ fileMapBitTest (s'.maps d) filn = true := by
  obtain ⟨fm, hset, -⟩ := (hs.map d).set hfiln
  have hmaps := mapOk_update hs.map hset
  have htry : tryStart i d filn false s =
      .ok (State.setEntry { s with maps := update s.maps d fm } i { e with swapStatus := .none }) := by
    rw [tryStart, entryAt_eq hi, storeUfsCreate, hset]
    rfl
  have hkee : Keeps s { s with maps := update s.maps d fm } := by
    refine ⟨fun hs => hs.of_sub (fun d' => (hmaps d').1) (fun _ _ _ _ hj => hj) fun d' n j _ _ hmark => ?_, fun _ _ _ => Iff.rfl⟩
    exact ((hmaps d').2 n).2 (.inr hmark)
  refine ⟨_, htry, hkee.trans (Touched.keeps (a := some { e with swapStatus := .none }) ?_ hi), ?_⟩
  · exact touched_set rfl ⟨rfl, rfl, hidle.symm⟩ rfl
  · exact ((hmaps d).2 filn).2 (.inl ⟨rfl, rfl⟩)

variable [DecidableEq Key]

lemma keeps_step {ev : Event Key} (hstart : ∀ i d filn, ev ≠ .swapOutStart i d filn)
    (hclosed : ∀ i size, ev ≠ .swapOutClosed i size) : Ends (fun _ => True) (Keeps s) (step cfg s ev) :=
  (keeps_stable s).step (.refl s) (fun hfal => hfal.elim) hstart hclosed

/-! ## Runs -/

lemma createFailed_spec (hs : FilesOk s) (hena : attemptEnabled cfg s (.createFailed i d filn) = true) :
    ∃ s', attemptStep cfg s (.createFailed i d filn) = .ok s' ∧ Keeps s s' ∧ fileMapBitTest (s'.maps d) filn = true := by
  simp only [attemptEnabled, enabled, Bool.and_eq_true, decide_eq_true_eq] at hena
  obtain ⟨⟨⟨hhas, -⟩, -⟩, hfiln⟩ := hena
  obtain ⟨e, hi, hidle⟩ := slot_of_has hhas
  exact tryStart_failed hs hi (beq_iff_eq.1 hidle) hfiln

lemma Tracked.step (ht : Tracked es s) (hena : attemptEnabled cfg s ev = true) (hstep : attemptStep cfg s ev = .ok s') :
    Tracked (es ++ [ev]) s' := by
  cases ev with
  | createFailed i d filn =>
    obtain ⟨s₁, heq, hkee, -⟩ := createFailed_spec ht.files hena
    obtain rfl := ok.inj (heq.symm.trans hstep)
    exact ht.keep hkee fun _ _ => rfl
  | store ev =>
    have hoth : (∀ i d filn, ev ≠ .swapOutStart i d filn) → (∀ i size, ev ≠ .swapOutClosed i size) →
        (∀ i file, allocatedNext i file (.store ev) = file) → Tracked (es ++ [.store ev]) s' :=
      fun hstart hclosed hsame => ht.keep ((keeps_step hstart hclosed).ok_of_eq hstep) hsame
    cases ev with
    | swapOutStart i d filn =>
      simp only [attemptEnabled, enabled, Bool.and_eq_true, decide_eq_true_eq, Bool.not_eq_true'] at hena
      obtain ⟨⟨hhas, -, -, hfiln⟩, hfree⟩ := hena
      obtain ⟨e, hi, -⟩ := slot_of_has hhas
      obtain ⟨hfiles, hwri⟩ := storeSwapOutStart_spec ht.files hi hfree hstep
      refine ⟨hfiles, fun d' n j => ?_, fun d' n j hw => ?_⟩
      · rw [hwri, allocated_append, allocatedNext]
        by_cases hj : j = i
        · simp [hj, eq_comm]
        · simp [hj, Ne.symm hj, ht.writers]
      · rw [hwri] at hw
        split_ifs at hw
        · exact hw.2 ▸ hfiln
        · exact ht.nonneg d' n j hw
    | swapOutClosed i size =>
      obtain ⟨e, hi, hwr⟩ := slot_of_has (hena : s.has i (fun e => e.swapStatus == .writing) = true)
      obtain ⟨s₁, heq, hfiles, hwri, -⟩ := storeSwapOutFileClosed_spec cfg ht.files hi (beq_iff_eq.1 hwr) size
      obtain rfl := ok.inj (heq.symm.trans hstep)
      refine ⟨hfiles, fun d' n j => ?_, fun d' n j hw => ht.nonneg d' n j ((hwri d' n j).1 hw).2⟩
      rw [hwri, allocated_append, allocatedNext]
      by_cases hj : j = i
      · simp [hj]
      · simp [hj, Ne.symm hj, ht.writers]
    | _ => exact hoth (by simp) (by simp) fun _ _ => rfl

lemma tracked_of_reached (h : (attempts cfg).Reached (fun _ _ => true) es s) : Tracked es s := by
  induction h with
  | init => exact tracked_init cfg
  | next ev _ hena _ hstep ih => exact ih.step hena hstep

/-- After a swapout that fails its file is neither marked nor the file of an entry if and only if it was opened
and is not file 0. -/
theorem failed_file_free_iff {d filn : ℤ} {opened : Bool} (h : (attempts cfg).Reached (fun _ _ => true) es s)
    (henabled : attemptEnabled cfg s ev = true) (hfailure : failure es ev = some (d, filn, opened)) :
    ∃ s', attemptStep cfg s ev = .ok s' ∧
      (fileMapBitTest (s'.maps d) filn = false ∧ (∀ i, ¬ HasFile s' d filn i) ↔ opened = true ∧ filn ≠ 0) := by
  have ht := tracked_of_reached h
  cases ev with
  | createFailed i d' filn' =>
    obtain ⟨rfl, rfl, rfl⟩ : d' = d ∧ filn' = filn ∧ false = opened := by simpa [failure] using hfailure
    obtain ⟨s', heq, -, hmar⟩ := createFailed_spec ht.files henabled
    exact ⟨s', heq, by simp [hmar]⟩
  | store ev =>
    cases ev with
    | swapOutClosed i size =>
      cases size with
      | some size => simp [failure] at hfailure
      | none =>
        obtain ⟨hfile, rfl⟩ : allocated i es = some (d, filn) ∧ true = opened := by
          simp only [failure, map_eq_some_iff] at hfailure
          obtain ⟨file, hfile, hpair⟩ := hfailure
          cases hpair
          exact ⟨hfile, rfl⟩
        have hw := (ht.writers d filn i).2 hfile
        have hnn := ht.nonneg d filn i hw
        have hfile := hw.hasFile
        have hmar := ht.files.marked d filn i hnn hfile
        obtain ⟨e, hi, hwr, rfl, rfl⟩ := hw
        obtain ⟨s', heq, -, -, hfai⟩ := storeSwapOutFileClosed_spec cfg ht.files hi hwr none
        obtain ⟨hfiles, hmaps⟩ := hfai rfl
        have hgone : ∀ j, ¬ HasFile s' e.swapDirn e.swapFilen j := by
          intro j hj
          obtain ⟨hne, hj'⟩ := hfiles _ _ j hnn hj
          exact hne (ht.files.distinct _ _ j i hnn hj' hfile)
        have hmark : fileMapBitTest (s'.maps e.swapDirn) e.swapFilen = false ↔ e.swapFilen ≠ 0 := by
          rw [hmaps, ← Bool.not_eq_true]
          split_ifs with hpos
          · rw [test_resetBit ht.files.map]
            simp [hpos.ne']
          · -- the file of number 0 is left marked
            simp only [hmar, not_true, false_iff]
            omega
        exact ⟨s', heq, by simp [hgone, hmark]⟩
    | _ => simp [failure] at hfailure

/-- A write error of a swapout to file 1. -/
theorem failed_file_free_one : ∃ s s', (attempts oneDirectory).Reached (fun _ _ => true)
    [.store (.create true 5), .store (.swapOutStart 0 0 1)] s ∧
    attemptStep oneDirectory s (.store (.swapOutClosed 0 none)) = .ok s' ∧
    fileMapBitTest (s'.maps 0) 1 = false ∧ ∀ i, ¬ HasFile s' 0 1 i := by
  obtain ⟨s, hs, hena⟩ := (attempts oneDirectory).exists_reached (fun _ _ => true)
    [.store (.create true 5), .store (.swapOutStart 0 0 1)]
    (fun s => attemptEnabled oneDirectory s (.store (.swapOutClosed 0 none)) = true) (by decide +kernel)
  obtain ⟨s', hstep, hiff⟩ := failed_file_free_iff hs hena (rfl : failure _ _ = some _)
  exact ⟨s, s', hs, hstep, hiff.2 ⟨rfl, by decide⟩⟩

/-- A file that cannot be opened stays marked, and so does file 0 after a write error. -/
theorem failed_file_marked :
    (failure [.store (.create true 5)] (.createFailed 0 0 1 : AttemptEvent ℕ) = some (0, 1, false) ∧
      ∃ s, (attempts oneDirectory).Reached (fun _ _ => true) [.store (.create true 5), .createFailed 0 0 1] s ∧
        fileMapBitTest (s.maps 0) 1 = true) ∧
    failure [.store (.create true 5), .store (.swapOutStart 0 0 0)] (.store (.swapOutClosed 0 none) : AttemptEvent ℕ) = some (0, 0, true) ∧
      ∃ s, (attempts oneDirectory).Reached (fun _ _ => true)
        [.store (.create true 5), .store (.swapOutStart 0 0 0), .store (.swapOutClosed 0 none)] s ∧
        fileMapBitTest (s.maps 0) 0 = true :=
  ⟨⟨rfl, (attempts _).exists_reached _ _ (fun s => fileMapBitTest _ 1 = true) (by decide +kernel)⟩,
    rfl, (attempts _).exists_reached _ _ (fun s => fileMapBitTest _ 0 = true) (by decide +kernel)⟩

end SquidVideoCache.SwapSize
