import SquidVideoCache.Store.Publish

/-!
# Watching an entry

`Guard` says of one entry that it is in the table and what it is like, and who may have which public
key besides. It outlasts everything that happens to other entries.
-/

namespace SquidVideoCache.Store
open Lib StoreKey VideoReg Function

variable {Key : Type} {cfg : Config Key} {s t u : State Key} {e : ℕ} {x y : StoreEntry Key}

/-- The watched entry, what its URL and its reply are like, who may have a public key, which entries
memory objects may hold, and a request that stays as it is. -/
structure Watch (Key : Type) where
  entry : ℕ
  object : CString → Reply → Prop
  holders : Key → ℕ → Prop
  links : ℕ → Prop
  request : ℕ
  value : Request

/-- The method fits a byte, the entries that are held exist and may be held, and the object of the
watched entry is as it should be. -/
def MemSane (w : Watch Key) (e n : ℕ) (mem : MemObject) : Prop :=
  mem.method.toNat < 256 ∧ (∀ i, mem.imsEntry = some i ∨ mem.oldEntry = some i → i < n ∧ w.links i) ∧
    (e = w.entry → w.object mem.url mem.reply)

structure Guard (cfg : Config Key) (w : Watch Key) (A : StoreEntry Key → Prop) (s : State Key) : Prop where
  fresh : ∀ i, s.nextEntry ≤ i → s.entries i = none
  memObj : ∀ i x mem, s.entries i = some x → x.memObj = some mem → MemSane w i s.nextEntry mem
  holders : ∀ k i, IsPublicKey cfg k → i ∈ s.table → keyOf s i = some k → w.holders k i
  request : s.requests w.request = w.value
  mem_table : w.entry ∈ s.table
  entry : ∃ x, s.entries w.entry = some x ∧ A x

variable {w : Watch Key} {A : StoreEntry Key → Prop} {m : Option MemObject} {num : ℕ} {key : Key} {st : StoreStatus}

lemma MemWanes.sane {n : ℕ} {m' : Option MemObject} (h : MemWanes m m')
    (hm : ∀ mem, m = some mem → MemSane w e n mem) : ∀ mem, m' = some mem → MemSane w e n mem := by
  intro mem' hmem'
  obtain ⟨mem, hmem, hsame, hims, hold⟩ := h mem' hmem'
  obtain ⟨hmet, hrest⟩ := Prod.mk.inj hsame
  obtain ⟨hurl, hrep⟩ := Prod.mk.inj hrest
  have hsane := hm mem hmem
  refine ⟨by rw [hmet]; exact hsane.1, ?_, by rw [hurl, hrep]; exact hsane.2.2⟩
  rintro i (hi | hi)
  · exact hsane.2.1 i (Or.inl (hims i hi))
  · exact hsane.2.1 i (Or.inr (hold i hi))

namespace Guard

lemma lt_nextEntry (h : Guard cfg w A s) (he : s.entries e = some x) : e < s.nextEntry := by
  by_contra hle
  rw [h.fresh e (Nat.le_of_not_lt hle)] at he
  cases he

lemma isLocal : Local (Guard cfg w A) := by
  intro s t hent htab hnext hreq h
  have hkey : keyOf t = keyOf s := by
    funext i
    rw [keyOf, keyOf, hent]
  refine ⟨?_, ?_, ?_, ?_, ?_, ?_⟩
  · rw [hent, hnext]
    exact h.fresh
  · rw [hent, hnext]
    exact h.memObj
  · rw [hkey, htab]
    exact h.holders
  · rw [hreq]
    exact h.request
  · rw [htab]
    exact h.mem_table
  · rw [hent]
    exact h.entry

lemma replaces (h : Guard cfg w A s) (hne : e ≠ w.entry) (he : s.entries e = some x)
    {z : Option (StoreEntry Key)} (hst : Replaces e z s t)
    (hm : ∀ y, z = some y → ∀ mem, y.memObj = some mem → MemSane w e s.nextEntry mem)
    (hk : ∀ y k, z = some y → y.key = some k → IsPublicKey cfg k → e ∈ t.table → w.holders k e) : Guard cfg w A t := by
  refine ⟨?_, ?_, ?_, ?_, ?_, ?_⟩
  · intro i hi
    rw [hst.nextEntry] at hi
    have hie : i ≠ e := fun heq => absurd (h.lt_nextEntry he) (Nat.not_lt.mpr (heq ▸ hi))
    rw [hst.of_ne hie]
    exact h.fresh i hi
  · intro i y mem hy hmem
    rw [hst.nextEntry]
    by_cases hie : i = e
    · rw [hie] at hy ⊢
      rw [hst.self] at hy
      exact hm y hy mem hmem
    · rw [hst.of_ne hie] at hy
      exact h.memObj i y mem hy hmem
  · intro k i hpub hi hki
    obtain ⟨y, hy, hyk⟩ := keyOf_eq_some.mp hki
    by_cases hie : i = e
    · rw [hie] at hy hi ⊢
      rw [hst.self] at hy
      exact hk y k hy hyk hpub hi
    · rw [hst.of_ne hie] at hy
      exact h.holders k i hpub ((hst.table i hie).mp hi) (keyOf_eq_some.mpr ⟨y, hy, hyk⟩)
  · rw [hst.requests]
    exact h.request
  · exact (hst.table _ hne.symm).mpr h.mem_table
  · rw [hst.of_ne hne.symm]
    exact h.entry

lemma set (h : Guard cfg w A s) (hne : e ≠ w.entry) (he : s.entries e = some x) (hk : y.key = x.key)
    (hm : ∀ mem, y.memObj = some mem → MemSane w e s.nextEntry mem) : Guard cfg w A (setEntry e y s) := by
  refine h.replaces hne he ⟨rfl, fun _ _ => Iff.rfl, rfl, rfl, rfl, rfl⟩ ?_ ?_
  · intro z hz
    cases hz
    exact hm
  · intro z k hz hzk hpub hi
    cases hz
    exact h.holders k e hpub hi (keyOf_eq_some.mpr ⟨x, he, by rw [← hk, hzk]⟩)

variable {B : StoreEntry Key → Prop}

lemma setSelf (h : Guard cfg w A s) (he : s.entries w.entry = some x)
    (hk : y.key = x.key) (hm : ∀ mem, y.memObj = some mem → MemSane w w.entry s.nextEntry mem) (hB : B y) :
    Guard cfg w B (Store.setEntry w.entry y s) := by
  have hkey : keyOf (Store.setEntry w.entry y s) = keyOf s := by
    funext i
    by_cases hi : i = w.entry
    · rw [hi, keyOf_of_entry setEntry_self, keyOf_of_entry he, hk]
    · rw [keyOf, keyOf, setEntry_entries, update_of_ne hi]
  refine ⟨?_, ?_, ?_, h.request, h.mem_table, y, setEntry_self, hB⟩
  · intro i hi
    have hie : i ≠ w.entry := fun heq => absurd (h.lt_nextEntry he) (Nat.not_lt.mpr (heq ▸ hi))
    rw [setEntry_entries, update_of_ne hie]
    exact h.fresh i hi
  · intro i z mem hz hmem
    by_cases hi : i = w.entry
    · rw [hi] at hz ⊢
      rw [setEntry_self] at hz
      cases hz
      exact hm mem hmem
    · rw [setEntry_entries, update_of_ne hi] at hz
      exact h.memObj i z mem hz hmem
  · rw [hkey]
    exact h.holders

lemma put (h : Guard cfg w A s) (he : s.entries e = some x) (hk : y.key = x.key)
    (hm : ∀ mem, y.memObj = some mem → MemSane w e s.nextEntry mem) (hA : e = w.entry → A x → A y) :
    Guard cfg w A (Store.setEntry e y s) := by
  by_cases hew : e = w.entry
  · obtain ⟨z, hz, hAz⟩ := h.entry
    rw [hew] at he hm ⊢
    cases hz.symm.trans he
    exact h.setSelf he hk hm (hA hew hAz)
  · exact h.set hew he hk hm

lemma links : Links (Guard cfg w A) w.links :=
  fun h he hmem hi => ((h.memObj _ _ _ he hmem).2.1 _ hi).2

lemma mono (h : Guard cfg w A s) (hAB : ∀ x, A x → B x) : Guard cfg w B s := by
  obtain ⟨x, hx, hA⟩ := h.entry
  exact ⟨h.fresh, h.memObj, h.holders, h.request, h.mem_table, x, hx, hAB x hA⟩

end Guard

/-! ## What happens to other entries -/

variable [DecidableEq Key]

omit [DecidableEq Key] in
lemma memWanes_privately (key : Key) (num : ℕ) : MemWanes x.memObj (privately key num x).memObj :=
  .map _ fun _ => ⟨rfl, fun _ => id, fun _ => id⟩

section

variable (hmd5 : Injective cfg.md5)

include hmd5

section

omit [DecidableEq Key]

lemma newPrivateKey_not_public (hpos : 0 < num) (hm : ∀ mem, m = some mem → mem.method.toNat < 256)
    (hkey : newPrivateKey cfg m num = .ok key) : ¬ IsPublicKey cfg key := by
  rw [newPrivateKey_eq _ hpos] at hkey
  cases hkey
  exact fun hpub => hpub.not_isPrivateKey hmd5 (isPrivateKey_privateKey hpos hm)

lemma Guard.privately (h : Guard cfg w A s) (hne : e ≠ w.entry)
    (he : s.entries e = some x) (hpos : 0 < num) (hkey : newPrivateKey cfg x.memObj num = .ok key)
    (hst : Replaces e (some (Store.privately key num x)) s t) : Guard cfg w A t := by
  refine h.replaces hne he hst (fun z hz => ?_) fun z k hz hk hpub _ => ?_
  · cases hz
    exact (memWanes_privately key num).sane (h.memObj e x · he)
  · cases hz
    cases hk
    exact absurd hpub (newPrivateKey_not_public hmd5 hpos (fun mem hmem => (h.memObj e x mem he hmem).1) hkey)

end

lemma Guard.tolerates (hne : e ≠ w.entry) : Tolerates cfg (Guard cfg w A) e := by
  refine tolerates_of_replaces ?_ ?_ ?_
  · intro s x y h he hxy
    exact h.set hne he hxy.key (hxy.memObj.sane (h.memObj e x · he))
  · intro s t x num key h he hpos hkey hst
    exact h.privately hmd5 hne he hpos hkey hst
  · intro s t x h he hst
    exact h.replaces hne he hst (fun z hz => by cases hz) fun z _ hz => by cases hz

/-- An entry that no memory object may hold is left alone by the unlocks of other entries. -/
theorem Guard.unlockFuel_of_ne (hself : ¬ w.links w.entry) (fuel : ℕ)
    (hne : e ≠ w.entry) : Preserves (Guard cfg w A) (unlockFuel cfg fuel e) := by
  induction fuel generalizing e with
  | zero => exact fun _ _ => trivial
  | succ fuel ih =>
    refine (Guard.tolerates hmd5 hne).unlockFuel_succ Guard.isLocal Guard.links fun i hi => ih ?_
    intro heq
    exact hself (heq ▸ hi)

end

/-! ## Entries that stay in the store -/

/-- The whole object is in memory and may be written to disk. -/
structure InCore (x : StoreEntry Key) : Prop where
  keepInMemory : storeKeepInMemory x
  entryCachable : x.flags.entryCachable
  entryBadLength : ¬ x.flags.entryBadLength

/-- A public entry that is not to be released; if its transfer is over it is on disk or in memory. -/
structure Present (k : Key) (st : StoreStatus) (x : StoreEntry Key) : Prop where
  key : x.key = some k
  keyPrivate : ¬ x.flags.keyPrivate
  releaseRequest : ¬ x.flags.releaseRequest
  storeStatus : x.storeStatus = st
  kept : (st = .ok ∧ x.swapStatus = .done) ∨ InCore x

section

omit [DecidableEq Key]

lemma storeKeepInMemory_map {f : MemObject → MemObject} (hy : y.memObj = x.memObj.map f)
    (hf : ∀ mem, (f mem).hasData = mem.hasData ∧ (f mem).inmemLo = mem.inmemLo) :
    storeKeepInMemory y = storeKeepInMemory x := by
  rw [storeKeepInMemory, hy, storeKeepInMemory]
  cases x.memObj with
  | none => rfl
  | some mem => simp [hf mem]

lemma storeKeepInMemory_congr (h : y.memObj = x.memObj) : storeKeepInMemory y = storeKeepInMemory x := by
  rw [storeKeepInMemory, h, storeKeepInMemory]

lemma Present.congr {k : Key} (h : Present k st x) (hk : y.key = x.key)
    (hf : y.flags = x.flags) (hs : y.storeStatus = x.storeStatus) (hw : y.swapStatus = x.swapStatus)
    (hm : storeKeepInMemory y = storeKeepInMemory x) : Present k st y := by
  refine ⟨by rw [hk, h.key], by rw [hf]; exact h.keyPrivate, by rw [hf]; exact h.releaseRequest,
    by rw [hs, h.storeStatus], ?_⟩
  rcases h.kept with hdone | hcore
  · exact Or.inl ⟨hdone.1, by rw [hw, hdone.2]⟩
  · exact Or.inr ⟨by rw [hm]; exact hcore.keepInMemory, by rw [hf]; exact hcore.entryCachable,
      by rw [hf]; exact hcore.entryBadLength⟩

lemma Present.done_of_not_keepInMemory {k : Key} (h : Present k .ok x) (hm : ¬ storeKeepInMemory x) :
    x.swapStatus = .done :=
  h.kept.elim (fun hdone => hdone.2) fun hcore => absurd hcore.keepInMemory hm

/-- A change of the watched entry that does not matter. -/
theorem Guard.touch {k : Key} (hA : ∀ x, A x → Present k st x)
    (hclosed : ∀ x y, A x → Present k st y → y.swapStatus = x.swapStatus → A y) (h : Guard cfg w A s)
    (hx : s.entries w.entry = some x) (hAx : A x) (hk : y.key = x.key) (hf : y.flags = x.flags)
    (hs : y.storeStatus = x.storeStatus) (hw : y.swapStatus = x.swapStatus)
    (hkeep : storeKeepInMemory y = storeKeepInMemory x) (hm : MemWanes x.memObj y.memObj) :
    Guard cfg w A (setEntry w.entry y s) :=
  h.setSelf hx hk (hm.sane fun mem => h.memObj _ x mem hx)
    (hclosed x y hAx ((hA x hAx).congr hk hf hs hw hkeep) hw)

end

section

variable {k : Key} (hA : ∀ x, A x → Present k .ok x)
  (hclosed : ∀ x y, A x → Present k .ok y → y.swapStatus = x.swapStatus → A y)
  {unlock : ℕ → State Key → Result (State Key)}

include hA hclosed

omit [DecidableEq Key] in
lemma Guard.storeSetMemStatus_self (status : MemStatus) :
    Preserves (Guard cfg w A) (storeSetMemStatus w.entry status) := by
  intro s h
  obtain ⟨x, hx, hAx⟩ := h.entry
  refine (storeSetMemStatus_ends hx trivial).mono ?_
  intro t ⟨status', ht⟩
  rw [ht]
  exact h.touch hA hclosed hx hAx rfl rfl rfl rfl rfl (.refl _)

section

variable (hdone : ∀ x, A x → x.swapStatus = .done) (hu : ∀ i, Preserves (Guard cfg w A) (unlock i))

include hdone hu

omit [DecidableEq Key] in
lemma Guard.destroyMemObject_self : Preserves (Guard cfg w A) (destroyMemObject unlock w.entry) := by
  intro s h
  obtain ⟨x, hx, hAx⟩ := h.entry
  have hp := hA x hAx
  have hlink : ∀ link, Preserves (Guard cfg w A) (unlockLink unlock link) := by
    intro link
    cases link with
    | none => exact preserves_ok
    | some i => exact hu i
  have hgone : Guard cfg w A (setEntry w.entry { x with memObj := none } s) := by
    refine h.setSelf hx rfl (fun mem hmem => by cases hmem) (hclosed x _ hAx ?_ rfl)
    exact ⟨hp.key, hp.keyPrivate, hp.releaseRequest, hp.storeStatus, Or.inl ⟨rfl, hdone x hAx⟩⟩
  rw [destroyMemObject, entryAt_eq hx, ok_bind]
  cases hm : x.memObj with
  | none => trivial
  | some mem =>
    apply ends_check (fun _ => trivial)
    intro _
    exact (hlink _ _ hgone).bind (hlink _)

lemma Guard.purgeMemWith_self : Preserves (Guard cfg w A) (purgeMemWith cfg unlock w.entry) := by
  intro s h
  obtain ⟨x, hx, hAx⟩ := h.entry
  rw [purgeMemWith, entryAt_eq hx]
  refine ends_ite (fun _ => h) fun _ => ?_
  refine (Guard.storeSetMemStatus_self hA hclosed _ s h).bind fun t ht => ?_
  refine (Guard.destroyMemObject_self hA hclosed hdone hu t ht).bind fun u hu' => ?_
  obtain ⟨y, hy, hAy⟩ := hu'.entry
  rw [entryAt_eq hy]
  exact ends_ite (fun hne => absurd (hdone y hAy) hne) fun _ => hu'

end

lemma Guard.unlockLast_self (hu : ∀ i, Preserves (Guard cfg w fun x => A x ∧ x.swapStatus = .done) (unlock i)) :
    Preserves (Guard cfg w A) (unlockLast cfg unlock w.entry) := by
  intro s h
  obtain ⟨x, hx, hAx⟩ := h.entry
  have hp := hA x hAx
  rw [unlockLast_over hx fun hpend => by rw [hp.storeStatus] at hpend; cases hpend]
  apply ends_check (fun _ => trivial)
  intro _
  refine ends_ite (fun hr => absurd hr hp.releaseRequest) fun _ => ends_ite (fun _ => ?_) fun hkeep => ?_
  · refine (Guard.storeSetMemStatus_self hA hclosed _ s h).bind fun t ht => ?_
    obtain ⟨y, hy, hAy⟩ := ht.entry
    rw [modifyMem, entryAt_eq hy]
    exact ht.touch hA hclosed hy hAy rfl rfl rfl rfl (storeKeepInMemory_map rfl fun _ => ⟨rfl, rfl⟩)
      (.map _ fun _ => ⟨rfl, fun _ => id, fun _ => id⟩)
  · -- an entry that is not kept in memory is on disk, and stays so
    have hdisk : Guard cfg w (fun x => A x ∧ x.swapStatus = .done) s :=
      ⟨h.fresh, h.memObj, h.holders, h.request, h.mem_table, x, hx, hAx, hp.done_of_not_keepInMemory hkeep⟩
    refine (Guard.purgeMemWith_self (fun x hx => hA x hx.1) ?_ (fun x hx => hx.2) hu s hdisk).bind fun t ht => ?_
    · intro x y hx hy hw
      exact ⟨hclosed x y hx.1 hy hw, hw.trans hx.2⟩
    · have ht' := ht.mono fun x hx => hx.1
      unfold storeEntryDereferenced
      cases t.entries w.entry with
      | none => exact Guard.isLocal (s := t) rfl rfl rfl rfl ht'
      | some y => exact ht'

end

-- on the fuel, for every property of the watched entry at once: its own last unlock may need that
-- it is on disk
lemma Guard.unlockFuel (hmd5 : Injective cfg.md5) {k : Key} (fuel e : ℕ) (hA : ∀ x, A x → Present k .ok x)
    (hclosed : ∀ x y, A x → Present k .ok y → y.swapStatus = x.swapStatus → A y) :
    Preserves (Guard cfg w A) (unlockFuel cfg fuel e) := by
  induction fuel generalizing e A with
  | zero => exact fun _ _ => trivial
  | succ fuel ih =>
    by_cases he : e = w.entry
    · rw [he]
      intro s h
      obtain ⟨x, hx, hAx⟩ := h.entry
      have hset : Guard cfg w A (setEntry w.entry { x with lockCount := x.lockCount - 1 } s) :=
        h.touch hA hclosed hx hAx rfl rfl rfl rfl rfl (.refl _)
      rw [Store.unlockFuel, entryAt_eq hx]
      refine ends_ite (fun _ => hset) fun _ => Guard.unlockLast_self hA hclosed (fun i => ?_) _ hset
      exact ih i (fun x hx => hA x hx.1) fun x y hx hy hw => ⟨hclosed x y hx.1 hy hw, hw.trans hx.2⟩
    · exact (Guard.tolerates hmd5 he).unlockFuel_succ Guard.isLocal
        (fun _ _ _ _ => trivial) fun i _ => ih i hA hclosed

/-! ## Entries that may be used -/

/-- Every entry may be used if the watched one stays without a lock, otherwise every other one. -/
def Spared (w : Watch Key) (A : StoreEntry Key → Prop) (e : ℕ) : Prop :=
  (∃ k, A = Present k .ok) ∨ (¬ w.links w.entry ∧ e ≠ w.entry)

section

omit [DecidableEq Key]

lemma Spared.linked (hs : Spared w A e) {i : ℕ} (hi : w.links i) : Spared w A i :=
  hs.imp_right fun h => ⟨h.1, fun heq => h.1 (heq ▸ hi)⟩

lemma Spared.present (hs : Spared w A e) (he : e = w.entry) : ∃ k, A = Present k .ok :=
  hs.resolve_right fun h => h.2 he

end

section

variable (hmd5 : Injective cfg.md5) (hs : Spared w A e)

include hs

omit [DecidableEq Key] in
lemma Guard.write (h : Guard cfg w A s) (he : s.entries e = some x) (hk : y.key = x.key)
    (hf : y.flags = x.flags) (hst : y.storeStatus = x.storeStatus) (hsw : y.swapStatus = x.swapStatus)
    (hkeep : storeKeepInMemory y = storeKeepInMemory x)
    (hm : ∀ mem, y.memObj = some mem → MemSane w e s.nextEntry mem) : Guard cfg w A (setEntry e y s) := by
  refine h.put he hk hm fun heq hAx => ?_
  obtain ⟨k, rfl⟩ := hs.present heq
  exact hAx.congr hk hf hst hsw hkeep

include hmd5

lemma Guard.unlockFuel_spared (fuel : ℕ) : Preserves (Guard cfg w A) (Store.unlockFuel cfg fuel e) := by
  rcases hs with ⟨k, rfl⟩ | ⟨hself, hne⟩
  · exact Guard.unlockFuel hmd5 fuel e (fun _ => id) fun _ _ _ hy _ => hy
  · exact Guard.unlockFuel_of_ne hmd5 hself fuel hne

lemma Guard.storeUnlockObject : Preserves (Guard cfg w A) (storeUnlockObject cfg e) :=
  fun s h => Guard.unlockFuel_spared hmd5 hs _ s h

lemma Guard.storeRelease (hne : e ≠ w.entry) : Preserves (Guard cfg w A) (storeRelease cfg e) := by
  intro s h
  exact (Guard.tolerates hmd5 hne).releaseWith Guard.isLocal Guard.links
    (fun i hi => Guard.unlockFuel_spared hmd5 (hs.linked hi) _) s h

end

end SquidVideoCache.Store
