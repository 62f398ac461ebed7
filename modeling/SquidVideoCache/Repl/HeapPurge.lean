import SquidVideoCache.Repl.HeapPolicy
import SquidVideoCache.Repl.Lru
import SquidVideoCache.Store.Keyword
import Mathlib.Algebra.Order.BigOperators.Group.List
import Mathlib.Algebra.Order.Group.Nat

/-!
# A purge walk over the heap policy

A walk takes nodes from the root of the heap. An entry that is not locked is returned, without a
policy node. A locked one is locked once more and put aside, with a policy node that points to a
freed heap node, until `heap_purgeDone` puts it back.
-/

namespace SquidVideoCache.HeapPolicy
open Lib Store Function List

variable {Key HeapKey : Type}

/-! ## The state of the policy -/

/-- What holds of an entry in the heap: it is not special, as `heap_add` refuses those; while it is written to disk it has
the lock of `storeSwapOutStart`; and without a lock it has no clients. -/
structure EntryOk (owner : Owner) (entry : StoreEntry Key) : Prop where
  memObj : owner = .memPolicy → entry.memObj.isSome
  special : entry.flags.entrySpecial = false
  writing : entry.swapStatus = .writing → entry.lockCount ≠ 0
  clients : entry.lockCount = 0 → storePendingNClients entry = 0

/-- The heap has the node of the entry. -/
def Managed (s : State Key HeapKey) (e : ℕ) : Prop := ∃ a, contents s.policy.heap a = some e

/-- The state of a policy in a walk that has put the entries `aside`. -/
structure WalkOk (s : State Key HeapKey) (aside : List ℕ) : Prop where
  heap : HeapOk s.policy.heap
  node : ∀ e ∉ aside, ∀ a, policyNode s.owner.location s e = some a ↔ contents s.policy.heap a = some e
  out : ∀ e ∈ aside, ¬ Managed s e
  nodup : aside.Nodup
  type : (∃ e, Managed s e ∨ e ∈ aside) → s.policy.type = s.owner.location
  guessed : s.policy.type = .unknown ∨ s.policy.type = s.owner.location
  entries : ∀ e, Managed s e → ∃ entry, s.store.entries e = some entry ∧ EntryOk s.owner entry
  held : ∀ e ∈ aside, ∃ entry, s.store.entries e = some { entry with lockCount := entry.lockCount + 1 } ∧
    EntryOk s.owner entry ∧ storeEntryLocked entry
  calls : ∀ c ∈ s.calls, InHeap c.1 c.2
  nwalkers : 0 ≤ s.policy.nwalkers

/-- The state of a policy between walks: the policy node of each entry in the heap points to its own heap node, and no
other policy node points to one. -/
def PolicyOk (s : State Key HeapKey) : Prop := WalkOk s []

variable {s s' : State Key HeapKey} {aside : List ℕ} {e a : ℕ} {entry : StoreEntry Key} {s'' : State Key HeapKey}

lemma entryOf_eq (h : s.store.entries e = some entry) : entryOf e s = .ok entry := by
  rw [entryOf, entryAt, h, liftStore]

/-! ## Policy nodes -/

lemma setPolicyNode_spec (value : Option ℕ) (he : s.store.entries e = some entry) (hmem : s.owner = .memPolicy → entry.memObj.isSome) :
    ∃ s', setPolicyNode s.owner.location e value s = .ok s' ∧ s'.store = s.store ∧ s'.policy = s.policy ∧ s'.owner = s.owner ∧
      s'.calls = s.calls ∧ policyNode s.owner.location s' = update (policyNode s.owner.location s) e value := by
  cases hown : s.owner with
  | swapDir dirn => exact ⟨_, rfl, rfl, rfl, hown, rfl, rfl⟩
  | memPolicy =>
    refine ⟨{ s with memNode := update s.memNode e value }, ?_, rfl, rfl, hown, rfl, rfl⟩
    simp [Owner.location, setPolicyNode, entryOf_eq he, check, if_pos (hmem hown), liftStore]

lemma WalkOk.eq_of_contents (h : WalkOk s aside) {b : ℕ} (ha : contents s.policy.heap a = some e)
    (hb : contents s.policy.heap b = some e) : a = b := by
  have hout : e ∉ aside := fun hmem => h.out e hmem ⟨a, ha⟩
  rw [← h.node e hout] at ha hb
  exact Option.some.inj (ha.symm.trans hb)

lemma WalkOk.contents_erase (h : WalkOk s aside) (ha : contents s.policy.heap a = some e) (x b : ℕ) :
    update (contents s.policy.heap) a none b = some x ↔ contents s.policy.heap b = some x ∧ x ≠ e := by
  by_cases hba : b = a
  · subst hba
    rw [update_self, ha, Option.some.injEq]
    constructor
    · intro hx
      cases hx
    · rintro ⟨rfl, hne⟩
      exact absurd rfl hne
  · rw [update_of_ne hba, iff_self_and]
    rintro hb rfl
    exact hba (h.eq_of_contents hb ha)

lemma WalkOk.calls_append (h : WalkOk s aside) (ha : contents s.policy.heap a = some e) :
    ∀ c ∈ s.calls ++ [(s.policy.heap, a)], InHeap c.1 c.2 := by
  intro c hc
  rcases mem_append.1 hc with hc | hc
  · exact h.calls c hc
  · rw [mem_singleton.1 hc]
    exact h.heap.inHeap ha

/-! ## Taking the root -/

lemma HeapOk.peepminkey_eq {hp : Heap HeapKey ℕ} (h : HeapOk hp) (hlast : hp.last ≠ 0) : ∃ key, heapPeepminkey hp = .ok key := by
  have hpos := Nat.pos_of_ne_zero hlast
  obtain ⟨a, x, hslot, ha, -⟩ := h.slot_eq hpos
  exact ⟨x.key, by rw [heapPeepminkey, cAssert_pos (h.nodeExist_iff.2 hpos), ok_bind, hslot, ok_bind, nodeOf_eq ha, ok_bind, pure_eq_ok]⟩

/-- The entry `e` is taken from the heap, and its policy node is left as it is. -/
structure Extracted (s : State Key HeapKey) (e : ℕ) (s' : State Key HeapKey) : Prop where
  store : s'.store = s.store
  owner : s'.owner = s.owner
  type : s'.policy.type = s.policy.type
  nwalkers : s'.policy.nwalkers = s.policy.nwalkers
  node : policyNode s.owner.location s' = policyNode s.owner.location s
  heap : HeapOk s'.policy.heap
  last : s'.policy.heap.last + 1 = s.policy.heap.last
  managed : Managed s e
  contents : ∀ x b, contents s'.policy.heap b = some x ↔ contents s.policy.heap b = some x ∧ x ≠ e
  calls : ∀ c ∈ s'.calls, InHeap c.1 c.2

lemma Extracted.managed_iff (h : Extracted s e s') (x : ℕ) : Managed s' x ↔ Managed s x ∧ x ≠ e := by
  simp [Managed, h.contents]

section
variable [LE HeapKey] [DecidableLE HeapKey] [LT HeapKey] [DecidableLT HeapKey]

lemma WalkOk.extractRoot_spec (h : WalkOk s aside) (hlast : s.policy.heap.last ≠ 0) :
    ∃ age e s', extractRoot s = .ok (age, e, s') ∧ Extracted s e s' := by
  obtain ⟨age, hpeep⟩ := h.heap.peepminkey_eq hlast
  obtain ⟨a, e, hp, ha, hslot, hmin, hok, hcon, hlast', -⟩ := h.heap.extractmin hlast
  refine ⟨age, e, { s with policy := { s.policy with heap := hp }, calls := s.calls ++ [(s.policy.heap, a)] }, ?_,
    ⟨rfl, rfl, rfl, rfl, by cases s.owner <;> rfl, hok, hlast', ⟨a, ha⟩, fun x b => ?_, h.calls_append ha⟩⟩
  · rw [extractRoot, hpeep, hslot, hmin]
    rfl
  · rw [hcon, h.contents_erase ha]

end

/-- What a walk keeps: the entries in the heap and those put aside. -/
def Kept (s : State Key HeapKey) (aside : List ℕ) (x : ℕ) : Prop := Managed s x ∨ x ∈ aside

/-- A locked entry is put aside with its policy node as it was. -/
theorem WalkOk.putAside (h : WalkOk s aside) (hex : Extracted s e s')
    (hs : s'' = withEntry e { entry with lockCount := entry.lockCount + 1 } s') (hok : EntryOk s.owner entry)
    (hloc : storeEntryLocked entry) : WalkOk s'' (aside ++ [e]) ∧ ∀ x, Kept s'' (aside ++ [e]) x ↔ Kept s aside x := by
  have hout : e ∉ aside := fun hmem => h.out e hmem hex.managed
  have hman : ∀ x, Managed s'' x ↔ Managed s x ∧ x ≠ e := by
    subst hs
    exact hex.managed_iff
  have hentr : ∀ x, x ≠ e → s''.store.entries x = s.store.entries x := by
    intro x hx
    subst hs
    simp [withEntry, hx, hex.store]
  have hown : s''.owner = s.owner := by
    subst hs
    exact hex.owner
  have hself : s''.store.entries e = some { entry with lockCount := entry.lockCount + 1 } := by
    subst hs
    exact update_self ..
  have htype : s''.policy.type = s''.owner.location := by
    rw [hown, ← h.type ⟨e, .inl hex.managed⟩, ← hex.type]
    subst hs
    rfl
  refine ⟨⟨?_, ?_, ?_, ?_, fun _ => htype, .inr htype, ?_, ?_, ?_, ?_⟩, fun x => ?_⟩
  · subst hs
    exact hex.heap
  · intro x hx b
    rw [mem_append, mem_singleton, not_or] at hx
    subst hs
    show policyNode s'.owner.location s' x = some b ↔ contents s'.policy.heap b = some x
    rw [hex.contents, hex.owner, hex.node, h.node x hx.1, and_iff_left hx.2]
  · intro x hx hm
    rw [hman] at hm
    rcases mem_append.1 hx with hx | hx
    · exact h.out x hx hm.1
    · exact hm.2 (mem_singleton.1 hx)
  · rw [nodup_append]
    refine ⟨h.nodup, by simp, ?_⟩
    rintro x hx y hy rfl
    rw [mem_singleton] at hy
    exact hout (hy ▸ hx)
  · intro x hx
    rw [hman] at hx
    rw [hown, hentr x hx.2]
    exact h.entries x hx.1
  · intro x hx
    rw [hown]
    by_cases hxe : x = e
    · subst hxe
      exact ⟨entry, hself, hok, hloc⟩
    · rw [hentr x hxe]
      exact h.held x ((mem_append.1 hx).resolve_right fun hmem => hxe (mem_singleton.1 hmem))
  · subst hs
    exact hex.calls
  · subst hs
    exact h.nwalkers.trans_eq hex.nwalkers.symm
  · unfold Kept
    rw [hman]
    by_cases hxe : x = e
    · subst hxe
      simp [hex.managed]
    · simp [hxe]

lemma WalkOk.returned (h : WalkOk s aside) (hex : Extracted s e s') (hsto : s''.store = s'.store)
    (hpol : s''.policy = s'.policy) (hown : s''.owner = s'.owner) (hcal : s''.calls = s'.calls)
    (hnode : policyNode s'.owner.location s'' = update (policyNode s'.owner.location s') e none) :
    WalkOk s'' aside ∧ ∀ x, Kept s'' aside x ↔ Kept s aside x ∧ x ≠ e := by
  have hout : e ∉ aside := fun hmem => h.out e hmem hex.managed
  have hman : ∀ x, Managed s'' x ↔ Managed s x ∧ x ≠ e := by
    intro x
    rw [Managed, hpol]
    exact hex.managed_iff x
  have hmem_ne : ∀ x ∈ aside, x ≠ e := by
    rintro x hx rfl
    exact hout hx
  have htype : s''.policy.type = s''.owner.location := by
    rw [hpol, hown, hex.type, hex.owner]
    exact h.type ⟨e, .inl hex.managed⟩
  refine ⟨⟨?_, ?_, ?_, h.nodup, fun _ => htype, .inr htype, ?_, ?_, ?_, ?_⟩, fun x => ?_⟩
  · rw [hpol]
    exact hex.heap
  · intro x hx b
    rw [hown, hpol, hnode, hex.contents, hex.owner, hex.node]
    by_cases hxe : x = e
    · subst hxe
      simp
    · rw [update_of_ne hxe, h.node x hx, and_iff_left hxe]
  · intro x hx hm
    exact h.out x hx ((hman x).1 hm).1
  · intro x hx
    rw [hsto, hex.store, hown, hex.owner]
    exact h.entries x ((hman x).1 hx).1
  · rw [hsto, hex.store, hown, hex.owner]
    exact h.held
  · rw [hcal]
    exact hex.calls
  · rw [hpol, hex.nwalkers]
    exact h.nwalkers
  · unfold Kept
    rw [hman, or_and_right, and_iff_left_of_imp (hmem_ne x)]

section
variable [LE HeapKey] [DecidableLE HeapKey] [LT HeapKey] [DecidableLT HeapKey] [Add HeapKey] [Div HeapKey]
  [NatCast HeapKey]
variable (cfg : Setup Key HeapKey) {w : PurgeWalker Key HeapKey}

/-- The policy is not called when an entry is locked. -/
theorem storeLockObject_eq (he : s.store.entries e = some entry) : storeLockObject cfg e s =
      .ok (withEntry e { entry with lockCount := entry.lockCount + 1, lastref := s.store.curtime } s) := by
  have hlock : onStore (Store.storeLockObject e) s =
      .ok (withEntry e { entry with lockCount := entry.lockCount + 1, lastref := s.store.curtime } s) := by
    simp [onStore, Store.storeLockObject, entryAt, he, liftStore, withEntry]
  rw [storeLockObject, hlock, ok_bind, storeEntryReferenced, entryOf_eq (update_self ..)]
  cases hown : s.owner with
  | memPolicy => simp [withEntry, hown, callback, createRemovalPolicyHeap]
  | swapDir dirn => simp [withEntry, hown, callback, createRemovalPolicyHeap]

lemma WalkOk.purgeNext (k : ℕ) (h : WalkOk w.state w.lockedEntries) (hk : w.state.policy.heap.last < k) :
    ∃ r w', heapPurgeNext cfg k w = .ok (r, w') ∧ WalkOk w'.state w'.lockedEntries ∧
      w'.state.policy.nwalkers = w.state.policy.nwalkers ∧
      ∀ x, Kept w'.state w'.lockedEntries x ↔ Kept w.state w.lockedEntries x ∧ r ≠ some x := by
  induction k generalizing w with
  | zero => omega
  | succ k ih =>
    rw [heapPurgeNext]
    by_cases hlast : w.state.policy.heap.last = 0
    · exact ⟨none, w, by rw [if_pos hlast], h, rfl, fun x => by simp⟩
    · obtain ⟨age, e, s', hroot, hex⟩ := h.extractRoot_spec hlast
      obtain ⟨entry, he, hok⟩ := h.entries e hex.managed
      have he' : s'.store.entries e = some entry := by rw [hex.store, he]
      rw [if_neg hlast, hroot, ok_bind, entryOf_eq he', ok_bind]
      by_cases hloc : storeEntryLocked entry
      · -- the entry is put aside, and the heap is smaller by a node
        have hok' : EntryOk w.state.owner { entry with lastref := s'.store.curtime } :=
          ⟨hok.memObj, hok.special, hok.writing, hok.clients⟩
        obtain ⟨hwalk, hkept⟩ := h.putAside hex rfl hok' hloc
        obtain ⟨r, w', hnext, hwalk', hn, hkept'⟩ := ih (w := ⟨_, w.lockedEntries ++ [e], w.minAge⟩) hwalk
          (by have hlt := hex.last; show s'.policy.heap.last < k; omega)
        refine ⟨r, w', ?_, hwalk', hn.trans hex.nwalkers, fun x => (hkept' x).trans (and_congr_left' (hkept x))⟩
        rw [if_pos hloc, storeLockObject_eq cfg he']
        exact hnext
      · obtain ⟨s'', hset, hsto, hpol, hown, hcal, hnode⟩ :=
          setPolicyNode_spec none he' (by rw [hex.owner]; exact hok.memObj)
        obtain ⟨hwalk, hkept⟩ := h.returned hex hsto hpol hown hcal hnode
        have htype : s'.policy.type = s'.owner.location := by
          rw [hex.type, hex.owner]
          exact h.type ⟨e, .inl hex.managed⟩
        refine ⟨some e, ⟨s'', w.lockedEntries, age⟩, ?_, hwalk, ?_, fun x => ?_⟩
        · rw [if_neg hloc, htype, hset, ok_bind, pure_eq_ok]
        · rw [hpol, hex.nwalkers]
        · rw [hkept, ne_eq, ne_eq, Option.some.injEq, eq_comm]

lemma WalkOk.purgeCalls (n : ℕ) (h : WalkOk w.state w.lockedEntries) :
    ∃ returned w', heapPurgeCalls cfg n w = .ok (returned, w') ∧ WalkOk w'.state w'.lockedEntries ∧
      w'.state.policy.nwalkers = w.state.policy.nwalkers ∧
      ∀ x, Kept w'.state w'.lockedEntries x ↔ Kept w.state w.lockedEntries x ∧ x ∉ returned := by
  induction n generalizing w with
  | zero => exact ⟨[], w, rfl, h, rfl, fun x => by simp⟩
  | succ n ih =>
    obtain ⟨r, w₁, hnext, h₁, hn₁, hkept₁⟩ := h.purgeNext cfg _ (Nat.lt_succ_self _)
    obtain ⟨rest, w₂, hrest, h₂, hn₂, hkept₂⟩ := ih h₁
    refine ⟨r.toList ++ rest, w₂, ?_, h₂, hn₂.trans hn₁, fun x => ?_⟩
    · rw [heapPurgeCalls, hnext, ok_bind, hrest, ok_bind, pure_eq_ok]
    · rw [hkept₂, hkept₁, and_assoc, mem_append, not_or, Option.mem_toList]

/-! ## Putting back -/

variable [DecidableEq Key]

omit [LE HeapKey] [DecidableLE HeapKey] [LT HeapKey] [DecidableLT HeapKey] [Add HeapKey] [Div HeapKey] [NatCast HeapKey]
  [DecidableEq Key] in
/-- An entry of the heap that is locked without a lock count is pending. -/
theorem EntryOk.pending (hok : EntryOk s.owner entry) (hloc : storeEntryLocked entry) (hzero : entry.lockCount = 0) :
    entry.storeStatus = .pending := by
  have hwr : entry.swapStatus ≠ .writing := fun hw => hok.writing hw hzero
  simpa [storeEntryLocked, hzero, hwr, hok.special] using hloc

section

variable (unlock : ℕ → State Key HeapKey → Outcome (State Key HeapKey)) (he : s.store.entries e = some entry)

include unlock he

lemma storeRelease_marked (hloc : storeEntryLocked entry) (hmar : entry.flags.releaseRequest) :
    storeRelease cfg unlock e s = .ok (withEntry e { entry with expires := s.store.curtime } s) := by
  have hexp : onStore (storeExpireNow e) s = .ok (withEntry e { entry with expires := s.store.curtime } s) := by
    simp [onStore, storeExpireNow, entryAt, he, liftStore, withEntry]
  have hself : (withEntry e { entry with expires := s.store.curtime } s).store.entries e =
      some { entry with expires := s.store.curtime } := update_self ..
  rw [storeRelease, entryOf_eq he, ok_bind, if_pos hloc, hexp]
  simp [onStore, storeReleaseRequest, entryAt, hself, hmar, liftStore]

/-- An entry marked for release at the time `t`. -/
def forRelease (t : ℤ) (entry : StoreEntry Key) : StoreEntry Key :=
  { entry with flags := { entry.flags with releaseRequest := true }, expires := t }

lemma unlockLast_pending (hpending : entry.storeStatus = .pending) (hcli : storePendingNClients entry = 0) :
    ∃ store, unlockLast cfg unlock e s = .ok { s with store := store } ∧
      store.entries = update s.store.entries e (some (forRelease s.store.curtime entry)) := by
  have hreq : (entry.flags.releaseRequest || entry.storeStatus == .pending) = true := by
    rw [hpending, beq_self_eq_true, Bool.or_true]
  have hloc : storeEntryLocked { entry with flags := { entry.flags with releaseRequest := true } } := by
    simp [storeEntryLocked, hpending]
  refine ⟨setEntry e _
    (setEntry e { entry with flags := { entry.flags with releaseRequest := true } } _), ?_, update_idem ..⟩
  rw [unlockLast, entryOf_eq he]
  simp only [hreq, hcli, ok_bind]
  rw [storeRelease_marked cfg unlock (update_self ..) hloc rfl]
  rfl

end

/-- The unlock after an entry has been put back. Where the count was 0 before the walk, the entry is pending. -/
theorem unlock_held (he : s.store.entries e = some { entry with lockCount := entry.lockCount + 1 }) (hok : EntryOk s.owner entry)
    (hloc : storeEntryLocked entry) :
    ∃ entry' store, storeUnlockObject cfg e s = .ok { s with store := store } ∧
      store.entries = update s.store.entries e (some entry') ∧ EntryOk s.owner entry' := by
  have hcou : entry.lockCount + 1 - 1 = entry.lockCount := by simp
  rw [storeUnlockObject, unlockFuel, entryOf_eq he, ok_bind]
  simp only [hcou]
  by_cases hzero : entry.lockCount = 0
  · obtain ⟨store, hlast, hentr⟩ := unlockLast_pending cfg _ (s := withEntry e entry s)
      (update_self ..) (hok.pending hloc hzero) (hok.clients hzero)
    refine ⟨_, store, ?_, hentr.trans (update_idem ..), hok.memObj, hok.special, hok.writing, hok.clients⟩
    rw [if_neg (not_not.2 hzero)]
    exact hlast
  · exact ⟨entry, _, by rw [if_pos hzero]; rfl, rfl, hok⟩

omit [LT HeapKey] [DecidableLT HeapKey] [Add HeapKey] [Div HeapKey] [NatCast HeapKey] [DecidableEq Key] in
lemma insert_spec (genKey : ℕ → HeapKey → HeapKey) (e : ℕ) {hp : Heap HeapKey ℕ} (h : HeapOk hp) (hfree : hp.mem a = none) :
    ∃ hp', heapInsert genKey a e hp = .ok hp' ∧ HeapOk hp' ∧
      ∀ x b, contents hp' b = some x ↔ contents hp b = some x ∨ b = a ∧ x = e := by
  obtain ⟨hp', hins, hok, hcon, -⟩ := h.insert genKey e hfree
  have hnone : contents hp a = none := by rw [contents, hfree, Option.map_none]
  refine ⟨hp', hins, hok, fun x b => ?_⟩
  rw [hcon]
  by_cases hba : b = a
  · subst hba
    simp [hnone, eq_comm]
  · simp [hba]

lemma WalkOk.reinsert_spec (h : WalkOk s (e :: aside)) :
    ∃ s', reinsert cfg e s = .ok s' ∧ WalkOk s' aside ∧ ∀ x, Kept s' aside x ↔ Kept s (e :: aside) x := by
  obtain ⟨entry, he, hok, hloc⟩ := h.held e mem_cons_self
  obtain ⟨hout, hnod⟩ := nodup_cons.1 h.nodup
  obtain ⟨hp, hins, hheap, hcon⟩ := insert_spec (fun _ => cfg.keyfunc { entry with lockCount := entry.lockCount + 1 }) e
    h.heap (cfg.xmalloc_free _ h.heap)
  have htype := h.type ⟨e, .inr mem_cons_self⟩
  obtain ⟨s₁, hset, hsto, hpol, hown, hcal, hnode⟩ :=
    setPolicyNode_spec (s := { s with policy := { s.policy with heap := hp } }) (some (cfg.xmalloc s.policy.heap)) he hok.memObj
  obtain ⟨entry', store, hunl, hentr, hok'⟩ :=
    unlock_held cfg (by rw [hsto, he]) (by rw [hown]; exact hok) hloc
  have hman : ∀ x, Managed { s₁ with store := store } x ↔ Managed s x ∨ x = e := by
    intro x
    simp [Managed, hpol, hcon, exists_or]
  have hne : ∀ x ∈ aside, x ≠ e := by
    rintro x hx rfl
    exact hout hx
  have hsame : ∀ x, x ≠ e → store.entries x = s.store.entries x := by
    intro x hx
    rw [hentr, update_of_ne hx, hsto]
  have htype' : s₁.policy.type = s₁.owner.location := by
    rw [hpol, hown]
    exact htype
  refine ⟨{ s₁ with store := store }, ?_, ⟨?_, ?_, ?_, hnod, fun _ => htype', .inr htype', ?_, ?_, ?_, ?_⟩, fun x => ?_⟩
  · rw [reinsert, entryOf_eq he]
    simp only [hins, ok_bind]
    nth_rewrite 1 [htype]
    exact (congrArg (· >>= storeUnlockObject cfg e) hset).trans hunl
  · rw [hpol]
    exact hheap
  · intro x hx b
    show policyNode s₁.owner.location s₁ x = some b ↔ contents s₁.policy.heap b = some x
    rw [hown, hnode, hpol, hcon]
    by_cases hxe : x = e
    · subst hxe
      have hnot : contents s.policy.heap b ≠ some x := fun hb => h.out x mem_cons_self ⟨b, hb⟩
      simp [hnot, eq_comm]
    · have hx' : x ∉ e :: aside := by simp [hxe, hx]
      rw [update_of_ne hxe, ← h.node x hx']
      simp only [hxe, and_false, or_false]
      rfl
  · intro x hx hm
    rcases (hman x).1 hm with hm | hxe
    · exact h.out x (mem_cons_of_mem e hx) hm
    · exact hne x hx hxe
  · intro x hx
    by_cases hxe : x = e
    · subst hxe
      exact ⟨entry', by rw [hentr, update_self], hok'⟩
    · rw [hsame x hxe, hown]
      exact h.entries x (((hman x).1 hx).resolve_right hxe)
  · intro x hx
    rw [hsame x (hne x hx), hown]
    exact h.held x (mem_cons_of_mem e hx)
  · rw [hcal]
    exact h.calls
  · rw [hpol]
    exact h.nwalkers
  · unfold Kept
    rw [hman, mem_cons, or_assoc]

lemma WalkOk.reinsertAll_spec (h : WalkOk s aside) :
    ∃ s', reinsertAll cfg aside s = .ok s' ∧ WalkOk s' [] ∧ ∀ x, Managed s' x ↔ Kept s aside x := by
  induction aside generalizing s with
  | nil => exact ⟨s, rfl, h, fun x => by simp [Kept]⟩
  | cons e aside ih =>
    obtain ⟨s₁, hone, h₁, hkept₁⟩ := h.reinsert_spec cfg
    obtain ⟨s₂, hrest, h₂, hkept₂⟩ := ih h₁
    exact ⟨s₂, by rw [reinsertAll, hone, ok_bind, hrest], h₂, fun x => (hkept₂ x).trans (hkept₁ x)⟩

/-! ## The walk -/

omit [LE HeapKey] [DecidableLE HeapKey] [LT HeapKey] [DecidableLT HeapKey] [Add HeapKey] [Div HeapKey] [NatCast HeapKey]
  [DecidableEq Key] in
lemma WalkOk.aged (h : WalkOk s aside) {nwalkers : ℤ} (hn : 0 ≤ nwalkers) (age : HeapKey) :
    WalkOk { s with policy := { s.policy with nwalkers := nwalkers, heap := { s.policy.heap with age := age } } } aside :=
  ⟨⟨h.heap.size_pos, h.heap.last_le, h.heap.slots, h.heap.nodes⟩, h.node, h.out, h.nodup, h.type, h.guessed, h.entries,
    h.held, h.calls, hn⟩

variable [Zero HeapKey]

/-- A walk never gives `heap_update` or `heap_delete` a node that is not in the heap. It leaves the entries in the heap that
it has not returned, each with a policy node that points to its own heap node. -/
theorem heapPurge_ok (n : ℕ) (s : State Key HeapKey) (hs : PolicyOk s) :
    ∃ returned s', heapPurge cfg n s = .ok (returned, s') ∧ (∀ c ∈ s'.calls, InHeap c.1 c.2) ∧
      (∀ e, Managed s' e ↔ Managed s e ∧ e ∉ returned) ∧
      (∀ e, Managed s' e → ∃ a, policyNode s'.owner.location s' e = some a ∧ InHeap s'.policy.heap a ∧
        contents s'.policy.heap a = some e) ∧ PolicyOk s' := by
  have hn : 0 ≤ s.policy.nwalkers + 1 := hs.nwalkers.trans (Int.le_add_one le_rfl)
  have hinit : WalkOk (heapPurgeInit s).state (heapPurgeInit s).lockedEntries := hs.aged hn _
  obtain ⟨returned, w, hcal, hw, hnw, hkept⟩ := hinit.purgeCalls cfg n
  have hpos : 0 < w.state.policy.nwalkers := by
    rw [hnw]
    exact Int.lt_add_one_of_le hs.nwalkers
  have hn' : 0 ≤ w.state.policy.nwalkers - 1 := by omega
  have haged := hw.aged hn' (if 0 < w.minAge then w.minAge else w.state.policy.heap.age)
  obtain ⟨s', hdone, hok, hman⟩ := haged.reinsertAll_spec cfg
  refine ⟨returned, s', ?_, hok.calls, fun e => ?_, fun e he => ?_, hok⟩
  · have hend : heapPurgeDone cfg w = .ok s' := by
      rw [heapPurgeDone, cAssert_pos hpos]
      exact hdone
    rw [heapPurge, hcal, ok_bind, hend, ok_bind, pure_eq_ok]
  · rw [hman]
    refine (hkept e).trans (and_congr_left' ?_)
    exact or_iff_left (by simp [heapPurgeInit])
  · obtain ⟨a, ha⟩ := he
    exact ⟨a, (hok.node e (by simp) a).2 ha, hok.heap.inHeap ha, ha⟩

end

/-! ## The policy between walks -/

/-- An entry that may be given to the policy. -/
def Live (store : Store.State Key) (owner : Owner) (e : ℕ) : Prop := ∃ entry, store.entries e = some entry ∧
  (owner = .memPolicy → entry.memObj.isSome) ∧ (entry.flags.entrySpecial = false → EntryOk owner entry)

structure Manages (store : Store.State Key) (owner : Owner) (s : State Key HeapKey) (m : Finset ℕ) : Prop where
  ok : PolicyOk s
  store : s.store = store
  owner : s.owner = owner
  managed : ∀ e, Managed s e ↔ e ∈ m

section

variable {store : Store.State Key} {owner : Owner} {m : Finset ℕ}

/-- What the policy is for: the set of the entries that it manages. Special ones are not taken in. -/
def manage (m : Finset ℕ) : Lru.Call {e // Live store owner e} → Outcome (Finset ℕ)
  | .add e => do
    liftHeap (cAssert (↑e ∉ m))
    pure (if (store.entries e).any (·.flags.entrySpecial) then m else insert ↑e m)
  | .remove e => .ok (m.erase e)
  | .referenced _ => .ok m

lemma Manages.mem_iff (h : Manages store owner s m) (e : ℕ) : e ∈ m ↔ policyNode s.owner.location s e ≠ none := by
  simp [← h.managed, Managed, Option.ne_none_iff_exists', h.ok.node e]

variable [LE HeapKey] [DecidableLE HeapKey] [LT HeapKey] [DecidableLT HeapKey] (cfg : Setup Key HeapKey)

section

variable (h : Manages store owner s m) (e : {e // Live store owner e})

include h

lemma Manages.remove : Refines (Manages store owner) (heapRemove s.owner.location e s) (manage m (.remove e)) := by
  have hmem := h.mem_iff e
  obtain ⟨hok, rfl, rfl, hman⟩ := h
  obtain ⟨entry, he, hobj, -⟩ := e.2
  rw [manage, heapRemove]
  cases hnode : policyNode s.owner.location s e with
  | none => exact ⟨hok, rfl, rfl, by simpa [Finset.erase_eq_of_notMem, hmem, hnode] using hman⟩
  | some a =>
    have ha := (hok.node e (by simp) a).1 hnode
    obtain ⟨hp, hdel, hheap, hcon, hlast, -⟩ := hok.heap.delete ha
    let t : State Key HeapKey := { s with
      policy := { s.policy with heap := hp, count := s.policy.count - 1 }, calls := s.calls ++ [(s.policy.heap, a)] }
    have hex : Extracted s e t := ⟨rfl, rfl, rfl, rfl, by cases s.owner <;> rfl, hheap, hlast, ⟨a, ha⟩,
        fun x b => by rw [← hok.contents_erase ha, ← hcon], hok.calls_append ha⟩
    obtain ⟨s', hset, hsto, hpol, hown, hcal, hnode'⟩ := setPolicyNode_spec (s := t) none he hobj
    obtain ⟨hok', hkept⟩ := WalkOk.returned hok hex hsto hpol hown hcal hnode'
    simp only [hdel, liftHeap, ok_bind]
    rw [hset]
    exact ⟨hok', hsto, hown, fun x => by simpa [Kept, hman, and_comm] using hkept x⟩

lemma Manages.referenced : Refines (Manages store owner) (heapReferenced cfg s.owner.location e s) (.ok m) := by
  obtain ⟨hok, rfl, rfl, hman⟩ := h
  obtain ⟨entry, he, -⟩ := e.2
  rw [heapReferenced]
  cases hnode : policyNode s.owner.location s e with
  | none => exact ⟨hok, rfl, rfl, hman⟩
  | some a =>
    have ha := (hok.node e (by simp) a).1 hnode
    obtain ⟨hp, hupd, hheap, hcon, -⟩ := hok.heap.update (fun _ => cfg.keyfunc entry) e ha
    rw [← ha, update_eq_self] at hcon
    have hsame : ∀ x, (∃ b, contents hp b = some x) ↔ Managed s x := by
      intro x
      rw [hcon, Managed]
    simp only [entryOf_eq he, hupd, liftHeap, ok_bind]
    refine ⟨⟨hheap, ?_, by simp, nodup_nil, ?_, hok.guessed, ?_, by simp, hok.calls_append ha, hok.nwalkers⟩, rfl, rfl,
      fun x => (hsame x).trans (hman x)⟩
    · intro x hx b
      show policyNode s.owner.location _ x = some b ↔ contents hp b = some x
      rw [hcon, ← hok.node x hx]
      cases s.owner <;> rfl
    · rintro ⟨x, hx | hx⟩
      · exact hok.type ⟨x, .inl ((hsame x).1 hx)⟩
      · cases hx
    · intro x hx
      exact hok.entries x ((hsame x).1 hx)

variable [Add HeapKey] [Div HeapKey] [NatCast HeapKey]

omit [LT HeapKey] [DecidableLT HeapKey] in
lemma Manages.add : Refines (Manages store owner) (heapAdd cfg s.owner.location e s) (manage m (.add e)) := by
  have hmem := h.mem_iff e
  obtain ⟨hok, rfl, rfl, hman⟩ := h
  obtain ⟨entry, he, -, hent⟩ := e.2
  rw [manage, heapAdd]
  by_cases hnode : policyNode s.owner.location s e = none
  swap
  · simp [cAssert, hnode, hmem, liftHeap, Refines]
  have hout : ↑e ∉ m := by simp [hmem, hnode]
  rw [cAssert_pos hnode, cAssert_pos hout, liftHeap, ok_bind, entryOf_eq he, ok_bind, ok_bind, he, Option.any_some]
  cases hspe : entry.flags.entrySpecial with
  | true => exact ⟨hok, rfl, rfl, hman⟩
  | false =>
    have hent := hent hspe
    obtain ⟨hp, hins, hheap, hcon⟩ := insert_spec (fun _ => cfg.keyfunc entry) e hok.heap (cfg.xmalloc_free _ hok.heap)
    obtain ⟨s₁, hset, hsto, hpol, hown, hcal, hnode'⟩ := setPolicyNode_spec (some (cfg.xmalloc s.policy.heap)) he hent.memObj
    have hnew : ∀ x, (∃ b, contents hp b = some x) ↔ Managed s x ∨ x = e := by
      intro x
      simp [Managed, hcon, exists_or]
    have htype : (if s₁.policy.type = .unknown then s.owner.location else s₁.policy.type) = s₁.owner.location := by
      rw [hpol, hown]
      rcases hok.guessed with hunk | hkno
      · rw [if_pos hunk]
      · rw [hkno, ite_self]
    simp only [hins, liftHeap, ok_bind, hset, Bool.false_eq_true, if_false]
    refine ⟨⟨⟨hheap.size_pos, hheap.last_le, hheap.slots, hheap.nodes⟩, ?_, by simp, nodup_nil, fun _ => htype, .inr htype,
      ?_, by simp, ?_, ?_⟩, hsto, hown, fun x => (hnew x).trans (by simp [hman, or_comm])⟩
    · intro x hx b
      show policyNode s₁.owner.location s₁ x = some b ↔ contents hp b = some x
      rw [hown, hnode', hcon]
      by_cases hxe : x = e
      · subst hxe
        have hnot : contents s.policy.heap b ≠ some ↑e := fun hb => hout ((hman _).1 ⟨b, hb⟩)
        simp [hnot, eq_comm]
      · rw [update_of_ne hxe, hok.node x hx]
        simp only [hxe, and_false, or_false]
    · intro x hx
      show ∃ entry, s₁.store.entries x = some entry ∧ EntryOk s₁.owner entry
      rw [hsto, hown]
      rcases (hnew x).1 hx with hx | rfl
      · exact hok.entries x hx
      · exact ⟨entry, he, hent⟩
    · show ∀ c ∈ s₁.calls, InHeap c.1 c.2
      rw [hcal]
      exact hok.calls
    · show 0 ≤ s₁.policy.nwalkers
      rw [hpol]
      exact hok.nwalkers

def policyCall (s : State Key HeapKey) : Lru.Call {e // Live store owner e} → Outcome (State Key HeapKey)
  | .add e => heapAdd cfg s.owner.location e s
  | .remove e => heapRemove s.owner.location e s
  | .referenced e => heapReferenced cfg s.owner.location e s

/-- In every run between walks the heap holds the managed entries, and their policy nodes point into it. -/
theorem heap_refines_managed (calls : List (Lru.Call {e // Live store owner e})) :
    Refines (Manages store owner) (calls.foldlM (policyCall cfg) s) (calls.foldlM manage m) := by
  apply refines_foldlM _ _ h
  intro call s m h
  cases call with
  | add e => exact h.add cfg e
  | remove e => exact h.remove e
  | referenced e => exact h.referenced cfg e

end

end

def freshAddress (hp : Heap HeapKey ℕ) : ℕ := ((List.range hp.last).map fun i => (hp.nodes i).getD 0).sum + 1

lemma freshAddress_free (hp : Heap HeapKey ℕ) (h : HeapOk hp) : hp.mem (freshAddress hp) = none := by
  by_contra hmem
  obtain ⟨x, hx⟩ := Option.ne_none_iff_exists'.1 hmem
  obtain ⟨hlt, hslot⟩ := h.nodes _ x hx
  have hle : freshAddress hp ≤ ((List.range hp.last).map fun i => (hp.nodes i).getD 0).sum := by
    apply le_sum_of_mem
    rw [mem_map]
    exact ⟨x.id, mem_range.2 hlt, by rw [hslot, Option.getD_some]⟩
  exact absurd hle (Nat.not_succ_le_self _)

/-- The keys are the times of the last reference. -/
def lruSetup : Setup (List UInt8) ℕ :=
  ⟨plainConfig ⟨Acsm.acsmNew, Acsm.acsmNew⟩, fun entry _ => entry.lastref.toNat, freshAddress, freshAddress_free⟩

/-- Two entries on disk, the first of which is locked. -/
def twoEntries : State (List UInt8) ℕ where
  store := { videoStore with
    entries := fun e => if e < 2 then some { cachedVideo with lockCount := if e = 0 then 1 else 0 } else none }
  policy := ⟨⟨fun a => if a < 2 then some ⟨a, a, a⟩ else none, 1000, 2, 1, fun i => if i < 2 then some i else none⟩, 2, 0, .storeEntry⟩
  owner := .swapDir 0
  replNode := fun e => if e < 2 then some e else none
  memNode := fun _ => none
  calls := []

lemma contents_twoEntries (a e : ℕ) : contents twoEntries.policy.heap a = some e ↔ a < 2 ∧ e = a := by
  simp only [contents, twoEntries]
  grind

lemma twoEntries_ok : PolicyOk twoEntries where
  heap := by
    refine ⟨by decide, by decide, fun i hi => ?_, fun a x hx => ?_⟩
    · have hi' : i < 2 := hi
      exact ⟨i, ⟨i, i, i⟩, if_pos hi', if_pos hi', rfl⟩
    · obtain ⟨ha, heq⟩ := Option.ite_none_right_eq_some.1 (show (if a < 2 then some _ else none) = some x from hx)
      cases heq
      exact ⟨ha, if_pos ha⟩
  node := by
    intro e _ a
    rw [contents_twoEntries]
    show (if e < 2 then some e else none) = some a ↔ _
    rw [Option.ite_none_right_eq_some, Option.some.injEq]
    constructor
    · rintro ⟨he, rfl⟩
      exact ⟨he, rfl⟩
    · rintro ⟨ha, rfl⟩
      exact ⟨ha, rfl⟩
  out := by simp
  nodup := nodup_nil
  type := fun _ => rfl
  guessed := .inr rfl
  entries := by
    rintro e ⟨a, ha⟩
    rw [contents_twoEntries] at ha
    obtain ⟨ha, rfl⟩ := ha
    exact ⟨_, if_pos ha, by simp [twoEntries], rfl, by simp [cachedVideo], fun _ => rfl⟩
  held := by simp
  calls := by simp [twoEntries]
  nwalkers := le_rfl

theorem heap_refines_managed_two : ∃ store owner, ∀ calls : List (Lru.Call {e // Live store owner e}),
    Refines (Manages store owner) (calls.foldlM (policyCall lruSetup) twoEntries) (calls.foldlM manage {0, 1}) :=
  ⟨_, _, heap_refines_managed lruSetup ⟨twoEntries_ok, rfl, rfl, fun e => by simp [Managed, contents_twoEntries]; omega⟩⟩

theorem heapPurge_twoEntries : ∃ returned s', heapPurge lruSetup 2 twoEntries = .ok (returned, s') ∧
    (∀ c ∈ s'.calls, InHeap c.1 c.2) ∧ (∀ e, Managed s' e ↔ Managed twoEntries e ∧ e ∉ returned) ∧
    (∀ e, Managed s' e → ∃ a, policyNode s'.owner.location s' e = some a ∧ InHeap s'.policy.heap a ∧
      contents s'.policy.heap a = some e) ∧ PolicyOk s' :=
  heapPurge_ok _ 2 _ twoEntries_ok

example : (heapPurge lruSetup 2 twoEntries).toOption.map Prod.fst = some [1] := by decide +kernel

end SquidVideoCache.HeapPolicy
