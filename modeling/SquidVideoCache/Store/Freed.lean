import SquidVideoCache.Store.Run
import Mathlib.Algebra.BigOperators.Group.Finset.Piecewise

/-!
# Reads of freed entries

A memory object holds a lock of the entries it points to, so an entry without locks is pointed to by
nobody and a cascade of unlocks cannot come back to it.
-/

namespace SquidVideoCache.Store
open Lib Acsm StoreKey VideoReg Option Finset Set

variable {Key : Type} {cfg : Config Key} {s s₀ t u : State Key} {e i j : ℕ} {x y : StoreEntry Key}
  {pending rest : List ℕ} {ex : Set ℕ} {z : Option (StoreEntry Key)}

/-! ## Counting locks -/

def held (z : Option (StoreEntry Key)) : List ℕ :=
  match z.bind StoreEntry.memObj with
  | some mem => mem.imsEntry.toList ++ mem.oldEntry.toList
  | none => []

def links (s : State Key) (j : ℕ) : ℕ := ∑ i ∈ range s.nextEntry, (held (s.entries i)).count j

/-- The locks that are accounted for: those of memory objects and those that are about to go. -/
def load (pending : List ℕ) (s : State Key) (j : ℕ) : ℕ := links s j + pending.count j

def lockCountAt (s : State Key) (j : ℕ) : ℕ :=
  match s.entries j with
  | some x => x.lockCount.toNat
  | none => 0

/-- Every lock that is accounted for has been taken. -/
structure Counted (pending : List ℕ) (s : State Key) : Prop where
  allocated : ∀ i, s.nextEntry ≤ i → s.entries i = none
  locked : ∀ j, load pending s j ≤ lockCountAt s j

lemma lockCountAt_eq (he : s.entries e = some x) : lockCountAt s e = x.lockCount.toNat := by
  rw [lockCountAt, he]

lemma load_cons (i j : ℕ) : load (i :: rest) s j = load rest s j + if i = j then 1 else 0 := by
  rw [load, load, List.count_cons, Nat.add_assoc]
  simp

lemma load_cons_self_pos (i : ℕ) (rest : List ℕ) (s : State Key) : 0 < load (i :: rest) s i := by
  rw [load_cons, if_pos rfl]
  omega

lemma links_replaces (hst : Replaces e z s t) (hlt : e < s.nextEntry) (j : ℕ) :
    links t j + (held (s.entries e)).count j = links s j + (held z).count j := by
  have hmem : e ∈ range s.nextEntry := mem_range.mpr hlt
  have hoth : ∑ i ∈ (range s.nextEntry).erase e, (held (t.entries i)).count j =
      ∑ i ∈ (range s.nextEntry).erase e, (held (s.entries i)).count j :=
    sum_congr rfl fun i hi => by rw [hst.of_ne (ne_of_mem_erase hi)]
  rw [links, links, hst.nextEntry, ← add_sum_erase _ _ hmem,
    ← add_sum_erase _ (fun i => (held _).count j) hmem, hst.self]
  omega

lemma Counted.lt_nextEntry (h : Counted pending s) (he : s.entries e = some x) : e < s.nextEntry := by
  by_contra hle
  rw [h.allocated e (Nat.le_of_not_lt hle)] at he
  cases he

lemma Counted.live (h : Counted pending s) (hj : 0 < load pending s j) :
    ∃ x, s.entries j = some x ∧ load pending s j ≤ x.lockCount.toNat := by
  have hle := h.locked j
  cases hx : s.entries j with
  | none =>
    rw [lockCountAt, hx] at hle
    exact absurd (Nat.le_zero.mp hle) hj.ne'
  | some x => exact ⟨x, rfl, lockCountAt_eq hx ▸ hle⟩

/-! ## The cascade -/

/-- The last unlock of such an entry frees it: its transfer is over, it is not to be released,
its object is neither all in memory nor on disk, and nothing else keeps it. -/
structure Perishable (rebuilding : Bool) (x : StoreEntry Key) : Prop where
  releaseRequest : ¬ x.flags.releaseRequest
  storeStatus : x.storeStatus = .ok
  memObj : x.memObj.isSome
  notKept : ¬ storeKeepInMemory x
  swapStatus : x.swapStatus = .none
  notSpecial : ¬ (x.flags.entrySpecial ∧ ¬ x.flags.keyPrivate)
  notLate : ¬ (rebuilding ∧ -1 < x.swapFilen)

/-- A state on the way from `s₀`. Entries that are still accounted for have only lost locks, and a
freed entry has been read if it was perishable, except for those in `ex`, which are being worked on. -/
structure Cascade (s₀ : State Key) (ex : Set ℕ) (pending : List ℕ) (s : State Key) : Prop where
  counted : Counted pending s
  nextEntry : s.nextEntry = s₀.nextEntry
  rebuilding : s.storeDirsRebuilding = s₀.storeDirsRebuilding
  exempt : ∀ j ∈ ex, load pending s j = 0
  alike : ∀ j, 0 < load pending s j →
    ∃ x n, s₀.entries j = some x ∧ s.entries j = some { x with lockCount := n }
  dangling : s.dangling ↔ ∃ j x, j ∉ ex ∧ s₀.entries j = some x ∧ Perishable s₀.storeDirsRebuilding x ∧
    s.entries j = none

lemma Cascade.step (h : Cascade s₀ ex pending s) (he : s.entries e = some x)
    (hst : Replaces e z s t) (hoth : ∀ j, j ≠ e → load rest t j = load pending s j)
    (hloc : load rest t e ≤ lockCountAt t e) (hex : e ∈ ex → load rest t e = 0) (hgone : z = none → e ∈ ex)
    (hali : 0 < load rest t e → ∃ x n, s₀.entries e = some x ∧ z = some { x with lockCount := n }) :
    Cascade s₀ ex rest t := by
  refine ⟨⟨fun i hi => ?_, fun j => ?_⟩, hst.nextEntry.trans h.nextEntry, hst.rebuilding.trans h.rebuilding,
    fun j hj => ?_, fun j hj => ?_, ?_⟩
  · rw [hst.nextEntry] at hi
    have hie : i ≠ e := fun hie => absurd (h.counted.lt_nextEntry he) (Nat.not_lt.mpr (hie ▸ hi))
    rw [hst.of_ne hie]
    exact h.counted.allocated i hi
  · by_cases hje : j = e
    · rw [hje]
      exact hloc
    · rw [hoth j hje, lockCountAt, hst.of_ne hje]
      exact h.counted.locked j
  · by_cases hje : j = e
    · rw [hje] at hj ⊢
      exact hex hj
    · rw [hoth j hje]
      exact h.exempt j hj
  · by_cases hje : j = e
    · rw [hje] at hj ⊢
      rw [hst.self]
      exact hali hj
    · rw [hoth j hje] at hj
      rw [hst.of_ne hje]
      exact h.alike j hj
  · rw [hst.dangling, h.dangling]
    refine exists_congr fun j => exists_congr fun y => and_congr_right fun hj => ?_
    by_cases hje : j = e
    · rw [hje] at hj ⊢
      have hz : z ≠ none := fun hn => hj (hgone hn)
      simp [hst.self, he, hz]
    · rw [hst.of_ne hje]

lemma Cascade.replaces (h : Cascade s₀ ex pending s) (hex : e ∈ ex)
    (he : s.entries e = some x) (hst : Replaces e z s t) (hloa : ∀ j, load rest t j = load pending s j) :
    Cascade s₀ ex rest t := by
  have hload : load rest t e = 0 := (hloa e).trans (h.exempt e hex)
  refine h.step he hst (fun j _ => hloa j) ?_ (fun _ => hload) (fun _ => hex) fun hpos => absurd hload hpos.ne'
  rw [hload]
  exact Nat.zero_le _

lemma load_replaces (h : Counted rest s) (he : s.entries e = some x)
    (hst : Replaces e z s t) (hheld : held z = held (some x)) (j : ℕ) : load pending t j = load pending s j := by
  have hlinks := links_replaces hst (h.lt_nextEntry he) j
  rw [he, hheld] at hlinks
  rw [load, load]
  omega

lemma Cascade.insert (h : Cascade s₀ ex pending s) (he : s.entries e = some x) (hload : load pending s e = 0) :
    Cascade s₀ (insert e ex) pending s := by
  refine ⟨h.counted, h.nextEntry, h.rebuilding, ?_, h.alike, ?_⟩
  · rintro j (rfl | hj)
    · exact hload
    · exact h.exempt j hj
  · rw [h.dangling]
    refine exists_congr fun j => exists_congr fun y => ?_
    refine ⟨fun ⟨hj, hy, hp, hnone⟩ => ⟨?_, hy, hp, hnone⟩, fun ⟨hj, hrest⟩ => ⟨fun hex => hj (Or.inr hex), hrest⟩⟩
    rintro (rfl | hex)
    · cases he.symm.trans hnone
    · exact hj hex

lemma Cascade.of_insert (h : Cascade s₀ (Insert.insert e ex) pending s)
    (hnot : ∀ x, s₀.entries e = some x → Perishable s₀.storeDirsRebuilding x → s.entries e ≠ none) :
    Cascade s₀ ex pending s := by
  refine ⟨h.counted, h.nextEntry, h.rebuilding, fun j hj => h.exempt j (Or.inr hj), h.alike, ?_⟩
  rw [h.dangling]
  refine exists_congr fun j => exists_congr fun y => ?_
  refine ⟨fun ⟨hj, hrest⟩ => ⟨fun hex => hj (Or.inr hex), hrest⟩, fun ⟨hj, hy, hp, hnone⟩ => ⟨?_, hy, hp, hnone⟩⟩
  rintro (rfl | hex)
  · exact hnot y hy hp hnone
  · exact hj hex

/-- A perishable entry is gone, and the state remembers that it is read. -/
theorem Cascade.mark (h : Cascade s₀ (Insert.insert e ex) pending s) (he : s₀.entries e = some x)
    (hp : Perishable s₀.storeDirsRebuilding x) (hgone : s.entries e = none) (hex : e ∉ ex) :
    Cascade s₀ ex pending { s with dangling := true } :=
  ⟨⟨h.counted.allocated, h.counted.locked⟩, h.nextEntry, h.rebuilding, fun j hj => h.exempt j (Or.inr hj), h.alike,
    ⟨fun _ => ⟨e, x, hex, he, hp, hgone⟩, fun _ => rfl⟩⟩

/-- The work on entry `e` that was begun in `s`, while other work waits. -/
structure Works (s₀ : State Key) (ex : Set ℕ) (rest : List ℕ) (e : ℕ) (s t : State Key) : Prop where
  fresh : e ∉ ex
  cascade : Cascade s₀ (insert e ex) rest t
  same : ∀ j ∈ ex, t.entries j = s.entries j

lemma Works.write (h : Works s₀ ex rest e s t) (he : t.entries e = some x)
    (hst : Replaces e z t u) (hheld : held z = held (some x)) : Works s₀ ex rest e s u := by
  refine ⟨h.fresh, ?_, fun j hj => ?_⟩
  · exact h.cascade.replaces (mem_insert e ex) he hst (load_replaces h.cascade.counted he hst hheld)
  · rw [hst.of_ne (ne_of_mem_of_not_mem hj h.fresh)]
    exact h.same j hj

/-! ## One entry -/

lemma Replaces.refl (he : s.entries e = some x) : Replaces e (some x) s s :=
  ⟨by rw [← he, Function.update_eq_self], fun _ _ => Iff.rfl, rfl, rfl, rfl, rfl⟩

lemma replaces_setEntry (e : ℕ) (y : StoreEntry Key) (s : State Key) : Replaces e (some y) s (setEntry e y s) :=
  ⟨rfl, fun _ _ => Iff.rfl, rfl, rfl, rfl, rfl⟩

lemma held_map {f : MemObject → MemObject} (hm : y.memObj = x.memObj.map f)
    (hf : ∀ mem, (f mem).imsEntry = mem.imsEntry ∧ (f mem).oldEntry = mem.oldEntry) :
    held (some y) = held (some x) := by
  rw [held, held, bind_some, bind_some, hm]
  cases x.memObj with
  | none => rfl
  | some mem => simp [hf mem]

/-- The entry is live afterwards, holds what it held and has the same file. -/
def Stays (e : ℕ) (x : StoreEntry Key) (s t : State Key) : Prop :=
  ∃ y, Replaces e (some y) s t ∧ held (some y) = held (some x) ∧ y.swapFilen = x.swapFilen

lemma logDelete_stays (he : s.entries e = some x) : Ends (· ≠ .freed) (Replaces e (some x) s) (logDelete e s) := by
  rw [logDelete, entryAt_eq he]
  refine ends_ite (fun _ => (storeDirSwapLog_ends he (by decide)).mono ?_) fun _ => .refl he
  rintro t ⟨log, ht⟩
  have hst := Replaces.refl he
  rw [ht]
  exact ⟨hst.entries, hst.table, hst.nextEntry, hst.requests, hst.rebuilding, hst.dangling⟩

lemma storeSetMemStatus_stays (status : MemStatus) (he : s.entries e = some x) :
    Ends (· ≠ .freed) (fun t => ∃ status, Replaces e (some { x with memStatus := status }) s t)
      (storeSetMemStatus e status s) := by
  refine (storeSetMemStatus_ends he (by decide)).mono ?_
  intro t ⟨status, ht⟩
  exact ⟨status, ht ▸ replaces_setEntry e _ s⟩

section

variable [DecidableEq Key]

lemma storeSetPrivateKey_stays (he : s.entries e = some x) :
    Ends (· ≠ .freed) (Stays e x s) (storeSetPrivateKey cfg e s) := by
  refine (storeSetPrivateKey_ends (fun _ => id) he).mono ?_
  rintro t (⟨-, -, rfl⟩ | ⟨num, key, -, -, hst, -⟩)
  · exact ⟨x, .refl he, rfl, rfl⟩
  · exact ⟨_, hst, held_map rfl fun _ => ⟨rfl, rfl⟩, rfl⟩

lemma storeReleaseRequest_stays (he : s.entries e = some x) :
    Ends (· ≠ .freed) (Stays e x s) (storeReleaseRequest cfg e s) := by
  rw [storeReleaseRequest, entryAt_eq he]
  refine ends_ite (fun _ => ⟨x, .refl he, rfl, rfl⟩) fun _ => ?_
  refine (storeSetPrivateKey_stays setEntry_self).mono ?_
  rintro t ⟨y, hst, hy⟩
  exact ⟨y, (replaces_setEntry e _ s).trans hst, hy⟩

lemma releaseLocked_stays (he : s.entries e = some x) :
    Ends (· ≠ .freed) (Stays e x s) (storeExpireNow e s >>= storeReleaseRequest cfg e) := by
  rw [storeExpireNow, entryAt_eq he]
  refine (storeReleaseRequest_stays setEntry_self).mono ?_
  rintro t ⟨y, hst, hy⟩
  exact ⟨y, (replaces_setEntry e _ s).trans hst, hy⟩

end

/-! ## The work on an entry without locks

`unlock` stands for the recursive call. -/

/-- What the unlock of an entry does to the cascade. -/
def Unlocks (s₀ : State Key) (unlock : ℕ → State Key → Result (State Key)) : Prop :=
  ∀ ex i rest s, Cascade s₀ ex (i :: rest) s →
    Ends (· ≠ .freed) (fun t => Cascade s₀ ex rest t ∧ ∀ j ∈ ex, t.entries j = s.entries j) (unlock i s)

section

variable {unlock : ℕ → State Key → Result (State Key)} (hu : Unlocks s₀ unlock)

include hu

lemma Unlocks.unlockLink (link : Option ℕ) (h : Cascade s₀ ex (link.toList ++ rest) s) :
    Ends (· ≠ .freed) (fun t => Cascade s₀ ex rest t ∧ ∀ j ∈ ex, t.entries j = s.entries j)
      (unlockLink unlock link s) := by
  cases link with
  | none => exact ⟨h, fun _ _ => rfl⟩
  | some i => exact hu ex i rest s h

variable (h : Works s₀ ex rest e s t) (he : t.entries e = some x)

include h he

lemma Unlocks.destroyMemObject (hm : x.memObj.isSome) :
    Ends (· ≠ .freed) (fun u => Works s₀ ex rest e s u ∧ u.entries e = some { x with memObj := none })
      (destroyMemObject unlock e t) := by
  obtain ⟨mem, hmem⟩ := isSome_iff_exists.mp hm
  have hst := replaces_setEntry e { x with memObj := none } t
  -- the locks of the memory object are now on their way
  have hloa : ∀ j, load (mem.imsEntry.toList ++ (mem.oldEntry.toList ++ rest))
      (setEntry e { x with memObj := none } t) j = load rest t j := by
    intro j
    have hheld : held (some x) = mem.imsEntry.toList ++ mem.oldEntry.toList := by
      rw [held, bind_some, hmem]
    have hlinks := links_replaces hst (h.cascade.counted.lt_nextEntry he) j
    rw [he, hheld, show held (some { x with memObj := none }) = [] from rfl, List.count_append,
      List.count_nil] at hlinks
    rw [load, load, List.count_append, List.count_append]
    omega
  rw [Store.destroyMemObject, entryAt_eq he, ok_bind, hmem]
  apply ends_check (fun _ => by decide)
  intro _
  refine (hu.unlockLink _ (h.cascade.replaces (mem_insert e ex) he hst hloa)).bind ?_
  rintro v ⟨hv, hvsa⟩
  refine (hu.unlockLink _ hv).mono ?_
  rintro w ⟨hw, hwsa⟩
  refine ⟨⟨h.fresh, hw, fun j hj => ?_⟩, ?_⟩
  · rw [hwsa j (Or.inr hj), hvsa j (Or.inr hj), hst.of_ne (ne_of_mem_of_not_mem hj h.fresh)]
    exact h.same j hj
  · rw [hwsa e (mem_insert e ex), hvsa e (mem_insert e ex)]
    exact setEntry_self

lemma Unlocks.destroyStoreEntry :
    Ends (· ≠ .freed) (fun u => Works s₀ ex rest e s u ∧ u.entries e = none) (destroyStoreEntry unlock e t) := by
  have hfree : ∀ v y, Works s₀ ex rest e s v → v.entries e = some y → y.memObj = none →
      Ends (· ≠ .freed) (fun u => Works s₀ ex rest e s u ∧ u.entries e = none) (freeStoreEntry e v) := by
    intro v y hv hy hmem
    refine (freeStoreEntry_ends (fun _ => id) hy).mono fun u hu => ⟨hv.write hy hu ?_, hu.self⟩
    simp [held, hmem]
  rw [Store.destroyStoreEntry, entryAt_eq he, ok_bind]
  by_cases hm : x.memObj.isSome
  · rw [if_pos hm]
    refine (hu.destroyMemObject h he hm).bind ?_
    rintro v ⟨hv, hy⟩
    exact hfree v _ hv hy rfl
  · rw [if_neg hm]
    exact hfree t x h he (not_isSome_iff_eq_none.mp hm)

lemma Unlocks.releaseNow :
    Ends (· ≠ .freed) (fun u => Works s₀ ex rest e s u ∧ u.entries e = none) (releaseNow unlock e t) := by
  refine (logDelete_stays he).bind fun v hv => ?_
  refine (storeSetMemStatus_stays _ hv.self).bind fun w ⟨status, hw⟩ => ?_
  exact hu.destroyStoreEntry ((h.write he hv rfl).write hv.self hw rfl) hw.self

/-- The branch for entries with a file while the store is rebuilt keeps the entry. -/
theorem Unlocks.releaseLate [DecidableEq Key] (hfile : -1 < x.swapFilen) :
    Ends (· ≠ .freed) (fun u => Works s₀ ex rest e s u ∧ u.entries e ≠ none) (releaseLate cfg unlock e t) := by
  have hpush : ∀ v y, Works s₀ ex rest e s v → v.entries e = some y → -1 < y.swapFilen →
      Ends (· ≠ .freed) (fun u => Works s₀ ex rest e s u ∧ u.entries e ≠ none) (pushLateRelease unlock e v) := by
    intro v y hv hy hy'
    rw [pushLateRelease, entryAt_eq hy, ok_bind, if_pos hy']
    refine ⟨hv.write hy ⟨rfl, fun _ _ => Iff.rfl, rfl, rfl, rfl, rfl⟩ rfl, ?_⟩
    simp
  refine (storeSetPrivateKey_stays he).bind ?_
  rintro v ⟨y, hst, hheld, hsame⟩
  have hv := h.write he hst hheld
  rw [← hsame] at hfile
  rw [entryAt_eq hst.self, ok_bind]
  by_cases hm : y.memObj.isSome
  · rw [if_pos hm]
    refine (storeSetMemStatus_stays _ hst.self).bind ?_
    rintro w ⟨status, hw⟩
    refine (hu.destroyMemObject (hv.write hst.self hw rfl) hw.self hm).bind ?_
    rintro w' ⟨hw', hy'⟩
    exact hpush w' _ hw' hy' hfile
  · rw [if_neg hm]
    exact hpush v y hv hst.self hfile

/-- An entry is kept by `storeRelease` for the moment. -/
def keptByRelease (rebuilding : Bool) (x : StoreEntry Key) : Prop :=
  storeEntryLocked x ∨ (rebuilding ∧ -1 < x.swapFilen)

lemma Unlocks.releaseWith [DecidableEq Key] : Ends (· ≠ .freed) (fun u => Works s₀ ex rest e s u ∧
      (u.entries e = none ↔ ¬ keptByRelease s₀.storeDirsRebuilding x)) (releaseWith cfg unlock e t) := by
  rw [Store.releaseWith, entryAt_eq he, ok_bind]
  by_cases hloc : storeEntryLocked x
  · rw [if_pos hloc]
    refine (releaseLocked_stays he).mono ?_
    rintro u ⟨y, hst, hheld, -⟩
    refine ⟨h.write he hst hheld, ?_⟩
    simp [hst.self, keptByRelease, hloc]
  · rw [if_neg hloc, h.cascade.rebuilding]
    by_cases hlate : s₀.storeDirsRebuilding ∧ -1 < x.swapFilen
    · rw [if_pos hlate]
      refine (hu.releaseLate h he hlate.2).mono ?_
      rintro u ⟨hwor, hne⟩
      exact ⟨hwor, fun hn => absurd hn hne, fun hk => absurd (Or.inr hlate) hk⟩
    · rw [if_neg hlate]
      refine (hu.releaseNow h he).mono ?_
      rintro u ⟨hwor, hnone⟩
      exact ⟨hwor, fun _ hk => hk.elim hloc hlate, fun _ => hnone⟩

lemma Unlocks.purgeMemWith [DecidableEq Key] :
    Ends (· ≠ .freed) (fun u => Works s₀ ex rest e s u ∧ (u.entries e = none ↔
      x.memObj.isSome ∧ x.swapStatus ≠ .done ∧ ¬ keptByRelease s₀.storeDirsRebuilding x))
      (purgeMemWith cfg unlock e t) := by
  rw [Store.purgeMemWith, entryAt_eq he, ok_bind]
  by_cases hm : x.memObj.isSome
  · have hnot : x.memObj.isNone ≠ true := by simp [← isSome_iff_ne_none, hm]
    rw [if_neg hnot]
    refine (storeSetMemStatus_stays _ he).bind ?_
    rintro v ⟨status, hv⟩
    refine (hu.destroyMemObject (h.write he hv rfl) hv.self hm).bind ?_
    rintro w ⟨hw, hy⟩
    rw [entryAt_eq hy, ok_bind]
    by_cases hdone : x.swapStatus ≠ .done
    · rw [if_pos (show _ from hdone)]
      refine (hu.releaseWith hw hy).mono ?_
      rintro u ⟨hwor, hgone⟩
      exact ⟨hwor, hgone.trans ⟨fun hk => ⟨hm, hdone, hk⟩, fun hk => hk.2.2⟩⟩
    · rw [if_neg (show ¬ _ from hdone)]
      refine ⟨hw, fun hn => ?_, fun hk => absurd hk.2.1 hdone⟩
      cases hy.symm.trans hn
  · have hnone : x.memObj.isNone = true := isNone_iff_eq_none.mpr (not_isSome_iff_eq_none.mp hm)
    rw [if_pos hnone]
    refine ⟨h, fun hn => ?_, fun hk => absurd hk.1 hm⟩
    cases he.symm.trans hn

end

lemma perishable_iff {rebuilding : Bool} (hrel : (x.flags.releaseRequest || x.storeStatus == .pending) = false)
    (hkeep : ¬ storeKeepInMemory x) : Perishable rebuilding x ↔
      x.memObj.isSome ∧ x.swapStatus ≠ .done ∧ ¬ keptByRelease rebuilding { x with lockCount := 0 } := by
  obtain ⟨hr, hs⟩ := Bool.or_eq_false_iff.mp hrel
  have hok : x.storeStatus = .ok := by
    cases hst : x.storeStatus with
    | ok => rfl
    | pending =>
      rw [hst] at hs
      cases hs
  have hloc : storeEntryLocked { x with lockCount := 0 } =
      (x.swapStatus == .writing || (x.flags.entrySpecial && !x.flags.keyPrivate)) := by
    simp [storeEntryLocked, hok, show (StoreStatus.ok == StoreStatus.pending) = false from rfl]
  constructor
  · intro hp
    refine ⟨hp.memObj, by rw [hp.swapStatus]; decide, ?_⟩
    rintro (hl | hl)
    · rw [hloc, hp.swapStatus] at hl
      exact hp.notSpecial (by simpa using hl)
    · exact hp.notLate hl
  · rintro ⟨hm, hdone, hkept⟩
    have hl : ¬ storeEntryLocked { x with lockCount := 0 } := fun hl => hkept (Or.inl hl)
    rw [hloc] at hl
    refine ⟨by simp [hr], hok, hm, hkeep, ?_, fun hsp => hl (by simp [hsp]), fun hlate => hkept (Or.inr hlate)⟩
    cases hw : x.swapStatus with
    | none => rfl
    | writing => exact absurd (by simp [hw]) hl
    | done => exact absurd hw hdone

section

variable [DecidableEq Key] {unlock : ℕ → State Key → Result (State Key)}

/-- The work of an unlock that takes the last lock: the entries it goes on to are in order, and
the entry is read after it is freed exactly if it was perishable. -/
theorem Unlocks.unlockLast (hu : Unlocks s₀ unlock) (h : Cascade s₀ ex rest s)
    (hload : load rest s e = 0) (hex : e ∉ ex) (he₀ : s₀.entries e = some x)
    (he : s.entries e = some { x with lockCount := 0 }) :
    Ends (· ≠ .freed) (fun t => Cascade s₀ ex rest t ∧ (∀ j ∈ ex, t.entries j = s.entries j) ∧
      (Perishable s₀.storeDirsRebuilding x → t.entries e = none)) (unlockLast cfg unlock e s) := by
  obtain ⟨r, hr⟩ : ∃ r, (x.flags.releaseRequest || x.storeStatus == .pending) = r := ⟨_, rfl⟩
  rw [Store.unlockLast, entryAt_eq he, ok_bind]
  simp only [hr]
  apply ends_check (fun _ => by decide)
  intro _
  have hself : (setEntry e { x with lockCount := 0, flags := { x.flags with releaseRequest := r } } s).entries e =
      some { x with lockCount := 0, flags := { x.flags with releaseRequest := r } } := setEntry_self
  have hstart : Works s₀ ex rest e s s := ⟨hex, h.insert he hload, fun _ _ => rfl⟩
  have hwor := hstart.write he
    (replaces_setEntry e { x with lockCount := 0, flags := { x.flags with releaseRequest := r } } s) rfl
  cases r with
  | true =>
    have hnot : ¬ Perishable s₀.storeDirsRebuilding x := by
      intro hp
      have hfal : x.flags.releaseRequest = false := by simpa using hp.releaseRequest
      rw [hfal, hp.storeStatus] at hr
      cases hr
    refine (hu.releaseWith hwor hself).mono ?_
    rintro t ⟨ht, -⟩
    refine ⟨ht.cascade.of_insert fun y hy hp => ?_, ht.same, fun hp => absurd hp hnot⟩
    cases he₀.symm.trans hy
    exact absurd hp hnot
  | false =>
    by_cases hkeep : storeKeepInMemory x
    · rw [if_pos (show storeKeepInMemory { x with lockCount := 0 } = true from hkeep)]
      refine (storeSetMemStatus_stays _ hself).bind ?_
      rintro t ⟨status, hst⟩
      rw [entryAt_eq hst.self]
      have hlast := fun y => (hwor.write hself hst rfl).write hst.self (replaces_setEntry e y t)
      refine ⟨(hlast _ ?_).cascade.of_insert fun _ _ _ => by simp, (hlast _ ?_).same, fun hp => absurd hkeep hp.notKept⟩
      all_goals exact held_map rfl fun _ => ⟨rfl, rfl⟩
    · rw [if_neg (show ¬ storeKeepInMemory { x with lockCount := 0 } = true from hkeep)]
      have hiff : Perishable s₀.storeDirsRebuilding x ↔ _ := perishable_iff hr hkeep
      refine (hu.purgeMemWith hwor hself).bind ?_
      rintro t ⟨ht, hgone⟩
      have hgone' : t.entries e = none ↔ Perishable s₀.storeDirsRebuilding x := hgone.trans hiff.symm
      rw [storeEntryDereferenced]
      cases hte : t.entries e with
      | none => exact ⟨ht.cascade.mark he₀ (hgone'.mp hte) hte hex, ht.same, fun _ => hte⟩
      | some y =>
        refine ⟨ht.cascade.of_insert fun _ _ _ => ?_, ht.same, hgone'.mpr⟩
        rw [hte]
        exact some_ne_none _

/-! ## Whole calls -/

omit [DecidableEq Key] in
lemma Cascade.unlocked (h : Cascade s₀ ex (e :: rest) s) :
    ∃ x n, s₀.entries e = some x ∧ s.entries e = some { x with lockCount := n } ∧
      Cascade s₀ ex rest (setEntry e { x with lockCount := n - 1 } s) ∧
      (n - 1 = 0 → load rest (setEntry e { x with lockCount := n - 1 } s) e = 0) := by
  obtain ⟨x, n, he₀, he⟩ := h.alike e (load_cons_self_pos e rest s)
  have hst := replaces_setEntry e { x with lockCount := n - 1 } s
  have hloa : ∀ j, load rest (setEntry e { x with lockCount := n - 1 } s) j + (if e = j then 1 else 0) =
      load (e :: rest) s j := by
    intro j
    rw [load_replaces h.counted he hst rfl, load_cons]
  have hself := hloa e
  rw [if_pos rfl] at hself
  have hn : load (e :: rest) s e ≤ n.toNat := by
    have hle := h.counted.locked e
    rwa [lockCountAt_eq he] at hle
  have hone : (1 : UInt16) ≤ n := by
    rw [UInt16.le_iff_toNat_le]
    show 1 ≤ n.toNat
    omega
  have hn1 : (n - 1).toNat = n.toNat - 1 := UInt16.toNat_sub_of_le n 1 hone
  refine ⟨x, n, he₀, he, h.step he hst (fun j hj => ?_) ?_ (fun hex => ?_) nofun fun _ => ⟨x, n - 1, he₀, rfl⟩, ?_⟩
  · have hj' := hloa j
    rwa [if_neg (Ne.symm hj)] at hj'
  · rw [lockCountAt_eq hst.self]
    show _ ≤ (n - 1).toNat
    omega
  · exact absurd (h.exempt e hex) (load_cons_self_pos e rest s).ne'
  · intro hzero
    rw [hzero] at hn1
    have h0 : (0 : UInt16).toNat = 0 := rfl
    omega

lemma Unlocks.unlockFuel_succ {fuel : ℕ} (hu : Unlocks s₀ (unlockFuel cfg fuel))
    (h : Cascade s₀ ex (e :: rest) s) (he : s.entries e = some x) :
    Ends (· ≠ .freed) (fun t => Cascade s₀ ex rest t ∧ (∀ j ∈ ex, t.entries j = s.entries j) ∧
      (Perishable s₀.storeDirsRebuilding x → (t.entries e = none ↔ x.lockCount = 1)))
      (unlockFuel cfg (fuel + 1) e s) := by
  obtain ⟨y, n, he₀, hy, h1, hzero⟩ := h.unlocked
  cases he.symm.trans hy
  have hex : e ∉ ex := fun hex => absurd (h.exempt e hex) (load_cons_self_pos e rest s).ne'
  have hsame : ∀ j ∈ ex, (setEntry e { y with lockCount := n - 1 } s).entries j = s.entries j :=
    fun j hj => Function.update_of_ne (ne_of_mem_of_not_mem hj hex) _ _
  rw [unlockFuel, entryAt_eq hy, ok_bind]
  by_cases hn : n - 1 = 0
  · have hone : n = 1 := by grind
    rw [hn] at h1 hzero hsame ⊢
    refine (hu.unlockLast h1 (hzero rfl) hex he₀ setEntry_self).mono ?_
    rintro t ⟨ht, hsame', hgone⟩
    refine ⟨ht, fun j hj => (hsame' j hj).trans (hsame j hj), fun hp => ⟨fun _ => hone, fun _ => hgone ?_⟩⟩
    exact ⟨hp.releaseRequest, hp.storeStatus, hp.memObj, hp.notKept, hp.swapStatus, hp.notSpecial, hp.notLate⟩
  · rw [if_pos hn]
    refine ⟨h1, hsame, fun _ => ⟨fun hnone => ?_, fun hone => ?_⟩⟩
    · cases setEntry_self.symm.trans hnone
    · exact absurd (by rw [show n = 1 from hone]; rfl) hn

-- the fuel bounds the depth of the cascade, so the induction is on it
lemma unlocks_unlockFuel (s₀ : State Key) (fuel : ℕ) : Unlocks s₀ (unlockFuel cfg fuel) := by
  induction fuel with
  | zero =>
    intro ex i rest s _
    show StoreFault.diverges ≠ .freed
    decide
  | succ fuel ih =>
    intro ex i rest s h
    obtain ⟨x, hx, -⟩ := h.counted.live (load_cons_self_pos i rest s)
    exact (ih.unlockFuel_succ h hx).mono fun t ht => ⟨ht.1, ht.2.1⟩

omit [DecidableEq Key] in
lemma Counted.cascade (h : Counted pending s) (hd : s.dangling = false) : Cascade s ∅ pending s := by
  refine ⟨h, rfl, rfl, fun j hj => absurd hj (notMem_empty j), fun j hj => ?_, ?_⟩
  · obtain ⟨x, hx, -⟩ := h.live hj
    exact ⟨x, x.lockCount, hx, hx⟩
  · rw [hd]
    constructor
    · intro hf
      cases hf
    · rintro ⟨j, x, -, hx, -, hnone⟩
      cases hx.symm.trans hnone

lemma storeUnlockObject_cascade (h : Counted [e] s) (hd : s.dangling = false) (he : s.entries e = some x) :
    Ends (· ≠ .freed) (fun t => Cascade s ∅ [] t ∧
      (Perishable s.storeDirsRebuilding x → (t.entries e = none ↔ x.lockCount = 1))) (storeUnlockObject cfg e s) :=
  ((unlocks_unlockFuel s _).unlockFuel_succ (h.cascade hd) he).mono fun _ ht => ⟨ht.1, ht.2.2⟩

lemma storeRelease_cascade (h : Counted [] s) (hd : s.dangling = false) (he : s.entries e = some x) :
    Ends (· ≠ .freed) (fun t => t.dangling ↔ ∃ j y, j ∉ ({e} : Set ℕ) ∧ s.entries j = some y ∧
      Perishable s.storeDirsRebuilding y ∧ t.entries j = none) (storeRelease cfg e s) := by
  by_cases hload : load [] s e = 0
  · have hwor : Works s ∅ [] e s s := ⟨notMem_empty e, (h.cascade hd).insert he hload, fun _ _ => rfl⟩
    refine ((unlocks_unlockFuel s _).releaseWith hwor he).mono fun t ht => ?_
    have hdan := ht.1.cascade.dangling
    rwa [insert_empty_eq] at hdan
  · -- a memory object holds the entry, so it is locked
    have hloc : storeEntryLocked x := by
      obtain ⟨y, hy, hle⟩ := h.live (Nat.pos_of_ne_zero hload)
      cases he.symm.trans hy
      have hne : x.lockCount ≠ 0 := by
        intro h0
        rw [h0] at hle
        exact hload (Nat.le_zero.mp hle)
      simp [storeEntryLocked, hne]
    rw [storeRelease, releaseWith, entryAt_eq he, ok_bind, if_pos hloc]
    refine (releaseLocked_stays he).mono ?_
    rintro t ⟨y, hst, -⟩
    rw [hst.dangling, hd]
    constructor
    · intro hf
      cases hf
    · rintro ⟨j, z, hj, hz, -, hnone⟩
      rw [hst.of_ne hj, hz] at hnone
      cases hnone

end

/-! ## An object without data -/

def newConfig : Config (List UInt8) := plainConfig ⟨acsmNew, acsmNew⟩

def lockedVideo : State (List UInt8) := setEntry 0 { cachedVideo with lockCount := 1 } videoStore

lemma counted_lockedVideo : Counted [0] lockedVideo := by
  refine ⟨fun i hi => ?_, fun j => ?_⟩
  · have hne : i ≠ 0 := Nat.pos_iff_ne_zero.mp hi
    simp [lockedVideo, videoStore, hne]
  · have hlinks : links lockedVideo j = 0 := by
      simp [links, lockedVideo, videoStore, held, cachedVideo]
    rw [load, hlinks]
    by_cases hj : j = 0
    · rw [hj]
      decide
    · simp [Ne.symm hj]

def createdStore : State (List UInt8) :=
  (perform newConfig (.createEntry flatA { cachable := true } methodGet) emptyStore).toOption.getD emptyStore

def completedStore : State (List UInt8) := (perform newConfig (.complete 0) createdStore).toOption.getD createdStore

lemma reachable_completedStore : Reachable newConfig (fun s _ => s.storeDirsRebuilding = false) completedStore := by
  have hcre : Reachable newConfig (fun s _ => s.storeDirsRebuilding = false) createdStore :=
    .call (c := .createEntry flatA _ _) (.start rfl rfl)
      (show methodGet.toNat < 256 by decide) rfl (eq_ok_of_isOk (by decide +kernel) _)
  have hentr : (createdStore.entries 0).isSome := by decide +kernel
  exact .call (c := .complete 0) hcre (isSome_iff_exists.mp hentr) (by decide +kernel)
    (eq_ok_of_isOk (by decide +kernel) _)

end SquidVideoCache.Store
