import SquidVideoCache.CleanLog.Replay
import SquidVideoCache.Lib.Slots
import SquidVideoCache.SwapSize.Model

/-!
# What the functions do to an entry

Locking, releasing and recycling keep the entry of a slot with its file or free it with its file,
and the counters follow the entry unless an entry that counts is recycled: its file is forgotten
before `storeRelease` can subtract it.
-/

namespace SquidVideoCache.SwapSize
open Lib Function Option
open CleanLog (Flags EntryFlag FileMap ebitTest ebitSet ebitClr SwapLogData fileMapBitTest fileMapBitSet storeUfsDirMapBitReset
  ebitTest_ebitSet_of_ne ebitTest_ebitClr_of_ne)

variable {Key : Type} {cfg : Config Key} {s s' s₁ : State Key} {i : ℕ} {e e' : StoreEntry Key}
  {a : Option (StoreEntry Key)}

/-! ## Slots -/

def State.slot (s : State Key) (i : ℕ) : Option (StoreEntry Key) := s.entries[i]?.join

lemma slot_eq_some : s.slot i = some e ↔ s.entries[i]? = some (some e) := join_eq_some_iff

lemma slot_set (hi : s.slot i = some e) (hentr : s'.entries = s.entries.set i a) (j : ℕ) :
    s'.slot j = if j = i then a else s.slot j := by
  obtain ⟨hlt, -⟩ := List.getElem?_eq_some_iff.1 (slot_eq_some.1 hi)
  rw [State.slot, hentr, List.getElem?_set]
  split_ifs with hij hji
  · rfl
  · exact absurd hij.symm hji
  · omega
  · rfl

lemma slot_append (hentr : s'.entries = s.entries ++ [some e]) (j : ℕ) :
    s'.slot j = if j = s.entries.length then some e else s.slot j := by
  rw [State.slot, hentr]
  split_ifs with hj
  · simp [hj]
  · rcases Nat.lt_or_gt_of_ne hj with hlt | hgt
    · rw [List.getElem?_append_left hlt]
      rfl
    · rw [State.slot, List.getElem?_eq_none (by simp; omega), List.getElem?_eq_none (by omega)]

lemma slot_setEntry (hi : s.slot i = some e) (e' : StoreEntry Key) : (s.setEntry i e').slot i = some e' :=
  (slot_set hi rfl i).trans (if_pos rfl)

lemma setEntry_self (hi : s.slot i = some e) : s.setEntry i e = s := by
  obtain ⟨hlt, hget⟩ := List.getElem?_eq_some_iff.1 (slot_eq_some.1 hi)
  rw [State.setEntry, ← hget, List.set_getElem_self]

lemma setEntry_setEntry (s : State Key) (i : ℕ) (e e' : StoreEntry Key) : (s.setEntry i e).setEntry i e' = s.setEntry i e' := by
  simp [State.setEntry]

lemma setEntry_destroy (s : State Key) (i : ℕ) (e : StoreEntry Key) : (s.setEntry i e).destroy i = s.destroy i := by
  simp [State.setEntry, State.destroy]

lemma entryAt_eq (hi : s.slot i = some e) : entryAt i s = .ok e := by
  rw [entryAt, slot_eq_some.1 hi]

lemma ends_entryAt (i : ℕ) (s : State Key) : Ends (fun _ => True) (fun e => s.slot i = some e) (entryAt i s) := by
  unfold entryAt
  split
  next hi => exact slot_eq_some.2 hi
  next => trivial

lemma slot_of_has {p : StoreEntry Key → Bool} (h : s.has i p = true) : ∃ e, s.slot i = some e ∧ p e = true := by
  simpa [State.has, State.slot, any_eq_true] using h

lemma has_eq (hi : s.slot i = some e) (p : StoreEntry Key → Bool) : s.has i p = p e := by
  simp [State.has, slot_eq_some.1 hi]

/-! ## The counters -/

def counts (e : StoreEntry Key) : Bool := e.swapStatus == .done && ebitTest e.flags .entryValidated

def dirWeight (cfg : Config Key) (d : ℤ) (e : StoreEntry Key) : ℤ :=
  if counts e ∧ e.swapDirn = d then kilobytes (cfg.blksize d) e.swapFileSz else 0

def swapWeight (cfg : Config Key) (e : StoreEntry Key) : ℤ :=
  if counts e then kilobytes (cfg.blksize e.swapDirn) e.swapFileSz else 0

def objectWeight (e : StoreEntry Key) : ℤ := if counts e then 1 else 0

inductive Counter where
  | dir (d : ℤ)
  | swap
  | objects

def State.counter (s : State Key) : Counter → ℤ
  | .dir d => s.curSize d
  | .swap => s.storeSwapSize
  | .objects => s.nDiskObjects

def weight (cfg : Config Key) : Counter → StoreEntry Key → ℤ
  | .dir d => dirWeight cfg d
  | .swap => swapWeight cfg
  | .objects => objectWeight

lemma weight_of_not (h : counts e = false) (c : Counter) : weight cfg c e = 0 := by
  cases c <;> simp [weight, dirWeight, swapWeight, objectWeight, h]

lemma toInt_add_toInt (a b : ℤ) : toInt (toInt a + toInt b) = toInt (a + b) := by
  unfold toInt
  rw [Int.add_bmod_bmod, Int.bmod_add_bmod]

lemma toInt_toInt_add (a b : ℤ) : toInt (toInt a + b) = toInt (a + b) := by
  unfold toInt
  rw [Int.bmod_add_bmod]

lemma counter_update (hcou : counts e = true) {sign : ℤ} (hsign : sign = 1 ∨ sign = -1) {c : Counter} {n : ℤ}
    (hn : s.counter c = toInt n) :
    (storeDirUpdateSwapSize cfg e.swapDirn e.swapFileSz sign s).counter c = toInt (n + weight cfg c e * sign) := by
  cases c with
  | dir d =>
    have hcur : s.curSize d = toInt n := hn
    show update s.curSize _ _ d = _
    by_cases hd : d = e.swapDirn
    · subst hd
      rw [hcur, toInt_add_toInt]
      simp [weight, dirWeight, hcou]
    · rw [update_of_ne hd, hcur]
      simp [weight, dirWeight, Ne.symm hd]
  | swap =>
    have hswap : s.storeSwapSize = toInt n := hn
    show toInt (s.storeSwapSize + _) = _
    rw [hswap, toInt_add_toInt]
    simp [weight, swapWeight, hcou]
  | objects =>
    have hobj : s.nDiskObjects = toInt n := hn
    rcases hsign with rfl | rfl
    · show toInt (s.nDiskObjects + 1) = _
      rw [hobj, toInt_toInt_add]
      simp [weight, objectWeight, hcou]
    · show toInt (s.nDiskObjects - 1) = _
      rw [hobj, sub_eq_add_neg, toInt_toInt_add]
      simp [weight, objectWeight, hcou]

/-! ## Entries that keep their files -/

/-- Entries that are not validated come from a log, and entries that are swapped out have a file. -/
structure EntryOk (e : StoreEntry Key) : Prop where
  done : ebitTest e.flags .entryValidated = false → e.swapStatus = .done
  filed : e.swapStatus ≠ .none → 0 ≤ e.swapFilen

/-- The file, its size and the validated bit are as before. -/
structure SameFile (e e' : StoreEntry Key) : Prop where
  swapStatus : e'.swapStatus = e.swapStatus
  swapFilen : e'.swapFilen = e.swapFilen
  swapDirn : e'.swapDirn = e.swapDirn
  swapFileSz : e'.swapFileSz = e.swapFileSz
  validated : ebitTest e'.flags .entryValidated = ebitTest e.flags .entryValidated

lemma SameFile.trans {e'' : StoreEntry Key} (h : SameFile e e') (h' : SameFile e' e'') : SameFile e e'' where
  swapStatus := h'.swapStatus.trans h.swapStatus
  swapFilen := h'.swapFilen.trans h.swapFilen
  swapDirn := h'.swapDirn.trans h.swapDirn
  swapFileSz := h'.swapFileSz.trans h.swapFileSz
  validated := h'.validated.trans h.validated

lemma SameFile.weight_eq (h : SameFile e e') (c : Counter) : weight cfg c e' = weight cfg c e := by
  have hcou : counts e' = counts e := by rw [counts, counts, h.swapStatus, h.validated]
  cases c <;> simp [weight, dirWeight, swapWeight, objectWeight, hcou, h.swapDirn, h.swapFileSz]

lemma SameFile.entryOk (h : SameFile e e') (hok : EntryOk e) : EntryOk e' := by
  refine ⟨fun hnot => ?_, fun hne => ?_⟩
  · rw [h.swapStatus]
    exact hok.done (h.validated ▸ hnot)
  · rw [h.swapFilen]
    exact hok.filed (h.swapStatus ▸ hne)

/-- The counters follow the entry of a slot that is kept or freed. -/
def Balanced (cfg : Config Key) (s : State Key) (e : StoreEntry Key) (a : Option (StoreEntry Key)) (s' : State Key) : Prop :=
  EntryOk e → (∀ c n, s.counter c = toInt n → s'.counter c = toInt (n - weight cfg c e + a.elim 0 (weight cfg c))) ∧
    ∀ x ∈ a, EntryOk x

lemma SameFile.balanced (h : SameFile e e') (hctr : ∀ c, s'.counter c = s.counter c) : Balanced cfg s e (some e') s' := by
  refine fun hok => ⟨fun c n hn => ?_, fun x hx => ?_⟩
  · rw [hctr, hn, elim_some, h.weight_eq, sub_add_cancel]
  · obtain rfl := some.inj hx
    exact h.entryOk hok

lemma Balanced.trans (h : Balanced cfg s e (some e') s₁) (h' : Balanced cfg s₁ e' a s') : Balanced cfg s e a s' := by
  intro hok
  obtain ⟨hctr, hok'⟩ := h hok
  obtain ⟨hctr', hoka⟩ := h' (hok' e' rfl)
  refine ⟨fun c n hn => ?_, hoka⟩
  rw [hctr' c _ (hctr c n hn), elim_some, add_sub_cancel_right]

/-- The entry of a slot stays with its file, or it is freed with it. -/
structure Touched (s : State Key) (i : ℕ) (e : StoreEntry Key) (a : Option (StoreEntry Key)) (s' : State Key) : Prop where
  entries : s'.entries = s.entries.set i a
  file : ∀ x ∈ a, x.swapDirn = e.swapDirn ∧ x.swapFilen = e.swapFilen ∧ x.swapStatus = e.swapStatus
  idle : a = none → e.swapStatus ≠ .writing
  maps : s'.maps = if a = none ∧ -1 < e.swapFilen then (s.resetBit e.swapDirn e.swapFilen).maps else s.maps

lemma touched_set (hentr : s'.entries = s.entries.set i (some e'))
    (hfile : e'.swapDirn = e.swapDirn ∧ e'.swapFilen = e.swapFilen ∧ e'.swapStatus = e.swapStatus) (hmaps : s'.maps = s.maps) :
    Touched s i e (some e') s' := by
  refine ⟨hentr, fun x hx => ?_, by simp, by simpa using hmaps⟩
  obtain rfl := some.inj hx
  exact hfile

lemma SameFile.touched (h : SameFile e e') (hentr : s'.entries = s.entries.set i (some e')) (hmaps : s'.maps = s.maps) :
    Touched s i e (some e') s' := touched_set hentr ⟨h.swapDirn, h.swapFilen, h.swapStatus⟩ hmaps

lemma Touched.trans (h : Touched s i e (some e') s₁) (h' : Touched s₁ i e' a s') : Touched s i e a s' := by
  obtain ⟨hdirn, hfil, hstat⟩ := h.file e' rfl
  have hmaps : s₁.maps = s.maps := by simpa using h.maps
  refine ⟨?_, fun x hx => ?_, fun hnone => hstat ▸ h'.idle hnone, ?_⟩
  · rw [h'.entries, h.entries, List.set_set]
  · obtain ⟨hdirn', hfil', hst'⟩ := h'.file x hx
    exact ⟨hdirn'.trans hdirn, hfil'.trans hfil, hst'.trans hstat⟩
  · rw [h'.maps, State.resetBit, State.resetBit, hmaps, hdirn, hfil]

lemma resetBit_maps (s : State Key) (d n d' : ℤ) :
    (s.resetBit d n).maps d' = if d' = d then storeUfsDirMapBitReset (s.maps d) n else s.maps d' :=
  update_apply s.maps d _ d'

lemma Touched.unmarked {d n : ℤ} (h : Touched s i e a s') (hn : fileMapBitTest (s.maps d) n = false) :
    fileMapBitTest (s'.maps d) n = false := by
  rw [h.maps]
  split_ifs
  · rw [resetBit_maps]
    split_ifs with hd
    · exact CleanLog.unmarked_reset (hd ▸ hn) _
    · exact hn
  · exact hn

/-! ## Private keys -/

lemma ebitTest_ebitSet_self (flags : Flags) (f : EntryFlag) : ebitTest (ebitSet flags f) f = true := by
  have hf : f.bit < 16 := by cases f <;> decide
  simp [ebitTest, ebitSet, hf]

/-- The key is the same, or a new private one that a public key always gives way to. -/
def Rekeyed (c k : ℕ) (e e' : StoreEntry Key) : Prop :=
  k = c ∧ e'.key = e.key ∧ ebitTest e'.flags .keyPrivate = ebitTest e.flags .keyPrivate ∨ k = c + 1 ∧ e'.key = .inr k

lemma Rekeyed.le {c k : ℕ} (h : Rekeyed c k e e') : c ≤ k := by
  rcases h with ⟨h, -⟩ | ⟨h, -⟩ <;> omega

/-- Only the key and other flags have changed. -/
structure Kept (e e' : StoreEntry Key) : Prop extends SameFile e e' where
  unlocked : storeEntryLocked e = false → storeEntryLocked e' = false

lemma Kept.refl (e : StoreEntry Key) : Kept e e := ⟨⟨rfl, rfl, rfl, rfl, rfl⟩, id⟩

lemma storeSetPrivateKey_eq (hi : s.slot i = some e) :
    ∃ k e', storeSetPrivateKey i s = .ok ({ s with keyCounter := k }.setEntry i e') ∧ Kept e e' ∧
      Rekeyed s.keyCounter k e e' ∧ (ebitTest e.flags .keyPrivate = false → e'.key = .inr k) := by
  rw [storeSetPrivateKey, entryAt_eq hi, ok_bind]
  by_cases hpriv : ebitTest e.flags .keyPrivate = true
  · refine ⟨s.keyCounter, e, ?_, .refl e, .inl ⟨rfl, rfl, rfl⟩, fun hnot => absurd (hpriv.symm.trans hnot) (by simp)⟩
    rw [if_pos hpriv]
    exact congrArg _ (setEntry_self hi).symm
  · refine ⟨_, _, if_neg hpriv, ⟨⟨rfl, rfl, rfl, rfl, ebitTest_ebitSet_of_ne (by decide)⟩, fun hfree => ?_⟩,
      .inr ⟨rfl, rfl⟩, fun _ => rfl⟩
    simp only [storeEntryLocked, ebitTest_ebitSet_self, Bool.not_true, Bool.and_false, Bool.or_false] at hfree ⊢
    simp only [Bool.or_eq_false_iff] at hfree ⊢
    exact hfree.1

lemma storeReleaseRequest_eq (hi : s.slot i = some e) :
    ∃ k e', storeReleaseRequest i s = .ok ({ s with keyCounter := k }.setEntry i e') ∧ Kept e e' ∧
      Rekeyed s.keyCounter k e e' ∧
      (ebitTest e.flags .releaseRequest = false → ebitTest e.flags .keyPrivate = false → e'.key = .inr k) := by
  rw [storeReleaseRequest, entryAt_eq hi, ok_bind]
  by_cases hrel : ebitTest e.flags .releaseRequest = true
  · refine ⟨s.keyCounter, e, ?_, .refl e, .inl ⟨rfl, rfl, rfl⟩, fun hnot => absurd (hrel.symm.trans hnot) (by simp)⟩
    rw [if_pos hrel]
    exact congrArg _ (setEntry_self hi).symm
  · have hbit : ∀ f : EntryFlag, EntryFlag.entryCachable.bit ≠ f.bit → EntryFlag.releaseRequest.bit ≠ f.bit →
        ebitTest (ebitClr (ebitSet e.flags .releaseRequest) .entryCachable) f = ebitTest e.flags f := by
      intro f hcac hreq
      rw [ebitTest_ebitClr_of_ne hcac, ebitTest_ebitSet_of_ne hreq]
    have hpriv := hbit .keyPrivate (by decide) (by decide)
    obtain ⟨k, e', heq, hkept, hrek, hpub⟩ := storeSetPrivateKey_eq (slot_setEntry hi
      _)
    have hsame : SameFile e { e with flags := ebitClr (ebitSet e.flags .releaseRequest) .entryCachable } :=
      ⟨rfl, rfl, rfl, rfl, hbit _ (by decide) (by decide)⟩
    refine ⟨k, e', ?_, ⟨hsame.trans hkept.toSameFile, fun hfree => ?_⟩, ?_, fun _ hnot => hpub (hpriv.trans hnot)⟩
    · rw [if_neg hrel, heq]
      exact congrArg _ (setEntry_setEntry { s with keyCounter := k } i _ e')
    · refine hkept.unlocked ?_
      rw [storeEntryLocked, hbit _ (by decide) (by decide), hpriv]
      exact hfree
    · exact hrek.imp_left fun h => ⟨h.1, h.2.1, h.2.2.trans hpriv⟩

/-! ## Releasing and recycling -/

/-- What becomes of an entry that is released or recycled: it keeps its key, or gets a new private one. It gives a
public key away unless it is locked and marked for release. -/
structure Recycled (s : State Key) (i : ℕ) (e : StoreEntry Key) (a : Option (StoreEntry Key)) (s' : State Key) : Prop
    extends Touched s i e a s' where
  rekeyed : ∀ x ∈ a, Rekeyed s.keyCounter s'.keyCounter e x
  counter : s.keyCounter ≤ s'.keyCounter
  gone : ¬(storeEntryLocked e = true ∧ ebitTest e.flags .releaseRequest = true) → ebitTest e.flags .keyPrivate = false →
    ∀ x ∈ a, x.key = .inr s'.keyCounter

lemma Touched.recycled (h : Touched s i e (some e') s') (hrek : Rekeyed s.keyCounter s'.keyCounter e e')
    (hgone : ¬(storeEntryLocked e = true ∧ ebitTest e.flags .releaseRequest = true) → ebitTest e.flags .keyPrivate = false →
      e'.key = .inr s'.keyCounter) : Recycled s i e (some e') s' := by
  refine ⟨h, fun x hx => ?_, hrek.le, fun hnot hsha x hx => ?_⟩
  · obtain rfl := some.inj hx
    exact hrek
  · obtain rfl := some.inj hx
    exact hgone hnot hsha

lemma recycled_destroy (hfree : storeEntryLocked e = false) (hentr : s'.entries = s.entries.set i none)
    (hctr : s.keyCounter ≤ s'.keyCounter)
    (hmaps : s'.maps = if -1 < e.swapFilen then (s.resetBit e.swapDirn e.swapFilen).maps else s.maps) :
    Recycled s i e none s' := by
  refine ⟨⟨hentr, by simp, fun _ hwr => ?_, by simpa using hmaps⟩, by simp, hctr, by simp⟩
  simp [storeEntryLocked, hwr] at hfree

lemma releaseLate_recycled (cfg : Config Key) (hi : s.slot i = some e) :
    ∃ s' e', releaseLate i s = .ok s' ∧ Recycled s i e (some e') s' ∧ Balanced cfg s e (some e') s' := by
  obtain ⟨k, e', heq, hkept, hrek, hpub⟩ := storeSetPrivateKey_eq hi
  have hslot : ({ s with keyCounter := k }.setEntry i e').slot i = some e' := slot_setEntry hi e'
  have hbit : ∀ f : EntryFlag, EntryFlag.releaseRequest.bit ≠ f.bit →
      ebitTest (ebitSet e'.flags .releaseRequest) f = ebitTest e'.flags f := fun f hf => ebitTest_ebitSet_of_ne hf
  have hsame : SameFile e { e' with lockCount := e'.lockCount + 1, flags := ebitSet e'.flags .releaseRequest } :=
    hkept.toSameFile.trans ⟨rfl, rfl, rfl, rfl, hbit _ (by decide)⟩
  rw [releaseLate, heq, ok_bind, entryAt_eq hslot]
  refine ⟨_, _, rfl, Touched.recycled (hsame.touched ?_ rfl) ?_ fun _ => hpub, hsame.balanced fun _ => rfl⟩
  · simp [State.setEntry]
  · exact hrek.imp_left fun h => ⟨h.1, h.2.1, (hbit _ (by decide)).trans h.2.2⟩

lemma releaseFile_frame (cfg : Config Key) (e : StoreEntry Key) (s : State Key) :
    (releaseFile cfg e s).entries = s.entries ∧ (releaseFile cfg e s).keyCounter = s.keyCounter ∧
      (releaseFile cfg e s).maps = if -1 < e.swapFilen then (s.resetBit e.swapDirn e.swapFilen).maps else s.maps := by
  unfold releaseFile
  split_ifs
  · exact ⟨rfl, rfl, rfl⟩
  · exact ⟨rfl, rfl, rfl⟩
  · exact ⟨rfl, rfl, rfl⟩

lemma balanced_releaseFile (cfg : Config Key) (e : StoreEntry Key) (s : State Key) (i : ℕ) :
    Balanced cfg s e none ((releaseFile cfg e s).destroy i) := by
  refine fun hok => ⟨fun c n hn => ?_, by simp⟩
  rw [elim_none, add_zero]
  show (releaseFile cfg e s).counter c = _
  cases hc : counts e with
  | true =>
    have hc' := hc
    rw [counts, Bool.and_eq_true, beq_iff_eq] at hc'
    have hfil := hok.filed (by simp [hc'.1])
    have hres : (s.resetBit e.swapDirn e.swapFilen).counter c = toInt n := hn
    rw [releaseFile, if_pos (by omega), if_pos hc', counter_update hc (.inr rfl) hres, mul_neg_one, sub_eq_add_neg]
  | false =>
    have hc' : ¬ (e.swapStatus = .done ∧ ebitTest e.flags .entryValidated = true) := by
      simpa [counts] using hc
    rw [weight_of_not hc, sub_zero, releaseFile]
    split_ifs
    · exact hn
    · exact hn

lemma storeRelease_recycled (cfg : Config Key) (hi : s.slot i = some e) :
    ∃ s' a, storeRelease cfg i s = .ok s' ∧ Recycled s i e a s' ∧ Balanced cfg s e a s' := by
  rw [storeRelease, entryAt_eq hi, ok_bind]
  split_ifs with hloc
  · obtain ⟨k, e', heq, hkept, hrek, hpub⟩ := storeReleaseRequest_eq hi
    refine ⟨_, some e', heq, Touched.recycled (hkept.touched rfl rfl) hrek fun hnot => ?_, hkept.balanced fun _ => rfl⟩
    exact hpub (by simpa [hloc] using hnot)
  · obtain ⟨s', e', heq, hrec, hbalanced⟩ := releaseLate_recycled cfg hi
    exact ⟨s', some e', heq, hrec, hbalanced⟩
  · obtain ⟨hentr, hctr, hmaps⟩ := releaseFile_frame cfg e s
    refine ⟨_, none, rfl, recycled_destroy (by simpa using hloc) ?_ hctr.ge hmaps, balanced_releaseFile cfg e s i⟩
    rw [State.destroy, hentr]

lemma storeUnlockObject_touched (cfg : Config Key) (hi : s.slot i = some e) :
    ∃ s' a, storeUnlockObject cfg i s = .ok s' ∧ Touched s i e a s' ∧ Balanced cfg s e a s' := by
  rw [storeUnlockObject, entryAt_eq hi, ok_bind]
  by_cases hlast : e.lockCount - 1 ≠ 0
  · rw [if_pos hlast]
    have hsame : SameFile e { e with lockCount := e.lockCount - 1 } := ⟨rfl, rfl, rfl, rfl, rfl⟩
    exact ⟨_, some _, rfl, hsame.touched rfl rfl, hsame.balanced fun _ => rfl⟩
  · have hbit : ebitTest (if e.storeStatus = .pending then ebitSet e.flags .releaseRequest else e.flags) .entryValidated =
        ebitTest e.flags .entryValidated := by
      split_ifs
      · exact ebitTest_ebitSet_of_ne (by decide)
      · rfl
    generalize (if e.storeStatus = .pending then ebitSet e.flags .releaseRequest else e.flags) = flags at hbit
    have hsame : SameFile e { e with lockCount := 0, flags := flags } := ⟨rfl, rfl, rfl, rfl, hbit⟩
    have htou : Touched s i e _ (s.setEntry i { e with lockCount := 0, flags := flags }) := hsame.touched rfl rfl
    have hbalanced : Balanced cfg s e _ (s.setEntry i { e with lockCount := 0, flags := flags }) := hsame.balanced fun _ => rfl
    dsimp only
    split_ifs
    · obtain ⟨s', a, heq, hrec, hbalanced'⟩ := storeRelease_recycled cfg (slot_setEntry hi _)
      exact ⟨s', a, heq, htou.trans hrec.toTouched, hbalanced.trans hbalanced'⟩
    · exact ⟨_, _, rfl, htou, hbalanced⟩

/-- The entry is locked, has no file, or does not count. -/
def recycleSafe (e : StoreEntry Key) : Bool := storeEntryLocked e || decide (e.swapDirn < 0) || !counts e

lemma storeRelease_forgotten (hi : s.slot i = some e) (hfree : storeEntryLocked e = false) (hfil : e.swapFilen ≤ -1) :
    storeRelease cfg i s = .ok (s.destroy i) := by
  rw [storeRelease, entryAt_eq hi, ok_bind, if_neg (by simp [hfree]), if_neg (by omega), releaseFile, if_neg (by omega)]
  rfl

/-- An entry with a directory that is not locked is freed; its file number may be used again. -/
theorem storeRecycle_unlocked (cfg : Config Key) (hi : s.slot i = some e) (hdirn : 0 ≤ e.swapDirn) (hfree : storeEntryLocked e = false) :
    ∃ k, s.keyCounter ≤ k ∧ storeRecycle cfg i s =
      .ok ({ if -1 < e.swapFilen then s.resetBit e.swapDirn e.swapFilen else s with keyCounter := k }.destroy i) := by
  obtain ⟨k, e', heq, hkept, hrek, -⟩ := storeReleaseRequest_eq hi
  have hi' : ({ s with keyCounter := k }.setEntry i e').slot i = some e' := slot_setEntry hi e'
  refine ⟨k, hrek.le, ?_⟩
  rw [storeRecycle, entryAt_eq hi, ok_bind, if_pos ⟨hdirn, hfree⟩, heq, ok_bind, entryAt_eq hi', ok_bind, recycleFile,
    hkept.swapFilen, hkept.swapDirn]
  have hfree' := hkept.unlocked hfree
  split_ifs with hfil
  · have hi₂ : (({ s with keyCounter := k }.setEntry i e').resetBit e.swapDirn e.swapFilen).slot i = some e' := hi'
    refine (storeRelease_forgotten (slot_setEntry hi₂ { e' with swapFilen := -1, swapDirn := -1 }) hfree' le_rfl).trans ?_
    have hdes := setEntry_destroy ({ s with keyCounter := k }.resetBit e.swapDirn e.swapFilen) i e'
    rw [setEntry_destroy]
    exact congrArg _ hdes
  · refine (storeRelease_forgotten (slot_setEntry hi' e') hfree' (by rw [hkept.swapFilen]; omega)).trans ?_
    rw [setEntry_destroy, setEntry_destroy]

lemma storeRecycle_recycled (cfg : Config Key) (hi : s.slot i = some e) :
    ∃ s' a, storeRecycle cfg i s = .ok s' ∧ Recycled s i e a s' ∧ (recycleSafe e = true → Balanced cfg s e a s') := by
  by_cases hfile : 0 ≤ e.swapDirn ∧ storeEntryLocked e = false
  · obtain ⟨k, hk, heq⟩ := storeRecycle_unlocked cfg hi hfile.1 hfile.2
    refine ⟨_, none, heq, recycled_destroy hfile.2 ?_ hk ?_, fun hsafe _ => ⟨fun c n hn => ?_, by simp⟩⟩
    · split_ifs <;> rfl
    · split_ifs <;> rfl
    · have hnot : counts e = false := by simpa [recycleSafe, hfile.2, not_lt.2 hfile.1] using hsafe
      rw [weight_of_not hnot, elim_none, sub_zero, add_zero, ← hn]
      split_ifs <;> rfl
  · rw [storeRecycle, entryAt_eq hi, ok_bind, if_neg hfile]
    obtain ⟨s', a, heq, hrec, hbalanced⟩ := storeRelease_recycled cfg hi
    exact ⟨s', a, heq, hrec, fun _ => hbalanced⟩

/-! ## What outlasts the functions -/

/-- A newer record of an entry has the same validated bit if it is of the same file, and recycles no entry that
counts otherwise. -/
def updateSafe (s : State Key) (d : ℕ) (r : SwapLogData Key) (e : StoreEntry Key) : Bool :=
  if CleanLog.fileMapBitTest (s.maps d) r.swapFilen then
    decide (e.swapFilen = r.swapFilen ∧ e.swapDirn = d ∧ e.storeStatus = .ok →
      ebitTest r.flags .entryValidated = ebitTest e.flags .entryValidated)
  else recycleSafe e

/-- A record does not recycle an entry that counts, and does not change the validated bit of another. -/
def recordSafe [DecidableEq Key] (s : State Key) (d : ℕ) (r : SwapLogData Key) : Bool :=
  match storeGet s r.key with
  | none => true
  | some i =>
    match r.op with
    | .add => s.has i fun e => decide (r.lastref ≤ e.lastref) || updateSafe s d r.masked e
    | .del => s.has i fun e => decide (r.lastref < e.lastref) || recycleSafe e
    | _ => true

/-- Steps that neither recycle an entry that counts nor change the validated bit of another. -/
def safe [DecidableEq Key] (s : State Key) : Event Key → Bool
  | .recycle i => s.has i recycleSafe
  | .record d r => recordSafe s d r
  | _ => true

/-- `P` outlasts the changes of entries, and those that keep the balance if it depends on it, which `B` says. -/
structure Stable (cfg : Config Key) (B : Prop) (P : State Key → Prop) : Prop where
  frame : ∀ {s s' : State Key}, P s → s'.entries = s.entries → s'.maps = s.maps → (∀ c, s'.counter c = s.counter c) → P s'
  touch : ∀ {s s' : State Key} {i e a}, P s → s.slot i = some e → Touched s i e a s' → (B → Balanced cfg s e a s') → P s'
  create : ∀ {s : State Key} (cachable curtime), P s → P (storeCreateEntry cachable curtime s)
  restore : ∀ {s : State Key} {d : ℕ} {r : SwapLogData Key} {fm : FileMap}, P s → 0 ≤ r.swapFilen →
    fileMapBitTest (s.maps d) r.swapFilen = false → fileMapBitSet (s.maps d) r.swapFilen = .ok fm →
    P { s with maps := update s.maps d fm, entries := s.entries ++ [some (diskEntry d r)] }
  validate : ∀ {s : State Key} {i e}, P s → s.slot i = some e → ebitTest e.flags .entryValidated = false → 0 ≤ e.swapFilen →
    P (storeDirUpdateSwapSize cfg e.swapDirn e.swapFileSz 1 (s.setEntry i { e with flags := ebitSet e.flags .entryValidated }))

section
variable {B : Prop} {P : State Key → Prop} {d : ℕ} {r : SwapLogData Key} (h : Stable cfg B P) (hs : P s)
include h hs

lemma Stable.set (hi : s.slot i = some e) (hsame : SameFile e e') : P (s.setEntry i e') :=
  h.touch hs hi (hsame.touched rfl rfl) fun _ => hsame.balanced fun _ => rfl

lemma Stable.touched {f : StoreEntry Key → Exec (State Key)}
    (hf : ∀ e, s.slot i = some e → ∃ s' a, (entryAt i s >>= f) = .ok s' ∧ Touched s i e a s' ∧ (B → Balanced cfg s e a s')) :
    Ends (fun _ => True) P (entryAt i s >>= f) := by
  cases hi : entryAt i s with
  | error fault => trivial
  | ok e =>
    have hslot := (ends_entryAt i s).ok_of_eq hi
    obtain ⟨s', a, heq, htou, hbalanced⟩ := hf e hslot
    rw [← hi, heq]
    exact h.touch hs hslot htou hbalanced

lemma Stable.setPrivateKey (i : ℕ) : Ends (fun _ => True) P (storeSetPrivateKey i s) := by
  refine h.touched hs fun e hi => ?_
  obtain ⟨k, e', heq, hkept, -⟩ := storeSetPrivateKey_eq hi
  exact ⟨_, some e', heq, hkept.touched rfl rfl, fun _ => hkept.balanced fun _ => rfl⟩

lemma Stable.release (i : ℕ) : Ends (fun _ => True) P (storeRelease cfg i s) := by
  refine h.touched hs fun e hi => ?_
  obtain ⟨s', a, heq, hrec, hbalanced⟩ := storeRelease_recycled cfg hi
  exact ⟨s', a, heq, hrec.toTouched, fun _ => hbalanced⟩

lemma Stable.unlock (i : ℕ) : Ends (fun _ => True) P (storeUnlockObject cfg i s) := by
  refine h.touched hs fun e hi => ?_
  obtain ⟨s', a, heq, htou, hbalanced⟩ := storeUnlockObject_touched cfg hi
  exact ⟨s', a, heq, htou, fun _ => hbalanced⟩

lemma Stable.recycle (hsafe : B → s.has i recycleSafe = true) : Ends (fun _ => True) P (storeRecycle cfg i s) := by
  refine h.touched hs fun e hi => ?_
  obtain ⟨s', a, heq, hrec, hbalanced⟩ := storeRecycle_recycled cfg hi
  exact ⟨s', a, heq, hrec.toTouched, fun hB => hbalanced ((has_eq hi _).symm.trans (hsafe hB))⟩

/-! ### Validation -/

lemma Stable.cleanupEntry (i : ℕ) : Ends (fun _ => True) P (cleanupEntry cfg s i) := by
  refine (ends_entryAt i s).bind fun e hi => ends_ite (fun _ => hs) fun hnot => ends_ite (fun _ => hs) fun hfil => ?_
  have hs' := h.validate hs hi (by simpa using hnot) (not_lt.1 hfil)
  exact ends_ite (fun _ => h.release hs' i) fun _ => hs'

lemma Stable.cleanup : Ends (fun _ => True) P (storeCleanup cfg s) := by
  have hbuc : ∀ (is : List ℕ) (s : State Key), P s → Ends (fun _ => True) P (is.foldlM (SwapSize.cleanupEntry cfg) s) := by
    intro is
    induction is with
    | nil => exact fun s hs => hs
    | cons i is ih =>
      intro s hs
      exact (h.cleanupEntry hs i).bind ih
  refine ends_ite (fun _ => hbuc _ _ (h.frame hs rfl rfl fun _ => rfl)) fun _ => ?_
  by_cases hlast : s.storeDirsRebuilding - 1 = 0
  · rw [cAssert_pos hlast]
    exact h.frame hs rfl rfl fun _ => rfl
  · rw [cAssert, if_neg hlast]
    trivial

/-! ### Reading a log -/

lemma Stable.addDiskRestore (hfil : 0 ≤ r.swapFilen) (hfree : fileMapBitTest (s.maps d) r.swapFilen = false) :
    Ends (fun _ => True) P (storeUfsDirAddDiskRestore d r s) := by
  unfold storeUfsDirAddDiskRestore
  cases hset : fileMapBitSet (s.maps d) r.swapFilen with
  | error fault => trivial
  | ok fm => exact h.restore hs hfil hfree hset

lemma Stable.rebuildKnown (hfil : 0 ≤ r.swapFilen)
    (hsafe : ∀ e, s.slot i = some e → e.lastref < r.lastref → B → updateSafe s d r e = true) :
    Ends (fun _ => True) P (rebuildKnown cfg d r i s) := by
  refine (ends_entryAt i s).bind fun e hi => ends_ite (fun _ => hs) fun hnewe => ?_
  have hsafe' := hsafe e hi (by omega)
  refine ends_ite (fun hused => ends_ite (fun hfile => ?_) fun _ => hs) fun hfree => ?_
  · -- the flags of the record have the same validated bit
    refine h.touch hs hi (touched_set rfl ⟨rfl, rfl, rfl⟩ rfl) fun hB => SameFile.balanced ⟨rfl, rfl, rfl, rfl, ?_⟩ fun _ => rfl
    have hbit := hsafe' hB
    rw [updateSafe, if_pos hused, decide_eq_true_eq] at hbit
    exact hbit hfile
  · obtain ⟨s', a, heq, hrec, hbalanced⟩ := storeRecycle_recycled cfg hi
    have hs' : P s' := by
      refine h.touch hs hi hrec.toTouched fun hB => hbalanced ?_
      have hrecy := hsafe' hB
      rwa [updateSafe, if_neg hfree] at hrecy
    rw [heq]
    exact h.addDiskRestore hs' hfil (hrec.unmarked (by simpa using hfree))

variable [DecidableEq Key]

lemma Stable.record (hsafe : B → recordSafe s d r = true) : Ends (fun _ => True) P (rebuildRecord cfg d r s) := by
  have hfil : 0 ≤ r.masked.swapFilen := Int.emod_nonneg _ (by decide)
  unfold rebuildRecord
  cases hop : r.op with
  | nop => exact hs
  | max => exact hs
  | add =>
    refine ends_ite (fun _ => hs) fun _ => ends_ite (fun _ => hs) fun _ => ?_
    unfold rebuildAdd
    cases hget : storeGet s r.masked.key with
    | none => exact ends_ite (fun _ => hs) fun hfree => h.addDiskRestore hs hfil (by simpa using hfree)
    | some i =>
      refine h.rebuildKnown hs hfil fun e hi hnewe hB => ?_
      have hget' : storeGet s r.key = some i := hget
      have hrec := hsafe hB
      simp only [recordSafe, hget', hop, has_eq hi] at hrec
      have hnew' : ¬ r.lastref ≤ e.lastref := not_le.2 hnewe
      simpa [hnew'] using hrec
  | del =>
    unfold rebuildDel
    cases hget : storeGet s r.key with
    | none => exact hs
    | some i =>
      refine (ends_entryAt i s).bind fun e hi => ends_ite (fun holde => ?_) fun _ => hs
      refine h.recycle hs fun hB => ?_
      have hrec := hsafe hB
      simp only [recordSafe, hget, hop] at hrec
      simpa [has_eq hi, not_lt.2 holde] using hrec

lemma Stable.setPublicKey (i : ℕ) (key : Key) : Ends (fun _ => True) P (storeSetPublicKey cfg i key s) := by
  have hoth : Ends (fun _ => True) P (releaseOther cfg key s) := by
    unfold releaseOther
    cases storeGet s key with
    | none => exact hs
    | some j => exact (h.setPrivateKey hs j).bind fun s' hs' => h.release hs' j
  exact hoth.bind fun s' hs' => (ends_entryAt i s').bind fun e hi =>
    h.set hs' hi ⟨rfl, rfl, rfl, rfl, ebitTest_ebitClr_of_ne (by decide)⟩

lemma Stable.step {ev : Event Key} (hsafe : B → safe s ev = true) (hstart : ∀ i d filn, ev ≠ .swapOutStart i d filn)
    (hclosed : ∀ i size, ev ≠ .swapOutClosed i size) : Ends (fun _ => True) P (step cfg s ev) := by
  cases ev with
  | create cachable curtime => exact h.create _ _ hs
  | setPublicKey i key => exact h.setPublicKey hs i key
  | setSpecial i =>
    exact (ends_entryAt i s).bind fun e hi => h.set hs hi ⟨rfl, rfl, rfl, rfl, ebitTest_ebitSet_of_ne (by decide)⟩
  | complete i => exact (ends_entryAt i s).bind fun e hi => h.set hs hi ⟨rfl, rfl, rfl, rfl, rfl⟩
  | lock i curtime => exact (ends_entryAt i s).bind fun e hi => h.set hs hi ⟨rfl, rfl, rfl, rfl, rfl⟩
  | unlock i => exact h.unlock hs i
  | release i => exact h.release hs i
  | recycle i => exact h.recycle hs hsafe
  | swapOutStart i d filn => exact absurd rfl (hstart i d filn)
  | swapOutClosed i size => exact absurd rfl (hclosed i size)
  | record d r => exact h.record hs hsafe
  | rebuildComplete => exact h.frame hs rfl rfl fun _ => rfl
  | cleanup => exact h.cleanup hs
  | lateRelease =>
    unfold SwapSize.step storeLateRelease
    cases hsta : s.lateReleaseStack with
    | nil => exact hs
    | cons i rest => exact h.unlock (h.frame hs rfl rfl fun _ => rfl : P { s with lateReleaseStack := rest }) i

end

end SquidVideoCache.SwapSize
