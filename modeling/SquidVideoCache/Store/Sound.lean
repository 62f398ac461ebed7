import SquidVideoCache.Store.NewEntry

/-!
# Released entries are private

`Sound` adds to the invariant of the table what holds of every entry outside a rebuild: an entry
that is to be released is private and not cachable, and it has a key.
-/

namespace SquidVideoCache.Store
open Lib StoreKey VideoReg Function

variable {Key : Type} {cfg : Config Key} {s t u : State Key} {e : ℕ} {x y : StoreEntry Key}
  {X Y : Set ℕ}

/-- No other entry is held by the memory object, and its method fits a byte. -/
def MemOk (memObj : Option MemObject) : Prop :=
  ∀ mem, memObj = some mem → mem.method.toNat < 256 ∧ mem.imsEntry = none ∧ mem.oldEntry = none

lemma MemOk.map {memObj : Option MemObject} (h : MemOk memObj) {f : MemObject → MemObject}
    (hf : ∀ mem, (f mem).method = mem.method ∧ (f mem).imsEntry = mem.imsEntry ∧
      (f mem).oldEntry = mem.oldEntry) : MemOk (memObj.map f) := by
  intro mem hmem
  obtain ⟨mem', hmem', rfl⟩ := Option.map_eq_some_iff.mp hmem
  obtain ⟨hm, hi, ho⟩ := hf mem'
  rw [hm, hi, ho]
  exact h mem' hmem'

lemma MemOk.wanes {m m' : Option MemObject} (h : MemOk m) (hm : MemWanes m m') : MemOk m' := by
  intro mem' hmem'
  obtain ⟨mem, hmem, hsame, hims, hold⟩ := hm mem' hmem'
  obtain ⟨hmet, hi, ho⟩ := h mem hmem
  refine ⟨(Prod.mk.inj hsame).1 ▸ hmet, ?_, ?_⟩
  · exact Option.eq_none_iff_forall_ne_some.mpr fun i hi' => by cases hi.symm.trans (hims i hi')
  · exact Option.eq_none_iff_forall_ne_some.mpr fun i hi' => by cases ho.symm.trans (hold i hi')

/-- A released entry has a private key and is not cachable. -/
structure Good (x : StoreEntry Key) : Prop where
  released : x.flags.releaseRequest →
    x.key.isSome ∧ x.flags.keyPrivate ∧ ¬ x.flags.entryCachable
  memObj : MemOk x.memObj

lemma Good.of_not_released (hr : ¬ x.flags.releaseRequest) (hm : MemOk x.memObj) : Good x :=
  ⟨fun h => absurd h hr, hm⟩

lemma Good.same (h : Good x) (hm : MemOk y.memObj) (hk : y.key = x.key) (hf : y.flags = x.flags) : Good y := by
  refine ⟨?_, hm⟩
  rw [hf, hk]
  exact h.released

/-- The entries in `X`, which are being created, may be without a key. -/
structure Sound (cfg : Config Key) (X : Set ℕ) (s : State Key) : Prop where
  inv : Inv cfg s
  good : ∀ i x, s.entries i = some x → Good x
  keyed : ∀ i x, s.entries i = some x → i ∉ X → x.key.isSome
  settled : s.storeDirsRebuilding = false

/-- The faults that no run of a sound store has are missing. -/
def Allowed : StoreFault → Prop
  | .keyTaken | .keyLeft | .unlinked | .diverges => False
  | _ => True

namespace Sound

section

variable (h : Sound cfg X s)

include h

lemma mono (hXY : X ⊆ Y) : Sound cfg Y s :=
  ⟨h.inv, h.good, fun i x hx hi => h.keyed i x hx fun hX => hi (hXY hX), h.settled⟩

lemma congr (hent : t.entries = s.entries) (hnext : t.nextEntry = s.nextEntry)
    (htab : t.table = s.table) (hcou : t.keyCounter = s.keyCounter)
    (hreb : t.storeDirsRebuilding = s.storeDirsRebuilding) : Sound cfg X t := by
  refine ⟨h.inv.congr hent hnext htab hcou, ?_, ?_, hreb.trans h.settled⟩
  · rw [hent]
    exact h.good
  · rw [hent]
    exact h.keyed

lemma update (hinv : Inv cfg t) {z : Option (StoreEntry Key)} (hent : t.entries = update s.entries e z)
    (hreb : t.storeDirsRebuilding = s.storeDirsRebuilding) (hgood : ∀ y, z = some y → Good y)
    (hkey : ∀ y, z = some y → e ∉ Y → y.key.isSome) (hXY : ∀ i, i ≠ e → i ∈ X → i ∈ Y) : Sound cfg Y t := by
  refine ⟨hinv, ?_, ?_, hreb.trans h.settled⟩
  · intro i y hy
    by_cases hi : i = e
    · rw [hent, hi, update_self] at hy
      exact hgood y hy
    · rw [hent, update_of_ne hi] at hy
      exact h.good i y hy
  · intro i y hy hiY
    by_cases hi : i = e
    · rw [hent, hi, update_self] at hy
      exact hkey y hy (hi ▸ hiY)
    · rw [hent, update_of_ne hi] at hy
      exact h.keyed i y hy fun hX => hiY (hXY i hi hX)

lemma setEntry (he : s.entries e = some x) (hgood : Good y) (hk : y.key = x.key)
    (hp : y.flags.keyPrivate = x.flags.keyPrivate) : Sound cfg X (setEntry e y s) := by
  have hty := (h.inv.typed e x he).same hk hp fun mem hmem => (hgood.memObj mem hmem).1
  refine h.update (h.inv.setEntry he hty hk) rfl rfl ?_ ?_ fun _ _ hi => hi
  · intro z hz
    cases hz
    exact hgood
  · intro z hz heX
    cases hz
    rw [hk]
    exact h.keyed e x he heX

lemma same (he : s.entries e = some x) (hm : MemOk y.memObj) (hk : y.key = x.key)
    (hf : y.flags = x.flags) : Sound cfg X (Store.setEntry e y s) :=
  h.setEntry he ((h.good e x he).same hm hk hf) hk (by rw [hf])

lemma removed (e : ℕ) : Sound cfg X (removed e s) :=
  h.update (h.inv.remove e) rfl rfl (fun _ hz => by cases hz) (fun _ hz => by cases hz) fun _ _ hi => hi

lemma sdiff (he : s.entries e = some x) (hk : x.key.isSome) : Sound cfg (X \ {e}) s := by
  refine ⟨h.inv, h.good, ?_, h.settled⟩
  intro i z hz hi
  by_cases hie : i = e
  · rw [hie, he] at hz
    cases hz
    exact hk
  · exact h.keyed i z hz fun hX => hi ⟨hX, hie⟩

lemma rekeyed (hinv : Inv cfg t) (hent : t.entries = Function.update s.entries e (some y))
    (hreb : t.storeDirsRebuilding = s.storeDirsRebuilding) (hgood : Good y) (hk : y.key.isSome) :
    Sound cfg (X \ {e}) t := by
  refine h.update hinv hent hreb ?_ ?_ fun i hi hX => ⟨hX, hi⟩
  · intro z hz
    cases hz
    exact hgood
  · intro z hz _
    cases hz
    exact hk

end

end Sound

/-! ## Functions that change one entry -/

/-- The store is sound, only entry `e` has changed, and no request. -/
structure Touches (cfg : Config Key) (X : Set ℕ) (e : ℕ) (s t : State Key) : Prop where
  sound : Sound cfg X t
  others : ∀ i, i ≠ e → t.entries i = s.entries i
  requests : t.requests = s.requests

lemma Touches.refl (h : Sound cfg X s) : Touches cfg X e s s := ⟨h, fun _ _ => rfl, rfl⟩

lemma Touches.trans (h : Touches cfg X e s t) (h' : Touches cfg Y e t u) : Touches cfg Y e s u :=
  ⟨h'.sound, fun i hi => (h'.others i hi).trans (h.others i hi), h'.requests.trans h.requests⟩

lemma alike_privateEntry (num : ℕ) : Alike x (privateEntry cfg num x) := ⟨rfl, requestOf_map rfl fun _ => rfl⟩

lemma Sound.touches_set (h : Sound cfg X s) (he : s.entries e = some x) (hm : MemOk y.memObj)
    (hk : y.key = x.key) (hf : y.flags = x.flags) : Touches cfg X e s (Store.setEntry e y s) :=
  ⟨h.same he hm hk hf, fun _ hi => update_of_ne hi .., rfl⟩

lemma Sound.privateState (h : Sound cfg X s) (hmd5 : Function.Injective cfg.md5)
    (he : s.entries e = some x) (hcou : s.keyCounter + 1 < 2 ^ 31)
    (hc : x.flags.releaseRequest → ¬ x.flags.entryCachable) : Touches cfg (X \ {e}) e s (privateState cfg e x s) := by
  have hm := (h.good e x he).memObj
  refine ⟨h.rekeyed (h.inv.privateState hmd5 he hcou) rfl rfl ⟨?_, ?_⟩ rfl,
    fun _ hi => update_of_ne hi .., rfl⟩
  · intro hr
    exact ⟨rfl, rfl, hc hr⟩
  · exact hm.map fun _ => ⟨rfl, rfl, rfl⟩

section

variable [DecidableEq Key] (hmd5 : Function.Injective cfg.md5)

include hmd5

lemma Sound.storeSetPrivateKey (h : Sound cfg X s) (he : s.entries e = some x) :
    Ends Allowed (fun t => Touches cfg (X \ {e}) e s t ∧
      ∃ y, t.entries e = some y ∧ y.key.isSome ∧ y.flags.keyPrivate ∧ Alike x y) (storeSetPrivateKey cfg e s) := by
  by_cases hp : x.key.isSome ∧ x.flags.keyPrivate
  · rw [storeSetPrivateKey_of_private he hp]
    exact ⟨⟨h.sdiff he hp.1, fun _ _ => rfl, rfl⟩, x, he, hp.1, hp.2, rfl, rfl⟩
  · rw [h.inv.storeSetPrivateKey_eq hmd5 he hp]
    refine ends_ite (fun hcou => ?_) fun _ => trivial
    exact ⟨h.privateState hmd5 he hcou fun hr => ((h.good e x he).released hr).2.2,
      _, privateState_self, rfl, rfl, alike_privateEntry _⟩

lemma Sound.storeReleaseRequest (h : Sound cfg X s) (he : s.entries e = some x) :
    Ends Allowed (fun t => Touches cfg (X \ {e}) e s t ∧ ∃ y, t.entries e = some y ∧ y.key.isSome ∧ Alike x y)
      (storeReleaseRequest cfg e s) := by
  have hm := (h.good e x he).memObj
  by_cases hr : x.flags.releaseRequest
  · have hp := (h.good e x he).released hr
    have hsame : Store.storeReleaseRequest cfg e s = .ok s := by
      rw [Store.storeReleaseRequest, entryAt_eq he, ok_bind, if_pos hr]
      rfl
    rw [hsame]
    exact ⟨⟨h.sdiff he hp.1, fun _ _ => rfl, rfl⟩, x, he, hp.1, rfl, rfl⟩
  · have hinv := h.inv.setEntry he (h.inv.typed e x he).releasedEntry rfl
    rw [h.inv.storeReleaseRequest_eq hmd5 he hr]
    refine ends_ite (fun hp => ?_) fun _ => ends_ite (fun hcou => ?_) fun _ => trivial
    · refine ⟨⟨h.rekeyed hinv rfl rfl ⟨fun _ => ⟨hp.1, hp.2, Bool.false_ne_true⟩, hm⟩ hp.1,
        fun _ hi => update_of_ne hi .., rfl⟩, _, setEntry_self, hp.1, rfl, rfl⟩
    · have hpriv := hinv.privateState hmd5 setEntry_self hcou
      rw [privateState_setEntry] at hpriv
      refine ⟨⟨h.rekeyed hpriv rfl rfl ⟨fun _ => ⟨rfl, rfl, Bool.false_ne_true⟩, ?_⟩ rfl,
        fun _ hi => update_of_ne hi .., rfl⟩, _, privateState_self, rfl, ?_⟩
      · exact hm.map fun _ => ⟨rfl, rfl, rfl⟩
      · exact Alike.trans (y := releasedEntry x) ⟨rfl, rfl⟩ (alike_privateEntry _)

end

/-! ## Releasing and unlocking

No memory object holds another entry, so the recursive call is never made. -/

lemma Touches.mono (h : Touches cfg X e s t) (hXY : X ⊆ Y) : Touches cfg Y e s t :=
  ⟨h.sound.mono hXY, h.others, h.requests⟩

lemma Touches.congr (h : Touches cfg X e s t) (hent : u.entries = t.entries) (hnext : u.nextEntry = t.nextEntry)
    (htab : u.table = t.table) (hcou : u.keyCounter = t.keyCounter)
    (hreb : u.storeDirsRebuilding = t.storeDirsRebuilding) (hreq : u.requests = t.requests) : Touches cfg X e s u :=
  ⟨h.sound.congr hent hnext htab hcou hreb, hent ▸ h.others, hreq.trans h.requests⟩

lemma Touches.recedes (h : Touches cfg X e s t) (he : t.entries e = some x) (hxy : Recedes x y) :
    Touches cfg X e s (setEntry e y t) := by
  have hgood := h.sound.good e x he
  refine ⟨h.sound.setEntry he ⟨fun hr => ?_, hgood.memObj.wanes hxy.memObj⟩ hxy.key hxy.keyPrivate,
    fun i hi => (update_of_ne hi ..).trans (h.others i hi), h.requests⟩
  obtain ⟨hk, hp, hc⟩ := hgood.released (hxy.unmarked hr)
  rw [hxy.key, hxy.keyPrivate]
  exact ⟨hk, hp, fun hy => hc (hxy.entryCachable hy)⟩

/-- Entry `e` has its key as long as it is there. -/
structure Loses (cfg : Config Key) (X : Set ℕ) (e : ℕ) (s t : State Key) : Prop extends Touches cfg X e s t where
  keyed : ∀ y, t.entries e = some y → y.key.isSome

lemma Loses.start (h : Sound cfg X s) (he : s.entries e = some x) (hk : x.key.isSome) : Loses cfg X e s s :=
  ⟨Touches.refl h, fun y hy => by cases he.symm.trans hy; exact hk⟩

lemma Loses.free (h : Loses cfg X e s t) : Ends Allowed (Loses cfg X e s) (freeStoreEntry e t) := by
  cases he : t.entries e with
  | none =>
    rw [freeStoreEntry, storeHashDelete, entryAt, he]
    trivial
  | some x =>
    have hk := h.keyed x he
    have hmem : e ∈ t.table := (h.sound.inv.mem_table e).mpr (by rw [keyOf_of_entry he]; exact hk)
    rw [freeStoreEntry, storeHashDelete_eq he hk hmem]
    refine ends_check (fun hne => hne (by simp [keyOf])) fun _ => ?_
    have hnone : (removed e t).entries e = none := update_self ..
    have hgone : Loses cfg X e s (removed e t) :=
      ⟨⟨h.sound.removed e, fun i hi => (update_of_ne hi ..).trans (h.others i hi), h.requests⟩,
        fun y hy => by cases hnone.symm.trans hy⟩
    simpa [removed, freeEntry, setEntry] using hgone

section

variable [DecidableEq Key] (hmd5 : Function.Injective cfg.md5)

include hmd5

lemma Loses.outlasts : Outlasts cfg Allowed id (fun _ : Unit => Loses cfg X e s) e := by
  refine ⟨trivial, trivial, ?_, ?_, ?_, Loses.free, ?_⟩
  · intro _ t x y h he hxy
    refine ⟨h.recedes he hxy, fun z hz => ?_⟩
    cases setEntry_self.symm.trans hz
    rw [hxy.key]
    exact h.keyed x he
  · intro _ t h
    cases he : t.entries e with
    | none =>
      rw [storeReleaseRequest, entryAt, he]
      trivial
    | some x =>
      refine (h.sound.storeReleaseRequest hmd5 he).mono ?_
      rintro u ⟨hu, y, hy, hyk, -⟩
      exact ⟨h.trans (hu.mono Set.sdiff_subset), fun z hz => by cases hy.symm.trans hz; exact hyk⟩
  · intro _ t h
    apply ends_entryAt trivial
    intro x he
    refine ends_ite (fun _ => (storeDirSwapLog_ends he trivial).mono ?_) fun _ => h
    rintro u ⟨log, rfl⟩
    exact ⟨h.congr rfl rfl rfl rfl rfl rfl, h.keyed⟩
  · exact fun h => ⟨h.congr rfl rfl rfl rfl rfl rfl, h.keyed⟩

omit [DecidableEq Key] hmd5 in
lemma Loses.links : Links (Loses cfg X e s) fun _ => False := by
  intro t i x mem j h hx hmem hj
  obtain ⟨-, hims, hold⟩ := (h.sound.good i x hx).memObj mem hmem
  rcases hj with hj | hj
  · cases hims.symm.trans hj
  · cases hold.symm.trans hj

lemma Sound.storeRelease (h : Sound cfg X s) (he : s.entries e = some x) (hk : x.key.isSome) :
    Ends Allowed (Touches cfg X e s) (storeRelease cfg e s) := by
  refine ((Loses.outlasts hmd5).releaseWith (fun _ => Loses.links) (fun _ hi => hi.elim) (fun _ t ht hreb => ?_) (Y := ())
    (Loses.start h he hk)).mono fun t ht => ht.toTouches
  rw [ht.sound.settled] at hreb
  cases hreb

lemma Sound.storeUnlockObject (h : Sound cfg X s) (he : s.entries e = some x) (hk : x.key.isSome)
    (hover : x.lockCount = 1 → x.storeStatus = .pending → x.flags.releaseRequest) :
    Ends Allowed (Touches cfg X e s) (storeUnlockObject cfg e s) := by
  have hout : Outlasts cfg Allowed id (fun _ : Unit => Loses cfg X e s) e := Loses.outlasts hmd5
  have hset := (hout.bears ()).touch (y := { x with lockCount := x.lockCount - 1 }) (Loses.start h he hk) he rfl rfl rfl
  rw [Store.storeUnlockObject, unlockFuel, entryAt_eq he]
  refine ends_ite (fun _ => hset.toTouches) fun hzero => ?_
  have hone : x.lockCount = 1 := by
    have hz : x.lockCount - 1 = 0 := by_contra hzero
    calc x.lockCount = x.lockCount - 1 + 1 := (UInt16.sub_add_cancel ..).symm
      _ = 1 := by rw [hz, UInt16.zero_add]
  refine (hout.unlockLast (fun _ => Loses.links) (fun _ hi => hi.elim) (fun _ t ht hreb => ?_) (Y := ())
    fun y hy => ?_).mono fun t ht => ht.toTouches
  · rw [ht.sound.settled] at hreb
    cases hreb
  · cases setEntry_self.symm.trans hy
    rw [marked_eq (x := { x with lockCount := x.lockCount - 1 }) (hover hone)]
    exact (hout.bears ()).touch hset setEntry_self rfl rfl rfl

end

end SquidVideoCache.Store
