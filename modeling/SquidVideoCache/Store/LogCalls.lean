import SquidVideoCache.Store.SwapLog

/-!
# The functions of the store keep the log in step

Publishing an entry takes its key from the entry that has it and may add a marker object, which is
created, published, completed and unlocked on the way.
-/

namespace SquidVideoCache.Store
open Lib StoreKey VideoReg Function

variable {Key : Type} [DecidableEq Key] {cfg : Config Key} {s t u : State Key} {e : ℕ} {x y : StoreEntry Key}
  {A : ℕ → StoreEntry Key → Prop} {R : ℕ → Request} {Y : Set ℕ} {α : Type}

/-! ## Requirements on entries -/

def Hiding (e i : ℕ) (x : StoreEntry Key) : Prop := i = e → x.key.isSome → x.flags.keyPrivate

def Idle (e i : ℕ) (x : StoreEntry Key) : Prop := i = e → x.swapStatus = .none

def Unasked (e i : ℕ) (x : StoreEntry Key) : Prop := i = e → requestOf x = none

section

omit [DecidableEq Key]

lemma stable_hiding (e : ℕ) : Stable cfg (Hiding e) := by
  refine ⟨fun h hxy hi => ?_, fun _ _ _ _ _ => rfl⟩
  rw [hxy.key, hxy.keyPrivate]
  exact h hi

lemma stable_idle (e : ℕ) : Stable cfg (Idle e) :=
  ⟨fun h hxy hi => hxy.swapStatus.trans (h hi), fun h _ _ hi => h hi⟩

lemma stable_unasked (e : ℕ) : Stable cfg (Unasked e) := by
  refine ⟨fun h hxy hi => ?_, fun h _ _ hi => (alike_privateEntry _).request.trans (h hi)⟩
  rw [Option.eq_none_iff_forall_not_mem]
  intro r hr
  have hx := hxy.request r hr
  rw [h hi] at hx
  cases hx

lemma stable_free (hmd5 : Injective cfg.md5) {key : Key} (hkey : IsPublicKey cfg key) :
    Stable cfg fun _ x => x.key ≠ some key := by
  refine ⟨fun h hxy => by rw [hxy.key]; exact h, fun {_ x _ num} _ ht hnum heq => ?_⟩
  have hpriv : IsPrivateKey cfg num (privateKey cfg x.memObj num) := isPrivateKey_privateKey hnum ht.method
  rw [Option.some.inj heq] at hpriv
  exact hkey.not_isPrivateKey hmd5 hpriv

lemma ends_liftKey_log {β : Type} {Q : β → Prop} {r : Exec α} {f : α → Result β}
    (h : ∀ a, r = .ok a → Ends NoLogFault Q (f a)) : Ends NoLogFault Q (liftKey r >>= f) := by
  cases r with
  | error f => trivial
  | ok a => exact h a rfl

lemma ends_publicKeyOf_log {Q : α → Prop} {mem : MemObject} {f : Key → Result α}
    (h : ∀ key, publicKeyOf cfg mem s = .ok key → Ends NoLogFault Q (f key)) :
    Ends NoLogFault Q (publicKeyOf cfg mem s >>= f) := by
  unfold publicKeyOf at h ⊢
  cases hr : mem.request with
  | none =>
    rw [hr] at h
    exact ends_liftKey_log fun key hkey => h key (congrArg liftKey hkey)
  | some r =>
    rw [hr] at h
    exact ends_liftKey_log fun key hkey => h key (congrArg liftKey hkey)

end

namespace Logged

variable (hmd5 : Injective cfg.md5) (hA : Stable cfg A) {key : Key} {method : Method}

include hmd5 hA

/-! ## Publishing -/

lemma evict (h : Logged cfg A R Y s) (hkey : IsPublicKey cfg key) :
    Ends NoLogFault (fun t => Logged cfg A R Y t ∧ ∀ i, keyOf t i ≠ some key) (evict cfg key s) := by
  cases hl : hashLookup key s with
  | none =>
    rw [Store.evict, hl]
    exact ⟨h, h.inv.hashLookup_eq_none.mp hl⟩
  | some j =>
    obtain ⟨x, hx, hk, hpub⟩ := h.inv.public_of_hashLookup hmd5 hkey hl
    have hset := h.storeSetPrivateKey hmd5 hA j
    have heq := h.inv.storeSetPrivateKey_eq hmd5 hx fun hp => hpub hp.2
    rw [Store.evict, hl]
    show Ends _ _ (Store.storeSetPrivateKey cfg j s >>= _)
    rw [heq] at hset ⊢
    split_ifs at hset ⊢ with hcou
    · -- the holder has a private key now, and no other entry had the key
      have hfree : Logged cfg (fun i x => A i x ∧ x.key ≠ some key) R Y (privateState cfg j x s) := by
        refine hset.imp fun i z hz hAz => ⟨hAz, fun hzk => ?_⟩
        by_cases hij : i = j
        · rw [hij, privateState_self] at hz
          cases hz
          have hpriv : IsPrivateKey cfg (s.keyCounter + 1) (privateKey cfg x.memObj (s.keyCounter + 1)) :=
            isPrivateKey_privateKey (Nat.succ_pos _) (h.method hx)
          rw [Option.some.inj hzk] at hpriv
          exact hkey.not_isPrivateKey hmd5 hpriv
        · have hz' : s.entries i = some z := by rw [← hz]; exact (update_of_ne hij ..).symm
          exact hij (h.inv.distinct i j key (keyOf_eq_some.mpr ⟨z, hz', hzk⟩) (hashLookup_some hl).2)
      refine (hfree.storeRelease hmd5 (hA.and (stable_free hmd5 hkey)) j).mono fun u hu => ?_
      refine ⟨hu.imp fun _ _ _ hAz => hAz.1, fun i hi => ?_⟩
      obtain ⟨z, hz, hzk⟩ := keyOf_eq_some.mp hi
      exact (hu.entry i z hz).2 hzk
    · trivial

lemma publish (h : Logged cfg A R ∅ s) (hp : ∀ x, s.entries e = some x → x.key.isSome → x.flags.keyPrivate)
    (hApub : ∀ x key, A e x → A e (publicEntry key x)) {mem : MemObject} (hkey : publicKeyOf cfg mem s = .ok key) :
    Ends NoLogFault (Logged cfg A R ∅) (publish cfg e mem key s) := by
  have hpub := isPublicKey_publicKeyOf hkey
  have hhide : Logged cfg (fun i x => A i x ∧ Hiding e i x) R ∅ s :=
    h.imp fun i x hx hAx => ⟨hAx, fun hi => hp x (hi ▸ hx)⟩
  refine (hhide.evict hmd5 (hA.and (stable_hiding e)) hpub).bind ?_
  intro t ⟨ht, hfree⟩
  rw [publicKeyOf_congr mem (ht.requests.trans h.requests.symm), hkey, ok_bind]
  cases he : t.entries e with
  | none =>
    rw [replaceKey, entryAt, he]
    trivial
  | some y =>
    obtain ⟨hAy, hhid⟩ := ht.entry e y he
    exact (ht.imp fun _ _ _ hAx => hAx.1).insert he (hhid rfl) (Set.notMem_empty e) hpub hfree (hApub y key hAy)

omit hmd5 hA in
lemma setRequest (h : Logged cfg A R Y s) (r : ℕ) (request : Request) :
    Logged cfg A (update R r request) Y (setRequest r request s) := by
  refine ⟨h.inv.congr rfl rfl rfl rfl, h.settled, h.filed, h.entry, ?_, h.published, h.recorded⟩
  rw [← h.requests]
  rfl

lemma syncVary (h : Logged cfg A R Y s) (mem : MemObject) (r e : ℕ) :
    Ends NoLogFault (fun p => (∃ R', Logged cfg A R' Y p.1) ∧ p.1.nextEntry = s.nextEntry)
      (syncVary cfg e mem r s) := by
  have hset := fun request => h.setRequest r request
  rw [Store.syncVary]
  cases hv : mem.varyHeaders with
  | none => exact ⟨⟨_, hset _⟩, rfl⟩
  | some mark =>
    cases hv' : (s.requests r).varyHeaders with
    | none =>
      refine ends_ite (fun _ => ?_) fun _ => ⟨⟨_, hset _⟩, rfl⟩
      refine (((hset _).storeReleaseRequest hmd5 hA e).and (fades_storeReleaseRequest _)).bind fun t ht => ?_
      exact ⟨⟨_, ht.1⟩, ht.2.nextEntry⟩
    | some mark' =>
      refine ends_ite (fun _ => ?_) fun _ => ⟨⟨R, h⟩, rfl⟩
      show Ends _ _ (storeGetPublic cfg _ _ _ >>= _)
      rw [storeGetPublic, bind_assoc]
      refine ends_liftKey_log fun key _ => ?_
      cases hashLookup key (Store.setRequest r { s.requests r with varyHeaders := none } s) with
      | none => exact ⟨⟨_, hset _⟩, rfl⟩
      | some pe =>
        refine (((hset _).storeRelease hmd5 hA pe).and (fades_storeRelease _)).bind fun t ht => ?_
        exact ⟨⟨_, ht.1⟩, ht.2.nextEntry⟩

/-- What `storeAddVary` is assumed to do while an entry is published. The new marker object may be
any entry. -/
def AddsVary (cfg : Config Key) (addVary : MemObject → Key → State Key → Result (State Key)) : Prop :=
  ∀ A R mem key s, Stable cfg A → mem.method.toNat < 256 → (∀ i x, s.nextEntry ≤ i → A i x) →
    Logged cfg A R ∅ s → Ends NoLogFault (Logged cfg A R ∅) (addVary mem key s)

section

variable {addVary : MemObject → Key → State Key → Result (State Key)}

lemma makePublic_plain (h : Logged cfg A R ∅ s) (hp : ∀ x, s.entries e = some x → x.key.isSome → x.flags.keyPrivate)
    (hreq : ∀ x, s.entries e = some x → requestOf x = none) (hApub : ∀ x key, A e x → A e (publicEntry key x)) :
    Ends NoLogFault (Logged cfg A R ∅) (makePublic cfg addVary e s) := by
  apply ends_entryAt trivial
  intro x he
  cases hm : x.memObj with
  | none => trivial
  | some mem =>
    have hnone : mem.request = none := by
      have hx := hreq x he
      rw [requestOf, hm] at hx
      exact hx
    apply ends_check (fun _ => trivial)
    intro _
    rw [hnone]
    exact ends_publicKeyOf_log fun key hkey => h.publish hmd5 hA hp hApub hkey

lemma makePublic (hadd : AddsVary cfg addVary) (hnew : ∀ i x, s.nextEntry ≤ i → A i x) (h : Logged cfg A R ∅ s)
    (hp : ∀ x, s.entries e = some x → x.key.isSome → x.flags.keyPrivate)
    (hApub : ∀ x key, A e x → A e (publicEntry key x)) :
    Ends NoLogFault (fun t => ∃ R', Logged cfg A R' ∅ t) (makePublic cfg addVary e s) := by
  apply ends_entryAt trivial
  intro x he
  cases hm : x.memObj with
  | none => trivial
  | some mem =>
    apply ends_check (fun _ => trivial)
    intro _
    have hpubl : ∀ t key R', Logged cfg (fun i x => A i x ∧ Hiding e i x) R' ∅ t →
        publicKeyOf cfg mem t = .ok key →
        Ends NoLogFault (fun t => ∃ R', Logged cfg A R' ∅ t) (Store.publish cfg e mem key t) := by
      intro t key R' ht hkey
      have htA : Logged cfg A R' ∅ t := ht.imp fun _ _ _ hAx => hAx.1
      refine (htA.publish hmd5 hA (fun y hy => ?_) hApub hkey).mono fun u hu => ⟨R', hu⟩
      exact (ht.entry e y hy).2 rfl
    have hhide : Logged cfg (fun i x => A i x ∧ Hiding e i x) R ∅ s :=
      h.imp fun i y hy hAy => ⟨hAy, fun hi => hp y (hi ▸ hy)⟩
    cases hreq : mem.request with
    | none => exact ends_publicKeyOf_log fun key hkey => hpubl s key R hhide hkey
    | some r =>
      refine (hhide.syncVary hmd5 (hA.and (stable_hiding e)) mem r e).bind ?_
      intro ⟨t, indexed⟩ ⟨⟨R', ht⟩, hnext⟩
      cases indexed with
      | false => exact ⟨R', ht.imp fun _ _ _ hAx => hAx.1⟩
      | true =>
        refine ends_publicKeyOf_log fun newkey hkey => ?_
        refine ends_ite (fun _ => ?_) fun _ => hpubl t newkey R' ht hkey
        have hfre : ∀ i y, t.nextEntry ≤ i → A i y ∧ Hiding e i y := by
          intro i y hi
          rw [hnext] at hi
          refine ⟨hnew i y hi, fun hie => ?_⟩
          exact absurd (h.inv.lt_nextEntry he) (Nat.not_lt.mpr (hie ▸ hi))
        refine (hadd _ R' mem newkey t (hA.and (stable_hiding e)) (h.method he mem hm) hfre ht).bind ?_
        intro u hu
        -- the marker object leaves the requests alone, so the key is still the same
        refine hpubl u newkey R' hu ?_
        rw [publicKeyOf_congr mem (hu.requests.trans ht.requests.symm), hkey]

/-- An early public key is taken back first; then `Q` is up to the rest. -/
theorem setPublicKeyWith {Q : State Key → Prop} (h : Logged cfg A R ∅ s) (hQ : Q s)
    (hmake : ∀ t, Logged cfg A R ∅ t → t.nextEntry = s.nextEntry →
      (∀ x, t.entries e = some x → x.key.isSome → x.flags.keyPrivate) →
      Ends NoLogFault Q (Store.makePublic cfg addVary e t)) : Ends NoLogFault Q (setPublicKeyWith cfg addVary e s) := by
  apply ends_entryAt trivial
  intro x he
  refine ends_ite (fun hpub => ends_ite (fun _ => ?_) fun _ => hQ) fun hpriv => ?_
  · have hear : Logged cfg A R ∅ (setEntry e { x with flags := { x.flags with keyEarlyPublic := false } } s) :=
      h.write hA he ⟨rfl, rfl, rfl, rfl, rfl, rfl, fun _ => id⟩ rfl
    have hset := hear.storeSetPrivateKey hmd5 hA e
    have heq := hear.inv.storeSetPrivateKey_eq hmd5 setEntry_self fun hp => hpub.2 hp.2
    show Ends _ _ (Store.storeSetPrivateKey cfg e _ >>= _)
    rw [heq] at hset ⊢
    split_ifs at hset ⊢
    · refine hmake _ hset rfl fun y hy _ => ?_
      cases privateState_self.symm.trans hy
      rfl
    · trivial
  · refine hmake s h rfl fun y hy hk => ?_
    cases he.symm.trans hy
    by_contra hp
    exact hpriv ⟨hk, hp⟩

end

lemma setPublicKeyPlain (h : Logged cfg A R ∅ s) (hreq : ∀ x, s.entries e = some x → requestOf x = none)
    (hApub : ∀ x key, A e x → A e (publicEntry key x)) :
    Ends NoLogFault (Logged cfg A R ∅) (setPublicKeyPlain cfg e s) := by
  have hask : Logged cfg (fun i x => A i x ∧ Unasked e i x) R ∅ s :=
    h.imp fun i y hy hAy => ⟨hAy, fun hi => hreq y (hi ▸ hy)⟩
  refine hask.setPublicKeyWith hmd5 (hA.and (stable_unasked e)) h fun t ht _ hp => ?_
  exact (ht.imp fun _ _ _ hAx => hAx.1).makePublic_plain hmd5 hA hp (fun y hy => (ht.entry e y hy).2 rfl) hApub

/-! ## New entries -/

omit hmd5 hA in
lemma allocated (h : Logged cfg A R Y s) (url : CString) (hm : method.toNat < 256)
    (hnew : A s.nextEntry (newStoreEntry url method)) : Logged cfg A R Y (allocated url method s) := by
  have hentr : ∀ i x, (Store.allocated url method s).entries i = some x →
      (i = s.nextEntry ∧ x = newStoreEntry url method) ∨ s.entries i = some x := by
    intro i x hx
    by_cases hi : i = s.nextEntry
    · rw [hi, allocated_self] at hx
      cases hx
      exact Or.inl ⟨hi, rfl⟩
    · rw [allocated_of_ne hi] at hx
      exact Or.inr hx
  refine ⟨h.inv.allocateNew url hm, h.settled, ?_, ?_, h.requests, ?_, ?_⟩
  · intro i x hx
    rcases hentr i x hx with ⟨-, rfl⟩ | hx
    · exact ⟨fun _ => rfl, fun hs => absurd rfl hs, fun hs => by cases hs⟩
    · exact h.filed i x hx
  · intro i x hx
    rcases hentr i x hx with ⟨rfl, rfl⟩ | hx
    · exact hnew
    · exact h.entry i x hx
  · intro k n hlast
    obtain ⟨i, x, hiY, hx, hl, hs⟩ := h.published k n hlast
    have hi : i ≠ s.nextEntry := (h.inv.lt_nextEntry hx).ne
    exact ⟨i, x, hiY, (allocated_of_ne hi).trans hx, hl, hs⟩
  · intro i x k hiY hx hl hdone
    rcases hentr i x hx with ⟨-, rfl⟩ | hx
    · cases hl.key
    · exact h.recorded i x k hiY hx hl hdone

lemma startPending (h : Logged cfg A R Y s) (hidle : ∀ x, s.entries e = some x → x.swapStatus = .none) :
    Ends NoLogFault (Logged cfg A R Y) (startPending e s) := by
  have hboth : Logged cfg (fun i x => A i x ∧ Idle e i x) R Y s :=
    h.imp fun i y hy hAy => ⟨hAy, fun hi => hidle y (hi ▸ hy)⟩
  have hsta := hA.and (stable_idle e)
  apply ends_entryAt trivial
  intro x he
  have hpend : Logged cfg (fun i x => A i x ∧ Idle e i x) R Y (setEntry e { x with storeStatus := .pending } s) :=
    hboth.write hsta he ⟨rfl, rfl, rfl, rfl, rfl, rfl, fun _ => id⟩ rfl
  refine ((bears hmd5 hsta).storeSetMemStatus _ hpend).bind fun t ht => ?_
  apply ends_entryAt trivial
  intro y hy
  have hnone := (ht.entry e y hy).2 rfl
  refine (ht.imp fun _ _ _ hAx => hAx.1).write hA hy ⟨rfl, rfl, rfl, rfl, hnone.symm, ?_, fun _ => id⟩ rfl
  exact ((ht.filed e y hy).none hnone).symm

lemma setCachable (h : Logged cfg A R Y s) (flags : RequestFlags) (e : ℕ) :
    Ends NoLogFault (Logged cfg A R Y) (setCachable cfg flags e s) := by
  apply ends_entryAt trivial
  intro x he
  refine ends_ite (fun _ => ?_) fun _ => ?_
  · exact h.write hA he ⟨rfl, rfl, rfl, rfl, rfl, rfl, fun _ => id⟩ rfl
  · have hset : Logged cfg A R Y (setEntry e { x with flags := { x.flags with entryCachable := false } } s) :=
      h.write hA he ⟨rfl, rfl, rfl, rfl, rfl, rfl, fun _ => id⟩ rfl
    exact hset.storeReleaseRequest hmd5 hA e

/-- The new entry has neither a request nor a file until `storeCreateEntry` returns. -/
theorem storeCreateEntry (h : Logged cfg A R ∅ s) (url : CString) (flags : RequestFlags)
    (hm : method.toNat < 256) (hnew : ∀ x, A s.nextEntry x) : Ends NoLogFault (fun r => r.1 = s.nextEntry ∧
      Logged cfg (fun i x => A i x ∧ Unasked s.nextEntry i x) R ∅ r.2) (storeCreateEntry cfg url flags method s) := by
  have hask : Stable cfg fun i x => A i x ∧ Unasked s.nextEntry i x := hA.and (stable_unasked _)
  have hsta := hask.and (stable_idle s.nextEntry)
  have hall : Logged cfg (fun i x => (A i x ∧ Unasked s.nextEntry i x) ∧ Idle s.nextEntry i x) R ∅
      (Store.allocated url method s) := by
    refine (h.imp fun i x hx hAx => ?_).allocated url hm ⟨⟨hnew _, fun _ => rfl⟩, fun _ => rfl⟩
    have hi : i ≠ s.nextEntry := (h.inv.lt_nextEntry hx).ne
    exact ⟨⟨hAx, fun heq => absurd heq hi⟩, fun heq => absurd heq hi⟩
  have hpub : Ends NoLogFault (Logged cfg (fun i x => (A i x ∧ Unasked s.nextEntry i x) ∧ Idle s.nextEntry i x)
      R ∅) (Store.setPublicKeyPlain cfg s.nextEntry (Store.allocated url method s)) := by
    refine hall.setPublicKeyPlain hmd5 hsta (fun x hx => (hall.entry _ x hx).1.2 rfl) fun x key hAx => ?_
    exact ⟨⟨hnew _, fun _ => hAx.1.2 rfl⟩, fun _ => hAx.2 rfl⟩
  refine ends_liftKey_log fun queryStr _ => ends_liftKey_log fun ret _ => ?_
  have hkey : Ends NoLogFault (Logged cfg (fun i x => (A i x ∧ Unasked s.nextEntry i x) ∧ Idle s.nextEntry i x)
      R ∅) (setFirstKey cfg flags ret s.nextEntry (Store.allocated url method s)) :=
    ends_ite (fun _ => hpub) fun _ => ends_ite (fun _ => hall.storeSetPrivateKey hmd5 hsta _) fun _ => hpub
  refine hkey.bind fun t ht => (ht.setCachable hmd5 hsta flags _).bind fun u hu => ?_
  refine ((hu.imp fun _ _ _ hAx => hAx.1).startPending hmd5 hask fun x hx => (hu.entry _ x hx).2 rfl).bind fun v hv => ?_
  exact ⟨rfl, hv⟩

/-! ## Writing to disk -/

omit hmd5 in
lemma storeSwapOutStart (h : Logged cfg A R Y s) (hnew : ∀ x, A e x) {filen : ℤ} (dirn : ℤ)
    (hfile : ∀ x, s.entries e = some x → 0 ≤ filen ∧ ¬ x.flags.entryNegcached) :
    Ends NoLogFault (Logged cfg A R Y) (storeSwapOutStart e filen dirn s) := by
  cases he : s.entries e with
  | none =>
    rw [Store.storeSwapOutStart, Store.storeLockObject, entryAt, he]
    trivial
  | some x =>
    obtain ⟨hfile, hneg⟩ := hfile x he
    have hlock : Logged cfg A R Y (setEntry e { x with lockCount := x.lockCount + 1, lastref := s.curtime } s) :=
      h.write hA he ⟨rfl, rfl, rfl, rfl, rfl, rfl, fun _ => id⟩ rfl
    rw [Store.storeSwapOutStart, Store.storeLockObject, entryAt_eq he, ok_bind, pure_eq_ok, ok_bind,
      entryAt_eq setEntry_self, ok_bind]
    refine hlock.put setEntry_self rfl rfl rfl ?_ ⟨⟨?_, fun _ => hfile, fun _ => hneg⟩, hnew _⟩ ?_ ?_
    · intro mem' hmem'
      obtain ⟨mem, hmem, rfl⟩ := Option.map_eq_some_iff.mp hmem'
      exact h.method he mem hmem
    · intro hs
      cases hs
    · intro _ _ _ _ _ hs
      cases hs
    · intro _ _ _ hs
      cases hs

/-- `storeCreate` gives out file numbers from 0 on, and no negatively cached entry is written. -/
def FilesOk (cfg : Config Key) : Prop :=
  ∀ s e x filen dirn, s.entries e = some x → cfg.swapOut s e = .start (some (filen, dirn)) →
    0 ≤ filen ∧ ¬ x.flags.entryNegcached

omit hmd5 in
lemma starts (hfiles : FilesOk cfg) (hnew : ∀ x, A e x) : Starts cfg NoLogFault (Logged cfg A R Y) e :=
  fun s filen dirn h hdo => h.storeSwapOutStart hA hnew dirn fun x hx => hfiles s e x filen dirn hx hdo

lemma storeComplete (hfiles : FilesOk cfg) (h : Logged cfg A R Y s) (hnew : ∀ x, A e x) :
    Ends NoLogFault (Logged cfg A R Y) (storeComplete cfg e s) := by
  refine (bears hmd5 hA).storeComplete (starts hA hfiles hnew) (fun _ _ _ => h) fun x mem he hm => ⟨?_, fun o _ t ht => ?_⟩
  · refine h.writeMem hA he ⟨rfl, rfl, rfl, rfl, rfl, rfl, fun r hr => ?_⟩ ?_
    · rw [requestOf, hm]
      exact hr
    · rintro mem' ⟨⟩
      exact h.method he mem hm
  · exact (bears hmd5 hA).modifyMem (fun _ => rfl) ht

/-! ## storeAddVary -/

lemma registerFound (h : Logged cfg A R Y s) (url : CString) (hm : method.toNat < 256) (o : ℕ) :
    Ends NoLogFault (Logged cfg A R Y) (createMemObject o url method s >>= storeClientRegister o) := by
  have hcre : Ends NoLogFault (Logged cfg A R Y) (createMemObject o url method s) := by
    apply ends_entryAt trivial
    intro x he
    refine ends_ite (fun _ => h) fun _ => ?_
    refine h.writeMem hA he ⟨rfl, rfl, rfl, rfl, rfl, rfl, fun r hr => by cases hr⟩ ?_
    rintro mem ⟨⟩
    exact hm
  exact hcre.bind fun t => (bears hmd5 hA).storeClientRegister

lemma finishMarker (hfiles : FilesOk cfg) (h : Logged cfg A R Y s) (hnew : ∀ x, A e x) :
    Ends NoLogFault (Logged cfg A R Y) (finishMarker cfg e s) := by
  have hb : Bears cfg NoLogFault (Logged cfg A R Y) e := bears hmd5 hA
  exact (hb.storeTimestampsSet h).bind fun _ h1 => (h1.storeComplete hmd5 hA hfiles hnew).bind fun _ h2 =>
    (hb.storeTimestampsSet h2).bind fun _ h3 => (hb.storeSwapOut (starts hA hfiles hnew) h3).bind fun _ h4 =>
      h4.storeUnlockObject hmd5 hA e

omit hA in
lemma addsVary_storeAddVary (hfiles : FilesOk cfg) : AddsVary cfg (storeAddVary cfg) := by
  intro A R mem key s hA hmet hnew h
  rw [storeAddVary, storeGetPublic, bind_assoc]
  refine ends_liftKey_log fun key' _ => ?_
  rw [pure_eq_ok, ok_bind]
  generalize hashLookup key' s = found
  have hlock : Ends NoLogFault (fun t => Logged cfg A R ∅ t ∧ t.nextEntry = s.nextEntry) (lockFound found s) := by
    cases found with
    | none => exact ⟨h, rfl⟩
    | some o =>
      have hnext : Ends (fun _ => True) (fun t => t.nextEntry = s.nextEntry) (Store.storeLockObject o s) := by
        apply ends_entryAt trivial
        intro x _
        rfl
      exact ((bears hmd5 hA).storeLockObject h).and hnext
  refine hlock.bind ?_
  rintro t ⟨ht, hnext⟩
  have hany : ∀ x, A t.nextEntry x := fun x => hnew _ x hnext.ge
  refine (ht.storeCreateEntry hmd5 hA mem.url { cachable := true } hmet hany).bind ?_
  rintro ⟨e, u⟩ ⟨he, hu⟩
  have he : e = t.nextEntry := he
  have hask : Stable cfg fun i x => A i x ∧ Unasked t.nextEntry i x := hA.and (stable_unasked _)
  refine (hu.modifyMem hask (f := markerObject mem.storeUrl mem.reply.vary u.curtime) (fun _ => rfl)
    (fun _ _ => id) e).bind fun v hv => ?_
  have hpla := hv.setPublicKeyPlain (e := e) hmd5 hask (fun x hx => (hv.entry e x hx).2 he) ?_
  · refine hpla.bind fun w hw => ?_
    have hwA : Logged cfg A R ∅ w := hw.imp fun _ _ _ hAx => hAx.1
    cases found with
    | none => exact hwA.finishMarker hmd5 hA hfiles (he ▸ hany)
    | some o => exact hwA.registerFound hmd5 hA mem.url hmet o
  · intro x k hAx
    exact ⟨he ▸ hany _, hAx.2⟩

omit hA in
lemma storeSetPublicKey (hfiles : FilesOk cfg) (h : Logged cfg (fun _ _ => True) R ∅ s) (e : ℕ) :
    Ends NoLogFault (fun t => ∃ R', Logged cfg (fun _ _ => True) R' ∅ t) (storeSetPublicKey cfg e s) :=
  h.setPublicKeyWith hmd5 stable_true ⟨R, h⟩ fun _ ht _ hp =>
    ht.makePublic hmd5 stable_true (addsVary_storeAddVary hmd5 hfiles) (fun _ _ _ => trivial) hp fun _ _ _ => trivial

end Logged

end SquidVideoCache.Store
