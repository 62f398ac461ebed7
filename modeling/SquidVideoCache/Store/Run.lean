import SquidVideoCache.Store.Keyword
import SquidVideoCache.Store.Transfer

/-!
# Runs of the store

`Reachable` has every state that the users of the store can bring it to from an empty one, by calls
of its functions and by what goes on between two calls.
-/

namespace SquidVideoCache.Store
open Lib Acsm StoreKey VideoReg Function

variable {Key : Type} {cfg : Config Key} {s t : State Key} {e : ℕ} {x y : StoreEntry Key}

inductive Call where
  | createEntry (url : CString) (flags : RequestFlags) (method : Method)
  | setPublicKey (e : ℕ)
  | setPrivateKey (e : ℕ)
  | releaseRequest (e : ℕ)
  | lockObject (e : ℕ)
  | unlockObject (e : ℕ)
  | complete (e : ℕ)
  | release (e : ℕ)

def perform [DecidableEq Key] (cfg : Config Key) : Call → State Key → Result (State Key)
  | .createEntry url flags method, s => do
    let (_, s) ← storeCreateEntry cfg url flags method s
    return s
  | .setPublicKey e, s => storeSetPublicKey cfg e s
  | .setPrivateKey e, s => storeSetPrivateKey cfg e s
  | .releaseRequest e, s => storeReleaseRequest cfg e s
  | .lockObject e, s => storeLockObject e s
  | .unlockObject e, s => storeUnlockObject cfg e s
  | .complete e, s => storeComplete cfg e s
  | .release e, s => storeRelease cfg e s

/-- A call is made for a live entry. It is published only if it is not to be released, and unlocked
only if it is locked. -/
def Permitted (s : State Key) : Call → Prop
  | .createEntry _ _ method => method.toNat < 256
  | .setPublicKey e => ∃ x, s.entries e = some x ∧ ¬ x.flags.releaseRequest
  | .unlockObject e => ∃ x, s.entries e = some x ∧ x.lockCount ≠ 0
  | .setPrivateKey e | .releaseRequest e | .lockObject e | .complete e | .release e =>
    ∃ x, s.entries e = some x

/-- The store is not being rebuilt, and the last lock of an entry goes when its transfer is over
or it is to be released anyway. -/
def Orderly (s : State Key) (call : Call) : Prop :=
  s.storeDirsRebuilding = false ∧ ∀ e x, call = .unlockObject e → s.entries e = some x →
    x.lockCount = 1 → x.storeStatus = .pending → x.flags.releaseRequest

/-- What may happen to an entry between two calls. Its key and the flags that go with it stay,
except that it may cease to be cachable. -/
structure Serves (x y : StoreEntry Key) : Prop where
  key : y.key = x.key
  keyPrivate : y.flags.keyPrivate = x.flags.keyPrivate
  releaseRequest : y.flags.releaseRequest = x.flags.releaseRequest
  entryCachable : y.flags.entryCachable → x.flags.entryCachable
  memObj : MemOk y.memObj

/-- Replies are read, requests and clients come and go, files are written and time passes. -/
structure Served (s t : State Key) : Prop where
  entries : ∀ i, Option.Rel Serves (s.entries i) (t.entries i)
  nextEntry : t.nextEntry = s.nextEntry
  table : t.table = s.table
  keyCounter : t.keyCounter = s.keyCounter

/-- The states of the runs whose calls all have `P`. -/
inductive Reachable [DecidableEq Key] (cfg : Config Key) (P : State Key → Call → Prop) : State Key → Prop
  | start {s : State Key} (hent : s.entries = fun _ => none) (htab : s.table = []) : Reachable cfg P s
  | call {s t : State Key} {c : Call} (hs : Reachable cfg P s) (hc : Permitted s c) (hP : P s c)
      (hrun : perform cfg c s = .ok t) : Reachable cfg P t
  | serve {s t : State Key} (hs : Reachable cfg P s) (hst : Served s t) : Reachable cfg P t

/-! ## One step -/

lemma Serves.good (h : Serves x y) (hx : Good x) : Good y := by
  refine ⟨fun hr => ?_, h.memObj⟩
  rw [h.releaseRequest] at hr
  obtain ⟨hk, hp, hc⟩ := hx.released hr
  rw [h.key, h.keyPrivate]
  exact ⟨hk, hp, fun hy => hc (h.entryCachable hy)⟩

lemma Served.entry (h : Served s t) {i : ℕ} (hy : t.entries i = some y) : ∃ x, s.entries i = some x ∧ Serves x y := by
  have hi := h.entries i
  rw [hy] at hi
  cases hx : s.entries i with
  | none =>
    rw [hx] at hi
    cases hi
  | some x =>
    rw [hx] at hi
    cases hi with
    | some hxy => exact ⟨x, rfl, hxy⟩

lemma Served.keyOf_eq (h : Served s t) : keyOf t = keyOf s := by
  funext i
  have hi := h.entries i
  rw [keyOf, keyOf]
  generalize s.entries i = a, t.entries i = b at hi
  cases hi with
  | none => rfl
  | some hxy => exact hxy.key

def settled (s : State Key) : State Key := { s with storeDirsRebuilding := false }

lemma settled_eq (h : s.storeDirsRebuilding = false) : settled s = s := by
  rw [settled, ← h]

lemma Served.sound (h : Served s t) (hs : Sound cfg ∅ (settled s)) : Sound cfg ∅ (settled t) := by
  have hkey : keyOf (settled t) = keyOf (settled s) := h.keyOf_eq
  refine ⟨⟨?_, ?_, ?_, ?_, ?_⟩, ?_, ?_, rfl⟩
  · intro i hi
    have hnone := hs.inv.allocated i (h.nextEntry ▸ hi)
    cases hy : t.entries i with
    | none => exact hy
    | some y =>
      obtain ⟨x, hx, -⟩ := h.entry hy
      cases hx.symm.trans hnone
  · rw [hkey]
    exact fun i => h.table ▸ hs.inv.mem_table i
  · exact h.table ▸ hs.inv.nodup
  · rw [hkey]
    exact hs.inv.distinct
  · intro i y hy
    obtain ⟨x, hx, hxy⟩ := h.entry hy
    exact h.keyCounter ▸ (hs.inv.typed i x hx).same hxy.key hxy.keyPrivate fun mem hmem => (hxy.memObj mem hmem).1
  · intro i y hy
    obtain ⟨x, hx, hxy⟩ := h.entry hy
    exact hxy.good (hs.good i x hx)
  · intro i y hy hi
    obtain ⟨x, hx, hxy⟩ := h.entry hy
    rw [hxy.key]
    exact hs.keyed i x hx hi

section

variable [DecidableEq Key] (hmd5 : Injective cfg.md5)

include hmd5

lemma Sound.perform (h : Sound cfg ∅ s) {c : Call} (hc : Permitted s c) (hord : Orderly s c) :
    Ends Allowed (Sound cfg ∅) (perform cfg c s) := by
  have hkeye : ∀ e x, s.entries e = some x → x.key.isSome :=
    fun e x he => h.keyed e x he (Set.notMem_empty e)
  cases c with
  | createEntry url flags method =>
    refine (h.storeCreateEntry hmd5 url flags hc).bind ?_
    intro r hr
    exact hr.2.1.sound
  | setPublicKey e =>
    obtain ⟨x, he, -⟩ := hc
    exact h.storeSetPublicKey hmd5 he
  | setPrivateKey e =>
    obtain ⟨x, he⟩ := hc
    exact (h.storeSetPrivateKey hmd5 he).mono fun t ht => ht.1.sound.mono Set.sdiff_subset
  | releaseRequest e =>
    obtain ⟨x, he⟩ := hc
    exact (h.storeReleaseRequest hmd5 he).mono fun t ht => ht.1.sound.mono Set.sdiff_subset
  | lockObject e =>
    obtain ⟨x, he⟩ := hc
    exact ((Updates.bears hmd5).storeLockObject (.start h he (hkeye e x he))).mono fun t ht => ht.touches.sound
  | unlockObject e =>
    obtain ⟨x, he, -⟩ := hc
    exact (h.storeUnlockObject hmd5 he (hkeye e x he) (hord.2 e x rfl he)).mono fun t ht => ht.sound
  | complete e =>
    obtain ⟨x, he⟩ := hc
    exact (h.storeComplete hmd5 he (hkeye e x he)).mono fun t ht => ht.touches.sound
  | release e =>
    obtain ⟨x, he⟩ := hc
    exact (h.storeRelease hmd5 he (hkeye e x he)).mono fun t ht => ht.sound

/-! ## Whole runs -/

lemma Reachable.sound (h : Reachable cfg Orderly s) : Sound cfg ∅ (settled s) := by
  induction h with
  | @start s hent htab =>
    have hnone : ∀ i x, s.entries i ≠ some x := fun i x hx => by cases (congrFun hent i).symm.trans hx
    exact ⟨.initial hent htab, fun i x hx => absurd hx (hnone i x), fun i x hx => absurd hx (hnone i x), rfl⟩
  | @call s t c _ hc hord hrun ih =>
    rw [settled_eq hord.1] at ih
    have ht := (ih.perform hmd5 hc hord).ok_of_eq hrun
    exact ht.congr rfl rfl rfl rfl ht.settled.symm
  | serve _ hst ih => exact hst.sound ih

end

lemma Reachable.mono [DecidableEq Key] {P Q : State Key → Call → Prop} (h : Reachable cfg P s)
    (hPQ : ∀ s c, P s c → Q s c) : Reachable cfg Q s := by
  induction h with
  | start hent htab => exact .start hent htab
  | call _ hc hP hrun ih => exact .call ih hc (hPQ _ _ hP) hrun
  | serve _ hst ih => exact .serve ih hst

/-- Keys are unique, and an entry that is to be released is private, not cachable and out of the
reach of public lookups. -/
structure Consistent [DecidableEq Key] (cfg : Config Key) (s : State Key) : Prop where
  distinct : ∀ i ∈ s.table, ∀ j ∈ s.table, keyOf s i = keyOf s j → i = j
  released : ∀ e x, s.entries e = some x → x.flags.releaseRequest →
    x.flags.keyPrivate ∧ ¬ x.flags.entryCachable
  notFound : ∀ url method e, storeGetPublic cfg url method s = .ok (some e) →
    ∃ x, s.entries e = some x ∧ ¬ x.flags.releaseRequest
  notFoundByRequest : ∀ request e, storeGetPublicByRequest cfg request s = .ok (some e) →
    ∃ x, s.entries e = some x ∧ ¬ x.flags.releaseRequest

lemma Sound.consistent [DecidableEq Key] (hmd5 : Injective cfg.md5) (h : Sound cfg ∅ s) : Consistent cfg s := by
  have hfree : ∀ key e, IsPublicKey cfg key → hashLookup key s = some e →
      ∃ x, s.entries e = some x ∧ ¬ x.flags.releaseRequest := by
    intro key e hkey hl
    obtain ⟨x, hx, -, hpub⟩ := h.inv.public_of_hashLookup hmd5 hkey hl
    exact ⟨x, hx, fun hr => hpub ((h.good e x hx).released hr).2.1⟩
  refine ⟨?_, ?_, ?_, ?_⟩
  · intro i hi j _ hij
    obtain ⟨k, hk⟩ := Option.isSome_iff_exists.mp ((h.inv.mem_table i).mp hi)
    exact h.inv.distinct i j k hk (hij ▸ hk)
  · intro e x he hr
    exact ((h.good e x he).released hr).2
  · intro url method e hfou
    obtain ⟨key, hkey, hl⟩ := (storeGetPublic_ends url method s).ok_of_eq hfou e rfl
    exact hfree key e hkey hl
  · intro request e hfou
    obtain ⟨key, hkey, hl⟩ := (storeGetPublicByRequest_ends _ s).ok_of_eq hfou e rfl
    exact hfree key e hkey hl

/-- Every state of an orderly run is consistent, and no orderly call fails the assertion of
`storeSetPrivateKey` or that of `destroy_StoreEntry`. -/
theorem reachable_consistent [DecidableEq Key] (hmd5 : Injective cfg.md5) (h : Reachable cfg Orderly s) :
    Consistent cfg s ∧ ∀ c, Permitted s c → Orderly s c → ∀ fault, perform cfg c s = .error fault →
      fault ≠ .keyTaken ∧ fault ≠ .keyLeft := by
  have hs := h.sound hmd5
  refine ⟨?_, ?_⟩
  · have hcons := hs.consistent hmd5
    exact ⟨hcons.distinct, hcons.released, hcons.notFound, hcons.notFoundByRequest⟩
  · intro c hc hord fault hfau
    rw [settled_eq hord.1] at hs
    have hall := (hs.perform hmd5 hc hord).error_of_eq hfau
    refine ⟨?_, ?_⟩
    · intro hf
      rw [hf] at hall
      exact hall
    · intro hf
      rw [hf] at hall
      exact hall

/-! ## Calls that are not orderly -/

section

variable [DecidableEq Key]

lemma releaseWith_locked {unlock : ℕ → State Key → Result (State Key)} (he : s.entries e = some x)
    (hloc : storeEntryLocked x) (hr : x.flags.releaseRequest) :
    releaseWith cfg unlock e s = .ok (setEntry e { x with expires := s.curtime } s) := by
  rw [releaseWith, entryAt_eq he, ok_bind, if_pos hloc, storeExpireNow, entryAt_eq he, ok_bind,
    pure_eq_ok, ok_bind, storeReleaseRequest, entryAt_eq setEntry_self, ok_bind, if_pos hr]
  rfl

/-- The last unlock of an entry that is still loading marks it and does nothing else. -/
theorem storeUnlockObject_pending (he : s.entries e = some x) (hlock : x.lockCount = 1)
    (hpend : x.storeStatus = .pending) (hcli : storePendingNClients x = 0) :
    storeUnlockObject cfg e s = .ok (setEntry e { x with
      lockCount := 0, expires := s.curtime, flags := { x.flags with releaseRequest := true } } s) := by
  have hflag : (x.flags.releaseRequest || x.storeStatus == .pending) = true := by
    rw [hpend]
    exact Bool.or_true _
  have hloc : storeEntryLocked { x with
      lockCount := 0, flags := { x.flags with releaseRequest := true } } = true := by
    simp [storeEntryLocked, hpend]
  have hlast : unlockLast cfg (unlockFuel cfg s.nextEntry) e (setEntry e { x with lockCount := 0 } s) =
      releaseWith cfg (unlockFuel cfg s.nextEntry) e (setEntry e { x with
        lockCount := 0, flags := { x.flags with releaseRequest := true } } s) := by
    rw [unlockLast, entryAt_eq setEntry_self, ok_bind]
    simp only [hflag, setEntry, update_idem, if_true]
    rw [check_pos (by exact hcli), ok_bind]
  rw [storeUnlockObject, unlockFuel, entryAt_eq he, ok_bind, hlock]
  show unlockLast _ _ _ (setEntry e { x with lockCount := 0 } s) = _
  rw [hlast, releaseWith_locked setEntry_self hloc rfl]
  simp [setEntry]

lemma Inv.storeSetPublicKey_free (h : Inv cfg s) (he : s.entries e = some x)
    (hp : x.key.isSome → x.flags.keyPrivate) (hr : ¬ x.flags.releaseRequest) {mem : MemObject}
    (hmem : x.memObj = some mem) (hreq : mem.request = none) (hf : x.swapFilen = -1) {key : Key}
    (hkey : storeKeyPublic cfg.md5 cfg.acsmCap (storeLookupUrl mem) mem.method = .ok key)
    (hl : hashLookup key s = none) : storeSetPublicKey cfg e s = .ok (Store.rekeyed e (publicEntry key x) s) := by
  have hpubl : publicKeyOf cfg mem s = .ok key := by
    rw [publicKeyOf, hreq, hkey]
    rfl
  rw [storeSetPublicKey, setPublicKeyWith, entryAt_eq he, ok_bind,
    if_neg (fun hpub => hpub.2 (hp hpub.1)), makePublic, entryAt_eq he, ok_bind, hmem]
  show (check _ _ >>= _) = _
  rw [check_pos hr, hreq, hpubl]
  exact publish_free h hpubl hl he hf

end

def emptyStore : State (List UInt8) where
  requests := fun _ => plainRequest flatA methodGet

lemma inv_emptyStore (acsmCap : AcsmCap) : Inv (plainConfig acsmCap) emptyStore := .initial rfl rfl

/-- The store with an entry for `/youku/a.flv`, which is loading and may be cached. -/
def loadingStore (acsm : AcsmStruct) : State (List UInt8) :=
  createdPrivate (plainConfig ⟨acsm, acsm⟩) flatA { cachable := true } methodGet emptyStore

lemma reachable_loadingStore {acsm : AcsmStruct} (h : searchQuery acsm (query flatA) = .ok 0) :
    Reachable (plainConfig ⟨acsm, acsm⟩) Orderly (loadingStore acsm) := by
  have hcre : storeCreateEntry (plainConfig ⟨acsm, acsm⟩) flatA { cachable := true } methodGet emptyStore =
      .ok (0, loadingStore acsm) :=
    storeCreateEntry_private (inv_emptyStore _) injective_id (by decide) (by decide) (by decide)
      h (by decide) (Or.inl rfl)
  refine .call (c := .createEntry flatA { cachable := true } _) (.start (s := emptyStore) rfl rfl)
    (show methodGet.toNat < 256 by decide) ⟨rfl, fun _ _ hc => by cases hc⟩ ?_
  rw [perform, hcre]
  rfl

theorem reachable_consistent_flatA : ∃ acsm : AcsmStruct, ∃ t, t.table = [0] ∧
    Reachable (plainConfig ⟨acsm, acsm⟩) Orderly t ∧ Consistent (plainConfig ⟨acsm, acsm⟩) t := by
  obtain ⟨acsm, hacsm⟩ := exists_acsm_empty
  have hrea := reachable_loadingStore (hacsm flatA (by decide) (by decide))
  exact ⟨acsm, _, rfl, hrea, (reachable_consistent injective_id hrea).1⟩

/-- An entry is created, published and unlocked while it is still loading. It is to be released then,
but it is public and cachable, and a lookup finds it. -/
theorem unlock_pending_found : ∃ acsm : AcsmStruct, ∃ t x,
    Reachable (plainConfig ⟨acsm, acsm⟩) (fun s _ => s.storeDirsRebuilding = false) t ∧
    t.entries 0 = some x ∧ x.flags.releaseRequest ∧ ¬ x.flags.keyPrivate ∧ x.flags.entryCachable ∧
    storeGetPublic (plainConfig ⟨acsm, acsm⟩) flatA methodGet t = .ok (some 0) := by
  obtain ⟨acsm, hacsm⟩ := exists_acsm_empty
  have hnone := hacsm flatA (by decide) (by decide)
  have hkey := storeKeyPublic_noKeyword id ⟨acsm, acsm⟩ (by decide) hnone hnone (by decide) methodGet
  have hload := reachable_loadingStore hnone
  have hinv := (hload.sound injective_id).inv
  have hpubl := hinv.storeSetPublicKey_free setEntry_self (fun _ => rfl) Bool.false_ne_true rfl
    rfl rfl hkey rfl
  have hpub : Reachable (plainConfig ⟨acsm, acsm⟩) (fun s _ => s.storeDirsRebuilding = false) _ :=
    .call (c := .setPublicKey 0) (hload.mono fun _ _ hc => hc.1) ⟨_, setEntry_self, Bool.false_ne_true⟩ rfl
      hpubl
  refine ⟨acsm, _, _, .call (c := .unlockObject 0) hpub ⟨_, rekeyed_self, show (1 : UInt16) ≠ 0 by decide⟩ rfl
    (storeUnlockObject_pending rekeyed_self rfl rfl rfl), setEntry_self, rfl, Bool.false_ne_true, rfl, ?_⟩
  show (liftKey (storeKeyPublic id ⟨acsm, acsm⟩ flatA methodGet) >>= _) = _
  rw [hkey]
  rfl

end SquidVideoCache.Store
