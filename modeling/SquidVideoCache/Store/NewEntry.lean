import SquidVideoCache.Store.Release

/-!
# New entries

`storeCreateEntry` converts the URL, asks the keyword list and gives the entry its first key.
-/

namespace SquidVideoCache.Store
open Lib StoreKey VideoReg Function List Bool

variable {Key : Type} {cfg : Config Key} {s t : State Key} {e : ℕ} {x : StoreEntry Key}
  {url : CString} {method : Method} {flags : RequestFlags} {i : ℕ} {key : Key} {ret : ℤ}

def allocated (url : CString) (method : Method) (s : State Key) : State Key :=
  { setEntry s.nextEntry (newStoreEntry url method) s with nextEntry := s.nextEntry + 1 }

lemma allocated_self : (allocated url method s).entries s.nextEntry = some (newStoreEntry url method) :=
  update_self ..

lemma allocated_of_ne (h : i ≠ s.nextEntry) : (allocated url method s).entries i = s.entries i := update_of_ne h ..

lemma Inv.allocateNew (h : Inv cfg s) (url : CString) (hm : method.toNat < 256) : Inv cfg (Store.allocated url method s) := by
  have ht : Typed cfg s.keyCounter (newStoreEntry url method) := by
    refine ⟨?_, ?_, ?_⟩
    · intro hp
      cases hp
    · intro _ k hk
      cases hk
    · intro mem hmem
      cases hmem
      exact hm
  exact Inv.allocate h rfl ht

lemma keyOf_allocated (h : Inv cfg s) (i : ℕ) : keyOf (allocated url method s) i = keyOf s i := by
  by_cases hi : i = s.nextEntry
  · rw [hi, keyOf_of_entry allocated_self, keyOf, h.allocated _ le_rfl]
    rfl
  · rw [keyOf, allocated_of_ne hi, keyOf]

lemma Inv.nextEntry_notMem (h : Inv cfg s) : s.nextEntry ∉ s.table := by
  intro hmem
  have hsome := (h.mem_table _).mp hmem
  rw [keyOf, h.allocated _ le_rfl] at hsome
  cases hsome

lemma hashLookup_allocated [DecidableEq Key] (h : Inv cfg s) (key : Key) :
    hashLookup key (allocated url method s) = hashLookup key s := by
  unfold hashLookup
  congr 1
  funext i
  rw [keyOf_allocated h]

/-! ## The steps after the first key -/

def cachableEntry (x : StoreEntry Key) : StoreEntry Key :=
  { x with flags := { x.flags with entryCachable := true, releaseRequest := false } }

def pendingEntry (now : ℤ) (x : StoreEntry Key) : StoreEntry Key := { x with
    storeStatus := .pending, swapStatus := .none, swapFilen := -1, swapDirn := -1, refcount := 0
    lastref := now, timestamp := -1, flags := { x.flags with entryValidated := true } }

lemma startPending_eq (he : s.entries e = some x) (hm : x.memStatus = .notInMemory) :
    startPending e s = .ok (setEntry e (pendingEntry s.curtime x) s) := by
  rw [startPending, entryAt_eq he]
  show (storeSetMemStatus e .notInMemory (setEntry e _ s) >>= _) = _
  rw [storeSetMemStatus, entryAt_setEntry, ok_bind, if_pos (show _ = x.memStatus from hm.symm), pure_eq_ok,
    ok_bind, entryAt_setEntry]
  simp only [setEntry, update_idem]
  rfl

variable [DecidableEq Key]

def finishCreate (cfg : Config Key) (flags : RequestFlags) (e : ℕ) (s : State Key) :
    Result (ℕ × State Key) := do
  let s ← setCachable cfg flags e s
  let s ← startPending e s
  return (e, s)

lemma finishCreate_cachable (hc : flags.cachable) (he : s.entries e = some x)
    (hm : x.memStatus = .notInMemory) : finishCreate cfg flags e s =
      .ok (e, setEntry e (pendingEntry s.curtime (cachableEntry x)) s) := by
  have hset : setCachable cfg flags e s = .ok (setEntry e (cachableEntry x) s) := by
    rw [setCachable, entryAt_eq he, ok_bind, if_pos hc]
    rfl
  rw [finishCreate, hset, ok_bind, startPending_eq (x := cachableEntry x) setEntry_self hm, ok_bind]
  simp [setEntry]

lemma setCachable_false (hc : ¬ flags.cachable) (he : s.entries e = some x)
    (hx : ¬ x.flags.entryCachable) : setCachable cfg flags e s = storeReleaseRequest cfg e s := by
  have hself : { x with flags := { x.flags with entryCachable := false } } = x := by
    rw [not_eq_true] at hx
    rw [← hx]
  rw [setCachable, entryAt_eq he, ok_bind, if_neg hc]
  show storeReleaseRequest cfg e (setEntry e { x with flags := _ } s) = _
  rw [hself, setEntry, ← he, update_eq_self]

lemma finishCreate_private (hc : ¬ flags.cachable) (he : s.entries e = some x)
    (hm : x.memStatus = .notInMemory) (hx : ¬ x.flags.entryCachable) (hr : ¬ x.flags.releaseRequest)
    (hp : x.key.isSome ∧ x.flags.keyPrivate) :
    finishCreate cfg flags e s = .ok (e, setEntry e (pendingEntry s.curtime (releasedEntry x)) s) := by
  rw [finishCreate, setCachable_false hc he hx, storeReleaseRequest_of_private he hr hp, ok_bind,
    startPending_eq (x := releasedEntry x) setEntry_self hm, ok_bind]
  simp [setEntry]

lemma finishCreate_public (h : Inv cfg s) (hmd5 : Injective cfg.md5) (hc : ¬ flags.cachable)
    (hcou : s.keyCounter + 1 < 2 ^ 31) (he : s.entries e = some x) (hm : x.memStatus = .notInMemory)
    (hx : ¬ x.flags.entryCachable) (hr : ¬ x.flags.releaseRequest) (hp : ¬ (x.key.isSome ∧ x.flags.keyPrivate)) :
    finishCreate cfg flags e s = .ok (e, setEntry e
      (pendingEntry s.curtime (privateEntry cfg (s.keyCounter + 1) (releasedEntry x)))
      (privateState cfg e (releasedEntry x) s)) := by
  rw [finishCreate, setCachable_false hc he hx, h.storeReleaseRequest_eq hmd5 he hr, if_neg hp, if_pos hcou,
    ok_bind, startPending_eq (x := privateEntry cfg _ (releasedEntry x)) privateState_self hm]
  rfl

/-! ## Publishing a new entry -/

def publicEntry (key : Key) (x : StoreEntry Key) : StoreEntry Key :=
  { x with key := some key, flags := { x.flags with keyPrivate := false } }

section

omit [DecidableEq Key]

lemma Typed.publicEntry {bound : ℕ} (h : Typed cfg bound x) (hkey : IsPublicKey cfg key) :
    Typed cfg bound (publicEntry key x) := by
  refine ⟨?_, ?_, h.method⟩
  · intro hp
    cases hp
  · intro _ k hk
    cases hk
    exact hkey

lemma Inv.publicKey (h : Inv cfg s) (he : s.entries e = some x) (hkey : IsPublicKey cfg key)
    (hfree : ∀ i, i ≠ e → keyOf s i ≠ some key) : Inv cfg (rekeyed e (publicEntry key x) s) := by
  have ht : Typed cfg s.keyCounter (publicEntry key x) := (h.typed e x he).publicEntry hkey
  have hinv := h.rekey he (show (Store.publicEntry key x).key = some key from rfl) hfree le_rfl ht
  exact hinv.congr rfl rfl rfl rfl

lemma isPublicKey_storeKeyPublic
    (h : storeKeyPublic cfg.md5 cfg.acsmCap url method = .ok key) : IsPublicKey cfg key := by
  obtain ⟨url', hurl'⟩ := storeKeyPublic_preimage h
  exact ⟨url', method, _, hurl'⟩

end

/-- The memory object of a new entry has no request, so its key is that of the URL. -/
theorem setPublicKeyPlain_new (he : s.entries e = some (newStoreEntry url method)) : setPublicKeyPlain cfg e s =
      (liftKey (storeKeyPublic cfg.md5 cfg.acsmCap url method) >>= fun key => publish cfg e { method, url } key s) := by
  rw [setPublicKeyPlain, setPublicKeyWith, makePublic, entryAt_eq he]
  rfl

section

omit [DecidableEq Key]

lemma insertPublic_eq (key : Key) (he : s.entries e = some x) (hnot : e ∉ s.table) : insertPublic e key s =
      if -1 < x.swapFilen then storeDirSwapLog e .add (rekeyed e (publicEntry key x) s)
      else .ok (rekeyed e (publicEntry key x) s) := by
  have hsta : { setEntry e { x with key := some key, flags := { x.flags with keyPrivate := false } }
      (setEntry e { x with flags := { x.flags with keyPrivate := false } } s) with
        table := e :: s.table } = rekeyed e (publicEntry key x) s := by
    simp [rekeyed, publicEntry, setEntry, erase_of_not_mem hnot]
  rw [insertPublic, entryAt_eq he, ok_bind, storeHashInsert_eq setEntry_self, ok_bind, ← hsta]
  rfl

lemma Inv.replaceKey_eq (h : Inv cfg s) (key : Key) (he : s.entries e = some x) : replaceKey e key s =
      if -1 < x.swapFilen then storeDirSwapLog e .add (rekeyed e (publicEntry key x) s)
      else .ok (rekeyed e (publicEntry key x) s) := by
  have hmem := h.mem_table e
  rw [keyOf_of_entry he] at hmem
  rw [replaceKey, entryAt_eq he, ok_bind]
  by_cases hk : x.key.isSome
  · rw [if_pos hk, storeHashDelete_eq he hk (hmem.mpr hk), ok_bind]
    have hnot : e ∉ s.table.erase e := h.nodup.not_mem_erase
    have hsta : rekeyed e (publicEntry key { x with key := none })
        { Store.setEntry e { x with key := none } s with table := s.table.erase e } =
        rekeyed e (publicEntry key x) s := by
      simp [rekeyed, Store.publicEntry, Store.setEntry, erase_of_not_mem hnot]
    rw [← hsta]
    exact insertPublic_eq (x := { x with key := none }) key (update_self ..) hnot
  · rw [if_neg hk, ok_bind]
    exact insertPublic_eq key he fun hc => hk (hmem.mp hc)

end

lemma publish_free (h : Inv cfg s) {mem : MemObject}
    (hkey : publicKeyOf cfg mem s = .ok key) (hl : hashLookup key s = none)
    (he : s.entries e = some x) (hf : x.swapFilen = -1) :
    publish cfg e mem key s = .ok (rekeyed e (publicEntry key x) s) := by
  rw [publish, evict, hl]
  show (publicKeyOf cfg mem s >>= _) = _
  rw [hkey, ok_bind, h.replaceKey_eq key he, if_neg (by omega)]

def PrivateOrGone (i : ℕ) (s : State Key) : Prop := ∀ x, s.entries i = some x → x.flags.keyPrivate

section

omit [DecidableEq Key]

lemma Fades.privateOrGone (h : Fades s t) (hi : PrivateOrGone i s) : PrivateOrGone i t := by
  intro x hx
  obtain ⟨y, hy, hyx⟩ := h.entries i x hx
  exact hyx.keyPrivate (hi y hy)

lemma PrivateOrGone.congr (h : PrivateOrGone i s) (ht : t.entries i = s.entries i) : PrivateOrGone i t := by
  intro x hx
  exact h x (ht.symm.trans hx)

lemma PrivateOrGone.of_update {entries : ℕ → Option (StoreEntry Key)}
    (ht : t.entries = update entries i (some x)) (hx : x.flags.keyPrivate) : PrivateOrGone i t := by
  intro y hy
  rw [ht, update_self] at hy
  cases hy
  exact hx

end

lemma evict_privateOrGone (hl : hashLookup key s = some i) :
    Ends (fun _ => True) (PrivateOrGone i) (evict cfg key s) := by
  have hpriv : Ends (fun _ => True) (PrivateOrGone i) (storeSetPrivateKey cfg i s) := by
    cases hx : s.entries i with
    | none =>
      rw [storeSetPrivateKey, entryAt, hx]
      trivial
    | some x =>
      refine (storeSetPrivateKey_ends (fun _ _ => trivial) hx).mono ?_
      rintro t (⟨-, hp, ht⟩ | ⟨num, newkey, -, -, ht, -⟩)
      · intro y hy
        rw [ht] at hy
        cases hx.symm.trans hy
        exact hp
      · exact .of_update ht.entries rfl
  rw [evict, hl]
  exact hpriv.bind fun t ht => (fades_storeRelease t).mono fun u hu => hu.privateOrGone ht

section

omit [DecidableEq Key]

lemma insertPublic_ends (key : Key) (he : s.entries e = some x) :
    Ends (fun _ => True) (fun t => Replaces e (some (publicEntry key x)) s t ∧ e ∈ t.table) (insertPublic e key s) := by
  let u : State Key := { setEntry e (publicEntry key x) s with table := e :: s.table }
  have hins : storeHashInsert e key (setEntry e { x with flags := { x.flags with keyPrivate := false } } s) =
      .ok u := by
    rw [storeHashInsert_eq setEntry_self]
    simp [u, publicEntry, setEntry]
  have hu : Replaces e (some (publicEntry key x)) s u ∧ e ∈ u.table :=
    ⟨⟨rfl, fun i hi => by simp [u, hi], rfl, rfl, rfl, rfl⟩, mem_cons_self⟩
  rw [insertPublic, entryAt_eq he, ok_bind]
  show Ends _ _ (storeHashInsert e key (setEntry e _ s) >>= _)
  rw [hins, ok_bind]
  refine ends_ite (fun _ => ?_) fun _ => hu
  refine (storeDirSwapLog_ends hu.1.self trivial).mono ?_
  rintro t ⟨log, ht⟩
  rw [ht]
  exact ⟨⟨hu.1.entries, hu.1.table, hu.1.nextEntry, hu.1.requests, hu.1.rebuilding, hu.1.dangling⟩, hu.2⟩

lemma replaceKey_ends (key : Key) (he : s.entries e = some x) :
    Ends (fun _ => True) (fun t => Replaces e (some (publicEntry key x)) s t ∧ e ∈ t.table) (replaceKey e key s) := by
  rw [replaceKey, entryAt_eq he, ok_bind]
  refine ends_ite (fun _ => ?_) fun _ => insertPublic_ends key he
  refine (storeHashDelete_ends (fun _ _ => trivial) he).bind fun t ht => (insertPublic_ends key ht.self).mono ?_
  intro u ⟨hu, hmem⟩
  exact ⟨ht.trans hu, hmem⟩

end

lemma publish_ends (key : Key) (mem : MemObject) (s : State Key) :
    Ends (fun _ => True) (fun t => (∃ y, t.entries e = some y ∧ ¬ y.flags.keyPrivate) ∧
      ∀ i, i ≠ e → hashLookup key s = some i → PrivateOrGone i t) (publish cfg e mem key s) := by
  have hevi : Ends (fun _ => True) (fun t => ∀ i, hashLookup key s = some i → PrivateOrGone i t)
      (evict cfg key s) := by
    cases hl : hashLookup key s with
    | none =>
      rw [evict, hl]
      intro i hi
      cases hi
    | some j =>
      refine (evict_privateOrGone hl).mono ?_
      intro t ht i hi
      cases hi
      exact ht
  refine hevi.bind fun t ht => (ends_true _).bind fun newkey _ => ?_
  cases he : t.entries e with
  | none =>
    rw [replaceKey, entryAt, he]
    trivial
  | some x =>
    refine (replaceKey_ends newkey he).mono ?_
    rintro u ⟨hu, _⟩
    exact ⟨⟨_, hu.self, false_ne_true⟩, fun i hi hl => (ht i hl).congr (hu.of_ne hi)⟩

/-! ## storeCreateEntry -/

section

variable (hlen : url.bytes.length < maxLen) (hret : searchQuery cfg.acsmCap.keywords (query url) = .ok ret)

include hlen hret

lemma storeCreateEntry_eq : storeCreateEntry cfg url flags method s =
      (setFirstKey cfg flags ret s.nextEntry (allocated url method s) >>= finishCreate cfg flags s.nextEntry) := by
  rw [storeCreateEntry, convertQuery_ok hlen.le, liftKey, ok_bind, hret]
  rfl

/-- For a keyword the entry is published before the request flags are looked at. -/
theorem storeCreateEntry_keyword (hhigh : 100 ≤ ret)
    (hkey : storeKeyPublic cfg.md5 cfg.acsmCap url method = .ok key) (s : State Key) :
    storeCreateEntry cfg url flags method s = (evict cfg key (allocated url method s) >>= fun t =>
        replaceKey s.nextEntry key t >>= finishCreate cfg flags s.nextEntry) := by
  have hlift : liftKey (storeKeyPublic cfg.md5 cfg.acsmCap url method) = .ok key := by
    rw [hkey]
    rfl
  have hpub : ∀ t, publicKeyOf cfg { method, url } t = .ok key := fun _ => hlift
  rw [storeCreateEntry_eq hlen hret, setFirstKey, if_pos (by omega), setPublicKeyPlain_new allocated_self, hlift,
    ok_bind, publish, bind_assoc]
  congr 1
  funext t
  rw [hpub, ok_bind]

end

lemma storeCreateEntry_fault (flags : RequestFlags) (method : Method) (s : State Key)
    (h : ¬ (url.bytes.length < maxLen ∧ ∃ ret, searchQuery cfg.acsmCap.keywords (query url) = .ok ret)) :
    ∃ f, storeCreateEntry cfg url flags method s = .error (.key f) := by
  rcases Nat.lt_or_ge maxLen url.bytes.length with hgt | hle
  · refine ⟨.bounds, ?_⟩
    rw [storeCreateEntry, convertQuery_fault hgt]
    rfl
  · have hsea : ∃ f, searchQuery cfg.acsmCap.keywords (query url) = .error f := by
      cases hret : searchQuery cfg.acsmCap.keywords (query url) with
      | error f => exact ⟨f, rfl⟩
      | ok ret =>
        have heq : url.bytes.length = maxLen := by
          by_contra hne
          exact h ⟨by omega, ret, hret⟩
        rw [searchQuery_full _ heq] at hret
        cases hret
    obtain ⟨f, hf⟩ := hsea
    refine ⟨f, ?_⟩
    rw [storeCreateEntry, convertQuery_ok hle, liftKey, ok_bind, hf]
    rfl

def flaggedEntry (flags : RequestFlags) (x : StoreEntry Key) : StoreEntry Key :=
  if flags.cachable then cachableEntry x else releasedEntry x

/-- The store with a new entry under a private key, and no other change. -/
def createdPrivate (cfg : Config Key) (url : CString) (flags : RequestFlags) (method : Method)
    (s : State Key) : State Key :=
  setEntry s.nextEntry (pendingEntry s.curtime
      (flaggedEntry flags (privateEntry cfg (s.keyCounter + 1) (newStoreEntry url method))))
    (privateState cfg s.nextEntry (newStoreEntry url method) (allocated url method s))

section

omit [DecidableEq Key]

lemma createdPrivate_of_ne (h : i ≠ s.nextEntry) :
    (createdPrivate cfg url flags method s).entries i = s.entries i := by
  show update (update _ s.nextEntry _) s.nextEntry _ i = _
  rw [update_of_ne h, update_of_ne h]
  exact allocated_of_ne h

lemma createdPrivate_self (cfg : Config Key) (url : CString) (flags : RequestFlags) (method : Method)
    (s : State Key) : ∃ y, (createdPrivate cfg url flags method s).entries s.nextEntry = some y ∧
      y.flags.keyPrivate := by
  refine ⟨_, setEntry_self, ?_⟩
  unfold flaggedEntry
  split_ifs <;> rfl

lemma mem_table_createdPrivate (h : Inv cfg s) (hi : i ∈ s.table) :
    i ∈ (createdPrivate cfg url flags method s).table := by
  show i ∈ s.nextEntry :: s.table.erase s.nextEntry
  rw [erase_of_not_mem h.nextEntry_notMem]
  exact mem_cons_of_mem _ hi

end

lemma storeCreateEntry_private (h : Inv cfg s) (hmd5 : Injective cfg.md5)
    (hm : method.toNat < 256) (hcou : s.keyCounter + 1 < 2 ^ 31) (hlen : url.bytes.length < maxLen)
    (hret : searchQuery cfg.acsmCap.keywords (query url) = .ok ret) (hlow : ret < 100)
    (hpriv : cfg.neighborsDoPrivateKeys ∨ ¬ flags.hierarchical) : storeCreateEntry cfg url flags method s =
      .ok (s.nextEntry, createdPrivate cfg url flags method s) := by
  have hinv := h.allocateNew url hm
  have hfir : setFirstKey cfg flags ret s.nextEntry (allocated url method s) =
      .ok (privateState cfg s.nextEntry (newStoreEntry url method) (allocated url method s)) := by
    rw [setFirstKey, if_neg (by omega), if_pos hpriv,
      hinv.storeSetPrivateKey_eq hmd5 allocated_self (fun hp => by cases hp.1)]
    exact if_pos hcou
  rw [storeCreateEntry_eq hlen hret, hfir, ok_bind, createdPrivate, flaggedEntry]
  by_cases hc : flags.cachable
  · rw [finishCreate_cachable hc privateState_self rfl, if_pos hc]
    rfl
  · have hself : (privateState cfg s.nextEntry (newStoreEntry url method)
        (allocated url method s)).entries s.nextEntry = some _ := privateState_self
    rw [finishCreate_private hc hself rfl false_ne_true false_ne_true ⟨rfl, rfl⟩, if_neg hc]
    rfl

lemma setFirstKey_free (h : Inv cfg s) (hm : method.toNat < 256) (hhigh : 100 ≤ ret)
    (hkey : storeKeyPublic cfg.md5 cfg.acsmCap url method = .ok key) (hl : hashLookup key s = none) :
    setFirstKey cfg flags ret s.nextEntry (allocated url method s) =
      .ok (rekeyed s.nextEntry (publicEntry key (newStoreEntry url method)) (allocated url method s)) := by
  rw [setFirstKey, if_pos (by omega), setPublicKeyPlain_new allocated_self, hkey]
  refine publish_free (h.allocateNew url hm) ?_ (by rw [hashLookup_allocated h, hl]) allocated_self rfl
  show liftKey (storeKeyPublic cfg.md5 cfg.acsmCap url method) = _
  rw [hkey]
  rfl

/-- The public key is free: publishing the entry and taking its key back leaves no trace. -/
theorem storeCreateEntry_free (h : Inv cfg s) (hmd5 : Injective cfg.md5)
    (hm : method.toNat < 256) (hcou : s.keyCounter + 1 < 2 ^ 31) (hlen : url.bytes.length < maxLen)
    (hret : searchQuery cfg.acsmCap.keywords (query url) = .ok ret) (hhigh : 100 ≤ ret) (hc : ¬ flags.cachable)
    (hkey : storeKeyPublic cfg.md5 cfg.acsmCap url method = .ok key) (hl : hashLookup key s = none) :
    storeCreateEntry cfg url flags method s = .ok (s.nextEntry, createdPrivate cfg url flags method s) := by
  have hinv := h.allocateNew url hm
  have hfree : ∀ i, i ≠ s.nextEntry → keyOf (allocated url method s) i ≠ some key := by
    intro i _
    rw [keyOf_allocated h]
    exact h.hashLookup_eq_none.mp hl i
  have hinv' := hinv.publicKey allocated_self (isPublicKey_storeKeyPublic hkey) hfree
  rw [storeCreateEntry_eq hlen hret, setFirstKey_free h hm hhigh hkey hl, ok_bind, finishCreate_public hinv' hmd5 hc hcou rekeyed_self rfl
    false_ne_true false_ne_true (fun hp => by cases hp.2)]
  simp only [createdPrivate, flaggedEntry, if_neg hc, setEntry, privateState, rekeyed, update_idem,
    erase_cons_head]
  rfl

omit [DecidableEq Key] in
lemma startPending_ends (he : s.entries e = some x) :
    Ends (fun _ => True) (fun t => (∃ y, t.entries e = some y ∧ y.flags.keyPrivate = x.flags.keyPrivate) ∧
      ∀ i, i ≠ e → t.entries i = s.entries i) (startPending e s) := by
  rw [startPending, entryAt_eq he, ok_bind]
  refine (storeSetMemStatus_ends setEntry_self trivial).bind ?_
  intro t ⟨status, ht⟩
  rw [ht, entryAt_setEntry, ok_bind]
  refine ⟨⟨_, setEntry_self, rfl⟩, ?_⟩
  intro i hi
  show update (update (update _ e _) e _) e _ i = _
  rw [update_of_ne hi, update_of_ne hi, update_of_ne hi]

lemma finishCreate_privateOrGone (hi : i ≠ e) (h : PrivateOrGone i s) :
    Ends (fun _ => True) (fun r => PrivateOrGone i r.2) (finishCreate cfg flags e s) := by
  have hset : Ends (fun _ => True) (PrivateOrGone i) (setCachable cfg flags e s) := by
    apply ends_entryAt trivial
    intro x he
    have hoth : ∀ y, PrivateOrGone i (setEntry e y s) := fun y => h.congr (update_of_ne hi ..)
    refine ends_ite (fun _ => hoth _) fun _ => ?_
    exact (fades_storeReleaseRequest _).mono fun t ht => ht.privateOrGone (hoth _)
  refine hset.bind fun t ht => ?_
  cases he : t.entries e with
  | none =>
    rw [startPending, entryAt, he]
    trivial
  | some x =>
    refine (startPending_ends he).bind fun u hu => ?_
    exact ht.congr (hu.2 i hi)

lemma storeCreateEntry_taken (h : Inv cfg s) (hlen : url.bytes.length < maxLen)
    (hret : searchQuery cfg.acsmCap.keywords (query url) = .ok ret) (hhigh : 100 ≤ ret)
    (hkey : storeKeyPublic cfg.md5 cfg.acsmCap url method = .ok key) (hl : hashLookup key s = some i) :
    Ends (fun _ => True) (fun r => PrivateOrGone i r.2) (storeCreateEntry cfg url flags method s) := by
  have hi : i ≠ s.nextEntry := fun heq => h.nextEntry_notMem (heq ▸ (hashLookup_some hl).1)
  rw [storeCreateEntry_eq hlen hret, setFirstKey, if_pos (by omega), setPublicKeyPlain_new allocated_self,
    hkey]
  refine (publish_ends key _ _).bind fun t ht => finishCreate_privateOrGone hi ?_
  exact ht.2 i hi (by rw [hashLookup_allocated h, hl])

lemma storeCreateEntry_published (hlen : url.bytes.length < maxLen)
    (hret : searchQuery cfg.acsmCap.keywords (query url) = .ok ret) (hhigh : 100 ≤ ret) (hc : flags.cachable) :
    Ends (fun _ => True) (fun r => r.1 = s.nextEntry ∧ ∃ y, r.2.entries s.nextEntry = some y ∧ ¬ y.flags.keyPrivate)
      (storeCreateEntry cfg url flags method s) := by
  rw [storeCreateEntry_eq hlen hret, setFirstKey, if_pos (by omega), setPublicKeyPlain_new allocated_self]
  refine Ends.bind
    ((ends_true _).bind fun key _ => (publish_ends key _ _).mono fun t ht => ht.1) ?_
  intro t ⟨y, hy, hpub⟩
  rw [finishCreate, setCachable, entryAt_eq hy, ok_bind, if_pos hc]
  refine (startPending_ends setEntry_self).bind ?_
  intro u ⟨⟨z, hz, hzp⟩, _⟩
  refine ⟨rfl, z, hz, ?_⟩
  rw [hzp]
  exact hpub

end SquidVideoCache.Store
