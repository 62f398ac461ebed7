import SquidVideoCache.Store.Invariant

/-!
# Releasing only takes away

Unlocking and releasing call each other, and a memory object that goes away may unlock further
entries. What such a cascade keeps is proved once: a property of the store that outlasts every
change of a single entry outlasts the whole cascade.
-/

namespace SquidVideoCache.Store
open Lib StoreKey Function

variable {Key : Type} {cfg : Config Key} {s t u : State Key} {e : ℕ} {x x' y : StoreEntry Key}
  {f : MemObject → MemObject} {z : Option (StoreEntry Key)}

/-- The object stays the same, and no other entries are held than before. -/
def MemWanes (m m' : Option MemObject) : Prop := ∀ mem', m' = some mem' → ∃ mem, m = some mem ∧
    (mem'.method, mem'.url, mem'.reply) = (mem.method, mem.url, mem.reply) ∧
    (∀ i, mem'.imsEntry = some i → mem.imsEntry = some i) ∧
    ∀ i, mem'.oldEntry = some i → mem.oldEntry = some i

lemma MemWanes.refl (m : Option MemObject) : MemWanes m m :=
  fun mem hmem => ⟨mem, hmem, rfl, fun _ => id, fun _ => id⟩

lemma MemWanes.none (m : Option MemObject) : MemWanes m none := fun _ h => by cases h

lemma MemWanes.map (m : Option MemObject)
    (hf : ∀ mem, ((f mem).method, (f mem).url, (f mem).reply) = (mem.method, mem.url, mem.reply) ∧
      (∀ i, (f mem).imsEntry = some i → mem.imsEntry = some i) ∧
      ∀ i, (f mem).oldEntry = some i → mem.oldEntry = some i) : MemWanes m (m.map f) := by
  intro mem' hmem'
  obtain ⟨mem, hmem, rfl⟩ := Option.map_eq_some_iff.mp hmem'
  exact ⟨mem, hmem, hf mem⟩

/-- What a release does to an entry, apart from its key. -/
structure Wanes (x y : StoreEntry Key) : Prop where
  key : y.key = x.key
  keyPrivate : y.flags.keyPrivate = x.flags.keyPrivate
  releaseRequest : x.flags.releaseRequest → y.flags.releaseRequest
  entryCachable : y.flags.entryCachable → x.flags.entryCachable
  memObj : MemWanes x.memObj y.memObj

lemma Wanes.of_flags (hk : y.key = x.key) (hf : y.flags = x.flags) (hm : MemWanes x.memObj y.memObj) : Wanes x y := by
  refine ⟨hk, ?_, ?_, ?_, hm⟩
  · rw [hf]
  · rw [hf]
    exact id
  · rw [hf]
    exact id

def requestOf (x : StoreEntry Key) : Option ℕ := x.memObj.bind MemObject.request

/-- What the changes of a key leave alone. -/
structure Alike (x y : StoreEntry Key) : Prop where
  storeStatus : y.storeStatus = x.storeStatus
  request : requestOf y = requestOf x

lemma Alike.trans {z : StoreEntry Key} (h : Alike x y) (h' : Alike y z) : Alike x z :=
  ⟨h'.storeStatus.trans h.storeStatus, h'.request.trans h.request⟩

lemma requestOf_map (hy : y.memObj = x.memObj.map f)
    (hf : ∀ mem, (f mem).request = mem.request) : requestOf y = requestOf x := by
  rw [requestOf, hy, Option.bind_map]
  congr 1
  funext mem
  exact hf mem

/-- The fields that the log depends on stay, and the entry gets no new request. -/
structure SameFile (x y : StoreEntry Key) : Prop where
  key : y.key = x.key
  keyPrivate : y.flags.keyPrivate = x.flags.keyPrivate
  entrySpecial : y.flags.entrySpecial = x.flags.entrySpecial
  entryNegcached : y.flags.entryNegcached = x.flags.entryNegcached
  swapStatus : y.swapStatus = x.swapStatus
  swapFilen : y.swapFilen = x.swapFilen
  request : ∀ r, requestOf y = some r → requestOf x = some r

/-- The change neither marks the entry for a release nor concerns its file. -/
structure Recedes (x y : StoreEntry Key) : Prop extends Wanes x y, SameFile x y where
  unmarked : y.flags.releaseRequest → x.flags.releaseRequest

lemma Recedes.of_flags (h : (y.key, y.flags, y.swapStatus, y.swapFilen) = (x.key, x.flags, x.swapStatus, x.swapFilen))
    (hm : MemWanes x.memObj y.memObj) (hr : ∀ r, requestOf y = some r → requestOf x = some r) : Recedes x y := by
  simp only [Prod.mk.injEq] at h
  obtain ⟨hk, hf, hs, hn⟩ := h
  exact ⟨.of_flags hk hf hm, by rw [hf], by rw [hf], hs, hn, hr, by rw [hf]; exact id⟩

/-- `P` outlasts the changes of entry `e`. -/
structure Tolerates [DecidableEq Key] (cfg : Config Key) (P : State Key → Prop) (e : ℕ) : Prop where
  set : ∀ {s x y}, P s → s.entries e = some x → Wanes x y → P (setEntry e y s)
  setPrivateKey : Preserves P (storeSetPrivateKey cfg e)
  free : Preserves P (freeStoreEntry e)

/-- `P` is about the entries, the table and the requests only. -/
def Local (P : State Key → Prop) : Prop :=
  ∀ {s t : State Key}, t.entries = s.entries → t.table = s.table → t.nextEntry = s.nextEntry →
    t.requests = s.requests → P s → P t

/-- In a state with `P` only the entries in `U` are held by memory objects. -/
def Links (P : State Key → Prop) (U : ℕ → Prop) : Prop :=
  ∀ {s e x mem i}, P s → s.entries e = some x → x.memObj = some mem →
    mem.imsEntry = some i ∨ mem.oldEntry = some i → U i

/-- `P` outlasts the changes of entry `e` that are not about its file, its status or its request; `E` are the faults
that may occur. -/
structure Bears [DecidableEq Key] (cfg : Config Key) (E : StoreFault → Prop) (P : State Key → Prop) (e : ℕ) : Prop where
  freed : E .freed
  assertion : E .assertion
  set : ∀ {s x y}, P s → s.entries e = some x → Recedes x y → Alike x y → P (setEntry e y s)
  releaseRequest : ∀ {s}, P s → Ends E P (storeReleaseRequest cfg e s)

/-- `P` outlasts the end of entry `e`. From the record of the release to the end of the entry it is `P (go Y)` that
holds. -/
structure Outlasts [DecidableEq Key] (cfg : Config Key) (E : StoreFault → Prop) {ι : Type} (go : ι → ι)
    (P : ι → State Key → Prop) (e : ℕ) : Prop where
  freed : E .freed
  assertion : E .assertion
  set : ∀ {Y s x y}, P Y s → s.entries e = some x → Recedes x y → P Y (setEntry e y s)
  releaseRequest : ∀ {Y s}, P Y s → Ends E (P Y) (storeReleaseRequest cfg e s)
  logDelete : ∀ {Y s}, P Y s → Ends E (P (go Y)) (logDelete e s)
  free : ∀ {Y s}, P (go Y) s → Ends E (P Y) (freeStoreEntry e s)
  dangling : ∀ {Y s}, P Y s → P Y { s with dangling := true }

/-! ## What the changes of a key do -/

/-- Entry `e` is written or freed, and no other entry comes or goes. -/
structure Replaces (e : ℕ) (z : Option (StoreEntry Key)) (s t : State Key) : Prop where
  entries : t.entries = update s.entries e z
  table : ∀ i, i ≠ e → (i ∈ t.table ↔ i ∈ s.table)
  nextEntry : t.nextEntry = s.nextEntry
  requests : t.requests = s.requests
  rebuilding : t.storeDirsRebuilding = s.storeDirsRebuilding
  dangling : t.dangling = s.dangling

lemma Replaces.trans {z' : Option (StoreEntry Key)} (h : Replaces e z s t) (h' : Replaces e z' t u) :
    Replaces e z' s u := by
  refine ⟨?_, fun i hi => (h'.table i hi).trans (h.table i hi), h'.nextEntry.trans h.nextEntry,
    h'.requests.trans h.requests, h'.rebuilding.trans h.rebuilding, h'.dangling.trans h.dangling⟩
  rw [h'.entries, h.entries, update_idem]

lemma Replaces.of_ne (h : Replaces e z s t) {i : ℕ} (hi : i ≠ e) : t.entries i = s.entries i := by
  rw [h.entries, update_of_ne hi]

lemma Replaces.self (h : Replaces e z s t) : t.entries e = z := by
  rw [h.entries, update_self]

section

-- of an entry that is there no function below finds that it is not
variable {E : StoreFault → Prop} (hE : ∀ f, f ≠ .freed → E f)

include hE

lemma storeHashDelete_ends (he : s.entries e = some x) :
    Ends E (Replaces e (some { x with key := none }) s) (storeHashDelete e s) := by
  rw [storeHashDelete, entryAt_eq he]
  apply ends_check (fun _ => hE _ (by decide))
  intro _
  exact ⟨rfl, fun i hi => List.mem_erase_of_ne hi, rfl, rfl, rfl, rfl⟩

lemma freeStoreEntry_ends (he : s.entries e = some x) : Ends E (Replaces e none s) (freeStoreEntry e s) := by
  refine (storeHashDelete_ends hE he).bind fun t ht => ?_
  apply ends_check (fun _ => hE _ (by decide))
  intro _
  exact ht.trans ⟨rfl, fun _ _ => Iff.rfl, rfl, rfl, rfl, rfl⟩

lemma dropKey_ends (he : s.entries e = some x) : Ends E (fun t => ∃ y, Replaces e (some y) s t) (dropKey e s) := by
  rw [dropKey, entryAt_eq he]
  refine ends_ite (fun _ => ends_ite (fun _ => ?_) fun _ => ?_) fun _ => ?_
  · refine (storeDirSwapLog_ends he (hE _ (by decide))).bind ?_
    intro t ⟨log, ht⟩
    have het : t.entries e = some x := by rw [ht, he]
    refine (storeHashDelete_ends hE het).mono fun u hu => ⟨{ x with key := none }, ?_⟩
    rw [ht] at hu
    exact ⟨hu.entries, hu.table, hu.nextEntry, hu.requests, hu.rebuilding, hu.dangling⟩
  · exact (storeHashDelete_ends hE he).mono fun t ht => ⟨_, ht⟩
  · exact ⟨x, by rw [← he, update_eq_self], fun _ _ => Iff.rfl, rfl, rfl, rfl, rfl⟩

def privately (key : Key) (num : ℕ) (x : StoreEntry Key) : StoreEntry Key := { x with
    key := some key
    memObj := x.memObj.map fun mem => { mem with id := num }
    flags := { x.flags with keyPrivate := true } }

lemma storeSetPrivateKey_ends [DecidableEq Key] (he : s.entries e = some x) :
    Ends E (fun t => (x.key.isSome ∧ x.flags.keyPrivate ∧ t = s) ∨
      ∃ num key, 0 < num ∧ newPrivateKey cfg x.memObj num = .ok key ∧
        Replaces e (some (privately key num x)) s t ∧ e ∈ t.table) (storeSetPrivateKey cfg e s) := by
  rw [storeSetPrivateKey, entryAt_eq he]
  refine ends_ite (fun hp => Or.inl ⟨hp.1, hp.2, rfl⟩) fun _ => ?_
  refine (dropKey_ends hE he).bind ?_
  intro t ⟨y, ht⟩
  rw [getKeyCounter, bind_assoc]
  apply ends_check (fun _ => hE _ (by decide))
  intro _
  rw [pure_eq_ok, ok_bind]
  have hkey : newPrivateKey cfg x.memObj (t.keyCounter + 1) = _ := newPrivateKey_eq _ (Nat.succ_pos _)
  rw [hkey]
  apply ends_check (fun _ => hE _ (by decide))
  intro _
  rw [storeHashInsert_eq (update_self ..)]
  refine Or.inr ⟨_, _, Nat.succ_pos _, hkey, ht.trans ⟨update_idem .., ?_, rfl, rfl, rfl, rfl⟩, ?_⟩
  · intro i hi
    simp [hi]
  · exact List.mem_cons_self

end

lemma tolerates_of_replaces [DecidableEq Key] {P : State Key → Prop}
    (hset : ∀ {s x y}, P s → s.entries e = some x → Wanes x y → P (setEntry e y s))
    (hpriv : ∀ {s t x num key}, P s → s.entries e = some x → 0 < num →
      newPrivateKey cfg x.memObj num = .ok key → Replaces e (some (privately key num x)) s t → P t)
    (hfree : ∀ {s t x}, P s → s.entries e = some x → Replaces e none s t → P t) : Tolerates cfg P e := by
  refine ⟨hset, ?_, ?_⟩
  · intro s hs
    cases he : s.entries e with
    | none =>
      rw [storeSetPrivateKey, entryAt, he]
      trivial
    | some x =>
      refine (storeSetPrivateKey_ends (fun _ _ => trivial) he).mono ?_
      rintro t (⟨-, -, ht⟩ | ⟨num, key, hpos, hkey, ht, -⟩)
      · rw [ht]
        exact hs
      · exact hpriv hs he hpos hkey ht
  · intro s hs
    cases he : s.entries e with
    | none =>
      rw [freeStoreEntry, storeHashDelete, entryAt, he]
      trivial
    | some x => exact (freeStoreEntry_ends (fun _ _ => trivial) he).mono fun t ht => hfree hs he ht

/-! ## One entry -/

section

variable [DecidableEq Key] {E : StoreFault → Prop} {P : State Key → Prop} (h : Bears cfg E P e)

include h

lemma Bears.touch (hs : P s) (he : s.entries e = some x)
    (hy : (y.key, y.flags, y.swapStatus, y.swapFilen) = (x.key, x.flags, x.swapStatus, x.swapFilen))
    (hst : y.storeStatus = x.storeStatus) (hm : y.memObj = x.memObj) : P (setEntry e y s) := by
  have hreq : requestOf y = requestOf x := by rw [requestOf, hm, requestOf]
  exact h.set hs he (.of_flags hy (hm ▸ .refl _) fun r hr => hreq.symm.trans hr) ⟨hst, hreq⟩

lemma Bears.storeExpireNow (hs : P s) : Ends E P (storeExpireNow e s) := by
  apply ends_entryAt h.freed
  intro x he
  exact h.touch hs he rfl rfl rfl

lemma Bears.storeSetMemStatus (status : MemStatus) (hs : P s) : Ends E P (storeSetMemStatus e status s) := by
  apply ends_entryAt h.freed
  intro x he
  refine ends_ite (fun _ => hs) fun _ => ?_
  apply ends_check (fun _ => h.assertion)
  intro _
  apply ends_check (fun _ => h.assertion)
  intro _
  exact h.touch hs he rfl rfl rfl

end

/-! ## The cascade

`unlock` stands for the recursive call. -/

def marked (x : StoreEntry Key) : StoreEntry Key :=
  { x with flags := { x.flags with releaseRequest := x.flags.releaseRequest || x.storeStatus == .pending } }

lemma marked_eq (hover : x.storeStatus = .pending → x.flags.releaseRequest) : marked x = x := by
  have hflag : (x.flags.releaseRequest || x.storeStatus == .pending) = x.flags.releaseRequest := by
    cases hs : x.storeStatus with
    | ok => exact Bool.or_false _
    | pending => rw [hover hs, Bool.true_or]
  rw [marked, hflag]

section

variable [DecidableEq Key] {E : StoreFault → Prop} {ι : Type} {go : ι → ι} {P : ι → State Key → Prop} {Y : ι}
  (h : Outlasts cfg E go P e)

include h

lemma Outlasts.bears (Y : ι) : Bears cfg E (P Y) e :=
  ⟨h.freed, h.assertion, fun hs he hxy _ => h.set hs he hxy, h.releaseRequest⟩

variable {U : ℕ → Prop} {unlock : ℕ → State Key → Result (State Key)} (hlinks : ∀ Y, Links (P Y) U)
  (hu : ∀ i, U i → ∀ Y s, P Y s → Ends E (P Y) (unlock i s))

include hlinks hu

lemma Outlasts.destroyMemObject (hs : P Y s) : Ends E (P Y) (destroyMemObject unlock e s) := by
  apply ends_entryAt h.freed
  intro x he
  cases hm : x.memObj with
  | none => exact h.freed
  | some mem =>
    have hlink : ∀ link t, (∀ i, link = some i → U i) → P Y t → Ends E (P Y) (unlockLink unlock link t) := by
      intro link t hU ht
      cases link with
      | none => exact ht
      | some i => exact hu i (hU i rfl) Y t ht
    apply ends_check (fun _ => h.assertion)
    intro _
    refine (hlink _ _ ?_ ?_).bind fun t => hlink _ t ?_
    · exact fun i hi => hlinks Y hs he hm (Or.inl hi)
    · exact h.set hs he (.of_flags rfl (.none _) fun r hr => by cases hr)
    · exact fun i hi => hlinks Y hs he hm (Or.inr hi)

lemma Outlasts.destroyStoreEntry (hs : P (go Y) s) : Ends E (P Y) (destroyStoreEntry unlock e s) := by
  apply ends_entryAt h.freed
  intro x he
  exact ends_ite (fun _ => (h.destroyMemObject hlinks hu hs).bind fun _ => h.free) fun _ => h.free hs

lemma Outlasts.releaseNow (hs : P Y s) : Ends E (P Y) (releaseNow unlock e s) :=
  (h.logDelete hs).bind fun _ ht => ((h.bears _).storeSetMemStatus _ ht).bind fun _ =>
    h.destroyStoreEntry hlinks hu

variable (hlate : ∀ Y s, P Y s → s.storeDirsRebuilding → Ends E (P Y) (releaseLate cfg unlock e s))

include hlate

lemma Outlasts.releaseWith (hs : P Y s) : Ends E (P Y) (releaseWith cfg unlock e s) := by
  apply ends_entryAt h.freed
  intro x he
  refine ends_ite (fun _ => ?_) fun _ =>
    ends_ite (fun hreb => hlate Y s hs hreb.1) fun _ => h.releaseNow hlinks hu hs
  exact ((h.bears Y).storeExpireNow hs).bind fun _ => h.releaseRequest

lemma Outlasts.purgeMemWith (hs : P Y s) : Ends E (P Y) (purgeMemWith cfg unlock e s) := by
  apply ends_entryAt h.freed
  intro x he
  refine ends_ite (fun _ => hs) fun _ => ?_
  refine ((h.bears Y).storeSetMemStatus _ hs).bind fun t ht =>
    (h.destroyMemObject hlinks hu ht).bind fun u hu' => ?_
  apply ends_entryAt h.freed
  intro y _
  exact ends_ite (fun _ => h.releaseWith hlinks hu hlate hu') fun _ => hu'

lemma Outlasts.unlockLast (hmark : ∀ x, s.entries e = some x → P Y (setEntry e (marked x) s)) :
    Ends E (P Y) (unlockLast cfg unlock e s) := by
  apply ends_entryAt h.freed
  intro x he
  apply ends_check (fun _ => h.assertion)
  intro _
  refine ends_ite (fun _ => h.releaseWith hlinks hu hlate (hmark x he)) fun _ => ends_ite (fun _ => ?_) fun _ => ?_
  · refine ((h.bears Y).storeSetMemStatus _ (hmark x he)).bind fun t ht => ?_
    apply ends_entryAt h.freed
    intro y hy
    refine h.set ht hy (.of_flags rfl (.map _ fun _ => ⟨rfl, fun _ => id, fun _ => id⟩) fun r hr => ?_)
    obtain ⟨mem, hmem, hreq⟩ := Option.bind_eq_some_iff.mp hr
    obtain ⟨_, -, rfl⟩ := Option.map_eq_some_iff.mp hmem
    cases hreq
  · refine (h.purgeMemWith hlinks hu hlate (hmark x he)).bind fun t ht => ?_
    unfold storeEntryDereferenced
    cases t.entries e with
    | none => exact h.dangling ht
    | some y => exact ht

omit hlinks hu hlate in
lemma Outlasts.unlockFuel_succ {fuel : ℕ} (hlinks : ∀ Y, Links (P Y) U)
    (hu : ∀ i, U i → ∀ Y s, P Y s → Ends E (P Y) (unlockFuel cfg fuel i s))
    (hlate : ∀ Y s, P Y s → s.storeDirsRebuilding → Ends E (P Y) (releaseLate cfg (unlockFuel cfg fuel) e s))
    (hmark : ∀ s x, P Y s → s.entries e = some x → P Y (setEntry e (marked x) s)) (hs : P Y s) :
    Ends E (P Y) (unlockFuel cfg (fuel + 1) e s) := by
  apply ends_entryAt h.freed
  intro x he
  have hset := (h.bears Y).touch (y := { x with lockCount := x.lockCount - 1 }) hs he rfl rfl rfl
  exact ends_ite (fun _ => hset) fun _ => h.unlockLast hlinks hu hlate fun y => hmark _ y hset

end

/-! ## Properties of the entries, the table and the requests -/

section

variable {P : State Key → Prop}

lemma Local.logDelete (hP : Local P) : Preserves P (logDelete e) := by
  intro s hs
  apply ends_entryAt trivial
  intro x he
  refine ends_ite (fun _ => (storeDirSwapLog_ends he trivial).mono ?_) fun _ => hs
  rintro t ⟨log, rfl⟩
  exact hP (s := s) rfl rfl rfl rfl hs

variable [DecidableEq Key] (h : Tolerates cfg P e)

include h

lemma Tolerates.storeReleaseRequest : Preserves P (storeReleaseRequest cfg e) := by
  intro s hs
  apply ends_entryAt trivial
  intro x he
  refine ends_ite (fun _ => hs) fun _ => h.setPrivateKey _ (h.set hs he ?_)
  exact ⟨rfl, rfl, fun _ => rfl, fun hc => absurd hc Bool.false_ne_true, .refl _⟩

lemma Tolerates.bears : Bears cfg (fun _ => True) P e :=
  ⟨trivial, trivial, fun hs he hxy _ => h.set hs he hxy.toWanes, h.storeReleaseRequest _⟩

variable (hP : Local P)

include hP

lemma Tolerates.outlasts : Outlasts cfg (fun _ => True) id (fun _ : Unit => P) e :=
  ⟨trivial, trivial, fun hs he hxy => h.set hs he hxy.toWanes, h.storeReleaseRequest _, hP.logDelete _, h.free _,
    fun {_ s} hs => hP (s := s) rfl rfl rfl rfl hs⟩

variable {U : ℕ → Prop} {unlock : ℕ → State Key → Result (State Key)} (hlinks : Links P U)
  (hu : ∀ i, U i → Preserves P (unlock i))

include hlinks hu

lemma Tolerates.releaseLate : Preserves P (releaseLate cfg unlock e) := by
  have hout := h.outlasts hP
  have hpush : Preserves P (pushLateRelease unlock e) := by
    intro s hs
    apply ends_entryAt trivial
    intro x he
    refine ends_ite (fun _ => ?_) fun _ => (hout.destroyStoreEntry (fun _ => hlinks) (fun i hi _ => hu i hi) (Y := ()) hs).bind
      fun t => hout.releaseNow (fun _ => hlinks) (fun i hi _ => hu i hi) (Y := ())
    refine hP (s := setEntry e _ s) rfl rfl rfl rfl (h.set hs he ?_)
    exact ⟨rfl, rfl, fun _ => rfl, id, .refl _⟩
  intro s hs
  refine (h.setPrivateKey s hs).bind fun t ht => ?_
  apply ends_entryAt trivial
  intro x he
  refine ends_ite (fun _ => ?_) fun _ => hpush t ht
  exact (h.bears.storeSetMemStatus _ ht).bind fun u hu' =>
    (hout.destroyMemObject (fun _ => hlinks) (fun i hi _ => hu i hi) (Y := ()) hu').bind hpush

lemma Tolerates.releaseWith : Preserves P (releaseWith cfg unlock e) := fun _ hs =>
  (h.outlasts hP).releaseWith (fun _ => hlinks) (fun i hi _ => hu i hi) (fun _ s hs _ => h.releaseLate hP hlinks hu s hs)
    (Y := ()) hs

omit hu in
lemma Tolerates.unlockFuel_succ {fuel : ℕ} (hu : ∀ i, U i → Preserves P (unlockFuel cfg fuel i)) :
    Preserves P (unlockFuel cfg (fuel + 1) e) := fun _ hs =>
  (h.outlasts hP).unlockFuel_succ (fun _ => hlinks) (fun i hi _ => hu i hi)
    (fun _ s hs _ => h.releaseLate hP hlinks hu s hs)
    (fun _ _ hs he => h.set hs he ⟨rfl, rfl, fun hr => by simp [marked, hr], id, .refl _⟩) (Y := ()) hs

end

/-- The last unlock of an entry whose transfer is over, or which is released already, does not set
the flag. -/
theorem unlockLast_over [DecidableEq Key] {unlock : ℕ → State Key → Result (State Key)}
    (he : s.entries e = some x) (hover : x.storeStatus = .pending → x.flags.releaseRequest) :
    unlockLast cfg unlock e s = (check (storePendingNClients x = 0) .assertion >>= fun _ =>
      if x.flags.releaseRequest then releaseWith cfg unlock e s else if storeKeepInMemory x then
        storeSetMemStatus e .inMemory s >>= modifyMem e ({ · with request := none })
      else purgeMemWith cfg unlock e s >>= fun s => .ok (storeEntryDereferenced e s)) := by
  have hflag : (x.flags.releaseRequest || x.storeStatus == .pending) = x.flags.releaseRequest :=
    congrArg (·.flags.releaseRequest) (marked_eq hover)
  have hsame : setEntry e { x with flags :=
      { x.flags with releaseRequest := x.flags.releaseRequest || x.storeStatus == .pending } } s = s := by
    rw [hflag, setEntry, ← he, update_eq_self]
  rw [unlockLast, entryAt_eq he, ok_bind]
  simp only [hsame]
  rw [hflag]
  rfl

/-! ## Private entries stay private -/

/-- An entry that may have lost its public key, but has not got one back. -/
structure Weaker (x x' : StoreEntry Key) : Prop where
  keyPrivate : x.flags.keyPrivate → x'.flags.keyPrivate
  releaseRequest : x.flags.releaseRequest → x'.flags.releaseRequest
  entryCachable : x'.flags.entryCachable → x.flags.entryCachable

lemma Weaker.of_flags (h : x'.flags = x.flags) : Weaker x x' := by
  refine ⟨?_, ?_, ?_⟩
  · rw [h]
    exact id
  · rw [h]
    exact id
  · rw [h]
    exact id

structure Fades (s t : State Key) : Prop where
  entries : ∀ i x', t.entries i = some x' → ∃ x, s.entries i = some x ∧ Weaker x x'
  nextEntry : t.nextEntry = s.nextEntry
  requests : t.requests = s.requests

namespace Fades

lemma refl (s : State Key) : Fades s s := ⟨fun _ x' hx => ⟨x', hx, .of_flags rfl⟩, rfl, rfl⟩

lemma trans (h : Fades s t) (h' : Fades t u) : Fades s u := by
  refine ⟨?_, h'.nextEntry.trans h.nextEntry, h'.requests.trans h.requests⟩
  intro i z hz
  obtain ⟨y, hy, hyz⟩ := h'.entries i z hz
  obtain ⟨x, hx, hxy⟩ := h.entries i y hy
  exact ⟨x, hx, fun hp => hyz.1 (hxy.1 hp), fun hr => hyz.2 (hxy.2 hr), fun hc => hxy.3 (hyz.3 hc)⟩

lemma replaces {z : Option (StoreEntry Key)} (he : s.entries e = some x) (hst : Replaces e z s t)
    (hw : ∀ y, z = some y → Weaker x y) : Fades s t := by
  refine ⟨?_, hst.nextEntry, hst.requests⟩
  intro i y hy
  by_cases hi : i = e
  · rw [hi, hst.self] at hy
    exact ⟨x, by rw [hi, he], hw y hy⟩
  · rw [hst.of_ne hi] at hy
    exact ⟨y, hy, .of_flags rfl⟩

end Fades

lemma Wanes.weaker (h : Wanes x y) : Weaker x y :=
  ⟨fun hp => by rw [h.keyPrivate, hp], h.releaseRequest, h.entryCachable⟩

variable [DecidableEq Key]

lemma tolerates_fades (s₀ : State Key) (e : ℕ) : Tolerates cfg (Fades s₀) e := by
  refine tolerates_of_replaces ?_ ?_ ?_
  · intro s x y hs he hxy
    refine hs.trans (Fades.replaces he ⟨rfl, fun _ _ => Iff.rfl, rfl, rfl, rfl, rfl⟩ fun z hz => ?_)
    cases hz
    exact hxy.weaker
  · intro s t x num key hs he _ _ hst
    refine hs.trans (Fades.replaces he hst fun y hy => ?_)
    cases hy
    exact ⟨fun _ => rfl, id, id⟩
  · intro s t x hs he hst
    exact hs.trans (Fades.replaces he hst fun y hy => by cases hy)

omit [DecidableEq Key] in
lemma local_fades (s₀ : State Key) : Local (Fades s₀) := by
  intro s t hent _ hnext hreq hs
  refine ⟨?_, hnext.trans hs.nextEntry, hreq.trans hs.requests⟩
  rw [hent]
  exact hs.entries

lemma fades_storeReleaseRequest (s : State Key) : Ends (fun _ => True) (Fades s) (storeReleaseRequest cfg e s) :=
  (tolerates_fades s e).storeReleaseRequest s (Fades.refl s)

-- the fuel bounds the depth of the cascade, so the induction is on it
lemma preserves_fades_unlockFuel (s₀ : State Key) (fuel e : ℕ) : Preserves (Fades s₀) (unlockFuel cfg fuel e) := by
  induction fuel generalizing e with
  | zero => exact fun _ _ => trivial
  | succ fuel ih =>
    exact (tolerates_fades s₀ e).unlockFuel_succ (local_fades s₀)
      (fun _ _ _ _ => trivial) fun i _ => ih i

lemma fades_storeRelease (s : State Key) : Ends (fun _ => True) (Fades s) (storeRelease cfg e s) :=
  (tolerates_fades s e).releaseWith (local_fades s) (fun _ _ _ _ => trivial)
    (fun i _ => preserves_fades_unlockFuel s _ i) s (Fades.refl s)

/-! ## storeReleaseRequest under the invariant -/

def releasedEntry (x : StoreEntry Key) : StoreEntry Key :=
  { x with flags := { x.flags with releaseRequest := true, entryCachable := false } }

section

omit [DecidableEq Key]

lemma Typed.releasedEntry {bound : ℕ} (h : Typed cfg bound x) : Typed cfg bound (releasedEntry x) :=
  ⟨h.isPrivate, h.isPublic, h.method⟩

lemma privateState_setEntry (y : StoreEntry Key) :
    privateState cfg e x (setEntry e y s) = privateState cfg e x s := by
  simp [privateState, rekeyed, setEntry]

end

/-- An entry that is private already only gets the flag. -/
theorem storeReleaseRequest_of_private (he : s.entries e = some x) (hr : ¬ x.flags.releaseRequest)
    (hp : x.key.isSome ∧ x.flags.keyPrivate) : storeReleaseRequest cfg e s = .ok (setEntry e (releasedEntry x) s) := by
  have hself : (setEntry e (releasedEntry x) s).entries e = some (releasedEntry x) := setEntry_self
  rw [storeReleaseRequest, entryAt_eq he, ok_bind, if_neg hr]
  exact storeSetPrivateKey_of_private hself hp

lemma Inv.storeReleaseRequest_eq (h : Inv cfg s) (hmd5 : Injective cfg.md5)
    (he : s.entries e = some x) (hr : ¬ x.flags.releaseRequest) : storeReleaseRequest cfg e s =
      if x.key.isSome ∧ x.flags.keyPrivate then .ok (Store.setEntry e (releasedEntry x) s)
      else if s.keyCounter + 1 < 2 ^ 31 then .ok (Store.privateState cfg e (releasedEntry x) s)
      else .error .overflow := by
  have hinv := h.setEntry he (h.typed e x he).releasedEntry rfl
  have hself : (Store.setEntry e (releasedEntry x) s).entries e = some (releasedEntry x) := setEntry_self
  by_cases hp : x.key.isSome ∧ x.flags.keyPrivate
  · rw [storeReleaseRequest_of_private he hr hp, if_pos hp]
  rw [storeReleaseRequest, entryAt_eq he, ok_bind, if_neg hr]
  show storeSetPrivateKey cfg e (Store.setEntry e (releasedEntry x) s) = _
  split_ifs with hcou
  · rw [hinv.storeSetPrivateKey_eq hmd5 hself hp, setEntry_keyCounter, if_pos hcou, privateState_setEntry]
  · rw [hinv.storeSetPrivateKey_eq hmd5 hself hp, setEntry_keyCounter, if_neg hcou]

end SquidVideoCache.Store
