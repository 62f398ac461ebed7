import SquidVideoCache.Client.Model
import SquidVideoCache.Store.Replace

/-!
# The client side and a watched entry

A client that leaves an entry, and a revalidation that lets go of the entries it held, use only
entries that may be used.
-/

namespace SquidVideoCache.Client
open Lib StoreKey Store Function

variable {Key : Type} [DecidableEq Key] {cfg : Config Key} {opts : Options Key} {s t : State Key} {e : ℕ}
  {x y : StoreEntry Key} {w : Watch Key} {A : StoreEntry Key → Prop} {k key : Key}

section

variable (hmd5 : Injective cfg.md5)

include hmd5

/-! ## A client leaves -/

omit hmd5 in
lemma guard_storeSwapOutMaintainMemObject (hswap : SwapsFreely cfg) :
    Preserves (Guard cfg w A) (storeSwapOutMaintainMemObject cfg e) := by
  intro s h
  apply ends_entryAt trivial
  intro x he
  refine ends_ite (fun _ => h) fun _ => ?_
  have hstop := (hswap s e).1
  cases hdo : cfg.swapOut s e with
  | stop => exact absurd hdo hstop
  | keep => exact h
  | close => exact h
  | start file => exact h

lemma guard_setAborted (hne : e ≠ w.entry) : Preserves (Guard cfg w A) (setAborted e) := by
  intro s h
  apply ends_entryAt trivial
  intro x he
  have hflag := h.set (y := { x with flags := { x.flags with entryAborted := true } }) hne he rfl
    (h.memObj e x · he)
  refine ((Guard.tolerates hmd5 hne).bears.storeSetMemStatus _ hflag).bind fun t ht => ?_
  apply ends_entryAt trivial
  intro y hy
  exact ht.set hne hy rfl (ht.sane hy fun _ => id)

lemma guard_storeAbort (hs : Spared w A e) : Preserves (Guard cfg w A) (storeAbort cfg e) := by
  intro s h
  apply ends_entryAt trivial
  intro x he
  apply ends_check (fun _ => trivial)
  intro hpend
  by_cases heq : e = w.entry
  · obtain ⟨k, rfl⟩ := hs.present heq
    obtain ⟨y, hy, hp⟩ := h.entry
    cases (heq ▸ hy).symm.trans he
    cases hp.storeStatus.symm.trans hpend.1
  · have htol : Tolerates cfg (Guard cfg w A) e := Guard.tolerates hmd5 heq
    refine (Guard.storeLockObject hs s h).bind fun t ht => (htol.bears.storeExpireNow ht).bind fun u hu => ?_
    refine (htol.storeReleaseRequest u hu).bind fun v hv => (guard_setAborted hmd5 heq v hv).bind ?_
    exact Guard.storeUnlockObject hmd5 hs

lemma guard_checkQuickAbort (hs : Spared w A e) : Preserves (Guard cfg w A) (checkQuickAbort cfg opts e) := by
  intro s h
  apply ends_entryAt trivial
  intro x he
  exact ends_ite (fun _ => h) fun _ => guard_storeAbort hmd5 hs s h

section

variable (hswap : SwapsFreely cfg) (hs : Spared w A e)

include hswap hs

lemma guard_leaveEntry : Preserves (Guard cfg w A) (leaveEntry cfg opts e) := by
  intro s h
  refine (guard_storeSwapOutMaintainMemObject hswap s h).bind fun t ht => ?_
  exact (guard_checkQuickAbort hmd5 hs t ht).bind (Guard.storeUnlockObject hmd5 hs)

lemma guard_storeClientUnregister : Preserves (Guard cfg w A) (storeClientUnregister cfg opts e) := by
  intro s h
  apply ends_entryAt trivial
  intro x he
  cases hm : x.memObj with
  | none => trivial
  | some mem =>
    have hset : Guard cfg w A
        (setEntry e { x with memObj := some { mem with nclients := mem.nclients - 1 } } s) := by
      refine h.write hs he rfl rfl rfl rfl ?_ fun mem' hmem' => ?_
      · exact storeKeepInMemory_map (f := fun mem => { mem with nclients := mem.nclients - 1 })
          (by rw [hm]; rfl) fun _ => ⟨rfl, rfl⟩
      · cases hmem'
        exact h.memObj e x mem he hm
    refine ends_ite (fun _ => h) fun _ => ends_ite (fun _ => ?_) fun _ => ?_
    · exact (Guard.storeSwapOut hmd5 hswap hs _ hset).bind (guard_leaveEntry hmd5 hswap hs)
    · exact guard_leaveEntry hmd5 hswap hs _ hset

lemma guard_releaseClient : Preserves (Guard cfg w A) (releaseClient cfg opts e) := by
  intro s h
  exact (guard_storeClientUnregister hmd5 hswap hs s h).bind (Guard.storeUnlockObject hmd5 hs)

end

/-! ## The entries a revalidation holds -/

lemma guard_dropLink (hs : Spared w A e) {link : MemObject → Option ℕ} {f : MemObject → MemObject}
    (hlink : ∀ mem i, link mem = some i → mem.imsEntry = some i ∨ mem.oldEntry = some i)
    (hf : ∀ n mem, MemSane w e n mem → MemSane w e n (f mem))
    (hkeep : ∀ mem, (f mem).hasData = mem.hasData ∧ (f mem).inmemLo = mem.inmemLo) :
    Preserves (Guard cfg w A) (fun s => entryAt e s >>= fun entry => match entry.memObj.bind link with
      | none => .ok s
      | some i => storeUnlockObject cfg i s >>= modifyMem e f) := by
  intro s h
  apply ends_entryAt trivial
  intro x he
  cases hi : x.memObj.bind link with
  | none => exact h
  | some i =>
    obtain ⟨mem, hmem, hmi⟩ := Option.bind_eq_some_iff.mp hi
    have hlin : Spared w A i := hs.linked ((h.memObj e x mem he hmem).2.1 i (hlink mem i hmi)).2
    exact (Guard.storeUnlockObject hmd5 hlin s h).bind fun t ht =>
      ht.modifyMem hs (hf _) fun _ => hkeep

lemma guard_dropImsEntry (hs : Spared w A e) : Preserves (Guard cfg w A) (dropImsEntry cfg e) := by
  refine guard_dropLink hmd5 hs (fun _ _ => Or.inl) (fun n mem hmem => ⟨hmem.1, ?_, hmem.2.2⟩) fun _ => ⟨rfl, rfl⟩
  rintro i (hi | hi)
  · cases hi
  · exact hmem.2.1 i (Or.inr hi)

lemma guard_dropOldEntry (hs : Spared w A e) : Preserves (Guard cfg w A) (dropOldEntry cfg e) := by
  refine guard_dropLink hmd5 hs (fun _ _ => Or.inr) (fun n mem hmem => ⟨hmem.1, ?_, hmem.2.2⟩) fun _ => ⟨rfl, rfl⟩
  rintro i (hi | hi)
  · exact hmem.2.1 i (Or.inl hi)
  · cases hi

end

/-! ## The new entry of a revalidation -/

section

omit [DecidableEq Key]

lemma modifyMem_nextEntry (f : MemObject → MemObject) :
    Ends (fun _ => True) (fun t => t.nextEntry = s.nextEntry) (modifyMem e f s) := by
  apply ends_entryAt trivial
  intro x _
  rfl

lemma storeLockObject_nextEntry :
    Ends (fun _ => True) (fun t => t.nextEntry = s.nextEntry) (storeLockObject e s) := by
  apply ends_entryAt trivial
  intro x _
  rfl

lemma storeTimestampsSet_nextEntry :
    Ends (fun _ => True) (fun t => t.nextEntry = s.nextEntry) (storeTimestampsSet e s) := by
  apply ends_entryAt trivial
  intro x _
  cases x.memObj with
  | none => trivial
  | some mem => rfl

end

section

variable (hmd5 : Injective cfg.md5) {http : ClientHttpRequest} (hlinks : ∀ i, w.links i)

include hmd5 hlinks

/-- The new entry starts with a private key, and the watched one holds it at most. -/
theorem guard_createRevalidation (h : Guard cfg w (Present k .ok) s) (hreq : http.request = w.request)
    (hmet : w.value.method.toNat < 256) (hnone : NoKeyword cfg http.uri)
    (hpriv : cfg.neighborsDoPrivateKeys ∨ ¬ http.flags.hierarchical) :
    Ends (fun _ => True) (fun r => Guard cfg w (Present k .ok) r.2 ∧ r.1 ≠ w.entry)
      (createRevalidation cfg opts http s) := by
  have hs : ∀ i, Spared w (Present k .ok) i := fun _ => Or.inl ⟨k, rfl⟩
  refine (guard_dropImsEntry hmd5 (hs _) s h).bind fun t ht => ?_
  rw [hreq, ht.request]
  refine (storeCreateEntry_ends hnone hpriv).bind ?_
  intro ⟨e, u⟩ ⟨he, num, key, now, hpos, hkey, hadds⟩
  have he : e = t.nextEntry := he
  have hne : e ≠ w.entry := by
    obtain ⟨x, hx, -⟩ := ht.entry
    rw [he]
    exact (ht.lt_nextEntry hx).ne'
  have hu := ht.adds hadds (unseen_createdEntry hmd5 hmet hpos hkey)
  have hnext : u.nextEntry = e + 1 := by rw [hadds.nextEntry, he]
  refine Ends.bind (Q := fun v => Guard cfg w (Present k .ok) v ∧ v.nextEntry = e + 1) ?_ ?_
  · refine ((hu.modifyMem (hs e) (f := fun mem => { mem with storeUrl := w.value.storeUrl.or _ })
      (fun _ => id) fun _ _ => ⟨rfl, rfl⟩).and (modifyMem_nextEntry _)).mono ?_
    exact fun v hv => ⟨hv.1, hv.2.trans hnext⟩
  intro v ⟨hv, hvne⟩
  refine Ends.bind (Q := fun v => Guard cfg w (Present k .ok) v ∧ v.nextEntry = e + 1) ?_ ?_
  · refine ((hv.modifyMem (hs _) (f := ({ · with refreshTimestamp := v.curtime })) (fun _ => id)
      fun _ _ => ⟨rfl, rfl⟩).and (modifyMem_nextEntry _)).mono ?_
    exact fun v' hv' => ⟨hv'.1, hv'.2.trans hvne⟩
  intro v' ⟨hv', hvne'⟩
  apply ends_entryAt trivial
  intro y _
  refine ends_ite (fun _ => ?_) fun _ => ⟨hv', hne⟩
  refine Ends.bind (hv'.modifyMem (hs _) ?_
    fun _ _ => ⟨rfl, rfl⟩) fun z hz => ?_
  · intro mem hmem
    refine ⟨hmem.1, ?_, hmem.2.2⟩
    rintro i (hi | hi)
    · cases hi
      exact ⟨by omega, hlinks _⟩
    · exact hmem.2.1 i (Or.inr hi)
  · exact (Guard.storeLockObject (hs e) z hz).bind fun z' hz' => ⟨hz', hne⟩

lemma guard_linkRevalidation (h : Guard cfg w (Present k .ok) s) :
    Ends (fun _ => True) (Guard cfg w (Present k .ok)) (linkRevalidation cfg w.entry e s) := by
  have hs : ∀ i, Spared w (Present k .ok) i := fun _ => Or.inl ⟨k, rfl⟩
  refine (guard_dropOldEntry hmd5 (hs e) s h).bind fun t ht => ?_
  refine (ht.modifyMem (hs e) (f := ({ · with oldEntry := some _ })) ?_ fun _ _ => ⟨rfl, rfl⟩).bind
    fun u hu => (Guard.storeLockObject (hs _) u hu).bind (Guard.storeClientRegister (hs e))
  intro mem hmem
  refine ⟨hmem.1, ?_, hmem.2.2⟩
  rintro i (hi | hi)
  · exact hmem.2.1 i (Or.inl hi)
  · obtain ⟨x, hx, -⟩ := ht.entry
    cases hi
    exact ⟨ht.lt_nextEntry hx, hlinks _⟩

omit [DecidableEq Key] hmd5 hlinks in
lemma guard_fwdStart (r : ℕ) (hs : Spared w A e) : Preserves (Guard cfg w A) (fwdStart e r) := by
  intro s h
  exact (h.modifyMem hs (f := fun mem => { mem with request := mem.request.or (some r) }) (fun _ => id)
    fun _ _ => ⟨rfl, rfl⟩).bind (Guard.storeLockObject hs)

/-- The stale entry stays in the store while it is revalidated. -/
theorem guard_clientProcessExpired (h : Guard cfg w (Present k .ok) s) (hentr : http.entry = w.entry)
    (hreq : http.request = w.request) (hmet : w.value.method.toNat < 256) (honly : ¬ http.onlyIfCached)
    (hcol : collapsedEntry http.entry s = none) (hnone : NoKeyword cfg http.uri)
    (hpriv : cfg.neighborsDoPrivateKeys ∨ ¬ http.flags.hierarchical) :
    Ends (fun _ => True) (fun r => Guard cfg w (Present k .ok) r.2 ∧ r.1.entry ≠ w.entry ∧
      r.1.oldEntry = some w.entry ∧ r.1.request = http.request) (clientProcessExpired cfg opts http s) := by
  apply ends_entryAt trivial
  intro x hx
  cases x.memObj with
  | none => trivial
  | some mem =>
    refine ends_ite (fun hc => absurd hc honly) fun _ => ?_
    dsimp only
    rw [hcol]
    refine (guard_createRevalidation hmd5 hlinks h hreq hmet hnone hpriv).bind ?_
    intro ⟨e, t⟩ ⟨ht, hne⟩
    rw [hentr]
    refine (guard_linkRevalidation hmd5 hlinks ht).bind fun u hu => ?_
    refine (guard_fwdStart _ (Or.inl ⟨k, rfl⟩) u hu).bind fun v hv => ⟨hv, hne, rfl, rfl⟩

end

/-! ## The copy -/

/-- The old entry `old`, whose key is `k`. No other entry has its key or the key of the request. -/
def oldWatch (cfg : Config Key) (old r : ℕ) (request : Request) (k key : Key) : Watch Key where
  entry := old
  object := fun url reply => NoKeyword cfg url ∧ reply.vary = none
  holders := fun κ i => κ = k ∨ κ = key → i = old
  links := fun _ => True
  request := r
  value := request

/-- The copy, under the key of the request. No memory object holds it. -/
def copyWatch (new r : ℕ) (request : Request) (key : Key) : Watch Key where
  entry := new
  object := fun _ _ => True
  holders := fun κ i => κ = key → i = new
  links := (· ≠ new)
  request := r
  value := request

/-- Either nothing is copied, or the copy is watched from now on; it is not among the first `n` entries. -/
def CopyOf (cfg : Config Key) (old r : ℕ) (request : Request) (k key : Key) (n : ℕ)
    (update : Option StoreUpdateState) (s : State Key) : Prop :=
  match update with
  | none => Guard cfg (oldWatch cfg old r request k key) (Present k .ok) s
  | some state => state.oldentry = old ∧ n ≤ state.newentry ∧
    Guard cfg (copyWatch state.newentry r request key) (Present key .pending) s

/-- Without a Vary header there is no mark, and a merge makes none up. -/
structure VaryLaws (cfg : Config Key) (opts : Options Key) : Prop where
  mark : ∀ request reply, reply.vary = none →
    cfg.makeVaryMark request reply = { request with varyHeaders := none }
  merge : ∀ old new, old.vary = none → new.vary = none → (opts.updateOnNotModified old new).vary = none

section

variable (hmd5 : Injective cfg.md5) (hswap : SwapsFreely cfg) (hlaws : VaryLaws cfg opts)
  {old r : ℕ} {request : Request} (hnovary : request.varyHeaders = none)

include hlaws hnovary

omit [DecidableEq Key] in
lemma guard_copyHeaders (hold : Guard cfg (oldWatch cfg old r request k key) (Present k .ok) s)
    (hnew : Guard cfg w (· = x) s) (hne : old ≠ w.entry) (hreq : w.request = r) (hval : w.value = request)
    (hobj : ∀ url reply, w.object url reply) {mem : MemObject} (hmem : x.memObj = some mem) :
    Ends (fun _ => True) (fun t => Guard cfg (oldWatch cfg old r request k key) (Present k .ok) t ∧
      ∃ y mem', Guard cfg w (· = y) t ∧ y.flags = x.flags ∧ y.storeStatus = x.storeStatus ∧
        y.memObj = some mem' ∧ mem'.request = some r ∧ mem'.varyHeaders = none ∧ mem'.hasData = true ∧
        mem'.inmemLo = mem.inmemLo) (copyHeaders cfg opts old w.entry r s) := by
  obtain ⟨z, hz, rfl⟩ := hnew.entry
  apply ends_entryAt trivial
  intro o ho
  cases hom : o.memObj with
  | none => trivial
  | some omem =>
    have hvary : omem.reply.vary = none := ((hold.memObj old o omem ho hom).2.2 rfl).2
    have hmark : cfg.makeVaryMark (s.requests r) omem.reply = request := by
      have hr : s.requests r = request := hold.request
      rw [hlaws.mark _ _ hvary, hr, ← hnovary]
    dsimp only
    rw [hmark, entryAt_eq hz, ok_bind, hmem]
    have hsane : MemSane w w.entry s.nextEntry mem := hnew.memObj _ z mem hz hmem
    have hold' : ∀ y : StoreEntry Key, y.key = z.key →
        (∀ mem', y.memObj = some mem' → MemSane w w.entry s.nextEntry mem') →
        Guard cfg (oldWatch cfg old r request k key) (Present k .ok) (setRequest r request (setEntry w.entry y s)) := by
      intro y hk hy
      refine Guard.setRequest (w := oldWatch cfg old r request k key) (hold.set hne.symm hz hk ?_)
      intro mem' hmem'
      have hsane' := hy mem' hmem'
      exact ⟨hsane'.1, fun i hi => ⟨(hsane'.2.1 i hi).1, trivial⟩, fun he => absurd he hne.symm⟩
    have hnew' : ∀ y : StoreEntry Key, y.key = z.key →
        (∀ mem', y.memObj = some mem' → MemSane w w.entry s.nextEntry mem') →
        Guard cfg w (· = y) (setRequest r request (setEntry w.entry y s)) := by
      intro y hk hy
      rw [← hreq, ← hval]
      exact (hnew.setSelf (B := (· = y)) hz hk hy rfl).setRequest
    refine ⟨hold' _ rfl ?_, _, _, hnew' _ rfl ?_, rfl, rfl, rfl, rfl, hnovary, rfl, rfl⟩
    · intro mem' hmem'
      cases hmem'
      exact ⟨hsane.1, hsane.2.1, fun _ => hobj _ _⟩
    · intro mem' hmem'
      cases hmem'
      exact ⟨hsane.1, hsane.2.1, fun _ => hobj _ _⟩

include hmd5 hswap

section

variable (h : Guard cfg (oldWatch cfg old r request k key) (Present k .ok) s)
  (hkey : storeKeyPublicByRequest cfg.md5 cfg.acsmCap request = .ok key)

include h hkey

lemma guard_storeUpdate : Ends (fun _ => True) (fun p => CopyOf cfg old r request k key s.nextEntry p.1 p.2)
      (storeUpdate cfg opts old r s) := by
  have hs : ∀ i, Spared (oldWatch cfg old r request k key) (Present k .ok) i := fun _ => Or.inl ⟨k, rfl⟩
  apply ends_entryAt trivial
  intro x hx
  refine ends_ite (fun _ => h) fun _ => ?_
  cases hm : x.memObj with
  | none => trivial
  | some mem =>
    have hsane := h.memObj old x mem hx hm
    -- the lock and the time stamp of the old entry
    refine Ends.bind (Q := fun t => Guard cfg (oldWatch cfg old r request k key) (Present k .ok) t ∧
      t.nextEntry = s.nextEntry) ?_ ?_
    · exact (h.modifyMem (hs old) (f := ({ · with refreshTimestamp := 0 })) (fun _ => id)
        fun _ _ => ⟨rfl, rfl⟩).and (modifyMem_nextEntry _)
    intro t ⟨ht, htne⟩
    refine Ends.bind (Q := fun t => Guard cfg (oldWatch cfg old r request k key) (Present k .ok) t ∧
      t.nextEntry = s.nextEntry) ?_ ?_
    · exact ((Guard.storeLockObject (hs old) t ht).and storeLockObject_nextEntry).mono
        fun u hu => ⟨hu.1, hu.2.trans htne⟩
    intro t ⟨ht, htne⟩
    -- the copy is new, so it can be watched besides the old entry
    refine (storeCreateEntry_ends (hsane.2.2 rfl).1 (Or.inr Bool.false_ne_true)).bind ?_
    intro ⟨new, u⟩ ⟨hnew, num, newkey, now, hpos, hnewk, hadds⟩
    obtain rfl : new = t.nextEntry := hnew
    have huns : Unseen cfg (createdEntry { cachable := true } mem.url mem.method newkey num now) :=
      unseen_createdEntry hmd5 hsane.1 hpos hnewk
    have hne : old ≠ t.nextEntry := by
      obtain ⟨y, hy, -⟩ := ht.entry
      exact (ht.lt_nextEntry hy).ne
    have hold := ht.adds hadds huns
    have hcopy := ht.watchNew hadds huns
    refine ((Guard.storeClientRegister (hs old) u hold).and
      (Guard.storeClientRegister (by exact Or.inr ⟨fun hself => hself rfl, hne⟩) u hcopy)).bind ?_
    intro v ⟨hold, hcopy⟩
    refine (guard_copyHeaders hlaws hnovary hold hcopy hne rfl rfl (fun _ _ => trivial)
      createdEntry_memObj).bind ?_
    intro v' ⟨hold, y, mem', hcopy, hfla, hstat, hmem', hreq, hvary, hdata, hlo⟩
    have hpriv : y.flags.keyPrivate := by rw [hfla]; rfl
    refine (Guard.storeSetPublicKey hmd5 hold hcopy hne rfl rfl (fun hself => hself rfl)
      (fun i hi => hi (Or.inr rfl)) hnovary hkey hpriv hmem' hreq hvary).bind fun z hz => ?_
    have hpre : Guard cfg (copyWatch t.nextEntry r request key) (Present key .pending) z := by
      refine Guard.mono hz fun x' hx' => ?_
      rw [hx']
      refine ⟨rfl, Bool.false_ne_true, ?_, hstat, Or.inr ⟨?_, ?_, ?_⟩⟩
      · show ¬ y.flags.releaseRequest
        rw [hfla]
        exact Bool.false_ne_true
      · show storeKeepInMemory y
        rw [storeKeepInMemory, hmem']
        simp [hdata, hlo]
      · show y.flags.entryCachable
        rw [hfla]
        rfl
      · show ¬ y.flags.entryBadLength
        rw [hfla]
        exact Bool.false_ne_true
    refine (Guard.storeSwapOut_self hswap z hpre).bind fun z' hz' => ?_
    exact ⟨rfl, htne.ge, hz'⟩

/-! ## The reply -/

lemma guard_applyNotModified {reply : Reply}
    (hvary : reply.vary = none) : Ends (fun _ => True) (fun p => CopyOf cfg old r request k key s.nextEntry p.1 p.2)
      (applyNotModified cfg opts old r reply s) := by
  have hs : Spared (oldWatch cfg old r request k key) (Present k .ok) old := Or.inl ⟨k, rfl⟩
  refine Ends.bind ((h.modifyMem hs (f := fun mem => { mem with
    reply := opts.updateOnNotModified _ reply }) ?_ fun _ _ => ⟨rfl, rfl⟩).and (modifyMem_nextEntry _)) ?_
  · intro mem hmem
    refine ⟨hmem.1, hmem.2.1, fun he => ?_⟩
    obtain ⟨hurl, hold⟩ := hmem.2.2 he
    exact ⟨hurl, hlaws.merge _ _ hold hvary⟩
  · intro t ⟨ht, htne⟩
    refine ((Guard.storeTimestampsSet hs t ht).and storeTimestampsSet_nextEntry).bind ?_
    intro u ⟨hu, hune⟩
    rw [← htne, ← hune]
    exact guard_storeUpdate hmd5 hswap hlaws hnovary hu hkey

lemma guard_applyReply {reply : Reply} (hvary : reply.vary = none) (validated : Bool) :
    Ends (fun _ => True) (fun p => CopyOf cfg old r request k key s.nextEntry p.1 p.2)
      (applyReply cfg opts validated old r reply s) :=
  ends_ite (fun _ => guard_applyNotModified hmd5 hswap hlaws hnovary h hkey hvary) fun _ => h

end

omit [DecidableEq Key] hmd5 hswap hlaws hnovary in
lemma CopyOf.preserves {n : ℕ} {update : Option StoreUpdateState}
    (h : CopyOf cfg old r request k key n update s) (he : e < n) {f : State Key → Result (State Key)}
    (hf : ∀ w A, Spared w A e → Preserves (Guard cfg w A) f) :
    Ends (fun _ => True) (CopyOf cfg old r request k key n update) (f s) := by
  cases update with
  | none => exact hf _ _ (Or.inl ⟨k, rfl⟩) s h
  | some state =>
    obtain ⟨hold, hnew, hgua⟩ := h
    have hne : e ≠ state.newentry := by omega
    exact (hf (copyWatch state.newentry r request key) _ (Or.inr ⟨fun hself => hself rfl, hne⟩) s hgua).mono fun t ht => ⟨hold, hnew, ht⟩

lemma guard_clientHandleIMSReply {http : ClientHttpRequest}
    (h : Guard cfg (oldWatch cfg old r request k key) (Present k .ok) s)
    (hkey : storeKeyPublicByRequest cfg.md5 cfg.acsmCap request = .ok key) (hold : http.oldEntry = some old)
    (hreq : http.request = r) (hval : http.cacheValidation) {rep : Reply} (hvary : rep.vary = none) :
    Ends (fun _ => True) (fun p => (∃ n, old < n ∧ http.entry < n ∧ CopyOf cfg old r request k key n p.2.1 p.2.2) ∧
      (p.1.entry = old ∨ p.1.entry = http.entry) ∧ p.1.oldEntry = none ∧ p.1.request = r)
      (clientHandleIMSReply cfg opts http (some rep) s) := by
  have hs : ∀ i, Spared (oldWatch cfg old r request k key) (Present k .ok) i := fun _ => Or.inl ⟨k, rfl⟩
  rw [clientHandleIMSReply, hold]
  refine (guard_dropImsEntry hmd5 (hs old) s h).bind fun t ht => ?_
  refine (guard_dropOldEntry hmd5 (hs _) t ht).bind fun u hu => ?_
  apply ends_entryAt trivial
  intro x hx
  apply ends_entryAt trivial
  intro o ho
  have hlt : http.entry < u.nextEntry := hu.lt_nextEntry hx
  have hlto : old < u.nextEntry := hu.lt_nextEntry ho
  cases x.memObj with
  | none => trivial
  | some mem =>
    cases o.memObj with
    | none => trivial
    | some oldMem =>
      have hrel : ∀ {i : ℕ} (w : Watch Key) (A : StoreEntry Key → Prop), Spared w A i →
          Preserves (Guard cfg w A) (releaseClient cfg opts i) := fun w A hs => guard_releaseClient hmd5 hswap hs
      refine ends_ite (fun _ => ?_) fun _ => ?_
      · -- the old entry is sent
        refine ((hu.modifyMem (hs old) (f := fun mem' => { mem' with
          request := mem'.request.or _ }) (fun _ => id) fun _ _ => ⟨rfl, rfl⟩).and
            (modifyMem_nextEntry _)).bind ?_
        intro v ⟨hv, hvne⟩
        rw [hreq]
        refine (guard_applyReply hmd5 hswap hlaws hnovary hv hkey hvary true).bind ?_
        intro ⟨update, v'⟩ hv'
        rw [hvne] at hv'
        refine (CopyOf.preserves hv' hlt hrel).bind fun z hz => ?_
        refine (CopyOf.preserves hz hlto ?_).bind
          fun z' hz' => ⟨⟨_, hlto, hlt, hz'⟩, Or.inl rfl, rfl, rfl⟩
        intro w A hs a ha
        refine ends_ite (fun _ => ?_) fun _ => ha
        exact ha.modifyMem hs (fun _ => id) fun _ _ => ⟨rfl, rfl⟩
      · -- the reply is sent
        rw [sendNewEntry, hreq]
        refine (guard_applyReply hmd5 hswap hlaws hnovary hu hkey hvary _).bind ?_
        intro ⟨update, v⟩ hv
        show Ends _ _ (releaseUnvalidated cfg old http v >>= _)
        rw [releaseUnvalidated, if_pos hval]
        exact (CopyOf.preserves hv hlto hrel).bind
          fun z hz => ⟨⟨_, hlto, hlt, hz⟩, Or.inr rfl, rfl, rfl⟩

end

/-! ## Filling the copy -/

section

variable (hmd5 : Injective cfg.md5) (hswap : SwapsFreely cfg)

include hswap

lemma guard_storeAppend_self (len : ℤ) :
    Preserves (Guard cfg w (Present k .pending)) (storeAppend cfg w.entry len) := by
  intro s h
  obtain ⟨x, hx, hp⟩ := h.entry
  have hcore : InCore x := hp.kept.elim (fun hdone => by cases hdone.1) id
  rw [storeAppend, entryAt_eq hx]
  apply ends_check (fun _ => trivial)
  intro _
  refine Guard.storeSwapOut_self hswap _ (h.change hx rfl (h.sane hx fun _ => id) hp.storeStatus rfl
    (Or.inr ⟨?_, hcore.entryCachable, hcore.entryBadLength⟩))
  have hkeep := hcore.keepInMemory
  unfold storeKeepInMemory at hkeep ⊢
  cases hm : x.memObj with
  | none =>
    rw [hm] at hkeep
    cases hkeep
  | some mem =>
    rw [hm] at hkeep
    simp only [Bool.and_eq_true] at hkeep
    simp [hkeep.1, hkeep.2]

include hmd5

/-- The copy goes on, or it is complete and the old entry is left. -/
theorem guard_storeUpdateCopy {old new r : ℕ} {request : Request}
    (h : Guard cfg (copyWatch new r request key) (Present key .pending) s) {size : ℤ} (hsize : 0 ≤ size)
    (hlen : size = 0 → ∀ x mem, s.entries new = some x → x.memObj = some mem →
      storeEntryValidLength { mem with objectSz := mem.inmemHi }) :
    Ends (fun _ => True) (fun p =>
      (p.1 = some ⟨old, new⟩ ∧ Guard cfg (copyWatch new r request key) (Present key .pending) p.2) ∨
      (p.1 = none ∧ Guard cfg (copyWatch new r request key) (Present key .ok) p.2))
      (storeUpdateCopy cfg opts ⟨old, new⟩ size s) := by
  obtain ⟨x, hx, hp⟩ := h.entry
  have hx : s.entries new = some x := hx
  have hs : ∀ i, Spared (copyWatch new r request key) (Present key .ok) i := fun _ => Or.inl ⟨key, rfl⟩
  rw [storeUpdateCopy, entryAt_eq hx]
  refine ends_ite (fun _ => Or.inl ⟨rfl, h⟩) fun _ => ends_ite (fun hfail => ?_) fun _ => ?_
  · rcases hfail with ⟨hpriv, -⟩ | hneg
    · exact absurd hpriv hp.keyPrivate
    · exact absurd hneg (by omega)
  · refine ends_ite (fun _ => ?_) fun hzero => ?_
    · exact (guard_storeAppend_self hswap size s h).bind fun t ht => Or.inl ⟨rfl, ht⟩
    · refine Ends.bind ?_
        fun t ht => Or.inr ⟨rfl, ht⟩
      refine (h.storeComplete_self hmd5 hswap (hlen (by omega))).bind fun t ht => ?_
      refine (Guard.storeUnlockObject hmd5 (hs new) t ht).bind fun u hu => ?_
      exact guard_releaseClient hmd5 hswap (hs old) u hu

end

end SquidVideoCache.Client
