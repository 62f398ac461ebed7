import SquidVideoCache.Client.Keep
import SquidVideoCache.Store.Run

/-!
# Runs of a revalidation

A system is the store and one client whose request found a stale entry. The client asks the server,
the server side fills and completes the new entry, the reply is handled, the copy of the old entry
is filled, and the client goes away, in any order that the handlers allow.
-/

namespace SquidVideoCache.Client
open Lib Acsm StoreKey Store VideoReg Function

variable {Key : Type} {cfg : Config Key} {opts : Options Key}

/-- `old` is the stale entry, `reval` the entry of the revalidation and `copy` the copy that
`storeUpdate` made. -/
structure System (Key : Type) where
  store : State Key
  http : ClientHttpRequest
  old : ℕ
  reval : Option ℕ := none
  update : Option StoreUpdateState := none
  copy : Option ℕ := none
  closed : Bool := false

inductive ServerCall where
  | makePrivate
  | complete
  | lockObject
  | unlockObject

inductive Event where
  | expired
  | receive (reply : Reply) (size : ℤ)
  | server (call : ServerCall)
  | imsReply (rep : Reply)
  | copy (size : ℤ)
  | close

def receiveReply (e : ℕ) (reply : Reply) (size : ℤ) (s : State Key) : Result (State Key) :=
  modifyMem e (fun mem => { mem with reply, hasData := true, inmemHi := mem.inmemHi + size }) s

variable [DecidableEq Key] {method : Method} {s : State Key}

def performServer (cfg : Config Key) (e : ℕ) : ServerCall → State Key → Result (State Key)
  | .makePrivate => httpMakePrivate cfg e
  | .complete => storeComplete cfg e
  | .lockObject => storeLockObject e
  | .unlockObject => storeUnlockObject cfg e

def onReval (sys : System Key) (f : ℕ → State Key → Result (State Key)) : Result (System Key) :=
  match sys.reval with
  | none => .error .assertion
  | some e => do
    let store ← f e sys.store
    return { sys with store }

def perform (cfg : Config Key) (opts : Options Key) (sys : System Key) : Event → Result (System Key)
  | .expired => do
    let (http, store) ← clientProcessExpired cfg opts sys.http sys.store
    return { sys with store, http, reval := some http.entry }
  | .receive reply size => onReval sys fun e => receiveReply e reply size
  | .server call => onReval sys fun e => performServer cfg e call
  | .imsReply rep => do
    let (http, update, store) ← clientHandleIMSReply cfg opts sys.http (some rep) sys.store
    return { sys with store, http, update, copy := update.map StoreUpdateState.newentry }
  | .copy size =>
    match sys.update with
    | none => .error .assertion
    | some state => do
      let (update, store) ← storeUpdateCopy cfg opts state size sys.store
      return { sys with store, update }
  | .close => do
    let store ← httpRequestFree cfg opts sys.http sys.store
    return { sys with store, closed := true }

def memObjAt (e : ℕ) (s : State Key) : Option MemObject := (s.entries e).bind StoreEntry.memObj

/-- The order of the events. The revalidation entry is a new one, and its reply is a 304. -/
def Permitted (sys : System Key) : Event → Prop
  | .expired => sys.reval = none ∧ ¬ sys.http.onlyIfCached ∧ collapsedEntry sys.http.entry sys.store = none
  | .receive _ _ | .server _ => sys.reval.isSome
  | .imsReply rep => sys.http.oldEntry.isSome ∧ rep.status = httpNotModified ∧
    (memObjAt sys.http.entry sys.store).map MemObject.reply = some rep
  | .copy _ => sys.update.isSome
  | .close => sys.reval.isSome ∧ sys.http.oldEntry = none ∧ sys.closed = false

/-- The URL has no keyword and the new entry gets a private key, the reply is one to a cache
validation and has no Vary header, and the copy is read to its end without an error. -/
def Plain (cfg : Config Key) (sys : System Key) : Event → Prop
  | .expired => NoKeyword cfg sys.http.uri ∧ (cfg.neighborsDoPrivateKeys ∨ ¬ sys.http.flags.hierarchical)
  | .imsReply rep => sys.http.cacheValidation ∧ rep.vary = none
  | .copy size => 0 ≤ size ∧ (size = 0 → ∀ mem ∈ sys.copy.bind (memObjAt · sys.store),
      storeEntryValidLength { mem with objectSz := mem.inmemHi })
  | .receive _ _ | .server _ | .close => True

/-- The systems that the runs from `start` lead to whose events all have `P`. -/
inductive Reachable (cfg : Config Key) (opts : Options Key) (P : System Key → Event → Prop) (start : System Key) :
    System Key → Prop
  | start : Reachable cfg opts P start start
  | event {sys sys' : System Key} {event : Event} (hsys : Reachable cfg opts P start sys)
      (hpermitted : Permitted sys event) (hP : P sys event) (hrun : perform cfg opts sys event = .ok sys') :
      Reachable cfg opts P start sys'

/-- A request has found a complete entry, on disk or in memory. -/
structure Stale (cfg : Config Key) (sys : System Key) : Prop where
  inv : Inv cfg sys.store
  links : ∀ i x mem j, sys.store.entries i = some x → x.memObj = some mem →
    mem.imsEntry = some j ∨ mem.oldEntry = some j → j < sys.store.nextEntry
  method : (sys.store.requests sys.http.request).method.toNat < 256
  found : storeGetPublicByRequest cfg (sys.store.requests sys.http.request) sys.store = .ok (some sys.old)
  entry : ∃ x, sys.store.entries sys.old = some x ∧ ¬ x.flags.releaseRequest ∧ x.storeStatus = .ok ∧
    (x.swapStatus = .done ∨ InCore x)
  http : sys.http.entry = sys.old ∧ sys.http.oldEntry = none
  idle : sys.reval = none ∧ sys.update = none ∧ sys.copy = none

/-- Neither the request nor the stale entry is one of several variants, and the URL of the entry has
no keyword. -/
structure PlainObject (cfg : Config Key) (sys : System Key) : Prop where
  request : (sys.store.requests sys.http.request).varyHeaders = none
  object : ∀ x mem, sys.store.entries sys.old = some x → x.memObj = some mem →
    NoKeyword cfg mem.url ∧ mem.reply.vary = none

/-! ## Lookup -/

/-- The keys a lookup of the request tries: its own, and for a HEAD request that of a GET. -/
structure LookupKeys (cfg : Config Key) (request : Request) (k key : Key) : Prop where
  own : storeKeyPublicByRequest cfg.md5 cfg.acsmCap request = .ok key
  other : k = key ∨ (request.method = methodHead ∧
    storeKeyPublicByRequestMethod cfg.md5 cfg.acsmCap request methodGet = .ok k)

section

omit [DecidableEq Key]

lemma isPublicKey_of_method {request : Request} {key : Key}
    (h : storeKeyPublicByRequestMethod cfg.md5 cfg.acsmCap request method = .ok key) : IsPublicKey cfg key := by
  obtain ⟨url, hurl⟩ := storeKeyPublicByRequestMethod_preimage h
  exact ⟨url, _, _, hurl⟩

lemma LookupKeys.isPublic {request : Request} {k key : Key} (h : LookupKeys cfg request k key) :
    IsPublicKey cfg k ∧ IsPublicKey cfg key := by
  have hown := isPublicKey_of_method h.own
  rcases h.other with rfl | ⟨-, hget⟩
  · exact ⟨hown, hown⟩
  · exact ⟨isPublicKey_of_method hget, hown⟩

end

lemma storeGetPublicByRequestMethod_eq {request : Request} {key : Key}
    (h : storeKeyPublicByRequestMethod cfg.md5 cfg.acsmCap request method = .ok key) (s : State Key) :
    storeGetPublicByRequestMethod cfg request method s = .ok (hashLookup key s) := by
  rw [storeGetPublicByRequestMethod, h]
  rfl

lemma lookupKeys_of_found {request : Request} {e : ℕ} (h : storeGetPublicByRequest cfg request s = .ok (some e)) :
    ∃ k key, LookupKeys cfg request k key ∧ hashLookup k s = some e ∧ (k = key ∨ hashLookup key s = none) := by
  rw [storeGetPublicByRequest] at h
  cases hown : storeKeyPublicByRequestMethod cfg.md5 cfg.acsmCap request request.method with
  | error f =>
    rw [storeGetPublicByRequestMethod, hown] at h
    cases h
  | ok key =>
    rw [storeGetPublicByRequestMethod_eq hown] at h
    cases hl : hashLookup key s with
    | some i =>
      rw [hl] at h
      cases h
      exact ⟨key, key, ⟨hown, Or.inl rfl⟩, hl, Or.inl rfl⟩
    | none =>
      rw [hl] at h
      by_cases hhead : request.method = methodHead
      · rw [if_pos hhead] at h
        cases hget : storeKeyPublicByRequestMethod cfg.md5 cfg.acsmCap request methodGet with
        | error f =>
          rw [storeGetPublicByRequestMethod, hget] at h
          cases h
        | ok k =>
          rw [storeGetPublicByRequestMethod_eq hget] at h
          exact ⟨k, key, ⟨hown, Or.inr ⟨hhead, hget⟩⟩, Except.ok.inj h, Or.inr hl⟩
      · rw [if_neg hhead] at h
        cases h

/-- The watched entry is found under its key, since no other entry may have it. -/
theorem hashLookup_of_guard {w : Watch Key} {A : StoreEntry Key → Prop} {k : Key}
    (h : Guard cfg w A s) (hpub : IsPublicKey cfg k) (hkey : ∀ x, A x → x.key = some k)
    (hhol : ∀ i, w.holders k i → i = w.entry) : hashLookup k s = some w.entry := by
  obtain ⟨x, hx, hA⟩ := h.entry
  have hself : keyOf s w.entry = some k := by rw [keyOf_of_entry hx, hkey x hA]
  cases hl : hashLookup k s with
  | none => exact absurd hself (hashLookup_eq_none.mp hl _ h.mem_table)
  | some i =>
    obtain ⟨hi, hik⟩ := hashLookup_some hl
    rw [hhol i (h.holders k i hpub hi hik)]

/-! ## The watched entry of a run -/

/-- The old entry is watched until there is a copy, and the copy from then on. -/
inductive Watched (cfg : Config Key) (old r : ℕ) (request : Request) (k key : Key) :
    Watch Key → (StoreEntry Key → Prop) → Option ℕ → Option StoreUpdateState → Prop
  | old : Watched cfg old r request k key (oldWatch cfg old r request k key) (Present k .ok) none none
  | loading {new : ℕ} (hne : new ≠ old) : Watched cfg old r request k key (copyWatch new r request key)
      (Present key .pending) (some new) (some ⟨old, new⟩)
  | copied {new : ℕ} (hne : new ≠ old) : Watched cfg old r request k key (copyWatch new r request key)
      (Present key .ok) (some new) none

section

variable {old r : ℕ} {request : Request} {k key : Key} {w : Watch Key} {A : StoreEntry Key → Prop}
  {copy : Option ℕ} {update : Option StoreUpdateState} {e : ℕ}

section

variable (h : Watched cfg old r request k key w A copy update)

include h

section

omit [DecidableEq Key]

lemma Watched.spared (he : copy ≠ some e) : Spared w A e := by
  cases h with
  | old => exact Or.inl ⟨k, rfl⟩
  | copied _ => exact Or.inl ⟨key, rfl⟩
  | loading _ => exact Or.inr ⟨fun hself => hself rfl, fun heq => he (by rw [heq]; rfl)⟩

lemma Watched.ne_entry (hold : e ≠ old) (he : copy ≠ some e) : e ≠ w.entry := by
  cases h with
  | old => exact hold
  | copied _ | loading _ => exact fun heq => he (by rw [heq]; rfl)

lemma Watched.copy_ne_old : copy ≠ some old := by
  cases h with
  | old => exact fun heq => by cases heq
  | copied hne | loading hne => exact fun heq => hne (Option.some.inj heq)

lemma Watched.request_value : w.request = r ∧ w.value = request := by
  cases h with
  | old | copied _ | loading _ => exact ⟨rfl, rfl⟩

end

lemma Watched.found (hkeys : LookupKeys cfg request k key) {s : State Key} (hs : Guard cfg w A s) :
    storeGetPublicByRequest cfg request s = .ok (some w.entry) ∧ (w.entry = old ∨ copy = some w.entry) ∧
      ∃ x, s.entries w.entry = some x ∧ ¬ x.flags.keyPrivate ∧ ¬ x.flags.releaseRequest := by
  have hloo := storeGetPublicByRequestMethod_eq hkeys.own s
  have hcop : ∀ {new st}, Guard cfg (copyWatch new r request key) (Present key st) s →
      storeGetPublicByRequest cfg request s = .ok (some new) := by
    intro new st hgua
    have hl : hashLookup key s = some new :=
      hashLookup_of_guard hgua hkeys.isPublic.2 (fun x hx => hx.key) fun i hi => hi rfl
    rw [storeGetPublicByRequest, hloo, hl]
    rfl
  obtain ⟨x, hx, hA⟩ := hs.entry
  cases h with
  | old =>
    refine ⟨?_, Or.inl rfl, x, hx, hA.keyPrivate, hA.releaseRequest⟩
    have hl : hashLookup k s = some old :=
      hashLookup_of_guard hs hkeys.isPublic.1 (fun x hx => hx.key) fun i hi => hi (Or.inl rfl)
    rw [storeGetPublicByRequest, hloo]
    cases hown : hashLookup key s with
    | some i =>
      obtain ⟨hi, hik⟩ := hashLookup_some hown
      obtain rfl : i = old := hs.holders key i hkeys.isPublic.2 hi hik (Or.inr rfl)
      rfl
    | none =>
      rcases hkeys.other with rfl | ⟨hhead, hget⟩
      · cases hl.symm.trans hown
      · rw [if_pos hhead, storeGetPublicByRequestMethod_eq hget, hl]
        rfl
  | loading _ => exact ⟨hcop hs, Or.inr rfl, x, hx, hA.keyPrivate, hA.releaseRequest⟩
  | copied _ => exact ⟨hcop hs, Or.inr rfl, x, hx, hA.keyPrivate, hA.releaseRequest⟩

end

end

/-! ## One event -/

/-- What holds in every system of a plain run from `start`. -/
structure Held (cfg : Config Key) (start : System Key) (k key : Key) (sys : System Key) : Prop where
  old : sys.old = start.old
  request : sys.http.request = start.http.request
  entry : sys.http.entry = start.old ∨ sys.reval = some sys.http.entry
  reval : ∀ e, sys.reval = some e → e ≠ start.old ∧ sys.copy ≠ some e
  idle : sys.reval = none → sys.http.entry = start.old ∧ sys.http.oldEntry = none ∧ sys.copy = none
  waiting : ∀ o, sys.http.oldEntry = some o →
    o = start.old ∧ sys.reval = some sys.http.entry ∧ sys.copy = none
  watched : ∃ w A, Watched cfg start.old start.http.request (start.store.requests start.http.request) k key w A
    sys.copy sys.update ∧ Guard cfg w A sys.store

section

variable {start sys sys' : System Key} {k key : Key} (h : Held cfg start k key sys)

include h

section

omit [DecidableEq Key]

lemma Held.store {e : ℕ} (he : sys.copy ≠ some e)
    {f : State Key → Result (State Key)} {store : State Key} (hrun : f sys.store = .ok store)
    (hf : ∀ w A, Spared w A e → (e ≠ start.old → e ≠ w.entry) → Preserves (Guard cfg w A) f) :
    Held cfg start k key { sys with store } := by
  obtain ⟨w, A, hw, hgua⟩ := h.watched
  have hsto : Guard cfg w A store :=
    (hf w A (hw.spared he) (fun hold => hw.ne_entry hold he) _ hgua).ok_of_eq hrun
  exact ⟨h.old, h.request, h.entry, h.reval, h.idle, h.waiting, w, A, hw, hsto⟩

lemma Held.guard_old (hcopy : sys.copy = none) :
    sys.update = none ∧ Guard cfg (oldWatch cfg start.old start.http.request
      (start.store.requests start.http.request) k key) (Present k .ok) sys.store := by
  obtain ⟨w, A, hw, hgua⟩ := h.watched
  rw [hcopy] at hw
  cases hu : sys.update with
  | none =>
    rw [hu] at hw
    cases hw
    exact ⟨rfl, hgua⟩
  | some state =>
    rw [hu] at hw
    cases hw

end

variable (hmd5 : Injective cfg.md5) (hswap : SwapsFreely cfg) {size : ℤ}

include hmd5

lemma Held.expired (hmet : (start.store.requests start.http.request).method.toNat < 256)
    (hpermitted : Permitted sys .expired) (hpla : Plain cfg sys .expired)
    (hrun : perform cfg opts sys .expired = .ok sys') : Held cfg start k key sys' := by
  obtain ⟨hrev, honly, hcol⟩ := hpermitted
  obtain ⟨hentr, -, hcopy⟩ := h.idle hrev
  obtain ⟨hupdate, hgua⟩ := h.guard_old hcopy
  obtain ⟨⟨http, store⟩, hexp, hsys'⟩ := bind_eq_ok.mp hrun
  obtain ⟨hgua', hne, hold, hreq⟩ := (guard_clientProcessExpired hmd5 (fun _ => trivial) hgua hentr
    h.request hmet honly hcol hpla.1 hpla.2).ok_of_eq hexp
  cases hsys'
  have hwat : Watched cfg start.old start.http.request (start.store.requests start.http.request) k key
      (oldWatch cfg start.old start.http.request (start.store.requests start.http.request) k key) (Present k .ok)
      sys.copy sys.update := by
    rw [hcopy, hupdate]
    exact .old
  refine ⟨h.old, hreq.trans h.request, Or.inr rfl, ?_, ?_, ?_, _, _, hwat, hgua'⟩
  · intro e he
    cases he
    exact ⟨hne, by rw [hcopy]; exact fun heq => by cases heq⟩
  · intro hnone
    cases hnone
  · intro o ho
    exact ⟨Option.some.inj (ho.symm.trans hold), rfl, hcopy⟩

omit [DecidableEq Key] hmd5 in
lemma Held.onReval {f : ℕ → State Key → Result (State Key)}
    (hf : ∀ e w A, Spared w A e → e ≠ w.entry → Preserves (Guard cfg w A) (f e))
    (hrun : onReval sys f = .ok sys') : Held cfg start k key sys' := by
  unfold Client.onReval at hrun
  cases hr : sys.reval with
  | none =>
    rw [hr] at hrun
    cases hrun
  | some e =>
    rw [hr] at hrun
    obtain ⟨store, hsto, hsys'⟩ := bind_eq_ok.mp hrun
    cases hsys'
    obtain ⟨hold, hcopy⟩ := h.reval e hr
    have hkept := h.store hcopy hsto fun w A hs hne => hf e w A hs (hne hold)
    rw [hr] at hkept
    exact hkept

omit hmd5 in
lemma Held.receive {reply : Reply}
    (hrun : perform cfg opts sys (.receive reply size) = .ok sys') : Held cfg start k key sys' := by
  refine h.onReval (fun e w A hs hne s hgua => ?_) hrun
  exact hgua.modifyMem hs (fun mem hmem => ⟨hmem.1, hmem.2.1, fun heq => absurd heq hne⟩)
    fun heq => absurd heq hne

lemma Held.server {call : ServerCall}
    (hrun : perform cfg opts sys (.server call) = .ok sys') : Held cfg start k key sys' := by
  refine h.onReval (fun e w A hs hne => ?_) hrun
  have htol : Tolerates cfg (Guard cfg w A) e := Guard.tolerates hmd5 hne
  cases call with
  | makePrivate => exact fun s hgua => (htol.bears.storeExpireNow hgua).bind htol.storeReleaseRequest
  | complete => exact Guard.storeComplete_of_ne hmd5 hs hne
  | lockObject => exact Guard.storeLockObject hs
  | unlockObject => exact Guard.storeUnlockObject hmd5 hs

include hswap

lemma Held.imsReply (hlaws : VaryLaws cfg opts)
    (hkeys : LookupKeys cfg (start.store.requests start.http.request) k key)
    (hnovary : (start.store.requests start.http.request).varyHeaders = none) {rep : Reply}
    (hpermitted : Permitted sys (.imsReply rep)) (hpla : Plain cfg sys (.imsReply rep))
    (hrun : perform cfg opts sys (.imsReply rep) = .ok sys') : Held cfg start k key sys' := by
  obtain ⟨o, ho⟩ := Option.isSome_iff_exists.mp hpermitted.1
  obtain ⟨rfl, hrev, hcopy⟩ := h.waiting o ho
  obtain ⟨-, hgua⟩ := h.guard_old hcopy
  obtain ⟨⟨http, update, store⟩, hrep, hsys'⟩ := bind_eq_ok.mp hrun
  obtain ⟨⟨n, hlto, hlt, hcop⟩, hentr, hnone, hreq⟩ := (guard_clientHandleIMSReply hmd5 hswap hlaws hnovary
    hgua hkeys.own ho h.request hpla.1 hpla.2).ok_of_eq hrep
  cases hsys'
  refine ⟨h.old, hreq, ?_, ?_, ?_, ?_, ?_⟩
  · rcases hentr with heq | heq
    · exact Or.inl heq
    · exact Or.inr (by rw [heq]; exact hrev)
  · intro e he
    refine ⟨(h.reval e he).1, ?_⟩
    cases hrev.symm.trans he
    cases update with
    | none => exact fun heq => by cases heq
    | some state =>
      -- the new entry existed before the copy
      have hle : n ≤ state.newentry := hcop.2.1
      intro heq
      have heq : state.newentry = sys.http.entry := Option.some.inj heq
      omega
  · intro hidle
    cases hrev.symm.trans hidle
  · intro o ho'
    cases hnone.symm.trans ho'
  · cases update with
    | none => exact ⟨_, _, .old, hcop⟩
    | some state =>
      obtain ⟨hsta, hle, hgua'⟩ := hcop
      have hupdate : (some state : Option StoreUpdateState) = some ⟨start.old, state.newentry⟩ := by
        rw [← hsta]
      refine ⟨_, _, ?_, hgua'⟩
      rw [hupdate]
      exact .loading (by omega)

lemma Held.copying (hpla : Plain cfg sys (.copy size))
    (hrun : perform cfg opts sys (.copy size) = .ok sys') : Held cfg start k key sys' := by
  obtain ⟨w, A, hw, hgua⟩ := h.watched
  unfold perform at hrun
  cases hu : sys.update with
  | none =>
    rw [hu] at hrun
    cases hrun
  | some state =>
    rw [hu] at hrun hw
    cases hc : sys.copy with
    | none =>
      rw [hc] at hw
      cases hw
    | some new =>
      rw [hc] at hw
      cases hw with
      | loading hne =>
        obtain ⟨⟨update, store⟩, hcopy, hsys'⟩ := bind_eq_ok.mp hrun
        cases hsys'
        have hlen : size = 0 → ∀ x mem, sys.store.entries new = some x → x.memObj = some mem →
            storeEntryValidLength { mem with objectSz := mem.inmemHi } := by
          intro hsize x mem hx hmem
          refine hpla.2 hsize mem ?_
          rw [hc, Option.bind_some, memObjAt, hx]
          exact hmem
        have hende := (guard_storeUpdateCopy hmd5 hswap hgua hpla.1 hlen).ok_of_eq hcopy
        refine ⟨h.old, h.request, h.entry, h.reval, h.idle, h.waiting, ?_⟩
        rw [hc]
        rcases hende with ⟨rfl, hgua'⟩ | ⟨rfl, hgua'⟩
        · exact ⟨_, _, .loading hne, hgua'⟩
        · exact ⟨_, _, .copied hne, hgua'⟩

lemma Held.close (hrun : perform cfg opts sys .close = .ok sys') : Held cfg start k key sys' := by
  obtain ⟨store, hsto, hsys'⟩ := bind_eq_ok.mp hrun
  cases hsys'
  have hne : sys.copy ≠ some sys.http.entry := by
    rcases h.entry with heq | heq
    · obtain ⟨w, A, hw, -⟩ := h.watched
      rw [heq]
      exact hw.copy_ne_old
    · exact (h.reval _ heq).2
  have hkept := h.store hne hsto fun w A hs _ => guard_releaseClient hmd5 hswap hs
  exact ⟨hkept.old, hkept.request, hkept.entry, hkept.reval, hkept.idle, hkept.waiting, hkept.watched⟩

end

/-! ## Whole runs -/

lemma Stale.held (hmd5 : Injective cfg.md5) {start : System Key} (h : Stale cfg start)
    (hobj : PlainObject cfg start) : ∃ k key,
      LookupKeys cfg (start.store.requests start.http.request) k key ∧ Held cfg start k key start := by
  obtain ⟨k, key, hkeys, hl, hkey⟩ := lookupKeys_of_found h.found
  obtain ⟨x, hx, hrel, hstat, hkept⟩ := h.entry
  obtain ⟨hrev, hupdate, hcopy⟩ := h.idle
  have hkeyO : keyOf start.store start.old = some k := (hashLookup_some hl).2
  obtain ⟨y, hy, hyk, hypub⟩ := h.inv.public_of_hashLookup hmd5 hkeys.isPublic.1 hl
  cases hx.symm.trans hy
  have hgua : Guard cfg (oldWatch cfg start.old start.http.request (start.store.requests start.http.request)
      k key) (Present k .ok) start.store := by
    refine ⟨h.inv.allocated, ?_, ?_, rfl, (hashLookup_some hl).1, x, hx, hyk, hypub, hrel, hstat,
      hkept.imp_left fun hdone => ⟨rfl, hdone⟩⟩
    · intro i z mem hz hmem
      refine ⟨(h.inv.typed i z hz).method mem hmem, fun j hj => ⟨h.links i z mem j hz hmem hj, trivial⟩, ?_⟩
      rintro rfl
      exact hobj.object z mem hz hmem
    · intro κ i _ hi hκ hcase
      have hκk : κ = k := by
        rcases hcase with heq | heq
        · exact heq
        · rcases hkey with hsame | hnone
          · exact heq.trans hsame.symm
          · exact absurd (heq ▸ hκ) (hashLookup_eq_none.mp hnone i hi)
      exact h.inv.distinct i _ k (hκk ▸ hκ) hkeyO
  refine ⟨k, key, hkeys, rfl, rfl, Or.inl h.http.1, ?_, fun _ => ⟨h.http.1, h.http.2, hcopy⟩, ?_, ?_⟩
  · intro e he
    cases hrev.symm.trans he
  · intro o ho
    cases h.http.2.symm.trans ho
  · rw [hcopy, hupdate]
    exact ⟨_, _, .old, hgua⟩

lemma Reachable.held (hmd5 : Injective cfg.md5) (hswap : SwapsFreely cfg) (hlaws : VaryLaws cfg opts)
    {start sys : System Key} {k key : Key} (hsta : Stale cfg start) (hobj : PlainObject cfg start)
    (hkeys : LookupKeys cfg (start.store.requests start.http.request) k key)
    (hstart : Held cfg start k key start) (h : Reachable cfg opts (Plain cfg) start sys) :
    Held cfg start k key sys := by
  induction h with
  | start => exact hstart
  | @event sys sys' event _ hpermitted hpla hrun ih =>
    cases event with
    | expired => exact ih.expired hmd5 hsta.method hpermitted hpla hrun
    | receive reply size => exact ih.receive hrun
    | server call => exact ih.server hmd5 hrun
    | imsReply rep => exact ih.imsReply hmd5 hswap hlaws hkeys hobj.request hpermitted hpla hrun
    | copy size => exact ih.copying hmd5 hswap hpla hrun
    | close => exact ih.close hmd5 hswap hrun

/-- In every system of a plain run a lookup of the request finds the old entry or its copy, which is
public and not to be released. -/
theorem reachable_found (hmd5 : Injective cfg.md5) (hswap : SwapsFreely cfg) (hlaws : VaryLaws cfg opts)
    {start sys : System Key} (hstale : Stale cfg start) (hobject : PlainObject cfg start)
    (h : Reachable cfg opts (Plain cfg) start sys) :
    ∃ e x, storeGetPublicByRequest cfg (sys.store.requests sys.http.request) sys.store = .ok (some e) ∧
      (e = start.old ∨ sys.copy = some e) ∧ sys.store.entries e = some x ∧ ¬ x.flags.keyPrivate ∧
      ¬ x.flags.releaseRequest := by
  obtain ⟨k, key, hkeys, hstart⟩ := hstale.held hmd5 hobject
  have hheld := h.held hmd5 hswap hlaws hstale hobject hkeys hstart
  obtain ⟨w, A, hw, hgua⟩ := hheld.watched
  obtain ⟨hfou, hentr, x, hx, hpriv, hrel⟩ := hw.found hkeys hgua
  have hreq : sys.store.requests sys.http.request = start.store.requests start.http.request := by
    obtain ⟨hr, hval⟩ := hw.request_value
    rw [hheld.request, ← hval, ← hgua.request, hr]
  rw [hreq]
  exact ⟨w.entry, x, hfou, hentr, hx, hpriv, hrel⟩

/-! ## Two runs -/

def next (cfg : Config Key) (opts : Options Key) (event : Event) (sys : System Key) : System Key :=
  (perform cfg opts sys event).toOption.getD sys

lemma Reachable.next {P : System Key → Event → Prop} {start sys : System Key} (event : Event)
    (h : Reachable cfg opts P start sys) (hpermitted : Permitted sys event) (hP : P sys event)
    (hok : (perform cfg opts sys event).isOk) : Reachable cfg opts P start (next cfg opts event sys) :=
  .event h hpermitted hP (eq_ok_of_isOk hok sys)

instance (sys : System Key) (event : Event) : Decidable (Permitted sys event) :=
  match event with
  | .expired => inferInstanceAs (Decidable (_ ∧ _ ∧ _))
  | .receive _ _ | .server _ | .copy _ => inferInstanceAs (Decidable (_ = true))
  | .imsReply _ => inferInstanceAs (Decidable (_ ∧ _ ∧ _))
  | .close => inferInstanceAs (Decidable (_ ∧ _ ∧ _))

/-- Headers are updated, and nothing else depends on the options. -/
def plainOptions : Options (List UInt8) where
  updateHeaders := true
  collapsedForwarding := true
  updateOnNotModified := fun old _ => old
  headerSize := fun _ => 2
  quickAbort := fun _ => false
  staleOk := fun _ _ => true

def markConfig (acsmCap : AcsmCap) : Config (List UInt8) :=
  { plainConfig acsmCap with makeVaryMark := fun request _ => { request with varyHeaders := none } }

/-- An object of three bytes with a header of two, which one client reads. -/
def cachedObject (url : CString) : MemObject where
  method := methodGet
  url := url
  reply := { versionMajor := 1, status := 200, contentLength := 3, hdrSz := 2, lastModified := 1 }
  nclients := 1
  hasData := true
  inmemHi := 5
  objectSz := 5

def cachedEntry (key : List UInt8) (url : CString) : StoreEntry (List UInt8) where
  key := some key
  memObj := some (cachedObject url)
  flags := { entryCachable := true, entryValidated := true }
  lockCount := 2
  lastmod := 1

def staleSystem (key : List UInt8) (url : CString) : System (List UInt8) where
  store :=
    { entries := update (fun _ => none) 0 (some (cachedEntry key url))
      nextEntry := 1
      table := [0]
      requests := fun _ => plainRequest url methodGet }
  http := { uri := url, request := 0, flags := { cachable := true }, entry := 0 }
  old := 0

def notModified : Reply := { versionMajor := 1, status := 304, hdrSz := 2 }

lemma staleSystem_stale {acsmCap : AcsmCap} {key : List UInt8} {url : CString}
    (hkey : storeKeyPublicByRequest (markConfig acsmCap).md5 (markConfig acsmCap).acsmCap
      (plainRequest url methodGet) = .ok key) : Stale (markConfig acsmCap) (staleSystem key url) := by
  have hpub : IsPublicKey (markConfig acsmCap) key := isPublicKey_of_method hkey
  have hmet : methodGet.toNat < 256 := by decide
  refine ⟨?_, ?_, hmet, ?_, ⟨cachedEntry key url, rfl, Bool.false_ne_true, rfl, Or.inr ⟨rfl, rfl,
    Bool.false_ne_true⟩⟩, ⟨rfl, rfl⟩, rfl, rfl, rfl⟩
  · refine .single rfl rfl rfl rfl hpub Bool.false_ne_true fun mem hmem => ?_
    cases hmem
    exact hmet
  · intro i x mem j hx hmem hj
    by_cases hi : i = 0
    · rw [hi] at hx
      cases hx
      cases hmem
      rcases hj with hj | hj <;> cases hj
    · have hnone : update (fun _ => none) 0 (some (cachedEntry key url)) i = none := update_of_ne hi ..
      cases hnone.symm.trans hx
  · have hl : hashLookup key (staleSystem key url).store = some 0 := by
      simp [hashLookup, staleSystem, keyOf, cachedEntry]
    have hfou := storeGetPublicByRequestMethod_eq hkey (staleSystem key url).store
    rw [hl] at hfou
    show storeGetPublicByRequest _ (plainRequest url methodGet) _ = _
    rw [storeGetPublicByRequest, hfou]
    rfl

def flatKey : List UInt8 := 1 :: flatA.bytes

def flatConfig : Config (List UInt8) := markConfig ⟨acsmNew, acsmNew⟩

/-- The origin answers 304, the headers are copied to a new entry and everything is let go. -/
def flatRun : System (List UInt8) :=
  [.expired, .receive notModified 2, .server .makePrivate, .imsReply notModified, .copy 3, .copy 0,
    .server .complete, .server .unlockObject, .close].foldl
    (fun sys event => next flatConfig plainOptions event sys) (staleSystem flatKey flatA)

lemma noKeyword_flatA : NoKeyword flatConfig flatA := by
  intro ret hret
  have h0 : searchQuery acsmNew (query flatA) = .ok 0 := by decide +kernel
  cases h0.symm.trans hret
  decide

lemma reachable_flatRun :
    Reachable flatConfig plainOptions (Plain flatConfig) (staleSystem flatKey flatA) flatRun := by
  have h0 : Reachable flatConfig plainOptions (Plain flatConfig) (staleSystem flatKey flatA) _ := .start
  have h1 := h0.next .expired (by decide +kernel) ⟨noKeyword_flatA, Or.inl rfl⟩ (by decide +kernel)
  have h2 := h1.next (.receive notModified 2) (by decide +kernel) trivial (by decide +kernel)
  have h3 := h2.next (.server .makePrivate) (by decide +kernel) trivial (by decide +kernel)
  have h4 := h3.next (.imsReply notModified) (by decide +kernel) ⟨by decide +kernel, rfl⟩ (by decide +kernel)
  have h5 := h4.next (.copy 3) (by decide +kernel) ⟨by decide, fun h => by cases h⟩ (by decide +kernel)
  have h6 := h5.next (.copy 0) (by decide +kernel) ⟨le_rfl, fun _ => by decide +kernel⟩ (by decide +kernel)
  have h7 := h6.next (.server .complete) (by decide +kernel) trivial (by decide +kernel)
  have h8 := h7.next (.server .unlockObject) (by decide +kernel) trivial (by decide +kernel)
  simp only [flatRun, List.foldl_cons, List.foldl_nil]
  exact h8.next .close (by decide +kernel) trivial (by decide +kernel)

theorem reachable_found_flatRun : flatRun.closed ∧
    ∃ e x, storeGetPublicByRequest flatConfig (flatRun.store.requests flatRun.http.request) flatRun.store =
        .ok (some e) ∧
      (e = (staleSystem flatKey flatA).old ∨ flatRun.copy = some e) ∧ flatRun.store.entries e = some x ∧
      ¬ x.flags.keyPrivate ∧ ¬ x.flags.releaseRequest := by
  have hkey : storeKeyPublicByRequest (markConfig ⟨acsmNew, acsmNew⟩).md5 (markConfig ⟨acsmNew, acsmNew⟩).acsmCap
      (plainRequest flatA methodGet) = .ok flatKey := by decide +kernel
  have hobj : PlainObject flatConfig (staleSystem flatKey flatA) := by
    refine ⟨rfl, fun x mem hx hmem => ?_⟩
    cases hx
    cases hmem
    exact ⟨noKeyword_flatA, rfl⟩
  have hswap : SwapsFreely flatConfig := fun _ _ => ⟨SwapOut.noConfusion, SwapOut.noConfusion⟩
  exact ⟨by decide +kernel, reachable_found injective_id hswap
    ⟨fun _ _ _ => rfl, fun _ _ hold _ => hold⟩ (staleSystem_stale hkey) hobj reachable_flatRun⟩

lemma clientProcessExpired_first {http : ClientHttpRequest} {x : StoreEntry Key}
    {mem : MemObject} (hx : s.entries http.entry = some x) (hmem : x.memObj = some mem)
    (honly : http.onlyIfCached = false) (hims : mem.imsEntry = none) : clientProcessExpired cfg opts http s =
      (storeCreateEntry cfg http.uri http.flags (s.requests http.request).method s >>= fun r =>
        rememberRevalidation opts http.entry r.1 (s.requests http.request).storeUrl r.2 >>= fun r =>
          startRevalidation cfg { http with
            oldEntry := some http.entry, cacheValidation := http.cacheValidation || canValidate x mem }
            r.1 r.2) := by
  have hcol : collapsedEntry http.entry s = none := by
    rw [collapsedEntry, hx, Option.bind_some, hmem, Option.bind_some, hims]
    rfl
  have hdrop : dropImsEntry cfg http.entry s = .ok s := by
    rw [dropImsEntry, entryAt_eq hx, ok_bind, hmem, Option.bind_some, hims]
    rfl
  rw [clientProcessExpired, entryAt_eq hx, ok_bind, hmem]
  simp only [honly, hcol, createRevalidation, hdrop, bind_assoc]
  rfl

def videoKey : List UInt8 := 1 :: ascii ['b', '.', 'f', 'l', 'v']

/-- The revalidation of a video takes its key from the old entry. -/
def takenOver : Result (System (List UInt8)) := do
  let start := staleSystem videoKey videoAB
  let s ← evict (markConfig youkuCap) videoKey (allocated videoAB methodGet start.store)
  let s ← replaceKey 1 videoKey s
  let (e, s) ← finishCreate (markConfig youkuCap) { cachable := true } 1 s
  let (e, s) ← rememberRevalidation plainOptions 0 e none s
  let (http, store) ← startRevalidation (markConfig youkuCap)
    { start.http with oldEntry := some 0, cacheValidation := true } e s
  return { start with store, http, reval := some http.entry }

lemma storeKeyPublic_videoKey :
    storeKeyPublic (markConfig youkuCap).md5 (markConfig youkuCap).acsmCap videoAB methodGet = .ok videoKey :=
  storeKeyPublic_video id _ (youkuUrl_videoAB.hasVideoID _ (by decide)) _

lemma perform_takenOver :
    perform (markConfig youkuCap) plainOptions (staleSystem videoKey videoAB) .expired = takenOver := by
  have hkeyw : searchQuery (markConfig youkuCap).acsmCap.keywords (query videoAB) = .ok 100 :=
    youkuUrl_videoAB.keyword
  have hfir : clientProcessExpired (markConfig youkuCap) plainOptions (staleSystem videoKey videoAB).http
      (staleSystem videoKey videoAB).store = _ := clientProcessExpired_first rfl rfl rfl rfl
  have hcre : storeCreateEntry (markConfig youkuCap) videoAB { cachable := true } methodGet
      (staleSystem videoKey videoAB).store = _ :=
    storeCreateEntry_keyword (by decide) hkeyw le_rfl storeKeyPublic_videoKey _
  rw [perform, hfir]
  show ((storeCreateEntry (markConfig youkuCap) videoAB { cachable := true } methodGet
    (staleSystem videoKey videoAB).store >>= _) >>= _) = _
  rw [hcre]
  rfl

/-- The old entry of a video is gone when its revalidation ends with a 304, and nothing has its place. -/
theorem revalidation_video_lost : ∃ sys : System (List UInt8),
    Stale (markConfig youkuCap) (staleSystem videoKey videoAB) ∧
    Reachable (markConfig youkuCap) plainOptions (fun _ _ => True) (staleSystem videoKey videoAB) sys ∧
    sys.closed ∧ sys.http.oldEntry = none ∧
    storeGetPublicByRequest (markConfig youkuCap) (sys.store.requests sys.http.request) sys.store = .ok none := by
  have hkey : storeKeyPublicByRequest (markConfig youkuCap).md5 (markConfig youkuCap).acsmCap
      (plainRequest videoAB methodGet) = .ok videoKey := by
    rw [storeKeyPublicByRequest, storeKeyPublicByRequestMethod_le _ _ rfl rfl rfl (by decide)]
    exact storeKeyPublic_videoKey
  have hemp : ∀ s : State (List UInt8), s.table = [] →
      storeGetPublicByRequest (markConfig youkuCap) (plainRequest videoAB methodGet) s = .ok none := by
    intro s hs
    rw [storeGetPublicByRequest, storeGetPublicByRequestMethod_eq hkey, hashLookup, hs]
    rfl
  have hok : takenOver.isOk := by decide +kernel
  have h1 : Reachable (markConfig youkuCap) plainOptions (fun _ _ => True) (staleSystem videoKey videoAB) _ :=
    Reachable.next .expired .start (by decide +kernel) trivial (by rw [perform_takenOver]; exact hok)
  rw [next, perform_takenOver] at h1
  have h2 := h1.next (.receive notModified 2) (by decide +kernel) trivial (by decide +kernel)
  have h3 := h2.next (.server .makePrivate) (by decide +kernel) trivial (by decide +kernel)
  have h4 := h3.next (.imsReply notModified) (by decide +kernel) trivial (by decide +kernel)
  have h5 := h4.next (.server .complete) (by decide +kernel) trivial (by decide +kernel)
  have h6 := h5.next (.server .unlockObject) (by decide +kernel) trivial (by decide +kernel)
  have h7 := h6.next .close (by decide +kernel) trivial (by decide +kernel)
  refine ⟨_, staleSystem_stale hkey, h7, by decide +kernel, by decide +kernel, ?_⟩
  exact hemp _ (by decide +kernel)

end SquidVideoCache.Client
