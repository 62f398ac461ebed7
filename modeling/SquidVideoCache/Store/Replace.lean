import SquidVideoCache.Store.Watch

/-!
# A copy takes the place of an entry

A new entry starts with a private key, so it disturbs no watched entry, and it can be watched itself
from then on: no memory object holds it.
-/

namespace SquidVideoCache.Store
open Lib StoreKey VideoReg Function

variable {Key : Type} {cfg : Config Key} {s t : State Key} {e : ℕ} {x y : StoreEntry Key}
  {w : Watch Key} {A B : StoreEntry Key → Prop} {k key : Key} {url : CString} {method : Method}
  {flags : RequestFlags} {num : ℕ} {now : ℤ} {v : Watch Key}

/-! ## A new entry -/

/-- The keyword list does not have the URL. -/
def NoKeyword (cfg : Config Key) (url : CString) : Prop :=
  ∀ ret, searchQuery cfg.acsmCap.keywords (query url) = .ok ret → ret < 100

/-- There is one more entry, and it is in the table. -/
structure Adds (x : StoreEntry Key) (s t : State Key) : Prop where
  entries : t.entries = update s.entries s.nextEntry (some x)
  table : ∀ i, i ≠ s.nextEntry → (i ∈ t.table ↔ i ∈ s.table)
  mem_table : s.nextEntry ∈ t.table
  nextEntry : t.nextEntry = s.nextEntry + 1
  requests : t.requests = s.requests

lemma Adds.of_ne (h : Adds x s t) {i : ℕ} (hi : i ≠ s.nextEntry) : t.entries i = s.entries i := by
  rw [h.entries, update_of_ne hi]

lemma Adds.self (h : Adds x s t) : t.entries s.nextEntry = some x := by
  rw [h.entries, update_self]

/-- The new entry has a private key and holds no other entry. -/
structure Unseen (cfg : Config Key) (x : StoreEntry Key) : Prop where
  key : ∀ k, x.key = some k → ¬ IsPublicKey cfg k
  memObj : ∀ mem, x.memObj = some mem →
    mem.method.toNat < 256 ∧ mem.imsEntry = none ∧ mem.oldEntry = none

lemma Unseen.sane (h : Unseen cfg x) (n : ℕ) (hobj : e = w.entry → ∀ url reply, w.object url reply) :
    ∀ mem, x.memObj = some mem → MemSane w e n mem := by
  intro mem hmem
  obtain ⟨hmet, hims, hold⟩ := h.memObj mem hmem
  refine ⟨hmet, ?_, fun he => hobj he _ _⟩
  rintro i (hi | hi)
  · cases hims.symm.trans hi
  · cases hold.symm.trans hi

def createdEntry (flags : RequestFlags) (url : CString) (method : Method) (key : Key) (num : ℕ) (now : ℤ) :
    StoreEntry Key :=
  pendingEntry now (flaggedEntry flags (privately key num (newStoreEntry url method)))

lemma createdEntry_key : (createdEntry flags url method key num now).key = some key := by
  unfold createdEntry flaggedEntry
  split_ifs <;> rfl

lemma createdEntry_memObj : (createdEntry flags url method key num now).memObj = some { method, url, id := num } := by
  unfold createdEntry flaggedEntry
  split_ifs <;> rfl

variable [DecidableEq Key]

lemma storeCreateEntry_ends (hnone : NoKeyword cfg url) (hpriv : cfg.neighborsDoPrivateKeys ∨ ¬ flags.hierarchical) :
    Ends (fun _ => True) (fun r => r.1 = s.nextEntry ∧ ∃ num key now, 0 < num ∧
      newPrivateKey cfg (some { method, url }) num = .ok key ∧
      Adds (createdEntry flags url method key num now) s r.2) (storeCreateEntry cfg url flags method s) := by
  by_cases hok : url.bytes.length < maxLen ∧ ∃ ret, searchQuery cfg.acsmCap.keywords (query url) = .ok ret
  · obtain ⟨hlen, ret, hret⟩ := hok
    have hlow := hnone ret hret
    rw [storeCreateEntry_eq hlen hret, setFirstKey, if_neg (by omega), if_pos hpriv]
    refine (storeSetPrivateKey_ends (fun _ _ => trivial) allocated_self).bind ?_
    rintro t (⟨hk, -, -⟩ | ⟨num, key, hpos, hkey, ht, hmem⟩)
    · cases hk
    · -- the last assignments change the new entry only
      have hfin : finishCreate cfg flags s.nextEntry t =
          .ok (s.nextEntry, setEntry s.nextEntry (createdEntry flags url method key num t.curtime) t) := by
        unfold createdEntry flaggedEntry
        by_cases hc : flags.cachable
        · rw [finishCreate_cachable hc ht.self rfl, if_pos hc]
        · rw [finishCreate_private hc ht.self rfl Bool.false_ne_true Bool.false_ne_true ⟨rfl, rfl⟩, if_neg hc]
      rw [hfin]
      refine ⟨rfl, num, key, t.curtime, hpos, hkey, ?_, ht.table, hmem, ht.nextEntry, ht.requests⟩
      rw [setEntry_entries, ht.entries, update_idem]
      exact update_idem ..
  · obtain ⟨f, hf⟩ := storeCreateEntry_fault flags method s hok
    rw [hf]
    trivial

omit [DecidableEq Key] in
lemma unseen_createdEntry (hmd5 : Injective cfg.md5) (hm : method.toNat < 256)
    (hpos : 0 < num) (hkey : newPrivateKey cfg (some { method, url }) num = .ok key) :
    Unseen cfg (createdEntry flags url method key num now) := by
  refine ⟨?_, ?_⟩
  · intro k hk
    cases createdEntry_key.symm.trans hk
    refine newPrivateKey_not_public hmd5 hpos (fun mem hmem => ?_) hkey
    cases hmem
    exact hm
  · intro mem hmem
    cases createdEntry_memObj.symm.trans hmem
    exact ⟨hm, rfl, rfl⟩

section

variable (h : Guard cfg w A s) (hst : Adds x s t) (hx : Unseen cfg x)

include h hst

omit [DecidableEq Key] in
lemma Guard.fresh_adds : ∀ i, t.nextEntry ≤ i → t.entries i = none := by
  intro i hi
  rw [hst.nextEntry] at hi
  rw [hst.of_ne (by omega)]
  exact h.fresh i (by omega)

include hx

section

omit [DecidableEq Key]

lemma Guard.holders_adds : ∀ k i, IsPublicKey cfg k → i ∈ t.table → keyOf t i = some k → w.holders k i := by
  intro k i hpub hi hki
  obtain ⟨y, hy, hyk⟩ := keyOf_eq_some.mp hki
  by_cases hin : i = s.nextEntry
  · rw [hin, hst.self] at hy
    cases hy
    exact absurd hpub (hx.key k hyk)
  · rw [hst.of_ne hin] at hy
    exact h.holders k i hpub ((hst.table i hin).mp hi) (keyOf_eq_some.mpr ⟨y, hy, hyk⟩)

lemma Guard.adds : Guard cfg w A t := by
  obtain ⟨z, hz, hA⟩ := h.entry
  have hne : w.entry ≠ s.nextEntry := (h.lt_nextEntry hz).ne
  refine ⟨h.fresh_adds hst, ?_, h.holders_adds hst hx, ?_, (hst.table _ hne).mpr h.mem_table, z, ?_, hA⟩
  · intro i y mem hy hmem
    by_cases hin : i = s.nextEntry
    · rw [hin, hst.self] at hy
      cases hy
      exact hx.sane _ (fun heq => absurd (hin.symm.trans heq) hne.symm) mem hmem
    · rw [hst.of_ne hin] at hy
      have hsane := h.memObj i y mem hy hmem
      refine ⟨hsane.1, fun j hj => ⟨?_, (hsane.2.1 j hj).2⟩, hsane.2.2⟩
      rw [hst.nextEntry]
      exact Nat.lt_succ_of_lt (hsane.2.1 j hj).1
  · rw [hst.requests]
    exact h.request
  · rw [hst.of_ne hne, hz]

/-- The new entry is watched instead. Memory objects hold entries that existed before it. -/
theorem Guard.watchNew :
    Guard cfg { w with entry := s.nextEntry, object := fun _ _ => True, links := (· ≠ s.nextEntry) } (· = x) t := by
  refine ⟨h.fresh_adds hst, ?_, h.holders_adds hst hx, ?_, hst.mem_table, x, hst.self, rfl⟩
  · intro i y mem hy hmem
    by_cases hin : i = s.nextEntry
    · rw [hin, hst.self] at hy
      cases hy
      exact hx.sane _ (fun _ _ _ => trivial) mem hmem
    · rw [hst.of_ne hin] at hy
      have hsane := h.memObj i y mem hy hmem
      refine ⟨hsane.1, fun j hj => ⟨?_, (hsane.2.1 j hj).1.ne⟩, fun _ => trivial⟩
      rw [hst.nextEntry]
      exact Nat.lt_succ_of_lt (hsane.2.1 j hj).1
  · rw [hst.requests]
    exact h.request

end

end

/-! ## Publishing the copy -/

omit [DecidableEq Key] in
lemma Guard.withHolders {H : Key → ℕ → Prop} (h : Guard cfg w A s)
    (hH : ∀ k i, IsPublicKey cfg k → i ∈ s.table → keyOf s i = some k → H k i) :
    Guard cfg { w with holders := H } A s :=
  ⟨h.fresh, h.memObj, hH, h.request, h.mem_table, h.entry⟩

lemma Guard.evict (hmd5 : Injective cfg.md5) (hold : Guard cfg v (Present k .ok) s)
    (h : Guard cfg w A s) (hne : v.entry ≠ w.entry) (hself : ¬ w.links w.entry) (hpub : IsPublicKey cfg key)
    (hhol : ∀ i, w.holders key i → i = v.entry) :
    Ends (fun _ => True) (Guard cfg { w with holders := fun κ _ => κ ≠ key } A) (evict cfg key s) := by
  rw [Store.evict]
  cases hl : hashLookup key s with
  | none =>
    refine h.withHolders fun κ i _ hi hκ heq => ?_
    exact hashLookup_eq_none.mp hl i hi (heq ▸ hκ)
  | some j =>
    obtain ⟨hj, hkj⟩ := hashLookup_some hl
    obtain rfl : j = v.entry := hhol j (h.holders key j hpub hj hkj)
    obtain ⟨x, hx, hp⟩ := hold.entry
    refine (storeSetPrivateKey_ends (fun _ _ => trivial) hx).bind ?_
    rintro t (⟨-, hpriv, -⟩ | ⟨num, newkey, hpos, hnew, hst, -⟩)
    · exact absurd hpriv hp.keyPrivate
    · have ht := h.privately hmd5 hne hx hpos hnew hst
      have hnewk : keyOf t v.entry = some newkey := keyOf_of_entry hst.self
      have hfree : Guard cfg { w with holders := fun κ _ => κ ≠ key } A t := by
        refine ht.withHolders fun κ i hκpub hi hκ heq => ?_
        -- the only possible holder has a private key now
        rw [heq] at hκ hκpub
        rw [hhol i (ht.holders key i hκpub hi hκ), hnewk] at hκ
        cases hκ
        exact newPrivateKey_not_public hmd5 hpos (fun mem hmem => (h.memObj _ x mem hx hmem).1) hnew hpub
      exact Guard.storeRelease (w := { w with holders := fun κ _ => κ ≠ key }) hmd5 (Or.inr ⟨hself, hne⟩) hne
        t hfree

section

omit [DecidableEq Key]

lemma Guard.replaceKey (h : Guard cfg { w with holders := fun κ _ => κ ≠ key } (· = x) s) :
    Ends (fun _ => True) (Guard cfg { w with holders := fun κ i => κ = key → i = w.entry }
      (· = publicEntry key x)) (replaceKey w.entry key s) := by
  obtain ⟨y, hy, rfl⟩ := h.entry
  have hlt := h.lt_nextEntry hy
  refine (replaceKey_ends key hy).mono ?_
  intro t ⟨hst, hmem⟩
  have hof : ∀ {i : ℕ}, i ≠ w.entry → t.entries i = s.entries i := hst.of_ne
  refine ⟨?_, ?_, ?_, ?_, hmem, _, hst.self, rfl⟩
  · intro i hi
    rw [hst.nextEntry] at hi
    rw [hof (by rintro rfl; exact absurd hlt (Nat.not_lt.mpr hi))]
    exact h.fresh i hi
  · intro i z mem hz hzm
    rw [hst.nextEntry]
    by_cases hi : i = w.entry
    · rw [hi] at hz ⊢
      rw [hst.self] at hz
      cases hz
      exact h.memObj _ y mem hy hzm
    · rw [hof hi] at hz
      exact h.memObj i z mem hz hzm
  · intro κ i hpub hi hκ heq
    by_contra hne
    obtain ⟨z, hz, hzk⟩ := keyOf_eq_some.mp hκ
    rw [hof hne] at hz
    exact h.holders κ i hpub ((hst.table i hne).mp hi) (keyOf_eq_some.mpr ⟨z, hz, hzk⟩) heq
  · rw [hst.requests]
    exact h.request

lemma Guard.setRequest (h : Guard cfg w A s) : Guard cfg w A (setRequest w.request w.value s) :=
  ⟨h.fresh, h.memObj, h.holders, update_self .., h.mem_table, h.entry⟩

end

lemma Guard.storeSetPublicKey (hmd5 : Injective cfg.md5)
    (hold : Guard cfg v (Present k .ok) s) (h : Guard cfg w (· = x) s) (hne : v.entry ≠ w.entry)
    (hreq : v.request = w.request) (hval : v.value = w.value) (hself : ¬ w.links w.entry)
    (hhol : ∀ i, w.holders key i → i = v.entry) (hnovary : w.value.varyHeaders = none)
    (hkey : storeKeyPublicByRequest cfg.md5 cfg.acsmCap w.value = .ok key) (hp : x.flags.keyPrivate)
    {mem : MemObject} (hmem : x.memObj = some mem) (hmreq : mem.request = some w.request)
    (hmva : mem.varyHeaders = none) :
    Ends (fun _ => True) (Guard cfg { w with holders := fun κ i => κ = key → i = w.entry }
      (· = publicEntry key x)) (storeSetPublicKey cfg w.entry s) := by
  obtain ⟨y, hy, rfl⟩ := h.entry
  have hpubl : ∀ t : State Key, t.requests w.request = w.value → publicKeyOf cfg mem t = .ok key := by
    intro t ht
    rw [publicKeyOf, hmreq]
    show liftKey (storeKeyPublicByRequest _ _ (t.requests w.request)) = _
    rw [ht, hkey]
    rfl
  have hsync : syncVary cfg w.entry mem w.request s = .ok (Store.setRequest w.request w.value s, true) := by
    rw [syncVary, hmva, h.request]
    show Except.ok (Store.setRequest w.request { w.value with varyHeaders := none } s, true) = _
    rw [← hnovary]
  have hold' : Guard cfg v (Present k .ok) (Store.setRequest w.request w.value s) := by
    have hset := hold.setRequest
    rw [hreq, hval] at hset
    exact hset
  rw [Store.storeSetPublicKey, setPublicKeyWith, entryAt_eq hy, ok_bind, if_neg (fun hpub => hpub.2 hp),
    makePublic, entryAt_eq hy, ok_bind, hmem]
  apply ends_check (fun _ => trivial)
  intro _
  rw [hmreq]
  show Ends _ _ (syncVary cfg w.entry mem w.request s >>= _)
  rw [hsync]
  show Ends _ _ (publicKeyOf cfg mem _ >>= _)
  rw [hpubl _ (update_self ..)]
  refine ends_ite (fun hvary => by rw [hmva] at hvary; cases hvary.1) fun _ => ?_
  have hpub : IsPublicKey cfg key := isPublicKey_publicKeyOf (hpubl _ h.request)
  refine (Guard.evict hmd5 hold' h.setRequest hne hself hpub hhol).bind fun t ht => ?_
  rw [hpubl t ht.request]
  exact ht.replaceKey

end SquidVideoCache.Store
