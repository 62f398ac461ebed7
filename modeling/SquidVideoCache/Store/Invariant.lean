import SquidVideoCache.StoreKey.Preimage
import SquidVideoCache.Store.Create

/-!
# The keys in the table

`Inv` is the invariant of the hash table: the table has the entries with a key, each once, no two
keys are equal, private keys carry a number that has been given out and public keys are digests of
public bytes.
-/

namespace SquidVideoCache.Store
open Lib StoreKey List Function Option

variable {Key : Type} {cfg : Config Key} {s s' : State Key} {e : ℕ}
  {entry entry' : StoreEntry Key} {k : Key} {p : Prop} {bound num i : ℕ} {memObj : Option MemObject}

/-! ## Fields of changed states -/

@[simp] lemma setEntry_entries : (setEntry e entry s).entries = update s.entries e (some entry) := rfl

lemma setEntry_self : (setEntry e entry s).entries e = some entry := update_self ..

@[simp] lemma setEntry_table : (setEntry e entry s).table = s.table := rfl

@[simp] lemma setEntry_nextEntry : (setEntry e entry s).nextEntry = s.nextEntry := rfl

@[simp] lemma setEntry_keyCounter : (setEntry e entry s).keyCounter = s.keyCounter := rfl

lemma entryAt_eq (h : s.entries e = some entry) : entryAt e s = .ok entry := by
  rw [entryAt, h]

lemma entryAt_setEntry : entryAt e (setEntry e entry s) = .ok entry := entryAt_eq setEntry_self

lemma keyOf_eq_some : keyOf s e = some k ↔ ∃ entry, s.entries e = some entry ∧ entry.key = some k :=
  bind_eq_some_iff

lemma keyOf_of_entry (h : s.entries e = some entry) : keyOf s e = entry.key := by
  rw [keyOf, h, bind_some]

lemma check_pos [Decidable p] {f : StoreFault} (h : p) : check p f = .ok () := if_pos h

variable {α : Type} {E : StoreFault → Prop} {Q : α → Prop}

lemma ends_entryAt {f : StoreEntry Key → Result α} (hE : E .freed)
    (h : ∀ entry, s.entries e = some entry → Ends E Q (f entry)) : Ends E Q (entryAt e s >>= f) := by
  cases he : s.entries e with
  | none =>
    rw [entryAt, he]
    exact hE
  | some entry =>
    rw [entryAt_eq he]
    exact h entry he

lemma ends_check [Decidable p] {fault : StoreFault} {f : Unit → Result α} (hE : ¬ p → E fault)
    (h : p → Ends E Q (f ())) : Ends E Q (check p fault >>= f) := by
  by_cases hp : p
  · rw [check_pos hp]
    exact h hp
  · rw [check, if_neg hp]
    exact hE hp

lemma storeDirSwapLog_ends {op : SwapLogOp} (he : s.entries e = some entry) (hassert : E .swapLog) :
    Ends E (fun t => ∃ log, t = { s with swapLog := log }) (storeDirSwapLog e op s) := by
  rw [storeDirSwapLog, entryAt_eq he]
  apply ends_check (fun _ => hassert)
  intro _
  exact ends_ite (fun _ => ⟨s.swapLog, rfl⟩) fun _ => ⟨_, rfl⟩

lemma storeSetMemStatus_ends {status : MemStatus} (he : s.entries e = some entry) (hassert : E .assertion) :
    Ends E (fun t => ∃ status, t = setEntry e { entry with memStatus := status } s)
      (storeSetMemStatus e status s) := by
  have hsame : setEntry e { entry with memStatus := entry.memStatus } s = s := by
    rw [setEntry, ← he, update_eq_self]
  rw [storeSetMemStatus, entryAt_eq he]
  refine ends_ite (fun _ => ⟨entry.memStatus, hsame.symm⟩) fun _ => ?_
  apply ends_check (fun _ => hassert)
  intro _
  apply ends_check (fun _ => hassert)
  intro _
  exact ⟨status, rfl⟩

/-! ## The invariant -/

/-- The digest of private bytes with a number up to `bound`. -/
def IsPrivateKey (cfg : Config Key) (bound : ℕ) (k : Key) : Prop :=
  ∃ url, ∃ method : Method, ∃ num : ℕ, method.toNat < 256 ∧ 0 < num ∧ num ≤ bound ∧
    k = cfg.md5 (privatePreimage cfg.order url method num)

def IsPublicKey (cfg : Config Key) (k : Key) : Prop :=
  ∃ url method request, k = cfg.md5 (requestPreimage url method request)

/-- The `KEY_PRIVATE` bit tells the kind of the key; methods fit a byte. -/
structure Typed (cfg : Config Key) (bound : ℕ) (entry : StoreEntry Key) : Prop where
  isPrivate : entry.flags.keyPrivate → ∀ k, entry.key = some k → IsPrivateKey cfg bound k
  isPublic : ¬ entry.flags.keyPrivate → ∀ k, entry.key = some k → IsPublicKey cfg k
  method : ∀ mem, entry.memObj = some mem → mem.method.toNat < 256

structure Inv (cfg : Config Key) (s : State Key) : Prop where
  allocated : ∀ e, s.nextEntry ≤ e → s.entries e = none
  mem_table : ∀ e, e ∈ s.table ↔ (keyOf s e).isSome
  nodup : s.table.Nodup
  distinct : ∀ e e' k, keyOf s e = some k → keyOf s e' = some k → e = e'
  typed : ∀ e entry, s.entries e = some entry → Typed cfg s.keyCounter entry

def rekeyed (e : ℕ) (entry : StoreEntry Key) (s : State Key) : State Key :=
  { s with entries := update s.entries e (some entry), table := e :: s.table.erase e }

lemma rekeyed_self : (rekeyed e entry s).entries e = some entry := update_self ..

def removed (e : ℕ) (s : State Key) : State Key :=
  { s with entries := update s.entries e none, table := s.table.erase e }

lemma Typed.mono {bound' : ℕ} (h : Typed cfg bound entry) (hle : bound ≤ bound') : Typed cfg bound' entry := by
  refine ⟨?_, h.isPublic, h.method⟩
  intro hp k hk
  obtain ⟨url, method, num, hm, hpos, hnum, rfl⟩ := h.isPrivate hp k hk
  exact ⟨url, method, num, hm, hpos, hnum.trans hle, rfl⟩

lemma Typed.same (h : Typed cfg bound entry) (hk : entry'.key = entry.key)
    (hp : entry'.flags.keyPrivate = entry.flags.keyPrivate)
    (hm : ∀ mem, entry'.memObj = some mem → mem.method.toNat < 256) : Typed cfg bound entry' := by
  refine ⟨?_, ?_, hm⟩
  · rw [hk, hp]
    exact h.isPrivate
  · rw [hk, hp]
    exact h.isPublic

namespace Inv

lemma lt_nextEntry (h : Inv cfg s) (he : s.entries e = some entry) : e < s.nextEntry := by
  by_contra hge
  rw [h.allocated e (by omega)] at he
  cases he

lemma congr (h : Inv cfg s) (hent : s'.entries = s.entries) (hnext : s'.nextEntry = s.nextEntry)
    (htab : s'.table = s.table) (hcou : s'.keyCounter = s.keyCounter) : Inv cfg s' := by
  have hkey : keyOf s' = keyOf s := by
    funext i
    rw [keyOf, keyOf, hent]
  refine ⟨?_, ?_, ?_, ?_, ?_⟩
  · rw [hent, hnext]
    exact h.allocated
  · rw [htab, hkey]
    exact h.mem_table
  · rw [htab]
    exact h.nodup
  · rw [hkey]
    exact h.distinct
  · rw [hent, hcou]
    exact h.typed

lemma initial (hent : s.entries = fun _ => none) (htab : s.table = []) : Inv cfg s := by
  have hkey : ∀ e, keyOf s e = none := fun e => by rw [keyOf, hent, bind_none]
  refine ⟨fun e _ => by rw [hent], ?_, ?_, ?_, ?_⟩
  · intro e
    simp [htab, hkey]
  · rw [htab]
    exact nodup_nil
  · intro e e' k hk
    rw [hkey] at hk
    cases hk
  · intro e entry he
    rw [hent] at he
    cases he

lemma update (h : Inv cfg s) {x : Option (StoreEntry Key)}
    (hent : s'.entries = update s.entries e x) (hnext : s.nextEntry ≤ s'.nextEntry)
    (hlt : x.isSome → e < s'.nextEntry) (hcou : s.keyCounter ≤ s'.keyCounter)
    (hself : e ∈ s'.table ↔ (x.bind StoreEntry.key).isSome)
    (hoth : ∀ i, i ≠ e → (i ∈ s'.table ↔ i ∈ s.table)) (hnod : s'.table.Nodup)
    (hfree : ∀ k, x.bind StoreEntry.key = some k → ∀ i, i ≠ e → keyOf s i ≠ some k)
    (ht : ∀ entry, x = some entry → Typed cfg s'.keyCounter entry) : Inv cfg s' := by
  have hkeys : keyOf s' e = x.bind StoreEntry.key := by
    rw [keyOf, hent, update_self]
  have hkey : ∀ i, i ≠ e → keyOf s' i = keyOf s i := by
    intro i hi
    rw [keyOf, hent, update_of_ne hi, keyOf]
  refine ⟨?_, ?_, hnod, ?_, ?_⟩
  · intro i hi
    by_cases hie : i = e
    · rw [hent, hie, update_self]
      by_contra hne
      exact absurd (hlt (isSome_iff_ne_none.mpr hne)) (by omega)
    · rw [hent, update_of_ne hie]
      exact h.allocated i (by omega)
  · intro i
    by_cases hie : i = e
    · rw [hie, hkeys]
      exact hself
    · rw [hkey i hie, hoth i hie]
      exact h.mem_table i
  · intro i j k hi hj
    by_cases hie : i = e
    · by_cases hje : j = e
      · rw [hie, hje]
      · rw [hie, hkeys] at hi
        rw [hkey j hje] at hj
        exact absurd hj (hfree k hi j hje)
    · rw [hkey i hie] at hi
      by_cases hje : j = e
      · rw [hje, hkeys] at hj
        exact absurd hi (hfree k hj i hie)
      · rw [hkey j hje] at hj
        exact h.distinct i j k hi hj
  · intro i y hy
    by_cases hie : i = e
    · rw [hent, hie, update_self] at hy
      exact ht y hy
    · rw [hent, update_of_ne hie] at hy
      exact (h.typed i y hy).mono hcou

variable {k : Key}

lemma single {x : StoreEntry Key} (hent : s.entries = Function.update (fun _ => none) 0 (some x))
    (hnext : s.nextEntry = 1) (htab : s.table = [0]) (hk : x.key = some k) (hpub : IsPublicKey cfg k)
    (hp : ¬ x.flags.keyPrivate) (hm : ∀ mem, x.memObj = some mem → mem.method.toNat < 256) : Inv cfg s := by
  have hemp : Inv cfg { s with entries := fun _ => none, table := [], nextEntry := 0 } := .initial rfl rfl
  refine hemp.update hent (Nat.zero_le _) (fun _ => by omega) le_rfl ?_ ?_ ?_ ?_ ?_
  · rw [htab]
    simp [hk]
  · intro i hi
    rw [htab]
    simpa using hi
  · rw [htab]
    exact nodup_singleton 0
  · intro k _ i _ hk
    cases hk
  · intro entry hentr
    cases hentr
    refine ⟨fun hpriv => absurd hpriv hp, fun _ k' hk' => ?_, hm⟩
    cases hk.symm.trans hk'
    exact hpub

section

variable (h : Inv cfg s) (he : s.entries e = some entry)

include h he

lemma free_of_key (hk : entry.key = some k) : ∀ i, i ≠ e → keyOf s i ≠ some k := by
  intro i hi hik
  exact hi (h.distinct i e k hik (by rw [keyOf_of_entry he, hk]))

lemma setEntry
    (ht : Typed cfg s.keyCounter entry') (hk : entry'.key = entry.key) : Inv cfg (setEntry e entry' s) := by
  refine h.update rfl le_rfl (fun _ => h.lt_nextEntry he) le_rfl ?_
    (fun i _ => Iff.rfl) h.nodup ?_ (fun x hx => by cases hx; exact ht)
  · rw [setEntry_table, h.mem_table e, keyOf_of_entry he, bind_some, hk]
  · intro k hk'
    exact h.free_of_key he (hk.symm.trans hk')

lemma rekey {n : ℕ}
    (hk : entry'.key = some k) (hfree : ∀ i, i ≠ e → keyOf s i ≠ some k) (hn : s.keyCounter ≤ n)
    (ht : Typed cfg n entry') : Inv cfg { rekeyed e entry' s with keyCounter := n } := by
  refine h.update rfl le_rfl (fun _ => h.lt_nextEntry he) hn ?_ ?_ ?_ ?_
    (fun x hx => by cases hx; exact ht)
  · simp [rekeyed, hk]
  · intro i hi
    simp [rekeyed, hi]
  · exact nodup_cons.mpr ⟨h.nodup.not_mem_erase, h.nodup.erase e⟩
  · intro k' hk'
    cases hk.symm.trans hk'
    exact hfree

end

lemma remove (h : Inv cfg s) (e : ℕ) : Inv cfg (removed e s) := by
  refine h.update rfl le_rfl (fun hx => by cases hx) le_rfl ?_ ?_ (h.nodup.erase e)
    (fun k hk => by cases hk) (fun x hx => by cases hx)
  · simp [removed, h.nodup.not_mem_erase]
  · intro i hi
    simp [removed, mem_erase_of_ne hi]

lemma allocate (h : Inv cfg s) (hk : entry.key = none) (ht : Typed cfg s.keyCounter entry) :
    Inv cfg { Store.setEntry s.nextEntry entry s with nextEntry := s.nextEntry + 1 } := by
  have hnone : keyOf s s.nextEntry = none := by
    rw [keyOf, h.allocated _ le_rfl, bind_none]
  refine h.update rfl (Nat.le_succ _) (fun _ => Nat.lt_succ_self _) le_rfl ?_
    (fun i _ => Iff.rfl) h.nodup ?_ (fun x hx => by cases hx; exact ht)
  · rw [bind_some, hk, ← hnone]
    exact h.mem_table _
  · intro k hk'
    cases hk.symm.trans hk'

end Inv

/-! ## Lookup -/

variable [DecidableEq Key]

lemma hashLookup_eq_none : hashLookup k s = none ↔ ∀ e ∈ s.table, keyOf s e ≠ some k := by
  simp [hashLookup]

lemma hashLookup_some (h : hashLookup k s = some e) : e ∈ s.table ∧ keyOf s e = some k := by
  refine ⟨mem_of_find?_eq_some h, ?_⟩
  simpa using find?_some h

lemma Inv.hashLookup_eq_none (h : Inv cfg s) : hashLookup k s = none ↔ ∀ i, keyOf s i ≠ some k := by
  rw [Store.hashLookup_eq_none]
  refine ⟨?_, fun hall i _ => hall i⟩
  intro hall i hk
  exact hall i ((h.mem_table i).mpr (by rw [hk]; rfl)) hk

/-! ## A new private key -/

def privateKey (cfg : Config Key) (memObj : Option MemObject) (num : ℕ) : Key :=
  match memObj with
  | some mem => cfg.md5 (privatePreimage cfg.order mem.url mem.method num)
  | none => cfg.md5 (privatePreimage cfg.order junk methodNone num)

def privateEntry (cfg : Config Key) (num : ℕ) (entry : StoreEntry Key) : StoreEntry Key := { entry with
    key := some (privateKey cfg entry.memObj num)
    memObj := entry.memObj.map fun mem => { mem with id := num }
    flags := { entry.flags with keyPrivate := true } }

section

omit [DecidableEq Key]

lemma storeKeyPrivate_natCast {url : CString} {method : Method} (h : 0 < num) :
    storeKeyPrivate cfg.md5 cfg.order url method num = .ok (cfg.md5 (privatePreimage cfg.order url method num)) := by
  rw [storeKeyPrivate, cAssert_pos (by omega), ok_bind]
  rfl

lemma newPrivateKey_eq (memObj : Option MemObject) (h : 0 < num) :
    newPrivateKey cfg memObj num = .ok (privateKey cfg memObj num) := by
  cases memObj with
  | none => rw [newPrivateKey, storeKeyPrivate_natCast h, liftKey, privateKey]
  | some mem => rw [newPrivateKey, storeKeyPrivate_natCast h, liftKey, privateKey]

lemma isPrivateKey_privateKey (h : 0 < num) (hm : ∀ mem, memObj = some mem → mem.method.toNat < 256) :
    IsPrivateKey cfg num (privateKey cfg memObj num) := by
  cases memObj with
  | none => exact ⟨junk, methodNone, num, by decide, h, le_rfl, rfl⟩
  | some mem => exact ⟨mem.url, mem.method, num, hm mem rfl, h, le_rfl, rfl⟩

lemma IsPublicKey.not_isPrivateKey (hmd5 : Function.Injective cfg.md5)
    (h : IsPublicKey cfg k) : ¬ IsPrivateKey cfg bound k := by
  obtain ⟨url, method, request, rfl⟩ := h
  intro ⟨url', method', num, hm, _, _, heq⟩
  exact requestPreimage_ne_privatePreimage _ url url' method hm num _ (hmd5 heq)

lemma Typed.isPublicKey_iff (h : Typed cfg bound entry)
    (hmd5 : Function.Injective cfg.md5) (hk : entry.key = some k) : IsPublicKey cfg k ↔ ¬ entry.flags.keyPrivate := by
  refine ⟨fun hpub hp => ?_, fun hp => h.isPublic hp k hk⟩
  exact hpub.not_isPrivateKey hmd5 (h.isPrivate hp k hk)

/-- The next number has not been used, and no public key is the digest of private bytes. -/
theorem Inv.privateKey_fresh (h : Inv cfg s) (hmd5 : Function.Injective cfg.md5) (hcou : s.keyCounter + 1 < 2 ^ 31)
    (hm : ∀ mem, memObj = some mem → mem.method.toNat < 256) :
    ∀ i, keyOf s i ≠ some (privateKey cfg memObj (s.keyCounter + 1)) := by
  intro i hi
  obtain ⟨x, hx, hk⟩ := keyOf_eq_some.mp hi
  have ht := h.typed i x hx
  have hnew : IsPrivateKey cfg (s.keyCounter + 1) (privateKey cfg memObj (s.keyCounter + 1)) :=
    isPrivateKey_privateKey (Nat.succ_pos _) hm
  by_cases hp : x.flags.keyPrivate
  · obtain ⟨url, method, num, -, hpos, hle, heq⟩ := ht.isPrivate hp _ hk
    have hnum : ∀ url' method', privatePreimage cfg.order url' method' ((s.keyCounter + 1 : ℕ) : ℤ) ≠
        privatePreimage cfg.order url method num := by
      intro url' method' hpre
      have := (privatePreimage_inj (by omega) (by omega) hpre).1
      omega
    cases memObj with
    | none => exact hnum _ _ (hmd5 heq)
    | some mem => exact hnum _ _ (hmd5 heq)
  · exact (ht.isPublic hp _ hk).not_isPrivateKey hmd5 hnew

end

/-! ## storeSetPrivateKey -/

def deleteRecord (entry : StoreEntry Key) : List (SwapLogOp × Option Key × ℤ) :=
  if entry.key.isSome ∧ -1 < entry.swapFilen ∧ ¬ entry.flags.entrySpecial
  then [(.del, entry.key, entry.swapFilen)] else []

def privateState (cfg : Config Key) (e : ℕ) (entry : StoreEntry Key) (s : State Key) : State Key :=
  { rekeyed e (privateEntry cfg (s.keyCounter + 1) entry) s with
    keyCounter := s.keyCounter + 1
    swapLog := s.swapLog ++ deleteRecord entry }

omit [DecidableEq Key] in
lemma privateState_self : (privateState cfg e entry s).entries e = some (privateEntry cfg (s.keyCounter + 1) entry) :=
  update_self ..

section

variable (he : s.entries e = some entry)

include he

omit [DecidableEq Key] in
lemma entries_erase_key (hk : entry.key = none) :
    update s.entries e (some { entry with key := none }) = s.entries := by
  rw [← hk, ← he]
  exact update_eq_self e s.entries

def dropped (e : ℕ) (entry : StoreEntry Key) (s : State Key) : State Key := { s with
    entries := update s.entries e (some { entry with key := none })
    table := s.table.erase e
    swapLog := s.swapLog ++ deleteRecord entry }

section

omit [DecidableEq Key]

lemma logDelete_eq (hk : entry.key.isSome) (hp : ¬ entry.flags.keyPrivate) (hf : -1 < entry.swapFilen) :
    storeDirSwapLog e .del s = .ok { s with swapLog := s.swapLog ++ deleteRecord entry } := by
  unfold storeDirSwapLog deleteRecord
  rw [entryAt_eq he, ok_bind, check_pos ⟨hp, by omega⟩, ok_bind]
  by_cases hs : entry.flags.entrySpecial
  · simp [hs]
  · simp [hs, hk, hf]

lemma storeHashInsert_eq (k : Key) :
    storeHashInsert e k s = .ok { setEntry e { entry with key := some k } s with table := e :: s.table } := by
  rw [storeHashInsert, entryAt_eq he, ok_bind]
  rfl

lemma storeHashDelete_eq (hk : entry.key.isSome) (ht : e ∈ s.table) :
    storeHashDelete e s = .ok { setEntry e { entry with key := none } s with table := s.table.erase e } := by
  rw [storeHashDelete, entryAt_eq he, ok_bind, check_pos ⟨hk, ht⟩, ok_bind]
  rfl

end

end

section

omit [DecidableEq Key]

lemma Inv.dropKey_eq (h : Inv cfg s) (he : s.entries e = some entry)
    (hp : entry.key.isSome → ¬ entry.flags.keyPrivate) : dropKey e s = .ok (dropped e entry s) := by
  have hmem := h.mem_table e
  rw [keyOf_of_entry he] at hmem
  unfold dropKey
  rw [entryAt_eq he, ok_bind]
  by_cases hk : entry.key.isSome
  · rw [if_pos hk]
    by_cases hf : -1 < entry.swapFilen
    · rw [if_pos hf, logDelete_eq he hk (hp hk) hf, ok_bind]
      exact storeHashDelete_eq (show _ = some entry from he) hk (hmem.mpr hk)
    · rw [if_neg hf, ok_bind, dropped, deleteRecord, if_neg (fun hc => hf hc.2.1), append_nil]
      exact storeHashDelete_eq he hk (hmem.mpr hk)
  · have hnone : entry.key = none := not_isSome_iff_eq_none.mp hk
    have hnot : e ∉ s.table := fun hc => hk (hmem.mp hc)
    rw [if_neg hk, dropped, entries_erase_key he hnone, erase_of_not_mem hnot, deleteRecord,
      if_neg (fun hc => hk hc.1), append_nil]
    rfl

lemma keyOf_of_keyOf_dropped (hk : keyOf (dropped e entry s) i = some k) : keyOf s i = some k := by
  obtain ⟨x, hx, hxk⟩ := keyOf_eq_some.mp hk
  have hx' : update s.entries e (some { entry with key := none }) i = some x := hx
  by_cases hi : i = e
  · rw [hi, update_self] at hx'
    cases hx'
    cases hxk
  · rw [update_of_ne hi] at hx'
    exact keyOf_eq_some.mpr ⟨x, hx', hxk⟩

end

lemma storeSetPrivateKey_of_private (he : s.entries e = some entry)
    (hp : entry.key.isSome ∧ entry.flags.keyPrivate) : storeSetPrivateKey cfg e s = .ok s := by
  unfold storeSetPrivateKey
  rw [entryAt_eq he]
  exact if_pos hp

lemma Inv.storeSetPrivateKey_eq (h : Inv cfg s) (hmd5 : Function.Injective cfg.md5)
    (he : s.entries e = some entry) (hp : ¬ (entry.key.isSome ∧ entry.flags.keyPrivate)) : storeSetPrivateKey cfg e s =
      if s.keyCounter + 1 < 2 ^ 31 then .ok (privateState cfg e entry s) else .error .overflow := by
  unfold storeSetPrivateKey
  rw [entryAt_eq he, ok_bind, if_neg hp, h.dropKey_eq he (fun hk hpriv => hp ⟨hk, hpriv⟩), ok_bind,
    getKeyCounter]
  by_cases hcou : s.keyCounter + 1 < 2 ^ 31
  · have hfre := h.privateKey_fresh hmd5 hcou (h.typed e entry he).method
    have hnone : hashLookup (privateKey cfg entry.memObj (s.keyCounter + 1)) (dropped e entry s) = none :=
      Store.hashLookup_eq_none.mpr fun i _ hk => hfre i (keyOf_of_keyOf_dropped hk)
    rw [if_pos hcou, check_pos (show (dropped e entry s).keyCounter + 1 < 2 ^ 31 from hcou), ok_bind,
      pure_eq_ok, ok_bind, newPrivateKey_eq _ (Nat.succ_pos _)]
    show (check (hashLookup (privateKey cfg entry.memObj (s.keyCounter + 1)) _ = none) _ >>= _) = _
    rw [check_pos hnone, ok_bind, storeHashInsert_eq (update_self ..)]
    simp [Store.privateState, rekeyed, privateEntry, Store.setEntry, dropped]
  · rw [if_neg hcou, check, if_neg (show ¬ (dropped e entry s).keyCounter + 1 < 2 ^ 31 from hcou)]
    rfl

section

omit [DecidableEq Key]

lemma Typed.privateEntry (h : Typed cfg bound entry) (hnum : 0 < num) :
    Typed cfg num (privateEntry cfg num entry) := by
  refine ⟨?_, fun hp => absurd rfl hp, ?_⟩
  · intro _ k hk
    cases hk
    exact isPrivateKey_privateKey hnum h.method
  · intro mem hmem
    obtain ⟨mem', hmem', rfl⟩ := map_eq_some_iff.mp hmem
    exact h.method mem' hmem'

lemma Inv.privateState (h : Inv cfg s) (hmd5 : Function.Injective cfg.md5)
    (he : s.entries e = some entry) (hcou : s.keyCounter + 1 < 2 ^ 31) : Inv cfg (privateState cfg e entry s) := by
  have ht := h.typed e entry he
  have hfre := h.privateKey_fresh hmd5 hcou ht.method
  exact (h.rekey he rfl (fun i _ => hfre i) (Nat.le_succ _)
    (ht.privateEntry (Nat.succ_pos _))).congr rfl rfl rfl rfl

end

lemma Inv.public_of_hashLookup (h : Inv cfg s) (hmd5 : Function.Injective cfg.md5) {key : Key}
    (hkey : IsPublicKey cfg key) (hl : hashLookup key s = some i) :
    ∃ x, s.entries i = some x ∧ x.key = some key ∧ ¬ x.flags.keyPrivate := by
  obtain ⟨x, hx, hk⟩ := keyOf_eq_some.mp (hashLookup_some hl).2
  exact ⟨x, hx, hk, ((h.typed i x hx).isPublicKey_iff hmd5 hk).mp hkey⟩

end SquidVideoCache.Store
