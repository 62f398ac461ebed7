import SquidVideoCache.Store.OneEntry
import SquidVideoCache.Store.Publish

/-!
# The swap log and the store

The last record of a key in the swap log tells what a restart makes of the key. `Logged` relates
these records to the entries: a key whose last record is an ADD is the key of a public entry that
has a file, and a public entry on disk has such a record with its file number. A release writes its
DEL before the entry is freed, and other entries may be released in between.
-/

namespace SquidVideoCache.Store
open Lib StoreKey VideoReg Function Set

variable {Key : Type} {cfg : Config Key} {s t u : State Key} {e : ℕ} {x y : StoreEntry Key}

/-! ## The last record of a key -/

/-- The file number of the last record of the key, if that record is an ADD. -/
def lastAdd [DecidableEq Key] (log : List (SwapLogOp × Option Key × ℤ)) (k : Key) : Option ℤ :=
  log.foldl (fun last (op, key, filen) => if key = some k then if op = .add then some filen else none else last)
    none

section

variable [DecidableEq Key] {log : List (SwapLogOp × Option Key × ℤ)} {k : Key}

lemma lastAdd_append {c : Prop} [Decidable c] (op : SwapLogOp) (key : Option Key) (filen : ℤ) :
    lastAdd (log ++ if c then [(op, key, filen)] else []) k =
      if c ∧ key = some k then if op = .add then some filen else none else lastAdd log k := by
  by_cases hc : c
  · simp [lastAdd, hc]
  · simp [hc]

end

/-- A public entry that the log is about: special entries are not written to it. -/
structure Listed (x : StoreEntry Key) (k : Key) : Prop where
  key : x.key = some k
  isPublic : ¬ x.flags.keyPrivate
  notSpecial : ¬ x.flags.entrySpecial

/-- The keys whose last record is an ADD are those of the public entries on disk. -/
def InStep [DecidableEq Key] (s : State Key) : Prop := ∀ k n, lastAdd s.swapLog k = some n ↔
    ∃ e x, s.entries e = some x ∧ Listed x k ∧ x.swapStatus = .done ∧ x.swapFilen = n

/-! ## The invariant -/

/-- An entry has a file number while it has a file; a negatively cached one is not being written. -/
structure Filed (x : StoreEntry Key) : Prop where
  none : x.swapStatus = .none → x.swapFilen = -1
  some : x.swapStatus ≠ .none → 0 ≤ x.swapFilen
  writing : x.swapStatus = .writing → ¬ x.flags.entryNegcached

/-- A requirement on single entries that no change of a key to a private one affects. -/
structure Stable (cfg : Config Key) (A : ℕ → StoreEntry Key → Prop) : Prop where
  same : ∀ {i x y}, A i x → SameFile x y → A i y
  makePrivate : ∀ {i x bound num}, A i x → Typed cfg bound x → 0 < num → A i (privateEntry cfg num x)

/-- The log and the entries agree, except for the entries in `Y`, which are about to go. `A` is required
of every entry and `R` are the requests. -/
structure Logged [DecidableEq Key] (cfg : Config Key) (A : ℕ → StoreEntry Key → Prop) (R : ℕ → Request)
    (Y : Set ℕ) (s : State Key) : Prop where
  inv : Inv cfg s
  settled : s.storeDirsRebuilding = false
  filed : ∀ i x, s.entries i = some x → Filed x
  entry : ∀ i x, s.entries i = some x → A i x
  requests : s.requests = R
  published : ∀ k n, lastAdd s.swapLog k = some n →
    ∃ i x, i ∉ Y ∧ s.entries i = some x ∧ Listed x k ∧ x.swapStatus ≠ .none
  recorded : ∀ i x k, i ∉ Y → s.entries i = some x → Listed x k → x.swapStatus = .done →
    lastAdd s.swapLog k = some x.swapFilen

/-- The faults of the other assertions. -/
def NoLogFault : StoreFault → Prop
  | .swapLog => False
  | _ => True

lemma Filed.sameFile (h : Filed x) (hxy : SameFile x y) : Filed y := by
  refine ⟨?_, ?_, ?_⟩
  · rw [hxy.swapStatus, hxy.swapFilen]
    exact h.none
  · rw [hxy.swapStatus, hxy.swapFilen]
    exact h.some
  · rw [hxy.swapStatus, hxy.entryNegcached]
    exact h.writing

lemma Filed.file_lt (h : Filed x) (hs : x.swapStatus ≠ .none) : -1 < x.swapFilen := by
  have := h.some hs
  omega

lemma Filed.ne_none (h : Filed x) (hf : -1 < x.swapFilen) : x.swapStatus ≠ .none := by
  intro hs
  have := h.none hs
  omega

lemma Stable.and {A B : ℕ → StoreEntry Key → Prop} (hA : Stable cfg A) (hB : Stable cfg B) :
    Stable cfg fun i x => A i x ∧ B i x :=
  ⟨fun h hxy => ⟨hA.same h.1 hxy, hB.same h.2 hxy⟩,
    fun h ht hn => ⟨hA.makePrivate h.1 ht hn, hB.makePrivate h.2 ht hn⟩⟩

lemma stable_true : Stable cfg fun _ _ => True := ⟨fun _ _ => trivial, fun _ _ _ => trivial⟩

lemma storeDirSwapLog_eq (op : SwapLogOp) (he : s.entries e = some x) (hp : ¬ x.flags.keyPrivate)
    (hf : -1 < x.swapFilen) : storeDirSwapLog e op s =
      .ok { s with swapLog := s.swapLog ++ if ¬ x.flags.entrySpecial then [(op, x.key, x.swapFilen)] else [] } := by
  rw [storeDirSwapLog, entryAt_eq he, ok_bind, check_pos ⟨hp, by omega⟩]
  by_cases hsp : x.flags.entrySpecial <;> simp [hsp]

lemma storeDirSwapLog_ite {c : Prop} [Decidable c] (op : SwapLogOp) (he : s.entries e = some x)
    (hc : c → ¬ x.flags.keyPrivate ∧ -1 < x.swapFilen) : (if c then storeDirSwapLog e op s else .ok s) =
      .ok { s with swapLog := s.swapLog ++ if c ∧ ¬ x.flags.entrySpecial then [(op, x.key, x.swapFilen)] else [] } := by
  by_cases h : c
  · rw [if_pos h, storeDirSwapLog_eq op he (hc h).1 (hc h).2]
    simp [h]
  · simp [h]

variable [DecidableEq Key] {A B : ℕ → StoreEntry Key → Prop} {R : ℕ → Request} {Y : Set ℕ}

namespace Logged

lemma inStep (h : Logged cfg A R ∅ s) (hquiet : ∀ e x, s.entries e = some x → x.swapStatus ≠ .writing) :
    InStep s := by
  intro k n
  constructor
  · intro hlast
    obtain ⟨i, x, -, hx, hlis, hs⟩ := h.published k n hlast
    have hdone : x.swapStatus = .done := by
      cases hst : x.swapStatus with
      | none => exact absurd hst hs
      | writing => exact absurd hst (hquiet i x hx)
      | done => rfl
    have hrec := h.recorded i x k (notMem_empty i) hx hlis hdone
    exact ⟨i, x, hx, hlis, hdone, Option.some.inj (hrec.symm.trans hlast)⟩
  · rintro ⟨i, x, hx, hlis, hdone, rfl⟩
    exact h.recorded i x k (notMem_empty i) hx hlis hdone

section

variable (h : Logged cfg A R Y s)

include h

lemma congr (hent : t.entries = s.entries) (hnext : t.nextEntry = s.nextEntry)
    (htab : t.table = s.table) (hcou : t.keyCounter = s.keyCounter) (hlog : t.swapLog = s.swapLog)
    (hreq : t.requests = s.requests) (hreb : t.storeDirsRebuilding = s.storeDirsRebuilding) : Logged cfg A R Y t := by
  refine ⟨h.inv.congr hent hnext htab hcou, hreb.trans h.settled, ?_, ?_, hreq.trans h.requests, ?_, ?_⟩
  · rw [hent]
    exact h.filed
  · rw [hent]
    exact h.entry
  · rw [hent, hlog]
    exact h.published
  · rw [hent, hlog]
    exact h.recorded

lemma imp (hB : ∀ i x, s.entries i = some x → A i x → B i x) : Logged cfg B R Y s :=
  ⟨h.inv, h.settled, h.filed, fun i x hx => hB i x hx (h.entry i x hx), h.requests, h.published, h.recorded⟩

/-- Entry `e` becomes `z` and the log grows. A key whose last record is an ADD afterwards had it before
and was not that of `e`, or it is that of `e` now. -/
theorem step {z : Option (StoreEntry Key)} {Y' : Set ℕ} (he : s.entries e = some x)
    (hinv : Inv cfg t) (hent : t.entries = update s.entries e z) (hreq : t.requests = s.requests)
    (hreb : t.storeDirsRebuilding = s.storeDirsRebuilding)
    (hY : ∀ i, i ≠ e → (i ∈ Y' ↔ i ∈ Y)) (hz : ∀ y, z = some y → Filed y ∧ A e y)
    (hoth : ∀ i k, i ≠ e → keyOf s i = some k → lastAdd t.swapLog k = lastAdd s.swapLog k)
    (hpub : ∀ k n, lastAdd t.swapLog k = some n →
      (lastAdd s.swapLog k = some n ∧ (Listed x k → x.swapStatus ≠ .none → e ∈ Y)) ∨
        (e ∉ Y' ∧ ∃ y, z = some y ∧ Listed y k ∧ y.swapStatus ≠ .none))
    (hrec : ∀ y k, z = some y → e ∉ Y' → Listed y k → y.swapStatus = .done →
      lastAdd t.swapLog k = some y.swapFilen) : Logged cfg A R Y' t := by
  have hself : t.entries e = z := by rw [hent, update_self]
  have hne : ∀ i, i ≠ e → t.entries i = s.entries i := fun i hi => by rw [hent, update_of_ne hi]
  have hentr : ∀ i y, t.entries i = some y → Filed y ∧ A i y := by
    intro i y hy
    by_cases hi : i = e
    · rw [hi] at hy ⊢
      exact hz y (hself.symm.trans hy)
    · rw [hne i hi] at hy
      exact ⟨h.filed i y hy, h.entry i y hy⟩
  refine ⟨hinv, hreb.trans h.settled, fun i y hy => (hentr i y hy).1, fun i y hy => (hentr i y hy).2,
    hreq.trans h.requests, ?_, ?_⟩
  · intro k n hlast
    rcases hpub k n hlast with ⟨hold, hnot⟩ | ⟨heY, y, hy, hlis, hs⟩
    · obtain ⟨i, w, hiY, hw, hlis, hs⟩ := h.published k n hold
      have hi : i ≠ e := by
        rintro rfl
        cases he.symm.trans hw
        exact hiY (hnot hlis hs)
      exact ⟨i, w, fun hmem => hiY ((hY i hi).mp hmem), (hne i hi).trans hw, hlis, hs⟩
    · exact ⟨e, y, heY, hself.trans hy, hlis, hs⟩
  · intro i y k hiY hy hlis hdone
    by_cases hi : i = e
    · rw [hi] at hiY hy
      exact hrec y k (hself.symm.trans hy) hiY hlis hdone
    · rw [hne i hi] at hy
      rw [hoth i k hi (keyOf_eq_some.mpr ⟨y, hy, hlis.key⟩)]
      exact h.recorded i y k (fun hmem => hiY ((hY i hi).mpr hmem)) hy hlis hdone

/-- The entry changes and keeps its key. If its key is listed, the entry has a file afterwards or there
is no record, and an entry that is on disk afterwards has its record. -/
theorem put (he : s.entries e = some x) (hk : y.key = x.key)
    (hp : y.flags.keyPrivate = x.flags.keyPrivate) (hsp : y.flags.entrySpecial = x.flags.entrySpecial)
    (hm : ∀ mem, y.memObj = some mem → mem.method.toNat < 256) (hy : Filed y ∧ A e y)
    (hpub : ∀ k n, e ∉ Y → lastAdd s.swapLog k = some n → Listed x k → y.swapStatus ≠ .none)
    (hrec : ∀ k, e ∉ Y → Listed x k → y.swapStatus = .done → lastAdd s.swapLog k = some y.swapFilen) :
    Logged cfg A R Y (setEntry e y s) := by
  have ht := (h.inv.typed e x he).same hk hp hm
  have hlis : ∀ k, Listed y k ↔ Listed x k := by
    intro k
    refine ⟨fun hl => ?_, fun hl => ?_⟩
    · exact ⟨hk ▸ hl.key, hp ▸ hl.isPublic, hsp ▸ hl.notSpecial⟩
    · exact ⟨hk ▸ hl.key, hp ▸ hl.isPublic, hsp ▸ hl.notSpecial⟩
  refine h.step he (h.inv.setEntry he ht hk) rfl rfl rfl (fun _ _ => Iff.rfl) ?_ (fun _ _ _ _ => rfl) ?_ ?_
  · rintro z ⟨⟩
    exact hy
  · intro k n hlast
    by_cases hl : e ∉ Y ∧ Listed x k
    · exact Or.inr ⟨hl.1, y, rfl, (hlis k).mpr hl.2, hpub k n hl.1 hlast hl.2⟩
    · refine Or.inl ⟨hlast, fun hlx _ => ?_⟩
      by_contra heY
      exact hl ⟨heY, hlx⟩
  · rintro z k ⟨⟩ heY hl hdone
    exact hrec k heY ((hlis k).mp hl) hdone

lemma writeMem (hA : Stable cfg A) (he : s.entries e = some x) (hxy : SameFile x y)
    (hm : ∀ mem, y.memObj = some mem → mem.method.toNat < 256) : Logged cfg A R Y (setEntry e y s) := by
  refine h.put he hxy.key hxy.keyPrivate hxy.entrySpecial hm
    ⟨(h.filed e x he).sameFile hxy, hA.same (h.entry e x he) hxy⟩ ?_ ?_
  · intro k n heY hlast hl
    obtain ⟨i, w, -, hw, hlw, hs⟩ := h.published k n hlast
    have hi : i = e := h.inv.distinct i e k (keyOf_eq_some.mpr ⟨w, hw, hlw.key⟩) (keyOf_eq_some.mpr ⟨x, he, hl.key⟩)
    rw [hi] at hw
    cases he.symm.trans hw
    rwa [hxy.swapStatus]
  · intro k heY hl hdone
    rw [hxy.swapFilen]
    exact h.recorded e x k heY he hl (hxy.swapStatus ▸ hdone)

lemma write (hA : Stable cfg A) (he : s.entries e = some x) (hxy : SameFile x y)
    (hm : y.memObj = x.memObj) : Logged cfg A R Y (setEntry e y s) :=
  h.writeMem hA he hxy fun mem hmem => (h.inv.typed e x he).method mem (hm ▸ hmem)

/-- Entry `e` becomes `z` and there may be a record about a key that no other entry has. An entry that is listed has
such a record for its end, and an ADD is one for what it becomes. -/
theorem append {z : Option (StoreEntry Key)} {Y' : Set ℕ} {c : Prop} [Decidable c]
    {op : SwapLogOp} {key : Option Key} {filen : ℤ} (he : s.entries e = some x)
    (hinv : Inv cfg t) (hent : t.entries = update s.entries e z) (hreq : t.requests = s.requests)
    (hreb : t.storeDirsRebuilding = s.storeDirsRebuilding)
    (hlog : t.swapLog = s.swapLog ++ if c then [(op, key, filen)] else [])
    (hY : ∀ i, i ≠ e → (i ∈ Y' ↔ i ∈ Y)) (hz : ∀ y, z = some y → Filed y ∧ A e y)
    (hkey : ∀ i k, i ≠ e → keyOf s i = some k → key ≠ some k)
    (hold : ∀ k, Listed x k → x.swapStatus ≠ .none → c ∧ key = some k)
    (hadd : c → op = .add → e ∉ Y' ∧ ∃ y, z = some y ∧ y.swapStatus ≠ .none ∧ ∀ k, key = some k → Listed y k)
    (hrec : ∀ y k, z = some y → e ∉ Y' → Listed y k → y.swapStatus = .done →
      (c ∧ key = some k) ∧ op = .add ∧ filen = y.swapFilen) : Logged cfg A R Y' t := by
  have hlast : ∀ k, lastAdd t.swapLog k =
      if c ∧ key = some k then if op = .add then some filen else none else lastAdd s.swapLog k := by
    intro k
    rw [hlog, lastAdd_append]
  refine h.step he hinv hent hreq hreb hY hz ?_ ?_ ?_
  · intro i k hi hik
    rw [hlast, if_neg fun hc => hkey i k hi hik hc.2]
  · intro k n hn
    rw [hlast] at hn
    split_ifs at hn with hc hop
    · obtain ⟨heY, y, hy, hs, hl⟩ := hadd hc.1 hop
      exact Or.inr ⟨heY, y, hy, hl k hc.2, hs⟩
    · exact Or.inl ⟨hn, fun hl hs => absurd (hold k hl hs) hc⟩
  · intro y k hy heY hl hdone
    obtain ⟨hc, hop, hfile⟩ := hrec y k hy heY hl hdone
    rw [hlast, if_pos hc, if_pos hop, hfile]

lemma apart (he : s.entries e = some x) : ∀ i k, i ≠ e → keyOf s i = some k → x.key ≠ some k :=
  fun i k hi hik hk => hi (h.inv.distinct i e k hik (keyOf_eq_some.mpr ⟨x, he, hk⟩))

lemma privatize (hmd5 : Injective cfg.md5) (he : s.entries e = some x)
    (hk : y.key = x.key) (hp : y.flags.keyPrivate = x.flags.keyPrivate)
    (hsp : y.flags.entrySpecial = x.flags.entrySpecial) (hf : y.swapFilen = x.swapFilen)
    (hm : ∀ mem, y.memObj = some mem → mem.method.toNat < 256) (hcou : s.keyCounter + 1 < 2 ^ 31)
    (hy : Filed y) (hAy : A e (privateEntry cfg (s.keyCounter + 1) y)) : Logged cfg A R Y (privateState cfg e y s) := by
  have hinv := (h.inv.setEntry he ((h.inv.typed e x he).same hk hp hm) hk).privateState hmd5 setEntry_self hcou
  rw [privateState_setEntry] at hinv
  refine h.append he hinv rfl rfl rfl rfl (fun _ _ => Iff.rfl) ?_ (hk ▸ h.apart he) ?_ (fun _ hop => by cases hop) ?_
  · rintro z ⟨⟩
    exact ⟨⟨hy.none, hy.some, hy.writing⟩, hAy⟩
  · intro k hl hs
    rw [hk, hsp, hf, hl.key]
    exact ⟨⟨rfl, (h.filed e x he).file_lt hs, hl.notSpecial⟩, rfl⟩
  · rintro z k ⟨⟩ - hl
    exact absurd rfl hl.isPublic

lemma insert (he : s.entries e = some x) (hp : x.key.isSome → x.flags.keyPrivate)
    (hY : e ∉ Y) {key : Key} (hkey : IsPublicKey cfg key) (hfree : ∀ i, keyOf s i ≠ some key)
    (hA : A e (publicEntry key x)) : Ends NoLogFault (Logged cfg A R Y) (replaceKey e key s) := by
  have hx := h.filed e x he
  have hinv := h.inv.publicKey he hkey fun i _ => hfree i
  have hself : (rekeyed e (publicEntry key x) s).entries e = some (publicEntry key x) := rekeyed_self
  rw [h.inv.replaceKey_eq key he, storeDirSwapLog_ite (c := -1 < x.swapFilen) .add hself
    fun hf => ⟨Bool.false_ne_true, hf⟩]
  refine h.append he (hinv.congr rfl rfl rfl rfl) rfl rfl rfl rfl (fun _ _ => Iff.rfl) ?_ ?_ ?_ ?_ ?_
  · rintro z ⟨⟩
    exact ⟨⟨hx.none, hx.some, hx.writing⟩, hA⟩
  · exact fun i k _ hik heq => hfree i (hik.trans heq.symm)
  · exact fun k hl => absurd (hp (by rw [hl.key]; rfl)) hl.isPublic
  · exact fun hc _ => ⟨hY, _, rfl, hx.ne_none hc.1, fun k hk => ⟨hk, Bool.false_ne_true, hc.2⟩⟩
  · rintro z k ⟨⟩ - hl hdone
    have hdone : x.swapStatus = .done := hdone
    exact ⟨⟨⟨hx.file_lt (by rw [hdone]; decide), hl.notSpecial⟩, hl.key⟩, rfl, rfl⟩

lemma logDelete : Ends NoLogFault (Logged cfg A R (Insert.insert e Y)) (logDelete e s) := by
  apply ends_entryAt trivial
  intro x he
  have hx := h.filed e x he
  show Ends _ _ (if -1 < x.swapFilen ∧ ¬ x.flags.keyPrivate then storeDirSwapLog e .del s else .ok s)
  rw [storeDirSwapLog_ite .del he fun hc => ⟨hc.2, hc.1⟩]
  refine h.append (z := some x) he (h.inv.congr rfl rfl rfl rfl) ?_ rfl rfl rfl ?_ ?_ (h.apart he) ?_
    (fun _ hop => by cases hop) fun z k _ hmem => absurd (mem_insert e Y) hmem
  · rw [← he, update_eq_self]
  · exact fun i hi => mem_insert_iff.trans (or_iff_right hi)
  · rintro z ⟨⟩
    exact ⟨hx, h.entry e x he⟩
  · exact fun k hl hs => ⟨⟨⟨hx.file_lt hs, hl.isPublic⟩, hl.notSpecial⟩, hl.key⟩

end

lemma free (h : Logged cfg A R (Insert.insert e Y) s) (he : s.entries e = some x) :
    Logged cfg A R Y (removed e s) := by
  refine h.step he (h.inv.remove e) rfl rfl rfl ?_ ?_ (fun _ _ _ _ => rfl) ?_ ?_
  · intro i hi
    exact (mem_insert_iff.trans (or_iff_right hi)).symm
  · intro z hz
    cases hz
  · intro k n hadd
    exact Or.inl ⟨hadd, fun _ _ => mem_insert e Y⟩
  · intro z k hz
    cases hz

end Logged

/-! ## Single entries -/

namespace Logged

lemma method (h : Logged cfg A R Y s) (he : s.entries e = some x) :
    ∀ mem, x.memObj = some mem → mem.method.toNat < 256 := (h.inv.typed e x he).method

lemma modifyMem (hA : Stable cfg A) (h : Logged cfg A R Y s) {f : MemObject → MemObject}
    (hf : ∀ mem, (f mem).method = mem.method) (hr : ∀ mem r, (f mem).request = some r → mem.request = some r)
    (e : ℕ) : Ends NoLogFault (Logged cfg A R Y) (modifyMem e f s) := by
  apply ends_entryAt trivial
  intro x he
  refine h.writeMem hA he ⟨rfl, rfl, rfl, rfl, rfl, rfl, fun r hreq => ?_⟩ fun mem' hmem' => ?_
  · obtain ⟨mem', hmem', hr'⟩ := Option.bind_eq_some_iff.mp hreq
    obtain ⟨mem, hmem, rfl⟩ := Option.map_eq_some_iff.mp hmem'
    exact Option.bind_eq_some_iff.mpr ⟨mem, hmem, hr mem r hr'⟩
  · obtain ⟨mem, hmem, rfl⟩ := Option.map_eq_some_iff.mp hmem'
    rw [hf]
    exact h.method he mem hmem

lemma recedes (hA : Stable cfg A) (h : Logged cfg A R Y s) (he : s.entries e = some x) (hxy : Recedes x y) :
    Logged cfg A R Y (setEntry e y s) := by
  refine h.writeMem hA he hxy.toSameFile fun mem' hmem' => ?_
  obtain ⟨mem, hmem, hsame, -⟩ := hxy.memObj mem' hmem'
  rw [(Prod.mk.inj hsame).1]
  exact h.method he mem hmem

variable (hmd5 : Injective cfg.md5)

include hmd5

lemma storeSetPrivateKey (hA : Stable cfg A) (h : Logged cfg A R Y s) (e : ℕ) :
    Ends NoLogFault (Logged cfg A R Y) (storeSetPrivateKey cfg e s) := by
  cases he : s.entries e with
  | none =>
    rw [Store.storeSetPrivateKey, entryAt, he]
    trivial
  | some x =>
    by_cases hp : x.key.isSome ∧ x.flags.keyPrivate
    · rw [storeSetPrivateKey_of_private he hp]
      exact h
    · rw [h.inv.storeSetPrivateKey_eq hmd5 he hp]
      refine ends_ite (fun hcou => ?_) fun _ => trivial
      exact h.privatize hmd5 he rfl rfl rfl rfl (h.method he) hcou (h.filed e x he)
        (hA.makePrivate (h.entry e x he) (h.inv.typed e x he) (Nat.succ_pos _))

lemma storeReleaseRequest (hA : Stable cfg A) (h : Logged cfg A R Y s) (e : ℕ) :
    Ends NoLogFault (Logged cfg A R Y) (storeReleaseRequest cfg e s) := by
  apply ends_entryAt trivial
  intro x he
  have hset : Logged cfg A R Y (setEntry e (releasedEntry x) s) :=
    h.write hA he ⟨rfl, rfl, rfl, rfl, rfl, rfl, fun _ => id⟩ rfl
  exact ends_ite (fun _ => h) fun _ => hset.storeSetPrivateKey hmd5 hA e

omit hmd5 in
lemma freeStoreEntry (h : Logged cfg A R (Insert.insert e Y) s) :
    Ends NoLogFault (Logged cfg A R Y) (freeStoreEntry e s) := by
  cases he : s.entries e with
  | none =>
    rw [Store.freeStoreEntry, storeHashDelete, entryAt, he]
    trivial
  | some x =>
    rw [Store.freeStoreEntry, storeHashDelete, entryAt_eq he, ok_bind, bind_assoc]
    apply ends_check (fun _ => trivial)
    intro _
    apply ends_check (fun _ => trivial)
    intro _
    simpa only [ends_ok, pure_eq_ok, removed, freeEntry, setEntry, update_idem] using h.free he

end Logged

/-! ## The cascade -/

/-- The log stays in step whatever entries are about to go. -/
def KeepsLog (cfg : Config Key) (A : ℕ → StoreEntry Key → Prop) (R : ℕ → Request)
    (unlock : ℕ → State Key → Result (State Key)) : Prop :=
  ∀ i Y s, Logged cfg A R Y s → Ends NoLogFault (Logged cfg A R Y) (unlock i s)

section

variable (hmd5 : Injective cfg.md5) (hA : Stable cfg A)

lemma Logged.settles {r : Result (State Key)} (h : Logged cfg A R Y s) (hreb : s.storeDirsRebuilding) :
    Ends NoLogFault (Logged cfg A R Y) r := by
  rw [h.settled] at hreb
  cases hreb

include hmd5 hA

lemma Logged.outlasts : Outlasts cfg NoLogFault (Insert.insert e) (Logged cfg A R) e :=
  ⟨trivial, trivial, fun h => h.recedes hA, fun h => h.storeReleaseRequest hmd5 hA e, fun h => h.logDelete,
    fun h => h.freeStoreEntry, fun h => h.congr rfl rfl rfl rfl rfl rfl rfl⟩

lemma Logged.bears : Bears cfg NoLogFault (Logged cfg A R Y) e := (Logged.outlasts hmd5 hA).bears Y

-- the fuel bounds the depth of the cascade, so the induction is on it
lemma keepsLog_unlockFuel (fuel : ℕ) : KeepsLog cfg A R (unlockFuel cfg fuel) := by
  induction fuel with
  | zero =>
    intro e Y s _
    trivial
  | succ fuel ih =>
    intro e Y s h
    refine (Logged.outlasts hmd5 hA).unlockFuel_succ (fun _ => fun _ _ _ _ => trivial) (fun i _ => ih i)
      (fun _ _ h => h.settles) (fun t x ht hx => ?_) h
    exact ht.write hA hx ⟨rfl, rfl, rfl, rfl, rfl, rfl, fun _ => id⟩ rfl

lemma Logged.storeUnlockObject (h : Logged cfg A R Y s) (e : ℕ) :
    Ends NoLogFault (Logged cfg A R Y) (storeUnlockObject cfg e s) := keepsLog_unlockFuel hmd5 hA _ e Y s h

lemma Logged.storeRelease (h : Logged cfg A R Y s) (e : ℕ) :
    Ends NoLogFault (Logged cfg A R Y) (storeRelease cfg e s) :=
  (Logged.outlasts hmd5 hA).releaseWith (fun _ => fun _ _ _ _ => trivial)
    (fun i _ => keepsLog_unlockFuel hmd5 hA _ i) (fun _ _ h => h.settles) h

end

end SquidVideoCache.Store
