import SquidVideoCache.Store.Guard
import SquidVideoCache.Store.OneEntry

/-!
# The functions of the store and a watched entry

What is done to an entry that may be used keeps the guard.
-/

namespace SquidVideoCache.Store
open Lib StoreKey VideoReg

variable {Key : Type} {cfg : Config Key} {s t : State Key} {e : ℕ} {x y : StoreEntry Key}
  {w : Watch Key} {A : StoreEntry Key → Prop} {k : Key} {st : StoreStatus}

/-! ## Entries that may be used -/

lemma Guard.sane (h : Guard cfg w A s) (he : s.entries e = some x) {f : MemObject → MemObject}
    (hf : ∀ mem, MemSane w e s.nextEntry mem → MemSane w e s.nextEntry (f mem)) :
    ∀ mem, x.memObj.map f = some mem → MemSane w e s.nextEntry mem := by
  intro mem hmem
  obtain ⟨mem', hmem', rfl⟩ := Option.map_eq_some_iff.mp hmem
  exact hf mem' (h.memObj e x mem' he hmem')

section

variable (hs : Spared w A e)

include hs

lemma Guard.modifyMem (h : Guard cfg w A s) {f : MemObject → MemObject}
    (hf : ∀ mem, MemSane w e s.nextEntry mem → MemSane w e s.nextEntry (f mem))
    (hkeep : e = w.entry → ∀ mem, (f mem).hasData = mem.hasData ∧ (f mem).inmemLo = mem.inmemLo) :
    Ends (fun _ => True) (Guard cfg w A) (modifyMem e f s) := by
  apply ends_entryAt trivial
  intro x he
  refine h.put he rfl (h.sane he hf) fun heq hAx => ?_
  obtain ⟨k, rfl⟩ := hs.present heq
  exact hAx.congr rfl rfl rfl rfl (storeKeepInMemory_map rfl (hkeep heq))

lemma Guard.storeLockObject : Preserves (Guard cfg w A) (storeLockObject e) := by
  intro s h
  apply ends_entryAt trivial
  intro x he
  exact h.write hs he rfl rfl rfl rfl rfl (h.memObj e x · he)

lemma Guard.storeClientRegister : Preserves (Guard cfg w A) (storeClientRegister e) := by
  intro s h
  apply ends_entryAt trivial
  intro x he
  apply ends_check (fun _ => trivial)
  intro _
  refine Guard.storeLockObject hs _ (h.write hs he rfl rfl rfl rfl ?_ (h.sane he fun _ => id))
  exact storeKeepInMemory_map rfl fun _ => ⟨rfl, rfl⟩

lemma Guard.storeTimestampsSet : Preserves (Guard cfg w A) (storeTimestampsSet e) := by
  intro s h
  apply ends_entryAt trivial
  intro x he
  cases hm : x.memObj with
  | none => trivial
  | some mem =>
    refine h.write hs he rfl rfl rfl rfl (storeKeepInMemory_congr hm.symm) fun mem' hmem' => ?_
    exact h.memObj e x mem' he (hm.trans hmem')

/-- A link to an entry is followed only if that entry may be used. -/
theorem Guard.resetOldEntry (h : Guard cfg w A s) {link : Option ℕ} (hlink : ∀ i, link = some i → w.links i) :
    Ends (fun _ => True) (Guard cfg w A) (resetOldEntry link s) := by
  cases link with
  | none => exact h
  | some o => exact h.modifyMem (hs.linked (hlink o rfl)) (fun _ => id) fun _ _ => ⟨rfl, rfl⟩

end

/-! ## Writing to disk -/

/-- No entry is refused by `storeCheckCachable`, and none stops being written. -/
def SwapsFreely (cfg : Config Key) : Prop := ∀ s e, cfg.swapOut s e ≠ .stop ∧ cfg.swapOut s e ≠ .start none

lemma Present.inCore (h : Present k st x) (hs : x.swapStatus = .none) : InCore x :=
  h.kept.elim (fun hdone => by rw [hs] at hdone; cases hdone.2) id

lemma Present.cachableFlags (h : Present k st x) (hs : x.swapStatus = .none) : cachableFlags x = true := by
  have hcore := h.inCore hs
  simp [Store.cachableFlags, h.releaseRequest, h.keyPrivate, hcore.entryCachable, hcore.entryBadLength]

lemma Guard.change {st' : StoreStatus} (h : Guard cfg w (Present k st) s) (hx : s.entries w.entry = some x)
    (hk : y.key = x.key) (hm : ∀ mem, y.memObj = some mem → MemSane w w.entry s.nextEntry mem)
    (hst : y.storeStatus = st') (hf : y.flags = x.flags) (hkept : (st' = .ok ∧ y.swapStatus = .done) ∨ InCore y) :
    Guard cfg w (Present k st') (setEntry w.entry y s) := by
  obtain ⟨z, hz, hp⟩ := h.entry
  cases hz.symm.trans hx
  exact h.setSelf hx hk hm ⟨hk.trans hp.key, hf ▸ hp.keyPrivate, hf ▸ hp.releaseRequest, hst, hkept⟩

lemma Guard.storeSwapOutStart_self (filen dirn : ℤ) (h : Guard cfg w (Present k st) s)
    (hx : s.entries w.entry = some x) (hp : Present k st x) (hs : x.swapStatus = .none) :
    Ends (fun _ => True) (Guard cfg w (Present k st)) (storeSwapOutStart w.entry filen dirn s) := by
  have hcore := hp.inCore hs
  have hlock : Guard cfg w (Present k st)
      (setEntry w.entry { x with lockCount := x.lockCount + 1, lastref := s.curtime } s) :=
    h.change hx rfl (h.memObj _ x · hx) hp.storeStatus rfl
      (Or.inr ⟨hcore.keepInMemory, hcore.entryCachable, hcore.entryBadLength⟩)
  rw [storeSwapOutStart, Store.storeLockObject, entryAt_eq hx, ok_bind, pure_eq_ok, ok_bind,
    entryAt_eq setEntry_self]
  refine hlock.change setEntry_self rfl ?_ hp.storeStatus rfl
    (Or.inr ⟨?_, hcore.entryCachable, hcore.entryBadLength⟩)
  · exact hlock.sane setEntry_self fun _ => id
  · rw [← hcore.keepInMemory]
    exact storeKeepInMemory_map rfl fun _ => ⟨rfl, rfl⟩

variable [DecidableEq Key]

lemma Guard.storeSwapOut_self (hswap : SwapsFreely cfg) :
    Preserves (Guard cfg w (Present k st)) (storeSwapOut cfg w.entry) := by
  intro s h
  obtain ⟨x, hx, hp⟩ := h.entry
  obtain ⟨hstop, hnone⟩ := hswap s _
  rw [storeSwapOut, entryAt_eq hx]
  refine ends_ite (fun _ => h) fun _ => ?_
  cases hdo : cfg.swapOut s w.entry with
  | keep => exact h
  | stop => exact absurd hdo hstop
  | close =>
    rw [Store.modifyMem, entryAt_eq hx]
    refine h.put hx rfl (h.sane hx fun _ => id) fun _ hp => ?_
    exact hp.congr rfl rfl rfl rfl (storeKeepInMemory_map rfl fun _ => ⟨rfl, rfl⟩)
  | start file =>
    refine ends_ite (fun _ => h) fun hs => ?_
    have hs : x.swapStatus = .none := not_not.mp hs
    cases file with
    | none => exact absurd hdo hnone
    | some file =>
      rw [hp.cachableFlags hs]
      exact h.storeSwapOutStart_self file.1 file.2 hx hp hs

section

variable (hmd5 : Function.Injective cfg.md5)

include hmd5

lemma Guard.starts (hne : e ≠ w.entry) : Starts cfg (fun _ => True) (Guard cfg w A) e := by
  intro s filen dirn h _
  refine ((Guard.tolerates hmd5 hne).bears.storeLockObject h).bind fun t ht => ?_
  apply ends_entryAt trivial
  intro x he
  exact ht.set hne he rfl (ht.sane he fun _ => id)

lemma Guard.storeSwapOut_of_ne (hne : e ≠ w.entry) : Preserves (Guard cfg w A) (storeSwapOut cfg e) :=
  fun _ => (Guard.tolerates hmd5 hne).bears.storeSwapOut (Guard.starts hmd5 hne)

lemma Guard.storeSwapOut (hswap : SwapsFreely cfg) (hs : Spared w A e) :
    Preserves (Guard cfg w A) (storeSwapOut cfg e) := by
  by_cases heq : e = w.entry
  · obtain ⟨k, rfl⟩ := hs.present heq
    rw [heq]
    exact Guard.storeSwapOut_self hswap
  · exact Guard.storeSwapOut_of_ne hmd5 heq

/-! ## The end of a transfer -/

lemma Guard.finishComplete (hswap : SwapsFreely cfg) (hs : Spared w A e) (h : Guard cfg w A s)
    {link : Option ℕ} (hlink : ∀ i, link = some i → w.links i) :
    Ends (fun _ => True) (Guard cfg w A) (finishComplete cfg e link s) := by
  refine (h.modifyMem hs (f := ({ · with refreshTimestamp := 0 })) (fun _ => id) fun _ _ => ⟨rfl, rfl⟩).bind
    fun t ht => ?_
  exact (ht.resetOldEntry hs hlink).bind (Guard.storeSwapOut hmd5 hswap hs)

lemma Guard.storeComplete_of_ne (hs : Spared w A e) (hne : e ≠ w.entry) :
    Preserves (Guard cfg w A) (storeComplete cfg e) := by
  intro s h
  refine (Guard.tolerates hmd5 hne).bears.storeComplete (Guard.starts hmd5 hne) (fun _ _ _ => h) fun x mem he hm => ?_
  have hmem : MemSane w e s.nextEntry mem := h.memObj e x mem he hm
  refine ⟨h.set hne he rfl ?_, fun o ho t ht => ?_⟩
  · rintro mem' ⟨⟩
    exact hmem
  · exact ht.modifyMem (hs.linked (hmem.2.1 o (Or.inr ho)).2) (fun _ => id) fun _ _ => ⟨rfl, rfl⟩

lemma Guard.storeComplete_self (hswap : SwapsFreely cfg) (h : Guard cfg w (Present k .pending) s)
    (hlen : ∀ x mem, s.entries w.entry = some x → x.memObj = some mem →
      storeEntryValidLength { mem with objectSz := mem.inmemHi }) :
    Ends (fun _ => True) (Guard cfg w (Present k .ok)) (storeComplete cfg w.entry s) := by
  obtain ⟨x, hx, hp⟩ := h.entry
  have hcore : InCore x := hp.kept.elim (fun hdone => by cases hdone.1) id
  rw [storeComplete, entryAt_eq hx, ok_bind]
  cases hm : x.memObj with
  | none => trivial
  | some mem =>
    have hmem : MemSane w w.entry s.nextEntry mem := h.memObj _ x mem hx hm
    have hkeep : storeKeepInMemory { x with memObj := some { mem with objectSz := mem.inmemHi } } := by
      rw [← hcore.keepInMemory]
      exact storeKeepInMemory_map (f := fun mem => { mem with objectSz := mem.inmemHi })
        (by rw [hm]; rfl) fun _ => ⟨rfl, rfl⟩
    have hset : Guard cfg w (Present k .ok) (setEntry w.entry { x with
        memObj := some { mem with objectSz := mem.inmemHi }, storeStatus := .ok } s) := by
      refine h.change hx rfl (fun mem' hmem' => ?_) rfl rfl
        (Or.inr ⟨hkeep, hcore.entryCachable, hcore.entryBadLength⟩)
      cases hmem'
      exact hmem
    refine ends_ite (fun hne => absurd hp.storeStatus hne) fun _ => ?_
    apply ends_check (fun _ => trivial)
    intro _
    refine ends_ite (fun _ => ?_) fun hbad => absurd (hlen x mem hx hm) hbad
    exact hset.finishComplete hmd5 hswap (Or.inl ⟨k, rfl⟩) fun i hi => (hmem.2.1 i (Or.inr hi)).2

end

end SquidVideoCache.Store
