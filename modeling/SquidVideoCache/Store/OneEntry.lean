import SquidVideoCache.Store.Release
import SquidVideoCache.Store.SwapOut

/-!
# Functions for one entry

What these functions do to the entry that they are called for are changes that `Bears` is about,
apart from the start of a swapout and the end of a transfer.
-/

namespace SquidVideoCache.Store
open Lib StoreKey

variable {Key : Type} [DecidableEq Key] {cfg : Config Key} {s t : State Key} {e : ℕ} {x y : StoreEntry Key}
  {E : StoreFault → Prop} {P : State Key → Prop}

/-- What the functions leave alone in a memory object. -/
def lasting (mem : MemObject) : Method × CString × Reply × Option ℕ × Option ℕ × Option ℕ :=
  (mem.method, mem.url, mem.reply, mem.imsEntry, mem.oldEntry, mem.request)

/-- Entry `e` begins to be written. -/
def Starts (cfg : Config Key) (E : StoreFault → Prop) (P : State Key → Prop) (e : ℕ) : Prop :=
  ∀ s filen dirn, P s → cfg.swapOut s e = .start (some (filen, dirn)) → Ends E P (storeSwapOutStart e filen dirn s)

namespace Bears

variable (h : Bears cfg E P e)

include h

lemma modify (hs : P s) (he : s.entries e = some x)
    (hy : (y.key, y.flags, y.swapStatus, y.swapFilen) = (x.key, x.flags, x.swapStatus, x.swapFilen))
    (hst : y.storeStatus = x.storeStatus) {f : MemObject → MemObject} (hm : y.memObj = x.memObj.map f)
    (hf : ∀ mem, lasting (f mem) = lasting mem) : P (setEntry e y s) := by
  simp only [lasting, Prod.mk.injEq] at hf
  have hreq : requestOf y = requestOf x := requestOf_map hm fun mem => (hf mem).2.2.2.2.2
  refine h.set hs he (.of_flags hy (hm ▸ .map _ fun mem => ?_) fun r hr => hreq.symm.trans hr) ⟨hst, hreq⟩
  obtain ⟨hmet, hurl, hrep, hims, hold, -⟩ := hf mem
  rw [hmet, hurl, hrep, hims, hold]
  exact ⟨rfl, fun _ => id, fun _ => id⟩

lemma modifyMem {f : MemObject → MemObject} (hf : ∀ mem, lasting (f mem) = lasting mem) (hs : P s) :
    Ends E P (modifyMem e f s) := by
  apply ends_entryAt h.freed
  intro x he
  exact h.modify hs he rfl rfl rfl hf

lemma clearCachable (hs : P s) : Ends E P (clearCachable e s) := by
  apply ends_entryAt h.freed
  intro x he
  exact h.set hs he ⟨⟨rfl, rfl, id, fun hc => (by cases hc), .refl _⟩, rfl, rfl, rfl, rfl, fun _ => id, id⟩ ⟨rfl, rfl⟩

lemma storeLockObject (hs : P s) : Ends E P (storeLockObject e s) := by
  apply ends_entryAt h.freed
  intro x he
  exact h.touch hs he rfl rfl rfl

lemma storeClientRegister (hs : P s) : Ends E P (storeClientRegister e s) := by
  apply ends_entryAt h.freed
  intro x he
  apply ends_check (fun _ => h.assertion)
  intro _
  exact h.storeLockObject (h.modify hs he rfl rfl rfl fun _ => rfl)

lemma storeTimestampsSet (hs : P s) : Ends E P (storeTimestampsSet e s) := by
  apply ends_entryAt h.freed
  intro x he
  cases hm : x.memObj with
  | none => exact h.freed
  | some mem => exact h.touch hs he rfl rfl hm.symm

lemma storeSwapOutMaintainMemObject (limits : ObjectLimits) (lo : ℤ) (hs : P s) :
    Ends E P (storeSwapOutMaintainMemObject cfg limits lo e s) := by
  apply ends_entryAt h.freed
  intro x he
  refine ends_ite (fun _ => hs) fun _ => ends_ite (fun _ => hs) fun _ => ?_
  cases x.memObj with
  | none => exact h.freed
  | some mem =>
    refine ends_ite (fun _ => h.modifyMem (fun _ => rfl) hs) fun _ => (h.releaseRequest hs).bind fun t ht => ?_
    exact (h.modifyMem (f := ({ · with sio := false })) (fun _ => rfl) ht).bind fun u => h.modifyMem fun _ => rfl

/-! ## The end of a transfer -/

variable (hstart : Starts cfg E P e)

include hstart

lemma storeSwapOut (hs : P s) : Ends E P (storeSwapOut cfg e s) := by
  have href : Ends E P (Store.storeReleaseRequest cfg e s >>= Store.clearCachable e) :=
    (h.releaseRequest hs).bind fun _ => h.clearCachable
  apply ends_entryAt h.freed
  intro x he
  refine ends_ite (fun _ => hs) fun _ => ?_
  cases hdo : cfg.swapOut s e with
  | keep => exact hs
  | stop => exact (h.releaseRequest hs).bind fun _ => h.modifyMem fun _ => rfl
  | close => exact h.modifyMem (fun _ => rfl) hs
  | start file =>
    refine ends_ite (fun _ => hs) fun _ => ?_
    cases file with
    | none => exact href
    | some file =>
      cases cachableFlags x with
      | false => exact href
      | true => exact hstart s file.1 file.2 hs hdo

lemma finishComplete {link : Option ℕ} (hs : P s) (hlink : ∀ o, link = some o → ∀ t, P t →
      Ends E P (Store.modifyMem o ({ · with refreshTimestamp := 0 }) t)) :
    Ends E P (finishComplete cfg e link s) := by
  refine (h.modifyMem (f := ({ · with refreshTimestamp := 0 })) (fun _ => rfl) hs).bind fun t ht => ?_
  have hres : Ends E P (resetOldEntry link t) := by
    cases link with
    | none => exact ht
    | some o => exact hlink o rfl t ht
  exact hres.bind fun _ => h.storeSwapOut hstart

lemma storeComplete (hover : ∀ x, s.entries e = some x → x.storeStatus ≠ .pending → P s)
    (hdone : ∀ x mem, s.entries e = some x → x.memObj = some mem →
      P (setEntry e { x with memObj := some { mem with objectSz := mem.inmemHi }, storeStatus := .ok } s) ∧
        ∀ o, mem.oldEntry = some o → ∀ t, P t → Ends E P (Store.modifyMem o ({ · with refreshTimestamp := 0 }) t)) :
    Ends E P (storeComplete cfg e s) := by
  apply ends_entryAt h.freed
  intro x he
  cases hm : x.memObj with
  | none => exact h.freed
  | some mem =>
    obtain ⟨hok, hlink⟩ := hdone x mem he hm
    refine ends_ite (fun hne => ?_) fun _ => ?_
    · apply ends_check (fun _ => h.assertion)
      intro _
      exact hover x he hne
    · apply ends_check (fun _ => h.assertion)
      intro _
      refine ends_ite (fun _ => h.finishComplete hstart hok hlink) fun _ => ?_
      have hbad := h.set hok (y := { x with
        memObj := some _, storeStatus := .ok
        flags := { x.flags with entryBadLength := true } }) setEntry_self
        ⟨⟨rfl, rfl, id, id, .refl _⟩, rfl, rfl, rfl, rfl, fun _ => id, id⟩ ⟨rfl, rfl⟩
      exact (h.releaseRequest hbad).bind fun t ht => h.finishComplete hstart ht hlink

end Bears

end SquidVideoCache.Store
