import SquidVideoCache.SwapSize.Touch

/-!
# The counters and the entries

An entry counts if its swapout is done and it is validated.
-/

namespace SquidVideoCache.SwapSize
open Lib Option
open CleanLog (Flags EntryFlag ebitTest ebitSet ebitClr SwapLogData ebitTest_ebitClr_self)

variable {Key : Type} {cfg : Config Key} {s s' : State Key} {i : ℕ} {e e' : StoreEntry Key}
  {a : Option (StoreEntry Key)}

/-! ## The sums -/

structure Inv (cfg : Config Key) (s : State Key) : Prop where
  accounted : ∀ c, s.counter c = toInt (slotSum (weight cfg c) s.entries)
  entries : ∀ i e, s.slot i = some e → EntryOk e

lemma Inv.init (cfg : Config Key) : Inv cfg (.init cfg) := by
  refine ⟨fun c => ?_, fun i e h => ?_⟩
  · cases c <;> rfl
  · simp [State.slot, State.init] at h

lemma Inv.set (hs : Inv cfg s) (hi : s.slot i = some e) (hentr : s'.entries = s.entries.set i a)
    (hbalanced : Balanced cfg s e a s') : Inv cfg s' := by
  obtain ⟨hctr, hok⟩ := hbalanced (hs.entries i e hi)
  refine ⟨fun c => ?_, fun j x hx => ?_⟩
  · rw [hctr c _ (hs.accounted c), hentr, slotSum_set (slot_eq_some.1 hi)]
  · rw [slot_set hi hentr] at hx
    split_ifs at hx
    · exact hok x hx
    · exact hs.entries j x hx

lemma Inv.append (hs : Inv cfg s) (hentr : s'.entries = s.entries ++ [some e]) (hctr : ∀ c, s'.counter c = s.counter c)
    (hnot : counts e = false) (hok : EntryOk e) : Inv cfg s' := by
  refine ⟨fun c => ?_, fun j x hx => ?_⟩
  · rw [hctr, hentr, slotSum_append, weight_of_not hnot, add_zero]
    exact hs.accounted c
  · rw [slot_append hentr] at hx
    split_ifs at hx
    · obtain rfl := some.inj hx
      exact hok
    · exact hs.entries j x hx

lemma balanced_add (hnot : counts e = false) (hcou : counts e' = true) (hok : EntryOk e') :
    Balanced cfg s e (some e') (storeDirUpdateSwapSize cfg e'.swapDirn e'.swapFileSz 1 (s.setEntry i e')) := by
  refine fun _ => ⟨fun c n hn => ?_, fun x hx => ?_⟩
  · have hset : (s.setEntry i e').counter c = toInt n := hn
    rw [counter_update hcou (.inl rfl) hset, weight_of_not hnot, mul_one, sub_zero, elim_some]
  · obtain rfl := some.inj hx
    exact hok

lemma balanced_of_not (hnot : counts e = false) (hnot' : counts e' = false) (hok : EntryOk e')
    (hctr : ∀ c, s'.counter c = s.counter c) : Balanced cfg s e (some e') s' := by
  refine fun _ => ⟨fun c n hn => ?_, fun x hx => ?_⟩
  · rw [hctr, hn, weight_of_not hnot, elim_some, weight_of_not hnot', sub_zero, add_zero]
  · obtain rfl := some.inj hx
    exact hok

lemma Inv.stable (cfg : Config Key) : Stable cfg True (Inv cfg) where
  frame hs hentr _ hctr := by
    refine ⟨fun c => ?_, fun i e hi => hs.entries i e ?_⟩
    · rw [hctr, hentr]
      exact hs.accounted c
    · rwa [State.slot, hentr] at hi
  touch hs hi htou hbalanced := hs.set hi htou.entries (hbalanced trivial)
  create cachable curtime hs := by
    -- the validated bit is set both ways
    have hval : ∀ cachable : Bool, ebitTest (if cachable then
        ebitSet (ebitSet (ebitSet 0 .keyPrivate) .entryValidated) .entryCachable
        else ebitSet (ebitSet (ebitSet 0 .keyPrivate) .entryValidated) .releaseRequest) .entryValidated = true := by decide
    refine hs.append rfl (fun _ => rfl) rfl ⟨fun hnot => ?_, fun hne => absurd rfl hne⟩
    exact absurd ((hval _).symm.trans hnot) (by simp)
  restore {s d r fm} hs hfil _ _ := by
    have hnot : counts (diskEntry d r) = false := by
      rw [counts, diskEntry, ebitTest_ebitClr_self, Bool.and_false]
    exact hs.append rfl (fun _ => rfl) hnot ⟨fun _ => rfl, fun _ => hfil⟩
  validate {s i e} hs hi hnot hfil := by
    have hdone : e.swapStatus = .done := (hs.entries i e hi).done hnot
    have hcou : counts { e with flags := ebitSet e.flags .entryValidated } = true := by
      rw [counts, ebitTest_ebitSet_self, Bool.and_true]
      exact beq_iff_eq.2 hdone
    exact hs.set hi rfl (balanced_add (by rw [counts, hnot, Bool.and_false]) hcou ⟨fun _ => hdone, fun _ => hfil⟩)

/-! ## Swapping out -/

/-- Only entries whose swapout is done can lack the validated bit. -/
theorem EntryOk.validated (hok : EntryOk e) (hstat : e.swapStatus ≠ .done) : ebitTest e.flags .entryValidated = true := by
  by_contra hnot
  exact hstat (hok.done (by simpa using hnot))

lemma counts_of_ne (hstat : e.swapStatus ≠ .done) : counts e = false := by
  rw [counts, beq_eq_false_iff_ne.2 hstat, Bool.false_and]

lemma Inv.swapOutStart (hs : Inv cfg s) {d filn : ℤ} (hnone : s.has i (fun e => e.swapStatus == .none) = true) (hfiln : 0 ≤ filn) :
    Ends (fun _ => True) (Inv cfg) (storeSwapOutStart i d filn s) := by
  refine (ends_entryAt i s).bind fun e hi => ?_
  rw [has_eq hi, beq_iff_eq] at hnone
  have hstat : e.swapStatus ≠ .done := by simp [hnone]
  cases hfm : CleanLog.fileMapBitSet (s.maps d) filn with
  | error f => trivial
  | ok fm =>
    refine hs.set hi rfl (balanced_of_not (counts_of_ne hstat) rfl ⟨fun hnot => ?_, fun _ => hfiln⟩ fun _ => rfl)
    exact absurd (((hs.entries i e hi).validated hstat).symm.trans hnot) (by simp)

lemma swapOutEnd_spec (cfg : Config Key) (hi : s.slot i = some e) (hwr : e.swapStatus = .writing) (size : Option ℤ) :
    ∃ s' x, swapOutEnd cfg i e s size = .ok s' ∧ s'.entries = s.entries.set i (some x) ∧ Balanced cfg s e (some x) s' ∧
      x.swapStatus ≠ .writing ∧ (size ≠ none → s'.maps = s.maps ∧ x.swapDirn = e.swapDirn ∧ x.swapFilen = e.swapFilen) ∧
      (size = none → s'.maps = (if 0 < e.swapFilen then s.resetBit e.swapDirn e.swapFilen else s).maps ∧ x.swapFilen = -1) := by
  have hstat : e.swapStatus ≠ .done := by simp [hwr]
  cases size with
  | some size =>
    refine ⟨_, { e with swapFileSz := size, swapStatus := .done }, rfl, rfl, fun hok => ?_, by simp, fun _ => ⟨rfl, rfl, rfl⟩, by simp⟩
    exact balanced_add (counts_of_ne hstat) (hok.validated hstat) ⟨fun _ => rfl, fun _ => hok.filed (by simp [hwr])⟩ hok
  | none =>
    unfold swapOutEnd
    have hentr : (if 0 < e.swapFilen then s.resetBit e.swapDirn e.swapFilen else s).entries = s.entries := by
      split_ifs <;> rfl
    have hctr : ∀ c, (if 0 < e.swapFilen then s.resetBit e.swapDirn e.swapFilen else s).counter c = s.counter c := by
      intro c
      split_ifs <;> rfl
    generalize (if 0 < e.swapFilen then s.resetBit e.swapDirn e.swapFilen else s) = s₁ at hentr hctr
    have hi₁ : s₁.slot i = some e := by rwa [State.slot, hentr]
    obtain ⟨k, x, heq, hkept, -⟩ := storeReleaseRequest_eq (slot_setEntry hi₁ _)
    refine ⟨_, x, heq, by simp [State.setEntry, hentr], fun hok => ?_, ?_, by simp, fun _ => ⟨rfl, hkept.swapFilen⟩⟩
    · -- the entry does not count as it did not before
      have hfor : Balanced cfg s e (some { e with swapFilen := -1, swapDirn := -1, swapStatus := .none })
          (s₁.setEntry i { e with swapFilen := -1, swapDirn := -1, swapStatus := .none }) := by
        refine balanced_of_not (counts_of_ne hstat) rfl ⟨fun hnot => ?_, fun hne => absurd rfl hne⟩ hctr
        exact absurd ((hok.validated hstat).symm.trans hnot) (by simp)
      exact hfor.trans (hkept.balanced fun _ => rfl) hok
    · simp [hkept.swapStatus]

lemma Inv.swapOutClosed (hs : Inv cfg s) (i : ℕ) (size : Option ℤ) :
    Ends (fun _ => True) (Inv cfg) (storeSwapOutFileClosed cfg i size s) := by
  refine (ends_entryAt i s).bind fun e hi => ?_
  by_cases hwr : e.swapStatus = .writing
  · obtain ⟨s', x, heq, hentr, hbalanced, -⟩ := swapOutEnd_spec cfg hi hwr size
    rw [cAssert_pos hwr, heq]
    exact (Inv.stable cfg).unlock (hs.set hi hentr hbalanced) i
  · rw [cAssert, if_neg hwr]
    trivial

/-! ## Runs -/

variable [DecidableEq Key]

lemma Inv.step (hs : Inv cfg s) {ev : Event Key} (hena : enabled cfg s ev = true) (hsafe : safe s ev = true) :
    Ends (fun _ => True) (Inv cfg) (step cfg s ev) := by
  cases ev with
  | swapOutStart i d filn =>
    simp only [enabled, Bool.and_eq_true, decide_eq_true_eq] at hena
    exact hs.swapOutStart hena.1.1 hena.1.2.2.2
  | swapOutClosed i size => exact hs.swapOutClosed i size
  | _ => exact (Inv.stable cfg).step hs (fun _ => hsafe) (by simp) (by simp)

/-- One directory with blocks of 4096 bytes and one bucket. -/
def oneDirectory : Config ℕ := ⟨1, fun _ => 4096, 1, fun _ => 0⟩

def addRecord (lastref : ℤ) (flags : Flags) : SwapLogData ℕ := ⟨.add, 0, lastref, lastref, 0, 0, 100, 1, flags, 7⟩

end SquidVideoCache.SwapSize
