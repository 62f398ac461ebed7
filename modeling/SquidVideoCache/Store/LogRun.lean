import SquidVideoCache.Store.LogCalls
import SquidVideoCache.Store.Freed

/-!
# Runs and the swap log

In every run the assertions of `storeDirSwapLog` hold, and whenever no file is being written the
swap log is in step with the store, provided that the calls are `Tidy`.
-/

namespace SquidVideoCache.Store
open Lib Acsm StoreKey VideoReg Function

variable {Key : Type} [DecidableEq Key] {cfg : Config Key} {limits : ObjectLimits} {s t : State Key} {e : ℕ}
  {x : StoreEntry Key} {A : ℕ → StoreEntry Key → Prop} {R : ℕ → Request} {Y : Set ℕ}

/-! ## storeCheckCachable -/

/-- The answer is yes for a public entry, no without a release for a negatively cached one, and no
with a release otherwise. -/
theorem storeCheckCachable_cases (cfg : Config Key) (limits : ObjectLimits) (noFiles : Bool)
    (he : s.entries e = some x) : (storeCheckCachable cfg limits noFiles e s = .ok (true, s) ∧ ¬ x.flags.keyPrivate ∧ ¬ x.flags.entryNegcached) ∨
      (storeCheckCachable cfg limits noFiles e s = .ok (false, s) ∧ x.flags.entryNegcached) ∨
      storeCheckCachable cfg limits noFiles e s = refuseCachable cfg e s ∨
      storeCheckCachable cfg limits noFiles e s = .error .freed := by
  rw [storeCheckCachable, entryAt_eq he, ok_bind]
  by_cases hfla : (x.storeStatus = .ok ∧ x.flags.entryBadLength) ∨ x.flags.releaseRequest ∨
      ¬ x.flags.entryCachable
  · rw [if_pos hfla]
    exact Or.inr (Or.inr (Or.inl rfl))
  by_cases hneg : x.flags.entryNegcached
  · rw [if_neg hfla, if_pos hneg]
    exact Or.inr (Or.inl ⟨rfl, hneg⟩)
  rw [if_neg hfla, if_neg hneg]
  cases hm : x.memObj with
  | none => exact Or.inr (Or.inr (Or.inr rfl))
  | some mem =>
    by_cases hsize : storeCheckTooBig limits mem ∨ storeCheckTooSmall limits x mem ∨ x.flags.keyPrivate
    · exact Or.inr (Or.inr (Or.inl (if_pos hsize)))
    have hpub : ¬ x.flags.keyPrivate := fun hp => hsize (Or.inr (Or.inr hp))
    by_cases hs : x.swapStatus ≠ .none
    · exact Or.inl ⟨(if_neg hsize).trans (if_pos hs), hpub, hneg⟩
    by_cases hfiles : noFiles
    · exact Or.inr (Or.inr (Or.inl (((if_neg hsize).trans (if_neg hs)).trans (if_pos hfiles))))
    · exact Or.inl ⟨((if_neg hsize).trans (if_neg hs)).trans (if_neg hfiles), hpub, hneg⟩

lemma refuseCachable_ne_true : refuseCachable cfg e s ≠ .ok (true, t) := by
  intro h
  obtain ⟨u, -, hu⟩ := bind_eq_ok.mp h
  obtain ⟨v, -, hv⟩ := bind_eq_ok.mp hu
  cases hv

namespace Logged

variable (hmd5 : Injective cfg.md5)

include hmd5

/-! ## storeSwapOutFileClosed -/

lemma closeFailed (h : Logged cfg (fun _ _ => True) R Y s)
    (hno : ∀ x k, s.entries e = some x → Listed x k → lastAdd s.swapLog k = none) :
    Ends NoLogFault (Logged cfg (fun _ _ => True) R Y) (closeFailed cfg e s) := by
  apply ends_entryAt trivial
  intro x he
  have hset : Logged cfg (fun _ _ => True) R Y
      (setEntry e { x with swapFilen := -1, swapDirn := -1, swapStatus := .none } s) := by
    refine h.put he rfl rfl rfl (fun mem hmem => h.method he mem hmem) ⟨⟨fun _ => rfl, ?_, ?_⟩, trivial⟩ ?_ ?_
    · intro hs
      exact absurd rfl hs
    · intro hs
      cases hs
    · intro k n _ hlast hl
      rw [hno x k he hl] at hlast
      cases hlast
    · intro _ _ _ hs
      cases hs
  exact hset.storeReleaseRequest hmd5 stable_true e

omit hmd5 in
lemma done (h : Logged cfg A R Y s) (he : s.entries e = some x) (hs : x.swapStatus = .writing) :
    Filed { x with swapStatus := .done } ∧ Inv cfg (setEntry e { x with swapStatus := .done } s) := by
  have htyp := h.inv.typed e x he
  refine ⟨⟨?_, ?_, ?_⟩, h.inv.setEntry he ⟨htyp.isPrivate, htyp.isPublic, htyp.method⟩ rfl⟩
  · intro hd
    cases hd
  · exact fun _ => (h.filed e x he).some (by rw [hs]; decide)
  · intro hd
    cases hd

section

variable (h : Logged cfg (fun _ _ => True) R Y s) (he : s.entries e = some x) (hs : x.swapStatus = .writing)

include h he hs

omit hmd5 in
lemma record (hpub : ¬ x.flags.keyPrivate) (hY : e ∉ Y) : Ends NoLogFault (Logged cfg (fun _ _ => True) R Y)
      (storeDirSwapLog e .add (setEntry e { x with swapStatus := .done } s)) := by
  obtain ⟨hfil, hinv⟩ := h.done he hs
  have hfile : -1 < x.swapFilen := hfil.file_lt fun hd => by cases hd
  rw [storeDirSwapLog_eq (x := { x with swapStatus := .done }) .add setEntry_self hpub hfile]
  refine h.append he (hinv.congr rfl rfl rfl rfl) rfl rfl rfl rfl (fun _ _ => Iff.rfl) ?_ (fun i k => h.apart he i k) ?_ ?_ ?_
  · rintro z ⟨⟩
    exact ⟨hfil, trivial⟩
  · exact fun k hl _ => ⟨hl.notSpecial, hl.key⟩
  · exact fun hsp _ => ⟨hY, _, rfl, fun hd => (by cases hd), fun k hk => ⟨hk, hpub, hsp⟩⟩
  · rintro z k ⟨⟩ - hl -
    exact ⟨⟨hl.notSpecial, hl.key⟩, rfl, rfl⟩

lemma refuseDone (hrel : x.flags.releaseRequest → ∀ k, ¬ Listed x k) :
    Ends NoLogFault (fun p => p.1 = false ∧ Logged cfg (fun _ _ => True) R Y p.2)
      (refuseCachable cfg e (setEntry e { x with swapStatus := .done } s)) := by
  obtain ⟨hfil, hinv⟩ := h.done he hs
  -- an entry that is not listed needs no record
  have hquiet : ∀ y : StoreEntry Key, y.key = x.key → y.flags.keyPrivate = x.flags.keyPrivate →
      y.flags.entrySpecial = x.flags.entrySpecial → y.memObj = x.memObj → Filed y → (∀ k, ¬ Listed x k) →
      Logged cfg (fun _ _ => True) R Y (setEntry e y s) := by
    intro y hk hp hsp hm hy hnot
    refine h.put he hk hp hsp (fun mem hmem => h.method he mem (hm ▸ hmem)) ⟨hy, trivial⟩ ?_ ?_
    · exact fun k _ _ _ hl => absurd hl (hnot k)
    · exact fun k _ hl => absurd hl (hnot k)
  have hrele : Ends NoLogFault (Logged cfg (fun _ _ => True) R Y)
      (Store.storeReleaseRequest cfg e (setEntry e { x with swapStatus := .done } s)) := by
    by_cases hr : x.flags.releaseRequest
    · exact (hquiet { x with swapStatus := .done } rfl rfl rfl rfl hfil (hrel hr)).storeReleaseRequest hmd5
        stable_true e
    · rw [hinv.storeReleaseRequest_eq hmd5 setEntry_self hr]
      refine ends_ite (fun hp => ?_) fun _ => ends_ite (fun hcou => ?_) fun _ => trivial
      · have hset := hquiet (releasedEntry { x with swapStatus := .done }) rfl rfl rfl rfl
          ⟨hfil.none, hfil.some, hfil.writing⟩ fun k hl => hl.isPublic hp.2
        simpa [setEntry] using hset
      · rw [privateState_setEntry]
        exact h.privatize hmd5 he rfl rfl rfl rfl (fun mem hmem => h.method he mem hmem) hcou
          ⟨hfil.none, hfil.some, hfil.writing⟩ trivial
  exact hrele.bind fun t ht => ((bears hmd5 stable_true).clearCachable ht).bind fun u hu => ⟨rfl, hu⟩

end

lemma closeDone (h : Logged cfg (fun _ _ => True) R ∅ s) (noFiles : Bool) (he : s.entries e = some x)
    (hs : x.swapStatus = .writing) (hrel : x.flags.releaseRequest → ∀ k, ¬ Listed x k) :
    Ends NoLogFault (Logged cfg (fun _ _ => True) R ∅) (closeDone cfg limits noFiles e s) := by
  rw [Store.closeDone, entryAt_eq he, ok_bind]
  have hself : (setEntry e { x with swapStatus := .done } s).entries e = some { x with swapStatus := .done } :=
    setEntry_self
  rcases storeCheckCachable_cases cfg limits noFiles hself with ⟨heq, hpub, -⟩ | ⟨heq, hneg⟩ | heq | heq
  · rw [heq]
    exact h.record he hs hpub (Set.notMem_empty e)
  · exact absurd hneg ((h.filed e x he).writing hs)
  · rw [heq]
    refine (h.refuseDone hmd5 he hs hrel).bind ?_
    rintro ⟨cachable, t⟩ ⟨rfl, ht⟩
    exact ht
  · rw [heq]
    trivial

/-- What a closed file must not meet: after an error, an ADD as the last record of its public key, and
otherwise a public entry that `storeReleaseRequest` takes for one it has dealt with. -/
def TidyClose (c : Closing) (e : ℕ) (s : State Key) : Prop := ∀ x k, s.entries e = some x → Listed x k →
    if c.errflag then lastAdd s.swapLog k = none else ¬ x.flags.releaseRequest

lemma storeSwapOutFileClosed (h : Logged cfg (fun _ _ => True) R ∅ s) (c : Closing) (htidy : TidyClose c e s) :
    Ends NoLogFault (Logged cfg (fun _ _ => True) R ∅) (storeSwapOutFileClosed cfg limits c e s) := by
  apply ends_entryAt trivial
  intro x he
  apply ends_check (fun _ => trivial)
  intro hs
  apply ends_check (fun _ => trivial)
  intro _
  have htail : ∀ t, Logged cfg (fun _ _ => True) R ∅ t → Ends NoLogFault (Logged cfg (fun _ _ => True) R ∅)
      (Store.modifyMem e ({ · with sio := false }) t >>= fun t =>
        Store.storeSwapOutMaintainMemObject cfg limits c.lo e t >>= Store.storeUnlockObject cfg e) := by
    intro t ht
    have hb : Bears cfg NoLogFault (Logged cfg (fun _ _ => True) R ∅) e := bears hmd5 stable_true
    refine (hb.modifyMem (f := ({ · with sio := false })) (fun _ => rfl) ht).bind fun u hu => ?_
    exact (hb.storeSwapOutMaintainMemObject limits c.lo hu).bind fun v hv => hv.storeUnlockObject hmd5 stable_true e
  refine ends_ite (fun herr => ?_) fun hok => ?_
  · refine (h.closeFailed hmd5 fun y k hy hl => ?_).bind htail
    have hno := htidy y k hy hl
    rwa [if_pos herr] at hno
  · refine (h.closeDone hmd5 _ he hs fun hr k hl => ?_).bind htail
    have hno := htidy x k he hl
    rw [if_neg hok] at hno
    exact hno hr

end Logged

/-! ## Runs -/

/-- The calls of the store and what goes on with its files. -/
inductive SwapCall where
  | store (c : Call)
  | start (e : ℕ) (file : Option (ℤ × ℤ))
  | closed (c : Closing) (e : ℕ)

def performSwap (cfg : Config Key) (limits : ObjectLimits) : SwapCall → State Key → Result (State Key)
  | .store c, s => perform cfg c s
  | .start e file, s => storeSwapOutTry e file s
  | .closed c e, s => storeSwapOutFileClosed cfg limits c e s

/-- Methods fit a byte. A swapout is started only where `storeCheckCachable` approves, and `storeCreate`
gives out file numbers from 0 on. -/
def Approved (cfg : Config Key) (limits : ObjectLimits) (s : State Key) : SwapCall → Prop
  | .store (.createEntry _ _ method) => method.toNat < 256
  | .store _ => True
  | .start e file => (∃ noFiles, storeCheckCachable cfg limits noFiles e s = .ok (true, s)) ∧
      ∀ filen dirn, file = some (filen, dirn) → 0 ≤ filen
  | .closed _ _ => True

/-- No file can be missing for an entry that has one already, and files are closed tidily. -/
def Tidy (s : State Key) : SwapCall → Prop
  | .store _ => True
  | .start e file => file = none → ∀ x, s.entries e = some x → x.swapStatus = .none
  | .closed c e => Logged.TidyClose c e s

/-- The states of the runs outside a rebuild whose calls all have `P`. A run starts with any set of
entries that the log is in step with and none of which is being written. -/
inductive LogRun (cfg : Config Key) (limits : ObjectLimits) (P : State Key → SwapCall → Prop) : State Key → Prop
  | start {s : State Key} (hinv : Inv cfg s) (hreb : s.storeDirsRebuilding = false)
      (hquiet : ∀ e x, s.entries e = some x → x.swapStatus ≠ .writing ∧ Filed x) (hstep : InStep s) :
      LogRun cfg limits P s
  | call {s t : State Key} {c : SwapCall} (hs : LogRun cfg limits P s) (hc : Approved cfg limits s c) (hP : P s c)
      (hrun : performSwap cfg limits c s = .ok t) : LogRun cfg limits P t

lemma LogRun.mono {P Q : State Key → SwapCall → Prop} (h : LogRun cfg limits P s) (hPQ : ∀ s c, P s c → Q s c) :
    LogRun cfg limits Q s := by
  induction h with
  | start hinv hreb hquiet hstep => exact .start hinv hreb hquiet hstep
  | call _ hc hP hrun ih => exact .call ih hc (hPQ _ _ hP) hrun

lemma InStep.logged (h : InStep s) (hinv : Inv cfg s) (hreb : s.storeDirsRebuilding = false)
    (hquiet : ∀ e x, s.entries e = some x → x.swapStatus ≠ .writing ∧ Filed x) :
    Logged cfg (fun _ _ => True) s.requests ∅ s := by
  refine ⟨hinv, hreb, fun i x hx => (hquiet i x hx).2, fun _ _ _ => trivial, rfl, ?_, ?_⟩
  · intro k n hlast
    obtain ⟨i, x, hx, hl, hdone, -⟩ := (h k n).mp hlast
    exact ⟨i, x, Set.notMem_empty i, hx, hl, fun hs => by rw [hdone] at hs; cases hs⟩
  · intro i x k _ hx hl hdone
    exact (h k _).mpr ⟨i, x, hx, hl, hdone, rfl⟩

section

variable (hmd5 : Injective cfg.md5) (hfiles : Logged.FilesOk cfg)

include hmd5 hfiles

lemma Logged.perform (h : Logged cfg (fun _ _ => True) R ∅ s) {c : Call} (hc : Approved cfg limits s (.store c)) :
    Ends NoLogFault (fun t => ∃ R', Logged cfg (fun _ _ => True) R' ∅ t) (perform cfg c s) := by
  have hsame : ∀ {r : Result (State Key)}, Ends NoLogFault (Logged cfg (fun _ _ => True) R ∅) r →
      Ends NoLogFault (fun t => ∃ R', Logged cfg (fun _ _ => True) R' ∅ t) r :=
    fun hr => hr.mono fun t ht => ⟨R, ht⟩
  cases c with
  | createEntry url flags method =>
    refine (h.storeCreateEntry hmd5 stable_true url flags hc fun _ => trivial).bind ?_
    rintro ⟨e, t⟩ ⟨-, ht⟩
    exact ⟨R, ht.imp fun _ _ _ _ => trivial⟩
  | setPublicKey e => exact h.storeSetPublicKey hmd5 hfiles e
  | setPrivateKey e => exact hsame (h.storeSetPrivateKey hmd5 stable_true e)
  | releaseRequest e => exact hsame (h.storeReleaseRequest hmd5 stable_true e)
  | lockObject e => exact hsame ((bears hmd5 stable_true).storeLockObject h)
  | unlockObject e => exact hsame (h.storeUnlockObject hmd5 stable_true e)
  | complete e => exact hsame (h.storeComplete hmd5 stable_true hfiles fun _ => trivial)
  | release e => exact hsame (h.storeRelease hmd5 stable_true e)

lemma Logged.performSwap (h : Logged cfg (fun _ _ => True) R ∅ s) {c : SwapCall} (hc : Approved cfg limits s c)
    (htidy : Tidy s c) :
    Ends NoLogFault (fun t => ∃ R', Logged cfg (fun _ _ => True) R' ∅ t) (performSwap cfg limits c s) := by
  cases c with
  | store c => exact h.perform hmd5 hfiles hc
  | start e file =>
    obtain ⟨⟨noFiles, hcac⟩, hfile⟩ := hc
    cases file with
    | none =>
      apply ends_entryAt trivial
      intro x he
      have hnone := htidy rfl x he
      exact ⟨R, h.write stable_true he ⟨rfl, rfl, rfl, rfl, hnone.symm, rfl, fun _ => id⟩ rfl⟩
    | some file =>
      refine (h.storeSwapOutStart stable_true (fun _ => trivial) file.2 fun x hx => ⟨hfile file.1 file.2 rfl, ?_⟩).mono
        fun t ht => ⟨R, ht⟩
      rcases storeCheckCachable_cases cfg limits noFiles hx with ⟨-, -, hneg⟩ | ⟨heq, -⟩ | heq | heq
      · exact hneg
      · cases hcac.symm.trans heq
      · exact absurd (heq.symm.trans hcac) refuseCachable_ne_true
      · cases hcac.symm.trans heq
  | closed c e => exact (h.storeSwapOutFileClosed hmd5 c htidy).mono fun t ht => ⟨R, ht⟩

lemma LogRun.logged (h : LogRun cfg limits Tidy s) : ∃ R, Logged cfg (fun _ _ => True) R ∅ s := by
  induction h with
  | start hinv hreb hquiet hstep => exact ⟨_, hstep.logged hinv hreb hquiet⟩
  | call _ hc htidy hrun ih =>
    obtain ⟨R, hs⟩ := ih
    exact (hs.performSwap hmd5 hfiles hc htidy).ok_of_eq hrun

/-- In a run of tidy calls no assertion of `storeDirSwapLog` fails, and the log is in step with the store
whenever no file is being written. -/
theorem logRun_inStep (h : LogRun cfg limits Tidy s) :
    ((∀ e x, s.entries e = some x → x.swapStatus ≠ .writing) → InStep s) ∧
      ∀ c, Approved cfg limits s c → Tidy s c → performSwap cfg limits c s ≠ .error .swapLog := by
  obtain ⟨R, hs⟩ := h.logged hmd5 hfiles
  refine ⟨hs.inStep, fun c hc htidy hfau => ?_⟩
  exact (hs.performSwap hmd5 hfiles hc htidy).error_of_eq hfau

end

/-! ## A file that could not be written -/

/-- An error makes no entry public and brings none back. -/
theorem fades_storeSwapOutFileClosed {c : Closing} (herr : c.errflag) (s : State Key) :
    Ends (fun _ => True) (Fades s) (storeSwapOutFileClosed cfg limits c e s) := by
  have hb : Bears cfg (fun _ => True) (Fades s) e := (tolerates_fades s e).bears
  have hfai : Ends (fun _ => True) (Fades s) (closeFailed cfg e s) := by
    apply ends_entryAt trivial
    intro y hy
    refine hb.releaseRequest (Fades.replaces hy (replaces_setEntry e _ s) ?_)
    rintro z ⟨⟩
    exact .of_flags rfl
  apply ends_entryAt trivial
  intro x he
  apply ends_check (fun _ => trivial)
  intro _
  apply ends_check (fun _ => trivial)
  intro _
  refine ends_ite (fun _ => ?_) fun hok => absurd herr hok
  refine hfai.bind fun t ht => (hb.modifyMem (f := ({ · with sio := false })) (fun _ => rfl) ht).bind fun u hu => ?_
  exact (hb.storeSwapOutMaintainMemObject limits c.lo hu).bind fun v hv => preserves_fades_unlockFuel s _ e v hv

lemma live_of_failed {c : Closing} {i : ℕ} (h : performSwap cfg limits (.closed c e) s = .ok t) (herr : c.errflag)
    (hx : t.entries i = some x) : ∃ y, s.entries i = some y := by
  obtain ⟨y, hy, -⟩ := ((fades_storeSwapOutFileClosed herr s).ok_of_eq h).entries i x hx
  exact ⟨y, hy⟩

def smallLimits : ObjectLimits := ⟨4096, 0⟩

/-- `/youku/a.flv` is loading under its public key. -/
def loadingEntry : StoreEntry (List UInt8) where
  key := some (1 :: flatA.bytes)
  memObj := some { method := methodGet, url := flatA }
  flags := { entryCachable := true, entryValidated := true }
  lockCount := 1
  storeStatus := .pending

def loadingPublic : State (List UInt8) where
  entries := update (fun _ => none) 0 (some loadingEntry)
  nextEntry := 1
  table := [0]
  requests := fun _ => plainRequest flatA methodGet

def afterCall (c : SwapCall) (s : State (List UInt8)) : State (List UInt8) :=
  (performSwap newConfig smallLimits c s).toOption.getD s

lemma performSwap_afterCall {c : SwapCall} {s : State (List UInt8)}
    (hok : (performSwap newConfig smallLimits c s).isOk) :
    performSwap newConfig smallLimits c s = .ok (afterCall c s) := eq_ok_of_isOk hok s

lemma LogRun.after {P : State (List UInt8) → SwapCall → Prop} {s : State (List UInt8)} {c : SwapCall}
    (hs : LogRun newConfig smallLimits P s) (hc : Approved newConfig smallLimits s c) (hP : P s c)
    (hok : (performSwap newConfig smallLimits c s).isOk) : LogRun newConfig smallLimits P (afterCall c s) :=
  .call hs hc hP (performSwap_afterCall hok)

def writingStore : State (List UInt8) := afterCall (.start 0 (some (1, 0))) loadingPublic

/-- The key is taken back and given again while the file is being written. -/
def republishedStore : State (List UInt8) :=
  afterCall (.store (.setPublicKey 0)) (afterCall (.store (.setPrivateKey 0)) writingStore)

def failedStore : State (List UInt8) := afterCall (.closed { errflag := true } 0) republishedStore

lemma loadingPublic_entries {i : ℕ} {x : StoreEntry (List UInt8)} (hx : loadingPublic.entries i = some x) :
    x = loadingEntry := by
  by_cases hi : i = 0
  · rw [hi] at hx
    cases hx
    rfl
  · have hx : update (fun _ => none) 0 (some loadingEntry) i = some x := hx
    rw [update_of_ne hi] at hx
    cases hx

lemma logRun_writingStore : LogRun newConfig smallLimits Tidy writingStore := by
  have hpub : IsPublicKey newConfig (1 :: flatA.bytes) := ⟨flatA, methodGet, plainRequest flatA methodGet, rfl⟩
  have hinv : Inv newConfig loadingPublic := by
    refine .single rfl rfl rfl rfl hpub Bool.false_ne_true ?_
    rintro mem ⟨⟩
    decide
  have hstart : LogRun newConfig smallLimits Tidy loadingPublic := by
    refine .start hinv rfl (fun i x hx => ?_) fun k n => ?_
    · rw [loadingPublic_entries hx]
      exact ⟨by decide, fun _ => rfl, fun hs => absurd rfl hs, fun hs => by cases hs⟩
    · refine ⟨fun hlast => (by cases hlast), ?_⟩
      rintro ⟨i, x, hx, -, hdone, -⟩
      rw [loadingPublic_entries hx] at hdone
      cases hdone
  refine hstart.after ⟨⟨false, rfl⟩, ?_⟩ nofun (by decide +kernel)
  rintro filen dirn ⟨⟩
  decide

lemma logRun_republishedStore : LogRun newConfig smallLimits Tidy republishedStore :=
  (logRun_writingStore.after (c := .store (.setPrivateKey 0)) trivial trivial (by decide +kernel)).after trivial trivial (by decide +kernel)

lemma filesOk_newConfig : Logged.FilesOk newConfig := fun _ _ _ _ _ _ hdo => by cases hdo

/-- The file is written to its end. -/
def savedStore : State (List UInt8) := afterCall (.closed { errflag := false } 0) writingStore

theorem logRun_inStep_savedStore : savedStore.swapLog = [(.add, some (1 :: flatA.bytes), 1)] ∧
    ((∀ e x, savedStore.entries e = some x → x.swapStatus ≠ .writing) → InStep savedStore) := by
  have htidy : Logged.TidyClose { errflag := false } 0 writingStore := by
    intro x k hx _ hr
    have hflag : (writingStore.entries 0).map (fun x => x.flags.releaseRequest) = some false := by decide +kernel
    rw [hx] at hflag
    cases hr.symm.trans (Option.some.inj hflag)
  have hrun : LogRun newConfig smallLimits Tidy savedStore :=
    logRun_writingStore.after trivial htidy (by decide +kernel)
  exact ⟨by decide +kernel, (logRun_inStep injective_id filesOk_newConfig hrun).1⟩

lemma failedStore_entries {i : ℕ} {x : StoreEntry (List UInt8)} (hx : failedStore.entries i = some x) :
    x.swapStatus = .none := by
  obtain ⟨R, hlog⟩ := logRun_republishedStore.logged injective_id filesOk_newConfig
  have hok := performSwap_afterCall (c := .closed { errflag := true } 0) (s := republishedStore) (by decide +kernel)
  rw [← failedStore] at hok
  obtain ⟨y, hy⟩ := live_of_failed hok rfl hx
  have hlt := hlog.inv.lt_nextEntry hy
  have hnext : republishedStore.nextEntry = 1 := by decide +kernel
  have hi : i = 0 := by omega
  have hstat : (failedStore.entries 0).map StoreEntry.swapStatus = some .none := by decide +kernel
  rw [← hi, hx] at hstat
  exact Option.some.inj hstat

/-- The swapout fails after the entry has been published again. Its key stays in the log. -/
theorem failed_not_inStep : LogRun newConfig smallLimits (fun _ _ => True) failedStore ∧
    (∀ e x, failedStore.entries e = some x → x.swapStatus ≠ .writing) ∧ ¬ InStep failedStore := by
  refine ⟨?_, fun e x hx hs => ?_, fun hstep => ?_⟩
  · exact (logRun_republishedStore.mono fun _ _ _ => trivial).after trivial trivial (by decide +kernel)
  · rw [failedStore_entries hx] at hs
    cases hs
  · have hlast : lastAdd failedStore.swapLog (1 :: flatA.bytes) = some 1 := by decide +kernel
    obtain ⟨e, x, hx, -, hdone, -⟩ := (hstep _ _).mp hlast
    rw [failedStore_entries hx] at hdone
    cases hdone

end SquidVideoCache.Store
