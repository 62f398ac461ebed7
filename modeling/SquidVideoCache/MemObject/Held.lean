import SquidVideoCache.MemObject.Model
import SquidVideoCache.Stmem.Window

/-!
# What is in memory and what is written

`Inv` ties the nodes in memory to the object, what is written to the offset that the writer has
reached, and the node that was written last to the nodes that are left: memory is never freed up to
the end of that node while the file is open, because all but its last byte is as far as the disk
lets it go.
-/

namespace SquidVideoCache.MemObject
open Lib Stmem List Option

variable {F : Prop} {cfg : Config} {w : World} {s s' : State} {able : Bool} {s'' : State} {sc : StoreClient}

lemma check_pos {f : Failure} {p : Prop} [Decidable p] (h : p) : check f p = .ok () := if_pos h

/-! ## The invariant -/

/-- The writer stands at the beginning, or at the end of a node that is still there. Only when the object is
complete may that node be one that is not full. -/
def Placed (s : State) : Prop := (s.memnode = none ∧ s.queueOffset = 0 ∧ s.dataHdr.freed = 0) ∨
    ∃ k, s.memnode = some k ∧ s.dataHdr.freed ≤ k ∧ (smPageSize * k : ℕ) < s.queueOffset ∧
      (s.queueOffset = (smPageSize * (k + 1) : ℕ) ∨
        (s.storeStatus = .ok ∧ s.queueOffset = s.inmemHi ∧ s.queueOffset ≤ (smPageSize * (k + 1) : ℕ)))

structure Inv (F : Prop) (s : State) : Prop where
  window : Window s.object s.dataHdr
  hi : s.inmemHi = s.object.length
  lo : s.inmemLo = s.dataHdr.originOffset
  queue_nonneg : 0 ≤ s.queueOffset
  queue_le : s.queueOffset ≤ s.inmemHi
  written : s.written = s.object.take s.queueOffset.toNat
  quiet : s.swapStatus = .none → s.queueOffset = 0 ∧ s.memnode = none ∧ s.sio = none ∧ s.closing = false
  file : ∀ io, s.sio = some io → s.swapStatus = .writing ∧ s.closing = false ∧ io.offset ≤ io.writeOffset ∧
    io.writeOffset = s.swapHdrSz + s.queueOffset
  place : s.sio ≠ none → Placed s
  closed : s.sio = none → s.swapStatus ≠ .none → s.flags.entryCachable = true →
    s.storeStatus = .ok ∧ s.queueOffset = s.inmemHi
  released : s.flags.releaseRequest = true → s.flags.entryCachable = false
  aborted : s.flags.entryAborted = true → s.flags.releaseRequest = true
  memory : s.memStatus = .inMemory → s.inmemLo = 0
  header : s.swapStatus = .writing → 0 < s.swapHdrSz
  reading : ∀ sc ∈ s.clients, (sc.swapinSio = true → s.swapStatus ≠ .none) ∧
    (sc.diskIoPending = some .header → s.swapStatus = .done)
  ahead : F → ∀ sc ∈ s.clients, sc.type = .mem → s.inmemLo ≤ sc.copyOffset

lemma Inv.lo_nonneg (h : Inv F s) : 0 ≤ s.inmemLo := by
  rw [h.lo]
  exact h.window.origin_nonneg

/-- What no function on the side of the disk changes. -/
structure Same (s s' : State) : Prop where
  clients : s'.clients = s.clients
  inmemHi : s'.inmemHi = s.inmemHi
  memStatus : s'.memStatus = s.memStatus

lemma Same.refl (s : State) : Same s s := ⟨rfl, rfl, rfl⟩

lemma Same.trans (h : Same s s') (h' : Same s' s'') : Same s s'' :=
  ⟨h'.clients.trans h.clients, h'.inmemHi.trans h.inmemHi, h'.memStatus.trans h.memStatus⟩

/-- A state that a function may end in. -/
def Keeps (F : Prop) (s s' : State) : Prop := Inv F s' ∧ Same s s'

lemma Keeps.trans (h : Same s s') (h' : Keeps F s' s'') : Keeps F s s'' := ⟨h'.1, h.trans h'.2⟩

/-! ## Flags -/

/-- The flags may only make the entry less cachable. -/
structure Lowered (f g : Flags) : Prop where
  cachable : g.entryCachable = true → f.entryCachable = true
  released : g.releaseRequest = true → g.entryCachable = false
  aborted : g.entryAborted = true → g.releaseRequest = true

lemma Inv.setFlags {f : Flags} (h : Inv F s) (hf : Lowered s.flags f) : Inv F { s with flags := f } :=
  { h with
    closed := fun hsio hswap hc => h.closed hsio hswap (hf.cachable hc)
    released := hf.released
    aborted := hf.aborted }

lemma Inv.lowered_refl (h : Inv F s) : Lowered s.flags s.flags := ⟨id, h.released, h.aborted⟩

lemma storeReleaseRequest_flags (h : Inv F s) : ∃ f, storeReleaseRequest s = { s with flags := f } ∧ Lowered s.flags f ∧
    f.entryCachable = false ∧ f.releaseRequest = true := by
  unfold storeReleaseRequest
  split_ifs with hrel
  · exact ⟨s.flags, rfl, h.lowered_refl, h.released hrel, hrel⟩
  · exact ⟨_, rfl, ⟨fun hc => absurd hc (by simp), fun _ => rfl, fun _ => rfl⟩, rfl, rfl⟩

lemma Inv.releaseRequest (h : Inv F s) : Inv F (storeReleaseRequest s) := by
  obtain ⟨f, hf, hlow, -, -⟩ := storeReleaseRequest_flags h
  rw [hf]
  exact h.setFlags hlow

lemma storeCheckCachable_flags (cfg : Config) (w : World) (h : Inv F s) :
    ∃ f, (storeCheckCachable cfg w s).1 = { s with flags := f } ∧ Lowered s.flags f := by
  have hno : ∃ f, (storeCheckCachableNo s).1 = { s with flags := f } ∧ Lowered s.flags f := by
    obtain ⟨f, hf, -, -, hrel⟩ := storeReleaseRequest_flags h
    refine ⟨{ f with entryCachable := false }, ?_, ⟨fun hc => absurd hc (by simp), fun _ => rfl, fun _ => hrel⟩⟩
    rw [storeCheckCachableNo, hf]
  have hyes : ∃ f, s = { s with flags := f } ∧ Lowered s.flags f := ⟨s.flags, rfl, h.lowered_refl⟩
  have hite : ∀ (p : Prop) [Decidable p] (x y : State × Bool), (∃ f, x.1 = { s with flags := f } ∧ Lowered s.flags f) →
      (∃ f, y.1 = { s with flags := f } ∧ Lowered s.flags f) →
      ∃ f, (if p then x else y).1 = { s with flags := f } ∧ Lowered s.flags f := by
    intro p _ x y hx hy
    by_cases hp : p
    · rwa [if_pos hp]
    · rwa [if_neg hp]
  repeat' apply hite
  all_goals first | exact hno | exact hyes

/-! ## Readers -/

lemma readerOffset_fst_le (writing : Bool) (r : ℤ × ℤ) (sc : StoreClient) : (readerOffset writing r sc).1 ≤ r.1 := by
  unfold readerOffset
  split_ifs <;> simp only <;> omega

lemma foldl_readerOffset_fst_le (writing : Bool) (l : List StoreClient) (r : ℤ × ℤ) :
    (l.foldl (readerOffset writing) r).1 ≤ r.1 := by
  induction l generalizing r with
  | nil => exact le_refl _
  | cons sc l ih => exact (ih _).trans (readerOffset_fst_le _ r sc)

lemma le_foldl_readerOffset_snd (writing : Bool) (l : List StoreClient) (r : ℤ × ℤ) :
    r.2 ≤ (l.foldl (readerOffset writing) r).2 := by
  induction l generalizing r with
  | nil => exact le_refl _
  | cons sc l ih =>
    refine le_trans ?_ (ih _)
    unfold readerOffset
    split_ifs <;> simp only <;> omega

lemma readerOffsets_mem (writing : Bool) {l : List StoreClient} (r : ℤ × ℤ) (hsc : sc ∈ l) (htype : sc.type = .mem) :
    (l.foldl (readerOffset writing) r).1 ≤ sc.copyOffset ∧ sc.copyOffset ≤ (l.foldl (readerOffset writing) r).2 := by
  induction l generalizing r with
  | nil => exact absurd hsc not_mem_nil
  | cons x l ih =>
    rcases mem_cons.1 hsc with rfl | hsc
    · refine ⟨(foldl_readerOffset_fst_le _ l _).trans ?_, le_trans ?_ (le_foldl_readerOffset_snd _ l _)⟩
      · simp only [readerOffset, htype, ne_eq, not_true_eq_false, and_false, if_false]
        split_ifs <;> omega
      · simp only [readerOffset]
        split_ifs <;> omega
    · exact ih _ hsc

lemma storeLowestMemReaderOffset_le (hsc : sc ∈ s.clients) (htype : sc.type = .mem) :
    storeLowestMemReaderOffset s ≤ sc.copyOffset := by
  obtain ⟨hlow, hhigh⟩ := readerOffsets_mem _ _ hsc htype
  unfold storeLowestMemReaderOffset
  rw [if_neg]
  · exact hlow
  · rw [readerOffsets]
    omega

/-! ## Freeing memory -/

lemma Inv.onDisk_le (h : Inv F s) : storeSwapOutObjectBytesOnDisk s ≤ s.queueOffset := by
  have hque := h.queue_nonneg
  unfold storeSwapOutObjectBytesOnDisk
  split
  · exact le_refl _
  · rename_i io hio
    obtain ⟨-, -, hoffset, hwri⟩ := h.file io hio
    split_ifs <;> omega

lemma le_newMemLo (cfg : Config) (able : Bool) (s : State) : s.inmemLo ≤ newMemLo cfg able s := by
  unfold newMemLo
  split_ifs <;> omega

lemma diskMemLo_le (cfg : Config) (able : Bool) (s : State) : diskMemLo cfg able s ≤ readMemLo cfg able s := by
  unfold diskMemLo
  split_ifs <;> omega

lemma Inv.newMemLo_le_copyOffset (h : Inv F s) (cfg : Config) (able : Bool) (hF : F)
    (hsc : sc ∈ s.clients) (htype : sc.type = .mem) : newMemLo cfg able s ≤ sc.copyOffset := by
  have hlow := storeLowestMemReaderOffset_le hsc htype
  have hahe := h.ahead hF sc hsc htype
  have hread : readMemLo cfg able s ≤ sc.copyOffset := by
    unfold readMemLo
    split_ifs <;> assumption
  have hdisk := diskMemLo_le cfg able s
  unfold newMemLo
  split_ifs <;> omega

/-- Memory that is not written is not freed, and neither is the last byte that is. -/
theorem Inv.newMemLo_lt_queue (h : Inv F s) (cfg : Config) :
    newMemLo cfg true s = s.inmemLo ∨ newMemLo cfg true s < s.queueOffset := by
  have hdisk := h.onDisk_le
  have hlo := h.lo_nonneg
  unfold newMemLo
  split_ifs with hlt
  · exact Or.inl rfl
  · unfold diskMemLo at hlt ⊢
    split_ifs with hne hcap
    · exact Or.inr (by omega)
    · exact Or.inr (by omega)
    · have hzero : readMemLo cfg true s = 0 := by
        by_contra hread
        exact hne ⟨rfl, hread⟩
      exact Or.inl (by omega)

/-- Only memory is freed, and the reader may go on. -/
def Trimmed (s s' : State) : Prop :=
  ∃ mem lo d, s' = { s with dataHdr := mem, inmemLo := lo, flags := { s.flags with entryDeferRead := d } }

lemma Trimmed.refl (s : State) : Trimmed s s := ⟨s.dataHdr, s.inmemLo, s.flags.entryDeferRead, rfl⟩

lemma Trimmed.same (h : Trimmed s s') : Same s s' := by
  obtain ⟨mem, lo, d, rfl⟩ := h
  exact ⟨rfl, rfl, rfl⟩

lemma Trimmed.sio (h : Trimmed s s') : s'.sio = s.sio := by
  obtain ⟨mem, lo, d, rfl⟩ := h
  rfl

lemma Inv.setData {mem : MemHdr} {target : ℤ} (h : Inv F s) (hmem : s.memStatus ≠ .inMemory)
    (hwin : Window s.object mem) (hupto : FreedUpto target s.dataHdr mem)
    (hque : s.sio ≠ none → target < s.queueOffset)
    (hrea : F → ∀ sc ∈ s.clients, sc.type = .mem → target ≤ sc.copyOffset) :
    Inv F { s with dataHdr := mem, inmemLo := mem.originOffset } := by
  have hori := hwin.origin
  have hle := hupto.le
  refine { h with
    window := hwin
    lo := rfl
    place := fun hsio => ?_
    memory := fun hin => absurd hin hmem
    ahead := fun hF sc hsc htype => hle.trans (hrea hF sc hsc htype) }
  have hlt := hque hsio
  rcases h.place hsio with ⟨hnode, hzero, -⟩ | ⟨k, hnode, hfre, hbeg, hend⟩
  · refine Or.inl ⟨hnode, hzero, ?_⟩
    omega
  · refine Or.inr ⟨k, hnode, ?_, hbeg, hend⟩
    show mem.freed ≤ k
    unfold smPageSize at hori hend
    omega

lemma resumeReader_eq (cfg : Config) (s : State) :
    ∃ d, resumeReader cfg s = { s with flags := { s.flags with entryDeferRead := d } } := by
  unfold resumeReader storeResumeRead
  split_ifs
  · exact ⟨false, rfl⟩
  · exact ⟨s.flags.entryDeferRead, rfl⟩

lemma trimMemory_ends (h : Inv F s) (hmem : s.memStatus ≠ .inMemory) (hable : able = true ∨ s.sio = none) :
    Ends (fun _ => False) (fun s' => Inv F s' ∧ Trimmed s s' ∧ (able = true → s.queueOffset = 0 → s'.inmemLo = s.inmemLo))
      (trimMemory cfg able s) := by
  refine ends_ite (fun hne => ?_) (fun _ => ⟨h, Trimmed.refl s, fun _ _ => rfl⟩)
  have hlo : s.dataHdr.originOffset ≤ newMemLo cfg able s := by
    rw [← h.lo]
    exact le_newMemLo cfg able s
  obtain ⟨mem, hfree, hwin, hupto⟩ := h.window.free hlo
  rw [hfree]
  have hque : s.sio ≠ none → newMemLo cfg able s < s.queueOffset := by
    intro hsio
    obtain rfl := hable.resolve_right hsio
    exact (h.newMemLo_lt_queue cfg).resolve_left (Ne.symm hne)
  have hinv := h.setData hmem hwin hupto hque fun hF sc hsc htype => h.newMemLo_le_copyOffset cfg able hF hsc htype
  obtain ⟨d, hd⟩ := resumeReader_eq cfg _
  show Inv F (resumeReader cfg _) ∧ Trimmed s (resumeReader cfg _) ∧ _
  rw [hd]
  refine ⟨hinv.setFlags ⟨id, h.released, h.aborted⟩, ⟨mem, mem.originOffset, d, rfl⟩, ?_⟩
  -- While nothing is written, nothing would be freed.
  rintro rfl hzero
  have hle := le_newMemLo cfg true s
  have hnn := h.lo_nonneg
  have hlt := (h.newMemLo_lt_queue cfg).resolve_left (Ne.symm hne)
  omega

/-- What maintaining the memory may do: it closes the file only where the entry cannot be swapped out. -/
structure Maintained (F : Prop) (s : State) (r : State × Bool) : Prop where
  keeps : Keeps F s r.1
  trimmed : r.2 = true → Trimmed s r.1
  sio : r.1.sio = s.sio ∨ r.1.sio = none
  /-- No memory is lost before swapping out begins. -/
  lo : r.2 = true → s.flags.entrySpecial = false → s.swapStatus = .none → r.1.inmemLo = 0

lemma Trimmed.maintained (h : Trimmed s s') (hinv : Inv F s')
    (hlo : s.flags.entrySpecial = false → s.swapStatus = .none → s'.inmemLo = 0) : Maintained F s (s', true) :=
  ⟨⟨hinv, h.same⟩, fun _ => h, Or.inl h.sio, fun _ => hlo⟩

/-- An entry whose swapping out has not begun can be swapped out only if all of it is in memory. -/
theorem Inv.lo_of_able (h : Inv F s) (hable : storeSwapOutAble cfg s = true) (hswap : s.swapStatus = .none) : s.inmemLo = 0 := by
  obtain ⟨hque, -, hsio, -⟩ := h.quiet hswap
  have hlo := h.lo_nonneg
  by_contra hne
  have hpos : 0 < s.inmemLo := by omega
  simp [storeSwapOutAble, hsio, hque, hpos] at hable

lemma maintainMemObject_ends {close : State → Prog State} (h : Inv F s) (hclo : storeSwapOutAble cfg s = false →
      Ends (fun _ => False) (fun s' => Keeps F s s' ∧ s'.sio = none) (close (storeReleaseRequest s))) :
    Ends (fun _ => False) (Maintained F s) (maintainMemObject cfg close s) := by
  refine ends_ite (fun hs => (Trimmed.refl s).maintained h fun hns => absurd (hs.symm.trans hns) (by simp)) (fun _ => ?_)
  refine ends_ite (fun hin => (Trimmed.refl s).maintained h fun _ _ => h.memory hin) (fun hmem => ?_)
  refine ends_ite (fun hable => ?_) (fun hable => ?_)
  · refine (trimMemory_ends h hmem (Or.inl rfl)).bind fun s' hs' => ?_
    obtain ⟨hinv, htri, hlo⟩ := hs'
    refine htri.maintained hinv fun _ hswap => ?_
    rw [hlo rfl (h.quiet hswap).1]
    exact h.lo_of_able hable hswap
  · refine (hclo (Bool.eq_false_iff.2 hable)).bind fun s₁ hs₁ => ?_
    obtain ⟨⟨hinv, hsame⟩, hsio⟩ := hs₁
    have hmem₁ : s₁.memStatus ≠ .inMemory := by rwa [hsame.memStatus]
    refine (trimMemory_ends hinv hmem₁ (Or.inr hsio)).bind fun s₂ hs₂ => ?_
    obtain ⟨hinv₂, htri, -⟩ := hs₂
    exact ⟨⟨hinv₂, hsame.trans htri.same⟩, fun hr => absurd hr (by simp), Or.inr (htri.sio.trans hsio),
      fun hr => absurd hr (by simp)⟩

/-! ## Closing the file -/

/-- A file is closed when all is written or the entry is not to be kept. -/
def MayClose (s : State) : Prop := s.flags.entryCachable = true → s.storeStatus = .ok ∧ s.queueOffset = s.inmemHi

lemma Inv.close (h : Inv F s) (hsio : s.sio ≠ none) (hmay : MayClose s) : Inv F { s with sio := none, closing := true } :=
  { h with
    quiet := fun hswap => absurd (h.quiet hswap).2.2.1 hsio
    file := fun _ hio => absurd hio (by simp)
    place := fun hsio => absurd rfl hsio
    closed := fun _ _ hc => hmay hc }

lemma Inv.done (h : Inv F s) (hswap : s.swapStatus = .writing) (hsio : s.sio = none) :
    Inv F { s with swapStatus := .done } :=
  { h with
    quiet := fun hnone => absurd hnone (by simp)
    file := fun io hio => absurd (hsio.symm.trans hio) (by simp)
    closed := fun _ _ hc => h.closed hsio (by simp [hswap]) hc
    header := fun hw => absurd hw (by simp)
    reading := fun sc hsc => ⟨fun _ => by simp, fun _ => rfl⟩ }

lemma storeReleaseRequest_keeps (h : Inv F s) : Keeps F s (storeReleaseRequest s) := by
  obtain ⟨f, hf, hlow, -, -⟩ := storeReleaseRequest_flags h
  rw [hf]
  exact ⟨h.setFlags hlow, rfl, rfl, rfl⟩

lemma storeReleaseRequest_sio (s : State) : (storeReleaseRequest s).sio = s.sio := by
  unfold storeReleaseRequest
  split_ifs <;> rfl

lemma storeSwapOutFileClosed_ends (h : Inv F s) (hswap : s.swapStatus = .writing) (hsio : s.sio = none) :
    Ends (fun _ => False) (fun s' => Keeps F s s' ∧ s'.sio = none) (storeSwapOutFileClosed cfg w s) := by
  obtain ⟨f, hf, hlow⟩ := storeCheckCachable_flags cfg w (h.done hswap hsio)
  have hinv : Inv F { s with swapStatus := .done, flags := f, sio := none, closing := false } :=
    { (h.done hswap hsio).setFlags hlow with
      quiet := fun hnone => absurd hnone (by simp)
      file := fun _ hio => absurd hio (by simp)
      place := fun hsio => absurd rfl hsio
      closed := fun _ _ hc => h.closed hsio (by simp [hswap]) (hlow.cachable hc) }
  rw [storeSwapOutFileClosed, check_pos hswap, hf]
  refine (maintainMemObject_ends hinv fun _ => ?_).bind fun r hr => ?_
  · exact ⟨storeReleaseRequest_keeps hinv, storeReleaseRequest_sio _⟩
  · have hsame := hr.keeps.2
    exact ⟨⟨hr.keeps.1, hsame.clients, hsame.inmemHi, hsame.memStatus⟩, hr.sio.elim id id⟩

lemma storeSwapOutFileClose_ends (h : Inv F s) (hmay : MayClose s) :
    Ends (fun _ => False) (fun s' => Keeps F s s' ∧ s'.sio = none) (storeSwapOutFileClose cfg w s) := by
  refine ends_ite (fun hsio => ⟨⟨h, Same.refl s⟩, hsio⟩) (fun hsio => ?_)
  obtain ⟨io, hio⟩ := ne_none_iff_exists'.1 hsio
  have hswap := (h.file io hio).1
  have hclo := h.close hsio hmay
  refine ends_ite (fun _ => ?_) (fun _ => ⟨⟨hclo, rfl, rfl, rfl⟩, rfl⟩)
  refine (storeSwapOutFileClosed_ends hclo hswap rfl).mono fun s' hs' => ?_
  obtain ⟨⟨hinv, hsame⟩, hsio'⟩ := hs'
  exact ⟨⟨hinv, hsame.clients, hsame.inmemHi, hsame.memStatus⟩, hsio'⟩

lemma storeSwapOutMaintainMemObject_ends (h : Inv F s) :
    Ends (fun _ => False) (Maintained F s) (storeSwapOutMaintainMemObject cfg w s) := by
  refine maintainMemObject_ends h fun _ => ?_
  obtain ⟨f, hf, hlow, hcac, -⟩ := storeReleaseRequest_flags h
  have hmay : MayClose (storeReleaseRequest s) := by
    rw [hf]
    exact fun hc => absurd (hcac.symm.trans hc) (by simp)
  have hkee := storeReleaseRequest_keeps h
  exact (storeSwapOutFileClose_ends hkee.1 hmay).mono fun s' hs' => ⟨Keeps.trans hkee.2 hs'.1, hs'.2⟩

/-! ## Writing -/

lemma Inv.next_page (h : Inv F s) (hsio : s.sio ≠ none) (hlt : s.queueOffset < s.inmemHi) :
    ∃ k p, nextNode s = some k ∧ nodeData s.dataHdr k = some p ∧ s.queueOffset = (smPageSize * k : ℕ) ∧
      s.dataHdr.freed ≤ k ∧ p = (s.object.drop (smPageSize * k)).take smPageSize := by
  have hhi := h.hi
  have hnode : ∀ k : ℕ, s.queueOffset = (smPageSize * k : ℕ) → s.dataHdr.freed ≤ k →
      s.dataHdr.pages[k - s.dataHdr.freed]? = some ((s.object.drop (smPageSize * k)).take smPageSize) := by
    intro k hk hfre
    exact h.window.getElem? hfre (by omega)
  have hdata : ∀ k : ℕ, s.queueOffset = (smPageSize * k : ℕ) → s.dataHdr.freed ≤ k →
      nodeData s.dataHdr k = some ((s.object.drop (smPageSize * k)).take smPageSize) := by
    intro k hk hfre
    rw [nodeData, if_neg (Nat.not_lt.2 hfre), hnode k hk hfre]
  rcases h.place hsio with ⟨hmem, hzero, hfre⟩ | ⟨k, hmem, hfre, -, hend⟩
  · have hne : s.dataHdr.pages ≠ [] := by
      refine h.window.kept fun hnil => ?_
      rw [hnil, length_nil] at hhi
      omega
    refine ⟨0, _, ?_, hdata 0 hzero (by omega), hzero, by omega, rfl⟩
    rw [nextNode, hmem, hfre]
    exact if_neg hne
  · -- The page that was written last is full, since there is more.
    have hfull : s.queueOffset = (smPageSize * (k + 1) : ℕ) := by
      rcases hend with hfull | ⟨-, hall, -⟩
      · exact hfull
      · omega
    have hsucc : s.dataHdr.freed ≤ k + 1 := by omega
    have hlen : k + 1 - s.dataHdr.freed < s.dataHdr.pages.length :=
      (List.getElem?_eq_some_iff.1 (hnode _ hfull hsucc)).1
    refine ⟨k + 1, _, ?_, hdata _ hfull hsucc, hfull, hsucc, rfl⟩
    rw [nextNode, hmem]
    exact if_pos ⟨hfre, by omega⟩

lemma Inv.writePage {k : ℕ} {p : Bytes} (h : Inv F s) (hsio : s.sio ≠ none) (hlt : s.queueOffset < s.inmemHi)
    (hwait : s.storeStatus = .pending → smPageSize ≤ s.inmemHi - s.queueOffset) (hk : s.queueOffset = (smPageSize * k : ℕ))
    (hfre : s.dataHdr.freed ≤ k) (hp : p = (s.object.drop (smPageSize * k)).take smPageSize) :
    Inv F (s.writePage k p) := by
  have hhi := h.hi
  have hlen : (p.length : ℤ) = min (smPageSize : ℤ) (s.inmemHi - s.queueOffset) := by
    rw [hp, length_take, length_drop]
    omega
  have hpos : 0 < smPageSize := smPageSize_pos
  have hmul : smPageSize * (k + 1) = smPageSize * k + smPageSize := Nat.mul_succ _ _
  refine { h with
    queue_nonneg := by show 0 ≤ s.queueOffset + p.length; omega
    queue_le := by show s.queueOffset + p.length ≤ s.inmemHi; omega
    written := ?_
    quiet := fun hnone => absurd (h.quiet hnone).2.2.1 hsio
    file := ?_
    place := fun _ => Or.inr ⟨k, rfl, hfre, ?_, ?_⟩
    closed := fun hnone => absurd (map_eq_none_iff.1 hnone) hsio }
  · show s.written ++ p = s.object.take (s.queueOffset + p.length).toNat
    have htake : (s.queueOffset + p.length).toNat = smPageSize * k + p.length := by omega
    have hq : s.queueOffset.toNat = smPageSize * k := by omega
    rw [h.written, htake, hq, take_add]
    congr 1
    rw [hp, length_take]
    exact take_eq_take_min
  · intro io hio
    obtain ⟨io₀, hio₀, rfl⟩ := map_eq_some_iff.1 hio
    obtain ⟨hswap, hclo, hoffset, hwri⟩ := h.file io₀ hio₀
    refine ⟨hswap, hclo, ?_, ?_⟩
    · show io₀.offset ≤ io₀.writeOffset + p.length
      omega
    · show io₀.writeOffset + p.length = s.swapHdrSz + (s.queueOffset + p.length)
      omega
  · show (smPageSize * k : ℕ) < s.queueOffset + p.length
    omega
  · show s.queueOffset + p.length = _ ∨ _
    by_cases hfull : (smPageSize : ℤ) ≤ s.inmemHi - s.queueOffset
    · omega
    · right
      refine ⟨?_, ?_, ?_⟩
      · show s.storeStatus = .ok
        cases hst : s.storeStatus with
        | ok => rfl
        | pending => exact absurd (hwait hst) hfull
      · show s.queueOffset + p.length = s.inmemHi
        omega
      · show s.queueOffset + p.length ≤ _
        omega

/-- What the loop does: it only moves the writer. -/
structure Wrote (F : Prop) (s s' : State) : Prop where
  keeps : Keeps F s s'
  sio : s'.sio ≠ none
  storeStatus : s'.storeStatus = s.storeStatus
  all : s.storeStatus = .ok → s'.queueOffset = s'.inmemHi

section

variable (h : Inv F s)
  (hsio : s.sio ≠ none)
  (hlt : s.queueOffset < s.inmemHi)
  (hwait : s.storeStatus = .pending → smPageSize ≤ s.inmemHi - s.queueOffset)

include h hsio hlt hwait

lemma writeNode_eq : ∃ k p, writeNode s = .ok (s.writePage k p) ∧ Inv F (s.writePage k p) ∧
      (s.queueOffset + p.length = s.inmemHi ∨ (p.length : ℤ) = smPageSize) := by
  obtain ⟨k, p, hnext, hdata, hk, hfre, hp⟩ := h.next_page hsio hlt
  have hhi := h.hi
  have hlen : (p.length : ℤ) = min (smPageSize : ℤ) (s.inmemHi - s.queueOffset) := by
    rw [hp, length_take, length_drop]
    omega
  have hpos := smPageSize_pos
  refine ⟨k, p, ?_, h.writePage hsio hlt hwait hk hfre hp, by omega⟩
  rw [writeNode, hnext]
  simp only
  rw [hdata]
  simp only
  rw [check_pos (by omega : 0 < p.length)]
  rfl

lemma writeNodes_ends (fuel : ℕ) (hfuel : s.inmemHi - s.queueOffset ≤ (smPageSize * fuel : ℕ)) :
    Ends (fun _ => False) (Wrote F s) (writeNodes fuel s) := by
  induction fuel generalizing s with
  | zero =>
    omega
  | succ fuel ih =>
    obtain ⟨k, p, hwri, hinv, hpage⟩ := writeNode_eq h hsio hlt hwait
    have hsio' : (s.writePage k p).sio ≠ none := fun hnone => hsio (map_eq_none_iff.1 hnone)
    have hswap : (s.writePage k p).swapStatus = .writing := by
      obtain ⟨io, hio⟩ := ne_none_iff_exists'.1 hsio
      exact (h.file io hio).1
    have hkee : Keeps F s (s.writePage k p) := ⟨hinv, rfl, rfl, rfl⟩
    have hle : s.queueOffset + p.length ≤ s.inmemHi := hinv.queue_le
    rw [Nat.mul_succ] at hfuel
    rw [writeNodes, hwri, ok_bind, if_neg (not_not.2 hswap)]
    refine ends_ite (fun hstop => ?_) (fun hgo => ends_ite (fun hmore => ?_) (fun hdone => ?_))
    · exact ⟨hkee, hsio', rfl, fun hok => absurd (hok.symm.trans hstop.1) (by simp)⟩
    · have hmore' : s.queueOffset + p.length < s.inmemHi := Int.sub_pos.1 hmore
      have hrest : s.inmemHi - (s.queueOffset + p.length) ≤ (smPageSize * fuel : ℕ) := by omega
      refine (ih hinv hsio' hmore' (fun hp => ?_) hrest).mono fun s' hs' => ?_
      · by_contra hsho
        exact hgo ⟨hp, by omega⟩
      · exact ⟨Keeps.trans hkee.2 hs'.keeps, hs'.sio, hs'.storeStatus, hs'.all⟩
    · refine ⟨hkee, hsio', rfl, fun _ => ?_⟩
      have hdone' : ¬ 0 < s.inmemHi - (s.queueOffset + p.length) := hdone
      show s.queueOffset + p.length = s.inmemHi
      omega

end

lemma swapOutNodes_ends (h : Inv F s) (hlt : s.queueOffset < s.inmemHi)
    (hwait : s.storeStatus = .pending → smPageSize ≤ s.inmemHi - s.queueOffset) :
    Ends (fun _ => False) (Keeps F s) (swapOutNodes cfg w s) := by
  refine ends_ite (fun _ => ⟨h, Same.refl s⟩) (fun hsio => ?_)
  have hfuel : s.inmemHi - s.queueOffset ≤ (smPageSize * (s.dataHdr.pages.length + 1) : ℕ) := by
    have hlen := h.window.length_flatten
    have hpag := h.window.paged.length_flatten_le
    have hori := h.window.origin
    have hhi := h.hi
    have hbeg : s.dataHdr.originOffset ≤ s.queueOffset := by
      rcases h.place hsio with ⟨-, hzero, hfre⟩ | ⟨k, -, hfre, hbeg, -⟩
      · rw [hori, hfre, hzero]
        rfl
      · have hmul : smPageSize * s.dataHdr.freed ≤ smPageSize * k := Nat.mul_le_mul_left _ hfre
        omega
    rw [Nat.mul_succ]
    omega
  refine (writeNodes_ends h hsio hlt hwait _ hfuel).bind fun s' hs' => ?_
  rw [if_neg hs'.sio]
  refine ends_ite (fun hok => ?_) (fun _ => hs'.keeps)
  have hall := hs'.all (hs'.storeStatus.symm.trans hok)
  rw [check_pos hall.symm]
  exact (storeSwapOutFileClose_ends hs'.keeps.1 fun _ => ⟨hok, hall⟩).mono fun s'' hs'' => Keeps.trans hs'.keeps.2 hs''.1

/-! ## Swapping out -/

lemma Inv.start (h : Inv F s) (hswap : s.swapStatus = .none) (hlo : s.inmemLo = 0) : Inv F (storeSwapOutStart w s) := by
  obtain ⟨hque, hnode, hsio, hclo⟩ := h.quiet hswap
  have hori := h.window.origin
  have hfre : s.dataHdr.freed = 0 := by
    rw [h.lo] at hlo
    unfold smPageSize at hori
    omega
  have hcli : ∀ sc ∈ s.clients, sc.swapinSio = true → False := fun sc hsc hin => (h.reading sc hsc).1 hin hswap
  unfold storeSwapOutStart
  split_ifs
  · refine { h with
      quiet := fun hnone => absurd hnone (by simp)
      file := ?_
      place := fun _ => Or.inl ⟨hnode, hque, hfre⟩
      closed := fun hnone => absurd hnone (by simp)
      header := fun _ => w.swapHdrSz_pos
      reading := ?_ }
    · rintro io hio
      obtain rfl := some.inj hio
      refine ⟨rfl, hclo, w.swapHdrSz_pos.le, ?_⟩
      show w.swapHdrSz = w.swapHdrSz + s.queueOffset
      omega
    · intro sc hsc
      refine ⟨fun hin => (hcli sc hsc hin).elim, fun hread => ?_⟩
      have hdone := (h.reading sc hsc).2 hread
      rw [hswap] at hdone
      cases hdone
  · refine { h with
      quiet := fun _ => ⟨hque, hnode, hsio, hclo⟩
      file := fun io hio => absurd (hsio.symm.trans hio) (by simp)
      closed := fun _ hne => absurd rfl hne
      header := fun hw => absurd hw (by simp)
      reading := fun sc hsc => ⟨fun hin => (hcli sc hsc hin).elim, fun hread => ?_⟩ }
    have hdone := (h.reading sc hsc).2 hread
    rw [hswap] at hdone
    cases hdone

lemma swapOutData_ends (h : Inv F s) (hlo : s.swapStatus = .none → 0 < s.inmemHi - s.queueOffset → s.inmemLo = 0) :
    Ends (fun _ => False) (Keeps F s) (swapOutData cfg w (s.inmemHi - s.queueOffset) s) := by
  refine ends_ite (fun hzero => ?_) (fun hne => ?_)
  · refine ends_ite (fun hok => ?_) (fun _ => ⟨h, Same.refl s⟩)
    exact (storeSwapOutFileClose_ends h fun _ => ⟨hok, by omega⟩).mono fun s' hs' => hs'.1
  have hle := h.queue_le
  have hlt : s.queueOffset < s.inmemHi := by omega
  refine ends_ite (fun _ => ⟨h, Same.refl s⟩) (fun hwait => ?_)
  have hpage : s.storeStatus = .pending → smPageSize ≤ s.inmemHi - s.queueOffset := by
    intro hp
    by_contra hsho
    exact hwait ⟨hp, Or.inl (by omega)⟩
  refine ends_ite (fun hstart => ?_) (fun _ => swapOutNodes_ends h hlt hpage)
  have hlo₀ := hlo hstart.1 (by omega)
  rw [check_pos (h.quiet hstart.1).2.2.1, check_pos hlo₀]
  obtain ⟨f, hf, hlow⟩ := storeCheckCachable_flags cfg w h
  have hinv := h.setFlags hlow
  rw [hf]
  refine ends_ite (fun _ => ?_) (fun _ => ?_)
  · have hsta : Inv F (storeSwapOutStart w { s with flags := f }) := hinv.start hstart.1 hlo₀
    have hsame : Same s (storeSwapOutStart w { s with flags := f }) := by
      unfold storeSwapOutStart
      split_ifs <;> exact ⟨rfl, rfl, rfl⟩
    have hque : (storeSwapOutStart w { s with flags := f }).queueOffset = s.queueOffset := by
      unfold storeSwapOutStart
      split_ifs <;> rfl
    have hstat : (storeSwapOutStart w { s with flags := f }).storeStatus = s.storeStatus := by
      unfold storeSwapOutStart
      split_ifs <;> rfl
    refine (swapOutNodes_ends hsta ?_ ?_).mono fun s' hs' => Keeps.trans hsame hs'
    · rwa [hque, hsame.inmemHi]
    · rwa [hque, hsame.inmemHi, hstat]
  · refine (storeSwapOutMaintainMemObject_ends hinv).bind fun r hr => ?_
    have hsame := hr.keeps.2
    exact ⟨hr.keeps.1, hsame.clients, hsame.inmemHi, hsame.memStatus⟩

lemma storeSwapOut_ends (h : Inv F s) : Ends (fun _ => False) (Keeps F s) (storeSwapOut cfg w s) := by
  refine ends_ite (fun habo => ?_) (fun _ => ?_)
  · have hrel := h.aborted habo
    rw [check_pos hrel]
    have hmay : MayClose s := fun hc => absurd ((h.released hrel).symm.trans hc) (by simp)
    exact (storeSwapOutFileClose_ends h hmay).mono fun s' hs' => hs'.1
  refine ends_ite (fun _ => ⟨h, Same.refl s⟩) (fun hspe => ?_)
  rw [check_pos h.queue_le]
  refine ends_ite (fun _ => ⟨h, Same.refl s⟩) (fun _ => ?_)
  refine (storeSwapOutMaintainMemObject_ends h).bind fun r hr => ends_ite (fun hable => ?_) (fun _ => hr.keeps)
  have hlo := hr.lo hable (Bool.eq_false_iff.2 hspe)
  have hkee := hr.keeps
  obtain ⟨mem, lo, d, htri⟩ := hr.trimmed hable
  rw [htri] at hlo hkee ⊢
  exact (swapOutData_ends hkee.1 fun hswap _ => hlo hswap).mono fun s' hs' => Keeps.trans hkee.2 hs'

end SquidVideoCache.MemObject
