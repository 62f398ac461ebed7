import SquidVideoCache.MemObject.Held

/-!
# Writers and readers of an object

Every event keeps the invariant.
-/

namespace SquidVideoCache.MemObject
open Lib Stmem List Option

variable {F : Prop} {cfg : Config} {w : World} {s s' : State} {sc : StoreClient} {c : ℕ}
  {n offset : ℤ} {E : Failure → Prop} {e : Event}

/-! ## Clients -/

/-- What the invariant says of one client. -/
structure ClientOk (F : Prop) (s : State) (sc : StoreClient) : Prop where
  opened : sc.swapinSio = true → s.swapStatus ≠ .none
  header : sc.diskIoPending = some .header → s.swapStatus = .done
  ahead : F → sc.type = .mem → s.inmemLo ≤ sc.copyOffset

lemma Inv.clientOk (h : Inv F s) (hsc : sc ∈ s.clients) : ClientOk F s sc :=
  ⟨(h.reading sc hsc).1, (h.reading sc hsc).2, fun hF => h.ahead hF sc hsc⟩

lemma Inv.setClients {l : List StoreClient} {next : ℕ} (h : Inv F s) (hl : ∀ x ∈ l, ClientOk F s x) :
    Inv F { s with clients := l, nclients := n, nextClient := next } :=
  { h with
    reading := fun x hx => ⟨(hl x hx).opened, (hl x hx).header⟩
    ahead := fun hF x hx => (hl x hx).ahead hF }

lemma Inv.setClient (h : Inv F s) (hsc : ClientOk F s sc) : Inv F (s.setClient sc) := by
  refine h.setClients fun x hx => ?_
  obtain ⟨y, hy, rfl⟩ := mem_map.1 hx
  split_ifs
  · exact hsc
  · exact h.clientOk hy

lemma mem_setClient {x : StoreClient} (hsc : x ∈ s.clients) (hid : x.id = sc.id) : sc ∈ (s.setClient sc).clients :=
  mem_map.2 ⟨x, hsc, if_pos hid⟩

lemma mem_of_client (h : s.client c = some sc) : sc ∈ s.clients := mem_of_find?_eq_some h

lemma Inv.callback (h : Inv F s) (hsc : ClientOk F s sc) : Inv F (storeClientCallback s sc) :=
  h.setClient ⟨hsc.opened, hsc.header, hsc.ahead⟩

/-- A copy for a client may stop at an assertion, but at the one on the client's type only if a memory client
asks for data that has not come yet. -/
def Refused (F : Prop) (hi : ℤ) (type : ClientType) (copyOffset : ℤ) (f : Failure) : Prop :=
  f = .other ∨ (f = .diskClient ∧ type = .mem ∧ (F → hi ≤ copyOffset))

lemma check_other_ends {α : Type} {Q : α → Prop} {p : Prop} [Decidable p] {x : Prog α}
    (hE : E .other) (hx : p → Ends E Q x) : Ends E Q (check .other p >>= fun _ => x) := by
  by_cases hp : p
  · rw [check_pos hp]
    exact hx hp
  · rw [check, if_neg hp]
    exact hE

/-- The header is read only from a file that is complete. -/
theorem storeClientFileRead_ends (hE : E .other) (h : Inv F s) (hsc : ClientOk F s sc)
    (hdone : s.swapHdrSz = 0 → s.swapStatus = .done) : Ends E (Inv F) (storeClientFileRead s sc) := by
  refine check_other_ends hE fun _ => check_other_ends hE fun _ => ends_ite (fun hzero => ?_) (fun _ => ?_)
  · exact h.setClient ⟨hsc.opened, fun _ => hdone hzero, hsc.ahead⟩
  · exact check_other_ends hE fun _ => h.setClient ⟨hsc.opened, fun hread => absurd hread (by simp), hsc.ahead⟩

lemma copyData_ends (h : Inv F s) (hsc : sc ∈ s.clients) (hin : sc.type = .disk → sc.swapinSio = true) :
    Ends (Refused F s.inmemHi sc.type sc.copyOffset) (Inv F) (copyData cfg w s sc) := by
  have hok := h.clientOk hsc
  refine ends_ite (fun _ => ?_) (fun hout => ?_)
  · split
    · exact Or.inl rfl
    · refine ends_ite (fun _ => ?_) (fun _ => h.callback hok)
      refine ((storeSwapOutMaintainMemObject_ends h).weaken fun _ hf => hf.elim).bind fun r hr => ?_
      obtain ⟨hinv, hsame⟩ := hr.keeps
      exact hinv.callback (hinv.clientOk (hsame.clients ▸ hsc))
  · by_cases htype : sc.type = .disk
    · rw [check_pos htype]
      refine storeClientFileRead_ends (Or.inl rfl) h hok fun hzero => ?_
      -- A file that is being written has its metadata.
      have hne := hok.opened (hin htype)
      have hpos := h.header
      cases hswap : s.swapStatus with
      | none => exact absurd hswap hne
      | writing =>
        have := hpos hswap
        omega
      | done => rfl
    · have hmem : sc.type = .mem := by
        cases hcase : sc.type with
        | mem => rfl
        | disk => exact absurd hcase htype
      rw [check, if_neg htype]
      refine Or.inr ⟨rfl, hmem, fun hF => ?_⟩
      have hlo := hok.ahead hF hmem
      omega

lemma storeClientCopy3_ends (h : Inv F s) (hsc : sc ∈ s.clients) :
    Ends (Refused F s.inmemHi sc.type sc.copyOffset) (Inv F) (storeClientCopy3 cfg w s sc) := by
  have hok := h.clientOk hsc
  refine ends_ite (fun _ => h.callback hok) (fun _ => ends_ite (fun _ => ?_) (fun _ => ?_))
  · unfold waitForMore storeResumeRead
    split_ifs
    · exact h.setFlags ⟨id, h.released, h.aborted⟩
    · exact h
  refine ends_ite (fun _ => ?_) (fun hdisk => ?_)
  · refine ends_ite (fun _ => h.callback hok) (fun _ => ends_ite (fun _ => ?_) (fun _ => h))
    refine check_other_ends (Or.inl rfl) fun _ => ends_ite (fun hope => ?_) (fun _ => h.callback hok)
    have hne : s.swapStatus ≠ .none := of_decide_eq_true (Bool.and_eq_true_iff.1 hope).1
    exact copyData_ends (h.setClient ⟨fun _ => hne, hok.header, hok.ahead⟩) (mem_setClient hsc rfl) fun _ => rfl
  · refine copyData_ends h hsc fun htype => ?_
    by_contra hclosed
    exact hdisk ⟨htype, Bool.eq_false_iff.2 hclosed⟩

lemma storeClientCopy2_ends (h : Inv F s) (hsc : sc ∈ s.clients) :
    Ends (Refused F s.inmemHi sc.type sc.copyOffset) (Inv F) (storeClientCopy2 cfg w s sc) := by
  have hok := h.clientOk hsc
  refine ends_ite (fun _ => h) (fun _ => ends_ite (fun _ => h) (fun _ => ends_ite (fun _ => ?_) (fun _ => ?_)))
  · exact h.setClient ⟨hok.opened, hok.header, hok.ahead⟩
  · refine check_other_ends (Or.inl rfl) fun _ => ?_
    exact storeClientCopy3_ends (h.setClient ⟨hok.opened, hok.header, hok.ahead⟩) (mem_setClient hsc rfl)

lemma storeClientCopy_ends {seen : ℤ} {size : ℕ} (h : Inv F s) (hsc : sc ∈ s.clients)
    (hfor : F → sc.copyOffset ≤ offset) :
    Ends (Refused F s.inmemHi sc.type offset) (Inv F) (storeClientCopy cfg w s sc seen offset size) := by
  have hok := h.clientOk hsc
  have hreq : Inv F (s.setClient (sc.request seen offset size)) :=
    h.setClient ⟨hok.opened, hok.header, fun hF htype => (hok.ahead hF htype).trans (hfor hF)⟩
  have hmem : sc.request seen offset size ∈ (s.setClient (sc.request seen offset size)).clients := mem_setClient hsc rfl
  refine check_other_ends (Or.inl rfl) fun _ => ends_ite (fun _ => ?_) (fun _ => storeClientCopy2_ends hreq hmem)
  refine ((storeSwapOut_ends hreq).weaken fun _ hf => hf.elim).bind fun s' hs' => ?_
  obtain ⟨hinv, hsame⟩ := hs'
  have hhi : s'.inmemHi = s.inmemHi := hsame.inmemHi
  rw [← hhi]
  exact storeClientCopy2_ends hinv (hsame.clients ▸ hmem)

/-! ## The server side -/

lemma Inv.append (h : Inv F s) (hpending : s.storeStatus = .pending) (data : Bytes) : Inv F { s with
      dataHdr := stmemAppend s.dataHdr data, inmemHi := s.inmemHi + data.length, object := s.object ++ data } := by
  have hhi := h.hi
  have hle := h.queue_le
  obtain ⟨hfre, hori⟩ := stmemAppend_frame _ data
  have hnot : s.storeStatus ≠ .ok := by
    rw [hpending]
    simp
  refine { h with
    window := h.window.append data
    hi := ?_
    lo := h.lo.trans hori.symm
    queue_le := by show s.queueOffset ≤ s.inmemHi + data.length; omega
    written := ?_
    place := fun hsio => ?_
    closed := fun hsio hswap hc => absurd (h.closed hsio hswap hc).1 hnot }
  · show s.inmemHi + data.length = (s.object ++ data).length
    rw [length_append]
    omega
  · show s.written = (s.object ++ data).take s.queueOffset.toNat
    rw [h.written, take_append_of_le_length (by omega)]
  · rcases h.place hsio with ⟨hnode, hzero, hfir⟩ | ⟨k, hnode, hkept, hbeg, hend⟩
    · exact Or.inl ⟨hnode, hzero, hfre.trans hfir⟩
    · refine Or.inr ⟨k, hnode, hfre.trans_le hkept, hbeg, Or.inl ?_⟩
      exact hend.resolve_right fun hall => hnot hall.1

lemma Inv.completed (h : Inv F s) : Inv F s.completed := by
  refine { h with
    place := fun hsio => ?_
    closed := fun hsio hswap hc => ⟨rfl, (h.closed hsio hswap hc).2⟩ }
  rcases h.place hsio with hfir | ⟨k, hnode, hkept, hbeg, hend⟩
  · exact Or.inl hfir
  · refine Or.inr ⟨k, hnode, hkept, hbeg, ?_⟩
    rcases hend with hfull | ⟨-, hall⟩
    · exact Or.inl hfull
    · exact Or.inr ⟨rfl, hall⟩

lemma Inv.checkLength (h : Inv F s) (validLength : Bool) : Inv F (checkLength validLength s) := by
  unfold MemObject.checkLength
  split_ifs
  · exact h
  · have hlow : Lowered s.flags { s.flags with entryBadLength := true } := ⟨id, h.released, h.aborted⟩
    exact (h.setFlags hlow).releaseRequest

lemma Inv.abort (h : Inv F s) (hrel : s.flags.releaseRequest = true) : Inv F s.abort := { h.completed with
    closed := fun hsio hswap hc => absurd ((h.released hrel).symm.trans hc) (by simp)
    released := h.released
    aborted := fun _ => hrel
    memory := fun hin => absurd hin (by simp [State.abort]) }

lemma Inv.writeDone (h : Inv F s) (he : enabled s (.writeDone n) = true) :
    Inv F { s with sio := s.sio.map fun io => { io with offset := io.offset + n } } := by
  refine { h with
    quiet := fun hswap => ?_
    file := fun io hio => ?_
    place := fun hsio => h.place fun hnone => hsio (by simp [hnone])
    closed := fun hsio => h.closed (map_eq_none_iff.1 hsio) }
  · obtain ⟨hque, hnode, hsio, hclo⟩ := h.quiet hswap
    exact ⟨hque, hnode, by simp [hsio], hclo⟩
  · obtain ⟨io₀, hio₀, rfl⟩ := map_eq_some_iff.1 hio
    obtain ⟨hswap, hclo, -, hwri⟩ := h.file io₀ hio₀
    rw [enabled, hio₀, any_some, decide_eq_true_iff] at he
    exact ⟨hswap, hclo, he.2, hwri⟩

/-! ## Events -/

/-- The type of the client that an event copies for, and where it reads. -/
def asks (s : State) : Event → Option (ClientType × ℤ)
  | .copy _ c _ copyOffset _ => (s.client c).map fun sc => (sc.type, copyOffset)
  | .copy2 _ c => (s.client c).map fun sc => (sc.type, sc.copyOffset)
  | _ => none

/-- A client does not go back. -/
def forward (s : State) : Event → Bool
  | .copy _ c _ copyOffset _ => (s.client c).all fun sc => sc.copyOffset ≤ copyOffset
  | _ => true

def Stopped (F : Prop) (s : State) (e : Event) (f : Failure) : Prop :=
  f = .other ∨ (f = .diskClient ∧ ∃ offset, asks s e = some (.mem, offset) ∧ (F → s.inmemHi ≤ offset))

lemma Refused.stopped {type : ClientType} {f : Failure} (hasks : asks s e = some (type, offset))
    (h : Refused F s.inmemHi type offset f) : Stopped F s e f := by
  rcases h with hoth | ⟨hdisk, rfl, hhi⟩
  · exact Or.inl hoth
  · exact Or.inr ⟨hdisk, offset, hasks, hhi⟩

lemma withClient_ends {f : StoreClient → Prog State} (h : Inv F s)
    (hf : ∀ sc, s.client c = some sc → Ends E (Inv F) (f sc)) : Ends E (Inv F) (withClient s c f) := by
  unfold withClient
  split
  · exact h
  · rename_i sc hsc
    exact hf sc hsc

lemma Inv.readHeader {sizes : Option (ℤ × ℤ × Bool)} (hE : E .other) (h : Inv F s)
    (hsc : sc ∈ s.clients) (hread : sc.diskIoPending = some .header) :
    Ends E (Inv F) (storeClientReadHeader s sc sizes) := by
  have hok := h.clientOk hsc
  have hdone := hok.header hread
  have hsio : s.sio = none := by
    by_contra hsio
    obtain ⟨io, hio⟩ := ne_none_iff_exists'.1 hsio
    have hwr := (h.file io hio).1
    rw [hdone] at hwr
    cases hwr
  have hsiz : ∀ swapHdrSz objectSz, Inv F { s with swapHdrSz := swapHdrSz, objectSz := objectSz } := fun _ _ =>
    { h with
      file := fun io hio => absurd (hsio.symm.trans hio) (by simp)
      header := fun hw => absurd (hdone.symm.trans hw) (by simp) }
  have hnone : ClientOk F s { sc with diskIoPending := none } := ⟨hok.opened, fun hp => absurd hp (by simp), hok.ahead⟩
  match sizes with
  | none => exact check_other_ends hE fun _ => h.callback hnone
  | some (swapHdrSz, objectSz, served) =>
    refine check_other_ends hE fun _ => ends_ite (fun _ => ?_) (fun _ => ?_)
    · exact (hsiz _ _).callback ⟨hnone.opened, hnone.header, hnone.ahead⟩
    · exact storeClientFileRead_ends hE (hsiz _ _) ⟨hnone.opened, hnone.header, hnone.ahead⟩ fun _ => hdone

lemma storeClientType_mem (h : storeClientType s = .mem) : s.inmemLo = 0 := by
  by_contra hne
  rw [storeClientType, if_pos hne] at h
  cases h

lemma Inv.step (h : Inv F s) (he : enabled s e = true) (hfor : F → forward s e = true) :
    Ends (Stopped F s e) (Inv F) (step cfg s e) := by
  have hoth : Stopped F s e .other := Or.inl rfl
  cases e with
  | append data => exact check_other_ends hoth fun hp => h.append hp data
  | swapOut w => exact ((storeSwapOut_ends h).weaken fun _ hf => hf.elim).mono fun s' hs' => hs'.1
  | maintain w =>
    exact ((storeSwapOutMaintainMemObject_ends h).weaken fun _ hf => hf.elim).bind fun r hr => hr.keeps.1
  | register =>
    refine h.setClients fun x hx => ?_
    rcases mem_cons.1 hx with rfl | hx
    · refine ⟨fun hin => absurd hin (by simp), fun hp => absurd hp (by simp), fun _ htype => ?_⟩
      have hlo : { s with nclients := s.nclients + 1 }.inmemLo = 0 := storeClientType_mem htype
      exact hlo.le
    · exact h.clientOk hx
  | copy w c seen offset size =>
    refine withClient_ends h fun sc hsc => ?_
    have hgo : F → sc.copyOffset ≤ offset := by
      intro hF
      have hall := hfor hF
      rw [forward, hsc, all_some, decide_eq_true_iff] at hall
      exact hall
    refine (storeClientCopy_ends h (mem_of_client hsc) hgo).weaken fun f hf => hf.stopped ?_
    rw [asks, hsc, map_some]
  | copy2 w c =>
    refine withClient_ends h fun sc hsc => ?_
    refine (storeClientCopy2_ends h (mem_of_client hsc)).weaken fun f hf => hf.stopped ?_
    rw [asks, hsc, map_some]
  | copied c =>
    refine withClient_ends h fun sc hsc => ?_
    have hok := h.clientOk (mem_of_client hsc)
    exact h.setClient ⟨hok.opened, hok.header, hok.ahead⟩
  | copyEvent c =>
    refine withClient_ends h fun sc hsc => ?_
    have hok := h.clientOk (mem_of_client hsc)
    exact h.setClient ⟨hok.opened, hok.header, hok.ahead⟩
  | readBody c =>
    refine withClient_ends h fun sc hsc => ?_
    have hok := h.clientOk (mem_of_client hsc)
    exact check_other_ends hoth fun _ => h.callback ⟨hok.opened, fun hp => absurd hp (by simp), hok.ahead⟩
  | readHeader c sizes =>
    refine withClient_ends h fun sc hsc => h.readHeader hoth (mem_of_client hsc) ?_
    rw [enabled, hsc, any_some, decide_eq_true_iff] at he
    exact he
  | unregister w c =>
    have hdrop : Inv F (s.dropClient c) := h.setClients fun x hx => h.clientOk (mem_of_mem_filter hx)
    refine ends_ite (fun _ => h) (fun _ => ends_ite (fun _ => ?_) (fun _ => hdrop))
    exact ((storeSwapOut_ends hdrop).weaken fun _ hf => hf.elim).mono fun s' hs' => hs'.1
  | complete w validLength =>
    refine ends_ite (fun _ => ?_) (fun _ => check_other_ends hoth fun _ => ?_)
    · exact check_other_ends hoth fun _ => check_other_ends hoth fun _ => h
    · have hdone := h.completed.checkLength validLength
      exact ((storeSwapOut_ends hdone).weaken fun _ hf => hf.elim).mono fun s' hs' => hs'.1
  | abort =>
    refine check_other_ends hoth fun _ => ?_
    obtain ⟨f, hf, hlow, -, hrel⟩ := storeReleaseRequest_flags h
    rw [hf]
    exact (h.setFlags hlow).abort hrel
  | fileClose w =>
    have hrel := h.aborted he
    have hmay : MayClose s := fun hc => absurd ((h.released hrel).symm.trans hc) (by simp)
    exact ((storeSwapOutFileClose_ends h hmay).weaken fun _ hf => hf.elim).mono fun s' hs' => hs'.1.1
  | fileClosed w =>
    have hclo : s.closing = true := he
    have hsio : s.sio = none := by
      by_contra hsio
      obtain ⟨io, hio⟩ := ne_none_iff_exists'.1 hsio
      exact absurd ((h.file io hio).2.1.symm.trans hclo) (by simp)
    by_cases hswap : s.swapStatus = .writing
    · exact ((storeSwapOutFileClosed_ends h hswap hsio).weaken fun _ hf => hf.elim).mono fun s' hs' => hs'.1.1
    · exact check_other_ends hoth fun hw => absurd hw hswap
  | writeDone n => exact h.writeDone he
  | releaseRequest => exact h.releaseRequest
  | keepInMemory =>
    obtain ⟨-, -, -, -, -, -, hlo⟩ := of_decide_eq_true he
    exact { h with memory := fun _ => hlo }
  | outside d f n k len =>
    have hfla := h.setFlags
      ⟨id, h.released, h.aborted⟩
    exact { hfla with window := hfla.window }

/-! ## Runs -/

variable {onDisk cachable special : Bool} {es : List Event}

lemma inv_init : Inv F (State.init onDisk cachable special) where
  window := window_empty
  hi := rfl
  lo := rfl
  queue_nonneg := le_refl _
  queue_le := le_refl _
  written := rfl
  quiet := fun _ => ⟨rfl, rfl, rfl, rfl⟩
  file := fun io hio => absurd hio (by simp [State.init])
  place := fun hsio => absurd rfl hsio
  closed := fun _ hswap _ => by
    cases onDisk with
    | false => exact absurd rfl hswap
    | true => exact ⟨rfl, rfl⟩
  released := fun hrel => by
    cases cachable with
    | false => rfl
    | true => exact absurd hrel (by simp [State.init])
  aborted := fun hab => absurd hab (by simp [State.init])
  memory := fun _ => rfl
  header := fun hw => by cases onDisk <;> exact absurd hw (by simp [State.init])
  reading := fun sc hsc => absurd hsc not_mem_nil
  ahead := fun _ sc hsc => absurd hsc not_mem_nil

lemma inv_of_reached {cond : State → Event → Bool} (hcond : F → ∀ s e, cond s e = true → forward s e = true)
    (h : (machine cfg onDisk cachable special).Reached cond es s) : Inv F s := by
  induction h with
  | init => exact inv_init
  | next e _ he hc hstep ih => exact (ih.step he fun hF => hcond hF _ e hc).ok_of_eq hstep

lemma Inv.memnode_live {node : ℕ} (h : Inv F s) (hsio : s.sio ≠ none) (hnode : s.memnode = some node) :
    (nodeData s.dataHdr node).isSome = true := by
  have hhi := h.hi
  have hle := h.queue_le
  rcases h.place hsio with ⟨hnone, -⟩ | ⟨k, hk, hfre, hbeg, -⟩
  · rw [hnone] at hnode
    cases hnode
  · obtain rfl := some.inj (hk.symm.trans hnode)
    rw [nodeData, if_neg (Nat.not_lt.2 hfre), h.window.getElem? hfre (by omega)]
    rfl

/-- What is written is the object up to `queue_offset`; the node that was written last is not freed while the
file is open; no assertion of `storeSwapOut` or of `stmemFreeDataUpto` fails and the loop of `storeSwapOut`
ends; and a file that is closed for a complete object that may be cached has all of it. -/
theorem written_of_reached (h : (machine cfg onDisk cachable special).Reached (fun _ _ => true) es s) :
    (s.inmemHi = s.object.length ∧ 0 ≤ s.queueOffset ∧ s.queueOffset ≤ s.inmemHi ∧
      s.written = s.object.take s.queueOffset.toNat) ∧
    (∀ node, s.sio ≠ none → s.memnode = some node → (nodeData s.dataHdr node).isSome = true) ∧
    (∀ e f, enabled s e = true → step cfg s e = .error f → f ≠ .swapOut ∧ f ≠ .freeData ∧ f ≠ .diverges) ∧
    (s.storeStatus = .ok → s.sio = none → s.swapStatus ≠ .none → s.flags.entryCachable = true → s.written = s.object) := by
  have hinv : Inv False s := inv_of_reached (fun hF => hF.elim) h
  refine ⟨⟨hinv.hi, hinv.queue_nonneg, hinv.queue_le, hinv.written⟩, ?_, ?_, ?_⟩
  · intro node hsio hnode
    exact hinv.memnode_live hsio hnode
  · intro e f he hf
    have hends : Ends (Stopped False s e) (Inv False) (step cfg s e) := hinv.step he fun hF => hF.elim
    rcases hends.error_of_eq hf with rfl | ⟨rfl, -⟩
    · simp
    · simp
  · intro _ hsio hswap hcac
    have hall := (hinv.closed hsio hswap hcac).2
    rw [hinv.written, hall, hinv.hi, Int.toNat_natCast, take_length]

/-- If no client goes back, memory begins no later than where a memory client reads, and a memory client that
asks for data that has come is never taken for a disk client. -/
theorem ahead_of_reached (h : (machine cfg onDisk cachable special).Reached forward es s) :
    (∀ sc ∈ s.clients, sc.type = .mem → s.inmemLo ≤ sc.copyOffset) ∧
    ∀ e offset, enabled s e = true → forward s e = true → asks s e = some (.mem, offset) → offset < s.inmemHi →
      step cfg s e ≠ .error .diskClient := by
  have hinv : Inv True s := inv_of_reached (fun _ _ _ hc => hc) h
  refine ⟨hinv.ahead trivial, ?_⟩
  intro e offset he hfor hasks hlt hstep
  have hends : Ends (Stopped True s e) (Inv True) (step cfg s e) := hinv.step he fun _ => hfor
  rcases hends.error_of_eq hstep with hoth | ⟨-, offset', hasks', hhi⟩
  · cases hoth
  · rw [hasks] at hasks'
    cases hasks'
    have := hhi trivial
    omega

/-! ## A short object -/

/-- Files are created, opened and closed at once. -/
def readyWorld : World := ⟨false, false, false, true, 40, by decide, true, true⟩

def plainConfig : Config := ⟨8192, 65536, 0, -1, 16384⟩

def shortObject : List Event := [.register, .append [1, 2, 3], .copy readyWorld 0 0 0 2, .copied 0, .complete readyWorld true]

lemma exists_shortObject : ∃ s, (machine plainConfig false true false).Reached (fun _ _ => true) shortObject s ∧
    s.storeStatus = .ok ∧ s.sio = none ∧ s.swapStatus ≠ .none ∧ s.flags.entryCachable = true ∧ s.object = [1, 2, 3] :=
  (machine _ false true false).exists_reached _ _
    (fun s => s.storeStatus = .ok ∧ s.sio = none ∧ s.swapStatus ≠ .none ∧ s.flags.entryCachable = true ∧ s.object = [1, 2, 3])
    (by decide)

theorem written_shortObject : ∃ s, (machine plainConfig false true false).Reached (fun _ _ => true) shortObject s ∧
    s.written = [1, 2, 3] := by
  obtain ⟨s, hs, hok, hsio, hswap, hcac, hobj⟩ := exists_shortObject
  exact ⟨s, hs, ((written_of_reached hs).2.2.2 hok hsio hswap hcac).trans hobj⟩

theorem ahead_shortObject : ∃ s, (machine plainConfig false true false).Reached forward shortObject s ∧
    step plainConfig s (.copy readyWorld 0 2 2 1) ≠ .error .diskClient := by
  obtain ⟨s, hs, he, hfor, hasks, hlt⟩ := (machine plainConfig false true false).exists_reached forward shortObject
    (fun s => enabled s (.copy readyWorld 0 2 2 1) = true ∧ forward s (.copy readyWorld 0 2 2 1) = true ∧
      asks s (.copy readyWorld 0 2 2 1) = some (.mem, 2) ∧ 2 < s.inmemHi) (by decide)
  exact ⟨s, hs, (ahead_of_reached hs).2 _ 2 he hfor hasks hlt⟩

end SquidVideoCache.MemObject
