import SquidVideoCache.Request.Model

/-!
# Request bodies are handed over as they were sent

The buffer holds the end of what has been received, and a body in progress is followed by it
(`Inv.drop_start`).
-/

namespace SquidVideoCache.Request
open Lib List Option

/-- What has been noted of a body agrees with what has been received. -/
structure Handed (received : List UInt8) (b : Body) : Prop where
  le : b.handed.length ≤ b.size
  bytes : b.handed <+: received.drop b.start
  next : ∀ p ∈ b.next, b.handed.length = b.size ∧ p = b.start + b.size

lemma Handed.mono {received more : List UInt8} {b : Body} (h : Handed received b) : Handed (received ++ more) b := by
  refine ⟨h.le, h.bytes.trans ?_, h.next⟩
  rw [drop_append]
  exact prefix_append _ _

structure Inv (s : Conn) : Prop where
  front : s.inBuf <:+ s.received
  reader : s.bodyReader = true ↔ 0 < s.sizeLeft
  nonneg : 0 ≤ s.sizeLeft
  waiting : s.callback.isSome → 0 < s.sizeLeft
  bodies : ∀ b ∈ s.bodies, Handed s.received b
  /-- the body that no parse has followed -/
  current : ∀ b ∈ s.bodies.head?, b.next = none →
    b.start + b.handed.length = s.position ∧ (b.handed.length : ℤ) + s.sizeLeft = b.size
  settled : (∀ b ∈ s.bodies.head?, b.next ≠ none) → s.sizeLeft = 0

/-- A call waits only for bytes that have not come. -/
def Drained (s : Conn) : Prop := s.closed = false → s.callback.isSome → s.inBuf = []

section Inv

variable {s : Conn} {b : Body}

lemma Inv.drop_position (h : Inv s) : s.received.drop s.position = s.inBuf := by
  obtain ⟨front, hfro⟩ := h.front
  have hpos : s.position = front.length := by
    rw [Conn.position, ← hfro, length_append]
    omega
  rw [hpos, ← hfro, drop_left]

lemma Inv.drop_start (h : Inv s) (hb : b ∈ s.bodies.head?) (hnext : b.next = none) :
    s.received.drop b.start = b.handed ++ s.inBuf := by
  obtain ⟨rest, hrest⟩ := (h.bodies b (mem_of_mem_head? hb)).bytes
  have hdrop : (s.received.drop b.start).drop b.handed.length = s.inBuf := by
    rw [drop_drop, (h.current b hb hnext).1, h.drop_position]
  rw [← hrest, drop_left] at hdrop
  rw [← hrest, hdrop]

lemma Inv.exists_current (h : Inv s) (hleft : 0 < s.sizeLeft) :
    ∃ b bodies, s.bodies = b :: bodies ∧ b.next = none := by
  by_contra hno
  have : s.sizeLeft = 0 := h.settled fun b hb hnext => by
    obtain ⟨bodies, hbod⟩ := head?_eq_some_iff.mp hb
    exact hno ⟨b, bodies, hbod, hnext⟩
  omega

lemma Inv.callback_eq_none (h : Inv s) (hleft : s.sizeLeft = 0) : s.callback = none := by
  by_contra hsome
  have := h.waiting (isSome_iff_ne_none.mpr hsome)
  omega

lemma Inv.congr {s' : Conn} (h : Inv s) (hbuf : s'.inBuf = s.inBuf) (hleft : s'.sizeLeft = s.sizeLeft)
    (hrea : s'.bodyReader = s.bodyReader) (hrec : s'.received = s.received) (hbod : s'.bodies = s.bodies)
    (hcal : s'.callback.isSome → 0 < s.sizeLeft) : Inv s' := by
  have hpos : s'.position = s.position := by simp [Conn.position, hrec, hbuf]
  refine ⟨?_, ?_, ?_, ?_, ?_, ?_, ?_⟩
  · rw [hbuf, hrec]
    exact h.front
  · rw [hrea, hleft]
    exact h.reader
  · rw [hleft]
    exact h.nonneg
  · rw [hleft]
    exact hcal
  · rw [hbod, hrec]
    exact h.bodies
  · rw [hbod, hpos, hleft]
    exact h.current
  · rw [hbod, hleft]
    exact h.settled

end Inv

lemma inv_start : Inv {} := by
  refine ⟨suffix_rfl, ?_, le_rfl, ?_, ?_, ?_, ?_⟩
  all_goals simp

/-! ## Handing over -/

lemma Inv.handOver {s : Conn} (h : Inv s) {size : ℕ} (hbuf : size ≤ s.inBuf.length) (hleft : size ≤ s.sizeLeft)
    (hpos : 0 < s.sizeLeft) : Inv (handOver size s) := by
  obtain ⟨b, bodies, hbod, hnext⟩ := h.exists_current hpos
  have hhead : b ∈ s.bodies.head? := by simp [hbod]
  obtain ⟨hstart, hsize⟩ := h.current b hhead hnext
  have hle := h.front.length_le
  have hposi : (Request.handOver size s).position = s.position + size := by
    simp only [Conn.position, Request.handOver, length_drop]
    omega
  have hnote : (Request.handOver size s).bodies =
      { b with handed := b.handed ++ s.inBuf.take size } :: bodies := by
    simp [Request.handOver, hbod, noteHanded]
  have hlen : (b.handed ++ s.inBuf.take size).length = b.handed.length + size := by
    rw [length_append, length_take]
    omega
  refine ⟨?_, ?_, ?_, ?_, ?_, ?_, ?_⟩
  · exact (drop_suffix _ _).trans h.front
  · simp only [Request.handOver]
    split_ifs with hdone
    · simp
      omega
    · rw [h.reader]
      omega
  · simp only [Request.handOver]
    omega
  · simp [Request.handOver]
  · rw [hnote]
    intro b' hb'
    rcases mem_cons.mp hb' with rfl | hb'
    · refine ⟨?_, ?_, ?_⟩
      · simp only
        omega
      · change _ <+: s.received.drop b.start
        rw [h.drop_start hhead hnext]
        exact (prefix_append_right_inj _).mpr (List.take_prefix _ _)
      · simp [hnext]
    · exact h.bodies b' (by simp [hbod, hb'])
  · rw [hnote, hposi]
    intro b' hb' _
    obtain rfl := some.inj hb'
    simp only [Request.handOver]
    omega
  · rw [hnote]
    intro hall
    have hopen := hall _ rfl
    exact absurd hnext hopen

variable {env : Env} {s : Conn}

lemma inv_clientProcessBody {fuel : ℕ} (h : Inv s) (hcal : s.callback.isSome)
    (hfuel : s.inBuf.length < fuel) :
    Ends (fun _ => False) (fun s' => Inv s' ∧ Drained s') (clientProcessBody env fuel s) := by
  induction fuel generalizing s with
  | zero => omega
  | succ fuel ih =>
    obtain ⟨reader, hrea⟩ := isSome_iff_exists.mp hcal
    have hleft := h.waiting hcal
    refine ends_ite (fun hnil => ⟨h, fun _ _ => hnil⟩) fun hne => ?_
    have hlen := length_pos_of_ne_nil hne
    simp only [hrea]
    refine ends_ite (fun _ => ⟨h.congr rfl rfl rfl rfl rfl fun _ => hleft, by simp [Drained]⟩) fun _ => ?_
    rw [cAssert_pos hleft]
    have hsize := reader.bufsize.pos
    have hnew : Inv (handOver (min (min s.inBuf.length s.sizeLeft.toNat) reader.bufsize) s) :=
      h.handOver (by omega) (by omega) hleft
    generalize hs' : handOver (min (min s.inBuf.length s.sizeLeft.toNat) reader.bufsize) s = s' at hnew
    have hnone : s'.callback = none := by
      rw [← hs']
      rfl
    have hless : s'.inBuf.length < fuel := by
      rw [← hs']
      simp only [handOver, length_drop]
      omega
    cases env.onBody s' with
    | done => exact ⟨hnew, by simp [Drained, hnone]⟩
    | close => exact ⟨hnew.congr rfl rfl rfl rfl rfl (by simp [hnone]), by simp [Drained]⟩
    | again size =>
      refine ends_ite (fun hbody => ?_) fun _ => ⟨hnew, by simp [Drained, hnone]⟩
      refine ih (hnew.congr rfl rfl rfl rfl rfl fun _ => hnew.reader.mp hbody) rfl ?_
      exact hless

lemma inv_requestReadBody (h : Inv s) (hdra : Drained s) (size : ℕ+) :
    Ends (fun _ => False) (fun s' => Inv s' ∧ Drained s') (requestReadBody env size s) := by
  refine ends_ite (fun hbody => ?_) fun _ => ⟨h, hdra⟩
  refine inv_clientProcessBody (h.congr rfl rfl rfl rfl rfl fun _ => h.reader.mp hbody) rfl ?_
  exact Nat.lt_succ_self _

/-! ## Parsing -/

lemma Inv.noteParse (h : Inv s) (hleft : s.sizeLeft = 0) :
    Inv { s with bodies := noteParse s.position s.bodies, inBuf := s.inBuf.dropWhile isSpace } := by
  have hset : ∀ b ∈ (Request.noteParse s.position s.bodies).head?, b.next ≠ none := by
    cases s.bodies with
    | nil => simp [Request.noteParse]
    | cons b bodies => simp [Request.noteParse]
  refine ⟨?_, h.reader, h.nonneg, h.waiting, ?_, ?_, fun _ => hleft⟩
  · exact (dropWhile_suffix _).trans h.front
  · intro b' hb'
    rcases hbod : s.bodies with _ | ⟨b, bodies⟩
    · simp [hbod, Request.noteParse] at hb'
    · have hb := h.bodies b (by simp [hbod])
      rw [hbod] at hb'
      rcases mem_cons.mp hb' with rfl | hb'
      · refine ⟨hb.le, hb.bytes, ?_⟩
        intro p hp
        obtain rfl : b.next.getD s.position = p := by simpa using hp
        rcases hnext : b.next with _ | p
        · -- the body is complete, so this is the position behind it
          obtain ⟨hstart, hsize⟩ := h.current b (by simp [hbod]) hnext
          simp only [getD_none]
          omega
        · exact hb.next p (by simp [hnext])
      · exact h.bodies b' (by simp [hbod, hb'])
  · intro b hb hnext
    exact absurd hnext (hset b hb)

lemma Inv.removed (h : Inv s) (hset : ∀ b ∈ s.bodies.head?, b.next ≠ none) (size n : ℕ) :
    Inv { s with nrequests := n, inBuf := s.inBuf.drop size } := by
  refine ⟨(drop_suffix _ _).trans h.front, h.reader, h.nonneg, h.waiting, h.bodies, ?_, h.settled⟩
  intro b hb hnext
  exact absurd hnext (hset b hb)

lemma Inv.startBody (h : Inv s) (hleft : s.sizeLeft = 0) (contentLength : ℤ) :
    Inv (startBody contentLength s) := by
  have hnew : (if 0 < contentLength then contentLength else s.sizeLeft) = max contentLength 0 := by
    all_goals omega
  unfold Request.startBody
  rw [hnew]
  split_ifs with hlength
  · have hcal := h.callback_eq_none hleft
    refine ⟨h.front, by simp only [decide_eq_true_eq]; omega, le_max_right _ _, by simp [hcal], ?_, ?_, ?_⟩
    · intro b hb
      rcases mem_cons.mp hb with rfl | hb
      · exact ⟨by simp, nil_prefix, by simp⟩
      · exact h.bodies b hb
    · intro b hb _
      obtain rfl := some.inj hb
      exact ⟨by simp [Conn.position], by simp⟩
    · intro hall
      have hopen := hall _ rfl
      simp at hopen
  · exact h

lemma inv_react (h : Inv s) (hdra : Drained s) (reaction : Reaction) :
    Ends (fun _ => False) (fun s' => Inv s' ∧ Drained s') (react env reaction s) := by
  cases reaction with
  | done => exact ⟨h, hdra⟩
  | close => exact ⟨h.congr rfl rfl rfl rfl rfl h.waiting, by simp [Drained]⟩
  | again size => exact inv_requestReadBody h hdra size

lemma inv_clientTryParseRequest (h : Inv s) (hleft : s.sizeLeft = 0) :
    Ends (fun _ => False) (fun r => Inv r.1 ∧ Drained r.1) (clientTryParseRequest env s) := by
  have hpar := h.noteParse hleft
  have hset : ∀ b ∈ (noteParse s.position s.bodies).head?, b.next ≠ none := by
    cases s.bodies with
    | nil => simp [noteParse]
    | cons b bodies => simp [noteParse]
  have hnone := h.callback_eq_none hleft
  have hidle : ∀ s' : Conn, s'.callback = none → Drained s' := fun s' hs' _ hsome => by simp [hs'] at hsome
  refine ends_ite (fun _ => ⟨hpar, hidle _ hnone⟩) fun _ => ?_
  split
  · exact ends_ite (fun _ => ⟨hpar.congr rfl rfl rfl rfl rfl hpar.waiting, hidle _ hnone⟩)
      fun _ => ⟨hpar, hidle _ hnone⟩
  · exact ⟨hpar.congr rfl rfl rfl rfl rfl hpar.waiting, hidle _ hnone⟩
  · exact ⟨hpar.removed hset _ _, hidle _ hnone⟩
  · rename_i reqSz _ _ contentLength tooLarge connect start _
    have hbody := (hpar.removed hset reqSz (s.nrequests + 1)).startBody hleft contentLength
    have hsti : (startBody contentLength { s with
        bodies := noteParse s.position s.bodies
        inBuf := (s.inBuf.dropWhile isSpace).drop reqSz
        nrequests := s.nrequests + 1 }).callback = none := by
      unfold startBody
      split_ifs
      all_goals exact hnone
    refine ends_ite (fun _ => ⟨hbody, hidle _ hsti⟩) fun _ => ends_ite (fun _ => ?_) fun _ => ?_
    · exact (inv_react hbody (hidle _ hsti) start).bind fun s' hs' => hs'
    · exact (inv_react hbody (hidle _ hsti) start).bind fun s' hs' => hs'

lemma inv_parseRequests {fuel : ℕ} (h : Inv s) (hdra : Drained s) :
    Ends (fun _ => False) (fun s' => Inv s' ∧ Drained s') (parseRequests env fuel s) := by
  induction fuel generalizing s with
  | zero => exact ⟨h, hdra⟩
  | succ fuel ih =>
    refine ends_ite (fun _ => ⟨h, hdra⟩) fun hmore => ?_
    have hleft : s.sizeLeft = 0 := by
      by_contra hne
      exact hmore (.inr (.inr hne))
    refine (inv_clientTryParseRequest h hleft).bind fun r hr => ?_
    exact ends_ite (fun _ => hr) fun _ => ih hr.1 hr.2

/-! ## Events -/

lemma inv_processPending (h : Inv s) :
    Ends (fun _ => False) (fun s' => Inv s' ∧ Drained s') (processPending env s) := by
  refine ends_ite (fun hp => inv_clientProcessBody h hp.2 (Nat.lt_succ_self _)) fun hp => ⟨h, fun _ hsome => ?_⟩
  by_contra hne
  exact hp ⟨hne, hsome⟩

lemma inv_processInput (h : Inv s) :
    Ends (fun _ => False) (fun s' => Inv s' ∧ Drained s') (processInput env s) := by
  refine Ends.bind (inv_processPending h) fun s' hs' => ends_ite (fun _ => hs') fun _ => ?_
  refine Ends.bind (inv_parseRequests hs'.1 hs'.2) fun s'' hs'' => ends_ite (fun _ => hs'') fun _ => ?_
  refine ends_ite (fun _ => ⟨hs''.1.congr rfl rfl rfl rfl rfl hs''.1.waiting, ?_⟩) fun _ => hs''
  simp [Drained]

lemma Inv.receive (h : Inv s) (bytes : List UInt8) :
    Inv { s with inBuf := s.inBuf ++ bytes, received := s.received ++ bytes } := by
  have hpos : (s.received ++ bytes).length - (s.inBuf ++ bytes).length = s.received.length - s.inBuf.length := by
    simp only [length_append]
    omega
  refine ⟨?_, h.reader, h.nonneg, h.waiting, fun b hb => (h.bodies b hb).mono, ?_, h.settled⟩
  · obtain ⟨front, hfro⟩ := h.front
    exact ⟨front, by rw [← append_assoc, hfro]⟩
  · intro b hb hnext
    rw [Conn.position, hpos]
    exact h.current b hb hnext

lemma inv_clientReadRequest (h : Inv s) (read : Read) :
    Ends (fun _ => False) (fun s' => Inv s' ∧ Drained s') (clientReadRequest env read s) := by
  have hgro : Inv (if s.inSize - s.inBuf.length - 1 = 0 then { s with inSize := s.inSize * 2 } else s) := by
    split_ifs
    · exact h.congr rfl rfl rfl rfl rfl h.waiting
    · exact h
  unfold clientReadRequest
  generalize (if s.inSize - s.inBuf.length - 1 = 0 then { s with inSize := s.inSize * 2 } else s) = s' at hgro
  have hclosed : Inv { s' with closed := true } ∧ Drained { s' with closed := true } :=
    ⟨hgro.congr rfl rfl rfl rfl rfl hgro.waiting, by simp [Drained]⟩
  cases read with
  | bytes bytes => exact inv_processInput (hgro.receive _)
  | eof => exact ends_ite (fun _ => hclosed) fun _ => inv_processInput (hgro.congr rfl rfl rfl rfl rfl hgro.waiting)
  | error ignore => exact ends_ite (fun _ => inv_processInput hgro) fun _ => hclosed

lemma inv_step (h : Inv s) (hdra : Drained s) (e : Event) :
    Ends (fun _ => False) (fun s' => Inv s' ∧ Drained s') (step env s e) := by
  cases e with
  | readable read => exact inv_clientReadRequest h read
  | readBody size => exact inv_requestReadBody h hdra size
  | abandon =>
    refine ⟨h.congr rfl rfl rfl rfl rfl (by simpa using h.waiting), fun hopen hsome => ?_⟩
    exact hdra hopen (by simpa using hsome)
  | finish => exact ⟨h.congr rfl rfl rfl rfl rfl h.waiting, hdra⟩

lemma Reached.inv (h : Reached env s) : Inv s ∧ Drained s := by
  induction h with
  | start => exact ⟨inv_start, by simp [Drained]⟩
  | step e _ _ hstep ih => exact (inv_step ih.1 ih.2 e).ok_of_eq hstep

lemma Handed.eq_take {received : List UInt8} {b : Body} (h : Handed received b) (hsize : b.handed.length = b.size) :
    b.handed = (received.drop b.start).take b.size := by
  rw [← hsize]
  exact prefix_iff_eq_take.mp h.bytes

/-- The callbacks get the first bytes of the body. They have got all that has come of it while a call
waits, and the whole of it when the next parse begins, which is right behind it. -/
theorem Reached.body_handed {s : Conn} (h : Reached env s) {b : Body} (hb : b ∈ s.bodies) :
    b.handed <+: (s.received.drop b.start).take b.size ∧
      (s.bodies.head? = some b → b.next = none → s.received.drop b.start = b.handed ++ s.inBuf) ∧
      (s.bodies.head? = some b → s.callback.isSome → s.closed = false →
        b.handed = (s.received.drop b.start).take b.size) ∧
      ∀ p ∈ b.next, b.handed = (s.received.drop b.start).take b.size ∧ b.handed.length = b.size ∧
        p = b.start + b.size := by
  obtain ⟨hinv, hdra⟩ := h.inv
  have hbody := hinv.bodies b hb
  refine ⟨?_, fun hhead hnext => hinv.drop_start hhead hnext, fun hhead hwait hopen => ?_, fun p hp => ?_⟩
  · exact prefix_take_iff.mpr ⟨hbody.bytes, hbody.le⟩
  · obtain ⟨b', bodies, hbod, hnext⟩ := hinv.exists_current (hinv.waiting hwait)
    obtain rfl : b' = b := by simpa [hbod] using hhead
    have hall := hinv.drop_start hhead hnext
    rw [hdra hopen hwait, append_nil] at hall
    rw [hall, take_of_length_le hbody.le]
  · obtain ⟨hsize, hp⟩ := hbody.next p hp
    exact ⟨hbody.eq_take hsize, hsize, hp⟩

/-- Each byte other than a blank is the header of a request with a body of two bytes. -/
def tinyEnv (start onBody : Reaction) : Env where
  parse
    | [] => .more
    | _ :: _ => .request 1 (by decide) (by simp) 2 false false start
  onBody _ := onBody
  maxRequests := 1
  maxRequestHeaderSize := 100
  halfClosedClients := false

/-- The connection after a request and the first byte of its body, which has been asked for. -/
theorem handed_first :
    ∃ s b, Reached (tinyEnv (.again 5) (.again 5)) s ∧ s.bodies.head? = some b ∧ s.received = [71, 1] ∧
      b.handed = (s.received.drop b.start).take b.size ∧ b.handed = [1] := by
  have hrea : Reached (tinyEnv (.again 5) (.again 5)) _ := .step (.readable (.bytes [71, 1])) .start rfl rfl
  exact ⟨_, _, hrea, rfl, rfl, (hrea.body_handed mem_cons_self).2.2.1 rfl rfl rfl, rfl⟩

/-- A single call with a buffer of one byte is given one byte, though two have come. -/
theorem not_handed_all :
    ¬ ∀ (env : Env) (s : Conn), Reached env s → ∀ b ∈ s.bodies, b.handed = (s.received.drop b.start).take b.size := by
  intro hall
  have hreq : Reached (tinyEnv .done .done) _ := .step (.readable (.bytes [71, 1, 2])) .start rfl rfl
  have hread : Reached (tinyEnv .done .done) _ := .step (.readBody 1) hreq rfl rfl
  have hbyt := hall _ _ hread _ mem_cons_self
  exact absurd (congrArg List.length hbyt) (by decide)

end SquidVideoCache.Request
