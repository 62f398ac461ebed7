import SquidVideoCache.Icp.Model

/-!
# What is left in the buffer

A handler reads the header, and a string that begins behind it and ends at the latest with the NUL
that `icpHandleUdp` writes. If a query ends within the four bytes before its URL, then the NUL
stands before the URL, and the URL is what an earlier datagram has left.
-/

namespace SquidVideoCache.Icp
open Lib List
open Url (urlParse)

variable {σ Addr Entry : Type} {w : World σ Addr Entry} {s : σ} {buf buf' bytes : List UInt8}
  {n : ℕ} {d : Datagram Addr} {url : List UInt8}

/-- A query whose URL begins behind its end. -/
def ShortQuery (bytes : List UInt8) : Prop :=
  (bytes.getD 1 0 = 2 ∨ bytes.getD 1 0 = 3) ∧ bytes.getD 0 0 = IcpOpcode.query.code ∧
    ntoh ((bytes.drop 2).take 2) = bytes.length ∧ icpCommonSize ≤ bytes.length ∧ bytes.length < icpCommonSize + 4

instance (bytes : List UInt8) : Decidable (ShortQuery bytes) := by
  unfold ShortQuery
  infer_instance

/-! ## Reading from the buffer -/

lemma cString_append_receive (a rest : List UInt8) : cString (a ++ 0 :: rest) = cString a := by
  induction a with
  | nil => rfl
  | cons c a ih =>
    unfold cString at ih ⊢
    by_cases hc : c = 0
    · simp [hc]
    · simp [hc, ih]

lemma cString_drop_receive (h : n ≤ bytes.length) :
    cString ((receive buf bytes).drop n) = cString (bytes.drop n) := by
  rw [receive, drop_append_of_le_length h, cString_append_receive]

lemma take_drop_receive {k : ℕ} (h : n + k ≤ bytes.length) :
    ((receive buf bytes).drop n).take k = (bytes.drop n).take k := by
  rw [receive, drop_append_of_le_length (by omega), take_append_of_le_length]
  rw [length_drop]
  omega

lemma getD_receive {i : ℕ} (h : i < bytes.length) : (receive buf bytes).getD i 0 = bytes.getD i 0 := by
  simp [receive, getElem?_append_left h]

lemma readHeader_receive (h : icpCommonSize ≤ bytes.length) : readHeader (receive buf bytes) = readHeader bytes := by
  unfold icpCommonSize at h
  unfold readHeader
  rw [getD_receive (by omega), getD_receive (by omega), take_drop_receive (by omega), take_drop_receive (by omega),
    take_drop_receive (by omega), take_drop_receive (by omega), take_drop_receive (by omega)]

/-! ## Handling a datagram -/

lemma opcodeOf_eq_query {c : UInt8} : opcodeOf c = some .query ↔ c = IcpOpcode.query.code := by
  constructor
  · intro h
    have hcode : IcpOpcode.query.code = c := by simpa using find?_some h
    exact hcode.symm
  · rintro rfl
    decide

lemma icpActions_receive (v2 : Bool) (sender : Addr) (hlen : icpCommonSize ≤ bytes.length)
    (hurl : bytes.getD 0 0 = IcpOpcode.query.code → ntoh ((bytes.drop 2).take 2) = bytes.length →
      icpCommonSize + 4 ≤ bytes.length) (buf buf' : List UInt8) :
    icpActions w s v2 sender (receive buf bytes) bytes.length =
      icpActions w s v2 sender (receive buf' bytes) bytes.length := by
  unfold icpActions
  simp only [readHeader_receive hlen]
  by_cases hlength : bytes.length = (readHeader bytes).length
  · cases hop : opcodeOf (readHeader bytes).opcode with
    | none => rfl
    | some op =>
      cases op with
      | query =>
        have hbou := hurl (opcodeOf_eq_query.mp hop) hlength.symm
        simp [queryUrl, cString_drop_receive hbou]
      | invalid => rfl
      | err => rfl
      | hit => simp [cString_drop_receive hlen]
      | decho => simp [cString_drop_receive hlen]
      | miss => simp [cString_drop_receive hlen]
      | denied => simp [cString_drop_receive hlen]
      | missNofetch => simp [cString_drop_receive hlen]
  · rw [if_pos hlength, if_pos hlength]

/-- The datagrams that are not short queries are handled in the same way whatever the buffer holds. -/
theorem handleDatagram_eq (h : ¬ ShortQuery (d.bytes.take (rcvbufSize - 1)))
    (buf buf' : List UInt8) : (handleDatagram w s buf d).1 = (handleDatagram w s buf' d).1 := by
  unfold handleDatagram
  generalize d.bytes.take (rcvbufSize - 1) = bytes at *
  by_cases hnil : bytes = []
  · simp [hnil]
  by_cases hsma : bytes.length < icpCommonSize
  · simp [hnil, hsma]
  have hlen : icpCommonSize ≤ bytes.length := not_lt.mp hsma
  have hver : ∀ buf, (receive buf bytes).getD 1 0 = bytes.getD 1 0 := fun buf =>
    getD_receive (lt_of_lt_of_le (by decide) hlen)
  simp only [hver]
  have hurl : bytes.getD 1 0 = 2 ∨ bytes.getD 1 0 = 3 → bytes.getD 0 0 = IcpOpcode.query.code →
      ntoh ((bytes.drop 2).take 2) = bytes.length → icpCommonSize + 4 ≤ bytes.length := by
    intro hv hop hfie
    by_contra hsho
    exact h ⟨hv, hop, hfie, hlen, not_le.mp hsho⟩
  split_ifs with hv2 hv3
  · exact icpActions_receive true _ hlen (hurl (.inl hv2)) buf buf'
  · exact icpActions_receive false _ hlen (hurl (.inr hv3)) buf buf'
  · rfl

/-! ## Short queries -/

/-- The URL of a short query is what the buffer has held before. -/
theorem queryUrl_receive (hlen : bytes.length < icpCommonSize + 4) :
    queryUrl (receive buf bytes) = cString (buf.drop (icpCommonSize + 4)) := by
  have hdrop : (receive buf bytes).drop (icpCommonSize + 4) = buf.drop (icpCommonSize + 4) := by
    have htext : receive buf bytes = (bytes ++ [0]) ++ buf.drop (bytes ++ [0]).length := by simp [receive]
    rw [htext, drop_append, drop_eq_nil_of_le (by simp; omega)]
    simp
    omega
  rw [queryUrl, hdrop]

lemma urlParse_notUrl (cfg : Url.Config) (hurl : url = [] ∨ url = [120]) : urlParse cfg .get url = none := by
  have hsch : ¬ (Url.Method.get ≠ .connect ∧ Url.urnScheme <+: cString url) := by
    obtain rfl | rfl := hurl
    all_goals decide
  have hpar : Url.urlParts .get (cString url) = none := by
    obtain rfl | rfl := hurl
    all_goals rfl
  simp only [urlParse, Url.urlScan, if_neg hsch, hpar, Option.bind_none, ite_self, Option.map_none]

lemma icpQuery_of_notUrl (v2 : Bool) (sender : Addr) (header : IcpCommon)
    (hurl : url = [] ∨ url = [120]) : icpQuery w s v2 sender header url =
      [.send sender (icpCreateMessage w.outAddr .err 0 url header.reqnum 0)] := by
  have hbla : stringHasWhitespace url = false := by
    obtain rfl | rfl := hurl
    all_goals decide
  have hpar := urlParse_notUrl w.url hurl
  have hcut : url.take urlCut = url := by
    obtain rfl | rfl := hurl
    all_goals rfl
  simp only [icpQuery, hbla, hpar, hcut, ite_self]
  rfl

lemma handleDatagram_shortQuery (h : ShortQuery (d.bytes.take (rcvbufSize - 1)))
    (hurl : cString (buf.drop (icpCommonSize + 4)) = [] ∨ cString (buf.drop (icpCommonSize + 4)) = [120]) :
    (handleDatagram w s buf d).1 =
      [.send d.sender (icpCreateMessage w.outAddr .err 0 (cString (buf.drop (icpCommonSize + 4)))
        (readHeader (d.bytes.take (rcvbufSize - 1))).reqnum 0)] := by
  unfold handleDatagram
  generalize d.bytes.take (rcvbufSize - 1) = bytes at *
  obtain ⟨hver, hop, hfie, hlen, hsho⟩ := h
  have hnil : bytes ≠ [] := by
    rintro rfl
    exact absurd hlen (by decide)
  have hv : (receive buf bytes).getD 1 0 = bytes.getD 1 0 := getD_receive (lt_of_lt_of_le (by decide) hlen)
  have hact : ∀ v2, icpActions w s v2 d.sender (receive buf bytes) bytes.length =
      [.send d.sender (icpCreateMessage w.outAddr .err 0 (cString (buf.drop (icpCommonSize + 4)))
        (readHeader bytes).reqnum 0)] := by
    intro v2
    have hhea : ¬ bytes.length ≠ (readHeader bytes).length := not_not.mpr hfie.symm
    have hque : opcodeOf (readHeader bytes).opcode = some .query := opcodeOf_eq_query.mpr hop
    simp only [icpActions, readHeader_receive hlen, if_neg hhea, hque, queryUrl_receive hsho]
    exact icpQuery_of_notUrl v2 _ _ hurl
  simp only [if_neg hnil, if_neg (not_lt.mpr hlen), hv]
  obtain hv2 | hv3 := hver
  · rw [if_pos hv2]
    exact hact true
  · rw [if_neg (by rw [hv3]; decide), if_pos hv3]
    exact hact false

/-- A datagram that no handler takes and that leaves a letter where the URL of a query would begin. -/
def letterDatagram (sender : Addr) : Datagram Addr := ⟨List.replicate (icpCommonSize + 4) 0 ++ [120], sender⟩

lemma handleDatagram_letter (buf : List UInt8) (sender : Addr) :
    (handleDatagram w s buf (letterDatagram sender)).2 = receive buf (letterDatagram sender).bytes := rfl

lemma exists_handleDatagram_ne (w : World σ Addr Entry) (s : σ) (h : ShortQuery (d.bytes.take (rcvbufSize - 1))) :
    ∃ buf buf', Reached w buf ∧ Reached w buf' ∧ (handleDatagram w s buf d).1 ≠ (handleDatagram w s buf' d).1 := by
  have hfre : Reached w (List.replicate rcvbufSize 0) := .init
  have hused := Reached.next s (letterDatagram d.sender) hfre
  rw [handleDatagram_letter] at hused
  have hemp : cString ((List.replicate rcvbufSize (0 : UInt8)).drop (icpCommonSize + 4)) = [] := by
    rfl
  have hlet : cString ((receive (List.replicate rcvbufSize 0) (letterDatagram d.sender).bytes).drop
      (icpCommonSize + 4)) = [120] := by
    rfl
  refine ⟨_, _, hfre, hused, fun heq => ?_⟩
  rw [handleDatagram_shortQuery h (.inl hemp), handleDatagram_shortQuery h (.inr hlet), hemp, hlet] at heq
  have hlength := congrArg List.length (Action.send.inj (List.cons.inj heq).1).2
  simp [icpCreateMessage, hton16] at hlength

def quietWorld : World Unit Unit Unit where
  url := ⟨true, false, .strip, none⟩
  outAddr := [127, 0, 0, 1]
  aclCheckFast _ _ _ := false
  clientdbCutoffDenied _ _ := false
  netdbHostRtt _ _ := 0
  netdbHostHops _ _ := 0
  storeGetPublic _ _ := none
  storeEntryValidToSend _ _ := false
  refreshCheckICP _ _ _ := false
  icpHitStale := false
  testReachability := false
  reloadHitOnly := false
  storeDirsRebuilding _ := false
  hitOnlyMode _ := false
  neighborsDoPrivateKeys _ := false

def shortDatagram : Datagram Unit := ⟨[1, 2, 0, 20] ++ List.replicate 16 0, ()⟩

end SquidVideoCache.Icp
