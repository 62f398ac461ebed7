import SquidVideoCache.Htcp.Model

/-!
# A packet is read back

The bit fields of both formats are inverse to each other, and so are the nested lengths as long as
the packet is shorter than 2^16 bytes.
-/

namespace SquidVideoCache.Htcp
open Lib List
open Icp (ntoh hton16 hton32)

/-! ## The headers -/

lemma length_hton16 (n : ℕ) : (hton16 n).length = 2 := rfl

lemma ntoh_hton16 (n : ℕ) : ntoh (hton16 n) = n % 2 ^ 16 := by
  simp only [ntoh, hton16, foldl_cons, foldl_nil, UInt8.toNat_ofNat']
  omega

lemma ntoh_hton32 (n : ℕ) : ntoh (hton32 n) = n % 2 ^ 32 := by
  simp only [ntoh, hton32, foldl_cons, foldl_nil, UInt8.toNat_ofNat']
  omega

section
variable (hdr : HtcpDataHeader) (rest : List UInt8)

lemma readHeader_bytes : readHeader (hdr.bytes ++ rest) =
    { hdr with length := hdr.length % 2 ^ 16, msgId := hdr.msgId % 2 ^ 32 } := by
  have hlength : ntoh ((hdr.bytes ++ rest).take 2) = hdr.length % 2 ^ 16 := ntoh_hton16 _
  have hmsgI : ntoh (((hdr.bytes ++ rest).drop 4).take 4) = hdr.msgId % 2 ^ 32 := ntoh_hton32 _
  have hopc : ∀ a b : BitVec 4, (a ++ b).extractLsb' 4 4 = a ∧ (a ++ b).extractLsb' 0 4 = b := by decide +kernel
  have hfla : ∀ (a : BitVec 6) (b c : BitVec 1), (a ++ (b ++ c)).extractLsb' 2 6 = a ∧
      (a ++ (b ++ c)).extractLsb' 1 1 = b ∧ (a ++ (b ++ c)).extractLsb' 0 1 = c := by decide +kernel
  rw [readHeader, hlength, hmsgI, HtcpDataHeader.mk.injEq]
  exact ⟨rfl, (hopc _ _).1, (hopc _ _).2, (hfla _ _ _).1, (hfla _ _ _).2.1, (hfla _ _ _).2.2, rfl⟩

lemma readHeaderSquid_bytesSquid : readHeaderSquid (hdr.bytesSquid ++ rest) =
    { hdr with length := hdr.length % 2 ^ 16, reserved := 0, msgId := hdr.msgId % 2 ^ 32 } := by
  have hlength : ntoh ((hdr.bytesSquid ++ rest).take 2) = hdr.length % 2 ^ 16 := ntoh_hton16 _
  have hmsgI : ntoh (((hdr.bytesSquid ++ rest).drop 4).take 4) = hdr.msgId % 2 ^ 32 := ntoh_hton32 _
  have hopc : ∀ a b : BitVec 4, (a ++ b).extractLsb' 4 4 = a ∧ (a ++ b).extractLsb' 0 4 = b := by decide +kernel
  have hfla : ∀ (a b : BitVec 1) (c : BitVec 6), (a ++ (b ++ c)).extractLsb' 6 1 = b ∧
      (a ++ (b ++ c)).extractLsb' 7 1 = a := by decide +kernel
  rw [readHeaderSquid, hlength, hmsgI, HtcpDataHeader.mk.injEq]
  exact ⟨rfl, (hopc _ _).2, (hopc _ _).1, rfl, (hfla _ _ _).1, (hfla _ _ _).2, rfl⟩

end

/-! ## Building -/

def countstr (s : Option (List UInt8)) : List UInt8 := hton16 (textOf s).length ++ textOf s

def opData (stuff : HtcpStuff) : List UInt8 :=
  if stuff.op ≠ HtcpOpcode.tst.code then []
  else if stuff.rr = 0 then
    [stuff.specifier.method, stuff.specifier.uri, stuff.specifier.version, stuff.specifier.reqHdrs].flatMap countstr
  else if stuff.f1 ≠ 0 then []
  else [stuff.detail.respHdrs, stuff.detail.entityHdrs, stuff.detail.cacheHdrs].flatMap countstr

def Buildable (stuff : HtcpStuff) : Prop := stuff.op = HtcpOpcode.tst.code ∨ stuff.op = HtcpOpcode.clr.code

instance (stuff : HtcpStuff) : Decidable (Buildable stuff) := inferInstanceAs (Decidable (_ ∨ _))

lemma htcpBuildCountstrs_eq {ss : List (Option (List UInt8))} {buflen : ℕ} (hfit : (ss.flatMap countstr).length ≤ buflen) :
    htcpBuildCountstrs buflen ss = some (ss.flatMap countstr) := by
  induction ss generalizing buflen with
  | nil => rfl
  | cons s ss ih =>
    rw [flatMap_cons, length_append] at hfit
    have hlen : (countstr s).length = 2 + (textOf s).length := by rw [countstr, length_append, length_hton16]
    have hfir : htcpBuildCountstr buflen s = some (countstr s) := by
      rw [htcpBuildCountstr, if_neg (by omega), if_neg (by omega), countstr]
    have hrest := ih (by omega : (ss.flatMap _).length ≤ buflen - (countstr s).length)
    simp [htcpBuildCountstrs, hfir, hrest]

variable {stuff : HtcpStuff} {old : Bool} {reserved : BitVec 6} {buflen : ℕ}

lemma htcpBuildOpData_eq (hop : Buildable stuff) (hfit : (opData stuff).length ≤ buflen) :
    htcpBuildOpData buflen stuff = .ok (some (opData stuff)) := by
  rcases hop with hop | hop
  · have hcode : opcodeOf stuff.op = some .tst := by rw [hop]; rfl
    have htst : htcpBuildTstOpData buflen stuff = some (opData stuff) := by
      rw [opData, if_neg (not_not.2 hop)] at hfit ⊢
      rw [htcpBuildTstOpData]
      split_ifs at hfit ⊢ with hrr hf1
      · exact htcpBuildCountstrs_eq hfit
      · rfl
      · exact htcpBuildCountstrs_eq hfit
    simp [htcpBuildOpData, hcode, htst]
  · have hcode : opcodeOf stuff.op = some .clr := by rw [hop]; rfl
    have hnone : opData stuff = [] := by rw [opData, if_pos (by rw [hop]; decide)]
    simp [htcpBuildOpData, hcode, hnone]

lemma htcpBuildOpData_assertion (hop : ¬ Buildable stuff) (buflen : ℕ) :
    htcpBuildOpData buflen stuff = .error .assertion := by
  have hcod : ∀ c : BitVec 4, ¬ (c = HtcpOpcode.tst.code ∨ c = HtcpOpcode.clr.code) →
      opcodeOf c ≠ some .tst ∧ opcodeOf c ≠ some .clr := by decide +kernel
  obtain ⟨htst, hclr⟩ := hcod _ hop
  unfold htcpBuildOpData
  split
  · exact absurd ‹_› htst
  · exact absurd ‹_› hclr
  · rfl

def dataPart (old : Bool) (reserved : BitVec 6) (stuff : HtcpStuff) : List UInt8 :=
  dataHeader old reserved (htcpDataHeaderSize + (opData stuff).length) stuff ++ opData stuff

lemma length_dataHeader (length : ℕ) : (dataHeader old reserved length stuff).length = htcpDataHeaderSize := by
  cases old <;> rfl

lemma length_dataPart : (dataPart old reserved stuff).length = htcpDataHeaderSize + (opData stuff).length := by
  rw [dataPart, length_append, length_dataHeader]

lemma htcpBuildPacket_eq (hop : Buildable stuff) (hfit : 14 + (opData stuff).length ≤ buflen) :
    htcpBuildPacket old reserved buflen stuff = .ok (some (packet old (dataPart old reserved stuff) (hton16 2))) := by
  have hlen : (dataPart old reserved stuff).length = 8 + (opData stuff).length := length_dataPart
  have hdata : htcpBuildData old reserved (buflen - htcpHeaderSize) stuff = .ok (some (dataPart old reserved stuff)) := by
    unfold htcpHeaderSize htcpBuildData htcpDataHeaderSize
    rw [if_neg (by omega), htcpBuildOpData_eq hop (by omega)]
    rfl
  have hauth : htcpBuildAuth (buflen - htcpHeaderSize - (dataPart old reserved stuff).length) = some (hton16 2) := by
    unfold htcpHeaderSize
    exact if_neg (by omega)
  rw [htcpBuildPacket, if_neg (by unfold htcpHeaderSize; omega), hdata, ok_bind, Option.bind_some, hauth]
  rfl

lemma htcpBuildPacket_assertion (hop : ¬ Buildable stuff) (hfit : 12 ≤ buflen) :
    htcpBuildPacket old reserved buflen stuff = .error .assertion := by
  have hdata : htcpBuildData old reserved (buflen - htcpHeaderSize) stuff = .error .assertion := by
    unfold htcpHeaderSize htcpBuildData htcpDataHeaderSize
    rw [if_neg (by omega), htcpBuildOpData_assertion hop, error_bind]
  rw [htcpBuildPacket, if_neg (by unfold htcpHeaderSize; omega), hdata, error_bind]

/-! ## Handling -/

lemma length_packet (data auth : List UInt8) : (packet old data auth).length = 4 + data.length + auth.length := by
  simp only [packet, length_append, length_cons, length_nil, length_hton16]

lemma htcpHandle_packet (was : Bool) (data auth : List UInt8) : htcpHandle was (packet old data auth) =
    (old, if 4 + data.length + auth.length < 2 ^ 16 then htcpHandleData old (data ++ auth) else none) := by
  have hmin : decide ((packet old data auth).getD 3 0 = 0) = old := by cases old <;> rfl
  have hmaj : (packet old data auth).getD 2 0 = 0 := rfl
  have hlength : ntoh ((packet old data auth).take 2) = (4 + data.length + auth.length) % 2 ^ 16 := ntoh_hton16 _
  have hdrop : (packet old data auth).drop 4 = data ++ auth := rfl
  unfold htcpHandle htcpHeaderSize
  rw [if_neg (by rw [length_packet]; omega), hmin, hmaj, length_packet, hdrop]
  by_cases hsho : 4 + data.length + auth.length < 2 ^ 16
  · rw [if_neg (by omega), if_neg (by decide), if_pos hsho]
  · rw [if_pos (by omega), if_neg hsho]

def headerBack (old : Bool) (reserved : BitVec 6) (stuff : HtcpStuff) : HtcpDataHeader where
  length := htcpDataHeaderSize + (opData stuff).length
  opcode := stuff.op
  response := stuff.response
  reserved := if old then 0 else reserved
  f1 := stuff.f1
  rr := stuff.rr
  msgId := if old then 0 else stuff.msgId.toNat

lemma readHeader_dataPart (hsho : 8 + (opData stuff).length < 2 ^ 16) (rest : List UInt8) :
    (if !old then readHeader (dataPart old reserved stuff ++ rest) else readHeaderSquid (dataPart old reserved stuff ++ rest)) =
      headerBack old reserved stuff := by
  have hlength : (htcpDataHeaderSize + (opData stuff).length) % 2 ^ 16 = htcpDataHeaderSize + (opData stuff).length :=
    Nat.mod_eq_of_lt hsho
  have hmsgI : stuff.msgId.toNat % 2 ^ 32 = stuff.msgId.toNat := Nat.mod_eq_of_lt stuff.msgId.toNat_lt
  cases old
  · show readHeader (HtcpDataHeader.bytes _ ++ _) = _
    rw [readHeader_bytes, hlength, hmsgI]
    rfl
  · show readHeaderSquid (HtcpDataHeader.bytesSquid _ ++ _) = _
    rw [readHeaderSquid_bytesSquid, hlength]
    rfl

lemma htcpHandleData_dataPart {op : HtcpOpcode} (hop : stuff.op = op.code) (hsho : 8 + (opData stuff).length < 2 ^ 16)
    (auth : List UInt8) : htcpHandleData old (dataPart old reserved stuff ++ auth) =
      some ⟨op, headerBack old reserved stuff, opData stuff ++ auth, (opData stuff).length⟩ := by
  have hcode : opcodeOf (headerBack old reserved stuff).opcode = some op := by
    show opcodeOf stuff.op = some op
    rw [hop]
    cases op <;> rfl
  have hlen : (dataPart old reserved stuff ++ auth).length = 8 + (opData stuff).length + auth.length := by
    rw [length_append, length_dataPart, htcpDataHeaderSize]
  have hdrop : (dataPart old reserved stuff ++ auth).drop htcpDataHeaderSize = opData stuff ++ auth := by
    rw [dataPart, append_assoc]
    exact drop_left' (length_dataHeader _)
  have hlength : (headerBack old reserved stuff).length = 8 + (opData stuff).length := rfl
  have hsz : ((headerBack old reserved stuff).length : ℤ) - htcpDataHeaderSize = (opData stuff).length := by
    rw [htcpDataHeaderSize]
    omega
  simp only [htcpHandleData, readHeader_dataPart hsho]
  rw [if_neg (by omega)]
  simp only [hcode]
  rw [if_neg (by omega), hdrop, hsz]

/-- Everything a packet was built from is read back exactly if its opcode can be built, it is shorter than 2^16
bytes, and its message number is zero in the old format. -/
theorem htcpHandle_htcpBuildPacket (stuff : HtcpStuff) (old was : Bool) (reserved : BitVec 6) (buflen : ℕ)
    (hfit : 14 + (opData stuff).length ≤ buflen) :
    (∃ pkt h, htcpBuildPacket old reserved buflen stuff = .ok (some pkt) ∧ htcpHandle was pkt = (old, some h) ∧
      h.hdr.opcode = stuff.op ∧ h.hdr.rr = stuff.rr ∧ h.hdr.f1 = stuff.f1 ∧ h.hdr.response = stuff.response ∧
      h.hdr.msgId = stuff.msgId.toNat ∧ h.sz = (opData stuff).length ∧ h.data = opData stuff) ↔
    Buildable stuff ∧ 14 + (opData stuff).length < 2 ^ 16 ∧ (old = true → stuff.msgId = 0) := by
  have hlen : 4 + (dataPart old reserved stuff).length + (hton16 2).length = 14 + (opData stuff).length := by
    rw [length_dataPart, length_hton16, htcpDataHeaderSize]
    omega
  have hback : (headerBack old reserved stuff).msgId = stuff.msgId.toNat ↔ (old = true → stuff.msgId = 0) := by
    cases old with
    | false => simp [headerBack]
    | true => simp [headerBack, ← UInt32.toNat_inj, eq_comm]
  constructor
  · rintro ⟨pkt, h, hbui, hhan, -, -, -, -, hmsgI, -, -⟩
    by_cases hop : Buildable stuff
    · rw [htcpBuildPacket_eq hop hfit] at hbui
      cases hbui
      rw [htcpHandle_packet, hlen] at hhan
      by_cases hsho : 14 + (opData stuff).length < 2 ^ 16
      · obtain ⟨op, hop'⟩ : ∃ op : HtcpOpcode, stuff.op = op.code := hop.elim (fun h => ⟨_, h⟩) fun h => ⟨_, h⟩
        rw [if_pos hsho, htcpHandleData_dataPart hop' (by omega)] at hhan
        cases hhan
        exact ⟨hop, hsho, hback.1 hmsgI⟩
      · rw [if_neg hsho] at hhan
        cases hhan
    · rw [htcpBuildPacket_assertion hop (by omega)] at hbui
      cases hbui
  · rintro ⟨hop, hsho, hmsgI⟩
    obtain ⟨op, hop'⟩ : ∃ op : HtcpOpcode, stuff.op = op.code := hop.elim (fun h => ⟨_, h⟩) fun h => ⟨_, h⟩
    refine ⟨_, ⟨op, headerBack old _ stuff, opData stuff ++ hton16 2, (opData stuff).length⟩,
      htcpBuildPacket_eq hop hfit, ?_, rfl, rfl, rfl, rfl, hback.2 hmsgI, rfl, ?_⟩
    · rw [htcpHandle_packet, hlen, if_pos hsho, htcpHandleData_dataPart hop' (by omega)]
    · rw [Handled.data, Int.toNat_natCast, take_left]

def query : HtcpStuff := ⟨HtcpOpcode.tst.code, 0, 1, 0, 1, ⟨none, none, none, none⟩, ⟨none, none, none⟩⟩

theorem htcpHandle_query : ∃ pkt h, htcpBuildPacket false 63 8192 query = .ok (some pkt) ∧
    htcpHandle true pkt = (false, some h) ∧ h.hdr.msgId = 1 ∧ h.data = opData query := by
  obtain ⟨pkt, h, hbui, hhan, -, -, -, -, hmsgI, -, hdata⟩ :=
    (htcpHandle_htcpBuildPacket query false true 63 8192 (by decide)).2 ⟨Or.inl rfl, by decide, by decide⟩
  exact ⟨pkt, h, hbui, hhan, hmsgI, hdata⟩

/-- In the old format its number is 0. -/
theorem htcpHandle_query_old : ∃ pkt, htcpBuildPacket true 0 8192 query = .ok (some pkt) ∧ query.msgId = 1 ∧
    (htcpHandle false pkt).2.map (·.hdr.msgId) = some 0 :=
  ⟨[0, 22, 0, 0, 0, 16, 1, 64, 0, 0, 0, 0, 0, 0, 0, 0, 0, 0, 0, 0, 0, 2], by decide +kernel, rfl, by decide +kernel⟩

end SquidVideoCache.Htcp
