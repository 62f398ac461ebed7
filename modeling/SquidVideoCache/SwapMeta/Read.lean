import SquidVideoCache.SwapMeta.Unpack

/-!
# What a client reads from a swap file

When the place of the body is known, it is read from where the client wants it. When it is not, the file is
read from the beginning, and the client is given the body from its first byte on, wherever it wanted it from.
-/

namespace SquidVideoCache.SwapMeta
open Lib List

variable {d : Disk} {e : StoreEntry} {mem : MemObject} {sc : StoreClient} {tlvs : List Tlv} {packed object : Bytes}
  {n : ℤ}

/-! ## The file -/

lemma foldl_packedLength_lt (h : n < 2 ^ 31) :
    tlvs.foldl (fun buflen t => toInt (buflen + (tlvHeader + t.value.length : ℕ))) n < 2 ^ 31 := by
  induction tlvs generalizing n with
  | nil => exact h
  | cons t tlvs ih => exact ih (toInt_lt _)

section

variable (h : storeSwapMetaPack tlvs = .ok (packed, n))

include h

/-- The assertion of `storeSwapMetaPack` holds if the size fits an `int`. -/
theorem of_storeSwapMetaPack :
    packedSize tlvs < 2 ^ 31 ∧ n = packedSize tlvs ∧ packed = packHeader (packedSize tlvs) ++ tlvs.flatMap packTlv := by
  have hlt : packedLength tlvs < 2 ^ 31 := foldl_packedLength_lt (by unfold tlvHeader; omega)
  have hbuf : (packHeader (packedLength tlvs).toNat ++ tlvs.flatMap packTlv).length = packedSize tlvs := by
    rw [length_append, ← length_packTlvs]
    rfl
  simp only [storeSwapMetaPack] at h
  split_ifs at h
  obtain ⟨x, hassert, hok⟩ := bind_eq_ok.1 h
  rw [cAssert_eq_ok, hbuf] at hassert
  cases hok
  refine ⟨by omega, hassert.symm, ?_⟩
  rw [← hassert, Int.toNat_natCast]

lemma length_packed : packed.length = packedSize tlvs := by
  rw [(of_storeSwapMetaPack h).2.2, length_append, ← length_packTlvs]
  rfl

lemma packed_ne_nil : packed ≠ [] := by
  intro hnil
  have hlength := length_packed h
  rw [hnil, packedSize, tlvHeader, length_nil] at hlength
  omega

lemma storeSwapMetaUnpack_packed (post : Bytes) :
    ∃ hdrLen : ℤ, hdrLen ≤ packed.length ∧ storeSwapMetaUnpack (packed ++ post) 0 = .ok (tlvs.takeWhile goodTlv, hdrLen) ∧
      (tlvs ≠ [] → hdrLen = packed.length) := by
  obtain ⟨hfits, -, rfl⟩ := of_storeSwapMetaPack h
  rw [length_packed h]
  by_cases hne : tlvs = []
  · subst hne
    refine ⟨0, by omega, ?_, fun h => absurd rfl h⟩
    have hmark : loadByte (packHeader (packedSize []) ++ [] ++ post) 0 = .ok storeMetaOk := by
      rw [packHeader, cons_append, cons_append, ← nil_append (storeMetaOk :: _)]
      exact loadByte_append rfl
    have hbuf : loadInt (packHeader (packedSize []) ++ [] ++ post) 1 = .ok (packedSize [] : ℤ) := by
      have hspl : packHeader (packedSize []) ++ [] ++ post = [storeMetaOk] ++ (leBytes 4 (packedSize []) ++ post) := by
        simp [packHeader]
      rw [hspl]
      exact loadInt_append rfl hfits
    rw [flatMap_nil, storeSwapMetaUnpack, hmark, hbuf]
    rfl
  · exact ⟨_, le_refl _, storeSwapMetaUnpack_append hne hfits 0, fun _ => rfl⟩

end

/-! ## Reads -/

def bodySz (sc : StoreClient) (packed object : Bytes) : ℕ := min (sc.copySize - packed.length) object.length

lemma storeRead_header {k : ℕ} (hfile : d.file = packed ++ object) (hsize : packed.length ≤ sc.copySize)
    (hdisk : d.fails k = false) : ∃ stale, storeRead d k sc 0 =
      ⟨(packed.length + bodySz sc packed object : ℕ), packed ++ (object.take (bodySz sc packed object) ++ stale)⟩ := by
  have hread : (d.file.drop (0 : ℤ).toNat).take sc.copySize = packed ++ object.take (bodySz sc packed object) := by
    rw [hfile, Int.toNat_zero, drop_zero, take_append, take_of_length_le hsize, bodySz,
      ← take_eq_take_min]
  have hlength : (packed ++ object.take (bodySz sc packed object)).length = packed.length + bodySz sc packed object := by
    rw [length_append, length_take, bodySz]
    omega
  refine ⟨sc.copyBuf.drop (packed.length + bodySz sc packed object), ?_⟩
  rw [storeRead, if_neg (by simp [hdisk]), hread, hlength, append_assoc]

lemma given_storeRead {k : ℕ} (hfile : d.file = packed ++ object) (hoff : 0 ≤ sc.copyOffset) :
    (storeRead d k sc (sc.copyOffset + packed.length)).given <+: object.drop sc.copyOffset.toNat := by
  have hpla : (sc.copyOffset + packed.length).toNat = packed.length + sc.copyOffset.toNat := by omega
  unfold storeRead
  split_ifs
  · exact nil_prefix
  · rw [Callback.given, Int.toNat_natCast, take_left, hfile, hpla, ← drop_drop, drop_left]
    exact take_prefix _ _

lemma fileReads_known {k : ℕ} (hfile : d.file = packed ++ object) (hne : packed ≠ [])
    (hkno : mem.swapHdrSz = packed.length) (hoff : 0 ≤ sc.copyOffset) :
    Ends (fun f => f = .assertion) (fun r => r.given <+: object.drop sc.copyOffset.toNat) (fileReads d e (k + 1) mem sc) := by
  have hpos := length_pos_iff.2 hne
  rw [fileReads, if_neg (by omega), hkno]
  unfold cAssert
  split_ifs
  · exact given_storeRead hfile hoff
  · exact rfl

/-! ## The metadata -/

lemma xstrdup_ends (value : Bytes) : Ends (fun f => f ≠ .diverges) (fun _ => True) (xstrdup value) := by
  unfold xstrdup strlen
  split_ifs <;> simp

lemma strcmpValue_ends (s value : Bytes) : Ends (fun f => f ≠ .diverges) (fun _ => True) (strcmpValue s value) := by
  unfold strcmpValue
  split_ifs <;> simp

lemma cAssert_ends (p : Prop) [Decidable p] : Ends (fun f => f ≠ .diverges) (fun _ => True) (cAssert p) := by
  unfold cAssert
  split_ifs <;> simp

lemma checkTlv_ends (e : StoreEntry) (r : MetaCheck) (t : Tlv) :
    Ends (fun f => f ≠ .diverges) (fun _ => True) (checkTlv e r t) := by
  unfold checkTlv
  split
  · exact (cAssert_ends _).bind fun _ _ => ends_ite (fun _ => trivial) (fun _ => trivial)
  · exact (xstrdup_ends _).bind fun _ _ => trivial
  · exact (xstrdup_ends _).bind fun _ _ => trivial
  · split
    · exact (strcmpValue_ends _ _).bind fun _ _ => ends_ite (fun _ => trivial) (fun _ => trivial)
    · exact (xstrdup_ends _).bind fun _ _ => trivial
  · trivial

lemma checkMeta_ends (e : StoreEntry) (mem : MemObject) (tlvs : List Tlv) :
    Ends (fun f => f ≠ .diverges) (fun _ => True) (checkMeta e mem tlvs) := by
  have htlvs : ∀ r, Ends (fun f => f ≠ .diverges) (fun _ => True) (checkTlvs e r tlvs) := by
    induction tlvs with
    | nil => exact fun _ => trivial
    | cons t tlvs ih =>
      intro r
      exact ends_ite (fun _ => (checkTlv_ends e r t).bind fun r' _ => ih r') (fun _ => trivial)
  exact (htlvs _).bind fun _ _ => trivial

/-- The metadata is that of the object the client wants. -/
def Accepted (e : StoreEntry) (mem : MemObject) (tlvs : List Tlv) : Prop :=
  ∃ mem', checkMeta e mem (tlvs.takeWhile goodTlv) = .ok (true, mem')

/-! ## The header -/

lemma giveBody_eq (sc : StoreClient) (packed object stale : Bytes) :
    giveBody sc ⟨(packed.length + bodySz sc packed object : ℕ), packed ++ (object.take (bodySz sc packed object) ++ stale)⟩
      packed.length = .ok ⟨bodySz sc packed object, object.take (bodySz sc packed object) ++
        (packed ++ (object.take (bodySz sc packed object) ++ stale)).drop (bodySz sc packed object)⟩ := by
  have hle : bodySz sc packed object ≤ sc.copySize := by
    unfold bodySz
    omega
  have hsize := sc.copySize_lt
  have hlen : ((packed.length + bodySz sc packed object : ℕ) : ℤ) - packed.length = bodySz sc packed object := by omega
  have hcopy : min sc.copySize (bodySz sc packed object) = bodySz sc packed object := Nat.min_eq_right hle
  have hload : loadAt (packed ++ (object.take (bodySz sc packed object) ++ stale)) packed.length (bodySz sc packed object) =
      .ok (object.take (bodySz sc packed object)) := by
    refine loadAt_append rfl ?_
    rw [length_take, bodySz]
    omega
  simp only [giveBody, hlen, size64_of_lt (Int.natCast_nonneg _) (show (bodySz sc packed object : ℤ) < 2 ^ 63 by omega),
    Int.toNat_natCast, hcopy, hload]
  rfl

lemma storeClientReadHeader_packed {fileRead : MemObject → StoreClient → Exec Callback} {r : Callback} {post : Bytes}
    (hpack : storeSwapMetaPack tlvs = .ok (packed, n)) (hbuf : r.copyBuf = packed ++ post) (hlen : packed.length ≤ r.len) :
    storeClientReadHeader fileRead e mem sc r =
      checkMeta e mem (tlvs.takeWhile goodTlv) >>= readBehindMeta fileRead e sc r packed.length := by
  obtain ⟨hdrLen, hle, hunp, hhdr⟩ := storeSwapMetaUnpack_packed hpack post
  rw [← hbuf] at hunp
  rw [storeClientReadHeader, if_neg (by omega), hunp, ok_bind]
  rw [if_neg (by omega)]
  by_cases hnil : tlvs.takeWhile goodTlv = []
  · rw [hnil]
    rfl
  · have hne : tlvs ≠ [] := by
      rintro rfl
      exact hnil rfl
    rw [if_neg hnil, hhdr hne]

lemma again_of_ends {P : Callback → Prop} {q : Prop} {x : Exec Callback} (h : Ends (fun f => f = .assertion) P x) (hq : q) :
    x ≠ .error .diverges ∧ ((∀ r, x = .ok r → P r) ↔ q) := by
  refine ⟨fun hx => absurd (h.error_of_eq hx) (by decide), ?_⟩
  exact ⟨fun _ => hq, fun _ r hr => h.ok_of_eq hr⟩

/-- When the place of the body is not known yet, what the client is given is right exactly if the body that came
with the header begins like the part the client wanted, unless that part is behind it. -/
theorem given_of_header (hpack : storeSwapMetaPack tlvs = .ok (packed, n)) (hfile : d.file = packed ++ object)
    (hsize : packed.length ≤ sc.copySize) (hoff : 0 ≤ sc.copyOffset) (hzero : mem.swapHdrSz = 0) :
    storeClientFileRead d e mem sc ≠ .error .diverges ∧
    ((∀ r, storeClientFileRead d e mem sc = .ok r → r.given <+: object.drop sc.copyOffset.toNat) ↔
      (d.fails 1 = false → Accepted e mem tlvs → sc.copyOffset < bodySz sc packed object →
        object.take (bodySz sc packed object) <+: object.drop sc.copyOffset.toNat)) := by
  have hne : packed ≠ [] := packed_ne_nil hpack
  rw [storeClientFileRead, fileReads, if_pos hzero]
  by_cases hdisk : d.fails 1 = true
  · -- an error is passed on
    rw [storeRead, storeClientReadHeader]
    simp [hdisk, Callback.given]
  rw [Bool.not_eq_true] at hdisk
  obtain ⟨stale, hread⟩ := storeRead_header hfile hsize hdisk
  have hlen : (packed.length : ℤ) ≤ (packed.length + bodySz sc packed object : ℕ) := by omega
  rw [hread, storeClientReadHeader_packed hpack rfl hlen]
  have hche := checkMeta_ends e mem (tlvs.takeWhile goodTlv)
  cases hmeta : checkMeta e mem (tlvs.takeWhile goodTlv) with
  | error f =>
    have href : ¬ Accepted e mem tlvs := by
      rintro ⟨mem', hmem'⟩
      rw [hmeta] at hmem'
      cases hmem'
    rw [hmeta] at hche
    refine ⟨fun h => hche (Except.error.inj h), ?_⟩
    simp [href]
  | ok checked =>
    rw [ok_bind, readBehindMeta]
    by_cases hok : checked.1 = true
    · have hacc : Accepted e mem tlvs := by
        refine ⟨checked.2, ?_⟩
        rw [hmeta, ← hok]
      have hsz := sc.copySize_lt
      have hbody : size64 ((packed.length + bodySz sc packed object : ℕ) - packed.length) = bodySz sc packed object := by
        rw [size64_of_lt (by omega) (by unfold bodySz; omega)]
        omega
      rw [if_neg (not_not_intro hok), hbody, size64_of_lt hoff sc.copyOffset_lt]
      by_cases hbef : sc.copyOffset < bodySz sc packed object
      · have hlength : (object.take (bodySz sc packed object)).length = bodySz sc packed object := by
          rw [length_take, bodySz]
          omega
        rw [if_pos (by omega), giveBody_eq]
        simp [hdisk, hacc, hbef, Callback.given, take_left' hlength]
      · rw [if_neg (by omega)]
        exact again_of_ends (fileReads_known hfile hne rfl hoff) (fun _ _ h => absurd h hbef)
    · have href : ¬ Accepted e mem tlvs := by
        rintro ⟨mem', hmem'⟩
        rw [hmeta] at hmem'
        cases hmem'
        exact hok rfl
      rw [if_pos hok]
      simp [href, Callback.given]

/-- A read for a client ends. It gives a part of the object from where the client wants it, if the place of the
body was known, or if what came with the header ends before that place or repeats itself there. -/
theorem storeClientFileRead_given (hpack : storeSwapMetaPack tlvs = .ok (packed, n)) (hfile : d.file = packed ++ object)
    (hoff : 0 ≤ sc.copyOffset) (hsize : packed.length ≤ sc.copySize)
    (hhdr : mem.swapHdrSz = 0 ∨ mem.swapHdrSz = packed.length) : storeClientFileRead d e mem sc ≠ .error .diverges ∧
    ((∀ r, storeClientFileRead d e mem sc = .ok r → r.given <+: object.drop sc.copyOffset.toNat) ↔
      (mem.swapHdrSz = 0 → d.fails 1 = false → Accepted e mem tlvs → sc.copyOffset < bodySz sc packed object →
        object.take (bodySz sc packed object) <+: object.drop sc.copyOffset.toNat)) := by
  have hne : packed ≠ [] := packed_ne_nil hpack
  have hpos := length_pos_iff.2 hne
  rcases hhdr with hzero | hkno
  · obtain ⟨hends, hiff⟩ := given_of_header hpack hfile hsize hoff hzero
    exact ⟨hends, hiff.trans ⟨fun h _ => h, fun h => h hzero⟩⟩
  · exact again_of_ends (fileReads_known hfile hne hkno hoff) (fun hzero => by omega)

/-- A client of an object of two bytes that wants the second one. -/
def secondByte : StoreClient := ⟨1, by decide, 64, by decide, List.replicate 64 0⟩

def plainEntry : StoreEntry := ⟨List.replicate 16 1, false, 35, false⟩

def unknownMem : MemObject := ⟨0, -1, none, none, 0⟩

def plainFile : Disk := ⟨packHeader 33 ++ plainMeta.flatMap packTlv ++ [1, 2], fun _ => false⟩

theorem given_first_byte : ∃ r, storeClientFileRead plainFile plainEntry unknownMem secondByte = .ok r ∧
    ¬ r.given <+: [1, 2].drop secondByte.copyOffset.toNat := by
  refine ⟨⟨2, [1, 2] ++ (plainFile.file ++ secondByte.copyBuf.drop 35).drop 2⟩, by decide +kernel, by decide⟩

def firstByte : StoreClient := ⟨0, by decide, 64, by decide, List.replicate 64 0⟩

theorem given_from_start : storeClientFileRead plainFile plainEntry unknownMem firstByte ≠ .error .diverges ∧
    ∀ r, storeClientFileRead plainFile plainEntry unknownMem firstByte = .ok r → r.given <+: [1, 2] := by
  have hpack : storeSwapMetaPack plainMeta = .ok (packHeader 33 ++ plainMeta.flatMap packTlv, 33) := by decide +kernel
  have hgiv : storeClientFileRead plainFile plainEntry unknownMem firstByte ≠ .error .diverges ∧
      ((∀ r, storeClientFileRead plainFile plainEntry unknownMem firstByte = .ok r → r.given <+: [1, 2].drop 0) ↔ _) :=
    storeClientFileRead_given hpack rfl (by decide) (by decide) (Or.inl rfl)
  exact ⟨hgiv.1, hgiv.2.2 fun _ _ _ _ => take_prefix _ _⟩

end SquidVideoCache.SwapMeta
