import SquidVideoCache.SwapMeta.Model

/-!
# What `storeSwapMetaUnpack` reads

On the output of `storeSwapMetaPack` the loop meets one record after the other, up to the first one that it
refuses. On any other buffer the places where it looks for a record form a path, and the reads stay inside
the buffer exactly if all places of the path do.
-/

namespace SquidVideoCache.SwapMeta
open Lib List

variable {buf pre post : Bytes} {buflen j : ℤ} {k : ℕ} {t : Tlv} {tlvs : List Tlv}

/-! ## Packed records -/

def packedSize (tlvList : List Tlv) : ℕ := tlvHeader + (tlvList.map fun t => tlvHeader + t.value.length).sum

def goodTlv (t : Tlv) : Bool := ¬ badType t.type ∧ t.value.length ≤ 2 ^ 16

@[simp] lemma length_packTlv (t : Tlv) : (packTlv t).length = tlvHeader + t.value.length := by
  rw [packTlv, length_cons, length_append, length_leBytes, tlvHeader]
  omega

lemma length_packTlvs (tlvs : List Tlv) : tlvHeader + (tlvs.flatMap packTlv).length = packedSize tlvs := by
  rw [packedSize, length_flatMap]
  simp

lemma length_le_packTlvs (tlvs : List Tlv) : tlvs.length ≤ (tlvs.flatMap packTlv).length := by
  induction tlvs with
  | nil => exact Nat.le_refl 0
  | cons t tlvs ih =>
    rw [flatMap_cons, length_append, length_packTlv, length_cons, tlvHeader]
    omega

lemma packedSize_cons : packedSize (t :: tlvs) = packedSize tlvs + (tlvHeader + t.value.length) := by
  simp only [packedSize, map_cons, sum_cons]
  omega

lemma foldl_packedLength {n : ℕ} (hfits : n + (tlvs.map fun t => tlvHeader + t.value.length).sum < 2 ^ 31) :
    tlvs.foldl (fun buflen t => toInt (buflen + (tlvHeader + t.value.length : ℕ))) n =
      (n + (tlvs.map fun t => tlvHeader + t.value.length).sum : ℕ) := by
  induction tlvs generalizing n with
  | nil => simp
  | cons t tlvs ih =>
    rw [map_cons, sum_cons, ← Nat.add_assoc] at hfits
    rw [map_cons, sum_cons, ← Nat.add_assoc, foldl_cons, toInt_of_lt (by omega) (by omega)]
    exact ih hfits

lemma storeSwapMetaPack_eq (hfits : packedSize tlvs < 2 ^ 31) :
    storeSwapMetaPack tlvs = .ok (packHeader (packedSize tlvs) ++ tlvs.flatMap packTlv, packedSize tlvs) := by
  have hlength : packedLength tlvs = packedSize tlvs := foldl_packedLength hfits
  have hbuf : (packHeader (packedSize tlvs) ++ tlvs.flatMap packTlv).length = packedSize tlvs := by
    rw [length_append, ← length_packTlvs]
    rfl
  simp only [storeSwapMetaPack, hlength, Int.toNat_natCast]
  rw [if_neg (by omega), cAssert_pos (by omega)]
  rfl

lemma loadByte_packTlv (hj : j = pre.length) : loadByte (pre ++ (packTlv t ++ post)) j = .ok t.type := loadByte_append hj

lemma loadInt_packTlv (hj : j = pre.length + 1) (hlong : t.value.length < 2 ^ 31) :
    loadInt (pre ++ (packTlv t ++ post)) j = .ok t.value.length := by
  have hspl : pre ++ (packTlv t ++ post) = (pre ++ [t.type]) ++ (leBytes 4 t.value.length ++ (t.value ++ post)) := by
    simp [packTlv]
  rw [hspl]
  exact loadInt_append (by simp [hj]) hlong

lemma loadAt_packTlv (hj : j = pre.length + tlvHeader) :
    loadAt (pre ++ (packTlv t ++ post)) j t.value.length = .ok t.value := by
  have hspl : pre ++ (packTlv t ++ post) = (pre ++ t.type :: leBytes 4 t.value.length) ++ (t.value ++ post) := by
    simp [packTlv]
  rw [hspl]
  exact loadAt_append (by simp [hj, tlvHeader]) rfl

lemma unpackTlvs_append (hlen : buflen = (pre ++ tlvs.flatMap packTlv).length) (hfits : buflen < 2 ^ 31)
    (hj : j = pre.length) (hk : tlvs.length < k) :
    unpackTlvs (pre ++ (tlvs.flatMap packTlv ++ post)) buflen k j = .ok (tlvs.takeWhile goodTlv) := by
  induction tlvs generalizing pre j k with
  | nil =>
    obtain ⟨k, rfl⟩ := Nat.exists_eq_succ_of_ne_zero (Nat.ne_of_gt hk)
    have hend : buflen - j = 0 := by
      rw [hlen, hj]
      simp
    rw [unpackTlvs, hend]
    rfl
  | cons t tlvs ih =>
    obtain ⟨k, rfl⟩ := Nat.exists_eq_succ_of_ne_zero (Nat.ne_of_gt (Nat.zero_lt_of_lt hk))
    have hsize : buflen = j + (5 + t.value.length) + (tlvs.flatMap packTlv).length := by
      rw [hlen, hj, flatMap_cons, length_append, length_append, length_packTlv, tlvHeader]
      push_cast
      ring
    -- nothing overflows before the end of this record
    have hpla : toInt (j + tlvHeader) = j + tlvHeader := toInt_of_lt (by omega) (by unfold tlvHeader; omega)
    have hnext : toInt (toInt (j + tlvHeader) + t.value.length) = j + tlvHeader + t.value.length := by
      rw [hpla, toInt_of_lt (by omega) (by unfold tlvHeader; omega)]
    rw [flatMap_cons, append_assoc, unpackTlvs, toInt_of_lt (by omega) (by omega),
      size64_of_lt (by omega) (by omega), if_neg (by unfold tlvHeader; omega), loadByte_packTlv hj, ok_bind,
      takeWhile_cons]
    by_cases hbad : badType t.type = true
    · rw [if_pos hbad, if_neg (by simp [goodTlv, hbad])]
      rfl
    rw [if_neg hbad, toInt_of_lt (by omega) (by omega), loadInt_packTlv (by omega) (by omega), ok_bind]
    by_cases hlong : t.value.length ≤ 2 ^ 16
    · have hgood : goodTlv t = true := by
        rw [goodTlv, decide_eq_true_iff]
        exact ⟨hbad, hlong⟩
      have hrest : unpackTlvs (pre ++ packTlv t ++ (tlvs.flatMap packTlv ++ post)) buflen k (j + tlvHeader + t.value.length) =
          .ok (tlvs.takeWhile goodTlv) := by
        refine ih (by rw [hlen]; simp) ?_ (by simpa using hk)
        rw [hj, length_append, length_packTlv]
        push_cast
        ring
      rw [if_neg (by omega), hnext, if_neg (by unfold tlvHeader; omega), hpla, Int.toNat_natCast,
        loadAt_packTlv (by rw [hj]), ← append_assoc, hrest, if_pos hgood]
      rfl
    · have hnot : ¬ goodTlv t = true := by
        rw [goodTlv, decide_eq_true_iff]
        exact fun h => hlong h.2
      rw [if_pos (Or.inr (by omega)), if_neg hnot]
      rfl

lemma storeSwapMetaUnpack_append (hne : tlvs ≠ []) (hfits : packedSize tlvs < 2 ^ 31) (hdrLen : ℤ) :
    storeSwapMetaUnpack (packHeader (packedSize tlvs) ++ tlvs.flatMap packTlv ++ post) hdrLen =
      .ok (tlvs.takeWhile goodTlv, packedSize tlvs) := by
  have hlar : tlvHeader < packedSize tlvs := by
    obtain ⟨t, tlvs, rfl⟩ := exists_cons_of_ne_nil hne
    rw [packedSize_cons, packedSize]
    unfold tlvHeader
    omega
  have hmark : loadByte (packHeader (packedSize tlvs) ++ tlvs.flatMap packTlv ++ post) 0 = .ok storeMetaOk := by
    rw [packHeader, cons_append, cons_append, ← nil_append (storeMetaOk :: _)]
    exact loadByte_append rfl
  have hbuf : loadInt (packHeader (packedSize tlvs) ++ tlvs.flatMap packTlv ++ post) 1 = .ok (packedSize tlvs : ℤ) := by
    have hspl : packHeader (packedSize tlvs) ++ tlvs.flatMap packTlv ++ post =
        [storeMetaOk] ++ (leBytes 4 (packedSize tlvs) ++ (tlvs.flatMap packTlv ++ post)) := by simp [packHeader]
    rw [hspl]
    exact loadInt_append rfl hfits
  have hlen : (packedSize tlvs : ℤ) = (packHeader (packedSize tlvs) ++ tlvs.flatMap packTlv).length := by
    rw [length_append, ← length_packTlvs]
    rfl
  have hloop : unpackTlvs (packHeader (packedSize tlvs) ++ tlvs.flatMap packTlv ++ post) (packedSize tlvs)
      ((packHeader (packedSize tlvs) ++ tlvs.flatMap packTlv ++ post).length + 1) tlvHeader = .ok (tlvs.takeWhile goodTlv) := by
    refine unpackTlvs_append hlen (by omega) (by simp [packHeader, tlvHeader]) ?_
    have hcou := length_le_packTlvs tlvs
    simp only [length_append]
    omega
  unfold storeSwapMetaUnpack
  rw [hmark, ok_bind, if_neg (by simp), hbuf, ok_bind, size64_of_lt (by omega) (by omega), if_neg (by omega), hloop]
  rfl

/-- Unpacking inverts packing: the records in order, and the length of the header. -/
theorem storeSwapMetaUnpack_pack (hne : tlvs ≠ [])
    (htypes : ∀ t ∈ tlvs, StoreMeta.void.code + 1 ≤ t.type.toNat ∧ t.type.toNat ≤ StoreMeta.stop.code + 10)
    (hlengths : ∀ t ∈ tlvs, t.value.length ≤ 65536) (hfits : packedSize tlvs ≤ 2 ^ 31 - 1) (hdrLen : ℤ) :
    ∃ buf : Bytes, storeSwapMetaPack tlvs = .ok (buf, packedSize tlvs) ∧ buf.length = packedSize tlvs ∧
      storeSwapMetaUnpack buf hdrLen = .ok (tlvs, packedSize tlvs) := by
  have hgood : ∀ t ∈ tlvs, goodTlv t = true := by
    intro t ht
    have hcode : ∀ c : UInt8, StoreMeta.void.code + 1 ≤ c.toNat ∧ c.toNat ≤ StoreMeta.stop.code + 10 → ¬ badType c = true :=
      forall_byte (by decide +kernel)
    rw [goodTlv, decide_eq_true_iff]
    exact ⟨hcode t.type (htypes t ht), hlengths t ht⟩
  refine ⟨_, storeSwapMetaPack_eq (by omega), ?_, ?_⟩
  · rw [length_append, ← length_packTlvs]
    rfl
  · have hunp : storeSwapMetaUnpack (packHeader (packedSize tlvs) ++ tlvs.flatMap packTlv ++ []) hdrLen = _ :=
      storeSwapMetaUnpack_append hne (by omega) hdrLen
    rwa [append_nil, takeWhile_eq_self_iff.2 hgood] at hunp

def plainMeta : List Tlv := [⟨3, List.replicate 16 1⟩, ⟨4, [104, 0]⟩]

theorem storeSwapMetaUnpack_plainMeta : ∃ buf : Bytes, storeSwapMetaPack plainMeta = .ok (buf, 33) ∧ buf.length = 33 ∧
    storeSwapMetaUnpack buf 0 = .ok (plainMeta, 33) :=
  storeSwapMetaUnpack_pack (by decide) (by decide) (by decide) (by decide) 0

/-! ## Any buffer -/

def Looks (buflen j : ℤ) : Prop := tlvHeader ≤ size64 (toInt (buflen - j))

def tlvLength (buf : Bytes) (j : ℤ) : ℤ := intAt buf (toInt (j + 1))

def behind (buf : Bytes) (j : ℤ) : ℤ := toInt (toInt (j + tlvHeader) + tlvLength buf j)

def Fits (buf : Bytes) (buflen j : ℤ) : Prop := 0 ≤ tlvLength buf j ∧ tlvLength buf j ≤ 2 ^ 16 ∧ behind buf j ≤ buflen

def Next (buf : Bytes) (buflen j j' : ℤ) : Prop :=
  Looks buflen j ∧ ¬ badType (byteAt buf j) = true ∧ Fits buf buflen j ∧ j' = behind buf j

/-- The bytes that are read of a record at `j` are bytes of the buffer: its type, its length unless the type is
bad, and its value unless the length is refused. -/
def RecordInside (buf : Bytes) (buflen j : ℤ) : Prop :=
  Looks buflen j → Covered buf j 1 ∧ (¬ badType (byteAt buf j) = true → Covered buf (toInt (j + 1)) 4 ∧
    (Fits buf buflen j → Covered buf (toInt (j + tlvHeader)) (tlvLength buf j).toNat))

/-- The header is inside the buffer, and every record on the path is. -/
def Inside (buf : Bytes) : Prop :=
  Covered buf 0 1 ∧ (byteAt buf 0 = storeMetaOk → Covered buf 1 4 ∧ (tlvHeader < size64 (intAt buf 1) →
    ∀ j, Relation.ReflTransGen (Next buf (intAt buf 1)) tlvHeader j → RecordInside buf (intAt buf 1) j))

lemma forall_path_iff {α : Type} {R : α → α → Prop} {P : α → Prop} {a : α} :
    (∀ b, Relation.ReflTransGen R a b → P b) ↔ P a ∧ ∀ c, R a c → ∀ b, Relation.ReflTransGen R c b → P b := by
  constructor
  · intro h
    exact ⟨h a .refl, fun c hac b hcb => h b (.head hac hcb)⟩
  · intro h b hab
    rcases hab.cases_head with rfl | ⟨c, hac, hcb⟩
    · exact h.1
    · exact h.2 c hac b hcb

lemma toInt_lt (n : ℤ) : toInt n < 2 ^ 31 := by
  unfold toInt
  have := @Int.bmod_lt n (2 ^ 32) (by decide)
  omega

/-- The sum of a place and a length is itself or negative. -/
theorem toInt_eq_of_nonneg {n : ℤ} (h0 : 0 ≤ n) (h : n < 2 ^ 32) (hnn : 0 ≤ toInt n) : toInt n = n := by
  unfold toInt at *
  rw [Int.bmod_def] at *
  omega

lemma lt_behind (hlt : j < 2 ^ 31) (hins : RecordInside buf buflen j)
    (hnext : Next buf buflen j (behind buf j)) (hnn : 0 ≤ behind buf j) : j < behind buf j ∧ j < buf.length := by
  obtain ⟨htype, hrest⟩ := hins hnext.1
  have hval : Covered buf (toInt (j + tlvHeader)) (tlvLength buf j).toNat := (hrest hnext.2.1).2 hnext.2.2.1
  have hj : 0 ≤ j := htype.1
  have hj' : j + 1 ≤ buf.length := htype.2
  have hlength : 0 ≤ tlvLength buf j ∧ tlvLength buf j ≤ 2 ^ 16 := ⟨hnext.2.2.1.1, hnext.2.2.1.2.1⟩
  have hpla : toInt (j + tlvHeader) = j + tlvHeader :=
    toInt_eq_of_nonneg (by omega) (by unfold tlvHeader; omega) hval.1
  rw [behind] at hnn ⊢
  unfold tlvHeader at *
  rw [toInt_eq_of_nonneg (by omega) (by omega) hnn]
  omega

lemma unpackTlvs_turn (buf : Bytes) (buflen : ℤ) (k : ℕ) (j : ℤ) :
    (¬ RecordInside buf buflen j ∧ unpackTlvs buf buflen (k + 1) j = .error .bounds) ∨
    (RecordInside buf buflen j ∧ (∀ c, ¬ Next buf buflen j c) ∧ unpackTlvs buf buflen (k + 1) j = .ok []) ∨
    (RecordInside buf buflen j ∧ Next buf buflen j (behind buf j) ∧
      ∃ t, unpackTlvs buf buflen (k + 1) j = unpackTlvs buf buflen k (behind buf j) >>= fun rest => pure (t :: rest)) := by
  rw [unpackTlvs]
  by_cases hloo : Looks buflen j
  case neg =>
    rw [if_pos (Nat.not_le.1 hloo)]
    exact Or.inr (Or.inl ⟨fun h => absurd h hloo, fun c hc => hloo hc.1, rfl⟩)
  rw [if_neg (Nat.not_lt.2 hloo), loadByte]
  by_cases htype : Covered buf j 1
  case neg =>
    rw [if_neg htype]
    exact Or.inl ⟨fun h => htype (h hloo).1, rfl⟩
  rw [if_pos htype, ok_bind]
  by_cases hbad : badType (byteAt buf j) = true
  case pos =>
    rw [if_pos hbad]
    exact Or.inr (Or.inl ⟨fun _ => ⟨htype, fun h => absurd hbad h⟩, fun c hc => hc.2.1 hbad, rfl⟩)
  rw [if_neg hbad, loadInt]
  by_cases hlength : Covered buf (toInt (j + 1)) 4
  case neg =>
    rw [if_neg hlength]
    exact Or.inl ⟨fun h => hlength ((h hloo).2 hbad).1, rfl⟩
  rw [if_pos hlength, ok_bind]
  by_cases hfits : Fits buf buflen j
  case neg =>
    have hstop : RecordInside buf buflen j := fun _ => ⟨htype, fun _ => ⟨hlength, fun h => absurd h hfits⟩⟩
    have hnext : ∀ c, ¬ Next buf buflen j c := fun c hc => hfits hc.2.2.1
    refine Or.inr (Or.inl ⟨hstop, hnext, ?_⟩)
    by_cases hins : tlvLength buf j < 0 ∨ 2 ^ 16 < tlvLength buf j
    · exact if_pos hins
    · have hover : buflen < behind buf j := by
        by_contra hle
        exact hfits ⟨by omega, by omega, by omega⟩
      exact (if_neg hins).trans (if_pos hover)
  have hsane : ¬ (tlvLength buf j < 0 ∨ 2 ^ 16 < tlvLength buf j) := by
    have h0 := hfits.1
    have hlong := hfits.2.1
    omega
  have hund : ¬ buflen < behind buf j := Int.not_lt.2 hfits.2.2
  rw [← tlvLength, ← behind, if_neg hsane, if_neg hund, loadAt]
  by_cases hval : Covered buf (toInt (j + tlvHeader)) (tlvLength buf j).toNat
  case neg =>
    rw [if_neg hval]
    exact Or.inl ⟨fun h => hval (((h hloo).2 hbad).2 hfits), rfl⟩
  rw [if_pos hval]
  exact Or.inr (Or.inr ⟨fun _ => ⟨htype, fun _ => ⟨hlength, fun _ => hval⟩⟩, ⟨hloo, hbad, hfits, rfl⟩, _, rfl⟩)

/-- With enough turns the loop ends, and it ends with records exactly if what it reads is inside the buffer. -/
theorem unpackTlvs_ends (hlt : j < 2 ^ 31) (hk : 0 < k) (heno : 0 ≤ j → buf.length < k + j) :
    unpackTlvs buf buflen k j ≠ .error .diverges ∧ (unpackTlvs buf buflen k j ≠ .error .bounds ↔
        ∀ j', Relation.ReflTransGen (Next buf buflen) j j' → RecordInside buf buflen j') := by
  induction k generalizing j with
  | zero => exact absurd hk (by decide)
  | succ k ih =>
    rw [forall_path_iff]
    rcases unpackTlvs_turn buf buflen k j with ⟨hout, heq⟩ | ⟨hin, hstop, heq⟩ | ⟨hin, hnext, t, heq⟩
    · rw [heq]
      simp [hout]
    · rw [heq]
      simp [hin, hstop]
    · obtain ⟨htype, -⟩ := hin hnext.1
      have hj : 0 ≤ j ∧ j + 1 ≤ buf.length := htype
      obtain ⟨hends, hiff⟩ := ih (j := behind buf j) (toInt_lt _) (by omega) fun hnn => by
        have hfur := lt_behind hlt hin hnext hnn
        omega
      have hpath : (RecordInside buf buflen j ∧ ∀ c, Next buf buflen j c →
          ∀ b, Relation.ReflTransGen (Next buf buflen) c b → RecordInside buf buflen b) ↔
          ∀ b, Relation.ReflTransGen (Next buf buflen) (behind buf j) b → RecordInside buf buflen b := by
        constructor
        · exact fun h => h.2 _ hnext
        · rintro h
          refine ⟨hin, fun c hc => ?_⟩
          rw [hc.2.2.2]
          exact h
      rw [heq, hpath, ← hiff]
      cases hrest : unpackTlvs buf buflen k (behind buf j) with
      | ok rest => simp
      | error f =>
        rw [hrest] at hends
        exact ⟨fun h => hends (congrArg _ (Except.error.inj h)), Iff.rfl⟩

lemma unpackTlvs_first (buf : Bytes) (buflen : ℤ) :
    unpackTlvs buf buflen (buf.length + 1) tlvHeader ≠ .error .diverges ∧
      (unpackTlvs buf buflen (buf.length + 1) tlvHeader ≠ .error .bounds ↔
        ∀ j, Relation.ReflTransGen (Next buf buflen) tlvHeader j → RecordInside buf buflen j) := by
  refine unpackTlvs_ends ?_ (Nat.succ_pos _) fun _ => ?_
  · unfold tlvHeader
    omega
  · omega

/-- The loop always ends. It reads past the buffer unless all the records that it looks at are inside. -/
theorem storeSwapMetaUnpack_inside (buf : Bytes) (hdrLen : ℤ) :
    storeSwapMetaUnpack buf hdrLen ≠ .error .diverges ∧ (storeSwapMetaUnpack buf hdrLen ≠ .error .bounds ↔ Inside buf) := by
  unfold storeSwapMetaUnpack Inside
  rw [loadByte]
  by_cases hmark : Covered buf 0 1
  case neg => simp [hmark]
  rw [if_pos hmark, ok_bind]
  by_cases hok : byteAt buf 0 = storeMetaOk
  case neg => simp [hmark, hok]
  rw [if_neg (not_not_intro hok), loadInt]
  by_cases hlen : Covered buf 1 4
  case neg => simp [hok, hlen]
  rw [if_pos hlen, ok_bind]
  by_cases hsize : tlvHeader < size64 (intAt buf 1)
  case neg =>
    rw [if_pos (Nat.not_lt.1 hsize)]
    simp [hmark, hlen, hsize]
  rw [if_neg (Nat.not_le.2 hsize)]
  obtain ⟨hends, hiff⟩ := unpackTlvs_first buf _
  cases hloop : unpackTlvs buf (intAt buf 1) (buf.length + 1) tlvHeader with
  | ok tlvs =>
    rw [hloop] at hiff
    simpa [hmark, hok, hlen, hsize] using hiff
  | error f =>
    rw [hloop] at hiff hends
    refine ⟨fun h => hends (congrArg _ (Except.error.inj h)), ?_⟩
    simpa [hmark, hok, hlen, hsize] using hiff

/-- A file of 11 bytes with a header that says 1000, and a record that says 500. -/
def shortFile : Bytes := [3, 232, 3, 0, 0, 4, 244, 1, 0, 0, 104]

theorem storeSwapMetaUnpack_shortFile : storeSwapMetaUnpack shortFile 0 = .error .bounds := by decide +kernel

end SquidVideoCache.SwapMeta
