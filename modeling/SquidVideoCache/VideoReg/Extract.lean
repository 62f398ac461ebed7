import SquidVideoCache.VideoReg.Model

/-!
# The extracted id

`skipToSlash` stops behind the next slash, or at the end of the URL. The copy is
then the part of the URL between that point and the end of the suffix, which is
empty in one case only.
-/

namespace SquidVideoCache.VideoReg
open Lib List

variable {s t src id mark : List UInt8} {n e i : ℕ} {url : CString} {flag : ℤ}

lemma skipToSlash_slash (hs : slash ∉ s) : skipToSlash (s ++ slash :: t) = .ok (s.length + 1) := by
  induction s with
  | nil => simp [skipToSlash]
  | cons c s ih =>
    rw [mem_cons, not_or] at hs
    have hc : ¬ (c = slash ∨ s ++ slash :: t = []) := by simp [Ne.symm hs.1]
    rw [cons_append, skipToSlash, if_neg hc, ih hs.2]
    rfl

lemma skipToSlash_end (hne : s ≠ []) (hs : slash ∉ s) : skipToSlash s = .ok s.length := by
  induction s with
  | nil => exact absurd rfl hne
  | cons c s ih =>
    rw [mem_cons, not_or] at hs
    unfold skipToSlash
    by_cases hnil : s = []
    · simp [hnil]
    · rw [if_neg (by simp [Ne.symm hs.1, hnil]), ih hnil hs.2]
      rfl

lemma skipToSlash_cases {k : ℕ} (h : skipToSlash s = .ok k) :
    (∃ u t, s = u ++ slash :: t ∧ slash ∉ u ∧ k = u.length + 1) ∨ (slash ∉ s ∧ s ≠ [] ∧ k = s.length) := by
  by_cases hs : slash ∈ s
  · obtain ⟨u, t, rfl, hu⟩ := eq_append_cons_of_mem hs
    rw [skipToSlash_slash hu] at h
    cases h
    exact Or.inl ⟨u, t, rfl, hu, rfl⟩
  · have hne : s ≠ [] := by
      intro hnil
      rw [hnil] at h
      cases h
    rw [skipToSlash_end hne hs] at h
    cases h
    exact Or.inr ⟨hs, hne, rfl⟩

lemma copyID_zeroed (hn : n ≤ src.length) (hlen : n + 1 < maxLen) :
    copyID zeroed src n = .ok (1, src.take n ++ List.replicate (maxLen - n) 0) := by
  have hdst : zeroed.length = maxLen := length_replicate
  have hcopy : strncpy zeroed src n = .ok (src.take n ++ zeroed.drop n) := strncpy_natCast hn (by omega)
  unfold copyID
  rw [hcopy, ok_bind, ← Int.natCast_succ, store_natCast_of_lt (by simp; omega)]
  have hdrop : zeroed.drop n = List.replicate (maxLen - n) 0 := drop_replicate
  have hset : (src.take n ++ List.replicate (maxLen - n) 0).set (n + 1) 0 =
      src.take n ++ List.replicate (maxLen - n) 0 := by
    have hle : (src.take n).length ≤ n + 1 := Nat.le_succ_of_le (length_take_le _ _)
    rw [set_append_right _ _ hle, set_replicate_self]
  rw [hdrop, hset]
  rfl

lemma copyID_ok {n ret : ℤ} (hn : n ≤ src.length) (h : copyID zeroed src n = .ok (ret, id)) :
    ret = 1 ∧ 0 ≤ n ∧ n + 1 < maxLen ∧ id = src.take n.toNat ++ List.replicate (maxLen - n.toNat) 0 := by
  have hdst : zeroed.length = maxLen := length_replicate
  obtain ⟨buf, hbuf, hrest⟩ := bind_eq_ok.mp h
  obtain ⟨buf', hbuf', -⟩ := bind_eq_ok.mp hrest
  have h0 : 0 ≤ n ∧ n ≤ zeroed.length := by
    by_contra hc
    rw [strncpy, if_neg hc] at hbuf
    cases hbuf
  obtain ⟨k, rfl⟩ := Int.eq_ofNat_of_zero_le h0.1
  have hk : k ≤ src.length := by omega
  have hlen : k + 1 < maxLen := by
    by_contra hc
    rw [strncpy_natCast hk (by omega)] at hbuf
    cases hbuf
    rw [← Int.natCast_succ, store_natCast_of_ge (by simp; omega)] at hbuf'
    cases hbuf'
  rw [copyID_zeroed hk hlen] at h
  cases h
  exact ⟨rfl, h0.1, by omega, by simp⟩

lemma cString_padded (hs : 0 ∉ s) (hn : 0 < n) : cString (s ++ List.replicate n 0) = s := by
  obtain ⟨k, rfl⟩ := Nat.exists_eq_add_of_lt hn
  exact cString_append_nul hs _

lemma nul_mem_padded (s : List UInt8) (hn : 0 < n) : 0 ∈ s ++ List.replicate n 0 :=
  mem_append_right _ (mem_replicate.mpr ⟨hn.ne', rfl⟩)

/-! ## Marks in the URL -/

lemma mem_mark {url : List UInt8} {c : UInt8} (h : mark <+: url.drop e)
    (hle : e ≤ i) (hlt : i < e + mark.length) (hi : url.drop i = c :: t) : c ∈ mark := by
  obtain ⟨w, hw⟩ := h
  have hdrop : (mark ++ w).drop (i - e) = c :: t := by
    rw [hw, drop_drop, show e + (i - e) = i by omega, hi]
  rw [drop_append_of_le_length (by omega), drop_eq_getElem_cons (by omega)] at hdrop
  rw [← (List.cons.inj hdrop).1]
  exact getElem_mem _

lemma length_of_mark {url : List UInt8} (h : mark <+: url.drop e)
    (hne : mark ≠ []) : e + mark.length ≤ url.length := by
  have hlen := h.length_le
  have hpos := length_pos_iff.mpr hne
  rw [length_drop] at hlen
  omega

lemma cut_eq {url : List UInt8} (h : mark <+: url.drop e) (hle : i ≤ e) :
    (url.drop i).take (e + mark.length - i) = (url.drop i).take (e - i) ++ mark := by
  rw [show e + mark.length - i = (e - i) + mark.length by omega, take_add, drop_drop,
    show i + (e - i) = e by omega, ← prefix_iff_eq_take.mp h]

lemma cut_isInfix (url : List UInt8) (i n : ℕ) : (url.drop i).take n <:+: url :=
  (List.take_prefix n _).isInfix.trans (drop_suffix i url).isInfix

lemma cString_cut (url : CString) {m : ℕ} (hm : 0 < m) :
    cString ((url.bytes.drop i).take n ++ List.replicate m 0) = (url.bytes.drop i).take n :=
  cString_padded (fun h0 => url.nulFree ((cut_isInfix _ i n).subset h0)) hm

/-! ## youku -/

/-- The suffix the id ends with: the first `.flv`, without one the first `.mp4`. -/
def videoEnd (url : CString) : Option ℕ := (strstr dotFlv url.bytes).or (strstr dotMp4 url.bytes)

lemma videoEnd_mark (h : videoEnd url = some e) :
    ∃ mark, (mark = dotFlv ∨ mark = dotMp4) ∧ mark <+: url.bytes.drop e := by
  rcases Option.or_eq_some_iff.mp h with h | ⟨-, h⟩
  · exact ⟨dotFlv, Or.inl rfl, prefix_of_strstr h⟩
  · exact ⟨dotMp4, Or.inr rfl, prefix_of_strstr h⟩

lemma youkuExtractID_eq {b : ℕ} (hflv : ¬ flvNk <:+: url.bytes)
    (hmp4 : ¬ mp4Nk <:+: url.bytes) (hb : strstr youkuMark url.bytes = some b)
    (he : videoEnd url = some e) (id : List UInt8) : youkuExtractID url id = (do
      let skip ← skipToSlash (url.bytes.drop (b + 7)) let n : ℤ := e + 4 - (b + 7 + skip : ℕ)
      if 1024 < n then .ok (0, id) else copyID id (url.bytes.drop (b + 7 + skip)) n) := by
  rw [← strstr_eq_none_iff] at hflv hmp4
  unfold videoEnd at he
  simp [youkuExtractID, hflv, hmp4, hb, he]

section

variable (h : youkuExtractID url zeroed = .ok (1, id))

include h

lemma youkuExtractID_one : ¬ flvNk <:+: url.bytes ∧ ¬ mp4Nk <:+: url.bytes ∧
      ∃ b e, strstr youkuMark url.bytes = some b ∧ videoEnd url = some e := by
  unfold youkuExtractID at h
  simp only [strstr_isSome_iff] at h
  split_ifs at h with hflv hmp4
  · cases h
  · cases h
  · split at h
    · rename_i b e hb he
      have hyou : youkuMark <:+: url.bytes := strstr_isSome_iff.mp (by rw [hb]; rfl)
      exact ⟨fun hc => hflv ⟨hyou, hc⟩, fun hc => hmp4 ⟨hyou, hc⟩, b, e, hb, he⟩
    · cases h

/-- No slash after the mark and the suffix at the very end: the scan for the slash runs to
the end of the URL, behind the suffix. -/
def YoukuEmpty (url : CString) : Prop := ¬ flvNk <:+: url.bytes ∧ ¬ mp4Nk <:+: url.bytes ∧
    ∃ b e, strstr youkuMark url.bytes = some b ∧ videoEnd url = some e ∧
      slash ∉ url.bytes.drop (b + 7) ∧ e + 4 = url.bytes.length

lemma youkuExtractID_cut : ∃ b e k, strstr youkuMark url.bytes = some b ∧ videoEnd url = some e ∧
      skipToSlash (url.bytes.drop (b + 7)) = .ok k ∧ b + 7 + k ≤ e + 4 ∧ 0 ∈ id ∧
      cString id = (url.bytes.drop (b + 7 + k)).take (e + 4 - (b + 7 + k)) := by
  obtain ⟨hflv, hmp4, b, e, hb, he⟩ := youkuExtractID_one h
  rw [youkuExtractID_eq hflv hmp4 hb he] at h
  obtain ⟨k, hk, hrest⟩ := bind_eq_ok.mp h
  have hn : ¬ (1024 : ℤ) < e + 4 - (b + 7 + k : ℕ) := by
    intro hc
    simp only [if_pos hc] at hrest
    cases hrest
  simp only [if_neg hn] at hrest
  obtain ⟨mark, hmark, hpre⟩ := videoEnd_mark he
  have hlen : e + 4 ≤ url.bytes.length := by
    rcases hmark with rfl | rfl
    · exact length_of_mark hpre (by decide)
    · exact length_of_mark hpre (by decide)
  obtain ⟨-, h0, hlt, rfl⟩ := copyID_ok (by rw [length_drop]; omega) hrest
  have hle : b + 7 + k ≤ e + 4 := by omega
  have hcut : ((e : ℤ) + 4 - (b + 7 + k : ℕ)).toNat = e + 4 - (b + 7 + k) := by omega
  rw [hcut]
  exact ⟨b, e, k, hb, he, hk, hle, nul_mem_padded _ (by omega), cString_cut url (by omega)⟩

lemma youkuExtractID_id (hne : ¬ YoukuEmpty url) :
    cString id ≠ [] ∧ cString id <:+: url.bytes ∧ (dotFlv <:+ cString id ∨ dotMp4 <:+ cString id) := by
  obtain ⟨b, e, k, hb, he, hk, hle, -, hid⟩ := youkuExtractID_cut h
  obtain ⟨hflv, hmp4, -⟩ := youkuExtractID_one h
  obtain ⟨mark, hmark, hpre⟩ := videoEnd_mark he
  have hlen : mark.length = 4 := by rcases hmark with rfl | rfl <;> rfl
  have hmark0 : mark ≠ [] := fun hnil => by rw [hnil] at hlen; cases hlen
  have hsla : slash ∉ mark := by rcases hmark with rfl | rfl <;> decide
  have hend := length_of_mark hpre hmark0
  -- the scan cannot stop inside the suffix, which has no slash
  have hstart : b + 7 + k ≤ e := by
    by_contra hgt
    rcases skipToSlash_cases hk with ⟨u, t, hu, -, rfl⟩ | ⟨hu, hne', hk'⟩
    · refine hsla (mem_mark hpre (i := b + 7 + u.length) (t := t) (by omega) (by omega) ?_)
      rw [← drop_drop, hu, drop_left]
    · rw [length_drop] at hk'
      exact hne ⟨hflv, hmp4, b, e, hb, he, hu, by omega⟩
  rw [hid, ← hlen, cut_eq hpre hstart]
  refine ⟨by simp [hmark0], ?_, ?_⟩
  · rw [← cut_eq hpre hstart]
    exact cut_isInfix _ _ _
  · rcases hmark with rfl | rfl
    · exact Or.inl (suffix_append _ _)
    · exact Or.inr (suffix_append _ _)

end

lemma youkuExtractID_url {a f r : List UInt8}
    (hurl : url.bytes = a ++ (youkuMark ++ (s ++ slash :: (f ++ (dotFlv ++ r)))))
    (hyou : ∀ j < a.length, ¬ youkuMark <+: url.bytes.drop j) (hs : slash ∉ s)
    (hflv : ∀ j < a.length + 7 + (s.length + 1) + f.length, ¬ dotFlv <+: url.bytes.drop j)
    (hf : f.length ≤ 1020) (hnk : ¬ flvNk <:+: url.bytes) (hnk' : ¬ mp4Nk <:+: url.bytes) :
    youkuExtractID url zeroed = .ok (1, f ++ dotFlv ++ List.replicate (maxLen - (f.length + 4)) 0) := by
  have hdro : url.bytes.drop a.length = youkuMark ++ (s ++ slash :: (f ++ (dotFlv ++ r))) := by
    rw [hurl, drop_left]
  have hdrop : url.bytes.drop (a.length + 7) = s ++ slash :: (f ++ (dotFlv ++ r)) := by
    rw [← drop_drop, hdro]
    rfl
  have hdropF : url.bytes.drop (a.length + 7 + (s.length + 1)) = f ++ (dotFlv ++ r) := by
    rw [← drop_drop, hdrop, ← drop_drop, drop_left]
    rfl
  have hdropE : url.bytes.drop (a.length + 7 + (s.length + 1) + f.length) = dotFlv ++ r := by
    rw [← drop_drop, hdropF, drop_left]
  have hlen : a.length + 7 + (s.length + 1) + f.length ≤ url.bytes.length := by
    rw [hurl]
    simp [youkuMark, ascii]
    omega
  have hb : strstr youkuMark url.bytes = some a.length := by
    rw [strstr_eq_some_iff, hdro]
    exact ⟨by omega, prefix_append _ _, hyou⟩
  have he : strstr dotFlv url.bytes = some (a.length + 7 + (s.length + 1) + f.length) := by
    rw [strstr_eq_some_iff, hdropE]
    exact ⟨hlen, prefix_append _ _, hflv⟩
  have hn : ((a.length + 7 + (s.length + 1) + f.length : ℕ) : ℤ) + 4 -
      (a.length + 7 + (s.length + 1) : ℕ) = (f.length + 4 : ℕ) := by omega
  have hvid : videoEnd url = some (a.length + 7 + (s.length + 1) + f.length) := by
    rw [videoEnd, he]
    rfl
  rw [youkuExtractID_eq hnk hnk' hb hvid, hdrop, skipToSlash_slash hs, ok_bind]
  simp only [hn, hdropF]
  rw [if_neg (by omega), copyID_zeroed (by simp [dotFlv, ascii]) (by unfold maxLen; omega)]
  have htake : (f ++ (dotFlv ++ r)).take (f.length + 4) = f ++ dotFlv := by
    rw [← append_assoc]
    exact take_left' (length_append)
  rw [htake]

lemma youkuExtractID_empty (h : YoukuEmpty url) : youkuExtractID url zeroed = .ok (1, zeroed) := by
  obtain ⟨hflv, hmp4, b, e, hb, he, hsla, hend⟩ := h
  obtain ⟨mark, hmark, hpre⟩ := videoEnd_mark he
  have hb7 := length_of_mark (prefix_of_strstr hb) (by decide)
  have hsev : youkuMark.length = 7 := rfl
  have hne : url.bytes.drop (b + 7) ≠ [] := by
    intro hnil
    rw [drop_eq_nil_iff] at hnil
    have hdot : (46 : UInt8) ∈ youkuMark := by
      obtain ⟨t, ht⟩ : ∃ t, url.bytes.drop e = 46 :: t := by
        obtain ⟨w, hw⟩ := hpre
        rcases hmark with rfl | rfl <;> exact ⟨_, hw.symm⟩
      exact mem_mark (prefix_of_strstr hb) (by omega) (by omega) ht
    exact absurd hdot (by decide)
  rw [youkuExtractID_eq hflv hmp4 hb he, skipToSlash_end hne hsla, ok_bind]
  have hn : (e : ℤ) + 4 - (b + 7 + (url.bytes.drop (b + 7)).length : ℕ) = (0 : ℕ) := by
    rw [length_drop]
    omega
  simp only [hn]
  rw [copyID_zeroed (Nat.zero_le _) (by decide)]
  rfl

/-! ## letv -/

/-- The first `.ts` ends where the first `ver_` begins. -/
def LetvEmpty (url : CString) : Prop := letvMark <:+: url.bytes ∧ ∃ s e, strstr verMark url.bytes = some s ∧
    strstr dotTs url.bytes = some e ∧ e + 3 = s

lemma letvExtractID_eq {s : ℕ} (hm : letvMark <:+: url.bytes)
    (hs : strstr verMark url.bytes = some s) (he : strstr dotTs url.bytes = some e) (id : List UInt8) :
    letvExtractID url id = copyID id (url.bytes.drop s) (e - s + 3) := by
  obtain ⟨b, hb⟩ := Option.isSome_iff_exists.mp (strstr_isSome_iff.mpr hm)
  simp [letvExtractID, hb, hs, he]

lemma letvExtractID_cut (h : letvExtractID url zeroed = .ok (1, id)) :
    letvMark <:+: url.bytes ∧ ∃ s e, strstr verMark url.bytes = some s ∧
      strstr dotTs url.bytes = some e ∧ s ≤ e + 3 ∧ 0 ∈ id ∧ cString id = (url.bytes.drop s).take (e + 3 - s) := by
  have hmarks : ∃ b s e, strstr letvMark url.bytes = some b ∧ strstr verMark url.bytes = some s ∧
      strstr dotTs url.bytes = some e := by
    unfold letvExtractID at h
    simp only at h
    split at h
    · rename_i b s e hb hs he
      exact ⟨b, s, e, hb, hs, he⟩
    · cases h
  obtain ⟨b, s, e, hb, hs, he⟩ := hmarks
  have hm : letvMark <:+: url.bytes := strstr_isSome_iff.mp (by rw [hb]; rfl)
  have hend := length_of_mark (prefix_of_strstr he) (by decide)
  have hthr : dotTs.length = 3 := rfl
  rw [letvExtractID_eq hm hs he] at h
  obtain ⟨-, h0, hlt, rfl⟩ := copyID_ok (by rw [length_drop]; omega) h
  have hcut : ((e : ℤ) - s + 3).toNat = e + 3 - s := by omega
  rw [hcut]
  exact ⟨hm, s, e, hs, he, by omega, nul_mem_padded _ (by omega), cString_cut url (by omega)⟩

lemma letvExtractID_id (h : letvExtractID url zeroed = .ok (1, id)) (hne : ¬ LetvEmpty url) :
    cString id ≠ [] ∧ cString id <:+: url.bytes ∧ verMark <+: cString id ∧ dotTs <:+ cString id := by
  obtain ⟨hm, s, e, hs, he, hle, -, hid⟩ := letvExtractID_cut h
  have hver := prefix_of_strstr hs
  have hts := prefix_of_strstr he
  have hfour : verMark.length = 4 := rfl
  have hthr : dotTs.length = 3 := rfl
  obtain ⟨v, hv⟩ : ∃ t, url.bytes.drop s = 118 :: t := ⟨_, hver.choose_spec.symm⟩
  obtain ⟨t, ht⟩ : ∃ t, url.bytes.drop e = 46 :: t := ⟨_, hts.choose_spec.symm⟩
  -- the two marks have no byte in common, so they do not overlap
  have hse : s + 4 ≤ e := by
    rcases Nat.lt_or_ge e s with hlt | hge
    · have hin : s < e + 3 := lt_of_le_of_ne hle fun heq => hne ⟨hm, s, e, hs, he, heq.symm⟩
      exact absurd (mem_mark hts hlt.le hin hv) (by decide)
    · by_contra hlt
      exact absurd (mem_mark hver hge (by omega) ht) (by decide)
  rw [hid, ← hthr]
  refine ⟨?_, cut_isInfix _ _ _, ?_, ?_⟩
  · rw [cut_eq hts (by omega)]
    simp [dotTs, ascii]
  · exact prefix_take_iff.mpr ⟨hver, by omega⟩
  · rw [cut_eq hts (by omega)]
    exact suffix_append _ _

lemma letvExtractID_empty (h : LetvEmpty url) : letvExtractID url zeroed = .ok (1, zeroed) := by
  obtain ⟨hm, s, e, hs, he, hse⟩ := h
  have hn : (e : ℤ) - s + 3 = (0 : ℕ) := by omega
  rw [letvExtractID_eq hm hs he, hn, copyID_zeroed (Nat.zero_le _) (by decide)]
  rfl

/-! ## Both sites -/

/-- What a file id of a site looks like. -/
def IsFileID (flag : ℤ) (url : CString) (id : List UInt8) : Prop :=
  id ≠ [] ∧ id <:+: url.bytes ∧ (flag = 100 → dotFlv <:+ id ∨ dotMp4 <:+ id) ∧
    (flag = 101 → verMark <+: id ∧ dotTs <:+ id)

/-- The URLs a site's function cuts to nothing. -/
def EmptyID (flag : ℤ) (url : CString) : Prop := (flag = 100 ∧ YoukuEmpty url) ∨ (flag = 101 ∧ LetvEmpty url)

/-- Only the two registered functions return 1, and they leave a terminated string. -/
theorem selectFunc_one (h : selectFunc url zeroed flag = .ok (1, id)) : (flag = 100 ∨ flag = 101) ∧ 0 ∈ id := by
  have hflag : flag = 100 ∨ flag = 101 := by
    by_contra hne
    have hzero : selectFunc url zeroed flag = .ok (0, zeroed) := by
      unfold selectFunc
      split_ifs with hran
      · rfl
      · have hidx : pf[(flag - 100).toNat]? = none :=
          getElem?_eq_none (by simp only [pf, length_cons, length_nil]; omega)
        rw [hidx]
    rw [hzero] at h
    cases h
  refine ⟨hflag, ?_⟩
  rcases hflag with rfl | rfl
  · obtain ⟨b, e, k, -, -, -, -, hnul, -⟩ := youkuExtractID_cut h
    exact hnul
  · obtain ⟨-, s, e, -, -, -, hnul, -⟩ := letvExtractID_cut h
    exact hnul

lemma selectFunc_isFileID (hflag : flag = 100 ∨ flag = 101) (h : selectFunc url zeroed flag = .ok (1, id))
    (hne : ¬ EmptyID flag url) : IsFileID flag url (cString id) := by
  rcases hflag with rfl | rfl
  · obtain ⟨h0, hin, hend⟩ := youkuExtractID_id h fun hc => hne (Or.inl ⟨rfl, hc⟩)
    exact ⟨h0, hin, fun _ => hend, fun hc => absurd hc (by decide)⟩
  · obtain ⟨h0, hin, hver, hts⟩ := letvExtractID_id h fun hc => hne (Or.inr ⟨rfl, hc⟩)
    exact ⟨h0, hin, fun hc => absurd hc (by decide), fun _ => ⟨hver, hts⟩⟩

lemma selectFunc_emptyID (h : EmptyID flag url) : selectFunc url zeroed flag = .ok (1, zeroed) := by
  rcases h with ⟨rfl, h⟩ | ⟨rfl, h⟩
  · exact youkuExtractID_empty h
  · exact letvExtractID_empty h

lemma cString_zeroed : cString zeroed = [] := rfl

end SquidVideoCache.VideoReg
