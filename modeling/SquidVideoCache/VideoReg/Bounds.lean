import SquidVideoCache.VideoReg.Extract

/-!
# The bounds of the copy

Each of the two functions hands one start and one length to `strncpy`. The length is the difference of two
pointers that were found by searches of their own, so its sign depends on the order of the marks in the URL,
and for letv nothing bounds it.
-/

namespace SquidVideoCache.VideoReg
open Lib List

/-- The arguments of `strncpy`: where in the URL it starts, and the length. -/
structure CopyCall where
  start : ℕ
  n : ℤ
  deriving DecidableEq, Repr

def youkuCall (url : CString) : Exec (Option CopyCall) :=
  let strstr := fun needle => strstr needle url.bytes
  if (strstr youkuMark).isSome ∧ (strstr flvNk).isSome then .ok none
  else if (strstr youkuMark).isSome ∧ (strstr mp4Nk).isSome then .ok none
  else match strstr youkuMark, (strstr dotFlv).or (strstr dotMp4) with
    | some youkubegin, some youkuIDend => do
      let skip ← skipToSlash (url.bytes.drop (youkubegin + 7))
      let youkuIDstart := youkubegin + 7 + skip
      let n : ℤ := youkuIDend + 4 - youkuIDstart
      if 1024 < n then .ok none else .ok (some ⟨youkuIDstart, n⟩)
    | _, _ => .ok none

def letvCall (url : CString) : Option CopyCall :=
  let strstr := fun needle => strstr needle url.bytes
  match strstr letvMark, strstr verMark, strstr dotTs with
  | some _, some letvIDstart, some letvIDend => some ⟨letvIDstart, letvIDend - letvIDstart + 3⟩
  | _, _, _ => none

/-- What follows: the copy and its terminator, or nothing. -/
def CopyCall.run (url : CString) (id : List UInt8) : Option CopyCall → Exec Extracted
  | none => .ok (0, id)
  | some c => copyID id (url.bytes.drop c.start) c.n

lemma youkuCall_eq {url : CString} {b e : ℕ} (hflv : ¬ flvNk <:+: url.bytes) (hmp4 : ¬ mp4Nk <:+: url.bytes)
    (hb : strstr youkuMark url.bytes = some b) (he : videoEnd url = some e) : youkuCall url = (do
      let skip ← skipToSlash (url.bytes.drop (b + 7)) let n : ℤ := e + 4 - (b + 7 + skip : ℕ)
      if 1024 < n then .ok none else .ok (some ⟨b + 7 + skip, n⟩)) := by
  rw [← strstr_eq_none_iff] at hflv hmp4
  unfold videoEnd at he
  simp [youkuCall, hflv, hmp4, hb, he]

lemma youkuCall_none {url : CString} (id : List UInt8) (h : ¬ (¬ flvNk <:+: url.bytes ∧ ¬ mp4Nk <:+: url.bytes ∧
    ∃ b e, strstr youkuMark url.bytes = some b ∧ videoEnd url = some e)) :
    youkuCall url = .ok none ∧ youkuExtractID url id = .ok (0, id) := by
  unfold youkuCall youkuExtractID
  simp only [strstr_isSome_iff]
  split_ifs with hflv hmp4
  · exact ⟨rfl, rfl⟩
  · exact ⟨rfl, rfl⟩
  · cases hb : strstr youkuMark url.bytes with
    | none => exact ⟨rfl, rfl⟩
    | some b =>
      have hyou : youkuMark <:+: url.bytes := strstr_isSome_iff.mp (by rw [hb]; rfl)
      cases he : (strstr dotFlv url.bytes).or (strstr dotMp4 url.bytes) with
      | none => exact ⟨rfl, rfl⟩
      | some e => exact absurd ⟨fun hc => hflv ⟨hyou, hc⟩, fun hc => hmp4 ⟨hyou, hc⟩, b, e, hb, he⟩ h

lemma youkuExtractID_call (url : CString) (id : List UInt8) :
    youkuExtractID url id = youkuCall url >>= CopyCall.run url id := by
  by_cases h : ¬ flvNk <:+: url.bytes ∧ ¬ mp4Nk <:+: url.bytes ∧
      ∃ b e, strstr youkuMark url.bytes = some b ∧ videoEnd url = some e
  · obtain ⟨hflv, hmp4, b, e, hb, he⟩ := h
    rw [youkuExtractID_eq hflv hmp4 hb he, youkuCall_eq hflv hmp4 hb he]
    cases skipToSlash (url.bytes.drop (b + 7)) with
    | error f => rfl
    | ok skip =>
      simp only [ok_bind]
      split_ifs
      · rfl
      · rfl
  · obtain ⟨hcall, hext⟩ := youkuCall_none id h
    rw [hcall, hext]
    rfl

lemma letvExtractID_call (url : CString) (id : List UInt8) : letvExtractID url id = CopyCall.run url id (letvCall url) := by
  cases hm : strstr letvMark url.bytes with
  | none => simp [letvExtractID, letvCall, hm, CopyCall.run]
  | some m =>
    cases hs : strstr verMark url.bytes with
    | none => simp [letvExtractID, letvCall, hs, CopyCall.run]
    | some s =>
      cases he : strstr dotTs url.bytes with
      | none => simp [letvExtractID, letvCall, he, CopyCall.run]
      | some e => simp [letvExtractID, letvCall, hm, hs, he, CopyCall.run]

/-- The length is not negative, only bytes of the URL are copied, and the terminator is inside the buffer. -/
structure CopyCall.Safe (url : CString) (c : CopyCall) : Prop where
  nonneg : 0 ≤ c.n
  copied : c.start + c.n ≤ url.bytes.length
  terminator : c.n + 1 < maxLen

/-! ## youku -/

/-- Where the scan from `i` stops: behind the next slash, or at the end of the URL. -/
def behindSlash (url : CString) (i : ℕ) : ℕ :=
  i + min (((url.bytes.drop i).takeWhile (· ≠ slash)).length + 1) (url.bytes.drop i).length

lemma skipToSlash_eq {s : List UInt8} (hne : s ≠ []) :
    skipToSlash s = .ok (min ((s.takeWhile (· ≠ slash)).length + 1) s.length) := by
  by_cases hs : slash ∈ s
  · obtain ⟨u, t, rfl, hu⟩ := eq_append_cons_of_mem hs
    have htake : (u ++ slash :: t).takeWhile (· ≠ slash) = u := by
      rw [takeWhile_append_of_pos (fun c hc => by simpa using fun heq : c = slash => hu (heq ▸ hc))]
      simp
    rw [skipToSlash_slash hu, htake, Nat.min_eq_left (by simp)]
  · have htake : s.takeWhile (· ≠ slash) = s :=
      takeWhile_eq_self_iff.mpr fun c hc => by simpa using fun heq : c = slash => hs (heq ▸ hc)
    rw [skipToSlash_end hne hs, htake, Nat.min_eq_right (Nat.le_succ _)]

/-- Something stands behind the mark, and the scan for a slash stops before the end of the suffix. -/
def YoukuOrdered (url : CString) : Prop :=
  ¬ flvNk <:+: url.bytes → ¬ mp4Nk <:+: url.bytes → ∀ b e, strstr youkuMark url.bytes = some b → videoEnd url = some e →
    b + 7 < url.bytes.length ∧ behindSlash url (b + 7) ≤ e + 4

lemma youkuCall_safe_iff (url : CString) :
    Ends (fun _ => False) (fun r => ∀ c, r = some c → c.Safe url) (youkuCall url) ↔ YoukuOrdered url := by
  by_cases h : ¬ flvNk <:+: url.bytes ∧ ¬ mp4Nk <:+: url.bytes ∧
      ∃ b e, strstr youkuMark url.bytes = some b ∧ videoEnd url = some e
  case neg =>
    rw [(youkuCall_none zeroed h).1]
    have hord : YoukuOrdered url := fun hflv hmp4 b e hb he => absurd ⟨hflv, hmp4, b, e, hb, he⟩ h
    simp [hord]
  obtain ⟨hflv, hmp4, b, e, hb, he⟩ := h
  have hend : e + 4 ≤ url.bytes.length := by
    obtain ⟨mark, rfl | rfl, hpre⟩ := videoEnd_mark he
    · exact length_of_mark hpre (by decide)
    · exact length_of_mark hpre (by decide)
  have hord : YoukuOrdered url ↔ b + 7 < url.bytes.length ∧ behindSlash url (b + 7) ≤ e + 4 := by
    constructor
    · exact fun h => h hflv hmp4 b e hb he
    · intro h _ _ b' e' hb' he'
      cases hb.symm.trans hb'
      cases he.symm.trans he'
      exact h
  rw [hord, youkuCall_eq hflv hmp4 hb he]
  by_cases hne : url.bytes.drop (b + 7) = []
  · -- the scan runs past the terminator
    rw [hne]
    have hle := drop_eq_nil_iff.1 hne
    exact ⟨fun h => h.elim, fun h => by omega⟩
  have hlt : b + 7 < url.bytes.length := by
    rw [drop_eq_nil_iff] at hne
    omega
  rw [skipToSlash_eq hne, ok_bind, ← behindSlash]
  by_cases hlong : (1024 : ℤ) < e + 4 - behindSlash url (b + 7)
  · rw [if_pos hlong]
    simp
    omega
  · rw [if_neg hlong]
    constructor
    · intro h
      have hnn := (h _ rfl).nonneg
      simp only at hnn
      omega
    · intro hle c hc
      cases hc
      exact ⟨by simp only; omega, by simp only; omega, by simp only [maxLen]; omega⟩

/-! ## letv -/

/-- `.ts` does not end before `ver_` begins, and not too far behind it. -/
def LetvOrdered (url : CString) : Prop :=
  letvMark <:+: url.bytes → ∀ s e, strstr verMark url.bytes = some s → strstr dotTs url.bytes = some e →
    s ≤ e + 3 ∧ e + 4 < s + maxLen

lemma letvCall_safe_iff (url : CString) : (∀ c, letvCall url = some c → c.Safe url) ↔ LetvOrdered url := by
  constructor
  · intro h hmark s e hs he
    obtain ⟨m, hm⟩ := Option.isSome_iff_exists.1 (strstr_isSome_iff.2 hmark)
    obtain ⟨hnn, -, hterm⟩ := h ⟨s, e - s + 3⟩ (by simp [letvCall, hm, hs, he])
    simp only at hnn hterm
    omega
  · intro h c hc
    unfold letvCall at hc
    simp only at hc
    split at hc
    · rename_i m s e hm hs he
      cases hc
      have hend := length_of_mark (prefix_of_strstr he) (by decide)
      have hthr : dotTs.length = 3 := rfl
      obtain ⟨hle, hlt⟩ := h (strstr_isSome_iff.1 (by rw [hm]; rfl)) s e hs he
      exact ⟨by simp only; omega, by simp only; omega, by simp only; omega⟩
    · cases hc

/-! ## Both sites -/

/-- The copies are safe exactly if the marks stand in the order that the functions expect, near enough to each other. -/
theorem calls_safe_iff (url : CString) :
    (Ends (fun _ => False) (fun r => ∀ c, r = some c → c.Safe url) (youkuCall url) ∧
      ∀ c, letvCall url = some c → c.Safe url) ↔ YoukuOrdered url ∧ LetvOrdered url :=
  and_congr (youkuCall_safe_iff url) (letvCall_safe_iff url)

/-- `.flv/youku/a/`. -/
def suffixFirst : CString := ⟨dotFlv ++ youkuMark ++ [97, slash], by decide⟩

/-- `/letv-uts/.ts/ver_`. -/
def tsFirst : CString := ⟨letvMark ++ dotTs ++ slash :: verMark, by decide⟩

theorem calls_not_safe : youkuCall suffixFirst = .ok (some ⟨13, -9⟩) ∧ letvCall tsFirst = some ⟨14, -1⟩ ∧
    youkuExtractID suffixFirst zeroed = .error .bounds ∧ letvExtractID tsFirst zeroed = .error .bounds := by
  refine ⟨by decide, by decide, ?_, ?_⟩
  · rfl
  · rfl

end SquidVideoCache.VideoReg
