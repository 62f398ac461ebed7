import SquidVideoCache.Reply.Model

/-!
# Appending to a String, String.c

The length and the size of a `String` have sixteen bits, and `stringAppend` cuts a longer length to them before it asks
for memory. Where the memory is enough already it uses `strncat`, which looks for the first NUL and not for the end.
-/

namespace SquidVideoCache.Reply
open Lib List

def Str.contents (s : Str) : List UInt8 := s.buf.take s.len

/-- A `String` and its memory; the null one has none. -/
structure StringOk (s : Str) : Prop where
  buf : s.buf.length = s.size
  size : s.size < 65536
  len : s.len < s.size ∨ s.size = 0 ∧ s.len = 0
  nul : s.len < s.size → s.buf[s.len]? = some 0

/-- What `stringAppend` is for. -/
def Appended (s : Str) (t : List UInt8) (s' : Str) : Prop :=
  s'.contents = s.contents ++ t ∧ s'.len = (s.contents ++ t).length ∧ s'.len < s'.size

lemma cString_eq_of_mem {u : List UInt8} (h : 0 ∈ u) : ∃ v, u = cString u ++ 0 :: v := by
  have hspl := takeWhile_append_dropWhile (p := (· != 0)) (l := u)
  cases hrest : u.dropWhile (· != 0) with
  | nil => exact absurd h (by rw [← hspl, hrest, append_nil]; exact cString_nulFree u)
  | cons c v =>
    have hc := head?_dropWhile_not (· != 0) u
    rw [hrest] at hc
    obtain rfl : c = 0 := by simpa using hc
    exact ⟨v, by rw [cString, ← hrest, hspl]⟩

variable {s : Str} {t : List UInt8}

lemma StringOk.length_contents (h : StringOk s) : s.contents.length = s.len := by
  have hbuf := h.buf
  have hlen := h.len
  rw [Str.contents, length_take]
  omega

lemma strncat_eq {k w : List UInt8} (hk : 0 ∉ k) (ht : 0 ∉ t) (hroom : t.length ≤ w.length) :
    strncat (k ++ 0 :: w) t = .ok (k ++ t ++ 0 :: w.drop t.length) := by
  have hlt : (k ++ t).length < (k ++ 0 :: w).length := by
    simp only [length_append, length_cons]
    omega
  rw [strncat, cString_append_nul hk, cString_of_nulFree ht]
  simp only [if_pos hlt]
  rw [length_append, Nat.add_assoc, drop_length_add_append, drop_succ_cons]

lemma StringOk.strncat_iff (h : StringOk s) (hnul : 0 ∉ t) (hfits : s.len + t.length < s.size) :
    ∃ buf, strncat s.buf t = .ok buf ∧
      (Appended s t { s with buf, len := s.len + t.length } ↔ 0 ∉ s.contents ∨ t = []) := by
  have hlength := h.length_contents
  have hsize := h.buf
  obtain ⟨rest, hbuf⟩ : ∃ rest, s.buf = s.contents ++ 0 :: rest := by
    obtain ⟨hlt, hget⟩ := List.getElem?_eq_some_iff.mp (h.nul (by omega))
    exact ⟨_, by rw [Str.contents, ← hget, ← drop_eq_getElem_cons hlt, take_append_drop]⟩
  rw [hbuf, length_append, length_cons] at hsize
  have hcon : ∀ buf, Appended s t { s with buf, len := s.len + t.length } ↔
      buf.take (s.len + t.length) = s.contents ++ t := by
    intro buf
    rw [Appended, length_append, hlength]
    simp [Str.contents, hfits]
  by_cases hcle : 0 ∈ s.contents
  · obtain ⟨v, hv⟩ := cString_eq_of_mem hcle
    have hk := cString_nulFree s.contents
    generalize cString s.contents = k at hv hk
    have hlen : k.length + (v.length + 1) = s.len := by rw [← hlength, hv, length_append, length_cons]
    rw [hbuf, hv, append_assoc, cons_append]
    refine ⟨_, strncat_eq hk hnul (by rw [length_append, length_cons]; omega), ?_⟩
    rw [hcon, hv]
    cases t with
    | nil => simp [← hlen, take_length_add_append]
    | cons c t =>
      -- the first byte that is appended stands where the contents have a NUL
      have hc : c ≠ 0 := fun hc => hnul (by simp [hc])
      refine iff_of_false (fun heq => hc ?_) (by simp)
      rw [← hlen, Nat.add_assoc, append_assoc, append_assoc, take_length_add_append] at heq
      simpa using head_eq_of_cons_eq (append_cancel_left heq)
  · rw [hbuf]
    refine ⟨_, strncat_eq hcle hnul (by omega), ?_⟩
    rw [hcon, ← hlength, ← length_append, take_left]
    simp [hcle]

/-- A string of 64 KB or more overruns its memory, unless the length that is left of it makes an assertion fail. -/
theorem stringAppend_appended_iff (h : StringOk s) (hnul : 0 ∉ t) :
    Ends (· = .assertion) (Appended s t) (stringAppend s t) ↔ if s.len + t.length < s.size then 0 ∉ s.contents ∨ t = []
      else s.len + t.length < 65536 ∨ (s.len + t.length) % 65536 = 65535 := by
  unfold stringAppend
  split_ifs with hfits
  · obtain ⟨buf, hbuf, hiff⟩ := h.strncat_iff hnul hfits
    rw [hbuf]
    exact hiff
  · have hall := memAllocString_bounds ((s.len + t.length) % 65536 + 1)
    simp only
    by_cases hlast : (s.len + t.length) % 65536 = 65535
    · rw [cAssert, if_neg (by omega)]
      simp [hlast]
    · rw [cAssert_pos (by omega)]
      by_cases hsma : s.len + t.length < 65536
      · rw [Nat.mod_eq_of_lt hsma] at hall ⊢
        have hlength := h.length_contents
        rw [if_pos (by omega)]
        refine iff_of_true ⟨?_, ?_, ?_⟩ (.inl hsma)
        · show List.take _ (s.contents ++ t ++ _) = _
          rw [← hlength, ← length_append, take_left]
        · simp [hlength]
        · simp only
          omega
      · rw [if_neg (by omega)]
        simp [hsma, hlast]

/-- The null string gets its first bytes. -/
theorem stringAppend_null : Ends (· = .assertion) (Appended {} [72, 105]) (stringAppend {} [72, 105]) :=
  (stringAppend_appended_iff ⟨rfl, by decide, .inr ⟨rfl, rfl⟩, by decide⟩ (by decide)).mpr (by decide)

/-- Of 65536 bytes none is kept. -/
theorem stringAppend_overrun : StringOk {} ∧ 0 ∉ List.replicate 65536 (97 : UInt8) ∧
    stringAppend {} (List.replicate 65536 97) = .error .bounds := by
  refine ⟨⟨rfl, by decide, .inr ⟨rfl, rfl⟩, by decide⟩, fun h => absurd (eq_of_mem_replicate h) (by decide), ?_⟩
  rw [stringAppend, length_replicate]
  rfl

end SquidVideoCache.Reply
