import Mathlib.Data.List.DropRight
import SquidVideoCache.Lib.Words

/-!
# How long addresses are kept, ipcache.c

`ipcacheParse` folds the least TTL of an answer, and a TTL of zero reads as one not yet set.
-/

namespace SquidVideoCache.Ipcache
open Lib List

structure Rr where
  type : UInt16
  cls : UInt16
  ttl : UInt32
  rdlength : UInt16
  rdata : List UInt8

/-- The settings, as they stand after the checks of `configDoConfigure`. -/
structure Config where
  positiveDnsTtl : ℤ
  negativeDnsTtl : ℤ
  negative_pos : 0 < negativeDnsTtl
  negative_le : negativeDnsTtl ≤ positiveDnsTtl

structure Entry where
  expires : ℤ
  negcached : Bool
  inAddrs : List (List UInt8)
  badMask : List UInt8
  count : UInt8
  errorMessage : Option String

def Rr.isAddress (a : Rr) : Bool := a.type = 1 && a.cls = 1 && a.rdlength = 4

/-- Whether the TTL of a record counts: of an address, or of a CNAME. -/
def Rr.usable (a : Rr) : Bool := a.isAddress || (a.cls = 1 && a.type = 5)

def ttls (answers : List Rr) : List ℕ := (answers.filter Rr.usable).map (·.ttl.toNat)

def nextTtl (ttl t : ℕ) : ℕ := if ttl = 0 ∨ t < ttl then t else ttl

def limitTtl (cfg : Config) (ttl : ℤ) : ℤ :=
  let ttl := if cfg.positiveDnsTtl < ttl then toInt cfg.positiveDnsTtl else ttl
  if ttl < cfg.negativeDnsTtl then toInt cfg.negativeDnsTtl else ttl

/-- What is left in the entry; a lookup that failed brings its message. -/
def ipcacheParse (cfg : Config) (curtime : ℤ) (answers : Except String (List Rr)) : Exec Entry :=
  let i : Entry := ⟨curtime + cfg.negativeDnsTtl, true, [], [], 0, none⟩
  match answers with
  | .error message => .ok { i with errorMessage := some message }
  | .ok [] => .ok { i with errorMessage := some "No DNS records" }
  | .ok answers =>
    let na := answers.countP Rr.isAddress
    let inAddrs := (answers.filter Rr.isAddress).map (·.rdata.take 4)
    if na = 0 then .ok { i with errorMessage := some "No Address records" }
    else do
      cAssert (inAddrs.length = na)
      .ok {
        expires := curtime + limitTtl cfg (toInt ((ttls answers).foldl nextTtl 0 : ℕ))
        negcached := false
        inAddrs
        badMask := replicate na 0
        count := if na < 256 then .ofNat na else 255
        errorMessage := none }

variable {cfg : Config} {answers : List Rr} {m t : ℕ}

/-- The limits as the settings describe them. -/
def limited (cfg : Config) (ttl : ℤ) : ℤ := max (min ttl cfg.positiveDnsTtl) cfg.negativeDnsTtl

/-- The TTLs behind the last zero. -/
def afterZero (l : List ℕ) : List ℕ := l.rtakeWhile (· ≠ 0)

-- The fold starts again at each zero, so only what follows the last one takes part in the minimum.
lemma foldl_nextTtl (l : List ℕ) : (afterZero l = [] ∧ l.foldl nextTtl 0 = 0) ∨
    (l.foldl nextTtl 0 ∈ afterZero l ∧ ∀ t ∈ afterZero l, l.foldl nextTtl 0 ≤ t) := by
  induction l using List.reverseRecOn with
  | nil => exact .inl ⟨rfl, rfl⟩
  | append_singleton l t ih =>
    have hne : ∀ u ∈ afterZero l, u ≠ 0 := fun u hu => by simpa using mem_rtakeWhile_imp hu
    rw [foldl_append, foldl_cons, nextTtl]
    by_cases h0 : t = 0
    · have hto : afterZero (l ++ [t]) = [] := rtakeWhile_concat_neg _ _ _ (by simp [h0])
      exact .inl ⟨hto, by grind⟩
    · have hto : afterZero (l ++ [t]) = afterZero l ++ [t] := rtakeWhile_concat_pos _ _ _ (by simp [h0])
      grind

-- An `int` that cannot hold the lower limit cuts it, and misses the sum then.
lemma limitTtl_eq_iff (ht : t < 2 ^ 31) (hm : m < 2 ^ 31) :
    limitTtl cfg t = limited cfg m ↔ cfg.negativeDnsTtl < 2 ^ 31 ∧ limited cfg t = limited cfg m := by
  have h0 := cfg.negative_pos
  have hle := cfg.negative_le
  have hcut : toInt cfg.negativeDnsTtl < 2 ^ 31 := Int.bmod_lt (by decide)
  have hneg : cfg.negativeDnsTtl < 2 ^ 31 → toInt cfg.negativeDnsTtl = cfg.negativeDnsTtl := toInt_of_lt h0.le
  have hpos : cfg.positiveDnsTtl < 2 ^ 31 → toInt cfg.positiveDnsTtl = cfg.positiveDnsTtl := toInt_of_lt (by omega)
  unfold limitTtl limited
  grind

lemma ipcacheParse_eq (cfg : Config) (curtime : ℤ) (ha : ∃ a ∈ answers, a.isAddress) :
    ∃ i, ipcacheParse cfg curtime (.ok answers) = .ok i ∧
      i.expires = curtime + limitTtl cfg (toInt ((ttls answers).foldl nextTtl 0 : ℕ)) := by
  have hna : answers.countP Rr.isAddress ≠ 0 := by simpa using ha
  cases answers with
  | nil => exact absurd rfl hna
  | cons a as =>
    simp only [ipcacheParse, hna]
    rw [cAssert_pos (by rw [length_map, countP_eq_length_filter])]
    exact ⟨_, rfl, rfl⟩

/-- The expiry follows the least TTL unless the TTLs behind a zero all exceed the lower limit. -/
theorem expires_least_iff (cfg : Config) (curtime : ℤ) (answers : List Rr) (ha : ∃ a ∈ answers, a.isAddress)
    (ht : ∀ t ∈ ttls answers, t < 2 ^ 31) :
    (∃ i m, ipcacheParse cfg curtime (.ok answers) = .ok i ∧ (ttls answers).min? = some m ∧
      i.expires = curtime + limited cfg m) ↔
    cfg.negativeDnsTtl < 2 ^ 31 ∧ (cfg.negativeDnsTtl < cfg.positiveDnsTtl → 0 ∈ ttls answers →
      afterZero (ttls answers) ≠ [] → ∃ t ∈ afterZero (ttls answers), (t : ℤ) ≤ cfg.negativeDnsTtl) := by
  have hne : ttls answers ≠ [] := by
    obtain ⟨a, hma, haa⟩ := ha
    exact ne_nil_of_mem (mem_map_of_mem (mem_filter.mpr ⟨hma, by simp [Rr.usable, haa]⟩))
  obtain ⟨i, hi, he⟩ := ipcacheParse_eq cfg curtime ha
  generalize ttls answers = l at *
  obtain ⟨m, hm⟩ := Option.isSome_iff_exists.mp (isSome_min?_of_ne_nil hne)
  obtain ⟨hmem, hmin⟩ := min?_eq_some_iff.mp hm
  have hsub : ∀ t ∈ afterZero l, t ∈ l := fun t h => (rtakeWhile_suffix _ _).subset h
  have hall : 0 ∉ l → afterZero l = l := fun h => rtakeWhile_eq_self_iff.mpr (by grind)
  have hfold := foldl_nextTtl l
  have hlt : l.foldl nextTtl 0 < 2 ^ 31 := by grind
  rw [toInt_of_lt (by omega) (by omega)] at he
  simp only [hi, hm, Except.ok.injEq, Option.some.injEq, exists_and_left, exists_eq_left', he, add_right_inj,
    limitTtl_eq_iff hlt (ht m hmem)]
  unfold limited
  have h0 := cfg.negative_pos
  generalize l.foldl nextTtl 0 = least at hfold ⊢
  refine and_congr_right fun _ => ⟨fun h _ hz hne => ?_, fun h => ?_⟩
  · obtain ⟨he, -⟩ | ⟨hf, -⟩ := hfold
    · exact absurd he hne
    · have := hmin 0 hz
      exact ⟨least, hf, by omega⟩
  · by_cases hz : 0 ∈ l
    · have := hmin 0 hz
      obtain ⟨-, rfl⟩ | ⟨hf, hmf⟩ := hfold
      · omega
      · by_cases hlt : cfg.negativeDnsTtl < cfg.positiveDnsTtl
        · obtain ⟨t, hmt, htn⟩ := h hlt hz (ne_nil_of_mem hf)
          have := hmf t hmt
          omega
        · omega
    · have : least = m := by grind
      rw [this]

/-- The default settings, and an answer of two addresses. -/
def defaults : Config := ⟨21600, 60, by decide, by decide⟩

def twoAddresses (t u : UInt32) : List Rr := [⟨1, 1, t, 4, [1, 2, 3, 4]⟩, ⟨1, 1, u, 4, [1, 2, 3, 5]⟩]

theorem expires_least_nonzero : ∃ i m, ipcacheParse defaults 0 (.ok (twoAddresses 90 300)) = .ok i ∧
    (ttls (twoAddresses 90 300)).min? = some m ∧ i.expires = 0 + limited defaults m :=
  (expires_least_iff _ 0 _ ⟨_, mem_cons_self, rfl⟩ (by decide)).mpr
    ⟨by decide, fun _ h => absurd h (by decide)⟩

theorem expires_zero_first : ¬ ∀ (cfg : Config) (curtime : ℤ) (answers : List Rr), (∃ a ∈ answers, a.isAddress) →
    (∀ t ∈ ttls answers, t < 2 ^ 31) → ∃ i m, ipcacheParse cfg curtime (.ok answers) = .ok i ∧
      (ttls answers).min? = some m ∧ i.expires = curtime + limited cfg m := by
  intro h
  obtain ⟨i, m, hi, hm, he⟩ := h defaults 0 (twoAddresses 0 300) ⟨_, mem_cons_self, rfl⟩ (by decide)
  cases hi
  cases hm
  exact absurd he (by decide)

end SquidVideoCache.Ipcache
