import SquidVideoCache.Acsm.Build

/-!
# acsmSearch_cap

Over bytes below 128 every state of the automaton is solid, and the search stops
at the first position where a pattern ends, with the longest such pattern.
-/

namespace SquidVideoCache.Acsm
open Lib List

variable {acsm : AcsmStruct} {word : ℕ → List UInt8}
  {c : UInt8} {s d w : List UInt8} {pats : List AcsmPattern} {p m : AcsmPattern} {o : Option AcsmPattern} {n : ℕ}

/-! ## Case conversion -/

def upper (s : List UInt8) : List UInt8 := s.map xlatcase

@[simp] lemma upper_length (s : List UInt8) : (upper s).length = s.length := length_map _

lemma xlatcase_toNat (c : UInt8) : (xlatcase c).toNat =
    if 97 ≤ c.toNat ∧ c.toNat ≤ 122 then c.toNat - 32 else c.toNat := by
  have h97 : (97 : UInt8).toNat = 97 := rfl
  have h122 : (122 : UInt8).toNat = 122 := rfl
  simp only [xlatcase, UInt8.le_iff_toNat_le, h97, h122]
  split_ifs with h
  · rw [UInt8.toNat_sub_of_le]
    · rfl
    · exact le_trans (by decide) h.1
  · rfl

lemma xlatcase_ne_zero (h : c ≠ 0) : xlatcase c ≠ 0 := by
  intro h0
  have ht := xlatcase_toNat c
  have hc : c.toNat ≠ 0 := fun hz => h (UInt8.toNat_inj.mp hz)
  rw [h0] at ht
  split_ifs at ht <;> simp at ht <;> omega

lemma xlatcase_lt (h : c < 128) : xlatcase c < 128 := by
  rw [UInt8.lt_iff_toNat_lt] at h ⊢
  rw [xlatcase_toNat]
  split_ifs <;> omega

lemma upper_nulFree (h : 0 ∉ s) : 0 ∉ upper s := by
  intro h0
  obtain ⟨c, hc, hx⟩ := mem_map.mp h0
  exact xlatcase_ne_zero (fun hz => h (hz ▸ hc)) hx

lemma convertCaseEX_ok {m : ℕ} (hs : m ≤ s.length) (hd : m ≤ d.length) :
    convertCaseEX d s m = .ok (upper (s.take m) ++ d.drop m) := by
  induction m with
  | zero =>
    simp [convertCaseEX, upper]
  | succ m ih =>
    have hi := ih (by omega) (by omega)
    unfold convertCaseEX at hi ⊢
    rw [range_succ, foldlM_append, hi, ok_bind, foldlM_cons]
    have hlen : (upper (s.take m)).length = m := by simp; omega
    rw [load_of_lt (by omega), ok_bind, store_natCast_of_lt (by simp; omega), set_append_right _ _ (by omega), hlen, Nat.sub_self,
      drop_eq_getElem_cons (by omega)]
    have htake : upper (s.take (m + 1)) = upper (s.take m) ++ [xlatcase s[m]] := by
      rw [upper, take_succ_eq_append_getElem (by omega), map_append]
      rfl
    rw [htake, append_assoc]
    rfl

lemma convertCaseEX_fault {m : ℕ} (hs : m ≤ s.length) (hd : d.length < m) : convertCaseEX d s m = .error .bounds := by
  obtain ⟨k, rfl⟩ : ∃ k, m = d.length + 1 + k := ⟨m - (d.length + 1), by omega⟩
  have hi := convertCaseEX_ok (d := d) (s := s) (by omega) le_rfl
  unfold convertCaseEX at hi ⊢
  rw [range_add, range_succ, append_assoc, foldlM_append, hi, ok_bind]
  rw [singleton_append, foldlM_cons, load_of_lt (by omega), ok_bind,
    store_natCast_of_ge (by simp)]
  rfl

/-! ## Matches -/

def LongestMatch (pats : List AcsmPattern) (w : List UInt8) (m : AcsmPattern) : Prop :=
  m ∈ pats ∧ m.patrnCap <:+ w ∧
    ∀ p ∈ pats, p.patrnCap <:+ w → p.patrnCap.length ≤ m.patrnCap.length

def NoMatch (pats : List AcsmPattern) (w : List UInt8) : Prop := ∀ p ∈ pats, ¬ p.patrnCap <:+ w

/-- A match, if there is one, is a longest one. -/
def BestMatch (pats : List AcsmPattern) (w : List UInt8) : Option AcsmPattern → Prop
  | some m => LongestMatch pats w m
  | none => NoMatch pats w

lemma pattern_mem_prefixes (hp : p ∈ pats) : p.patrnCap ∈ prefixes pats := Or.inr ⟨p, hp, prefix_rfl⟩

/-- The automaton forgets only what no pattern needs. -/
theorem suffix_longestSuffix_iff (hp : p ∈ pats)
    (w : List UInt8) : p.patrnCap <:+ longestSuffix (prefixes pats) w ↔ p.patrnCap <:+ w :=
  ⟨fun h => h.trans (longestSuffix_suffix _ w),
    fun h => longestSuffix_max (pattern_mem_prefixes hp) h⟩

lemma bestMatch_longestSuffix (h : BestMatch pats (longestSuffix (prefixes pats) w) o) : BestMatch pats w o := by
  cases o with
  | none => exact fun p hp hpw => h p hp ((suffix_longestSuffix_iff hp w).mpr hpw)
  | some m =>
    exact ⟨h.1, (suffix_longestSuffix_iff h.1 w).mp h.2.1,
      fun p hp hpw => h.2.2 p hp ((suffix_longestSuffix_iff hp w).mpr hpw)⟩

lemma bestMatch_fail (hc : Compiled acsm word) {s : ℕ} (hs : s ≤ acsm.acsmNumState)
    (h0 : s ≠ 0) (hnil : (acsm.acsmStateTable s).matchList = [])
    (h : BestMatch acsm.acsmPatterns (word (acsm.acsmStateTable s).failState) o) :
    BestMatch acsm.acsmPatterns (word s) o := by
  rw [(hc.fail s hs h0).2] at h
  have hiff : ∀ p ∈ acsm.acsmPatterns, p.patrnCap <:+ word s →
      p.patrnCap <:+ properSuffix (prefixes acsm.acsmPatterns) (word s) := by
    intro p hp hps
    apply suffix_properSuffix (pattern_mem_prefixes hp) hps
    intro he
    exact hc.matchList_complete s hs p hp he hnil
  cases o with
  | none => exact fun p hp hps => h p hp (hiff p hp hps)
  | some m =>
    exact ⟨h.1, h.2.1.trans (properSuffix_suffix _ _),
      fun p hp hps => h.2.2 p hp (hiff p hp hps)⟩

lemma longestMatch_head (hc : Compiled acsm word) {s : ℕ} (hs : s ≤ acsm.acsmNumState) {rest : List AcsmPattern}
    (hm : (acsm.acsmStateTable s).matchList = m :: rest) : LongestMatch acsm.acsmPatterns (word s) m := by
  obtain ⟨hmem, hw⟩ := hc.matchList_sound s hs m (hm ▸ mem_cons_self)
  refine ⟨hmem, hw ▸ suffix_rfl, ?_⟩
  intro p _ hps
  rw [hw]
  exact hps.length_le

/-- The walk along the fail states ends, because words get shorter, and finds a longest match. -/
theorem failWalk_spec (hc : Compiled acsm word) (hsolid : ∀ s, (acsm.acsmStateTable s).flag = .solid)
    (hne : ∀ p ∈ acsm.acsmPatterns, p.patrnCap ≠ []) (fuel : ℕ) {s : ℕ} (hs : s ≤ acsm.acsmNumState)
    (hfuel : (word s).length < fuel) : ∃ o, failWalk acsm.acsmStateTable fuel s = .ok o ∧
      BestMatch acsm.acsmPatterns (word s) o := by
  induction fuel generalizing s with
  | zero => omega
  | succ fuel ih =>
    unfold failWalk
    by_cases h0 : s = 0
    · refine ⟨none, by simp [h0], ?_⟩
      intro p hp hps
      rw [h0, hc.root, suffix_nil] at hps
      exact hne p hp hps
    rw [if_neg h0, hsolid s]
    cases hm : (acsm.acsmStateTable s).matchList with
    | cons m rest => exact ⟨some m, rfl, longestMatch_head hc hs hm⟩
    | nil =>
      obtain ⟨hle, hw⟩ := hc.fail s hs h0
      have hws : word s ≠ [] := fun hw0 =>
        h0 (hc.inj s hs 0 (Nat.zero_le _) (hw0.trans hc.root.symm))
      have hlt := properSuffix_length_lt (prefixes acsm.acsmPatterns) hws
      rw [← hw] at hlt
      obtain ⟨o, hrun, hbest⟩ := ih hle (by omega)
      exact ⟨o, hrun, bestMatch_fail hc hs h0 hm hbest⟩

lemma prefixes_prefixClosed (pats : List AcsmPattern) : PrefixClosed (prefixes pats) := by
  intro u c h
  refine Or.inr ?_
  obtain ⟨p, hp, hpre⟩ := h.resolve_left (by simp)
  exact ⟨p, hp, (prefix_append u [c]).trans hpre⟩

/-- A word has at least as many prefixes as letters, and each is a state. -/
theorem Compiled.length_le (hc : Compiled acsm word) {s : ℕ} (hs : s ≤ acsm.acsmNumState) :
    (word s).length ≤ acsm.acsmNumState := by
  have hsta : ∀ k, ∃ t ≤ acsm.acsmNumState, word t = (word s).take k := by
    intro k
    have hmem : word s ∈ prefixes acsm.acsmPatterns := hc.nodes_eq ▸ ⟨s, hs, rfl⟩
    have htake := mem_of_isPrefix (prefixes_prefixClosed _) hmem (List.take_prefix k _)
    rwa [← hc.nodes_eq] at htake
  choose t ht hw using hsta
  have hcard : (Finset.range ((word s).length + 1)).card ≤ (Finset.range (acsm.acsmNumState + 1)).card := by
    apply Finset.card_le_card_of_injOn t
    · intro k _
      exact Finset.mem_coe.mpr (Finset.mem_range.mpr (Nat.lt_succ_of_le (ht k)))
    · intro j hj k hk hjk
      have hjk' : ((word s).take j).length = ((word s).take k).length := by
        rw [← hw j, ← hw k, hjk]
      simp only [Finset.coe_range, Set.mem_Iio, length_take] at hj hk hjk'
      omega
  rw [Finset.card_range, Finset.card_range] at hcard
  omega

/-! ## The search -/

/-- `m` is a longest pattern that ends at the first position where any pattern does. -/
def FirstMatch (pats : List AcsmPattern) (w : List UInt8) (m : AcsmPattern) : Prop :=
  ∃ n ≤ w.length, LongestMatch pats (w.take n) m ∧ ∀ k < n, NoMatch pats (w.take k)

/-- What the whole loop finds in the text `w`. -/
def SearchResult (pats : List AcsmPattern) (w : List UInt8) : Option AcsmPattern → Prop
  | some m => FirstMatch pats w m
  | none => ∀ n ≤ w.length, NoMatch pats (w.take n)

/-- What one turn of the loop returns in the state `s`, if anything. -/
def searchState (acsm : AcsmStruct) (s : ℕ) : Exec (Option ℤ) :=
  match (acsm.acsmStateTable s).matchList with
  | mlist :: _ => .ok (some (returnMatch acsm mlist))
  | [] => searchFail acsm s

lemma searchLoop_ascii (acsm : AcsmStruct) (s : ℕ) (text : List UInt8) (h0 : c ≠ 0)
    (h : c < 128) : searchLoop acsm s (c :: text) = (do
      match ← searchState acsm ((acsm.acsmStateTable s).nextState c) with
      | some ret => return ret
      | none => searchLoop acsm ((acsm.acsmStateTable s).nextState c) text) := by
  rw [searchLoop, if_neg h0]
  simp only [if_pos h, searchState]
  cases (acsm.acsmStateTable ((acsm.acsmStateTable s).nextState c)).matchList <;> rfl

section

variable (hc : Compiled acsm word)
  (hsolid : ∀ s, (acsm.acsmStateTable s).flag = .solid)
  (hne : ∀ p ∈ acsm.acsmPatterns, p.patrnCap ≠ [])

include hc hsolid hne

lemma searchState_spec {s : ℕ} (hs : s ≤ acsm.acsmNumState) :
    ∃ o, searchState acsm s = .ok (o.map (returnMatch acsm)) ∧ BestMatch acsm.acsmPatterns (word s) o := by
  unfold searchState
  cases hm : (acsm.acsmStateTable s).matchList with
  | cons m rest => exact ⟨some m, rfl, longestMatch_head hc hs hm⟩
  | nil =>
    have hfail : (acsm.acsmStateTable s).failState ≤ acsm.acsmNumState := by
      by_cases h0 : s = 0
      · rw [h0, hc.rootFail]
        exact Nat.zero_le _
      · exact (hc.fail s hs h0).1
    have hlen := hc.length_le hfail
    have hnum := hc.num_lt
    obtain ⟨o, hrun, hbest⟩ := failWalk_spec hc hsolid hne (acsm.acsmMaxState + 1) hfail
      (by omega)
    refine ⟨o, by simp only [searchFail, hrun]; rfl, ?_⟩
    by_cases h0 : s = 0
    · rwa [h0, hc.rootFail, ← h0] at hbest
    · exact bestMatch_fail hc hs h0 hm hbest

/-- After the text `w` without a match the loop is in the state of its longest suffix. -/
theorem searchLoop_spec {s : ℕ} (hs : s ≤ acsm.acsmNumState)
    {text : List UInt8} (hw : word s = longestSuffix (prefixes acsm.acsmPatterns) w)
    (hno : ∀ n ≤ w.length, NoMatch acsm.acsmPatterns (w.take n)) (htext : ∀ c ∈ text, c ≠ 0 ∧ c < 128) :
    ∃ o, searchLoop acsm s text = .ok ((o.map (returnMatch acsm)).getD 0) ∧
      SearchResult acsm.acsmPatterns (w ++ text) o := by
  induction text generalizing s w with
  | nil =>
    refine ⟨none, by rw [searchLoop]; rfl, ?_⟩
    rw [append_nil]
    exact hno
  | cons c text ih =>
    obtain ⟨h0, hlt⟩ := htext c mem_cons_self
    obtain ⟨hs', hnext⟩ := hc.next s hs c
    have hnil : [] ∈ prefixes acsm.acsmPatterns := Or.inl rfl
    rw [hw, ← longestSuffix_concat (prefixes_prefixClosed _) hnil] at hnext
    obtain ⟨o, hrun, hbest⟩ := searchState_spec hc hsolid hne hs'
    rw [hnext] at hbest
    have hbest := bestMatch_longestSuffix hbest
    rw [searchLoop_ascii acsm s text h0 hlt, hrun]
    have htake : ∀ n ≤ w.length, (w ++ c :: text).take n = w.take n := fun n hn =>
      take_append_of_le_length hn
    cases o with
    | some m =>
      refine ⟨some m, rfl, w.length + 1, by simp, ?_, ?_⟩
      · rw [take_append, take_of_length_le (by omega), Nat.add_sub_cancel_left]
        exact hbest
      · intro k hk
        rw [htake k (by omega)]
        exact hno k (by omega)
    | none =>
      have happ : w ++ c :: text = (w ++ [c]) ++ text := by rw [append_assoc]; rfl
      rw [happ]
      apply ih hs' hnext _ (fun d hd => htext d (mem_cons_of_mem c hd))
      intro n hn
      rcases Nat.lt_or_ge w.length n with hlt' | hle
      · rw [take_of_length_le (by rw [length_append, length_singleton]; omega)]
        exact hbest
      · rw [take_append_of_le_length hle]
        exact hno n hle

end

/-! ## The flag of a match -/

lemma acsmAddPatterns_acsmPatterns (pats : List (List UInt8 × UInt32)) :
    (acsmAddPatterns pats).acsmPatterns = (pats.map fun p => ⟨upper p.1, p.2⟩).reverse := by
  induction pats using List.reverseRecOn with
  | nil => rfl
  | append_singleton pats p ih =>
    rw [acsmAddPatterns, foldl_append] at *
    rw [map_append, reverse_append, ← ih]
    rfl

lemma strcmpEq_iff {a b : List UInt8} (ha : 0 ∉ a) (hb : 0 ∉ b) : strcmpEq a b ↔ a = b := by
  rw [strcmpEq, beq_iff_eq, cString_of_nulFree ha, cString_of_nulFree hb]

/-- `PrintMatch` reports the pattern added last among those with the text of the match. -/
theorem returnMatch_spec {pats : List (List UInt8 × UInt32)} (hnul : ∀ p ∈ pats, 0 ∉ p.1)
    (hp : acsm.acsmPatterns = (pats.map fun p => ⟨upper p.1, p.2⟩).reverse) (hm : m ∈ acsm.acsmPatterns) :
    ∃ pre p flag post, pats = pre ++ (p, flag) :: post ∧ upper p = m.patrnCap ∧
      (∀ q ∈ post, upper q.1 ≠ upper p) ∧ returnMatch acsm m = flag.toBitVec.toInt := by
  have hcmp : ∀ a ∈ acsm.acsmPatterns, strcmpEq a.patrnCap m.patrnCap ↔ a.patrnCap = m.patrnCap := by
    have hfree : ∀ a ∈ acsm.acsmPatterns, 0 ∉ a.patrnCap := by
      intro a ha
      rw [hp, mem_reverse, mem_map] at ha
      obtain ⟨q, hq, rfl⟩ := ha
      exact upper_nulFree (hnul q hq)
    exact fun a ha => strcmpEq_iff (hfree a ha) (hfree m hm)
  have hsome : (acsm.acsmPatterns.find? fun a => strcmpEq a.patrnCap m.patrnCap).isSome :=
    find?_isSome.mpr ⟨m, hm, (hcmp m hm).mpr rfl⟩
  obtain ⟨a, ha⟩ := Option.isSome_iff_exists.mp hsome
  have hret : returnMatch acsm m = a.urlflag.toBitVec.toInt := by
    rw [returnMatch, printMatch, ha]
    rfl
  obtain ⟨heq, newer, older, hspl, hnewe⟩ := find?_eq_some_iff_append.mp ha
  have hrev : pats.map (fun p => (⟨upper p.1, p.2⟩ : AcsmPattern)) = older.reverse ++ a :: newer.reverse := by
    rw [← reverse_inj, ← hp, hspl]
    simp
  obtain ⟨pre, rest, rfl, -, hrest⟩ := map_eq_append_iff.mp hrev
  obtain ⟨⟨p, flag⟩, post, rfl, rfl, hpost⟩ := map_eq_cons_iff.mp hrest
  have hcap : upper p = m.patrnCap := (hcmp _ (hspl ▸ by simp)).mp heq
  refine ⟨pre, p, flag, post, rfl, hcap, ?_, hret⟩
  intro q hq hqp
  have hmem : (⟨upper q.1, q.2⟩ : AcsmPattern) ∈ newer := by
    rw [← mem_reverse, ← hpost]
    exact mem_map_of_mem hq
  have hq' := hnewe _ hmem
  rw [(hcmp _ (hspl ▸ mem_append_left _ hmem)).mpr (hqp.trans hcap)] at hq'
  exact absurd hq' (by decide)

lemma toInt_ne_zero {flag : UInt32} (h : flag ≠ 0) : flag.toBitVec.toInt ≠ 0 := by
  intro h0
  exact h (UInt32.toBitVec_inj.mp (BitVec.toInt_inj.mp h0))

/-- The flag of the answer to a search of `text`: of the patterns that end at the first
position `n` where any ends, the longest, and of equal ones the one added last. -/
def IsAnswer (pats : List (List UInt8 × UInt32)) (text : List UInt8) (flag : UInt32) : Prop :=
  ∃ pre p post n, pats = pre ++ (p, flag) :: post ∧ (∀ q ∈ post, upper q.1 ≠ upper p) ∧
    n ≤ text.length ∧ upper p <:+ upper (text.take n) ∧
    (∀ q ∈ pats, upper q.1 <:+ upper (text.take n) → q.1.length ≤ p.length) ∧
    ∀ k < n, ∀ q ∈ pats, ¬ upper q.1 <:+ upper (text.take k)

lemma infix_iff_suffix_take {u : List UInt8} : u <:+: w ↔ ∃ n ≤ w.length, u <:+ w.take n := by
  rw [List.infix_iff_suffix_prefix]
  constructor
  · intro ⟨t, hut, htw⟩
    exact ⟨t.length, htw.length_le, (prefix_iff_eq_take.mp htw) ▸ hut⟩
  · intro ⟨n, _, hu⟩
    exact ⟨w.take n, hu, take_prefix n w⟩

lemma upper_take (s : List UInt8) (n : ℕ) : upper (s.take n) = (upper s).take n := map_take

lemma toInt_ofNat (h : n < 2 ^ 31) : (UInt32.ofNat n).toBitVec.toInt = n := by
  have hn : (UInt32.ofNat n).toBitVec.toNat = n := by
    rw [UInt32.toNat_toBitVec, UInt32.toNat_ofNat', Nat.mod_eq_of_lt (by omega)]
  rw [BitVec.toInt_eq_toNat_of_lt (by omega), hn]

lemma acsmSearchCap_eq (acsm : AcsmStruct) (tx : List UInt8) (h0 : 0 < n)
    (h : n < 2 ^ 31) : acsmSearchCap acsm tx (UInt32.ofNat n) = searchLoop acsm 0 (tx.take n) := by
  rw [acsmSearchCap, toInt_ofNat h, if_neg (by omega), UInt32.toNat_ofNat',
    Nat.mod_eq_of_lt (by omega)]

lemma searchLoop_compiled (pats : List (List UInt8 × UInt32))
    (hpats : ∀ p ∈ pats, p.1 ≠ [] ∧ ∀ c ∈ p.1, c ≠ 0 ∧ c < 128)
    (hfit : sizeofStateTable * (1 + (pats.map fun p => p.1.length).sum) < 2 ^ 32) :
    ∃ acsm, acsmCompileCap (acsmAddPatterns pats) = .ok acsm ∧ ∀ text, (∀ c ∈ text, c ≠ 0 ∧ c < 128) →
        ∃ ret, searchLoop acsm 0 (upper text) = .ok ret ∧
          (ret = 0 ∧ (∀ n ≤ text.length, ∀ q ∈ pats, ¬ upper q.1 <:+ upper (text.take n)) ∨
            ∃ flag, IsAnswer pats text flag ∧ ret = flag.toBitVec.toInt) := by
  have hadd := acsmAddPatterns_acsmPatterns pats
  have hmem : ∀ a ∈ (acsmAddPatterns pats).acsmPatterns, ∃ p ∈ pats, a = ⟨upper p.1, p.2⟩ := by
    intro a ha
    rw [hadd, mem_reverse, mem_map] at ha
    obtain ⟨p, hp, rfl⟩ := ha
    exact ⟨p, hp, rfl⟩
  have hmem' : ∀ p ∈ pats, ⟨upper p.1, p.2⟩ ∈ (acsmAddPatterns pats).acsmPatterns := by
    intro p hp
    rw [hadd, mem_reverse]
    exact mem_map_of_mem hp
  have hupp : ∀ {u : List UInt8}, (∀ c ∈ u, c ≠ 0 ∧ c < 128) → ∀ c ∈ upper u, c ≠ 0 ∧ c < 128 := by
    intro u hu c hc
    obtain ⟨b, hb, rfl⟩ := mem_map.mp hc
    exact ⟨xlatcase_ne_zero (hu b hb).1, xlatcase_lt (hu b hb).2⟩
  have hsum : ((acsmAddPatterns pats).acsmPatterns.map AcsmPattern.nCap).sum =
      (pats.map fun p => p.1.length).sum := by
    rw [hadd]
    simp [Function.comp_def, AcsmPattern.nCap]
  obtain ⟨acsm, word, hcomp, hc, hpat, hflag, -⟩ :=
    acsmCompileCap_spec _ (by rw [hsum]; exact hfit)
  have hsolid := hflag (by
    intro a ha c hca
    obtain ⟨p, hp, rfl⟩ := hmem a ha
    exact (hupp (hpats p hp).2 c hca).2)
  have hne : ∀ a ∈ acsm.acsmPatterns, a.patrnCap ≠ [] := by
    intro a ha h
    obtain ⟨p, hp, rfl⟩ := hmem a (hpat ▸ ha)
    exact (hpats p hp).1 (map_eq_nil_iff.mp h)
  refine ⟨acsm, hcomp, ?_⟩
  intro text htext
  obtain ⟨o, hrun, hres⟩ := searchLoop_spec hc hsolid hne (Nat.zero_le _) (w := []) hc.root
    (by intro n _ a ha h; rw [take_nil, suffix_nil] at h; exact hne a ha h)
    (hupp htext)
  refine ⟨_, hrun, ?_⟩
  rw [nil_append] at hres
  have hno : ∀ n, NoMatch acsm.acsmPatterns ((upper text).take n) →
      ∀ q ∈ pats, ¬ upper q.1 <:+ upper (text.take n) := by
    intro n h q hq
    rw [upper_take]
    exact h ⟨upper q.1, q.2⟩ (hpat ▸ hmem' q hq)
  cases o with
  | none => exact Or.inl ⟨rfl, fun n hn => hno n (hres n (by rwa [upper_length]))⟩
  | some m =>
    obtain ⟨n, hn, ⟨hm, hmn, hlong⟩, hfir⟩ := hres
    obtain ⟨pre, p, flag, post, hspl, hp, hpost, hret⟩ := returnMatch_spec
      (fun q hq h0 => ((hpats q hq).2 0 h0).1 rfl) (hpat.trans hadd) hm
    refine Or.inr ⟨flag, ⟨pre, p, post, n, hspl, hpost, by rwa [upper_length] at hn, ?_, ?_, ?_⟩,
      hret⟩
    · rwa [upper_take, hp]
    · intro q hq hqn
      rw [upper_take] at hqn
      have := hlong ⟨upper q.1, q.2⟩ (hpat ▸ hmem' q hq) hqn
      rwa [← hp, upper_length, upper_length] at this
    · exact fun k hk => hno k (hfir k hk)

lemma searchLoop_single {p : List UInt8} (flag : UInt32) (hne : p ≠ [])
    (hp : ∀ c ∈ p, c ≠ 0 ∧ c < 128) (hfit : sizeofStateTable * (1 + p.length) < 2 ^ 32) :
    ∃ acsm, acsmCompileCap (acsmAddPatterns [(p, flag)]) = .ok acsm ∧
      ∀ text, (∀ c ∈ text, c ≠ 0 ∧ c < 128) → upper p <:+: upper text →
        searchLoop acsm 0 (upper text) = .ok flag.toBitVec.toInt := by
  obtain ⟨acsm, hcomp, hsea⟩ := searchLoop_compiled [(p, flag)]
    (by simpa using ⟨hne, fun c hc => hp c hc⟩) (by simpa using hfit)
  refine ⟨acsm, hcomp, ?_⟩
  intro text htext hin
  obtain ⟨ret, hrun, ⟨-, hno⟩ | ⟨flag', hans, rfl⟩⟩ := hsea text htext
  · obtain ⟨n, hn, hsuf⟩ := infix_iff_suffix_take.mp hin
    rw [← upper_take] at hsuf
    exact absurd hsuf (hno n (by rwa [upper_length] at hn) _ (mem_singleton_self _))
  · obtain ⟨pre, q, post, n, hspl, -⟩ := hans
    have hmem : (q, flag') ∈ [(p, flag)] := by
      rw [hspl]
      simp
    rw [(Prod.mk.inj (mem_singleton.mp hmem)).2] at hrun
    exact hrun

lemma searchLoop_empty : ∃ acsm, acsmCompileCap (acsmAddPatterns []) = .ok acsm ∧
    ∀ text, (∀ c ∈ text, c ≠ 0 ∧ c < 128) → searchLoop acsm 0 (upper text) = .ok 0 := by
  obtain ⟨acsm, hcomp, hsea⟩ := searchLoop_compiled [] (by simp) (by decide)
  refine ⟨acsm, hcomp, ?_⟩
  intro text htext
  obtain ⟨ret, hrun, ⟨rfl, -⟩ | ⟨flag, hans, -⟩⟩ := hsea text htext
  · exact hrun
  · obtain ⟨pre, q, post, n, hspl, -⟩ := hans
    simp at hspl


/-- The search of an upper-cased text returns a flag exactly if a pattern occurs, and then
the flag of the longest pattern at the first end of any pattern, the last added among equals. -/
theorem acsmSearchCap_correct (pats : List (List UInt8 × UInt32)) (text d : List UInt8)
    (hpats : ∀ p ∈ pats, p.1 ≠ [] ∧ (∀ c ∈ p.1, c ≠ 0 ∧ c < 128) ∧ p.2 ≠ 0)
    (htext : text ≠ [] ∧ ∀ c ∈ text, c ≠ 0 ∧ c < 128) (hlen : text.length < 2 ^ 31)
    (hfit : sizeofStateTable * (1 + (pats.map fun p => p.1.length).sum) < 2 ^ 32) (hd : text.length ≤ d.length) :
    ∃ acsm tx ret, acsmCompileCap (acsmAddPatterns pats) = .ok acsm ∧ convertCaseEX d text text.length = .ok tx ∧
      acsmSearchCap acsm tx (UInt32.ofNat text.length) = .ok ret ∧ (ret ≠ 0 ↔ ∃ p ∈ pats, upper p.1 <:+: upper text) ∧
      (ret ≠ 0 → ∃ flag, IsAnswer pats text flag ∧ ret = flag.toBitVec.toInt) := by
  obtain ⟨acsm, hcomp, hsea⟩ := searchLoop_compiled pats (fun p hp => ⟨(hpats p hp).1, (hpats p hp).2.1⟩) hfit
  obtain ⟨ret, hrun, hret⟩ := hsea text htext.2
  refine ⟨acsm, _, ret, hcomp, convertCaseEX_ok le_rfl hd, ?_, ?_⟩
  · rw [acsmSearchCap_eq _ _ (length_pos_iff.mpr htext.1) hlen, take_length, take_left' (upper_length text)]
    exact hrun
  · have hocc : (∃ p ∈ pats, upper p.1 <:+: upper text) ↔
        ∃ n ≤ text.length, ∃ p ∈ pats, upper p.1 <:+ upper (text.take n) := by
      simp only [infix_iff_suffix_take, upper_length, ← upper_take]
      exact ⟨fun ⟨p, hp, n, hn, h⟩ => ⟨n, hn, p, hp, h⟩, fun ⟨n, hn, p, hp, h⟩ => ⟨p, hp, n, hn, h⟩⟩
    rw [hocc]
    rcases hret with ⟨rfl, hno⟩ | ⟨flag, hans, rfl⟩
    · refine ⟨⟨fun h => absurd rfl h, ?_⟩, fun h => absurd rfl h⟩
      intro ⟨n, hn, p, hp, h⟩
      exact absurd h (hno n hn p hp)
    · have hans' := hans
      obtain ⟨pre, p, post, n, rfl, -, hn, hp, -, -⟩ := hans'
      have hmem : (p, flag) ∈ pre ++ (p, flag) :: post := by simp
      have hne := toInt_ne_zero (hpats _ hmem).2.2
      exact ⟨⟨fun _ => ⟨n, hn, _, hmem, hp⟩, fun _ => hne⟩, fun _ => ⟨flag, hans, rfl⟩⟩

theorem acsmSearchCap_correct_xab : ∃ acsm ret,
    acsmCompileCap (acsmAddPatterns [(ascii ['a', 'b'], 7), (ascii ['b'], 8)]) = .ok acsm ∧
    acsmSearchCap acsm (ascii ['X', 'A', 'B']) 3 = .ok ret ∧ ret ≠ 0 := by
  obtain ⟨acsm, tx, ret, hcomp, htx, hrun, hiff, -⟩ := acsmSearchCap_correct
    [(ascii ['a', 'b'], 7), (ascii ['b'], 8)] (ascii ['x', 'a', 'b']) [0, 0, 0]
    (by decide +kernel) (by decide +kernel) (by decide) (by decide) (by decide)
  have hconv : convertCaseEX [0, 0, 0] (ascii ['x', 'a', 'b']) 3 = .ok (ascii ['X', 'A', 'B']) := by
    decide
  cases hconv.symm.trans htx
  exact ⟨acsm, ret, hcomp, hrun, hiff.mpr (by decide)⟩

lemma acsmSearchCap_of_neg (acsm : AcsmStruct) (tx : List UInt8) {n : UInt32}
    (h : n.toBitVec.toInt ≤ 0) : acsmSearchCap acsm tx n = .ok (-1) := if_pos h

/-- `(int) n` is negative for a text of 2^31 bytes, and 4129776 bytes of patterns need a
table of more than 2^32 bytes. -/
theorem acsmSearchCap_limits : (∃ text d, text ≠ [] ∧ (∀ c ∈ text, c ≠ 0 ∧ c < 128) ∧ text.length ≤ d.length ∧
      ∃ acsm tx, acsmCompileCap (acsmAddPatterns []) = .ok acsm ∧ convertCaseEX d text text.length = .ok tx ∧
        acsmSearchCap acsm tx (UInt32.ofNat text.length) = .ok (-1)) ∧ ∃ pat, pat ≠ [] ∧ (∀ c ∈ pat, c ≠ 0 ∧ c < 128) ∧
      acsmCompileCap (acsmAddPatterns [(pat, 1)]) = .error .bounds := by
  have hbyt : ∀ n, ∀ c ∈ List.replicate n (65 : UInt8), c ≠ 0 ∧ c < 128 := by
    intro n c hc
    rw [eq_of_mem_replicate hc]
    decide
  have hne : ∀ n, n ≠ 0 → List.replicate n (65 : UInt8) ≠ [] := fun n hn h =>
    hn (by rw [← length_replicate (n := n), h]; rfl)
  refine ⟨⟨List.replicate (2 ^ 31) 65, List.replicate (2 ^ 31) 0, hne _ (by decide), hbyt _, ?_, ?_⟩,
    List.replicate 4129776 65, hne _ (by decide), hbyt _, acsmCompileCap_overrun (by decide)⟩
  · rw [length_replicate, length_replicate]
  · obtain ⟨acsm, word, hrun, -⟩ := acsmCompileCap_spec (acsmAddPatterns []) (by decide)
    refine ⟨acsm, _, hrun, convertCaseEX_ok le_rfl ?_, acsmSearchCap_of_neg _ _ ?_⟩
    · rw [length_replicate, length_replicate]
    · rw [length_replicate]
      decide

end SquidVideoCache.Acsm
