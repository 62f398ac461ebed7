import SquidVideoCache.Acsm.Model
import SquidVideoCache.Lib.LongestSuffix

/-!
# The trie built by AddPatternStates

Every state spells one word, the bytes on the path to it from state 0. Adding a
pattern follows its word as far as the trie has it and then appends new states.
-/

namespace SquidVideoCache.Acsm
open Lib Function List

variable {table : ℕ → AcsmStateTable} {num : ℕ} {word : ℕ → List UInt8}
  {state s : ℕ} {pat : List UInt8} {p : AcsmPattern} {word' : ℕ → List UInt8} {pats : List AcsmPattern}

/-- The states `0..num` form a trie in which `word` spells each state. -/
structure Trie (table : ℕ → AcsmStateTable) (num : ℕ) (word : ℕ → List UInt8) : Prop where
  root : word 0 = []
  next : ∀ s ≤ num, ∀ c, (table s).nextState c ≠ acsmFailState →
    (table s).nextState c ≤ num ∧ word ((table s).nextState c) = word s ++ [c]
  inj : ∀ s ≤ num, ∀ t ≤ num, word s = word t → s = t
  parent : ∀ s ≤ num, s ≠ 0 → ∃ p ≤ num, ∃ c, (table p).nextState c = s
  fresh : ∀ s, num < s → ∀ c, (table s).nextState c = acsmFailState

def nodes (num : ℕ) (word : ℕ → List UInt8) : Set (List UInt8) := {w | ∃ s ≤ num, word s = w}

namespace Trie

section

variable (h : Trie table num word)

include h

lemma nil_mem : [] ∈ nodes num word := ⟨0, Nat.zero_le _, h.root⟩

variable {s : ℕ} {c : UInt8}

lemma word_ne_nil (hs : s ≤ num) (h0 : s ≠ 0) :
    word s ≠ [] := fun hw => h0 (h.inj s hs 0 (Nat.zero_le _) (hw.trans h.root.symm))

lemma parent_of_concat (hnum : num < acsmFailState)
    (hs : s ≤ num) {w : List UInt8} (hw : word s = w ++ [c]) : ∃ p ≤ num, word p = w ∧ (table p).nextState c = s := by
  have h0 : s ≠ 0 := by
    intro h0
    rw [h0, h.root] at hw
    simp at hw
  obtain ⟨p, hp, d, hd⟩ := h.parent s hs h0
  have hnext := (h.next p hp d (by omega)).2
  rw [hd, hw] at hnext
  obtain ⟨hwp, hc⟩ := append_inj' hnext rfl
  cases hc
  exact ⟨p, hp, hwp.symm, hd⟩

lemma prefixClosed (hnum : num < acsmFailState) : PrefixClosed (nodes num word) := by
  rintro w c ⟨s, hs, hw⟩
  obtain ⟨p, hp, hwp, -⟩ := h.parent_of_concat hnum hs hw
  exact ⟨p, hp, hwp⟩

lemma next_ne_fail_iff (hnum : num < acsmFailState) (hs : s ≤ num) (c : UInt8) :
    (table s).nextState c ≠ acsmFailState ↔ word s ++ [c] ∈ nodes num word := by
  constructor
  · intro hne
    obtain ⟨hle, hw⟩ := h.next s hs c hne
    exact ⟨_, hle, hw⟩
  · intro ⟨t, ht, hw⟩
    obtain ⟨p, hp, hwp, hpt⟩ := h.parent_of_concat hnum ht hw
    rw [← h.inj p hp s hs hwp]
    omega

lemma next_length (hs : s ≤ num) (hc : (table s).nextState c ≠ acsmFailState) :
    (word ((table s).nextState c)).length = (word s).length + 1 := by
  rw [(h.next s hs c hc).2]
  simp

lemma next_ne_zero (hs : s ≤ num)
    (hc : (table s).nextState c ≠ acsmFailState) : (table s).nextState c ≠ 0 := by
  intro h0
  have hl := h.next_length hs hc
  rw [h0, h.root] at hl
  simp at hl

lemma next_injective {t : ℕ} (hs : s ≤ num) (ht : t ≤ num)
    {d : UInt8} (hc : (table s).nextState c ≠ acsmFailState)
    (he : (table s).nextState c = (table t).nextState d) : s = t ∧ c = d := by
  have hws := (h.next s hs c hc).2
  have hwt := (h.next t ht d (he ▸ hc)).2
  rw [he, hwt] at hws
  obtain ⟨hw, hcd⟩ := append_inj' hws rfl
  cases hcd
  exact ⟨(h.inj t ht s hs hw).symm, rfl⟩

end

lemma congr {table' : ℕ → AcsmStateTable} (h : Trie table num word)
    (he : ∀ s, (table' s).nextState = (table s).nextState) : Trie table' num word where
  root := h.root
  next s hs c hc := by rw [he] at hc ⊢; exact h.next s hs c hc
  inj := h.inj
  parent s hs h0 := by
    obtain ⟨p, hp, c, hc⟩ := h.parent s hs h0
    exact ⟨p, hp, c, by rw [he]; exact hc⟩
  fresh s hs c := by rw [he]; exact h.fresh s hs c

end Trie

/-! ## What adding states keeps -/

/-- The automaton with states added for some bytes. -/
structure Keeps (bytes : List UInt8) (acsm acsm' : AcsmStruct) : Prop where
  patterns : acsm'.acsmPatterns = acsm.acsmPatterns
  max : acsm'.acsmMaxState = acsm.acsmMaxState
  fail : ∀ s, (acsm'.acsmStateTable s).failState = (acsm.acsmStateTable s).failState
  solid : (∀ c ∈ bytes, c < 128) → (∀ s, (acsm.acsmStateTable s).flag = .solid) →
    ∀ s, (acsm'.acsmStateTable s).flag = .solid

lemma keeps_refl (acsm : AcsmStruct) : Keeps [] acsm acsm := ⟨rfl, rfl, fun _ => rfl, fun _ h => h⟩

lemma Keeps.trans {a b : List UInt8} {x y z : AcsmStruct} (h : Keeps a x y) (h' : Keeps b y z) :
    Keeps (a ++ b) x z where
  patterns := h'.patterns.trans h.patterns
  max := h'.max.trans h.max
  fail s := (h'.fail s).trans (h.fail s)
  solid hbyt hx := by
    rw [forall_mem_append] at hbyt
    exact h'.solid hbyt.2 (h.solid hbyt.1 hx)

lemma keeps_setRow {acsm : AcsmStruct} {row : AcsmStateTable} {bytes : List UInt8}
    (hfail : row.failState = (acsm.acsmStateTable state).failState)
    (hflag : (∀ c ∈ bytes, c < 128) → (acsm.acsmStateTable state).flag = .solid → row.flag = .solid) :
    Keeps bytes acsm (setRow acsm state row) := by
  refine ⟨rfl, rfl, fun s => ?_, fun hbyt h s => ?_⟩
  · by_cases hs : s = state <;> simp [setRow, hs, hfail]
  · by_cases hs : s = state <;> simp [setRow, hs, h, hflag hbyt _]

/-! ## One new state -/

section AddState

variable {acsm : AcsmStruct} {temp : ℕ} {c : UInt8}

@[simp] lemma addState_num : (addState acsm temp c).acsmNumState = acsm.acsmNumState + 1 := rfl

lemma addState_next (s : ℕ) : ((addState acsm temp c).acsmStateTable s).nextState =
      if s = temp then update (acsm.acsmStateTable temp).nextState c (acsm.acsmNumState + 1)
      else (acsm.acsmStateTable s).nextState := by
  by_cases hs : s = acsm.acsmNumState + 1 <;> by_cases ht : s = temp <;>
    simp_all [addState, setRow]

lemma addState_matchList (s : ℕ) :
    ((addState acsm temp c).acsmStateTable s).matchList = (acsm.acsmStateTable s).matchList := by
  by_cases hs : s = acsm.acsmNumState + 1 <;> by_cases ht : s = temp <;>
    simp_all [addState, setRow]

lemma addState_keeps (acsm : AcsmStruct) (temp : ℕ) (c : UInt8) : Keeps [c] acsm (addState acsm temp c) := by
  refine ⟨rfl, rfl, fun s => ?_, fun hc h s => ?_⟩
  · by_cases hs : s = acsm.acsmNumState + 1 <;> by_cases ht : s = temp <;> simp_all [addState, setRow]
  · by_cases hs : s = acsm.acsmNumState + 1 <;> by_cases ht : s = temp <;> simp_all [addState, setRow]

lemma addState_trie (h : Trie acsm.acsmStateTable acsm.acsmNumState word) (ht : temp ≤ acsm.acsmNumState)
    (hc : (acsm.acsmStateTable temp).nextState c = acsmFailState) (hnum : acsm.acsmNumState + 1 < acsmFailState) :
    Trie (addState acsm temp c).acsmStateTable (acsm.acsmNumState + 1)
      (update word (acsm.acsmNumState + 1) (word temp ++ [c])) := by
  have hold : ∀ s ≤ acsm.acsmNumState, update word (acsm.acsmNumState + 1) (word temp ++ [c]) s = word s :=
    fun s hs => update_of_ne (by omega) _ _
  have hnew : ∀ s ≤ acsm.acsmNumState, word s ≠ word temp ++ [c] := by
    intro s hs hw
    obtain ⟨p, hp, hwp, hps⟩ := h.parent_of_concat (by omega) hs hw
    rw [h.inj p hp temp ht hwp] at hps
    omega
  constructor
  · rw [hold 0 (Nat.zero_le _), h.root]
  · intro s hs d hd
    rw [addState_next] at hd ⊢
    rcases Nat.lt_or_ge acsm.acsmNumState s with hlt | hle
    · rw [if_neg (by omega)] at hd
      exact absurd (h.fresh s hlt d) hd
    rw [hold s hle]
    by_cases hst : s = temp ∧ d = c
    · obtain ⟨rfl, rfl⟩ := hst
      simp
    · have hnext : (if s = temp then update (acsm.acsmStateTable temp).nextState c
          (acsm.acsmNumState + 1) else (acsm.acsmStateTable s).nextState) d =
          (acsm.acsmStateTable s).nextState d := by
        split_ifs with h1
        · rw [update_of_ne (fun h2 => hst ⟨h1, h2⟩), h1]
        · rfl
      rw [hnext] at hd ⊢
      obtain ⟨hle', hw⟩ := h.next s hle d hd
      exact ⟨by omega, by rw [hold _ hle', hw]⟩
  · intro s hs t ht' hw
    rcases Nat.lt_or_ge acsm.acsmNumState s with hs' | hs' <;>
      rcases Nat.lt_or_ge acsm.acsmNumState t with ht'' | ht''
    · omega
    · rw [show s = acsm.acsmNumState + 1 by omega, update_self, hold t ht''] at hw
      exact absurd hw.symm (hnew t ht'')
    · rw [show t = acsm.acsmNumState + 1 by omega, update_self, hold s hs'] at hw
      exact absurd hw (hnew s hs')
    · rw [hold s hs', hold t ht''] at hw
      exact h.inj s hs' t ht'' hw
  · intro s hs h0
    rcases Nat.lt_or_ge acsm.acsmNumState s with hs' | hs'
    · refine ⟨temp, by omega, c, ?_⟩
      rw [addState_next, if_pos rfl, update_self]
      omega
    · obtain ⟨p, hp, d, hd⟩ := h.parent s hs' h0
      refine ⟨p, by omega, d, ?_⟩
      rw [addState_next]
      split_ifs with h1
      · have hdc : d ≠ c := by
          intro h2
          rw [h1, h2] at hd
          omega
        rw [update_of_ne hdc, ← h1, hd]
      · exact hd
  · intro s hs d
    rw [addState_next, if_neg (by omega)]
    exact h.fresh s (by omega) d

end AddState

/-! ## One pattern -/

/-- The walk spells the part of the pattern it consumed, and stops at a missing transition. -/
theorem matchUp_spec (h : Trie table num word) (hs : s ≤ num) (pat : List UInt8) : (matchUp table s pat).1 ≤ num ∧
      word (matchUp table s pat).1 ++ (matchUp table s pat).2 = word s ++ pat ∧
      ∀ c rest, (matchUp table s pat).2 = c :: rest → (table (matchUp table s pat).1).nextState c = acsmFailState := by
  induction pat generalizing s with
  | nil => simp [matchUp, hs]
  | cons c pat ih =>
    simp only [matchUp]
    split_ifs with hf
    · refine ⟨hs, rfl, ?_⟩
      intro d rest hd
      cases hd
      exact hf
    · obtain ⟨hle, hw⟩ := h.next s hs c hf
      have hi := ih hle
      rw [hw, append_assoc] at hi
      exact hi

/-- What adding the states of a pattern leaves behind. -/
structure Extends (acsm acsm' : AcsmStruct) (word word' : ℕ → List UInt8) (added : List UInt8) :
    Prop where
  trie : Trie acsm'.acsmStateTable acsm'.acsmNumState word'
  old : ∀ s ≤ acsm.acsmNumState, word' s = word s
  num_le : acsm.acsmNumState ≤ acsm'.acsmNumState
  new : ∀ s ≤ acsm'.acsmNumState, s ≤ acsm.acsmNumState ∨ word' s <+: added
  matchList : ∀ s, (acsm'.acsmStateTable s).matchList = (acsm.acsmStateTable s).matchList

lemma addStates_spec {acsm : AcsmStruct} (state : ℕ)
    (h : Trie acsm.acsmStateTable acsm.acsmNumState word) (hs : state ≤ acsm.acsmNumState)
    (hstop : ∀ c rest, pat = c :: rest → (acsm.acsmStateTable state).nextState c = acsmFailState)
    (hnum : acsm.acsmNumState + pat.length < acsmFailState) :
    (addStates acsm state pat).1.acsmNumState = acsm.acsmNumState + pat.length ∧
      (addStates acsm state pat).2 ≤ (addStates acsm state pat).1.acsmNumState ∧
      ∃ word', Extends acsm (addStates acsm state pat).1 word word' (word state ++ pat) ∧
        word' (addStates acsm state pat).2 = word state ++ pat := by
  induction pat generalizing acsm state word with
  | nil =>
    refine ⟨rfl, hs, word, ⟨h, fun _ _ => rfl, le_rfl, fun s hs => Or.inl hs, fun _ => rfl⟩, ?_⟩
    simp [addStates]
  | cons c pat ih =>
    simp only [length_cons] at hnum
    have ht := addState_trie h hs (hstop c pat rfl) (by omega)
    have hfre : ∀ d rest, pat = d :: rest →
        ((addState acsm state c).acsmStateTable (acsm.acsmNumState + 1)).nextState d =
          acsmFailState := by
      intro d rest _
      rw [addState_next, if_neg (by omega)]
      exact h.fresh _ (by omega) d
    have hi := ih (acsm.acsmNumState + 1) ht le_rfl hfre
      (by simp only [addState_num]; omega)
    rw [update_self, append_assoc] at hi
    obtain ⟨hlen, hle, word', hext, hw⟩ := hi
    have hunf : addStates acsm state (c :: pat) =
        addStates (addState acsm state c) (acsm.acsmNumState + 1) pat := rfl
    rw [hunf]
    refine ⟨by rw [hlen, addState_num, length_cons]; omega, hle, word', ?_, hw⟩
    have hnum' := hext.num_le
    have hold := hext.old
    simp only [addState_num] at hnum' hold
    constructor
    · exact hext.trie
    · intro s hs'
      rw [hold s (by omega), update_of_ne (by omega)]
    · omega
    · intro s hs'
      rcases hext.new s hs' with hold' | hnew
      · rcases Nat.lt_or_ge acsm.acsmNumState s with hlt | hge
        · rw [addState_num] at hold'
          have hsn : s = acsm.acsmNumState + 1 := by omega
          right
          rw [hold s (by omega), hsn]
          exact ⟨pat, by simp⟩
        · exact Or.inl hge
      · exact Or.inr hnew
    · exact fun s => (hext.matchList s).trans (addState_matchList s)

lemma addStates_keeps (acsm : AcsmStruct) (state : ℕ) (pat : List UInt8) : Keeps pat acsm (addStates acsm state pat).1 := by
  induction pat generalizing acsm state with
  | nil => exact keeps_refl acsm
  | cons c pat ih => exact (addState_keeps acsm state c).trans (ih _ _)

lemma matchUp_snd_suffix (table : ℕ → AcsmStateTable) (s : ℕ) (pat : List UInt8) :
    (matchUp table s pat).2 <:+ pat := by
  induction pat generalizing s with
  | nil => exact suffix_rfl
  | cons c pat ih =>
    simp only [matchUp]
    split_ifs
    · exact suffix_rfl
    · exact (ih _).trans (suffix_cons c pat)

lemma setSolid_row (acsm : AcsmStruct) (s : ℕ) :
    let acsm' := setRow acsm 0 { acsm.acsmStateTable 0 with flag := .solid }
    (acsm'.acsmStateTable s).nextState = (acsm.acsmStateTable s).nextState ∧
      (acsm'.acsmStateTable s).matchList = (acsm.acsmStateTable s).matchList := by
  by_cases hs : s = 0 <;> simp [setRow, hs]

lemma addPath_spec {acsm : AcsmStruct} (h : Trie acsm.acsmStateTable acsm.acsmNumState word)
    (hnum : acsm.acsmNumState + pat.length < acsmFailState) :
    (addPath acsm pat).1.acsmNumState ≤ acsm.acsmNumState + pat.length ∧
      (addPath acsm pat).2 ≤ (addPath acsm pat).1.acsmNumState ∧
      ∃ word', Extends acsm (addPath acsm pat).1 word word' pat ∧ word' (addPath acsm pat).2 = pat := by
  have hrow := setSolid_row acsm
  have ht : Trie (setRow acsm 0 { acsm.acsmStateTable 0 with flag := .solid }).acsmStateTable
      acsm.acsmNumState word := h.congr fun s => (hrow s).1
  obtain ⟨hm, hmw, hstop⟩ := matchUp_spec ht (Nat.zero_le _) pat
  have hrest := (matchUp_snd_suffix (setRow acsm 0
    { acsm.acsmStateTable 0 with flag := .solid }).acsmStateTable 0 pat).length_le
  rw [ht.root] at hmw
  obtain ⟨hlen, hle, word', hext, hw⟩ := addStates_spec _ ht hm hstop
    (lt_of_le_of_lt (Nat.add_le_add_left hrest _) hnum)
  rw [hmw] at hext hw
  refine ⟨hlen.le.trans (Nat.add_le_add_left hrest _), hle, word', ?_, hw⟩
  exact ⟨hext.trie, hext.old, hext.num_le, hext.new, fun s => (hext.matchList s).trans (hrow s).2⟩

section

variable (acsm : AcsmStruct)

include acsm

lemma addPath_keeps (pat : List UInt8) : Keeps pat acsm (addPath acsm pat).1 := by
  have hsolid : Keeps [] acsm (setRow acsm 0 { acsm.acsmStateTable 0 with flag := .solid }) := keeps_setRow rfl fun _ _ => rfl
  have h : Keeps _ acsm (addPath acsm pat).1 := hsolid.trans (addStates_keeps _ _ _)
  exact { h with solid := fun hpat => h.solid fun c hc => hpat c ((matchUp_snd_suffix _ 0 pat).subset hc) }

@[simp] lemma addMatchListEntry_num (state : ℕ) (px : AcsmPattern) :
    (addMatchListEntry acsm state px).acsmNumState = acsm.acsmNumState := by
  simp only [addMatchListEntry]
  split_ifs <;> rfl

lemma addMatchListEntry_keeps (state : ℕ) (px : AcsmPattern) :
    Keeps [] acsm (addMatchListEntry acsm state px) := by
  simp only [addMatchListEntry]
  split_ifs
  · exact keeps_refl acsm
  · exact keeps_setRow rfl fun _ h => h

lemma addMatchListEntry_next (state : ℕ) (px : AcsmPattern) (s : ℕ) :
    ((addMatchListEntry acsm state px).acsmStateTable s).nextState = (acsm.acsmStateTable s).nextState := by
  simp only [addMatchListEntry, setRow]
  split_ifs
  · rfl
  · by_cases hs : s = state <;> simp [hs]

lemma addMatchListEntry_other (px : AcsmPattern)
    (hs : s ≠ state) : ((addMatchListEntry acsm state px).acsmStateTable s).matchList =
      (acsm.acsmStateTable s).matchList := by
  simp only [addMatchListEntry, setRow]
  split_ifs
  · rfl
  · simp [update_of_ne hs]

lemma addMatchListEntry_self (state : ℕ) (px : AcsmPattern) :
    ((addMatchListEntry acsm state px).acsmStateTable state).matchList ≠ [] ∧
      ∀ m ∈ ((addMatchListEntry acsm state px).acsmStateTable state).matchList,
        m = px ∨ m ∈ (acsm.acsmStateTable state).matchList := by
  simp only [addMatchListEntry, setRow]
  split_ifs with h
  · refine ⟨?_, fun m hm => Or.inr hm⟩
    intro hnil
    simp [hnil] at h
  · simp

/-! ## All patterns -/

/-- The automaton holds the patterns `pats`: its states are their prefixes, and a
state has a match list exactly when it spells one of them. -/
structure Holds (acsm : AcsmStruct) (pats : List AcsmPattern) (word : ℕ → List UInt8) : Prop where
  trie : Trie acsm.acsmStateTable acsm.acsmNumState word
  num_le : acsm.acsmNumState ≤ (pats.map AcsmPattern.nCap).sum
  onlyPrefixes : ∀ s ≤ acsm.acsmNumState, s = 0 ∨ ∃ p ∈ pats, word s <+: p.patrnCap
  hasPattern : ∀ p ∈ pats, ∃ s ≤ acsm.acsmNumState, word s = p.patrnCap
  matchList_sound : ∀ s ≤ acsm.acsmNumState, ∀ m ∈ (acsm.acsmStateTable s).matchList,
    m ∈ pats ∧ m.patrnCap = word s
  matchList_complete : ∀ s ≤ acsm.acsmNumState, ∀ p ∈ pats, p.patrnCap = word s →
    (acsm.acsmStateTable s).matchList ≠ []
  matchList_fresh : ∀ s, acsm.acsmNumState < s → (acsm.acsmStateTable s).matchList = []
  failZero : ∀ s, (acsm.acsmStateTable s).failState = 0

lemma initTable_holds : Holds (initTable acsm) [] fun _ => [] := by
  refine ⟨⟨rfl, ?_, ?_, ?_, fun _ _ _ => rfl⟩, le_rfl, ?_, ?_, ?_, ?_, fun _ _ => rfl,
    fun _ => rfl⟩
  · intro s _ c hc
    exact absurd rfl hc
  · intro s hs t ht _
    exact (Nat.le_zero.mp hs).trans (Nat.le_zero.mp ht).symm
  · intro s hs h0
    exact absurd (Nat.le_zero.mp hs) h0
  · intro s hs
    exact Or.inl (Nat.le_zero.mp hs)
  all_goals simp [initTable]

lemma addPatternStates_num (p : AcsmPattern) :
    (addPatternStates acsm p).acsmNumState = (addPath acsm p.patrnCap).1.acsmNumState :=
  addMatchListEntry_num _ _ p

end

lemma addPatternStates_matchList {acsm : AcsmStruct}
    (hext : Extends acsm (addPath acsm p.patrnCap).1 word word' p.patrnCap) (hs : s ≠ (addPath acsm p.patrnCap).2) :
    ((addPatternStates acsm p).acsmStateTable s).matchList = (acsm.acsmStateTable s).matchList :=
  (addMatchListEntry_other _ p hs).trans (hext.matchList s)

lemma mem_addPatternStates_matchList {acsm : AcsmStruct} {m : AcsmPattern}
    (hext : Extends acsm (addPath acsm p.patrnCap).1 word word' p.patrnCap)
    (hm : m ∈ ((addPatternStates acsm p).acsmStateTable s).matchList) :
    (s = (addPath acsm p.patrnCap).2 ∧ m = p) ∨ m ∈ (acsm.acsmStateTable s).matchList := by
  by_cases hs : s = (addPath acsm p.patrnCap).2
  · subst hs
    rcases (addMatchListEntry_self _ _ p).2 m hm with rfl | hm
    · exact Or.inl ⟨rfl, rfl⟩
    · exact Or.inr (hext.matchList _ ▸ hm)
  · exact Or.inr (addPatternStates_matchList hext hs ▸ hm)

lemma addPatternStates_keeps (acsm : AcsmStruct) (p : AcsmPattern) : Keeps p.patrnCap acsm (addPatternStates acsm p) := by
  have h := (addPath_keeps acsm p.patrnCap).trans (addMatchListEntry_keeps _ (addPath acsm p.patrnCap).2 p)
  rwa [append_nil] at h

lemma addPatternStates_holds {acsm : AcsmStruct} (h : Holds acsm pats word) (p : AcsmPattern)
    (hnum : acsm.acsmNumState + p.nCap < acsmFailState) :
    ∃ word', Holds (addPatternStates acsm p) (p :: pats) word' := by
  obtain ⟨hlen, hle, word', hext, hw⟩ := addPath_spec h.trie hnum
  have hold := hext.old
  have hnum_le := hext.num_le
  have hfail : ∀ s, ((addPatternStates acsm p).acsmStateTable s).failState = 0 := fun s =>
    ((addPatternStates_keeps acsm p).fail s).trans (h.failZero s)
  refine ⟨word', ⟨?_, ?_, ?_, ?_, ?_, ?_, ?_, hfail⟩⟩ <;> rw [addPatternStates_num]
  · exact hext.trie.congr fun s => addMatchListEntry_next _ _ p s
  · rw [map_cons, sum_cons]
    have := h.num_le
    unfold AcsmPattern.nCap at *
    omega
  · intro s hs
    rcases hext.new s hs with hs | hpre
    · rcases h.onlyPrefixes s hs with h0 | ⟨q, hq, hpre⟩
      · exact Or.inl h0
      · exact Or.inr ⟨q, mem_cons_of_mem _ hq, (hold s hs).symm ▸ hpre⟩
    · exact Or.inr ⟨p, mem_cons_self, hpre⟩
  · intro q hq
    rcases mem_cons.mp hq with rfl | hq
    · exact ⟨_, hle, hw⟩
    · obtain ⟨s, hs, hws⟩ := h.hasPattern q hq
      exact ⟨s, hs.trans hnum_le, (hold s hs).trans hws⟩
  · intro s hs q hq
    rcases mem_addPatternStates_matchList hext hq with ⟨rfl, rfl⟩ | hq
    · exact ⟨mem_cons_self, hw.symm⟩
    · rcases Nat.lt_or_ge acsm.acsmNumState s with hlt | hge
      · rw [h.matchList_fresh s hlt] at hq
        exact absurd hq not_mem_nil
      · obtain ⟨hmem, hwq⟩ := h.matchList_sound s hge q hq
        exact ⟨mem_cons_of_mem _ hmem, hwq.trans (hold s hge).symm⟩
  · intro s hs q hq hwq
    by_cases hsr : s = (addPath acsm p.patrnCap).2
    · subst hsr
      exact (addMatchListEntry_self _ _ p).1
    · rcases mem_cons.mp hq with rfl | hq
      · exact absurd (hext.trie.inj s hs _ hle (hwq.symm.trans hw.symm)) hsr
      · obtain ⟨t, ht, htw⟩ := h.hasPattern q hq
        have hts : t = s := hext.trie.inj t (ht.trans hnum_le) s hs
          ((hold t ht).trans (htw.trans hwq))
        subst hts
        rw [addPatternStates_matchList hext hsr]
        exact h.matchList_complete t ht q hq (hwq.trans (hold t ht))
  · intro s hs
    rw [addPatternStates_matchList hext (by omega)]
    exact h.matchList_fresh s (by omega)

lemma foldl_addPatternStates_holds {acsm : AcsmStruct} (h : Holds acsm pats word) (rest : List AcsmPattern)
    (hnum : (pats.map AcsmPattern.nCap).sum + (rest.map AcsmPattern.nCap).sum < acsmFailState) :
    ∃ word', Holds (rest.foldl addPatternStates acsm) (rest.reverse ++ pats) word' := by
  induction rest generalizing acsm pats word with
  | nil => exact ⟨word, h⟩
  | cons p rest ih =>
    rw [map_cons, sum_cons] at hnum
    have := h.num_le
    obtain ⟨word', h'⟩ := addPatternStates_holds h p (by omega)
    have hi := ih h' (by rw [map_cons, sum_cons]; omega)
    simpa using hi

lemma foldl_addPatternStates_keeps (acsm : AcsmStruct) (pats : List AcsmPattern) :
    Keeps (pats.flatMap AcsmPattern.patrnCap) acsm (pats.foldl addPatternStates acsm) := by
  induction pats generalizing acsm with
  | nil => exact keeps_refl acsm
  | cons p pats ih => exact (addPatternStates_keeps acsm p).trans (ih _)

end SquidVideoCache.Acsm
