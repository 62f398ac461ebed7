import SquidVideoCache.Lib.CString

/-!
# Freshness of a cached response

`refreshCheck` for the rule that matches the URL. Times are integers without bounds, and `staleAge` is
the age at which the rule's factor of the time since the last modification makes a response stale.
-/

namespace SquidVideoCache.Refresh
open Lib Option

/-- A `refresh_t` with the stale age of its factor. -/
structure RefreshRule where
  min : ℤ
  max : ℤ
  staleAge : ℤ
  maxStale : ℤ
  staleWhileRevalidate : ℤ
  ignoreReload : Bool
  reloadIntoIms : Bool
  overrideExpire : Bool
  overrideLastmod : Bool
  ignoreStaleWhileRevalidate : Bool

/-- The directives of the reply that are read, where it has them. -/
structure MemObject where
  staleWhileRevalidate : Option ℤ
  staleIfError : Option ℤ

structure StoreEntry where
  timestamp : ℤ
  expires : ℤ
  lastmod : ℤ
  revalidate : Bool
  memObj : Option MemObject

/-- `maxStale` is the value of the directive, negative if it has none. -/
structure HttpHdrCc where
  maxAge : ℤ
  maxStale : Option ℤ

structure Request where
  nocacheHack : Bool
  cacheControl : Option HttpHdrCc

structure Config where
  reloadIntoIms : Bool
  maxStale : ℤ

structure StaleFlags where
  expires : Bool
  min : Bool
  lmfactor : Bool
  max : Bool

inductive Code where
  | freshRequestMaxStaleAll
  | freshRequestMaxStaleValue
  | freshExpires
  | freshLmfactorRule
  | freshMinRule
  | freshOverrideExpires
  | freshOverrideLastmod
  | staleMustRevalidate
  | staleReloadIntoIms
  | staleForcedReload
  | staleExceedsRequestMaxAgeValue
  | staleExpires
  | staleMaxRule
  | staleLmfactorRule
  | staleWithinDelta
  | staleAsyncRefresh
  | staleMaxStale
  | staleDefault
  deriving DecidableEq

/-- The codes from 100 to 199; the others are those of stale responses. -/
def Code.isFresh : Code → Bool
  | .freshRequestMaxStaleAll | .freshRequestMaxStaleValue | .freshExpires | .freshLmfactorRule | .freshMinRule
  | .freshOverrideExpires | .freshOverrideLastmod => true
  | _ => false

variable (cfg : Config) (R : RefreshRule) (entry : StoreEntry)

/-- Whether the factor of the last modification is used. -/
def byLastmod : Bool := entry.lastmod > -1 && entry.timestamp > entry.lastmod

def refreshStaleness (checkTime age : ℤ) : Exec (ℤ × StaleFlags) :=
  if entry.expires > -1 then
    .ok (if entry.expires > checkTime then -1 else checkTime - entry.expires, ⟨true, false, false, false⟩)
  else do
    cAssert (age ≥ 0)
    if age > R.max then .ok (age - R.max, ⟨false, false, false, true⟩)
    else if checkTime < entry.timestamp then .ok (entry.timestamp - checkTime, ⟨false, false, false, false⟩)
    else if byLastmod entry then
      .ok (if age ≥ R.staleAge then age - R.staleAge else -1, ⟨false, false, true, false⟩)
    else if age < R.min then .ok (-1, ⟨false, true, false, false⟩)
    else .ok (age - R.min, ⟨false, false, false, false⟩)

/-- The checks of the request's directives; `none` goes on behind them. -/
def checkCc (age staleness : ℤ) (cc : HttpHdrCc) : Option Code :=
  if cc.maxAge > -1 ∧ ¬ (R.ignoreReload ∧ cc.maxAge = 0) ∧ age > cc.maxAge then some .staleExceedsRequestMaxAgeValue
  else cc.maxStale.bind fun maxStale =>
    if staleness ≥ 0 then
      if maxStale < 0 then some .freshRequestMaxStaleAll
      else if staleness < maxStale then some .freshRequestMaxStaleValue
      else none
    else none

def checkRequest (age staleness : ℤ) (request : Request) : Option Code :=
  if request.nocacheHack ∧ ¬ R.ignoreReload then
    some (if R.reloadIntoIms ∨ cfg.reloadIntoIms then .staleReloadIntoIms else .staleForcedReload)
  else request.cacheControl.bind (checkCc R age staleness)

def freshCode (sf : StaleFlags) : Exec Code :=
  if sf.expires then .ok .freshExpires
  else do
    cAssert (¬ sf.max)
    if sf.lmfactor then .ok .freshLmfactorRule
    else do
      cAssert sf.min
      return .freshMinRule

/-- The code of a response that no option makes fresh. -/
def staleCode (sf : StaleFlags) (staleness delta : ℤ) : Code :=
  let async := entry.memObj.any fun mem =>
    let value := mem.staleWhileRevalidate.getD (-1)
    staleness < if R.ignoreStaleWhileRevalidate ∨ value = -1 then R.staleWhileRevalidate else value
  let maxStale := (entry.memObj.bind (·.staleIfError)).getD (if R.maxStale ≥ 0 then R.maxStale else cfg.maxStale)
  if async then .staleAsyncRefresh
  else if maxStale ≥ 0 ∧ staleness ≥ maxStale then .staleMaxStale
  else if delta < 0 ∧ staleness + delta < 0 then .staleWithinDelta
  else if sf.expires then .staleExpires
  else if sf.max then .staleMaxRule
  else if sf.lmfactor then .staleLmfactorRule
  else .staleDefault

def refreshCheck (request : Option Request) (curtime delta : ℤ) : Exec Code := do
  let checkTime := if delta > 0 then curtime + delta else curtime
  let age := if checkTime > entry.timestamp then checkTime - entry.timestamp else 0
  let (staleness, sf) ← refreshStaleness R entry checkTime age
  if entry.revalidate ∧ staleness > -1 then .ok .staleMustRevalidate
  else match request.bind (checkRequest cfg R age staleness) with
    | some code => .ok code
    | none =>
      if staleness < 0 then freshCode sf
      else if sf.expires ∧ R.overrideExpire ∧ age < R.min then .ok .freshOverrideExpires
      else if sf.lmfactor ∧ R.overrideLastmod ∧ age < R.min then .ok .freshOverrideLastmod
      else .ok (staleCode cfg R entry sf staleness delta)

/-! ## Freshness by age -/

/-- The staleness at an age. -/
def staleness (age : ℤ) : ℤ :=
  if entry.expires > -1 then
    if entry.expires > entry.timestamp + age then -1 else entry.timestamp + age - entry.expires
  else if age > R.max then age - R.max
  else if byLastmod entry then if age ≥ R.staleAge then age - R.staleAge else -1
  else if age < R.min then -1 else age - R.min

/-- Whether an option takes a stale response of the age as fresh. -/
def Overridden (age : ℤ) : Prop :=
  age < R.min ∧ if entry.expires > -1 then R.overrideExpire = true else R.overrideLastmod ∧ byLastmod entry ∧ age ≤ R.max

variable (request : Option Request)

/-- Whether the request rules out a response of the age, fresh or stale. -/
def Refused (age : ℤ) : Prop := ∃ r ∈ request, r.nocacheHack ∧ ¬ R.ignoreReload ∨
    ∃ cc ∈ r.cacheControl, cc.maxAge > -1 ∧ ¬ (R.ignoreReload ∧ cc.maxAge = 0) ∧ age > cc.maxAge

def maxStale : Option ℤ := (request.bind (·.cacheControl)).bind (·.maxStale)

def Tolerated (st : ℤ) : Prop := 0 ≤ st ∧ ∃ m ∈ maxStale request, m < 0 ∨ st < m

def Fresh (age : ℤ) : Prop := ¬ (entry.revalidate ∧ 0 ≤ staleness R entry age) ∧ ¬ Refused R request age ∧
    (staleness R entry age < 0 ∨ Tolerated request (staleness R entry age) ∨ Overridden R entry age)

/-- A request that takes responses up to a staleness refuses one of age `a`, but at age `a'` beyond the
rule's maximum the staleness is counted from that maximum. -/
def Relapses (a a' : ℤ) : Prop :=
  entry.expires ≤ -1 ∧ entry.revalidate = false ∧ ¬ Refused R request a' ∧ a ≤ R.max ∧ R.max < a' ∧ ¬ Overridden R entry a ∧
    ∃ m ∈ maxStale request, a' - R.max < m ∧ m ≤ a - if byLastmod entry then R.staleAge else R.min

variable {cfg R entry request} {a a' t t' st : ℤ} {code : Code}

lemma staleCode_not_fresh (sf : StaleFlags) (st delta : ℤ) : (staleCode cfg R entry sf st delta).isFresh = false := by
  unfold staleCode
  dsimp only
  split_ifs <;> rfl

lemma refreshStaleness_eq (h : entry.timestamp ≤ t) : ∃ sf : StaleFlags,
    refreshStaleness R entry t (t - entry.timestamp) = .ok (staleness R entry (t - entry.timestamp), sf) ∧
    (staleness R entry (t - entry.timestamp) < 0 → ∃ code, freshCode sf = .ok code ∧ code.isFresh) ∧
    (Overridden R entry (t - entry.timestamp) ↔ (sf.expires ∧ R.overrideExpire ∨ sf.lmfactor ∧ R.overrideLastmod) ∧
      t - entry.timestamp < R.min) := by
  have hage : t - entry.timestamp ≥ 0 := by omega
  have ht : entry.timestamp + (t - entry.timestamp) = t := by omega
  unfold refreshStaleness staleness Overridden
  rw [ht, cAssert_pos hage, if_neg (not_lt.2 h)]
  -- the flags of each branch
  split_ifs
  · exact ⟨_, rfl, fun _ => ⟨_, rfl, rfl⟩, by simp [and_comm]⟩
  · exact ⟨_, rfl, fun _ => ⟨_, rfl, rfl⟩, by simp [and_comm]⟩
  · exact ⟨_, rfl, fun _ => by omega, by simp; omega⟩
  · exact ⟨_, rfl, fun _ => ⟨_, rfl, rfl⟩, by simp [*, and_comm]; omega⟩
  · exact ⟨_, rfl, fun _ => ⟨_, rfl, rfl⟩, by simp [*, and_comm]; omega⟩
  · exact ⟨_, rfl, fun _ => ⟨_, rfl, rfl⟩, by simp [*]⟩
  · exact ⟨_, rfl, fun _ => by omega, by simp [*]⟩

lemma checkRequest_eq (cfg : Config) (R : RefreshRule) (request : Option Request) (age st : ℤ) :
    request.bind (checkRequest cfg R age st) = none ∧ ¬ Refused R request age ∧ ¬ Tolerated request st ∨
      ∃ code, request.bind (checkRequest cfg R age st) = some code ∧ (code.isFresh = false ∧ Refused R request age ∨
          code.isFresh = true ∧ ¬ Refused R request age ∧ Tolerated request st) := by
  cases request with
  | none => exact .inl ⟨rfl, by simp [Refused], by simp [Tolerated, maxStale]⟩
  | some r =>
    simp only [Refused, Tolerated, maxStale, checkRequest, mem_some_iff, exists_eq_left', bind_some]
    split_ifs with hrel
    · exact .inr ⟨_, rfl, .inl ⟨rfl, .inl hrel⟩⟩
    · exact .inr ⟨_, rfl, .inl ⟨rfl, .inl hrel⟩⟩
    · cases r.cacheControl with
      | none => exact .inl ⟨rfl, by simpa using hrel, by simp⟩
      | some cc =>
        simp only [bind_some, checkCc, mem_some_iff, exists_eq_left', hrel, false_or]
        by_cases hage : cc.maxAge > -1 ∧ ¬ (R.ignoreReload = true ∧ cc.maxAge = 0) ∧ age > cc.maxAge
        · exact .inr ⟨_, if_pos hage, .inl ⟨rfl, hage⟩⟩
        · rw [if_neg hage]
          cases cc.maxStale with
          | none => exact .inl ⟨rfl, hage, by simp⟩
          | some m =>
            simp only [bind_some, mem_some_iff, exists_eq_left', hage, not_false_eq_true, true_and]
            split_ifs
            · exact .inr ⟨_, rfl, .inr ⟨rfl, by omega⟩⟩
            · exact .inr ⟨_, rfl, .inr ⟨rfl, by omega⟩⟩
            · exact .inl ⟨rfl, by omega⟩
            · exact .inl ⟨rfl, by omega⟩

lemma refreshCheck_eq (cfg : Config) (R : RefreshRule) (request : Option Request) (h : entry.timestamp ≤ t) : ∃ code,
    refreshCheck cfg R entry request t 0 = .ok code ∧ (code.isFresh ↔ Fresh R entry request (t - entry.timestamp)) := by
  obtain ⟨sf, heq, hfre, hover⟩ := refreshStaleness_eq h
  have hage : (if t > entry.timestamp then t - entry.timestamp else 0) = t - entry.timestamp := by
    split_ifs <;> omega
  unfold refreshCheck Fresh
  dsimp only
  rw [if_neg (lt_irrefl 0), hage, heq, ok_bind, hover]
  generalize t - entry.timestamp = age at hfre
  generalize staleness R entry age = st at hfre
  dsimp only
  by_cases hreva : entry.revalidate = true ∧ st > -1
  · exact ⟨_, if_pos hreva, by simp [Code.isFresh, show 0 ≤ st by omega, hreva.1]⟩
  have hrev : ¬ (entry.revalidate = true ∧ 0 ≤ st) := fun hall => hreva ⟨hall.1, by omega⟩
  rw [if_neg hreva]
  rcases checkRequest_eq cfg R request age st with ⟨hnone, href, htol⟩ | ⟨code, hcode, hans⟩
  · rw [hnone]
    split_ifs with hst hexp hlas
    · obtain ⟨code, hcode, hcod⟩ := hfre hst
      exact ⟨code, hcode, by simp [hcod, href, hst]⟩
    · exact ⟨_, rfl, by simp [Code.isFresh, hrev, href, hexp]⟩
    · exact ⟨_, rfl, by simp [Code.isFresh, hrev, href, hlas]⟩
    · refine ⟨_, rfl, ?_⟩
      rw [staleCode_not_fresh]
      simp only [Bool.false_eq_true, hst, htol, false_or, false_iff]
      rintro ⟨-, -, hopt | hopt, hmin⟩
      · exact hexp ⟨hopt.1, hopt.2, hmin⟩
      · exact hlas ⟨hopt.1, hopt.2, hmin⟩
  · rw [hcode]
    rcases hans with ⟨hfal, href⟩ | ⟨htrue, href, htol⟩
    · exact ⟨code, rfl, by simp [hfal, href]⟩
    · exact ⟨code, rfl, by simp [htrue, hrev, href, htol]⟩

/-! ## Passing time -/

lemma staleness_mono (h : a ≤ a') (hsame : -1 < entry.expires ∨ R.max < a ∨ a' ≤ R.max) :
    staleness R entry a ≤ staleness R entry a' := by
  unfold staleness
  split_ifs <;> omega

lemma staleness_neg (h : a ≤ a') (hneg : staleness R entry a' < 0) : staleness R entry a < 0 := by
  by_cases hsame : -1 < entry.expires ∨ a' ≤ R.max
  · exact (staleness_mono h (hsame.imp_right .inr)).trans_lt hneg
  · unfold staleness at hneg
    omega

lemma Refused.mono (h : a ≤ a') (hr : Refused R request a) : Refused R request a' := by
  obtain ⟨r, hr, hrel | ⟨cc, hcc, hage, hzero, hlt⟩⟩ := hr
  · exact ⟨r, hr, .inl hrel⟩
  · exact ⟨r, hr, .inr ⟨cc, hcc, hage, hzero, by omega⟩⟩

lemma Overridden.anti (h : a ≤ a') (hover : Overridden R entry a') : Overridden R entry a := by
  obtain ⟨hmin, hopt⟩ := hover
  refine ⟨by omega, ?_⟩
  by_cases he : entry.expires > -1
  · rwa [if_pos he] at hopt ⊢
  · rw [if_neg he] at hopt ⊢
    exact ⟨hopt.1, hopt.2.1, by omega⟩

lemma Fresh.anti (h : a ≤ a') (hf : Fresh R entry request a') (hno : ¬ Relapses R entry request a a') :
    Fresh R entry request a := by
  obtain ⟨hrev, href, hwhy⟩ := hf
  have href' : ¬ Refused R request a := fun hr => href (hr.mono h)
  have hrev' : ¬ (entry.revalidate = true ∧ 0 ≤ staleness R entry a) := fun hall =>
    hrev ⟨hall.1, not_lt.1 fun hneg => absurd (staleness_neg h hneg) (not_lt.2 hall.2)⟩
  refine ⟨hrev', href', ?_⟩
  by_cases hneg : staleness R entry a < 0
  · exact .inl hneg
  by_cases hover : Overridden R entry a
  · exact .inr (.inr hover)
  rcases hwhy with hneg' | ⟨hst, m, hm, hlt⟩ | hover'
  · exact absurd (staleness_neg h hneg') hneg
  · refine .inr (.inl ⟨by omega, m, hm, ?_⟩)
    by_contra hge
    -- only the change of the formula at the maximum makes the staleness smaller
    have hcha : ¬ (-1 < entry.expires ∨ R.max < a ∨ a' ≤ R.max) := by
      intro hsame
      have hmono : staleness R entry a ≤ staleness R entry a' := staleness_mono h hsame
      omega
    refine hno ⟨by omega, by_contra fun hr => hrev' ⟨by simpa using hr, by omega⟩, href, by omega, by omega, hover, m, hm, ?_⟩
    unfold staleness at hge hlt hneg
    split_ifs at hge hlt hneg ⊢ <;> omega
  · exact absurd (hover'.anti h) hover

lemma Relapses.fresh (hr : Relapses R entry request a a') : Fresh R entry request a' ∧ ¬ Fresh R entry request a := by
  obtain ⟨hexp, hrev, href, ha, ha', hover, m, hm, hlt, hle⟩ := hr
  have hst' : staleness R entry a' = a' - R.max := by
    rw [staleness, if_neg (by omega), if_pos (by omega)]
  have hst : m ≤ staleness R entry a := by
    unfold staleness
    split_ifs at hle ⊢ <;> omega
  refine ⟨⟨by simp [hrev], href, .inr (.inl ⟨by omega, m, hm, by omega⟩)⟩, ?_⟩
  rintro ⟨-, -, hneg | ⟨-, m', hm', htol⟩ | hover'⟩
  · omega
  · obtain rfl := mem_unique hm hm'
    omega
  · exact hover hover'

/-- A response stored at 0 that is stale from age 10 on, for requests that take 50 seconds of staleness. -/
def sampleRule : RefreshRule := ⟨10, 100, 0, -1, -1, false, false, false, false, false⟩

def sampleEntry : StoreEntry := ⟨0, -1, -1, false, none⟩

def tolerant : Request := ⟨false, some ⟨-1, some 50⟩⟩

end SquidVideoCache.Refresh
