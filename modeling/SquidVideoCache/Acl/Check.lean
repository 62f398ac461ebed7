import Mathlib.Tactic.Common
import Mathlib.Data.Int.Notation

/-!
# Access checks of acl.c

`aclCheck` walks through the rules of an access list. Where a rule needs a lookup it
returns, and the callback of the lookup calls it again for the same rule. What an ACL
answers is outside: `World` has what a call of `aclCheck` finds, so it may be another one
each time. A reconfiguration frees the rules, which the next call sees as `listValid`.
-/

namespace SquidVideoCache.Acl
open Function

inductive Allow where
  | denied
  | allowed
  | reqProxyAuth
  deriving DecidableEq, Repr

inductive LookupState where
  | none
  | needed
  | pending
  | done
  | proxyAuthNeeded
  deriving DecidableEq, Repr

/-- The types of ACLs whose answer may have to wait. -/
inductive Lookup where
  | dstIp
  | dstAsn
  | srcDomain
  | dstDomain
  | proxyAuth
  | ident
  | external
  deriving DecidableEq, Repr

abbrev Lookups := Lookup → LookupState

variable {Acl : Type}

/-- An element of an `acl_list`; `op` is false if the ACL is negated. -/
structure AclTest (Acl : Type) where
  op : Bool
  acl : Acl

/-- A rule. Its `allow` is read from `allow` and `deny` in the configuration. -/
structure AclAccess (Acl : Type) where
  allow : Bool
  aclList : List (AclTest Acl)

def AclAccess.allowT (A : AclAccess Acl) : Allow := if A.allow then .allowed else .denied

structure World (Acl : Type) where
  aclMatchAcl : Acl → Lookups → ℤ × Lookups
  isExternal : Acl → Bool
  /-- `ipcacheCheckNumeric` finds an address in the host of the request. -/
  numericHost : Bool
  connValid : Bool
  /-- `cbdataValid` of the rules of the list -/
  listValid : Bool

/-- `checked` lists the rules that the check is done with, and whether they matched. -/
structure Checklist (Acl : Type) where
  accessList : List (AclAccess Acl)
  state : Lookups := fun _ => .none
  currentAcl : Option Acl := none
  checked : List (AclAccess Acl × Bool) := []

inductive Outcome (Acl : Type) where
  | callback (answer : Allow) (checklist : Checklist Acl)
  /-- a lookup has been started -/
  | waits (checklist : Checklist Acl)
  /-- `aclCheck` returns although no lookup has been started -/
  | lost (checklist : Checklist Acl)
  | assertion

def aclMatchAclList (W : World Acl) : List (AclTest Acl) → Option Acl → Lookups → Bool × Option Acl × Lookups
  | [], currentAcl, state => (true, currentAcl, state)
  | test :: list, _, state =>
    let (answer, state) := W.aclMatchAcl test.acl state
    if answer ≠ (if test.op then 1 else 0) then (false, some test.acl, state)
    else aclMatchAclList W list (some test.acl) state

/-- What `aclCheck` does about a rule after it has tested it. -/
inductive Verdict where
  | wait (lookup : Lookup)
  | lost
  | assertion
  | answer (allow : Allow)
  | next

/-- The lookups that may be needed, in the order of the source. -/
def verdict (W : World Acl) (A : AclAccess Acl) (isMatch : Bool) (currentAcl : Option Acl) (state : Lookups) :
    Verdict :=
  if state .dstIp = .needed then .wait .dstIp
  else if state .dstAsn = .needed then .wait .dstAsn
  else if state .srcDomain = .needed then .wait .srcDomain
  else if state .dstDomain = .needed then if W.numericHost then .wait .dstDomain else .lost
  else if state .proxyAuth = .needed then .wait .proxyAuth
  else if state .proxyAuth = .proxyAuthNeeded then .answer .reqProxyAuth
  else if state .ident = .needed then if W.connValid then .wait .ident else .answer .denied
  else if state .external = .needed then
    if currentAcl.any W.isExternal then .wait .external else .assertion
  else if isMatch then .answer A.allowT
  else .next

/-- The answer after the loop is the opposite of the last verdict. -/
def noMatch (allow : Allow) : Allow := if allow ≠ .denied then .denied else .allowed

/-- The loop of `aclCheck`, with its local variable `allow`. -/
def checkFrom (W : World Acl) : Allow → List (AclAccess Acl) → Checklist Acl → Outcome Acl
  | allow, [], c => .callback (noMatch allow) { c with accessList := [] }
  | allow, A :: rest, c =>
    if W.listValid then
      let (isMatch, currentAcl, state) := aclMatchAclList W A.aclList c.currentAcl c.state
      let c := { c with accessList := A :: rest, currentAcl, state }
      match verdict W A isMatch currentAcl state with
      | .wait lookup => .waits { c with state := update state lookup .pending }
      | .lost => .lost { c with state := update state .dstDomain .done }
      | .assertion => .assertion
      | .answer allow => .callback allow { c with accessList := [], checked := c.checked ++ [(A, isMatch)] }
      | .next => checkFrom W A.allowT rest { c with checked := c.checked ++ [(A, false)] }
    else .callback (noMatch allow) { c with accessList := [] }

def aclCheck (W : World Acl) (c : Checklist Acl) : Outcome Acl := checkFrom W .denied c.accessList c

/-- `aclLookupDstIPDone` and its siblings, up to the call of `aclCheck`. -/
def lookupDone (lookup : Lookup) (c : Checklist Acl) : Checklist Acl :=
  { c with state := update c.state lookup .done }

/-! ## Runs -/

/-- The checklists of a check of `rules` that wait for a lookup. -/
inductive Waiting (rules : List (AclAccess Acl)) : Checklist Acl → Prop
  | start {W : World Acl} {c : Checklist Acl} (h : aclCheck W { accessList := rules } = .waits c) :
    Waiting rules c
  | resume {W : World Acl} {c c' : Checklist Acl} {lookup : Lookup} (hc : Waiting rules c)
    (hpending : c.state lookup = .pending) (h : aclCheck W (lookupDone lookup c) = .waits c') : Waiting rules c'

def Answered (rules : List (AclAccess Acl)) (W : World Acl) (answer : Allow) (c : Checklist Acl) : Prop :=
  aclCheck W { accessList := rules } = .callback answer c ∨
    ∃ c' lookup, Waiting rules c' ∧ c'.state lookup = .pending ∧
      aclCheck W (lookupDone lookup c') = .callback answer c

/-- The first rule that matches is an allow rule, or no rule matches and the last one is a deny rule. -/
def Justified (rules : List (AclAccess Acl)) (checked : List (AclAccess Acl × Bool)) : Prop :=
  (∃ before A after, rules = before ++ A :: after ∧ checked = before.map (·, false) ++ [(A, true)] ∧ A.allow) ∨
    (checked = rules.map (·, false) ∧ ∃ A, rules.getLast? = some A ∧ ¬ A.allow)

def Passed (rules : List (AclAccess Acl)) (c : Checklist Acl) (rest : List (AclAccess Acl)) : Prop :=
  ∃ before, rules = before ++ rest ∧ c.checked = before.map (·, false)

variable {W : World Acl} {rules rest : List (AclAccess Acl)} {A : AclAccess Acl} {allow answer : Allow}
  {c c' : Checklist Acl}

lemma Passed.step (h : Passed rules c (A :: rest)) (hc : c'.checked = c.checked ++ [(A, false)]) :
    Passed rules c' rest := by
  obtain ⟨before, hrul, hche⟩ := h
  exact ⟨before ++ [A], by simp [hrul], by simp [hc, hche]⟩

lemma verdict_allowed {isMatch : Bool} {currentAcl : Option Acl} {state : Lookups}
    (h : verdict W A isMatch currentAcl state = .answer .allowed) : isMatch ∧ A.allow := by
  unfold verdict at h
  split_ifs at h with h1 h2 h3 h4 h5 h6 h7 h8 h9 h10 h11 hmat
  · cases h
  · cases h
  · refine ⟨hmat, ?_⟩
    have hall : A.allowT = .allowed := Verdict.answer.inj h
    by_contra hne
    simp [AclAccess.allowT, hne] at hall

/-- How a call ends that finds the rules valid. -/
def Proper (rules : List (AclAccess Acl)) : Outcome Acl → Prop
  | .callback answer c => answer = .allowed → Justified rules c.checked
  | .waits c => c.accessList ≠ [] ∧ Passed rules c c.accessList
  | .lost _ | .assertion => True

lemma proper_checkFrom (hval : W.listValid) (hpas : Passed rules c rest)
    (hlast : rest = [] → ∃ A, rules.getLast? = some A ∧ allow = A.allowT) :
    Proper rules (checkFrom W allow rest c) := by
  induction rest generalizing allow c with
  | nil =>
    obtain ⟨before, hrul, hche⟩ := hpas
    obtain ⟨A, hA, hallo⟩ := hlast rfl
    rw [List.append_nil] at hrul
    intro hall
    refine Or.inr ⟨by rw [hrul, ← hche], A, hA, ?_⟩
    intro hA'
    simp [noMatch, hallo, AclAccess.allowT, hA'] at hall
  | cons A rest ih =>
    unfold checkFrom
    rw [if_pos hval]
    obtain ⟨⟨isMatch, currentAcl, state⟩, hmat⟩ : ∃ r, aclMatchAclList W A.aclList c.currentAcl c.state = r :=
      ⟨_, rfl⟩
    rw [hmat]
    simp only
    cases hv : verdict W A isMatch currentAcl state with
    | wait lookup => exact ⟨List.cons_ne_nil _ _, hpas⟩
    | lost => trivial
    | assertion => trivial
    | answer allow =>
      intro hall
      rw [hall] at hv
      obtain ⟨hm, hallo⟩ := verdict_allowed hv
      obtain ⟨before, hrul, hche⟩ := hpas
      exact Or.inl ⟨before, A, rest, hrul, by simp [hche, hm], hallo⟩
    | next =>
      refine ih (hpas.step rfl) ?_
      intro hnil
      obtain ⟨before, hrul, -⟩ := hpas
      exact ⟨A, by simp [hrul, hnil], rfl⟩

lemma proper_aclCheck (hval : W.listValid) (hne : c.accessList ≠ []) (hpas : Passed rules c c.accessList) :
    Proper rules (aclCheck W c) :=
  proper_checkFrom hval hpas fun hnil => absurd hnil hne

/-- A call that finds the rules freed answers at once, and lets the request in. -/
theorem aclCheck_invalid (hval : ¬ W.listValid) : aclCheck W c = .callback .allowed { c with accessList := [] } := by
  unfold aclCheck
  cases c.accessList with
  | nil => rfl
  | cons A rest =>
    unfold checkFrom
    rw [if_neg hval]
    rfl

lemma aclCheck_nil (hnil : c.accessList = []) : aclCheck W c = .callback .allowed { c with accessList := [] } := by
  unfold aclCheck
  rw [hnil]
  rfl

lemma Waiting.passed (h : Waiting rules c) : c.accessList ≠ [] ∧ Passed rules c c.accessList := by
  have hstep : ∀ {W : World Acl} {c c' : Checklist Acl}, c.accessList ≠ [] → Passed rules c c.accessList →
      aclCheck W c = .waits c' → c'.accessList ≠ [] ∧ Passed rules c' c'.accessList := by
    intro W c c' hne hpas hrun
    by_cases hval : W.listValid
    · have hpro := proper_aclCheck hval hne hpas
      rw [hrun] at hpro
      exact hpro
    · rw [aclCheck_invalid hval] at hrun
      cases hrun
  induction h with
  | @start W c hrun =>
    by_cases hnil : rules = []
    · rw [aclCheck_nil hnil] at hrun
      cases hrun
    · exact hstep hnil ⟨[], rfl, rfl⟩ hrun
  | resume _ _ hrun ih => exact hstep (c := lookupDone _ _) ih.1 ih.2 hrun

/-- A request is let in for a reason, and not by a freed rule, exactly if the call that answers finds
the rules valid and there are any. -/
theorem answered_justified_iff (h : Answered rules W answer c) :
    (answer = .allowed → Justified rules c.checked ∧ W.listValid) ↔ (W.listValid ∧ rules ≠ []) := by
  have hans : ∀ c₀ : Checklist Acl, c₀.accessList ≠ [] → Passed rules c₀ c₀.accessList →
      aclCheck W c₀ = .callback answer c →
      ((answer = .allowed → Justified rules c.checked ∧ W.listValid) ↔ W.listValid) := by
    intro c₀ hne hpas hrun
    by_cases hval : W.listValid
    · have hpro := proper_aclCheck hval hne hpas
      rw [hrun] at hpro
      exact ⟨fun _ => hval, fun _ hall => ⟨hpro hall, hval⟩⟩
    · rw [aclCheck_invalid hval] at hrun
      cases hrun
      exact ⟨fun hp => (hp rfl).2, fun hv => absurd hv hval⟩
  have hrul : ∀ {c₀ : Checklist Acl}, c₀.accessList ≠ [] → Passed rules c₀ c₀.accessList → rules ≠ [] := by
    rintro c₀ hne ⟨before, rfl, -⟩ hnil
    exact hne (List.append_eq_nil_iff.mp hnil).2
  rcases h with hrun | ⟨c₀, lookup, hwait, -, hrun⟩
  · by_cases hnil : rules = []
    · rw [aclCheck_nil hnil] at hrun
      cases hrun
      refine ⟨fun hp => ?_, fun hp => absurd hnil hp.2⟩
      rcases (hp rfl).1 with ⟨before, A, after, hspl, -⟩ | ⟨-, A, hlast, -⟩
      · simp [hnil] at hspl
      · simp [hnil] at hlast
    · rw [hans _ hnil ⟨[], rfl, rfl⟩ hrun]
      exact ⟨fun hv => ⟨hv, hnil⟩, fun hv => hv.1⟩
  · obtain ⟨hne, hpas⟩ := hwait.passed
    rw [hans (lookupDone lookup c₀) hne hpas hrun]
    exact ⟨fun hv => ⟨hv, hrul hne hpas⟩, fun hv => hv.1⟩

/-! ## A reconfiguration during a lookup -/

/-- One rule that denies the addresses of a list, and one that denies everything. -/
def denyRules : List (AclAccess Bool) := [⟨false, [⟨true, true⟩]⟩, ⟨false, [⟨true, false⟩]⟩]

/-- The ACL `true` is about the address of the host, which is not known at first and not in the
list; the ACL `false` always matches. -/
def denyWorld (listValid : Bool) : World Bool where
  aclMatchAcl := fun dst state =>
    if dst then (0, if state .dstIp = .none then update state .dstIp .needed else state) else (1, state)
  isExternal := fun _ => false
  numericHost := false
  connValid := true
  listValid := listValid

def denyWaiting : Checklist Bool :=
  { accessList := denyRules
    state := update (update (fun _ => .none) .dstIp .needed) .dstIp .pending
    currentAcl := some true }

lemma waiting_deny : Waiting denyRules denyWaiting := .start (W := denyWorld true) rfl

theorem answered_justified_deny : ∃ c, Answered denyRules (denyWorld true) .denied c ∧
    (Allow.denied = .allowed → Justified denyRules c.checked ∧ (denyWorld true).listValid) := by
  have h : Answered denyRules (denyWorld true) .denied _ := Or.inr ⟨denyWaiting, .dstIp, waiting_deny, rfl, rfl⟩
  exact ⟨_, h, (answered_justified_iff h).mpr ⟨rfl, by decide⟩⟩

/-- All rules deny and the last one matches everything. The list is freed while the check waits for an
address, and the request is let in. -/
theorem answered_freed_allowed : ∃ c, Answered denyRules (denyWorld false) .allowed c ∧ c.checked = [] ∧
    ∀ A ∈ denyRules, A.allow = false := by
  refine ⟨_, Or.inr ⟨denyWaiting, .dstIp, waiting_deny, rfl, rfl⟩, rfl, ?_⟩
  decide

end SquidVideoCache.Acl
