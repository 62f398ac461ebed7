import SquidVideoCache.Helper.Progress

/-!
# The requests that wait

A request that was submitted waits in the queue or in a slot until its callback is run; only invalid
callback data lets it go without one. The exception is a callback that `helperServerFree` runs: a
request submitted from it can be given a slot of the very server that is being freed. A slot before
the current one is not looked at again.
-/

namespace SquidVideoCache.Helper
open Lib List

variable {cfg : Config} {s s' : State} {p : ℕ} {r : Request} {srv : Server} {b : Busy} {hand : List Request}

/-- A callback that `helperServerFree` runs for a slot other than the first submits nothing while the server that is
being freed would be chosen. -/
def kept (cfg : Config) (s : State) : Event → Bool
  | .submit .. =>
    match s.busy with
    | .ending p i => i = 0 || getFirstAvailable cfg s ≠ some p
    | _ => true
  | _ => true

def Busy.waiting : Busy → ℕ → Server → List Request
  | .ending q i, p, srv => if q = p then (srv.requests.set i none).reduceOption else srv.requests.reduceOption
  | _, _, srv => srv.requests.reduceOption

def onServers (b : Busy) (server : ℕ → Server) (ps : List ℕ) : List Request := ps.flatMap fun p => b.waiting p (server p)

def State.held (s : State) : List Request := s.queue ++ onServers s.busy s.server s.servers

lemma Busy.waiting_of_ne (h : b.server ≠ some p) (srv : Server) : b.waiting p srv = srv.requests.reduceOption := by
  cases b with
  | ending q i =>
    have hne : q ≠ p := by simpa [Busy.server] using h
    simp [Busy.waiting, hne]
  | _ => rfl

lemma count_onServers {ps : List ℕ} (server : ℕ → Server) (hp : p ∈ ps) (r : Request) :
    (onServers b server ps).count r = (b.waiting p (server p)).count r + (onServers b server (ps.erase p)).count r := by
  have hperm := (perm_cons_erase hp).flatMap_right fun p => b.waiting p (server p)
  have hcou := hperm.count_eq r
  rwa [flatMap_cons, count_append] at hcou

lemma count_put {c : Busy} (hnod : s.servers.Nodup) (hp : p ∈ s.servers) (srv : Server)
    (hoth : ∀ q, q ≠ p → c.waiting q (s.server q) = s.busy.waiting q (s.server q)) (r : Request) :
    (onServers c (s.put p srv).server s.servers).count r + (s.busy.waiting p (s.server p)).count r =
      (onServers s.busy s.server s.servers).count r + (c.waiting p srv).count r := by
  have hrest : onServers c (s.put p srv).server (s.servers.erase p) = onServers s.busy s.server (s.servers.erase p) := by
    apply flatMap_congr
    intro q hq
    have hne : q ≠ p := (hnod.mem_erase_iff.mp hq).1
    rw [put_of_ne s srv hne, hoth q hne]
  rw [count_onServers _ hp, count_onServers _ hp, hrest, put_self]
  omega

/-- The server of the handler is the only one for which it matters which handler runs. -/
theorem waiting_other {c : Busy} (hb : ∀ q, b.server = some q → q = p) (hc : ∀ q, c.server = some q → q = p) {q : ℕ}
    (hq : q ≠ p) (srv : Server) : c.waiting q srv = b.waiting q srv := by
  rw [Busy.waiting_of_ne fun h => hq (hb q h), Busy.waiting_of_ne fun h => hq (hc q h)]

/-! ## The invariant -/

/-- The requests that wait outside the servers are given. -/
structure Kept (hand : List Request) (s : State) : Prop where
  accounts : ∀ r, hand.count r + (onServers s.busy s.server s.servers).count r + (s.called.map Prod.fst).count r +
    s.dropped.count r = s.submitted.count r
  cleared : ∀ p i, s.busy = .freeing p i ∨ s.busy = .ending p i → ∀ j < i, (s.server p).requests[j]? = some none
  current : ∀ p i, s.busy = .ending p i → ∃ r, (s.server p).requests[i]? = some (some r)
  unique : s.submitted.Nodup
  serial_lt : ∀ r ∈ s.submitted, r.serial < s.submitted.length
  dropped : ∀ r ∈ s.dropped, r.data ∈ s.invalid

lemma Kept.drop (h : Kept (r :: hand) s) (hinvalid : r.data ∈ s.invalid) : Kept hand (s.drop r) where
  accounts := by
    intro a
    have hacc := h.accounts a
    simp only [State.drop, count_cons] at hacc ⊢
    omega
  cleared := h.cleared
  current := h.current
  unique := h.unique
  serial_lt := h.serial_lt
  dropped := by
    intro a ha
    rcases mem_cons.mp ha with rfl | ha
    · exact hinvalid
    · exact h.dropped a ha

/-! ## Dispatching -/

lemma Kept.take (hsafe : Safe cfg s) (h : Kept (r :: hand) s) (hp : p ∈ s.servers) {slot : ℕ}
    (hfree : (s.server p).requests[slot]? = some none) (hopen : s.busy.open) (hfir : ∀ i, s.busy = .ending p i → i = 0) :
    Kept hand (s.put p ((s.server p).take cfg slot r)) := by
  have hwai : (s.busy.waiting p ((s.server p).take cfg slot r)).Perm (r :: s.busy.waiting p (s.server p)) := by
    by_cases hendi : ∃ i, s.busy = .ending p i
    · obtain ⟨i, hi⟩ := hendi
      obtain ⟨r', hr'⟩ := h.current p i hi
      have hne : slot ≠ i := by
        rintro rfl
        rw [hr'] at hfree
        cases hfree
      have hfree' : ((s.server p).requests.set i none)[slot]? = some none := by
        rw [getElem?_set_ne hne.symm, hfree]
      simp only [hi, Busy.waiting, Server.take]
      rw [set_comm _ _ hne]
      exact perm_set_some hfree' r
    · have hwait : ∀ srv, s.busy.waiting p srv = srv.requests.reduceOption := by
        intro srv
        cases hb : s.busy with
        | ending q i =>
          have hne : q ≠ p := fun heq => hendi ⟨i, heq ▸ hb⟩
          simp [Busy.waiting, hne]
        | _ => rfl
      rw [hwait, hwait]
      exact perm_set_some hfree r
  refine ⟨fun a => ?_, ?_, ?_, h.unique, h.serial_lt, h.dropped⟩
  · have hacc := h.accounts a
    have hput := count_put hsafe.nodup hp ((s.server p).take cfg slot r) (fun _ _ => rfl) a
    have hcou := hwai.count_eq a
    simp only [count_cons] at hacc hcou
    show hand.count a + (onServers s.busy (s.put p _).server s.servers).count a + (s.called.map Prod.fst).count a +
      s.dropped.count a = s.submitted.count a
    omega
  · intro q i hbusy j hj
    by_cases hqp : q = p
    · subst hqp
      rcases hbusy with hbusy | hbusy
      · have hbusy : s.busy = .freeing q i := hbusy
        simp [hbusy, Busy.open] at hopen
      · have hzero := hfir i hbusy
        omega
    · rw [put_of_ne s _ hqp]
      exact h.cleared q i hbusy j hj
  · intro q i hbusy
    obtain ⟨r', hr'⟩ := h.current q i hbusy
    by_cases hqp : q = p
    · subst hqp
      have hne : slot ≠ i := by
        rintro rfl
        rw [hr'] at hfree
        cases hfree
      exact ⟨r', by simpa [Server.take, getElem?_set_ne hne] using hr'⟩
    · exact ⟨r', by rw [put_of_ne s _ hqp, hr']⟩

lemma Kept.books (h : Kept hand s) (warned restarted : ℤ) :
    Kept hand { s with queue := hand, lastQueueWarn := warned, lastRestart := restarted } :=
  ⟨h.accounts, h.cleared, h.current, h.unique, h.serial_lt, h.dropped⟩

lemma Safe.dispatch (h : Safe cfg s) (hp : getFirstAvailable cfg s = some p) (r : Request) :
    Ends (fun _ => False) (fun s' => Safe cfg s' ∧ (s'.queue = s.queue ∧ s'.busy = s.busy ∧ s'.servers = s.servers) ∧
      (∀ q, (s.server q).pending ≤ (s'.server q).pending) ∧
      (s.busy.open → (∀ i, s.busy = .ending p i → i = 0) → ∀ hand, Kept (r :: hand) s → Kept hand s'))
      (helperDispatch cfg s p r) := by
  obtain ⟨hmem, hroom⟩ := getFirstAvailable_eq_some hp
  refine ends_ite (fun hinvalid => ?_) fun _ => ?_
  · exact ⟨h.books .., ⟨rfl, rfl, rfl⟩, fun _ => le_rfl, fun _ _ _ hkept => hkept.drop hinvalid⟩
  · obtain ⟨i, hi, hfree⟩ := (h.each p hmem).exists_free hroom
    rw [hi]
    refine ⟨h.put ((h.each p hmem).take hroom hfree r), ⟨rfl, rfl, rfl⟩, fun q => ?_,
      fun hopen hfir _ hkept => hkept.take h hmem hfree hopen hfir⟩
    by_cases hqp : q = p
    · subst hqp
      rw [put_self]
      exact Nat.le_succ _
    · rw [put_of_ne s _ hqp]

/-- When the queue has been kicked, it is empty or all servers are full. -/
theorem Safe.kick (h : Safe cfg s) (hidle : s.busy = .idle) (queue : List Request) :
    Ends (fun _ => False) (fun s' => Safe cfg s' ∧ s'.busy = .idle ∧ Loaded cfg s' ∧ (Kept queue s → Kept s'.queue s'))
      (kickQueue cfg s queue) := by
  induction queue generalizing s with
  | nil => exact ⟨h.books .., hidle, fun hne => absurd rfl hne, fun hkept => hkept.books ..⟩
  | cons r queue ih =>
    unfold kickQueue
    cases hp : getFirstAvailable cfg s with
    | none => exact ⟨h.books .., hidle, fun _ q hq _ => h.full_of_none hp q hq, fun hkept => hkept.books ..⟩
    | some p =>
      refine (h.dispatch hp r).bind ?_
      rintro t ⟨ht, ⟨-, hbusy, -⟩, -, hgiv⟩
      refine (ih ht (hbusy.trans hidle)).mono fun s' hs' => ⟨hs'.1, hs'.2.1, hs'.2.2.1, fun hkept => hs'.2.2.2 ?_⟩
      exact hgiv (by rw [hidle]; rfl) (by simp [hidle]) queue hkept

lemma Safe.place (h : Safe cfg s) (r : Request) (now : ℤ) :
    Ends (· = .fatal) (fun s' => Safe cfg s' ∧ (Loaded cfg s → Loaded cfg s') ∧
      (s.busy.open → (∀ p i, s.busy = .ending p i → getFirstAvailable cfg s = some p → i = 0) →
        Kept (r :: s.queue) s → Kept s'.queue s')) (Helper.place cfg s r now) := by
  unfold Helper.place
  cases hp : getFirstAvailable cfg s with
  | some p =>
    refine ((h.dispatch hp r).weaken fun _ hfal => hfal.elim).mono ?_
    rintro t ⟨ht, ⟨hque, hbusy, hser⟩, hpending, hgiv⟩
    refine ⟨ht, fun hloa hne q hq hqbu => ?_, fun hopen hfir hkept => ?_⟩
    · rw [hque] at hne
      rw [hser] at hq
      rw [hbusy] at hqbu
      exact (hloa hne q hq hqbu).trans (hpending q)
    · rw [hque]
      exact hgiv hopen (fun i hi => hfir p i hi rfl) _ hkept
  | none =>
    have hfull := h.full_of_none hp
    have hpus : Kept (r :: s.queue) s → Kept (s.queue ++ [r]) s := by
      refine fun hkept => ⟨fun a => ?_, hkept.cleared, hkept.current, hkept.unique, hkept.serial_lt, hkept.dropped⟩
      have hacc := hkept.accounts a
      simp only [count_append, count_cons, count_nil] at hacc ⊢
      omega
    refine ends_ite (fun _ => ?_) fun _ => ends_ite (fun _ => rfl) fun _ => ?_
    all_goals exact ⟨h.books .., fun _ _ q hq _ => hfull q hq, fun _ _ hkept => (hpus hkept).books ..⟩

/-- What a step keeps: the counts, the load of the servers and, on the condition `C`, the requests that wait. -/
structure Sound (cfg : Config) (C : Prop) (s s' : State) : Prop where
  safe : Safe cfg s'
  loaded : Loaded cfg s → Loaded cfg s'
  kept : C → Kept s.queue s → Kept s'.queue s'

lemma Sound.of_true {C : Prop} (h : Sound cfg True s s') : Sound cfg C s s' := ⟨h.safe, h.loaded, fun _ => h.kept trivial⟩

lemma Safe.submit (h : Safe cfg s) {data : ℕ} {buf : List UInt8} {now : ℤ} (hopen : s.busy.open) :
    Ends (· = .fatal) (Sound cfg (kept cfg s (.submit data buf now)) s) (helperSubmit cfg s data buf now) := by
  have hs : Safe cfg { s with submitted := s.submitted ++ [newRequest s data buf] } := h.books ..
  refine (hs.place _ now).mono ?_
  rintro s' ⟨hsafe', hloa, hgiv⟩
  refine ⟨hsafe', hloa, fun hcond hkept => hgiv hopen (fun p i hbusy hfir => ?_) ?_⟩
  · have hbusy : s.busy = .ending p i := hbusy
    have hfir : getFirstAvailable cfg s = some p := hfir
    simpa [Helper.kept, hbusy, hfir] using hcond
  · have hnew : newRequest s data buf ∉ s.submitted := fun hmem => (hkept.serial_lt _ hmem).false
    refine ⟨fun a => ?_, hkept.cleared, hkept.current, ?_, ?_, hkept.dropped⟩
    · have hacc := hkept.accounts a
      simp only [count_append, count_cons, count_nil]
      omega
    · exact List.Nodup.append hkept.unique (nodup_singleton _) (by simpa using hnew)
    · intro a ha
      rw [length_append]
      rcases mem_append.mp ha with ha | ha
      · have hlt := hkept.serial_lt a ha
        omega
      · rw [mem_singleton.mp ha]
        exact Nat.lt_succ_self _

/-! ## Opening and freeing servers -/

lemma newServer_waiting (cfg : Config) : (newServer cfg).requests.reduceOption = [] := reduceOption_replicate_none

lemma Kept.addServer (hsafe : Safe cfg s) (h : Kept hand s) (hidle : s.busy = .idle) : Kept hand (s.addServer cfg) := by
  have hsame : onServers s.busy (s.addServer cfg).server (s.servers ++ [s.next]) = onServers s.busy s.server s.servers := by
    unfold onServers
    rw [flatMap_append, flatMap_singleton]
    have hself : (s.addServer cfg).server s.next = newServer cfg := put_self s s.next _
    rw [hself, hidle]
    simp only [Busy.waiting, newServer_waiting, append_nil]
    apply flatMap_congr
    intro q hq
    have hne : q ≠ s.next := (hsafe.fresh q hq).ne
    have hold : (s.addServer cfg).server q = s.server q := put_of_ne s _ hne
    rw [hold]
  refine ⟨fun a => ?_, ?_, ?_, h.unique, h.serial_lt, h.dropped⟩
  · have hacc := h.accounts a
    rw [← hsame] at hacc
    exact hacc
  · intro q i hbusy
    have hbusy : s.busy = .freeing q i ∨ s.busy = .ending q i := hbusy
    simp [hidle] at hbusy
  · intro q i hbusy
    have hbusy : s.busy = .ending q i := hbusy
    simp [hidle] at hbusy

lemma Safe.startServers (h : Safe cfg s) (hidle : s.busy = .idle) (hand : List Request) (forks : ℕ → Bool) (n : ℕ) :
    Safe cfg (Helper.startServers s cfg forks n) ∧ (Helper.startServers s cfg forks n).busy = .idle ∧
      (Helper.startServers s cfg forks n).queue = s.queue ∧
      (Kept hand s → Kept hand (Helper.startServers s cfg forks n)) := by
  induction n with
  | zero => exact ⟨h, hidle, rfl, fun hkept => hkept⟩
  | succ n ih =>
    obtain ⟨hsafe, hbusy, hque, hkept⟩ := ih
    unfold Helper.startServers
    split_ifs
    · exact ⟨hsafe.addServer, hbusy, hque, fun h => (hkept h).addServer hsafe hbusy⟩
    · exact ⟨hsafe, hbusy, hque, hkept⟩

lemma Safe.openServers (h : Safe cfg s) (hidle : s.busy = .idle) (forks : ℕ → Bool) (now : ℤ) :
    Ends (fun _ => False) (fun s' => Sound cfg True s s' ∧ s'.busy = .idle) (helperOpenServers cfg s forks now) := by
  obtain ⟨hsafe, hbusy, hque, hkept⟩ := h.startServers hidle _ forks _
  have hope : Safe cfg { Helper.startServers s cfg forks cfg.nToStart with lastRestart := now } := hsafe.books ..
  unfold helperOpenServers helperKickQueue
  rw [hque]
  refine (hope.kick hbusy _).mono fun s' hs' => ⟨⟨hs'.1, fun _ => hs'.2.2.1, fun _ hs => hs'.2.2.2 ?_⟩, hs'.2.1⟩
  have hk := hkept hs
  exact ⟨hk.accounts, hk.cleared, hk.current, hk.unique, hk.serial_lt, hk.dropped⟩

lemma Kept.remove {i : ℕ} (hsafe : Safe cfg s) (h : Kept hand s) (hbusy : s.busy = .freeing p i)
    (hend : (s.server p).requests[i]? = none) : Kept hand (s.removeServer p) := by
  have hp : p ∈ s.servers := hsafe.busy p (by rw [hbusy]; rfl)
  have hlen : (s.server p).requests.length ≤ i := getElem?_eq_none_iff.mp hend
  have hemp : (s.server p).requests.reduceOption = [] :=
    reduceOption_eq_nil fun j hj => h.cleared p i (.inl hbusy) j (by omega)
  refine ⟨fun a => ?_, ?_, ?_, h.unique, h.serial_lt, h.dropped⟩
  · have hacc := h.accounts a
    rw [count_onServers _ hp, hbusy] at hacc
    simp only [Busy.waiting, hemp, count_nil] at hacc
    show hand.count a + (onServers .idle s.server (s.servers.erase p)).count a + (s.called.map Prod.fst).count a +
      s.dropped.count a = s.submitted.count a
    have hsame : onServers .idle s.server (s.servers.erase p) = onServers (.freeing p i) s.server (s.servers.erase p) := rfl
    rw [hsame]
    omega
  · intro q j hq
    simp [State.removeServer] at hq
  · intro q j hq
    simp [State.removeServer] at hq

lemma Safe.gone {i : ℕ} (h : Safe cfg s) (hbusy : s.busy = .freeing p i) (hend : (s.server p).requests[i]? = none)
    (forks : ℕ → Bool) (now : ℤ) :
    Ends (· = .fatal) (fun s' => Sound cfg True s s' ∧ s'.busy = .idle) (serverGone cfg s p forks now) := by
  have hser : s.busy.server = some p := by rw [hbusy]; rfl
  obtain ⟨hsafe, hpos⟩ := h.remove hser
  have hact : 0 ≤ s.nActive - 1 := by
    have heq := h.active.trans h.running.symm
    omega
  have hrem : Sound cfg True s (s.removeServer p) := by
    refine ⟨hsafe, fun hloa hne q hq _ => ?_, fun _ hkept => hkept.remove h hbusy hend⟩
    have hqp : q ≠ p := (h.nodup.mem_erase_iff.mp hq).1
    exact hloa hne q (mem_of_mem_erase hq) fun hs => hqp (Option.some.inj (hs.symm.trans hser))
  unfold serverGone
  simp only [checked_pos hpos, checked_pos hact]
  refine ends_ite (fun _ => ends_ite (fun _ => rfl) fun _ => ?_) fun _ => ⟨hrem, rfl⟩
  exact ((hsafe.openServers rfl forks now).weaken fun _ hfal => hfal.elim).mono fun s' hs' =>
    ⟨⟨hs'.1.safe, fun hl => hs'.1.loaded (hrem.loaded hl), fun _ hk => hs'.1.kept trivial (hrem.kept trivial hk)⟩, hs'.2⟩

end SquidVideoCache.Helper
