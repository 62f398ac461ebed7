import SquidVideoCache.Helper.Model
import SquidVideoCache.Lib.Slots
import Mathlib.Data.List.Nodup

/-!
# The requests pending on a server

`stats.pending` counts the occupied slots of a server. It runs one ahead of them while the callback
for a reply runs, and it is not counted down any more while the server is freed.
-/

namespace SquidVideoCache.Helper
open Lib List Option

variable {cfg : Config} {s s' : State} {p : ℕ} {r : Request} {srv : Server} {b : Busy}

def Server.occupied (srv : Server) : ℕ := srv.requests.reduceOption.length

def Busy.server : Busy → Option ℕ
  | .idle => none
  | .reading p | .replying p _ | .freeing p _ | .ending p _ => some p

def Busy.ahead : Busy → ℕ → ℕ
  | .replying p _, q => if p = q then 1 else 0
  | _, _ => 0

def Busy.dying : Busy → ℕ → Bool
  | .freeing p _, q | .ending p _, q => p = q
  | _, _ => false

structure ServerSafe (cfg : Config) (b : Busy) (p : ℕ) (srv : Server) : Prop where
  length_eq : srv.requests.length = slotCount cfg
  room : srv.rbuf.length < rbufSize
  occupied_le : srv.occupied ≤ srv.pending
  pending_le : srv.pending ≤ slotCount cfg
  pending_eq : b.dying p = false → srv.pending = srv.occupied + b.ahead p

structure Safe (cfg : Config) (s : State) : Prop where
  nodup : s.servers.Nodup
  fresh : ∀ p ∈ s.servers, p < s.next
  running : s.nRunning = s.servers.length
  active : s.nActive = s.servers.length
  busy : ∀ p, s.busy.server = some p → p ∈ s.servers
  each : ∀ p ∈ s.servers, ServerSafe cfg s.busy p (s.server p)

lemma Safe.books (h : Safe cfg s) (queue submitted dropped : List Request) (called : List (Request × Option (List UInt8)))
    (invalid : List ℕ) (warned restarted : ℤ) : Safe cfg { s with
      queue := queue, submitted := submitted, dropped := dropped, called := called, invalid := invalid
      lastQueueWarn := warned, lastRestart := restarted } :=
  ⟨h.nodup, h.fresh, h.running, h.active, h.busy, h.each⟩

lemma newServer_safe (cfg : Config) (hahe : b.ahead p = 0) : ServerSafe cfg b p (newServer cfg) where
  length_eq := length_replicate
  room := show 0 < rbufSize by decide
  occupied_le := by simp [newServer, Server.occupied]
  pending_le := Nat.zero_le _
  pending_eq := fun _ => by simp [newServer, Server.occupied, hahe]

lemma Busy.ahead_eq_zero (h : b.server ≠ some p) : b.ahead p = 0 := by
  cases b with
  | replying q n => simpa [Busy.ahead, Busy.server] using h
  | _ => rfl

lemma Busy.dying_eq_false (h : b.server ≠ some p) : b.dying p = false := by
  cases b with
  | freeing q i => simpa [Busy.dying, Busy.server] using h
  | ending q i => simpa [Busy.dying, Busy.server] using h
  | _ => rfl

/-- A server that no handler runs for does not notice which handler runs. -/
theorem ServerSafe.other {b' : Busy} (h : ServerSafe cfg b p srv) (hb : b.server ≠ some p) (hb' : b'.server ≠ some p) :
    ServerSafe cfg b' p srv where
  length_eq := h.length_eq
  room := h.room
  occupied_le := h.occupied_le
  pending_le := h.pending_le
  pending_eq := fun _ => by
    rw [h.pending_eq (Busy.dying_eq_false hb), Busy.ahead_eq_zero hb, Busy.ahead_eq_zero hb']

lemma ServerSafe.change {c : Busy} {srv' : Server} (h : ServerSafe cfg b p srv) (hreq : srv'.requests = srv.requests)
    (hpending : srv'.pending = srv.pending) (hroom : srv'.rbuf.length < rbufSize)
    (hc : c.dying p = true ∨ b.dying p = false ∧ c.ahead p = b.ahead p) : ServerSafe cfg c p srv' := by
  have hocc : srv'.occupied = srv.occupied := by rw [Server.occupied, hreq, Server.occupied]
  refine ⟨hreq ▸ h.length_eq, hroom, ?_, hpending ▸ h.pending_le, fun hdyi => ?_⟩
  · rw [hocc, hpending]
    exact h.occupied_le
  · obtain hyes | ⟨hno, hahe⟩ := hc
    · rw [hyes] at hdyi
      cases hdyi
    · rw [hocc, hpending, hahe]
      exact h.pending_eq hno

lemma Safe.move (h : Safe cfg s) (hp : p ∈ s.servers) (hsrv : ServerSafe cfg b p srv)
    (hoth : ∀ q, s.busy.server = some q → q = p) (hb : ∀ q, b.server = some q → q = p) :
    Safe cfg { s.put p srv with busy := b } where
  nodup := h.nodup
  fresh := h.fresh
  running := h.running
  active := h.active
  busy := fun q hq => hb q hq ▸ hp
  each := by
    intro q hq
    by_cases hqp : q = p
    · subst hqp
      simpa using hsrv
    · have hkept := (h.each q hq).other (fun hs => hqp (hoth q hs)) fun hs => hqp (hb q hs)
      exact (put_of_ne s srv hqp).symm ▸ hkept

lemma Safe.put (h : Safe cfg s) (hsrv : ServerSafe cfg s.busy p srv) : Safe cfg (s.put p srv) where
  nodup := h.nodup
  fresh := h.fresh
  running := h.running
  active := h.active
  busy := h.busy
  each := by
    intro q hq
    by_cases hqp : q = p
    · subst hqp
      rw [put_self]
      exact hsrv
    · exact (put_of_ne s srv hqp).symm ▸ h.each q hq

/-! ## Dispatching -/

lemma leastLoaded_mem {server : ℕ → Server} {selected : Option ℕ} {ps : List ℕ}
    (h : leastLoaded server selected ps = some p) : selected = some p ∨ p ∈ ps := by
  fun_induction leastLoaded server selected ps with
  | case1 => exact .inl h
  | case2 q ps hq =>
    cases h
    exact .inr mem_cons_self
  | case3 q ps hq ih =>
    rcases ih h with heq | hmem
    · cases heq
      exact .inr mem_cons_self
    · exact .inr (mem_cons_of_mem _ hmem)
  | case4 q q' ps hle ih => exact (ih h).imp_right (mem_cons_of_mem _)
  | case5 q q' ps hle =>
    cases h
    exact .inr mem_cons_self

lemma getFirstAvailable_eq_some (h : getFirstAvailable cfg s = some p) :
    p ∈ s.servers ∧ (s.server p).pending < slotCount cfg := by
  unfold getFirstAvailable at h
  split_ifs at h
  cases hlea : leastLoaded s.server none s.servers with
  | none => simp [hlea] at h
  | some q =>
    simp only [hlea, ite_none_left_eq_some, some.injEq] at h
    obtain ⟨hroom, rfl⟩ := h
    exact ⟨(leastLoaded_mem hlea).resolve_left (by simp), by omega⟩

@[simp] lemma take_rbuf (cfg : Config) (srv : Server) (slot : ℕ) (r : Request) :
    (srv.take cfg slot r).rbuf = srv.rbuf := by
  unfold Server.take Server.send
  split_ifs
  · rfl
  · rfl

lemma ServerSafe.exists_free (h : ServerSafe cfg b p srv) (hroom : srv.pending < slotCount cfg) :
    ∃ i, srv.requests.findIdx? isNone = some i ∧ srv.requests[i]? = some none := by
  apply exists_free_slot
  have hle : srv.requests.reduceOption.length ≤ srv.pending := h.occupied_le
  rw [h.length_eq]
  omega

lemma ServerSafe.take (h : ServerSafe cfg b p srv) (hroom : srv.pending < slotCount cfg) {slot : ℕ}
    (hfree : srv.requests[slot]? = some none) (r : Request) : ServerSafe cfg b p (srv.take cfg slot r) := by
  have hocc : (srv.take cfg slot r).occupied = srv.occupied + 1 := by
    simpa [Server.occupied, Server.take] using (perm_set_some hfree r).length_eq
  refine ⟨by simpa [Server.take] using h.length_eq, by simpa using h.room, ?_, hroom, fun hdyi => ?_⟩
  · have hle := h.occupied_le
    show (srv.take cfg slot r).occupied ≤ srv.pending + 1
    omega
  · have heq := h.pending_eq hdyi
    show srv.pending + 1 = (srv.take cfg slot r).occupied + b.ahead p
    omega

/-! ## Opening and freeing servers -/

lemma Safe.addServer (h : Safe cfg s) : Safe cfg (s.addServer cfg) := by
  have hnew : s.next ∉ s.servers := fun hmem => (h.fresh s.next hmem).false
  have hbusy : s.busy.server ≠ some s.next := fun hb => hnew (h.busy s.next hb)
  constructor
  · exact List.Nodup.append h.nodup (nodup_singleton _) (by simpa using hnew)
  · intro p hp
    have hlt : p < s.next ∨ p = s.next := by simpa using (mem_append.mp hp).imp_left (h.fresh p)
    show p < s.next + 1
    omega
  · simp [State.addServer, h.running]
  · simp [State.addServer, h.active]
  · intro p hp
    exact mem_append_left _ (h.busy p hp)
  · intro p hp
    by_cases hpn : p = s.next
    · subst hpn
      have hself : (s.addServer cfg).server s.next = newServer cfg := put_self s s.next _
      rw [hself]
      exact newServer_safe cfg (Busy.ahead_eq_zero hbusy)
    · have hold : (s.addServer cfg).server p = s.server p := put_of_ne s _ hpn
      have hmem : p ∈ s.servers := by simpa [State.addServer, hpn] using hp
      rw [hold]
      exact h.each p hmem

lemma Safe.remove (h : Safe cfg s) (hbusy : s.busy.server = some p) :
    Safe cfg (s.removeServer p) ∧ 0 ≤ s.nRunning - 1 := by
  have hp := h.busy p hbusy
  have hlen : (s.servers.erase p).length = s.servers.length - 1 := length_erase_of_mem hp
  have hpos : 0 < s.servers.length := length_pos_of_mem hp
  refine ⟨⟨h.nodup.erase p, fun q hq => h.fresh q (mem_of_mem_erase hq), ?_, ?_, fun _ hq => (nomatch hq), ?_⟩, ?_⟩
  · have hrunn := h.running
    simp only [State.removeServer]
    omega
  · have hact := h.active
    simp only [State.removeServer]
    omega
  · intro q hq
    have hne : q ≠ p := (h.nodup.mem_erase_iff.mp hq).1
    refine (h.each q (mem_of_mem_erase hq)).other ?_ fun hidle => (nomatch hidle)
    rw [hbusy, ne_eq, some.injEq]
    exact hne.symm
  · have hrunn := h.running
    omega

lemma checked_pos {q : Prop} [Decidable q] (h : q) : checked q = .ok () := if_pos h

lemma ServerSafe.set_none_dying (h : ServerSafe cfg b p srv) (i : ℕ) {c : Busy} (hdyi : c.dying p = true) :
    ServerSafe cfg c p { srv with requests := srv.requests.set i none } := by
  refine ⟨by simpa using h.length_eq, h.room, ?_, h.pending_le, by simp [hdyi]⟩
  have hle := h.occupied_le
  unfold Server.occupied at hle ⊢
  refine le_trans ?_ hle
  simp only [reduceOption_length_eq]
  -- one slot is free afterwards, whatever was in it
  by_cases hi : i < srv.requests.length
  · cases hslot : srv.requests[i] with
    | none => rw [← hslot, set_getElem_self]
    | some r =>
      have hperm := (perm_set_none (List.getElem?_eq_some_iff.mpr ⟨hi, hslot⟩)).length_eq
      simp only [reduceOption_length_eq, length_cons] at hperm
      omega
  · rw [set_eq_of_length_le (by omega)]

/-! ## Reading replies -/

lemma requestOn_eq_some {i : ℤ} {k : ℕ} (h : requestOn cfg srv i = some (k, r)) : srv.requests[k]? = some (some r) := by
  unfold requestOn at h
  split_ifs at h
  cases hslot : srv.requests[i.toNat]? with
  | none => simp [hslot] at h
  | some slot =>
    cases slot with
    | none => simp [hslot] at h
    | some r' =>
      simp only [hslot] at h
      obtain ⟨rfl, rfl⟩ := h
      exact hslot

/-- A reply frees a slot before it is counted. -/
theorem ServerSafe.set_none {i n : ℕ} (h : ServerSafe cfg (.reading p) p srv) (hslot : srv.requests[i]? = some (some r)) :
    ServerSafe cfg (.replying p n) p { srv with requests := srv.requests.set i none } := by
  have hocc : srv.occupied = { srv with requests := srv.requests.set i none }.occupied + 1 := (perm_set_none hslot).length_eq
  have hpending : srv.pending = srv.occupied := h.pending_eq rfl
  refine ⟨by simpa using h.length_eq, h.room, ?_, h.pending_le, fun _ => ?_⟩
  · show { srv with requests := srv.requests.set i none }.occupied ≤ srv.pending
    omega
  · simp only [Busy.ahead, if_true]
    omega

lemma ServerSafe.replied {n : ℕ} (h : ServerSafe cfg (.replying p n) p srv) :
    ServerSafe cfg (.reading p) p { srv with pending := srv.pending - 1, rbuf := srv.rbuf.drop n } := by
  have hpending : srv.pending = srv.occupied + 1 := by simpa [Busy.ahead] using h.pending_eq rfl
  have hroom := h.room
  have hle := h.pending_le
  refine ⟨h.length_eq, ?_, ?_, ?_, fun _ => ?_⟩
  · simp only [length_drop]
    omega
  · show srv.occupied ≤ srv.pending - 1
    omega
  · show srv.pending - 1 ≤ slotCount cfg
    omega
  · show srv.pending - 1 = srv.occupied + 0
    omega

lemma Safe.init (cfg : Config) : Safe cfg (.init cfg) where
  nodup := nodup_nil
  fresh := fun _ hp => absurd hp not_mem_nil
  running := rfl
  active := rfl
  busy := fun _ hp => nomatch hp
  each := fun _ hp => absurd hp not_mem_nil

end SquidVideoCache.Helper
