import SquidVideoCache.Helper.Pending

/-!
# Progress of the helpers

Requests wait in the queue only while every server is full, and a handler that runs comes to its end.
-/

namespace SquidVideoCache.Helper
open Lib List

variable {cfg : Config} {s s' : State} {p : ℕ} {r : Request} {srv : Server}

/-! ## The queue -/

/-- While requests wait in the queue, the servers are full but for the one whose handler runs. -/
def Loaded (cfg : Config) (s : State) : Prop :=
  s.queue ≠ [] → ∀ q ∈ s.servers, s.busy.server ≠ some q → slotCount cfg ≤ (s.server q).pending

/-- A server that is full is chosen only if all are. -/
theorem leastLoaded_full {server : ℕ → Server} {selected : Option ℕ} {ps : List ℕ} {n q : ℕ}
    (h : leastLoaded server selected ps = some q) (hfull : n ≤ (server q).pending)
    (hle : ∀ p, selected = some p ∨ p ∈ ps → (server p).pending ≤ n) :
    ∀ p, selected = some p ∨ p ∈ ps → n ≤ (server p).pending := by
  fun_induction leastLoaded server selected ps with
  | case1 selected =>
    intro p hp
    have heq : selected = some p := by simpa using hp
    rw [h, Option.some.injEq] at heq
    rwa [← heq]
  | case2 p ps hzero =>
    cases h
    intro p' _
    omega
  | case3 p ps hzero ih =>
    have hrest := ih h fun p' hp' => hle p' (by simpa [eq_comm] using hp')
    intro p' hp'
    exact hrest p' (by simpa [eq_comm] using hp')
  | case4 q' p ps hmin ih =>
    have hrest := ih h fun p' hp' => hle p' (hp'.imp_right (mem_cons_of_mem _))
    have hq' := hrest q' (.inl rfl)
    intro p' hp'
    rcases hp' with heq | hp'
    · exact hrest p' (.inl heq)
    · rcases mem_cons.mp hp' with rfl | hp'
      · omega
      · exact hrest p' (.inr hp')
  | case5 q' p ps hmin =>
    cases h
    have hq' := hle q' (.inl rfl)
    omega

lemma Safe.full_of_none (h : Safe cfg s) (hnone : getFirstAvailable cfg s = none) :
    ∀ p ∈ s.servers, slotCount cfg ≤ (s.server p).pending := by
  intro p hp
  unfold getFirstAvailable at hnone
  have hpos : 0 < s.servers.length := length_pos_of_mem hp
  have hrunn := h.running
  rw [if_neg (by omega)] at hnone
  cases hlea : leastLoaded s.server none s.servers with
  | none =>
    -- a list with an element leaves some server selected
    cases hser : s.servers with
    | nil => simp [hser] at hp
    | cons q ps =>
      have hsome : ∀ (ps : List ℕ) (q : ℕ), (leastLoaded s.server (some q) ps).isSome := by
        intro ps
        induction ps with
        | nil => exact fun _ => rfl
        | cons q' ps ih =>
          intro q
          unfold leastLoaded
          split_ifs
          · exact ih q
          · rfl
      rw [hser] at hlea
      unfold leastLoaded at hlea
      split_ifs at hlea
      have hq := hsome ps q
      simp [hlea] at hq
  | some q =>
    have hfull : slotCount cfg ≤ (s.server q).pending := by simpa [hlea] using hnone
    exact leastLoaded_full hlea hfull (fun p' hp' => (h.each p' (by simpa using hp')).pending_le) p (.inr hp)

lemma Loaded.move {b : Busy} (h : Loaded cfg s) (hoth : ∀ q, s.busy.server = some q → q = p) (hb : b.server = some p)
    (srv : Server) : Loaded cfg { s.put p srv with busy := b } := by
  intro hne q hq hqb
  have hqp : q ≠ p := by
    rintro rfl
    exact hqb hb
  rw [put_of_ne s srv hqp]
  exact h hne q hq fun hs => hqp (hoth q hs)

/-! ## The handlers -/

/-- Lets the handler that runs go on for a number of turns, with nothing else in between. -/
def turns (cfg : Config) (forks : ℕ → Bool) (now : ℤ) : ℕ → State → Outcome State
  | 0, s => .ok s
  | n + 1, s => turn cfg s forks now >>= turns cfg forks now n

/-- What is left to do of a handler: two turns for each byte in the buffer or for each slot. -/
def remaining (cfg : Config) (s : State) : ℕ :=
  match s.busy with
  | .idle => 0
  | .reading p => 2 * (s.server p).rbuf.length + 1
  | .replying p n => 2 * ((s.server p).rbuf.length - n) + 2
  | .freeing _ i => 2 * (slotCount cfg - i) + 1
  | .ending _ i => max 2 (2 * (slotCount cfg - i))

lemma firstLine_eq_some {rbuf line : List UInt8} {n : ℕ} (h : firstLine rbuf = some (line, n)) : 0 < n ∧ n ≤ rbuf.length := by
  unfold firstLine at h
  cases ht : (cString rbuf).findIdx? (· = newline) with
  | none => simp [ht] at h
  | some t =>
    simp only [ht, Option.some.injEq, Prod.mk.injEq] at h
    have hlt : t < (cString rbuf).length := (findIdx?_eq_some_iff_getElem.mp ht).1
    have hle : (cString rbuf).length ≤ rbuf.length := (List.takeWhile_prefix _).length_le
    omega

end SquidVideoCache.Helper
