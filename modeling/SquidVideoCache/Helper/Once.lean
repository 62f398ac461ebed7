import SquidVideoCache.Helper.Kept

/-!
# Every callback once

A handler changes its own server and goes on, gives up a request of the server for a callback, or
frees it.
-/

namespace SquidVideoCache.Helper
open Lib Function List Option Prod

variable {cfg : Config} {s s' : State} {p : ℕ} {r : Request} {srv : Server} {b : Busy} {hand : List Request}
  {i : ℕ} {es : List Event}

/-! ## The handlers -/

/-- What `helperServerFree` has passed is free, and the slot it runs a callback for is occupied. -/
structure Freed (s : State) : Prop where
  cleared : ∀ p i, s.busy = .freeing p i ∨ s.busy = .ending p i → ∀ j < i, (s.server p).requests[j]? = some none
  current : ∀ p i, s.busy = .ending p i → ∃ r, (s.server p).requests[i]? = some (some r)

/-- The handler of `p` goes on as `c`, its server has become `srv`, and the requests `given` have left it. -/
structure Goes (cfg : Config) (s : State) (p : ℕ) (c : Busy) (srv : Server) (given : List Request) : Prop where
  mem : p ∈ s.servers
  only : ∀ q, s.busy.server = some q → q = p
  next : ∀ q, c.server = some q → q = p
  safe : ServerSafe cfg c p srv
  perm : Freed s → (given ++ c.waiting p srv).Perm (s.busy.waiting p (s.server p))
  cleared : Freed s → ∀ i, c = .freeing p i ∨ c = .ending p i → ∀ j < i, srv.requests[j]? = some none
  current : ∀ i, c = .ending p i → ∃ r, srv.requests[i]? = some (some r)

lemma Kept.goes {c : Busy} {given : List Request} (hsafe : Safe cfg s) (h : Kept hand s)
    (g : Goes cfg s p c srv given) : Kept (given ++ hand) { s.put p srv with busy := c } := by
  have hfre : Freed s := ⟨h.cleared, h.current⟩
  refine ⟨fun a => ?_, ?_, ?_, h.unique, h.serial_lt, h.dropped⟩
  · have hacc := h.accounts a
    have hput := count_put hsafe.nodup g.mem srv (fun q hq => waiting_other g.only g.next hq _) a
    have hcou := (g.perm hfre).count_eq a
    rw [count_append] at hcou ⊢
    show given.count a + hand.count a + (onServers c (s.put p srv).server s.servers).count a +
      (s.called.map fst).count a + s.dropped.count a = s.submitted.count a
    omega
  · intro q i hq j hj
    have hqp : q = p := by
      rcases hq with hq | hq
      · exact g.next q (by rw [show c = .freeing q i from hq]; rfl)
      · exact g.next q (by rw [show c = .ending q i from hq]; rfl)
    subst hqp
    rw [put_self]
    exact g.cleared hfre i hq j hj
  · intro q i hq
    have hqp : q = p := g.next q (by rw [show c = .ending q i from hq]; rfl)
    subst hqp
    rw [put_self]
    exact g.current i hq

lemma Kept.call (h : Kept (r :: hand) s) (reply : Option (List UInt8)) : Kept hand (s.call r reply) := by
  refine ⟨fun a => ?_, h.cleared, h.current, h.unique, h.serial_lt, h.dropped⟩
  have hacc := h.accounts a
  simp only [State.call, map_append, map_cons, map_nil, count_append, count_cons, count_nil]
    at hacc ⊢
  omega

/-- A turn of the handler of `p`, which goes on as `c`. -/
inductive Turned (cfg : Config) (s : State) (p : ℕ) (c : Busy) : State → Prop
  | goes {srv : Server} (g : Goes cfg s p c srv []) : Turned cfg s p c { s.put p srv with busy := c }
  | calls {srv : Server} {r : Request} (g : Goes cfg s p c srv [r]) (reply : Option (List UInt8)) :
      Turned cfg s p c (State.call { s.put p srv with busy := c } r reply)
  | drops {srv : Server} {r : Request} (g : Goes cfg s p c srv [r]) (hinvalid : r.data ∈ s.invalid) :
      Turned cfg s p c (State.drop { s.put p srv with busy := c } r)

section
variable {c : Busy} {given : List Request}

lemma Turned.safe_kept (h : Safe cfg s) (t : Turned cfg s p c s') :
    Safe cfg s' ∧ (Kept s.queue s → Kept s'.queue s') ∧ s'.busy = c ∧ s'.queue = s.queue := by
  cases t with
  | goes g => exact ⟨h.move g.mem g.safe g.only g.next, fun hk => hk.goes h g, rfl, rfl⟩
  | calls g reply =>
    exact ⟨(h.move g.mem g.safe g.only g.next).books .., fun hk => (hk.goes h g).call reply, rfl, rfl⟩
  | drops g hinvalid =>
    exact ⟨(h.move g.mem g.safe g.only g.next).books .., fun hk => (hk.goes h g).drop hinvalid, rfl, rfl⟩

lemma Turned.sound (h : Safe cfg s) (hc : c.server = some p) (t : Turned cfg s p c s') : Sound cfg True s s' := by
  obtain ⟨hsafe, hkept, -⟩ := t.safe_kept h
  refine ⟨hsafe, fun hloa => ?_, fun _ => hkept⟩
  cases t with
  | goes g | calls g | drops g => exact hloa.move g.only hc _

/-- A handler that does not free the server. -/
def Busy.reads : Busy → ℕ → Prop
  | .idle, _ => True
  | .reading q, p | .replying q _, p => q = p
  | _, _ => False

lemma Busy.reads_facts (h : b.reads p) : (∀ q, b.server = some q → q = p) ∧
    (∀ srv, b.waiting p srv = srv.requests.reduceOption) ∧ ∀ i, ¬ (b = .freeing p i ∨ b = .ending p i) := by
  cases b with
  | idle => exact ⟨fun _ hq => (nomatch hq), fun _ => rfl, by simp⟩
  | reading q | replying q n =>
    cases h
    exact ⟨fun _ hq => (some.inj hq).symm, fun _ => rfl, by simp⟩
  | freeing q i | ending q i => cases h

lemma goes_reads (hp : p ∈ s.servers) (hb : s.busy.reads p) (hc : c.reads p)
    (hsafe : ServerSafe cfg c p srv) (hperm : (given ++ srv.requests.reduceOption).Perm (s.server p).requests.reduceOption) :
    Goes cfg s p c srv given := by
  obtain ⟨honly, hwai, -⟩ := Busy.reads_facts hb
  obtain ⟨hnext, hwai', hnot⟩ := Busy.reads_facts hc
  refine ⟨hp, honly, hnext, hsafe, fun _ => ?_, fun _ i hi => absurd hi (hnot i), fun i hi => absurd (.inr hi) (hnot i)⟩
  rw [hwai, hwai']
  exact hperm

lemma goes_freeing {i : ℕ} (hp : p ∈ s.servers) (hb : s.busy = .freeing p i ∨ s.busy = .ending p i)
    (hsafe : ServerSafe cfg (.freeing p (i + 1)) p srv) (hslot : Freed s → srv.requests[i]? = some none)
    (hbef : ∀ j < i, srv.requests[j]? = (s.server p).requests[j]?)
    (hperm : Freed s → (given ++ srv.requests.reduceOption).Perm (s.busy.waiting p (s.server p))) :
    Goes cfg s p (.freeing p (i + 1)) srv given := by
  have hser : s.busy.server = some p := by
    rcases hb with hb | hb
    · rw [hb]; rfl
    · rw [hb]; rfl
  refine ⟨hp, fun q hq => some.inj (hq.symm.trans hser), fun q hq => (some.inj hq).symm, hsafe, hperm, ?_, by simp⟩
  intro hfre k hk j hj
  have hk : i + 1 = k := by simpa using hk
  rcases (show j = i ∨ j < i by omega) with rfl | hlt
  · exact hslot hfre
  · rw [hbef j hlt]
    exact hfre.cleared p i hb j hlt

end

lemma getElem?_set_none {requests : List (Option Request)} {j : ℕ} (hj : j < i) :
    (requests.set i none)[j]? = requests[j]? := getElem?_set_ne (by omega)

section

variable (h : Safe cfg s)

include h

lemma Safe.slotFreed (hbusy : s.busy = .ending p i) :
    Turned cfg s p (.freeing p (i + 1)) (Helper.slotFreed s p i) := by
  have hp := h.busy p (by rw [hbusy]; rfl)
  refine .goes (goes_freeing hp (.inr hbusy) ((h.each p hp).set_none_dying i (by simp [Busy.dying])) (fun hfre => ?_)
    (fun _ => getElem?_set_none) fun _ => ?_)
  · obtain ⟨r, hr⟩ := hfre.current p i hbusy
    have hi : i < (s.server p).requests.length := (List.getElem?_eq_some_iff.mp hr).1
    simp [hi]
  · rw [hbusy]
    simp [Busy.waiting]

/-- A turn of the loop of `helperServerFree` brings it nearer to its end. -/
theorem Safe.freeTurn (hbusy : s.busy = .freeing p i) (forks : ℕ → Bool) (now : ℤ) :
    Ends (· = .fatal) (fun s' => Sound cfg True s s' ∧ remaining cfg s' < remaining cfg s)
      (Helper.freeTurn cfg s p i forks now) := by
  have hser : s.busy.server = some p := by rw [hbusy]; rfl
  have hp := h.busy p hser
  have hsrv := h.each p hp
  have hlen := hsrv.length_eq
  have hrem : remaining cfg s = 2 * (slotCount cfg - i) + 1 := by simp [remaining, hbusy]
  unfold Helper.freeTurn
  cases hslot : (s.server p).requests[i]? with
  | none =>
    refine (h.gone hbusy hslot forks now).mono fun s' hs' => ⟨hs'.1, ?_⟩
    have hzero : remaining cfg s' = 0 := by simp [remaining, hs'.2]
    omega
  | some slot =>
    have hi : i < (s.server p).requests.length := (List.getElem?_eq_some_iff.mp hslot).1
    have hnext : 2 * (slotCount cfg - (i + 1)) + 1 < remaining cfg s := by omega
    cases slot with
    | none =>
      have g : Goes cfg s p (.freeing p (i + 1)) (s.server p) [] := by
        refine goes_freeing hp (.inl hbusy) (hsrv.change rfl rfl hsrv.room (.inl (by simp [Busy.dying]))) (fun _ => hslot) (fun _ _ => rfl) ?_
        rw [hbusy]
        exact fun _ => .refl _
      have ht := (Turned.goes g).sound h rfl
      rw [State.put, update_eq_self] at ht
      exact ⟨ht, hnext⟩
    | some r =>
      have hgiv := (perm_set_none hslot).symm
      refine ends_ite (fun hinvalid => ?_) fun _ => ?_
      · have g : Goes cfg s p (.freeing p (i + 1)) _ [r] := goes_freeing hp (.inl hbusy)
          (hsrv.set_none_dying i (by simp [Busy.dying])) (fun _ => by simp [hi]) (fun _ => getElem?_set_none)
          (by rw [hbusy]; exact fun _ => hgiv)
        exact ⟨(Turned.drops g hinvalid).sound h rfl, hnext⟩
      · -- the callback runs while the request is still in its slot
        have g : Goes cfg s p (.ending p i) (s.server p) [r] := by
          refine ⟨hp, fun q hq => some.inj (hq.symm.trans hser), fun q hq => (some.inj hq).symm,
            hsrv.change rfl rfl hsrv.room (.inl (by simp [Busy.dying])), fun _ => ?_, fun hfre k hk j hj => ?_, fun k hk => ?_⟩
          · rw [hbusy]
            simpa [Busy.waiting] using hgiv
          · have hk : i = k := by simpa using hk
            exact hfre.cleared p i (.inl hbusy) j (by omega)
          · have hk : i = k := by simpa using hk
            exact ⟨r, hk ▸ hslot⟩
        have ht := (Turned.calls g none).sound h rfl
        rw [State.put, update_eq_self] at ht
        refine ⟨ht, ?_⟩
        show max 2 (2 * (slotCount cfg - i)) < remaining cfg s
        omega

/-! ## Reading replies -/

lemma Safe.replied {n : ℕ} (hbusy : s.busy = .replying p n) :
    Turned cfg s p (.reading p) (Helper.replied s p n) := by
  have hp := h.busy p (by rw [hbusy]; rfl)
  have hsrv := h.each p hp
  rw [hbusy] at hsrv
  exact .goes (goes_reads hp (by rw [hbusy]; rfl) rfl hsrv.replied (.refl _))

lemma Safe.readTurn (hbusy : s.busy = .reading p) :
    Ends (fun _ => False) (fun s' => Sound cfg True s s' ∧ remaining cfg s' < remaining cfg s) (Helper.readTurn cfg s p) := by
  have hp := h.busy p (by rw [hbusy]; rfl)
  have hrea : s.busy.reads p := by rw [hbusy]; rfl
  have hsrv := h.each p hp
  rw [hbusy] at hsrv
  have hrem : remaining cfg s = 2 * (s.server p).rbuf.length + 1 := by simp [remaining, hbusy]
  unfold Helper.readTurn
  cases hline : firstLine (s.server p).rbuf with
  | none =>
    have g : Goes cfg s p .idle (s.server p) [] :=
      goes_reads hp hrea trivial (hsrv.change rfl rfl hsrv.room (.inr ⟨rfl, rfl⟩)) (.refl _)
    have hidle := (Turned.goes g).safe_kept h
    rw [State.put, update_eq_self] at hidle
    refine (hidle.1.kick rfl _).mono fun s' hs' =>
      ⟨⟨hs'.1, fun _ => hs'.2.2.1, fun _ hk => hs'.2.2.2 (hidle.2.1 hk)⟩, ?_⟩
    have hzero : remaining cfg s' = 0 := by simp [remaining, hs'.2.1]
    omega
  | some found =>
    obtain ⟨line, n⟩ := found
    obtain ⟨hpos, hle⟩ := firstLine_eq_some hline
    have hroom := hsrv.room
    simp only
    cases hreq : requestOn cfg (s.server p) (channel cfg line).1 with
    | none =>
      have g : Goes cfg s p (.reading p) { s.server p with rbuf := (s.server p).rbuf.drop n } [] := by
        refine goes_reads hp hrea rfl (hsrv.change rfl rfl ?_ (.inr ⟨rfl, rfl⟩)) (.refl _)
        simp only [length_drop]
        omega
      have ht := (Turned.goes g).sound h rfl
      rw [← hbusy] at ht
      refine ⟨ht, ?_⟩
      simp only [remaining, hbusy, State.put, update_self, length_drop]
      omega
    | some found =>
      obtain ⟨i, r⟩ := found
      have hslot := requestOn_eq_some hreq
      have hgiv := (perm_set_none hslot).symm
      refine ends_ite (fun hinvalid => ?_) fun _ => ?_
      · have g : Goes cfg s p (.reading p) _ [r] := goes_reads hp hrea rfl (hsrv.set_none (n := n) hslot).replied hgiv
        have ht := (Turned.drops g hinvalid).sound h rfl
        have hlat : remaining cfg (Helper.replied ((s.clearSlot p i).drop r) p n) < remaining cfg s := by
          rw [hrem]
          simp only [remaining, Helper.replied, State.put, State.drop, State.clearSlot, update_self, length_drop]
          omega
        refine ⟨?_, hlat⟩
        simpa [Helper.replied, State.clearSlot, State.drop, State.put] using ht
      · have g : Goes cfg s p (.replying p n) _ [r] := goes_reads hp hrea rfl (hsrv.set_none hslot) hgiv
        refine ⟨(Turned.calls g _).sound h rfl, ?_⟩
        simp only [remaining, hbusy, State.put, State.call, State.clearSlot, update_self]
        omega

lemma Safe.read (hidle : s.busy = .idle) (hp : p ∈ s.servers) (input : List UInt8) :
    Ends (fun _ => False) (Sound cfg True s) (helperHandleRead s p input) := by
  have hsrv := h.each p hp
  have hrea : s.busy.reads p := by rw [hidle]; trivial
  rw [hidle] at hsrv
  unfold helperHandleRead
  simp only [checked_pos hsrv.room]
  refine ends_ite (fun _ => ?_) fun _ => ?_
  · have g : Goes cfg s p (.freeing p 0) (s.server p) [] := by
      refine ⟨hp, (Busy.reads_facts hrea).1, fun q hq => (some.inj hq).symm,
        hsrv.change rfl rfl hsrv.room (.inl (by simp [Busy.dying])), fun _ => ?_, fun _ k hk j hj => ?_, by simp⟩
      · rw [hidle]
        exact .refl _
      · have hk : 0 = k := by simpa using hk
        omega
    have ht := (Turned.goes g).sound h rfl
    rwa [State.put, update_eq_self] at ht
  · have g : Goes cfg s p (.reading p) ((s.server p).receive input) [] := by
      refine goes_reads hp hrea rfl (hsrv.change rfl rfl ?_ (.inr ⟨rfl, rfl⟩)) (.refl _)
      have hroom := hsrv.room
      unfold Server.receive
      split_ifs
      · exact show 0 < rbufSize by decide
      · rw [length_append, length_take]
        omega
    exact (Turned.goes g).sound h rfl

lemma Safe.written (hidle : s.busy = .idle) (hp : p ∈ s.servers) (ok : Bool) :
    Sound cfg True s (helperDispatchDone s p ok) := by
  have hsrv := h.each p hp
  have hsame : ∀ srv : Server, srv.requests = (s.server p).requests → srv.pending = (s.server p).pending →
      srv.rbuf = (s.server p).rbuf → Sound cfg True s (s.put p srv) := by
    intro srv hreq hpending hrbuf
    have hrea : s.busy.reads p := by rw [hidle]; trivial
    have g : Goes cfg s p s.busy srv [] :=
      goes_reads hp hrea hrea (hsrv.change hreq hpending (hrbuf ▸ hsrv.room) (.inr ⟨by rw [hidle]; rfl, rfl⟩))
        (by rw [hreq]; exact .refl _)
    obtain ⟨hsafe, hkept, -⟩ := (Turned.goes g).safe_kept h
    refine ⟨hsafe, fun hloa hne q hq hqb => ?_, fun _ => hkept⟩
    have hfull := hloa hne q hq hqb
    by_cases hqp : q = p
    · subst hqp
      rwa [put_self, hpending]
    · rwa [put_of_ne s srv hqp]
  unfold helperDispatchDone
  split_ifs
  · cases (s.server p).wqueue with
    | some text => exact hsame _ rfl rfl rfl
    | none => exact hsame _ rfl rfl rfl
  · exact ⟨h, fun hl => hl, fun _ hk => hk⟩

/-! ## Runs -/

lemma Safe.turn (hbusy : s.busy ≠ .idle) (forks : ℕ → Bool) (now : ℤ) :
    Ends (· = .fatal) (fun s' => Sound cfg True s s' ∧ remaining cfg s' < remaining cfg s) (Helper.turn cfg s forks now) := by
  unfold Helper.turn
  cases hb : s.busy with
  | idle => exact absurd hb hbusy
  | reading p => exact (h.readTurn hb).weaken fun _ hfal => hfal.elim
  | replying p n =>
    refine ⟨(h.replied hb).sound h rfl, ?_⟩
    simp only [remaining, hb, Helper.replied, State.put, update_self, length_drop]
    omega
  | freeing p i => exact h.freeTurn hb forks now
  | ending p i =>
    refine ⟨(h.slotFreed hb).sound h rfl, ?_⟩
    simp only [remaining, hb, Helper.slotFreed]
    omega

lemma Safe.step {e : Event} (he : enabled s e) :
    Ends (· = .fatal) (Sound cfg (Helper.kept cfg s e) s) (Helper.step cfg s e) := by
  cases e with
  | start forks now =>
    have hidle : s.busy = .idle := by simpa [enabled] using he
    exact ((h.openServers hidle forks now).weaken fun _ hfal => hfal.elim).mono fun _ hs' => hs'.1.of_true
  | submit data buf now => exact h.submit he
  | read p input =>
    have hpre : s.busy = .idle ∧ p ∈ s.servers := by simpa [enabled] using he
    exact ((h.read hpre.1 hpre.2 input).weaken fun _ hfal => hfal.elim).mono fun _ hs' => hs'.of_true
  | written p ok =>
    have hpre : s.busy = .idle ∧ p ∈ s.servers := by simpa [enabled] using he
    exact (h.written hpre.1 hpre.2 ok).of_true
  | invalidate data =>
    exact ⟨h.books .., fun hl => hl, fun _ hk =>
      ⟨hk.accounts, hk.cleared, hk.current, hk.unique, hk.serial_lt, fun r hr => mem_cons_of_mem _ (hk.dropped r hr)⟩⟩
  | turn forks now =>
    have hbusy : s.busy ≠ .idle := by simpa [enabled] using he
    exact (h.turn hbusy forks now).mono fun _ hs' => hs'.1.of_true

end

lemma Kept.init (cfg : Config) : Kept [] (State.init cfg) where
  accounts := fun _ => rfl
  cleared := fun _ _ hbusy => by simp [State.init] at hbusy
  current := fun _ _ hbusy => by simp [State.init] at hbusy
  unique := nodup_nil
  serial_lt := fun _ hr => absurd hr not_mem_nil
  dropped := fun _ hr => absurd hr not_mem_nil

lemma safe_of_reached {cond : State → Event → Bool} (h : (machine cfg).Reached cond es s) :
    Safe cfg s ∧ Loaded cfg s := by
  induction h with
  | init => exact ⟨.init cfg, fun hne => absurd rfl hne⟩
  | next e _ he _ hstep ih =>
    have hsou := (ih.1.step he).ok_of_eq hstep
    exact ⟨hsou.safe, hsou.loaded ih.2⟩

lemma kept_of_reached (h : (machine cfg).Reached (kept cfg) es s) : Kept s.queue s := by
  induction h with
  | init => exact .init cfg
  | next e hs he hc hstep ih => exact (((safe_of_reached hs).1.step he).ok_of_eq hstep).kept hc ih

/-- A handler comes to its end, or the process does. -/
theorem Safe.settles (h : Safe cfg s) (forks : ℕ → Bool) (now : ℤ) :
    ∃ n, Ends (· = .fatal) (fun s' => s'.busy = .idle) (turns cfg forks now n s) := by
  induction hn : remaining cfg s using Nat.strongRecOn generalizing s with
  | ind m ih =>
    by_cases hidle : s.busy = .idle
    · exact ⟨0, hidle⟩
    · have hturn := h.turn hidle forks now
      cases hs : Helper.turn cfg s forks now with
      | error e =>
        rw [hs] at hturn
        refine ⟨1, ?_⟩
        simp only [turns, hs]
        exact hturn
      | ok t =>
        rw [hs] at hturn
        obtain ⟨n, hend⟩ := ih _ (hn ▸ hturn.2) hturn.1.safe rfl
        refine ⟨n + 1, ?_⟩
        simp only [turns, hs]
        exact hend

def twoSlots : Config := ⟨2, 1, false⟩

/-- Two requests, and the reply `0 x` to the first of them. -/
def answeredRun : List Event :=
  [.start (fun _ => true) 0, .submit 1 [97, 10] 0, .submit 2 [98, 10] 0, .read 0 [48, 32, 120, 10],
    .turn (fun _ => true) 0, .turn (fun _ => true) 0, .turn (fun _ => true) 0]

/-- The server dies with a request in its second slot, whose callback submits another. -/
def lostRun : List Event :=
  answeredRun ++ [.read 0 [], .turn (fun _ => true) 0, .turn (fun _ => true) 0, .submit 3 [99, 10] 0,
    .turn (fun _ => true) 0, .turn (fun _ => true) 100]

end SquidVideoCache.Helper
