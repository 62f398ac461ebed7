import SquidVideoCache.Lib.Machine
import SquidVideoCache.Lib.Text
import SquidVideoCache.Lib.Lines

/-!
# Helper processes, helper.c

Requests go to a server with a free slot or wait in the queue of the helper. A reply frees the slot of
its request; a server whose process has died is freed with the requests in its slots. Both run callbacks,
and a callback may submit further requests before it returns: `Busy` says where the code then stands.
No server is shut down, so the flags `shutdown` and `closing` are not set.
-/

namespace SquidVideoCache.Helper
open Lib Function

/-- How the process ends: an `assert` or a call of `fatalf`. -/
inductive Stop where
  | assertion
  | fatal
  deriving DecidableEq, Repr

abbrev Outcome (α : Type) := Except Stop α

def checked (p : Prop) [Decidable p] : Outcome Unit := if p then .ok () else .error .assertion

structure Config where
  concurrency : ℕ
  nToStart : ℕ
  /-- `shutting_down || reconfiguring` -/
  quiet : Bool

def slotCount (cfg : Config) : ℕ := if cfg.concurrency = 0 then 1 else cfg.concurrency

/-- A request with the callback data it was submitted with; the serial number tells requests apart. -/
structure Request where
  serial : ℕ
  data : ℕ
  buf : List UInt8
  deriving DecidableEq, Repr

structure Server where
  /-- The bytes read and not yet handled. -/
  rbuf : List UInt8
  requests : List (Option Request)
  pending : ℕ
  writing : Bool
  wqueue : Option (List UInt8)
  /-- What was handed to `comm_write_mbuf`. -/
  written : List UInt8

def rbufSize : ℕ := 8192

def newServer (cfg : Config) : Server := ⟨[], List.replicate (slotCount cfg) none, 0, false, none, []⟩

/-- What a server's handler is doing. -/
inductive Busy where
  | idle
  /-- At the head of the loop of `helperHandleRead`. -/
  | reading (p : ℕ)
  /-- In the callback for a reply that takes the next bytes of the buffer. -/
  | replying (p n : ℕ)
  /-- Before a slot in the loop of `helperServerFree`. -/
  | freeing (p i : ℕ)
  /-- In the callback that `helperServerFree` runs for a slot. -/
  | ending (p i : ℕ)
  deriving DecidableEq, Repr

structure State where
  server : ℕ → Server
  servers : List ℕ
  next : ℕ
  queue : List Request
  nRunning : ℤ
  nActive : ℤ
  lastQueueWarn : ℤ
  lastRestart : ℤ
  /-- The callback data that is not valid any more. -/
  invalid : List ℕ
  busy : Busy
  submitted : List Request
  called : List (Request × Option (List UInt8))
  /-- The requests that were freed without a callback. -/
  dropped : List Request

def State.put (s : State) (p : ℕ) (srv : Server) : State := { s with server := update s.server p srv }

@[simp] lemma put_self (s : State) (p : ℕ) (srv : Server) : (s.put p srv).server p = srv := update_self ..

lemma put_of_ne (s : State) {p q : ℕ} (srv : Server) (h : q ≠ p) : (s.put p srv).server q = s.server q :=
  update_of_ne h ..

def State.drop (s : State) (r : Request) : State := { s with dropped := r :: s.dropped }

def State.call (s : State) (r : Request) (reply : Option (List UInt8)) : State := { s with called := s.called ++ [(r, reply)] }

/-! ## Dispatching -/

/-- The loop over the servers of `GetFirstAvailable`. -/
def leastLoaded (server : ℕ → Server) : Option ℕ → List ℕ → Option ℕ
  | selected, [] => selected
  | none, p :: ps => if (server p).pending = 0 then some p else leastLoaded server (some p) ps
  | some q, p :: ps => if (server q).pending ≤ (server p).pending then leastLoaded server (some q) ps else some p

def getFirstAvailable (cfg : Config) (s : State) : Option ℕ :=
  if s.nRunning = 0 then none
  else
    match leastLoaded s.server none s.servers with
    | some p => if slotCount cfg ≤ (s.server p).pending then none else some p
    | none => none

def channelText (cfg : Config) (slot : ℕ) (buf : List UInt8) : List UInt8 :=
  if cfg.concurrency = 0 then buf else decimal slot ++ 32 :: buf

/-- Text for the server is written at once, or waits for the write that is under way. -/
def Server.send (srv : Server) (text : List UInt8) : Server :=
  if srv.writing then { srv with wqueue := some (srv.wqueue.getD [] ++ text) }
  else { srv with wqueue := none, writing := true, written := srv.written ++ srv.wqueue.getD [] ++ text }

def Server.take (cfg : Config) (srv : Server) (slot : ℕ) (r : Request) : Server :=
  { srv.send (channelText cfg slot r.buf) with requests := srv.requests.set slot (some r), pending := srv.pending + 1 }

def helperDispatch (cfg : Config) (s : State) (p : ℕ) (r : Request) : Outcome State :=
  if r.data ∈ s.invalid then .ok (s.drop r)
  else
    match (s.server p).requests.findIdx? Option.isNone with
    | some slot => .ok (s.put p ((s.server p).take cfg slot r))
    | none => .error .assertion

def helperDispatchDone (s : State) (p : ℕ) (ok : Bool) : State :=
  if ok then
    match (s.server p).wqueue with
    | some text => s.put p { s.server p with wqueue := none, written := (s.server p).written ++ text }
    | none => s.put p { s.server p with writing := false }
  else s

def warnQueue (cfg : Config) (s : State) (now : ℤ) : Outcome State :=
  if (s.queue.length : ℤ) < s.nRunning || now - s.lastQueueWarn < 30 || cfg.quiet then .ok s
  else if s.nRunning * 2 < (s.queue.length : ℤ) then .error .fatal
  else .ok { s with lastQueueWarn := now }

def enqueue (cfg : Config) (s : State) (r : Request) (now : ℤ) : Outcome State :=
  warnQueue cfg { s with queue := s.queue ++ [r] } now

def place (cfg : Config) (s : State) (r : Request) (now : ℤ) : Outcome State :=
  match getFirstAvailable cfg s with
  | some p => helperDispatch cfg s p r
  | none => enqueue cfg s r now

def newRequest (s : State) (data : ℕ) (buf : List UInt8) : Request := ⟨s.submitted.length, data, buf⟩

def helperSubmit (cfg : Config) (s : State) (data : ℕ) (buf : List UInt8) (now : ℤ) : Outcome State :=
  place cfg { s with submitted := s.submitted ++ [newRequest s data buf] } (newRequest s data buf) now

/-- The loop of `helperKickQueue`; the queue is what is left of it. -/
def kickQueue (cfg : Config) (s : State) : List Request → Outcome State
  | [] => .ok { s with queue := [] }
  | r :: queue =>
    match getFirstAvailable cfg s with
    | some p => do
      let s ← helperDispatch cfg s p r
      kickQueue cfg s queue
    | none => .ok { s with queue := r :: queue }

def helperKickQueue (cfg : Config) (s : State) : Outcome State := kickQueue cfg s s.queue

/-! ## Opening and freeing servers -/

def State.addServer (cfg : Config) (s : State) : State := { s.put s.next (newServer cfg) with
    servers := s.servers ++ [s.next]
    next := s.next + 1
    nRunning := s.nRunning + 1
    nActive := s.nActive + 1 }

/-- Starts processes; `forks` says which of them can be started. -/
def startServers (s : State) (cfg : Config) (forks : ℕ → Bool) : ℕ → State
  | 0 => s
  | k + 1 => if forks k then (startServers s cfg forks k).addServer cfg else startServers s cfg forks k

def helperOpenServers (cfg : Config) (s : State) (forks : ℕ → Bool) (now : ℤ) : Outcome State :=
  helperKickQueue cfg { startServers s cfg forks cfg.nToStart with lastRestart := now }

def State.removeServer (s : State) (p : ℕ) : State :=
  { s with servers := s.servers.erase p, nRunning := s.nRunning - 1, nActive := s.nActive - 1, busy := .idle }

/-- The end of `helperServerFree`, behind its loop. -/
def serverGone (cfg : Config) (s : State) (p : ℕ) (forks : ℕ → Bool) (now : ℤ) : Outcome State := do
  checked (0 ≤ s.nRunning - 1)
  checked (0 ≤ s.nActive - 1)
  if s.nActive - 1 ≤ ((cfg.nToStart / 2 : ℕ) : ℤ) then
    if now - 30 < s.lastRestart then .error .fatal else helperOpenServers cfg (s.removeServer p) forks now
  else pure (s.removeServer p)

def State.clearSlot (s : State) (p i : ℕ) : State :=
  s.put p { s.server p with requests := (s.server p).requests.set i none }

def slotFreed (s : State) (p i : ℕ) : State := { s.clearSlot p i with busy := .freeing p (i + 1) }

def freeTurn (cfg : Config) (s : State) (p i : ℕ) (forks : ℕ → Bool) (now : ℤ) : Outcome State :=
  match (s.server p).requests[i]? with
  | some none => .ok { s with busy := .freeing p (i + 1) }
  | some (some r) => if r.data ∈ s.invalid then .ok (slotFreed (s.drop r) p i) else .ok { s.call r none with busy := .ending p i }
  | none => serverGone cfg s p forks now

/-! ## Reading replies -/

/-- The first line of the buffer without its end, and the bytes that it takes. -/
def firstLine (rbuf : List UInt8) : Option (List UInt8 × ℕ) :=
  match (cString rbuf).findIdx? (· = newline) with
  | some t =>
    let line := rbuf.take t
    some (if line.getLast? = some 13 then line.dropLast else line, t + 1)
  | none => none

def channel (cfg : Config) (line : List UInt8) : ℤ × List UInt8 :=
  if cfg.concurrency = 0 then (0, line)
  else
    let res := strtoll 10 line
    (if res.used = 0 || res.range then -1 else toInt res.value, (line.drop res.used).dropWhile isSpace)

def requestOn (cfg : Config) (srv : Server) (i : ℤ) : Option (ℕ × Request) :=
  if cfg.concurrency = 0 || (0 ≤ i && i < cfg.concurrency) then
    match srv.requests[i.toNat]? with
    | some (some r) => some (i.toNat, r)
    | _ => none
  else none

def replied (s : State) (p n : ℕ) : State :=
  { s.put p { s.server p with pending := (s.server p).pending - 1, rbuf := (s.server p).rbuf.drop n } with
    busy := .reading p }

def readTurn (cfg : Config) (s : State) (p : ℕ) : Outcome State :=
  match firstLine (s.server p).rbuf with
  | none => helperKickQueue cfg { s with busy := .idle }
  | some (line, n) =>
    match requestOn cfg (s.server p) (channel cfg line).1 with
    | some (i, r) =>
      if r.data ∈ s.invalid then .ok (replied ((s.clearSlot p i).drop r) p n)
      else .ok { (s.clearSlot p i).call r (some (channel cfg line).2) with busy := .replying p n }
    | none => .ok (s.put p { s.server p with rbuf := (s.server p).rbuf.drop n })

/-- Bytes come in as far as there is room; what comes from a server with nothing pending is thrown away. -/
def Server.receive (srv : Server) (input : List UInt8) : Server :=
  { srv with rbuf := if srv.pending = 0 then [] else srv.rbuf ++ input.take (rbufSize - srv.rbuf.length - 1) }

/-- Bytes come in from a server; none stand for the end of its process, and none fit into a full buffer. -/
def helperHandleRead (s : State) (p : ℕ) (input : List UInt8) : Outcome State := do
  checked ((s.server p).rbuf.length < rbufSize)
  if input.take (rbufSize - (s.server p).rbuf.length - 1) = [] then pure { s with busy := .freeing p 0 }
  else pure { s.put p ((s.server p).receive input) with busy := .reading p }

/-! ## Runs -/

inductive Event where
  | start (forks : ℕ → Bool) (now : ℤ)
  | submit (data : ℕ) (buf : List UInt8) (now : ℤ)
  | read (p : ℕ) (input : List UInt8)
  | written (p : ℕ) (ok : Bool)
  | invalidate (data : ℕ)
  /-- The handler that is busy goes on; a callback that was running has returned. -/
  | turn (forks : ℕ → Bool) (now : ℤ)

def Busy.open : Busy → Bool
  | .idle | .replying .. | .ending .. => true
  | _ => false

def enabled (s : State) : Event → Bool
  | .start .. => s.busy = .idle
  | .submit .. | .invalidate _ => s.busy.open
  | .read p _ | .written p _ => s.busy = .idle && p ∈ s.servers
  | .turn .. => s.busy ≠ .idle

def turn (cfg : Config) (s : State) (forks : ℕ → Bool) (now : ℤ) : Outcome State :=
  match s.busy with
  | .idle => .ok s
  | .reading p => readTurn cfg s p
  | .replying p n => .ok (replied s p n)
  | .freeing p i => freeTurn cfg s p i forks now
  | .ending p i => .ok (slotFreed s p i)

def step (cfg : Config) (s : State) : Event → Outcome State
  | .start forks now => helperOpenServers cfg s forks now
  | .submit data buf now => helperSubmit cfg s data buf now
  | .read p input => helperHandleRead s p input
  | .written p ok => .ok (helperDispatchDone s p ok)
  | .invalidate data => .ok { s with invalid := data :: s.invalid }
  | .turn forks now => turn cfg s forks now

def State.init (cfg : Config) : State where
  server _ := newServer cfg
  servers := []
  next := 0
  queue := []
  nRunning := 0
  nActive := 0
  lastQueueWarn := 0
  lastRestart := 0
  invalid := []
  busy := .idle
  submitted := []
  called := []
  dropped := []

def machine (cfg : Config) : Machine State Event Stop := ⟨.init cfg, enabled, step cfg⟩

end SquidVideoCache.Helper
