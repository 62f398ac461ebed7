import SquidVideoCache.Lib.Machine
import SquidVideoCache.Message.MemBuf

/-!
# Replies of a stateful helper, helper.c

`helperStatefulHandleRead` lets the read fill the buffer, where `helperHandleRead` keeps a byte back, and
then stores the terminator behind what was read.
-/

namespace SquidVideoCache.StatefulHelper
open Lib List

def bufSz : ℕ := 8192

/-- `called` is what the callbacks of the requests were given. -/
structure Server where
  buf : List UInt8
  offset : ℕ
  request : Option ℕ
  closed : Bool
  called : List (ℕ × List UInt8)

def newServer : Server := ⟨replicate bufSz 0, 0, none, false, []⟩

/-- The bytes read, and the terminator behind them. -/
def fill (buf : List UInt8) (offset : ℕ) (data : List UInt8) : Exec (List UInt8) := do
  let buf ← Message.memcpy buf offset data
  store buf (offset + data.length : ℕ) 0

/-- Ends the reply before its newline, and before a CR in front of that. -/
def endReply (buf : List UInt8) (t : ℕ) : Exec (List UInt8) :=
  if 0 < t ∧ buf[t - 1]? = some 13 then store buf (t - 1 : ℕ) 0 >>= (store · t 0) else store buf t 0

/-- `valid` is whether the callback data of the request still is. -/
def helperStatefulHandleRead (srv : Server) (data : List UInt8) (valid : Bool) : Exec Server := do
  let buf ← fill srv.buf srv.offset data
  match srv.request, (cString buf).findIdx? (· = 10) with
  | none, _ => .ok { srv with buf, offset := 0 }
  | some r, some t => do
    let buf ← endReply buf t
    .ok { srv with buf, offset := 0, request := none, called := srv.called ++ if valid then [(r, cString buf)] else [] }
  | some _, none => .ok { srv with buf, offset := srv.offset + data.length }

inductive Event where
  | dispatch (r : ℕ)
  | read (data : List UInt8) (valid : Bool)
  /-- A read that gives no byte. -/
  | close

def enabled (srv : Server) : Event → Bool
  | .dispatch _ => !srv.closed && srv.request.isNone
  | .read data _ => !srv.closed && 0 < data.length && data.length ≤ bufSz - srv.offset
  | .close => !srv.closed

def step (srv : Server) : Event → Exec Server
  | .dispatch r => .ok { srv with request := some r }
  | .read data valid => helperStatefulHandleRead srv data valid
  | .close => .ok { srv with closed := true }

def machine : Machine Server Event Fault := ⟨newServer, enabled, step⟩

/-- A read leaves a byte of the buffer free. -/
def leavesRoom (srv : Server) : Event → Bool
  | .read data _ => srv.offset + data.length < bufSz
  | _ => true

variable {srv : Server} {data buf : List UInt8} {n : ℕ} {es : List Event}

lemma fill_ok (hroom : n + data.length < buf.length) : ∃ buf', fill buf n data = .ok buf' ∧ buf'.length = buf.length := by
  have hcopy : (buf.take n ++ data ++ buf.drop (n + data.length)).length = buf.length := by
    simp
    omega
  refine ⟨_, ?_, (length_set (i := n + data.length) (a := 0)).trans hcopy⟩
  rw [fill, Message.memcpy, if_pos hroom.le, ok_bind, store_natCast_of_lt (hcopy ▸ hroom)]

lemma fill_overrun (hfull : buf.length ≤ n + data.length) : fill buf n data = .error .bounds := by
  unfold fill Message.memcpy
  split_ifs with hle
  · exact store_natCast_of_ge (by simp; omega) 0
  · rfl

lemma endReply_ok (hn : n < buf.length) : ∃ buf', endReply buf n = .ok buf' ∧ buf'.length = buf.length := by
  unfold endReply
  split_ifs
  · rw [store_natCast_of_lt (by omega), ok_bind, store_natCast_of_lt (by simpa using hn)]
    exact ⟨_, rfl, by simp⟩
  · rw [store_natCast_of_lt hn]
    exact ⟨_, rfl, by simp⟩

lemma handleRead_ok (hroom : srv.offset + data.length < srv.buf.length) (valid : Bool) :
    ∃ srv', helperStatefulHandleRead srv data valid = .ok srv' ∧ srv'.buf.length = srv.buf.length := by
  obtain ⟨buf, hfill, hlength⟩ := fill_ok hroom
  rw [helperStatefulHandleRead, hfill, ok_bind]
  split
  · exact ⟨_, rfl, hlength⟩
  next r t _ ht =>
    have hlt := (findIdx?_eq_some_iff_findIdx_eq.mp ht).1.trans_le (List.takeWhile_prefix _).length_le
    obtain ⟨buf', hend, hlength'⟩ := endReply_ok hlt
    rw [hend]
    exact ⟨_, rfl, hlength'.trans hlength⟩
  · exact ⟨_, rfl, hlength⟩

lemma handleRead_overrun (hfull : srv.buf.length ≤ srv.offset + data.length) (valid : Bool) :
    helperStatefulHandleRead srv data valid = .error .bounds := by
  rw [helperStatefulHandleRead, fill_overrun hfull, error_bind]

lemma buf_of_reached (h : machine.Reached leavesRoom es srv) : srv.buf.length = bufSz := by
  induction h with
  | init => exact length_replicate
  | next e _ _ hroom hstep ih =>
    cases e with
    | dispatch r =>
      cases hstep
      exact ih
    | read data valid =>
      obtain ⟨srv', hread, hbuf⟩ := handleRead_ok (ih ▸ of_decide_eq_true hroom) valid
      cases hread.symm.trans hstep
      exact hbuf.trans ih
    | close =>
      cases hstep
      exact ih

theorem read_inside_iff (h : machine.Reached leavesRoom es srv) (e : Event) :
    (∃ srv', step srv e = .ok srv') ↔ leavesRoom srv e := by
  have hbuf := buf_of_reached h
  cases e with
  | read data valid =>
    constructor
    · rintro ⟨srv', hread⟩
      by_contra hfull
      rw [leavesRoom, ← hbuf, decide_eq_true_eq, Nat.not_lt] at hfull
      cases (handleRead_overrun hfull valid).symm.trans hread
    · intro hroom
      obtain ⟨srv', hread, -⟩ := handleRead_ok (hbuf ▸ of_decide_eq_true hroom) valid
      exact ⟨srv', hread⟩
  | _ => exact ⟨fun _ => rfl, fun _ => ⟨_, rfl⟩⟩

theorem read_inside_first : machine.Reached leavesRoom [] newServer ∧ ∃ srv', step newServer (.read [97] true) = .ok srv' :=
  ⟨.init, (read_inside_iff .init _).mpr (by decide)⟩

theorem read_full_outside : enabled newServer (.read (replicate bufSz 97) true) ∧
    step newServer (.read (replicate bufSz 97) true) = .error .bounds := by
  constructor
  · rw [enabled, length_replicate]
    rfl
  · exact handleRead_overrun (by rw [newServer, length_replicate, length_replicate, Nat.zero_add]) true

end SquidVideoCache.StatefulHelper
