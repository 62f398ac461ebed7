import SquidVideoCache.Icp.Model

/-!
# HTCP packets, htcp.c

A packet is a header, a data part and an empty authenticator. The data part has a header of its own, whose bit fields
old versions of the program lay out the other way round; the minor version tells the two formats apart, and the
program answers in the format of the last packet it has received.
-/

namespace SquidVideoCache.Htcp
open Lib
open Icp (ntoh hton16 hton32)

inductive HtcpOpcode where
  | nop | tst | mon | set | clr
  deriving DecidableEq, Repr

def HtcpOpcode.code : HtcpOpcode → BitVec 4
  | .nop => 0
  | .tst => 1
  | .mon => 2
  | .set => 3
  | .clr => 4

/-- The opcodes below `HTCP_END`. -/
def opcodeOf (c : BitVec 4) : Option HtcpOpcode := [HtcpOpcode.nop, .tst, .mon, .set, .clr].find? (·.code = c)

/-! ## The headers -/

def htcpHeaderSize : ℕ := 4

def htcpDataHeaderSize : ℕ := 8

structure HtcpDataHeader where
  length : ℕ
  opcode : BitVec 4
  response : BitVec 4
  reserved : BitVec 6
  f1 : BitVec 1
  rr : BitVec 1
  msgId : ℕ
  deriving DecidableEq, Repr

def HtcpDataHeader.bytes (hdr : HtcpDataHeader) : List UInt8 :=
  hton16 hdr.length ++ [⟨hdr.opcode ++ hdr.response⟩, ⟨hdr.reserved ++ (hdr.f1 ++ hdr.rr)⟩] ++ hton32 hdr.msgId

def HtcpDataHeader.bytesSquid (hdr : HtcpDataHeader) : List UInt8 :=
  hton16 hdr.length ++ [⟨hdr.response ++ hdr.opcode⟩, ⟨hdr.rr ++ (hdr.f1 ++ hdr.reserved)⟩] ++ hton32 hdr.msgId

def readHeader (buf : List UInt8) : HtcpDataHeader where
  length := ntoh (buf.take 2)
  opcode := (buf.getD 2 0).toBitVec.extractLsb' 4 4
  response := (buf.getD 2 0).toBitVec.extractLsb' 0 4
  reserved := (buf.getD 3 0).toBitVec.extractLsb' 2 6
  f1 := (buf.getD 3 0).toBitVec.extractLsb' 1 1
  rr := (buf.getD 3 0).toBitVec.extractLsb' 0 1
  msgId := ntoh ((buf.drop 4).take 4)

def readHeaderSquid (buf : List UInt8) : HtcpDataHeader where
  length := ntoh (buf.take 2)
  opcode := (buf.getD 2 0).toBitVec.extractLsb' 0 4
  response := (buf.getD 2 0).toBitVec.extractLsb' 4 4
  reserved := 0
  f1 := (buf.getD 3 0).toBitVec.extractLsb' 6 1
  rr := (buf.getD 3 0).toBitVec.extractLsb' 7 1
  msgId := ntoh ((buf.drop 4).take 4)

/-! ## Building -/

structure HtcpSpecifier where
  method : Option (List UInt8)
  uri : Option (List UInt8)
  version : Option (List UInt8)
  reqHdrs : Option (List UInt8)
  deriving DecidableEq, Repr

structure HtcpDetail where
  respHdrs : Option (List UInt8)
  entityHdrs : Option (List UInt8)
  cacheHdrs : Option (List UInt8)
  deriving DecidableEq, Repr

structure HtcpStuff where
  op : BitVec 4
  rr : BitVec 1
  f1 : BitVec 1
  response : BitVec 4
  msgId : UInt32
  specifier : HtcpSpecifier
  detail : HtcpDetail
  deriving DecidableEq, Repr

/-- The string that a pointer stands for; there is none behind a null pointer. -/
def textOf (s : Option (List UInt8)) : List UInt8 := cString (s.getD [])

/-- The `build` functions give nothing where the source returns -1. -/
def htcpBuildCountstr (buflen : ℕ) (s : Option (List UInt8)) : Option (List UInt8) :=
  if buflen < 2 then none
  else if buflen - 2 < (textOf s).length then none
  else some (hton16 (textOf s).length ++ textOf s)

def htcpBuildCountstrs (buflen : ℕ) : List (Option (List UInt8)) → Option (List UInt8)
  | [] => some []
  | s :: ss => do
    let a ← htcpBuildCountstr buflen s
    let b ← htcpBuildCountstrs (buflen - a.length) ss
    pure (a ++ b)

def htcpBuildSpecifier (buflen : ℕ) (stuff : HtcpStuff) : Option (List UInt8) := htcpBuildCountstrs buflen
    [stuff.specifier.method, stuff.specifier.uri, stuff.specifier.version, stuff.specifier.reqHdrs]

def htcpBuildDetail (buflen : ℕ) (stuff : HtcpStuff) : Option (List UInt8) :=
  htcpBuildCountstrs buflen [stuff.detail.respHdrs, stuff.detail.entityHdrs, stuff.detail.cacheHdrs]

def htcpBuildTstOpData (buflen : ℕ) (stuff : HtcpStuff) : Option (List UInt8) :=
  if stuff.rr = 0 then htcpBuildSpecifier buflen stuff
  else if stuff.f1 ≠ 0 then some []
  else htcpBuildDetail buflen stuff

def htcpBuildOpData (buflen : ℕ) (stuff : HtcpStuff) : Exec (Option (List UInt8)) :=
  match opcodeOf stuff.op with
  | some .tst => .ok (htcpBuildTstOpData buflen stuff)
  | some .clr => .ok (some [])
  | _ => .error .assertion

/-- The header of the data part. `reserved` is never set, and the other format leaves `msg_id` zero. -/
def dataHeader (old : Bool) (reserved : BitVec 6) (length : ℕ) (stuff : HtcpStuff) : List UInt8 :=
  let hdr : HtcpDataHeader := ⟨length, stuff.op, stuff.response, reserved, stuff.f1, stuff.rr, stuff.msgId.toNat⟩
  if !old then hdr.bytes
  else { hdr with reserved := 0, msgId := 0 }.bytesSquid

def htcpBuildData (old : Bool) (reserved : BitVec 6) (buflen : ℕ) (stuff : HtcpStuff) : Exec (Option (List UInt8)) :=
  if buflen < htcpDataHeaderSize then .ok none
  else do
    let opData ← htcpBuildOpData (buflen - htcpDataHeaderSize) stuff
    pure (opData.map fun data => dataHeader old reserved (htcpDataHeaderSize + data.length) stuff ++ data)

def htcpBuildAuth (buflen : ℕ) : Option (List UInt8) := if buflen < 2 then none else some (hton16 2)

def packet (old : Bool) (data auth : List UInt8) : List UInt8 :=
  hton16 (htcpHeaderSize + data.length + auth.length) ++ [0, if old then 0 else 1] ++ data ++ auth

/-- A packet, or nothing where the source returns 0. -/
def htcpBuildPacket (old : Bool) (reserved : BitVec 6) (buflen : ℕ) (stuff : HtcpStuff) : Exec (Option (List UInt8)) :=
  if buflen < htcpHeaderSize then .ok none
  else do
    let data ← htcpBuildData old reserved (buflen - htcpHeaderSize) stuff
    pure (data.bind fun data => (htcpBuildAuth (buflen - htcpHeaderSize - data.length)).map (packet old data))

/-! ## Handling -/

structure Handled where
  op : HtcpOpcode
  hdr : HtcpDataHeader
  buf : List UInt8
  sz : ℤ
  deriving DecidableEq, Repr

def Handled.data (h : Handled) : List UInt8 := h.buf.take h.sz.toNat

def htcpHandleData (old : Bool) (buf : List UInt8) : Option Handled :=
  if buf.length < htcpDataHeaderSize then none
  else
    let hdr := if !old then readHeader buf else readHeaderSquid buf
    match opcodeOf hdr.opcode with
    | none => none
    | some op =>
      if buf.length < hdr.length then none
      else some ⟨op, hdr, buf.drop htcpDataHeaderSize, hdr.length - htcpDataHeaderSize⟩

/-- `old_squid_format` afterwards, and the handler's call. -/
def htcpHandle (old : Bool) (buf : List UInt8) : Bool × Option Handled :=
  if buf.length < htcpHeaderSize then (old, none)
  else
    let old := decide (buf.getD 3 0 = 0)
    if buf.length ≠ ntoh (buf.take 2) then (old, none)
    else if buf.getD 2 0 ≠ 0 then (old, none)
    else (old, htcpHandleData old (buf.drop htcpHeaderSize))

end SquidVideoCache.Htcp
