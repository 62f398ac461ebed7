import SquidVideoCache.Url.Model

/-!
# ICP, icp_v2.c and icp_v3.c

`icpHandleUdp` receives each datagram into one static buffer and writes a NUL behind it. The
handlers read the header and the URL from the buffer. The cache, the access lists and the
network database are functions of a state; what a handler does is a list of actions.
-/

namespace SquidVideoCache.Icp
open Lib
open Url (Request urlParse rfc1738Escape maxUrl)

/-- The size of the buffer, `SQUID_UDP_SO_RCVBUF`. -/
def rcvbufSize : ℕ := 16384

/-- `sizeof(icp_common_t)`. -/
def icpCommonSize : ℕ := 20

inductive IcpOpcode where
  | invalid | query | hit | miss | err | decho | missNofetch | denied
  deriving DecidableEq, Repr

def IcpOpcode.code : IcpOpcode → UInt8
  | .invalid => 0
  | .query => 1
  | .hit => 2
  | .miss => 3
  | .err => 4
  | .decho => 11
  | .missNofetch => 21
  | .denied => 22

/-- The opcodes that the handlers know. -/
def opcodeOf (c : UInt8) : Option IcpOpcode :=
  [IcpOpcode.invalid, .query, .hit, .miss, .err, .decho, .missNofetch, .denied].find? (·.code = c)

/-! ## Messages -/

def ntoh (bytes : List UInt8) : ℕ := bytes.foldl (fun n c => n * 256 + c.toNat) 0

def hton16 (n : ℕ) : List UInt8 := [(n / 256).toUInt8, n.toUInt8]

def hton32 (n : ℕ) : List UInt8 := [(n / 2 ^ 24).toUInt8, (n / 2 ^ 16).toUInt8, (n / 256).toUInt8, n.toUInt8]

structure IcpCommon where
  opcode : UInt8
  version : UInt8
  length : ℕ
  reqnum : ℕ
  flags : ℕ
  pad : ℕ
  shostid : List UInt8
  deriving DecidableEq, Repr

def readHeader (buf : List UInt8) : IcpCommon where
  opcode := buf.getD 0 0
  version := buf.getD 1 0
  length := ntoh ((buf.drop 2).take 2)
  reqnum := ntoh ((buf.drop 4).take 4)
  flags := ntoh ((buf.drop 8).take 4)
  pad := ntoh ((buf.drop 12).take 4)
  shostid := (buf.drop 16).take 4

def icpFlagSrcRtt : ℕ := 0x40000000

def icpCreateMessage (shostid : List UInt8) (opcode : IcpOpcode) (flags : ℕ) (url : List UInt8) (reqnum pad : ℕ) :
    List UInt8 :=
  [opcode.code, 2] ++ hton16 (icpCommonSize + url.length + 1) ++ hton32 reqnum ++ hton32 flags ++ hton32 pad ++
    shostid ++ url ++ [0]

/-! ## The state and the actions -/

structure World (σ Addr Entry : Type) where
  url : Url.Config
  /-- `theOutICPAddr` -/
  outAddr : List UInt8
  aclCheckFast : σ → Addr → Request → Bool
  clientdbCutoffDenied : σ → Addr → Bool
  netdbHostRtt : σ → List UInt8 → ℕ
  netdbHostHops : σ → List UInt8 → ℕ
  storeGetPublic : σ → List UInt8 → Option Entry
  storeEntryValidToSend : σ → Entry → Bool
  refreshCheckICP : σ → Entry → Request → Bool
  icpHitStale : Bool
  testReachability : Bool
  reloadHitOnly : Bool
  storeDirsRebuilding : σ → Bool
  /-- `hit_only_mode_until > squid_curtime` -/
  hitOnlyMode : σ → Bool
  neighborsDoPrivateKeys : σ → Bool

inductive Action (Addr : Type) where
  | send (dest : Addr) (msg : List UInt8)
  | storeGetPublic (url : List UInt8)
  | clientdbUpdate (addr : Addr)
  | netdbPingSite (host : List UInt8)
  | disablePrivateKeys
  /-- the answer of a neighbour, whose key is that of the URL or of the request number -/
  | neighborsUdpAck (url : List UInt8) (header : IcpCommon) (sender : Addr)

structure Datagram (Addr : Type) where
  bytes : List UInt8
  sender : Addr

section
variable {σ Addr Entry : Type} (w : World σ Addr Entry) (s : σ)

def icpCheckUdpHit (e : Option Entry) (request : Request) : Bool :=
  match e with
  | none => false
  | some e => w.storeEntryValidToSend s e && (w.icpHitStale || !w.refreshCheckICP s e request)

/-- The answer to a query for which there is no hit. Version 2 also looks at the network database, whose
round trip time is `rtt` if it has been asked for. -/
def icpMiss (v2 : Bool) (sender : Addr) (host : List UInt8) (rtt : ℕ) (reply : IcpOpcode → List UInt8) :
    List (Action Addr) :=
  let test := v2 && w.testReachability
  let rtt' := if test ∧ rtt = 0 then w.netdbHostRtt s host else rtt
  let pings := if test ∧ rtt = 0 ∧ rtt' = 0 then [Action.netdbPingSite host] else []
  if (w.storeDirsRebuilding s ∧ w.reloadHitOnly) ∨ w.hitOnlyMode s ∨ (test ∧ rtt' = 0) then
    pings ++ [.send sender (reply .missNofetch)]
  else pings ++ [.send sender (reply .miss)]

def icpLookup (v2 : Bool) (sender : Addr) (header : IcpCommon) (url : List UInt8) (request : Request) :
    List (Action Addr) :=
  let asked := v2 ∧ header.flags.land icpFlagSrcRtt ≠ 0
  let rtt := if asked then w.netdbHostRtt s request.host else 0
  let hops := if asked then w.netdbHostHops s request.host else 0
  let srcRtt := (hops % 65536) * 65536 + rtt % 65536
  let flags := if rtt = 0 then 0 else icpFlagSrcRtt
  let reply opcode := icpCreateMessage w.outAddr opcode flags url header.reqnum srcRtt
  .storeGetPublic url ::
    if icpCheckUdpHit w s (w.storeGetPublic s url) request then [.send sender (reply .hit)]
    else icpMiss w s v2 sender request.host rtt reply

/-- Where a URL that is too long is cut, in the buffer, by `urlParse`. -/
def urlCut : ℕ := maxUrl / 2

def tooLong (url : List UInt8) : Bool := maxUrl - 1 < url.length + w.url.appendDomainLen

def icpQuery (v2 : Bool) (sender : Addr) (header : IcpCommon) (url : List UInt8) : List (Action Addr) :=
  let reply opcode url := icpCreateMessage w.outAddr opcode 0 url header.reqnum 0
  if stringHasWhitespace url then [.send sender (reply .err (rfc1738Escape url))]
  else match urlParse w.url .get url with
    | none => [.send sender (reply .err (if tooLong w url then url.take urlCut else url))]
    | some request =>
      if w.aclCheckFast s sender request then icpLookup w s v2 sender header url request
      else if w.clientdbCutoffDenied s sender then [.clientdbUpdate sender]
      else [.send sender (reply .denied url)]

def icpReply (sender : Addr) (header : IcpCommon) (url : List UInt8) : List (Action Addr) :=
  (if w.neighborsDoPrivateKeys s ∧ header.reqnum = 0 then [.disablePrivateKeys] else []) ++
    [.neighborsUdpAck url header sender]

def queryUrl (buf : List UInt8) : List UInt8 := cString (buf.drop (icpCommonSize + 4))

def icpActions (v2 : Bool) (sender : Addr) (buf : List UInt8) (len : ℕ) : List (Action Addr) :=
  let header := readHeader buf
  if len ≠ header.length then []
  else match opcodeOf header.opcode with
    | some .query => icpQuery w s v2 sender header (queryUrl buf)
    | some .hit | some .decho | some .miss | some .denied | some .missNofetch =>
      icpReply w s sender header (cString (buf.drop icpCommonSize))
    | some .invalid | some .err | none => []

def cutUrl (buf : List UInt8) (len : ℕ) : List UInt8 :=
  let header := readHeader buf
  if len = header.length ∧ opcodeOf header.opcode = some .query ∧ !stringHasWhitespace (queryUrl buf) ∧
      tooLong w (queryUrl buf) then
    buf.set (icpCommonSize + 4 + urlCut) 0
  else buf

def icpHandle (v2 : Bool) (sender : Addr) (buf : List UInt8) (len : ℕ) : List (Action Addr) × List UInt8 :=
  (icpActions w s v2 sender buf len, cutUrl w buf len)

def icpHandleIcpV2 := icpHandle w s true

def icpHandleIcpV3 := icpHandle w s false

/-! ## Receiving -/

/-- The buffer after `recvfrom` and the NUL. -/
def receive (buf bytes : List UInt8) : List UInt8 := bytes ++ 0 :: buf.drop (bytes.length + 1)

/-- One turn of the loop of `icpHandleUdp`; a datagram that is too long is cut off. -/
def handleDatagram (buf : List UInt8) (d : Datagram Addr) : List (Action Addr) × List UInt8 :=
  let bytes := d.bytes.take (rcvbufSize - 1)
  if bytes = [] then ([], buf)
  else
    let buf := receive buf bytes
    if bytes.length < icpCommonSize then ([], buf)
    else if buf.getD 1 0 = 2 then icpHandleIcpV2 w s d.sender buf bytes.length
    else if buf.getD 1 0 = 3 then icpHandleIcpV3 w s d.sender buf bytes.length
    else ([], buf)

inductive Reached : List UInt8 → Prop
  | init : Reached (List.replicate rcvbufSize 0)
  | next {buf : List UInt8} (s : σ) (d : Datagram Addr) : Reached buf → Reached (handleDatagram w s buf d).2

def handleAll (buf : List UInt8) : List (σ × Datagram Addr) → List (List (Action Addr))
  | [] => []
  | (s, d) :: rest =>
    let (actions, buf) := handleDatagram w s buf d
    actions :: handleAll buf rest

end

end SquidVideoCache.Icp
