import SquidVideoCache.Lib.Words

/-!
# Swap metadata, store_swapmeta.c, and its use in store_client.c

A swap file begins with the packed metadata: a mark, the length of the header, and records of a type, a
length and a value. `storeSwapMetaUnpack` is given a buffer and reads the length of the header from it.
A client that reads from disk does not know where the body begins until it has read the header.
-/

namespace SquidVideoCache.SwapMeta
open Lib

abbrev Bytes := List UInt8

/-- The types of records; `stop` is `STORE_META_END`. -/
inductive StoreMeta where
  | void | keyUrl | keySha | keyMd5 | url | std | hitmetering | valid | varyHeaders | stdLfs | objsize | storeurl | stop
  deriving DecidableEq, Repr

def storeMetas : List StoreMeta :=
  [.void, .keyUrl, .keySha, .keyMd5, .url, .std, .hitmetering, .valid, .varyHeaders, .stdLfs, .objsize, .storeurl, .stop]

def StoreMeta.code (m : StoreMeta) : ℕ := storeMetas.idxOf m

def StoreMeta.ofByte (c : UInt8) : Option StoreMeta := storeMetas[c.toNat]?

/-- `STORE_META_OK`. -/
def storeMetaOk : UInt8 := 3

/-- The field `length` is the size of `value`. -/
structure Tlv where
  type : UInt8
  value : Bytes
  deriving DecidableEq, Repr

/-! ## Packing -/

/-- `sizeof(char) + sizeof(int)`. -/
def tlvHeader : ℕ := 5

def packedLength (tlvList : List Tlv) : ℤ :=
  tlvList.foldl (fun buflen t => toInt (buflen + (tlvHeader + t.value.length : ℕ))) tlvHeader

def packTlv (t : Tlv) : Bytes := t.type :: (leBytes 4 t.value.length ++ t.value)

/-- The bytes before the records. -/
def packHeader (buflen : ℕ) : Bytes := storeMetaOk :: leBytes 4 buflen

/-- All that is copied to a buffer of `buflen` bytes, and its length. -/
def storeSwapMetaPack (tlvList : List Tlv) : Exec (Bytes × ℤ) := do
  let buflen := packedLength tlvList
  let buf := packHeader buflen.toNat ++ tlvList.flatMap packTlv
  if buflen < buf.length then .error .bounds
  else do
    cAssert (buf.length = buflen)
    pure (buf, buflen)

/-! ## Unpacking -/

def badType (c : UInt8) : Bool := schar c ≤ StoreMeta.void.code ∨ StoreMeta.stop.code + 10 < schar c

/-- The loop of `storeSwapMetaUnpack`, with a bound on the number of records. -/
def unpackTlvs (buf : Bytes) (buflen : ℤ) : ℕ → ℤ → Exec (List Tlv)
  | 0, _ => .error .diverges
  | k + 1, j =>
    if size64 (toInt (buflen - j)) < tlvHeader then .ok []
    else do
      let type ← loadByte buf j
      if badType type then pure []
      else do
        let length ← loadInt buf (toInt (j + 1))
        if length < 0 ∨ 2 ^ 16 < length then pure []
        -- an overflow of `j + length` is not seen here
        else if buflen < toInt (toInt (j + tlvHeader) + length) then pure []
        else do
          let value ← loadAt buf (toInt (j + tlvHeader)) length.toNat
          let rest ← unpackTlvs buf buflen k (toInt (toInt (j + tlvHeader) + length))
          pure (⟨type, value⟩ :: rest)

/-- The records and `*hdr_len`, which is not written when the header is refused. -/
def storeSwapMetaUnpack (buf : Bytes) (hdrLen : ℤ) : Exec (List Tlv × ℤ) := do
  let ok ← loadByte buf 0
  if ok ≠ storeMetaOk then pure ([], hdrLen)
  else do
    let buflen ← loadInt buf 1
    if size64 buflen ≤ tlvHeader then pure ([], hdrLen)
    else do
      let tlvs ← unpackTlvs buf buflen (buf.length + 1) tlvHeader
      pure (tlvs, buflen)

/-! ## Checking the metadata -/

structure StoreEntry where
  key : Bytes
  keyPrivate : Bool
  swapFileSz : ℤ
  /-- `swap_status == SWAPOUT_WRITING` -/
  writing : Bool
  deriving DecidableEq, Repr

structure MemObject where
  swapHdrSz : ℤ
  objectSz : ℤ
  varyHeaders : Option Bytes
  storeUrl : Option Bytes
  /-- `storeSwapOutObjectBytesOnDisk` -/
  bytesOnDisk : ℤ
  deriving DecidableEq, Repr

def xstrdup (value : Bytes) : Exec Bytes := do
  let n ← strlen value
  pure (value.take n)

/-- Whether a string and the one in `value` are equal; the comparison stops where they differ. -/
def strcmpValue (s value : Bytes) : Exec Bool :=
  if 0 ∈ value then .ok (s = cString value) else if value <+: s then .error .bounds else .ok false

structure MetaCheck where
  swapObjectOk : Bool := true
  newUrl : Option Bytes := none
  newStoreUrl : Option Bytes := none
  varyHeaders : Option Bytes
  deriving DecidableEq, Repr

/-- `SQUID_MD5_DIGEST_LENGTH`. -/
def md5DigestLength : ℕ := 16

def checkTlv (e : StoreEntry) (r : MetaCheck) (t : Tlv) : Exec MetaCheck :=
  match StoreMeta.ofByte t.type with
  | some .keyMd5 => do
    cAssert (t.value.length = md5DigestLength)
    if ¬ e.keyPrivate ∧ t.value ≠ e.key then pure { r with swapObjectOk := false } else pure r
  | some .url => do
    let url ← xstrdup t.value
    pure { r with newUrl := some url }
  | some .storeurl => do
    let url ← xstrdup t.value
    pure { r with newStoreUrl := some url }
  | some .varyHeaders =>
    match r.varyHeaders with
    | some vary => do
      let same ← strcmpValue vary t.value
      if same then pure r else pure { r with swapObjectOk := false }
    | none => do
      let vary ← xstrdup t.value
      pure { r with varyHeaders := some vary }
  | _ => .ok r

def checkTlvs (e : StoreEntry) : MetaCheck → List Tlv → Exec MetaCheck
  | r, [] => .ok r
  | r, t :: tlvs =>
    if r.swapObjectOk then do
      let r ← checkTlv e r t
      checkTlvs e r tlvs
    else .ok r

/-- The test of the URLs, and `mem->store_url`. -/
def checkUrls (storeUrl : Option Bytes) (r : MetaCheck) : Bool × Option Bytes :=
  match r.newUrl, r.newStoreUrl, storeUrl with
  | none, _, _ => (false, storeUrl)
  | some _, none, _ => (r.swapObjectOk, storeUrl)
  | some _, some url, none => (r.swapObjectOk, some url)
  | some _, some url, some known => (r.swapObjectOk && strcasecmp known url, storeUrl)

/-- Whether it is the right object, and what is remembered of it. -/
def checkMeta (e : StoreEntry) (mem : MemObject) (tlvList : List Tlv) : Exec (Bool × MemObject) := do
  let r ← checkTlvs e { varyHeaders := mem.varyHeaders } tlvList
  pure ((checkUrls mem.storeUrl r).1, { mem with varyHeaders := r.varyHeaders, storeUrl := (checkUrls mem.storeUrl r).2 })

/-! ## Reading for a client -/

/-- The offset is an `off_t`, and the size of a read is returned as a `ssize_t`. -/
structure StoreClient where
  copyOffset : ℤ
  copyOffset_lt : copyOffset < 2 ^ 63
  copySize : ℕ
  copySize_lt : copySize < 2 ^ 63
  copyBuf : Bytes

/-- What the client's callback is called with. -/
structure Callback where
  len : ℤ
  copyBuf : Bytes
  deriving DecidableEq, Repr

/-- The bytes that are given to the client; a negative length is an error. -/
def Callback.given (r : Callback) : Bytes := r.copyBuf.take r.len.toNat

/-- Whether the first and the second read fail. -/
structure Disk where
  file : Bytes
  fails : ℕ → Bool

/-- The buffer after a read of up to `copy_size` bytes at an offset of the file, and the length read. -/
def storeRead (d : Disk) (attempt : ℕ) (sc : StoreClient) (offset : ℤ) : Callback :=
  if d.fails attempt then ⟨-1, sc.copyBuf⟩
  else
    ⟨((d.file.drop offset.toNat).take sc.copySize).length,
      (d.file.drop offset.toNat).take sc.copySize ++ sc.copyBuf.drop ((d.file.drop offset.toNat).take sc.copySize).length⟩

def storeClientReadBody (r : Callback) : Exec Callback := .ok r

/-- The body that came with the header is moved to the front of the buffer. -/
def giveBody (sc : StoreClient) (r : Callback) (swapHdrSz : ℤ) : Exec Callback := do
  let copySz := min sc.copySize (size64 (r.len - swapHdrSz))
  let body ← loadAt r.copyBuf swapHdrSz copySz
  pure ⟨copySz, body ++ r.copyBuf.drop copySz⟩

/-- The end of `storeClientReadHeader`, when the metadata was checked; `fileRead` is `storeClientFileRead`. -/
def readBehindMeta (fileRead : MemObject → StoreClient → Exec Callback) (e : StoreEntry) (sc : StoreClient) (r : Callback)
    (swapHdrSz : ℤ) (checked : Bool × MemObject) : Exec Callback :=
  if ¬ checked.1 then .ok { r with len := -1 }
  else if size64 sc.copyOffset < size64 (r.len - swapHdrSz) then giveBody sc r swapHdrSz
  else
    fileRead { checked.2 with swapHdrSz := swapHdrSz, objectSz := e.swapFileSz - swapHdrSz } { sc with copyBuf := r.copyBuf }

def storeClientReadHeader (fileRead : MemObject → StoreClient → Exec Callback) (e : StoreEntry) (mem : MemObject)
    (sc : StoreClient) (r : Callback) : Exec Callback :=
  if r.len < 0 then .ok r
  else do
    let unpacked ← storeSwapMetaUnpack r.copyBuf 0
    if r.len < unpacked.2 then pure { r with len := -1 }
    else if unpacked.1 = [] then pure { r with len := -1 }
    else do
      let checked ← checkMeta e mem unpacked.1
      readBehindMeta fileRead e sc r unpacked.2 checked

/-- With a bound on the number of reads. -/
def fileReads (d : Disk) (e : StoreEntry) : ℕ → MemObject → StoreClient → Exec Callback
  | 0, _, _ => .error .diverges
  | k + 1, mem, sc =>
    if mem.swapHdrSz = 0 then storeClientReadHeader (fileReads d e k) e mem sc (storeRead d k sc 0)
    else do
      cAssert (e.writing = true → sc.copyOffset < mem.bytesOnDisk)
      storeClientReadBody (storeRead d k sc (sc.copyOffset + mem.swapHdrSz))

/-- The header is read at most once, so two reads are enough. -/
def storeClientFileRead (d : Disk) (e : StoreEntry) (mem : MemObject) (sc : StoreClient) : Exec Callback :=
  fileReads d e 2 mem sc

end SquidVideoCache.SwapMeta
