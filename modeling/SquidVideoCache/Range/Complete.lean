import SquidVideoCache.Range.Pack
import SquidVideoCache.Store.Create

/-!
# The end of a range reply, client_side.c

`out.offset` counts the bytes of the stored reply, its header included. When all ranges have been sent it is at the
end of the last range, and `clientGotNotEnough` compares it with the end of the stored reply.
-/

namespace SquidVideoCache.Range
open Lib StoreKey Store

/-- What `clientWriteComplete` reads of a request with an entry, besides the offset; `reply` is that of the memory
object. -/
structure Transfer where
  method : Method
  reply : Reply
  storeStatus : StoreStatus
  objectLen : ℤ
  doneCopying : Bool
  entryAborted : Bool
  chunkedResponse : Bool
  /-- `body_reader` is `clientReadBody` -/
  readsBody : Bool
  proxyKeepalive : Bool
  maxBodySize : ℤ

/-- What happens to the connection next. -/
inductive Next where
  | commClose
  | endChunks
  | clientEatRequestBody
  | clientKeepaliveNextRequest
  | storeClientCopy
  deriving DecidableEq

def clientGotNotEnough (t : Transfer) (outOffset : ℤ) : Bool :=
  let cl := httpReplyBodySize t.method t.reply
  if cl < 0 then false else outOffset ≠ cl + t.reply.hdrSz

/-- `SENDING_HDRSONLY` -/
def sendingHdrsOnly (t : Transfer) : Bool :=
  if t.reply.status = httpOk then false
  else t.reply.status = httpNoContent ∨ t.reply.status = httpNotModified ∨ t.reply.status < httpOk ∨ t.method = methodHead

def clientCheckTransferDone (t : Transfer) (outOffset : ℤ) : Bool :=
  if t.doneCopying then true
  else if t.storeStatus = .ok then outOffset ≥ t.objectLen
  else if t.reply.hdrSz = 0 then false
  else if sendingHdrsOnly t then outOffset ≥ t.reply.hdrSz
  else if t.reply.contentLength < 0 then false
  else outOffset ≥ t.reply.contentLength + t.reply.hdrSz

def clientReplyBodyTooLarge (t : Transfer) (clen : ℤ) : Bool :=
  if t.maxBodySize = 0 then false else if clen < 0 then false else clen > t.maxBodySize

def clientWriteComplete (t : Transfer) (outOffset : ℤ) (size : ℕ) (errflag : Bool) : Next :=
  if errflag then .commClose
  else if clientCheckTransferDone t outOffset ∨ size = 0 then
    if ¬ clientCheckTransferDone t outOffset then .commClose
    else if t.entryAborted then .commClose
    else if clientGotNotEnough t outOffset then .commClose
    else if t.chunkedResponse then .endChunks
    else if t.readsBody then .clientEatRequestBody
    else if t.proxyKeepalive then .clientKeepaliveNextRequest
    else .commClose
  else if clientReplyBodyTooLarge t (outOffset - 4096) then .commClose
  else .storeClientCopy

/-- A request after calls of `clientPackMoreRanges`, and whether more data is needed. -/
inductive Sent (specs : List HttpHdrRangeSpec) (info : PartInfo) (prefixSize : ℤ) (body : List UInt8) :
    ClientHttpRequest → Bool → Prop
  | start {http : ClientHttpRequest} {mb : List UInt8} {more : Bool}
      (h : clientPackMoreRanges { specs, info, iter := { prefixSize }, outOffset := prefixSize } [] = .ok (http, mb, more)) :
      Sent specs info prefixSize body http more
  | next {http http' : ClientHttpRequest} {mb : List UInt8} {more : Bool} (size : ℕ) (hs : Sent specs info prefixSize body http true)
      (h : clientPackMoreRanges http (delivered body http size) = .ok (http', mb, more)) : Sent specs info prefixSize body http' more

variable {specs : List HttpHdrRangeSpec} {info : PartInfo} {prefixSize : ℤ} {body : List UInt8}
  {http : ClientHttpRequest} {more : Bool}

/-- The induction is on the calls. -/
theorem Sent.spec (hspe : ∀ spec ∈ specs, Canonized body.length spec) (hcom : httpHdrRangeIsComplex specs = false)
    (hfro : 0 < prefixSize) (h : Sent specs info prefixSize body http more) :
    http.specs = specs ∧ http.iter.prefixSize = prefixSize ∧ (more = true → Waiting body http) ∧
      (more = false → http.outOffset = lastStop specs + prefixSize) := by
  induction h with
  | start hpack =>
    obtain ⟨http', mb', more', heq, hspe', -, hfro', hmore, hdone⟩ := clientPackMoreRanges_eq
      { specs, info, iter := { prefixSize }, outOffset := prefixSize } hspe hfro
      (by rw [sub_self]; exact ready_init hcom _) List.nil_prefix
    cases heq.symm.trans hpack
    exact ⟨hspe', hfro', fun hm => (hmore hm).1, fun hm => (hdone hm).2⟩
  | next size _ hpack ih =>
    obtain ⟨hsame, hsame', hwai, -⟩ := ih
    have hw := hwai rfl
    obtain ⟨http', mb', more', heq, hspe', -, hfro', hmore, hdone⟩ :=
      clientPackMoreRanges_eq _ (hsame.symm ▸ hspe) hw.prefix_pos hw.ready (holds_delivered _ size)
    cases heq.symm.trans hpack
    refine ⟨hspe'.trans hsame, hfro'.trans hsame', fun hm => (hmore hm).1, fun hm => ?_⟩
    rw [(hdone hm).2, hsame, hsame']

/-- When all ranges of a stored reply have been sent, the connection goes on to the next request if and only if the
last range ends where the reply does. -/
theorem clientWriteComplete_ranges_iff {raw : List HttpHdrRangeSpec} {t : Transfer}
    (hcanonize : httpHdrRangeCanonize body.length raw = .ok specs) (hne : specs ≠ []) (hcomplex : httpHdrRangeIsComplex specs = false)
    (hfront : 0 < prefixSize) (hsent : Sent specs info prefixSize body http false) (hget : t.method = methodGet)
    (hok : t.reply.status = httpOk) (hlength : t.reply.contentLength = body.length) (hhdr : t.reply.hdrSz = prefixSize)
    (hdone : t.doneCopying = true) : (clientGotNotEnough t http.outOffset = false ↔ t.reply.versionMajor < 1 ∨
      (specs.getLast hne).offset + (specs.getLast hne).length = t.reply.contentLength) ∧
    (t.entryAborted = false → t.chunkedResponse = false → t.readsBody = false → t.proxyKeepalive = true → ∀ size,
      (clientWriteComplete t http.outOffset size false = .clientKeepaliveNextRequest ↔ t.reply.versionMajor < 1 ∨
        (specs.getLast hne).offset + (specs.getLast hne).length = t.reply.contentLength)) := by
  have hoffset := (hsent.spec (canonized_of_isComplex hcanonize hcomplex) hcomplex hfront).2.2.2 rfl
  have hlast : lastStop specs = (specs.getLast hne).offset + (specs.getLast hne).length := by
    rw [lastStop, List.getLast?_eq_getLast_of_ne_nil hne, Option.elim_some]
  have heno : clientGotNotEnough t http.outOffset = false ↔ t.reply.versionMajor < 1 ∨
      (specs.getLast hne).offset + (specs.getLast hne).length = t.reply.contentLength := by
    have hnot : t.method ≠ methodHead := by rw [hget]; decide
    simp only [clientGotNotEnough, httpReplyBodySize, hok, hnot]
    by_cases hver : t.reply.versionMajor < 1
    · simp [hver]
    · simp only [hver, if_false]
      rw [if_neg (by omega), hoffset, hlast, hhdr]
      simp
  refine ⟨heno, fun habo hchu hrea hkee size => ?_⟩
  rw [← heno]
  have hche : clientCheckTransferDone t http.outOffset = true := by rw [clientCheckTransferDone, if_pos hdone]
  cases hsho : clientGotNotEnough t http.outOffset <;>
    simp [clientWriteComplete, hche, habo, hchu, hrea, hkee, hsho]

/-- A stored reply of five bytes under a header of 17, on a persistent connection. -/
def lettersTransfer : Transfer where
  method := methodGet
  reply := { versionMajor := 1, status := httpOk, contentLength := 5, hdrSz := 17 }
  storeStatus := .ok
  objectLen := 22
  doneCopying := true
  entryAborted := false
  chunkedResponse := false
  readsBody := false
  proxyKeepalive := true
  maxBodySize := 0

/-- The first two bytes and those from the fourth to the end. -/
theorem clientWriteComplete_twoRanges : ∃ http, Sent [⟨0, 2⟩, ⟨3, 2⟩] plainInfo 17 letters http false ∧
    clientWriteComplete lettersTransfer http.outOffset 5 false = .clientKeepaliveNextRequest := by
  have hsent : ∃ http, Sent [⟨0, 2⟩, ⟨3, 2⟩] plainInfo 17 letters http false := ⟨_, .next 5 (.start rfl) rfl⟩
  obtain ⟨http, hsent⟩ := hsent
  have hiff := (clientWriteComplete_ranges_iff (t := lettersTransfer) (by decide +kernel : httpHdrRangeCanonize _ twoRanges = _)
    (by decide) (by decide) (by decide) hsent rfl rfl rfl rfl rfl).2 rfl rfl rfl rfl 5
  exact ⟨http, hsent, hiff.2 (.inr (by decide))⟩

/-- After the first two bytes alone, which is all that was asked for, the connection is closed. -/
theorem clientWriteComplete_firstRange : httpHdrRangeCanonize letters.length [⟨0, 2⟩] = .ok [⟨0, 2⟩] ∧
    ∃ http, Sent [⟨0, 2⟩] plainInfo 17 letters http false ∧ clientGotNotEnough lettersTransfer http.outOffset = true ∧
      clientWriteComplete lettersTransfer http.outOffset 2 false = .commClose :=
  ⟨by decide +kernel, _, .next 5 (.start rfl) rfl, rfl, rfl⟩

end SquidVideoCache.Range
