import SquidVideoCache.Lib.CString

/-!
# libvideoreg

One function a video site, selected by the flag of the keyword that matched. Each
looks for two marks in the URL and copies what stands between them to `id`. The
pointers into the URL are offsets here, and their differences are signed.
-/

namespace SquidVideoCache.VideoReg
open Lib

/-- `MAX_LEN`, the size of the callers' buffers. -/
def maxLen : ℕ := 2048

/-- A buffer after `memset(buf, 0, sizeof(buf))`. -/
def zeroed : List UInt8 := List.replicate maxLen 0

def slash : UInt8 := 47

def youkuMark : List UInt8 := ascii ['/', 'y', 'o', 'u', 'k', 'u', '/']
def dotFlv : List UInt8 := ascii ['.', 'f', 'l', 'v']
def dotMp4 : List UInt8 := ascii ['.', 'm', 'p', '4']
def flvNk : List UInt8 := ascii ['.', 'f', 'l', 'v', '?', 'n', 'k', '=']
def mp4Nk : List UInt8 := ascii ['.', 'm', 'p', '4', '?', 'n', 'k', '=']
def letvMark : List UInt8 := ascii ['/', 'l', 'e', 't', 'v', '-', 'u', 't', 's', '/']
def verMark : List UInt8 := ascii ['v', 'e', 'r', '_']
def dotTs : List UInt8 := ascii ['.', 't', 's']

/-- `while ((*youkuIDstart++) != '/' && *youkuIDstart != '\0') ;` over the rest of the URL:
how far the pointer moves. At the terminator it steps over the NUL and reads on. -/
def skipToSlash : List UInt8 → Exec ℕ
  | [] => .error .bounds
  | c :: rest => if c = slash ∨ rest = [] then .ok 1 else (skipToSlash rest).map (· + 1)

/-- The return value and the contents of `id`. -/
abbrev Extracted := ℤ × List UInt8

/-- `strncpy(id, start, n); id[n + 1] = '\0'; return 1;` -/
def copyID (id src : List UInt8) (n : ℤ) : Exec Extracted := do
  let id ← strncpy id src n
  let id ← store id (n + 1) 0
  return (1, id)

def youkuExtractID (url : CString) (id : List UInt8) : Exec Extracted :=
  let strstr := fun needle => strstr needle url.bytes
  if (strstr youkuMark).isSome ∧ (strstr flvNk).isSome then .ok (0, id)
  else if (strstr youkuMark).isSome ∧ (strstr mp4Nk).isSome then .ok (0, id)
  else match strstr youkuMark, (strstr dotFlv).or (strstr dotMp4) with
    | some youkubegin, some youkuIDend => do
      let skip ← skipToSlash (url.bytes.drop (youkubegin + 7))
      let youkuIDstart := youkubegin + 7 + skip
      let n : ℤ := youkuIDend + 4 - youkuIDstart
      if 1024 < n then .ok (0, id) else copyID id (url.bytes.drop youkuIDstart) n
    | _, _ => .ok (0, id)

def letvExtractID (url : CString) (id : List UInt8) : Exec Extracted :=
  let strstr := fun needle => strstr needle url.bytes
  match strstr letvMark, strstr verMark, strstr dotTs with
  | some _, some letvIDstart, some letvIDend =>
    copyID id (url.bytes.drop letvIDstart) (letvIDend - letvIDstart + 3)
  | _, _, _ => .ok (0, id)

/-- The registered entries of `pf`; the others are `NULL`. -/
def pf : List (CString → List UInt8 → Exec Extracted) := [youkuExtractID, letvExtractID]

def selectFunc (url : CString) (id : List UInt8) (flag : ℤ) : Exec Extracted :=
  if flag < 100 ∨ 999 < flag then .ok (0, id)
  else match pf[(flag - 100).toNat]? with
    | some extract => extract url id
    | none => .ok (0, id)

end SquidVideoCache.VideoReg
