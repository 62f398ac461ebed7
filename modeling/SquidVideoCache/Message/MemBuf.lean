import SquidVideoCache.Lib.Words

/-!
# Growing buffers, MemBuf.c and mem.c

A buffer that is full grows to a size of `mem.c`. What `memBufGrow` asks for is cut to
`max_capacity`, and may then have no room for the terminator.
-/

namespace SquidVideoCache.Message

open Lib List

/-- `buf` is all the memory of the buffer. The sizes are `int`s. -/
structure MemBuf where
  buf : List UInt8
  size : ℕ
  capacity : ℕ
  maxCapacity : ℕ
  stolen : Bool := false

/-- The gross size. -/
def memFindBufSizeType (net : ℕ) : ℕ :=
  if net ≤ 2 * 1024 then 2 * 1024
  else if net ≤ 4 * 1024 then 4 * 1024
  else if net ≤ 8 * 1024 then 8 * 1024
  else if net ≤ 16 * 1024 then 16 * 1024
  else if net ≤ 32 * 1024 then 32 * 1024
  else if net ≤ 64 * 1024 then 64 * 1024
  else net

def memReallocBuf (old : List UInt8) (net : ℕ) : List UInt8 :=
  let data := old.take net
  -- the rest of the new memory may hold anything
  data ++ List.replicate (memFindBufSizeType net - data.length) 0

/-- The loop stops at the next multiple of 64 KB. -/
def newCapacity (mb : MemBuf) (minCap : ℕ) : ℕ :=
  min (if minCap > 64 * 1024 then (minCap + 65535) / 65536 * 65536 else minCap) mb.maxCapacity

def memBufGrow (mb : MemBuf) (minCap : ℕ) : Exec MemBuf := do
  cAssert (!mb.stolen)
  cAssert (mb.capacity < minCap)
  cAssert (newCapacity mb minCap ≤ mb.maxCapacity)
  cAssert (newCapacity mb minCap > mb.capacity)
  .ok { mb with
    buf := memReallocBuf mb.buf (newCapacity mb minCap)
    capacity := memFindBufSizeType (newCapacity mb minCap) }

/-- `xmemcpy` to the place `i` of a buffer. -/
def memcpy (dst : List UInt8) (i : ℕ) (src : List UInt8) : Exec (List UInt8) :=
  if i + src.length ≤ dst.length then .ok (dst.take i ++ src ++ dst.drop (i + src.length)) else .error .bounds

def appendBytes (mb : MemBuf) (src : List UInt8) : Exec MemBuf := do
  let buf ← memcpy mb.buf mb.size src
  let buf ← store buf (mb.size + src.length : ℕ) 0
  .ok { mb with buf, size := mb.size + src.length }

/-- The sum is an `int`. -/
def makeRoom (mb : MemBuf) (sz : ℤ) : Exec MemBuf :=
  if toInt (mb.size + sz + 1) > mb.capacity then memBufGrow mb (toInt (mb.size + sz + 1)).toNat else .ok mb

def memBufAppend (mb : MemBuf) (buf : List UInt8) (sz : ℤ) : Exec MemBuf := do
  cAssert (sz ≥ 0)
  cAssert (!mb.stolen)
  if sz > 0 then
    let mb ← makeRoom mb sz
    cAssert (toInt (mb.size + sz) ≤ mb.capacity)
    appendBytes mb (buf.take sz.toNat)
  else .ok mb

/-! ## One call -/

def MemBuf.contents (mb : MemBuf) : List UInt8 := mb.buf.take mb.size

structure MemBuf.Ok (mb : MemBuf) : Prop where
  size : mb.size < mb.capacity
  buf : mb.buf.length = mb.capacity
  capacity : mb.capacity < 2 ^ 31
  maxCapacity : mb.maxCapacity < 2 ^ 31

/-- The sum of the sizes is no `int`, or its terminator has no room: where the sum is the largest
`int` the buffer does not grow, and otherwise it has its largest size afterwards. -/
def Overruns (mb : MemBuf) (sz : ℤ) : Prop := sz > 0 ∧ mb.stolen = false ∧
    (2 ^ 31 ≤ mb.size + sz ∨ (mb.size + sz + 1 = 2 ^ 31 ∧ mb.capacity + 1 = 2 ^ 31) ∨
      (mb.size + sz + 1 < 2 ^ 31 ∧ mb.capacity < mb.maxCapacity ∧
        mb.size + sz = memFindBufSizeType mb.maxCapacity))

/-- The old contents and the bytes are in the buffer, or an assertion fails. -/
def Appends (mb : MemBuf) (bytes : List UInt8) : Exec MemBuf → Prop :=
  Ends (· = .assertion) fun mb' => mb'.Ok ∧ mb'.contents = mb.contents ++ bytes

variable {mb : MemBuf} {buf src : List UInt8} {sz : ℤ} {n : ℕ}

lemma le_memFindBufSizeType (n : ℕ) : n ≤ memFindBufSizeType n ∧ memFindBufSizeType n ≤ max (2 ^ 16) n := by
  unfold memFindBufSizeType
  split_ifs <;> omega

lemma le_newCapacity (mb : MemBuf) (n : ℕ) : n ≤ newCapacity mb n ∨ newCapacity mb n = mb.maxCapacity := by
  unfold newCapacity
  split_ifs <;> omega

lemma appendBytes_of_ge (h : mb.buf.length ≤ mb.size + src.length) : appendBytes mb src = .error .bounds := by
  unfold appendBytes memcpy
  split_ifs with hle
  · -- the bytes have room, but not the terminator
    rw [ok_bind, store_natCast_of_ge, error_bind]
    simp
    omega
  · rfl

lemma appends_appendBytes (hok : mb.Ok) (src : List UInt8) (h : mb.size + src.length < mb.capacity) :
    Appends mb src (appendBytes mb src) := by
  have hbuf := hok.buf
  have hcopy : (mb.buf.take mb.size ++ src ++ mb.buf.drop (mb.size + src.length)).length = mb.capacity := by
    simp
    omega
  rw [appendBytes, memcpy, if_pos (by omega), ok_bind, store_natCast_of_lt (by omega)]
  refine ⟨⟨h, by rw [length_set, hcopy], hok.capacity, hok.maxCapacity⟩, ?_⟩
  rw [MemBuf.contents, take_set_of_le (Nat.le_refl _), take_left' (by simp; omega), MemBuf.contents]

lemma ends_cAssert (p : Prop) [Decidable p] : Ends (· = .assertion) (fun _ => p) (cAssert p) := by
  exact ends_ite id fun _ => rfl

/-- A buffer that has grown has room for what was asked for, or its largest size. -/
theorem memBufGrow_ends (hok : mb.Ok) (n : ℕ) : Ends (· = .assertion) (fun mb' => mb'.Ok ∧
    mb'.size = mb.size ∧ mb'.contents = mb.contents ∧ (n ≤ mb'.capacity ∨
      mb.capacity < mb.maxCapacity ∧ mb'.capacity = memFindBufSizeType mb.maxCapacity)) (memBufGrow mb n) := by
  obtain ⟨hsize, hbuf, hcap, hmax⟩ := hok
  apply (ends_cAssert _).bind
  rintro - -
  apply (ends_cAssert _).bind
  rintro - -
  apply (ends_cAssert _).bind
  rintro - hle
  apply (ends_cAssert _).bind
  rintro - hgt
  have hgro := le_memFindBufSizeType (newCapacity mb n)
  have htake : mb.buf.take (newCapacity mb n) = mb.buf := take_of_length_le (by omega)
  refine ⟨⟨?_, ?_, ?_, hmax⟩, rfl, ?_, ?_⟩
  · change mb.size < memFindBufSizeType (newCapacity mb n)
    omega
  · simp only [memReallocBuf, htake, length_append, length_replicate]
    omega
  · change memFindBufSizeType (newCapacity mb n) < 2 ^ 31
    omega
  · simp only [MemBuf.contents, memReallocBuf, htake]
    exact take_append_of_le_length (by omega)
  · rcases le_newCapacity mb n with hle' | heq
    · exact .inl (hle'.trans hgro.1)
    · rw [heq] at hgt ⊢
      exact .inr ⟨hgt, rfl⟩

lemma Overruns.fits (hpos : 0 < sz) (hsto : mb.stolen = false) (h : ¬ Overruns mb sz) : mb.size + sz < 2 ^ 31 := by
  by_contra hge
  exact h ⟨hpos, hsto, .inl (by omega)⟩

/-- A sum that wraps lets the buffer as it is. -/
theorem makeRoom_cases (mb : MemBuf) (hfits : mb.size + n < 2 ^ 31) :
    makeRoom mb n = .ok mb ∧ (mb.size + n < mb.capacity ∨ mb.size + n + 1 = 2 ^ 31) ∨
      makeRoom mb n = memBufGrow mb (mb.size + n + 1) ∧ mb.capacity ≤ mb.size + n ∧ mb.size + n + 1 < 2 ^ 31 := by
  unfold makeRoom
  by_cases hnext : mb.size + n + 1 < 2 ^ 31
  · rw [toInt_of_lt (by omega) (by omega)]
    split_ifs with hgt
    · exact .inr ⟨rfl, by omega, hnext⟩
    · exact .inl ⟨rfl, by omega⟩
  · have hwrap : toInt (mb.size + n + 1) < 0 := toInt_of_ge (by omega) (by omega)
    rw [if_neg (by omega)]
    exact .inl ⟨rfl, by omega⟩

/-- What is there afterwards is not just too small. -/
theorem makeRoom_ends (hok : mb.Ok) (hpos : 0 < n) (hsto : mb.stolen = false) (h : ¬ Overruns mb n)
    {r : Exec MemBuf} (hr : makeRoom mb n = r) : Ends (· = .assertion) (fun mb' => mb'.Ok ∧ mb'.size = mb.size ∧ mb'.contents = mb.contents ∧
      mb.size + n ≠ mb'.capacity) r := by
  have hfits := Overruns.fits (by omega) hsto h
  have hcas := makeRoom_cases mb (n := n) (by omega)
  rw [hr] at hcas
  obtain ⟨rfl, hroom⟩ | ⟨rfl, hle, hnext⟩ := hcas
  · refine ⟨hok, rfl, rfl, fun hsum => ?_⟩
    exact h ⟨by omega, hsto, .inr (.inl ⟨by omega, by omega⟩)⟩
  · apply (memBufGrow_ends hok _).mono
    rintro mb' ⟨hok', hsize, hcon, hroom⟩
    refine ⟨hok', hsize, hcon, fun hsum => ?_⟩
    rcases hroom with hroom | ⟨hlt, hroom⟩
    · omega
    · exact h ⟨by omega, hsto, .inr (.inr ⟨by omega, hlt, by omega⟩)⟩

lemma memBufAppend_appends (hok : mb.Ok) (hlen : sz ≤ buf.length) (h : ¬ Overruns mb sz) :
    Appends mb (buf.take sz.toNat) (memBufAppend mb buf sz) := by
  by_cases hpre : 0 < sz ∧ mb.stolen = false
  · obtain ⟨hpos, hsto⟩ := hpre
    lift sz to ℕ using hpos.le
    have hfits := Overruns.fits hpos hsto h
    have hsrc : (buf.take (sz : ℤ).toNat).length = sz := by rw [length_take]; omega
    rw [memBufAppend, cAssert_pos hpos.le, ok_bind, cAssert_pos (by simp [hsto]), ok_bind, if_pos hpos]
    generalize hr : makeRoom mb sz = r
    have hends := makeRoom_ends hok (by omega) hsto h hr
    cases r with
    | error e => exact hends
    | ok mb' =>
      rw [ok_bind, hends.2.1, toInt_of_lt (by omega) hfits, cAssert]
      obtain ⟨hok', hsize, hcon, hne⟩ := hends
      have happ := appends_appendBytes hok' (buf.take (sz : ℤ).toNat)
      split_ifs with hle
      · rw [Appends, hcon] at happ
        exact happ (by omega)
      · rfl
  · apply (ends_cAssert _).bind
    rintro - hnn
    apply (ends_cAssert _).bind
    rintro - hsto
    obtain rfl : sz = 0 := by
      by_contra hne
      exact hpre ⟨by omega, by simpa using hsto⟩
    simpa using hok

lemma memBufAppend_overruns (hok : mb.Ok) (hlen : sz ≤ buf.length) (hsz : sz < 2 ^ 31) (h : Overruns mb sz) :
    memBufAppend mb buf sz = .error .bounds := by
  obtain ⟨hpos, hsto, h⟩ := h
  lift sz to ℕ using hpos.le
  have hcap := hok.capacity
  have hsize := hok.size
  have hsrc : (buf.take (sz : ℤ).toNat).length = sz := by rw [length_take]; omega
  rw [memBufAppend, cAssert_pos (by omega), ok_bind, cAssert_pos (by simp [hsto]), ok_bind, if_pos hpos]
  have hmax := (le_memFindBufSizeType mb.maxCapacity).1
  by_cases hfits : mb.size + sz < 2 ^ 31
  · have hsum : toInt (mb.size + sz) = mb.size + sz := toInt_of_lt (by omega) (by omega)
    obtain ⟨heq, hroom⟩ | ⟨heq, hle, hnext⟩ := makeRoom_cases mb hfits
    · rw [heq, ok_bind, cAssert_pos (by omega)]
      exact appendBytes_of_ge (by rw [hok.buf]; omega)
    · obtain ⟨hlt, hgro⟩ : mb.capacity < mb.maxCapacity ∧ mb.size + sz = memFindBufSizeType mb.maxCapacity := by omega
      have hnew : newCapacity mb (mb.size + sz + 1) = mb.maxCapacity := by
        have hmin : newCapacity mb (mb.size + sz + 1) ≤ mb.maxCapacity := min_le_right _ _
        have := le_newCapacity mb (mb.size + sz + 1)
        omega
      have hgrow : ∃ mb', memBufGrow mb (mb.size + sz + 1) = .ok mb' ∧ mb'.capacity = mb.size + sz := by
        rw [memBufGrow, cAssert_pos (by simp [hsto]), cAssert_pos (by omega), hnew,
          cAssert_pos (Nat.le_refl _), cAssert_pos hlt]
        exact ⟨_, rfl, hgro.symm⟩
      obtain ⟨mb', hgrow, hcap'⟩ := hgrow
      obtain ⟨hok', hsize', -⟩ := (memBufGrow_ends hok _).ok_of_eq hgrow
      rw [heq, hgrow, ok_bind, hsize', cAssert_pos (by omega)]
      exact appendBytes_of_ge (by rw [hok'.buf]; omega)
  · -- both sums wrap, and the assertion lets them pass
    have hneg : toInt (mb.size + sz) < 0 := toInt_of_ge (by omega) (by omega)
    have hneg' : toInt (mb.size + sz + 1) < 0 := toInt_of_ge (by omega) (by omega)
    rw [makeRoom, if_neg (by omega), ok_bind, cAssert_pos (by omega)]
    exact appendBytes_of_ge (by rw [hok.buf]; omega)

/-! ## Runs -/

/-- A call with `sz` bytes of a buffer that has them. -/
structure Call where
  buf : List UInt8
  sz : ℤ
  le : sz ≤ buf.length
  lt : sz < 2 ^ 31

def AllAppended : MemBuf → List Call → Prop
  | _, [] => True
  | mb, c :: calls => Appends mb (c.buf.take c.sz.toNat) (memBufAppend mb c.buf c.sz) ∧
      ∀ mb', memBufAppend mb c.buf c.sz = .ok mb' → AllAppended mb' calls

def NoneOverruns : MemBuf → List Call → Prop
  | _, [] => True
  | mb, c :: calls => ¬ Overruns mb c.sz ∧
      ∀ mb', memBufAppend mb c.buf c.sz = .ok mb' → NoneOverruns mb' calls

/-- Every call of a run appends its bytes inside the buffer or stops at an assertion, unless one overruns the buffer. -/
theorem memBufAppend_run_iff (hok : mb.Ok) (calls : List Call) : AllAppended mb calls ↔ NoneOverruns mb calls := by
  induction calls generalizing mb with
  | nil => exact Iff.rfl
  | cons c calls ih =>
    have hcall : Appends mb (c.buf.take c.sz.toNat) (memBufAppend mb c.buf c.sz) ↔ ¬ Overruns mb c.sz := by
      refine ⟨fun happ hover => ?_, memBufAppend_appends hok c.le⟩
      rw [memBufAppend_overruns hok c.le c.lt hover] at happ
      cases happ
    constructor
    · rintro ⟨happ, hrest⟩
      exact ⟨hcall.mp happ, fun mb' heq => (ih (happ.ok_of_eq heq).1).mp (hrest mb' heq)⟩
    · rintro ⟨hnot, hrest⟩
      have happ := hcall.mpr hnot
      exact ⟨happ, fun mb' heq => (ih (happ.ok_of_eq heq).1).mpr (hrest mb' heq)⟩

/-- An empty buffer of 2 KB that may grow to 4 KB. -/
def smallBuf : MemBuf := { buf := List.replicate 2048 0, size := 0, capacity := 2048, maxCapacity := 4096 }

lemma smallBuf_ok : smallBuf.Ok := ⟨by decide, length_replicate, by decide, by decide⟩

theorem memBufAppend_run_three : AllAppended smallBuf [⟨[1, 2, 3], 3, by decide, by decide⟩] := by
  refine (memBufAppend_run_iff smallBuf_ok _).mpr ⟨?_, fun _ _ => trivial⟩
  rintro ⟨-, -, h | ⟨h, -⟩ | ⟨-, -, h⟩⟩
  all_goals exact absurd h (by decide)

/-- The terminator of 4096 bytes is written behind the buffer. -/
theorem memBufAppend_terminator : memBufAppend smallBuf (List.replicate 4096 1) 4096 = .error .bounds := by
  refine memBufAppend_overruns smallBuf_ok ?_ (by decide) ?_
  · rw [length_replicate]
    decide
  · exact ⟨by decide, rfl, .inr (.inr ⟨by decide, by decide, rfl⟩)⟩

end SquidVideoCache.Message
