import SquidVideoCache.Range.Model

/-!
# What a range reply consists of

`remaining` is what is still to be sent in a state of the iterator.
-/

namespace SquidVideoCache.Range
open Lib List Option

/-- The spec is a part of a body of the given length. -/
structure Canonized (clen : ℤ) (spec : HttpHdrRangeSpec) : Prop where
  offset_nonneg : 0 ≤ spec.offset
  length_pos : 0 < spec.length
  stop_le : spec.offset + spec.length ≤ clen

variable {n clen off : ℤ} {spec : HttpHdrRangeSpec} {i : HttpHdrRangeIter} {buf : List UInt8}
  {http : ClientHttpRequest}

lemma toOff_le (h : 0 ≤ n) : toOff n ≤ n := by
  unfold toOff
  rw [Int.bmod_def]
  omega

lemma canonized_of_httpHdrRangeSpecCanonize {good : HttpHdrRangeSpec}
    (h : httpHdrRangeSpecCanonize spec clen = .ok (good, true)) :
    0 < good.length ∧ (0 ≤ good.offset → Canonized clen good) := by
  obtain ⟨_, -, h⟩ := bind_eq_ok.mp h
  obtain ⟨_, -, h⟩ := bind_eq_ok.mp h
  simp only [pure_eq_ok, Except.ok.injEq, Prod.mk.injEq, decide_eq_true_eq] at h
  obtain ⟨rfl, hpos⟩ := h
  generalize (if spec.offset = unknown then { spec with offset := sizeDiff clen spec.length }
      else if spec.length = unknown then { spec with length := sizeDiff clen spec.offset } else spec) = known at *
  refine ⟨hpos, fun hoffset => ⟨hoffset, hpos, ?_⟩⟩
  have hle := toOff_le (n := clen - known.offset)
  simp only [sizeMin, sizeDiff] at hpos ⊢
  split_ifs at hpos ⊢ <;> omega

lemma canonized_of_httpHdrRangeCanonize {specs goods : List HttpHdrRangeSpec}
    (h : httpHdrRangeCanonize clen specs = .ok goods) :
    ∀ spec ∈ goods, 0 < spec.length ∧ (0 ≤ spec.offset → Canonized clen spec) := by
  induction specs generalizing goods with
  | nil =>
    rw [httpHdrRangeCanonize, Except.ok.injEq] at h
    simp [← h]
  | cons spec specs ih =>
    rw [httpHdrRangeCanonize, bind_eq_ok] at h
    obtain ⟨⟨spec', good⟩, hcan, h⟩ := h
    obtain ⟨goods', hgoo, h⟩ := bind_eq_ok.mp h
    have hgoo := ih hgoo
    rw [pure_eq_ok, Except.ok.injEq] at h
    subst h
    split_ifs with hgood
    · exact forall_mem_cons.mpr ⟨canonized_of_httpHdrRangeSpecCanonize (hgood ▸ hcan), hgoo⟩
    · exact hgoo

lemma offset_nonneg_of_isComplexFrom {a : ℤ} {specs : List HttpHdrRangeSpec} (ha : 0 ≤ a)
    (hlength : ∀ spec ∈ specs, 0 < spec.length) (h : isComplexFrom a specs = false) :
    ∀ spec ∈ specs, 0 ≤ spec.offset := by
  induction specs generalizing a with
  | nil => simp
  | cons spec specs ih =>
    obtain ⟨hpos, hrest⟩ := forall_mem_cons.mp hlength
    unfold isComplexFrom at h
    split_ifs at h with hlt
    exact forall_mem_cons.mpr ⟨by omega, ih (by omega) hrest h⟩

lemma canonized_of_isComplex {raw specs : List HttpHdrRangeSpec} (hcan : httpHdrRangeCanonize clen raw = .ok specs)
    (hcom : httpHdrRangeIsComplex specs = false) : ∀ spec ∈ specs, Canonized clen spec := by
  have hgood := canonized_of_httpHdrRangeCanonize hcan
  have hoffset := offset_nonneg_of_isComplexFrom le_rfl (fun spec hspec => (hgood spec hspec).1) hcom
  exact fun spec hspec => (hgood spec hspec).2 (hoffset spec hspec)

def slice (body : List UInt8) (offset length : ℤ) : List UInt8 := (body.drop offset.toNat).take length.toNat

variable (specs : List HttpHdrRangeSpec) (info : PartInfo) (body : List UInt8)

/-- What is left of a range, with its header if nothing of it has been sent. -/
def part (spec : HttpHdrRangeSpec) (debt : ℤ) : List UInt8 :=
  (if specs.length > 1 ∧ debt = spec.length then clientPackRangeHdr info spec else []) ++
    slice body (spec.offset + spec.length - debt) debt

def ending : List UInt8 := if specs.length > 1 then clientPackTermBound info else []

def ahead (i : HttpHdrRangeIter) : List HttpHdrRangeSpec := specs.drop (i.pos + 1).toNat

def remaining (i : HttpHdrRangeIter) : List UInt8 :=
  (if i.debtSize = 0 then [] else i.spec.elim [] fun spec => part specs info body spec i.debtSize) ++
    (ahead specs i).flatMap (fun spec => part specs info body spec spec.length) ++ ending specs info

def stop (i : HttpHdrRangeIter) : ℤ := i.spec.elim 0 fun spec => spec.offset + spec.length

def lastStop : ℤ := specs.getLast?.elim 0 fun spec => spec.offset + spec.length

variable {specs info body}

/-- The iterator is at a spec or before the first one, and the data from `off` on has not been missed. -/
structure Ready (specs : List HttpHdrRangeSpec) (body : List UInt8) (i : HttpHdrRangeIter) (off : ℤ) : Prop where
  pos_ge : -1 ≤ i.pos
  pos_lt : i.pos < specs.length
  at_pos : i.spec = if i.pos < 0 then none else specs[i.pos.toNat]?
  ordered : isComplexFrom (stop i) (ahead specs i) = false
  canonized : ∀ spec ∈ i.spec, Canonized body.length spec
  debt_nonneg : 0 ≤ i.debtSize
  debt_le : i.debtSize ≠ 0 → ∃ spec, i.spec = some spec ∧ i.debtSize ≤ spec.length
  off_nonneg : 0 ≤ off
  off_le : off ≤ stop i - i.debtSize
  off_eq : ∀ spec ∈ i.spec, i.debtSize ≠ spec.length → off = stop i - i.debtSize

lemma Ready.advance {off' : ℤ} (h : Ready specs body i off) (hle : off ≤ off')
    (hstop : off' ≤ stop i - i.debtSize) : Ready specs body i off' :=
  { h with
    off_nonneg := h.off_nonneg.trans hle
    off_le := hstop
    off_eq := fun spec hspec hne => le_antisymm hstop ((h.off_eq spec hspec hne).symm.le.trans hle) }

lemma Ready.off_eq_stop (h : Ready specs body i off) (hdebt : i.debtSize = 0) : off = stop i := by
  have hle := h.off_le
  have hnn := h.off_nonneg
  cases hspec : i.spec with
  | none =>
    simp only [stop, hspec, elim_none] at hle ⊢
    omega
  | some spec =>
    have hpos := (h.canonized spec hspec).length_pos
    have heq := h.off_eq spec hspec (by omega)
    omega

lemma Ready.stop_eq (h : Ready specs body i off) (hlen : specs.length ≤ (i.pos + 1).toNat) :
    stop i = lastStop specs := by
  have hlt := h.pos_lt
  have hlast : i.spec = specs.getLast? := by
    rw [h.at_pos, getLast?_eq_getElem?]
    split_ifs with hneg
    · exact (getElem?_eq_none (by omega)).symm
    · congr 1
      omega
  rw [stop, hlast, lastStop]

lemma ahead_of_getElem (hpos : -1 ≤ i.pos) (h : specs[(i.pos + 1).toNat]? = some spec) :
    ahead specs i = spec :: ahead specs { i with pos := i.pos + 1 } := by
  obtain ⟨hlt, rfl⟩ := List.getElem?_eq_some_iff.mp h
  have hnext : (i.pos + 1 + 1).toNat = (i.pos + 1).toNat + 1 := by omega
  simp only [ahead, hnext]
  exact drop_eq_getElem_cons hlt

/-- The buffer holds the bytes of the body from `off` on. -/
def Holds (body buf : List UInt8) (off : ℤ) : Prop := buf <+: body.drop off.toNat

lemma Holds.take (h : Holds body buf off) {n : ℕ} (hn : n ≤ buf.length) : buf.take n = slice body off n := by
  obtain ⟨rest, hrest⟩ := h
  rw [slice, Int.toNat_natCast, ← hrest, take_append_of_le_length hn]

lemma Holds.drop (h : Holds body buf off) (hoff : 0 ≤ off) {n : ℕ}
    (hn : n ≤ buf.length) : Holds body (buf.drop n) (off + n) := by
  obtain ⟨rest, hrest⟩ := h
  refine ⟨rest, ?_⟩
  have heq : (off + n).toNat = off.toNat + n := by omega
  rw [heq, ← drop_drop, ← hrest, drop_append_of_le_length hn]

/-- What has been packed and what remains is the whole. -/
structure Packs (specs : List HttpHdrRangeSpec) (info : PartInfo) (body : List UInt8) (front : ℤ) (whole : List UInt8)
    (p : Packing) : Prop where
  front_eq : p.iter.prefixSize = front
  whole_eq : p.mb ++ remaining specs info body p.iter = whole
  ready : Ready specs body p.iter p.bodyOff
  holds : Holds body p.buf p.bodyOff

/-- The iterator is at a range with something left, or at the end. -/
def Stands (specs : List HttpHdrRangeSpec) (info : PartInfo) (body : List UInt8) (front : ℤ) (whole : List UInt8)
    (p : Packing) : Prop :=
  (∃ spec, p.iter.spec = some spec ∧ 0 < p.iter.debtSize ∧ Packs specs info body front whole p) ∨
    p.iter.spec = none ∧ p.iter.debtSize = 0 ∧ p.iter.prefixSize = front ∧ p.mb ++ ending specs info = whole ∧
      p.bodyOff = lastStop specs

variable {front : ℤ} {whole : List UInt8} {p : Packing}

lemma Packs.clientCanPackMoreRanges (h : Packs specs info body front whole p)
    (hspe : ∀ spec ∈ specs, Canonized body.length spec) (size : ℕ) :
    ∃ i, Range.clientCanPackMoreRanges specs p.iter size = .ok (i, i.spec.isSome ∧ size > 0) ∧
      Stands specs info body front whole { p with iter := i } := by
  have hrea := h.ready
  have hwho := h.whole_eq
  by_cases hdebt : p.iter.debtSize = 0
  · have hget : httpHdrRangeGetSpec specs p.iter.pos = .ok (specs[(p.iter.pos + 1).toNat]?, p.iter.pos + 1) := by
      rw [httpHdrRangeGetSpec, cAssert_pos ⟨hrea.pos_ge, hrea.pos_lt⟩]
      rfl
    rw [remaining, if_pos hdebt] at hwho
    cases hspec : specs[(p.iter.pos + 1).toNat]? with
    | none =>
      have hlen := getElem?_eq_none_iff.mp hspec
      have hahe : ahead specs p.iter = [] := drop_eq_nil_iff.mpr hlen
      rw [hahe] at hwho
      refine ⟨{ p.iter with spec := none, pos := p.iter.pos + 1 }, ?_, .inr ⟨rfl, hdebt, h.front_eq, hwho, ?_⟩⟩
      · simp [Range.clientCanPackMoreRanges, hdebt, hget, hspec, cAssert]
      · exact (hrea.off_eq_stop hdebt).trans (hrea.stop_eq hlen)
    | some spec =>
      have hcan := hspe spec (mem_of_getElem? hspec)
      have hpos := hcan.length_pos
      have hahe := ahead_of_getElem hrea.pos_ge hspec
      refine ⟨{ p.iter with spec := some spec, pos := p.iter.pos + 1, debtSize := spec.length }, ?_,
        .inl ⟨spec, rfl, hpos, h.front_eq, ?_, ?_, h.holds⟩⟩
      · simp [Range.clientCanPackMoreRanges, hdebt, hget, hspec, cAssert, hpos.ne']
      · simp only [← hwho, remaining, hahe, hpos.ne']
        simp [ahead]
      · -- the ranges are in order
        have hord := hrea.ordered
        have hoff := hrea.off_le
        rw [hahe, isComplexFrom] at hord
        split_ifs at hord with hlt
        obtain ⟨hlen, -⟩ := List.getElem?_eq_some_iff.mp hspec
        have hge := hrea.pos_ge
        constructor
        · simp only
          omega
        · simp only
          omega
        · rw [if_neg (by simp only; omega)]
          exact hspec.symm
        · exact hord
        · simpa using hcan
        · exact hpos.le
        · exact fun _ => ⟨spec, rfl, le_rfl⟩
        · exact hrea.off_nonneg
        · simp only [stop, elim_some] at hlt ⊢
          simp only [stop] at hoff
          omega
        · simp
  · obtain ⟨spec, hspec, hle⟩ := hrea.debt_le hdebt
    have hpos : 0 < p.iter.debtSize := lt_of_le_of_ne hrea.debt_nonneg (Ne.symm hdebt)
    refine ⟨p.iter, ?_, .inl ⟨spec, hspec, hpos, h⟩⟩
    simp [Range.clientCanPackMoreRanges, hdebt, cAssert, hspec]

lemma slice_split (offset : ℤ) {length : ℤ} (hoffset : 0 ≤ offset) (hn : 0 ≤ n) (hle : n ≤ length) :
    slice body offset length = slice body offset n ++ slice body (offset + n) (length - n) := by
  have hlen : length.toNat = n.toNat + (length - n).toNat := by omega
  have hoff : (offset + n).toNat = offset.toNat + n.toNat := by omega
  rw [slice, slice, slice, hlen, hoff, ← drop_drop, take_add]

/-- The header comes with the first bytes of a range only. -/
theorem part_split {debt : ℤ} (hoffset : 0 ≤ spec.offset) (hn : 0 < n) (hle : n ≤ debt)
    (hdebt : debt ≤ spec.length) : part specs info body spec debt =
      (if specs.length > 1 ∧ debt = spec.length then clientPackRangeHdr info spec else []) ++
        slice body (spec.offset + spec.length - debt) n ++
        (if debt - n = 0 then [] else part specs info body spec (debt - n)) := by
  have hlat : debt - n ≠ spec.length := by omega
  have hnext : spec.offset + spec.length - debt + n = spec.offset + spec.length - (debt - n) := by omega
  rw [part, slice_split _ (by omega) hn.le hle, hnext]
  split_ifs with hmul hdone hdone
  · simp [hdone, slice]
  · simp [part, hlat]
  · simp [hdone, slice]
  · simp [part, hlat]

lemma Packs.clientPackRange (h : Packs specs info body front whole p)
    (hspec : p.iter.spec = some spec) (hdebt : 0 < p.iter.debtSize)
    (hstart : p.bodyOff = spec.offset + spec.length - p.iter.debtSize) (hne : p.buf ≠ []) :
    ∃ q, Range.clientPackRange specs info spec p = .ok q ∧ Packs specs info body front whole q ∧
      q.bodyOff + q.buf.length = p.bodyOff + p.buf.length ∧ q.buf.length < p.buf.length := by
  have hrea := h.ready
  obtain ⟨spec', hspec', hle⟩ := hrea.debt_le hdebt.ne'
  obtain rfl : spec' = spec := some.inj (hspec'.symm.trans hspec)
  have hoffset := (hrea.canonized spec' hspec).offset_nonneg
  have hsize : 0 < p.buf.length := length_pos_of_ne_nil hne
  obtain ⟨copySz, hcopy⟩ : ∃ copySz : ℕ,
      copySz = if p.iter.debtSize ≤ p.buf.length then p.iter.debtSize.toNat else p.buf.length := ⟨_, rfl⟩
  obtain ⟨hcop, hcopyPos, hcopyDebt⟩ :
      copySz ≤ p.buf.length ∧ 0 < copySz ∧ (copySz : ℤ) ≤ p.iter.debtSize := by
    split_ifs at hcopy <;> omega
  refine ⟨⟨{ p.iter with debtSize := p.iter.debtSize - copySz }, p.bodyOff + copySz, p.buf.drop copySz,
    (if specs.length > 1 ∧ p.iter.debtSize = spec'.length then p.mb ++ clientPackRangeHdr info spec' else p.mb) ++
      p.buf.take copySz⟩, ?_, ⟨h.front_eq, ?_, ?_, h.holds.drop hrea.off_nonneg hcop⟩, ?_, ?_⟩
  · simp only [Range.clientPackRange, ← hcopy]
    rw [cAssert_pos hsize, cAssert_pos (by omega), cAssert_pos (by omega), cAssert_pos (by omega)]
    rfl
  · simp only [← h.whole_eq, remaining, hdebt.ne', if_false, hspec, elim_some,
      part_split hoffset (Int.natCast_pos.mpr hcopyPos) hcopyDebt hle, h.holds.take hcop, hstart, ahead]
    split_ifs <;> simp
  · exact { hrea with
      debt_nonneg := by simp only; omega
      debt_le := fun _ => ⟨spec', hspec, by simp only; omega⟩
      off_nonneg := by simp only; omega
      off_le := by simp only [stop, hspec, elim_some]; omega
      off_eq := fun _ _ _ => by simp only [stop, hspec, elim_some]; omega }
  · simp only [length_drop]
    omega
  · simp only [length_drop]
    omega

/-- The induction is on the rounds. Each moves bytes from what remains to the output. -/
theorem Packs.packLoop (hspe : ∀ spec ∈ specs, Canonized body.length spec) {fuel : ℕ}
    (h : Packs specs info body front whole p) (hfuel : p.buf.length < fuel) :
    ∃ q, Range.packLoop specs info fuel p = .ok q ∧ Stands specs info body front whole q ∧
      (q.iter.spec ≠ none → q.bodyOff = p.bodyOff + p.buf.length) := by
  induction fuel generalizing p with
  | zero => omega
  | succ fuel ih =>
    obtain ⟨i, hcan, hsta⟩ := h.clientCanPackMoreRanges hspe _
    rw [Range.packLoop, hcan, ok_bind]
    rcases hsta with ⟨spec, hspec, hdebt, hi⟩ | hdone
    · change i.spec = some spec at hspec
      by_cases hne : p.buf = []
      · exact ⟨{ p with iter := i }, by simp [hne], .inl ⟨spec, hspec, hdebt, hi⟩, by simp [hne]⟩
      · have hsize : 0 < p.buf.length := length_pos_of_ne_nil hne
        have hstop : stop i = spec.offset + spec.length := by simp [stop, hspec]
        have hle : p.bodyOff ≤ stop i - i.debtSize := hi.ready.off_le
        rw [hstop] at hle
        simp only [hspec, isSome_some, hsize, and_self, decide_true]
        rw [cAssert_pos hle]
        split_ifs with hrea
        · obtain ⟨skip, hskip⟩ := Int.eq_ofNat_of_zero_le (sub_nonneg.mpr hle)
          have hstart : spec.offset + spec.length - i.debtSize = p.bodyOff + skip := by omega
          rw [hskip, Int.toNat_natCast]
          have hski : Packs specs info body front whole
              ⟨i, spec.offset + spec.length - i.debtSize, p.buf.drop skip, p.mb⟩ :=
            { hi with
              ready := hi.ready.advance hle (by rw [hstop])
              holds := by rw [hstart]; exact h.holds.drop h.ready.off_nonneg (by omega) }
          obtain ⟨q, hpack, hq, hqsum, hqlt⟩ := hski.clientPackRange hspec hdebt rfl
            (ne_nil_of_length_pos (by rw [length_drop]; omega))
          simp only [length_drop] at hqlt hqsum
          obtain ⟨q', hloop, hsta, hoff⟩ := ih hq (by omega)
          rw [hpack]
          exact ⟨q', hloop, hsta, fun hsome => by rw [hoff hsome]; omega⟩
        · have hski : Packs specs info body front whole ⟨i, p.bodyOff + p.buf.length, [], p.mb⟩ := { hi with
              ready := hi.ready.advance (by simp only; omega) (by simp only; omega)
              holds := nil_prefix }
          obtain ⟨q, hloop, hsta, hoff⟩ := ih hski (by simp; omega)
          exact ⟨q, hloop, hsta, fun hsome => by simpa using hoff hsome⟩
    · have hspec : i.spec = none := hdone.1
      exact ⟨{ p with iter := i }, by simp [hspec], .inr hdone, by simp [hspec]⟩

/-- Between two calls: the data that is missing is asked for. -/
structure Waiting (body : List UInt8) (http : ClientHttpRequest) : Prop where
  prefix_pos : 0 < http.iter.prefixSize
  ready : Ready http.specs body http.iter (http.outOffset - http.iter.prefixSize)
  debt_pos : 0 < http.iter.debtSize
  asks : http.outOffset - http.iter.prefixSize = stop http.iter - http.iter.debtSize

lemma clientPackMoreRanges_eq (http : ClientHttpRequest) (hspe : ∀ spec ∈ http.specs, Canonized body.length spec)
    (hfro : 0 < http.iter.prefixSize) (hrea : Ready http.specs body http.iter (http.outOffset - http.iter.prefixSize))
    (hbuf : Holds body buf (http.outOffset - http.iter.prefixSize)) :
    ∃ http' mb more, clientPackMoreRanges http buf = .ok (http', mb, more) ∧
      http'.specs = http.specs ∧ http'.info = http.info ∧ http'.iter.prefixSize = http.iter.prefixSize ∧
      (more = true → Waiting body http' ∧
        mb ++ remaining http.specs http.info body http'.iter = remaining http.specs http.info body http.iter ∧
        http.outOffset - http.iter.prefixSize + buf.length ≤ http'.outOffset - http'.iter.prefixSize) ∧
      (more = false → mb = remaining http.specs http.info body http.iter ∧
        http'.outOffset = lastStop http.specs + http.iter.prefixSize) := by
  have hpac : Packs http.specs http.info body http.iter.prefixSize (remaining http.specs http.info body http.iter)
      ⟨http.iter, http.outOffset - http.iter.prefixSize, buf, []⟩ := ⟨rfl, rfl, hrea, hbuf⟩
  obtain ⟨p, hloop, hsta, hoff⟩ := hpac.packLoop hspe (Nat.lt_succ_self _)
  rw [clientPackMoreRanges, cAssert_pos hfro, ok_bind, hloop, ok_bind]
  rcases hsta with ⟨spec, hspec, hdebt, hp⟩ | ⟨hspec, hdebt, hpfr, hwho, hlast⟩
  · have hpfr := hp.front_eq
    have hstop : stop p.iter = spec.offset + spec.length := by simp [stop, hspec]
    have hsync : p.iter.debtSize = spec.length ∨ p.bodyOff = spec.offset + spec.length - p.iter.debtSize := by
      by_cases hlen : p.iter.debtSize = spec.length
      · exact .inl hlen
      · exact .inr ((hp.ready.off_eq spec hspec hlen).trans (by rw [hstop]))
    -- in both cases the next byte that is asked for is the first one that is missing
    have hnext : (if p.iter.debtSize = spec.length then spec.offset else p.bodyOff) =
        stop p.iter - p.iter.debtSize := by
      split_ifs <;> omega
    refine ⟨{ http with iter := p.iter, outOffset := stop p.iter - p.iter.debtSize + p.iter.prefixSize }, p.mb, true,
      ?_, rfl, rfl, hpfr, fun _ => ⟨⟨?_, ?_, hdebt, ?_⟩, hp.whole_eq, ?_⟩, nofun⟩
    · rw [cAssert_pos (by simp [hdebt.ne', hspec])]
      simp only [hspec]
      rw [cAssert_pos hsync, hnext]
      simp [hdebt]
    · simpa [hpfr] using hfro
    · simp only [add_sub_cancel_right]
      exact hp.ready.advance hp.ready.off_le le_rfl
    · simp
    · simp only [add_sub_cancel_right]
      rw [← hoff (by simp [hspec])]
      exact hp.ready.off_le
  · refine ⟨{ http with iter := p.iter, outOffset := p.bodyOff + p.iter.prefixSize },
      if http.specs.length > 1 then p.mb ++ clientPackTermBound http.info else p.mb, false, ?_, rfl, rfl, hpfr, nofun, fun _ => ⟨?_, ?_⟩⟩
    · rw [cAssert_pos (by simp [hdebt, hspec])]
      simp [hdebt, hspec]
    · rw [← hwho, ending]
      split_ifs <;> simp
    · simp [hlast, hpfr]

lemma holds_delivered (http : ClientHttpRequest) (size : ℕ) :
    Holds body (delivered body http size) (http.outOffset - http.iter.prefixSize) :=
  take_prefix _ _

lemma Waiting.length_delivered (h : Waiting body http) {size : ℕ} (hsize : 0 < size) :
    0 < (delivered body http size).length ∧ http.outOffset - http.iter.prefixSize < body.length := by
  obtain ⟨spec, hspec, -⟩ := h.ready.debt_le h.debt_pos.ne'
  have hstop := (h.ready.canonized spec hspec).stop_le
  have hasks := h.asks
  have hdebt := h.debt_pos
  have hoff := h.ready.off_nonneg
  rw [stop, hspec, elim_some] at hasks
  simp only [delivered, length_take, length_drop]
  omega

lemma sendBuffers_eq (hspe : ∀ spec ∈ http.specs, Canonized body.length spec)
    (h : Waiting body http) {sizes : List ℕ} (hsiz : ∀ size ∈ sizes, 0 < size) :
    ∃ out more, sendBuffers body http sizes = .ok (out, more) ∧ out <+: remaining http.specs http.info body http.iter ∧
      (more = false → out = remaining http.specs http.info body http.iter) ∧
      (body.length ≤ http.outOffset - http.iter.prefixSize + sizes.length → more = false) := by
  induction sizes generalizing http with
  | nil =>
    have hlt := (h.length_delivered Nat.one_pos).2
    refine ⟨[], true, rfl, nil_prefix, nofun, fun hle => ?_⟩
    simp only [length_nil] at hle
    omega
  | cons size sizes ih =>
    obtain ⟨hsize, hsiz⟩ := forall_mem_cons.mp hsiz
    obtain ⟨http', mb, more, hpack, hspe', hinfo, -, hmore, hdone⟩ :=
      clientPackMoreRanges_eq http hspe h.prefix_pos h.ready (holds_delivered http size)
    rw [sendBuffers, hpack]
    cases more with
    | false =>
      have hall := (hdone rfl).1
      exact ⟨mb, false, rfl, hall ▸ prefix_rfl, fun _ => hall, fun _ => rfl⟩
    | true =>
      obtain ⟨hwai, hsent, hpro⟩ := hmore rfl
      obtain ⟨out, more, hsend, hpre, hall, hend⟩ := ih (by rw [hspe']; exact hspe) hwai hsiz
      rw [hspe', hinfo] at hpre hall
      refine ⟨mb ++ out, more, ?_, ?_, fun hm => ?_, fun hle => ?_⟩
      · simp [hsend]
      · rw [← hsent]
        exact (prefix_append_right_inj mb).mpr hpre
      · rw [← hsent, hall hm]
      · have hbuf := (h.length_delivered hsize).1
        apply hend
        simp only [length_cons] at hle
        omega

/-! ## The whole reply -/

/-- One range is sent as it is, several ones as parts. -/
def rangeReply (info : PartInfo) (body : List UInt8) : List HttpHdrRangeSpec → List UInt8
  | [spec] => slice body spec.offset spec.length
  | specs => specs.flatMap (fun spec => clientPackRangeHdr info spec ++ slice body spec.offset spec.length) ++
      clientPackTermBound info

lemma remaining_init (info : PartInfo) (hne : specs ≠ []) (prefixSize : ℤ) :
    remaining specs info body { prefixSize } = rangeReply info body specs := by
  match specs with
  | [] => exact absurd rfl hne
  | [spec] => simp [remaining, ahead, part, ending, rangeReply]
  | spec₁ :: spec₂ :: specs => simp [remaining, ahead, part, ending, rangeReply]

lemma ready_init (hcom : httpHdrRangeIsComplex specs = false) (prefixSize : ℤ) :
    Ready specs body { prefixSize } 0 := by
  constructor
  all_goals simp [stop]
  · omega
  · exact hcom

lemma length_slice (h : Canonized body.length spec) :
    ((slice body spec.offset spec.length).length : ℤ) = spec.length := by
  obtain ⟨hoffset, hlength, hstop⟩ := h
  simp only [slice, length_take, length_drop]
  omega

lemma length_rangeReply (info : PartInfo) (hspe : ∀ spec ∈ specs, Canonized body.length spec)
    (hmul : 1 < specs.length) : ((rangeReply info body specs).length : ℤ) = clientMRangeCLen info specs := by
  have hsum : ∀ (specs : List HttpHdrRangeSpec) (clen : ℤ), (∀ spec ∈ specs, Canonized body.length spec) →
      specs.foldl (fun clen spec => clen + (clientPackRangeHdr info spec).length + spec.length) clen =
        clen + (specs.flatMap fun spec => clientPackRangeHdr info spec ++ slice body spec.offset spec.length).length := by
    intro specs
    induction specs with
    | nil => simp
    | cons spec specs ih =>
      intro clen hspe
      obtain ⟨hspec, hspe⟩ := forall_mem_cons.mp hspe
      rw [foldl_cons, ih _ hspe, flatMap_cons]
      simp only [length_append, Nat.cast_add, length_slice hspec]
      omega
  match specs with
  | [] => simp at hmul
  | [spec] => simp at hmul
  | spec₁ :: spec₂ :: specs =>
    rw [clientMRangeCLen, hsum _ _ hspe, rangeReply, length_append, Nat.cast_add, zero_add]
    simp

/-- The buffers together carry the reply, and its length is the one that has been announced. -/
theorem sendRanges_eq {raw specs : List HttpHdrRangeSpec} (info : PartInfo) {body : List UInt8} {prefixSize : ℤ}
    {sizes : List ℕ} (hcanonize : httpHdrRangeCanonize body.length raw = .ok specs) (hne : specs ≠ [])
    (hcomplex : httpHdrRangeIsComplex specs = false) (hfront : 0 < prefixSize) (hsizes : ∀ size ∈ sizes, 0 < size) :
    (∃ out more, sendRanges specs info prefixSize body sizes = .ok (out, more) ∧ out <+: rangeReply info body specs ∧
      (more = false → out = rangeReply info body specs) ∧ (body.length ≤ sizes.length → more = false)) ∧
    (1 < specs.length → ((rangeReply info body specs).length : ℤ) = clientMRangeCLen info specs) := by
  have hspe := canonized_of_isComplex hcanonize hcomplex
  refine ⟨?_, length_rangeReply info hspe⟩
  have hrea : Ready specs body { prefixSize } (prefixSize - prefixSize) := by
    rw [sub_self]
    exact ready_init hcomplex _
  obtain ⟨http, mb, more, hpack, hspe', hinfo, -, hmore, hdone⟩ := clientPackMoreRanges_eq
    { specs, info, iter := { prefixSize }, outOffset := prefixSize } hspe hfront hrea nil_prefix
  simp only [remaining_init info hne] at hmore hdone
  rw [sendRanges, hpack]
  cases more with
  | false =>
    have hall := (hdone rfl).1
    exact ⟨mb, false, rfl, hall ▸ prefix_rfl, fun _ => hall, fun _ => rfl⟩
  | true =>
    obtain ⟨hwai, hsent, -⟩ := hmore rfl
    obtain ⟨out, more, hsend, hpre, hall, hend⟩ := sendBuffers_eq (by rw [hspe']; exact hspe) hwai hsizes
    rw [hspe', hinfo] at hpre hall
    have hoff := hwai.ready.off_nonneg
    refine ⟨mb ++ out, more, by simp [hsend], ?_, fun hm => ?_, fun hle => hend (by omega)⟩
    · rw [← hsent]
      exact (prefix_append_right_inj mb).mpr hpre
    · rw [← hsent, hall hm]

def twoRanges : List HttpHdrRangeSpec := [⟨0, 2⟩, ⟨3, unknown⟩]

def letters : List UInt8 := ascii ['a', 'b', 'c', 'd', 'e']

def plainInfo : PartInfo := ⟨none, 5, ascii ['s', 'e', 'p']⟩

/-- The first two bytes and those from the fourth on, delivered byte by byte. -/
theorem sendRanges_eq_letters : httpHdrRangeCanonize letters.length twoRanges = .ok [⟨0, 2⟩, ⟨3, 2⟩] ∧
    (∃ out more, sendRanges [⟨0, 2⟩, ⟨3, 2⟩] plainInfo 17 letters [1, 1, 1, 1, 1] = .ok (out, more) ∧
      out <+: rangeReply plainInfo letters [⟨0, 2⟩, ⟨3, 2⟩] ∧
      (more = false → out = rangeReply plainInfo letters [⟨0, 2⟩, ⟨3, 2⟩]) ∧
      (letters.length ≤ [1, 1, 1, 1, 1].length → more = false)) ∧ (1 < [(⟨0, 2⟩ : HttpHdrRangeSpec), ⟨3, 2⟩].length →
      ((rangeReply plainInfo letters [⟨0, 2⟩, ⟨3, 2⟩]).length : ℤ) = clientMRangeCLen plainInfo [⟨0, 2⟩, ⟨3, 2⟩]) := by
  have hcan : httpHdrRangeCanonize letters.length twoRanges = .ok [⟨0, 2⟩, ⟨3, 2⟩] := by decide +kernel
  exact ⟨hcan, sendRanges_eq _ hcan (by decide) (by decide) (by decide) (by decide)⟩

end SquidVideoCache.Range
