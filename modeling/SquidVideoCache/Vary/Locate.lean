import SquidVideoCache.Vary.Records

/-!
# What a lookup finds after an update

On records the lookup takes the last variant that has the mark, leaving out those with an entity tag
whose encoding is another one.
-/

namespace SquidVideoCache.Vary
open Lib List Option

variable {args : AddVaryArgs} {mark : List UInt8} {encoding : Option (List UInt8)}

/-- The lookup sees the marks of the variant. -/
def Record.Open (encoding : Option (List UInt8)) (r : Record) : Prop :=
  r.etag = none ∨ encoding = none ∨ encoding = r.encoding

instance (encoding : Option (List UInt8)) (r : Record) : Decidable (r.Open encoding) :=
  inferInstanceAs (Decidable (_ ∨ _))

def locateStep (mark : List UInt8) (encoding : Option (List UInt8)) (found : Option (List UInt8)) (r : Record) :
    Option (List UInt8) :=
  if r.marks.contains mark ∧ r.Open encoding then some r.key else found

def locate (mark : List UInt8) (encoding : Option (List UInt8)) (rs : List Record) : Option (List UInt8) :=
  rs.foldl (locateStep mark encoding) none

/-! ## The lookup in the text -/

variable {s : LocateVaryState} {key K : List UInt8} {rs : List Record} {pieces : List (List UInt8)}

lemma storeLocateVaryLine_key (key : List UInt8) : storeLocateVaryLine mark encoding s (keyField ++ key) =
    { s with key := some key, etag := none, ignore := false, encodingOk := encoding.isNone } := by
  simp [storeLocateVaryLine]

section

variable (h : s.ignore = false) (hkey : s.key = some key)

include h hkey

lemma storeLocateVaryLine_mark (m : List UInt8) : storeLocateVaryLine mark encoding s (varyField ++ m) =
      if m = mark then { s with data := { s.data with key := some key, etag := s.etag } } else s := by
  simp [storeLocateVaryLine, h, hkey]

lemma storeLocateVaryLine_etag (etag : List UInt8) : storeLocateVaryLine mark encoding s (etagField ++ etag) =
      if s.encodingOk then { s with etag := some etag, data := { s.data with etags := s.data.etags ++ [etag] } }
      else { s with ignore := true } := by
  simp [storeLocateVaryLine, h, hkey]

lemma storeLocateVaryLine_encoding
    (enc : List UInt8) : storeLocateVaryLine mark encoding s (encodingField ++ enc) =
      if encoding = some enc then { s with encodingOk := true } else s := by
  simp [storeLocateVaryLine, h, hkey]

end

lemma foldl_locate_ignored (h : s.ignore = true) (marks : List (List UInt8)) :
    (marks.map (varyField ++ ·)).foldl (storeLocateVaryLine mark encoding) s = s := by
  induction marks with
  | nil => rfl
  | cons m marks ih => simpa [storeLocateVaryLine, h] using ih

lemma foldl_locate_marks (h : s.ignore = false) (hkey : s.key = some key) (marks : List (List UInt8)) :
    ((marks.map (varyField ++ ·)).foldl (storeLocateVaryLine mark encoding) s).data.key =
      if mark ∈ marks then some key else s.data.key := by
  induction marks generalizing s with
  | nil => simp
  | cons m marks ih =>
    rw [map_cons, foldl_cons, storeLocateVaryLine_mark h hkey]
    by_cases hm : m = mark
    · -- a mark that follows has the same key
      rw [if_pos hm, ih (by exact h) (by exact hkey)]
      simp [hm]
    · rw [if_neg hm, ih h hkey]
      simp [Ne.symm hm]

lemma foldl_locate_record (s : LocateVaryState) (r : Record) :
    (r.lines.foldl (storeLocateVaryLine mark encoding) s).data.key = locateStep mark encoding s.data.key r := by
  obtain ⟨key, enc, etag, marks⟩ := r
  have hhead : ∃ s' : LocateVaryState,
      (enc.toList.map (encodingField ++ ·)).foldl (storeLocateVaryLine mark encoding)
        (storeLocateVaryLine mark encoding s (keyField ++ key)) = s' ∧
      s'.ignore = false ∧ s'.key = some key ∧ s'.data = s.data ∧
      (s'.encodingOk = true ↔ encoding = none ∨ encoding = enc) := by
    refine ⟨_, rfl, ?_⟩
    rw [storeLocateVaryLine_key]
    cases enc with
    | none => simp
    | some e =>
      rw [toList_some, map_singleton, foldl_cons, storeLocateVaryLine_encoding rfl rfl]
      by_cases he : encoding = some e <;> simp [he]
  obtain ⟨s', hs', hign, hkey, hdata, hok⟩ := hhead
  rw [Record.lines, Record.head, cons_append, foldl_cons, foldl_append, foldl_append, hs']
  cases etag with
  | none =>
    rw [toList_none, map_nil, foldl_nil, foldl_locate_marks hign hkey, hdata]
    simp [locateStep, Record.Open]
  | some t =>
    rw [toList_some, map_singleton, foldl_cons, storeLocateVaryLine_etag hign hkey]
    by_cases hopen : s'.encodingOk = true
    · rw [if_pos hopen, foldl_locate_marks (by exact hign) (by exact hkey), hdata]
      simp [locateStep, Record.Open, hok.mp hopen]
    · rw [if_neg hopen, foldl_locate_ignored rfl, hdata]
      rw [hok] at hopen
      simp [locateStep, Record.Open, hopen]

lemma storeLocateVary_render (hrs : ∀ r ∈ rs, r.Fits) (hpie : pieces.flatten = render rs) :
    (storeLocateVary mark encoding pieces).bind VaryData.key = locate mark encoding rs := by
  have hfold : ∀ s : LocateVaryState, ((rs.flatMap Record.lines).foldl (storeLocateVaryLine mark encoding) s).data.key =
      rs.foldl (locateStep mark encoding) s.data.key := by
    clear hrs hpie
    induction rs with
    | nil => exact fun s => rfl
    | cons r rs ih =>
      intro s
      rw [flatMap_cons, foldl_append, ih, foldl_locate_record, foldl_cons]
  rw [storeLocateVary, LineReader.readAll_unlines _ rfl (line_of_fits hrs) hpie, locate]
  have hkey := hfold {}
  simp only [← hkey]
  split_ifs with hany
  · rfl
  · rw [not_or, Bool.not_eq_true, isSome_eq_false_iff] at hany
    exact (isNone_iff_eq_none.mp hany.1).symm

/-! ## The mark of the update -/

lemma update_mark (hK : args.key = some K) (rs : List Record) (done : Bool) :
    ∀ r ∈ update args done rs, args.varyHeaders ∈ r.marks → r.key = K ∧ r.encoding = args.acceptEncoding := by
  induction rs generalizing done with
  | nil =>
    unfold update
    split_ifs <;> simp [hK, AddVaryArgs.record]
  | cons r rest ih =>
    rw [update]
    cases hj : judge args done r with
    | ignored => exact ih done
    | other =>
      simp only
      split_ifs
      · exact ih done
      · exact forall_mem_cons.mpr ⟨by simp [otherMarks], ih done⟩
    | this key =>
      have hkey : key = K := by
        rcases key_of_judge hj with h | ⟨h, -⟩ <;> simp_all
      simp only
      split_ifs
      · exact ih done
      · exact forall_mem_cons.mpr ⟨by simp [AddVaryArgs.record, hkey], ih true⟩

lemma exists_mem_update (hK : args.key = some K) (rs : List Record) :
    ∃ r ∈ update args false rs, args.varyHeaders ∈ r.marks := by
  induction rs with
  | nil => simp [update, hK, AddVaryArgs.record]
  | cons r rest ih =>
    obtain ⟨r', hr', hmark⟩ := ih
    rw [update]
    cases hj : judge args false r with
    | ignored => exact ⟨r', hr', hmark⟩
    | other =>
      simp only
      split_ifs
      · exact ⟨r', hr', hmark⟩
      · exact ⟨r', mem_cons_of_mem _ hr', hmark⟩
    | this key =>
      simp only
      split_ifs
      · exact ⟨r', hr', hmark⟩
      · exact ⟨_, mem_cons_self, mem_cons_self⟩

lemma locate_eq_some
    (hall : ∀ r ∈ rs, mark ∈ r.marks → r.key = K ∧ r.Open encoding) (hsome : ∃ r ∈ rs, mark ∈ r.marks) :
    locate mark encoding rs = some K := by
  have hfold : ∀ rs : List Record, (∀ r ∈ rs, mark ∈ r.marks → r.key = K ∧ r.Open encoding) → ∀ found,
      (found = some K ∨ ∃ r ∈ rs, mark ∈ r.marks) → rs.foldl (locateStep mark encoding) found = some K := by
    intro rs hall
    induction rs with
    | nil => simp
    | cons r rs ih =>
      intro found hfou
      obtain ⟨hr, hrs⟩ := forall_mem_cons.mp hall
      apply ih hrs
      unfold locateStep
      split_ifs with hm
      · exact .inl (congrArg some (hr (contains_iff_mem.mp hm.1)).1)
      · rcases hfou with hfou | ⟨r', hr', hmark⟩
        · exact .inl hfou
        · rcases mem_cons.mp hr' with rfl | hr'
          · exact absurd ⟨contains_iff_mem.mpr hmark, (hr hmark).2⟩ hm
          · exact .inr ⟨r', hr', hmark⟩
  exact hfold rs hall none (.inr hsome)

/-! ## The other marks -/

/-- The variant belongs to another key and another entity tag. -/
def AddVaryArgs.Foreign (args : AddVaryArgs) (r : Record) : Prop :=
  args.key ≠ some r.key ∧ (r.etag = none ∨ r.etag ≠ args.etag)

lemma judge_foreign {r : Record} (h : args.Foreign r) (done : Bool) : judge args done r = .other := by
  obtain ⟨hkey, hetag⟩ := h
  cases ht : r.etag with
  | none => simp [judge, ofKey, ht, hkey]
  | some t =>
    have hne : args.etag ≠ some t := by
      intro heq
      simp [ht, heq] at hetag
    simp [judge, ht, hkey, hne]

lemma locate_update (hmark : mark ≠ args.varyHeaders)
    (hrs : ∀ r ∈ rs, mark ∈ r.marks → args.Foreign r) (done : Bool) (found : Option (List UInt8)) :
    (update args done rs).foldl (locateStep mark encoding) found = rs.foldl (locateStep mark encoding) found := by
  induction rs generalizing done found with
  | nil =>
    cases hK : args.key with
    | none => simp [update, hK]
    | some K =>
      unfold update
      split_ifs <;> simp [hK, AddVaryArgs.record, locateStep, hmark]
  | cons r rest ih =>
    obtain ⟨hr, hrest⟩ := forall_mem_cons.mp hrs
    have ih := ih hrest
    by_cases hmem : mark ∈ r.marks
    · have hmarks : r.marks ≠ [] := ne_nil_of_mem hmem
      rw [update, judge_foreign (hr hmem)]
      simp only [hmarks, if_false, foldl_cons, ih]
      simp [locateStep, otherMarks, Record.Open, hmark]
    · have hskip : locateStep mark encoding found r = found := by simp [locateStep, hmem]
      rw [foldl_cons, hskip, update]
      cases judge args done r with
      | ignored => exact ih done found
      | other =>
        simp only
        split_ifs
        · exact ih done found
        · rw [foldl_cons, ih]
          simp [locateStep, otherMarks, hmem]
      | this key =>
        simp only
        split_ifs
        · exact ih done found
        · rw [foldl_cons, ih]
          simp [locateStep, otherMarks, AddVaryArgs.record, hmem, hmark]

/-- After a call that has read the whole marker its mark leads to its key, and a mark of other variants to the
key that it has led to before. -/
theorem storeAddVary_located {text : List UInt8} (htext : Written text) {args : AddVaryArgs} (ha : args.Fits)
    {K : List UInt8} (hK : args.key = some K) {pieces : List (List UInt8)} (hread : pieces.flatten = text) :
    (∀ new : List (List UInt8), new.flatten = storeAddVary args pieces →
      (storeLocateVary args.varyHeaders args.acceptEncoding new).bind VaryData.key = some K) ∧
    (∃ rs, text = render rs ∧ ∀ r ∈ rs, r.Fits) ∧ ∀ rs, text = render rs → (∀ r ∈ rs, r.Fits) →
      ∀ mark encoding, mark ≠ args.varyHeaders →
      (∀ r ∈ rs, mark ∈ r.marks → r.key ≠ K ∧ (r.etag = none ∨ r.etag ≠ args.etag)) →
      ∀ old new : List (List UInt8), old.flatten = text → new.flatten = storeAddVary args pieces →
        (storeLocateVary mark encoding new).bind VaryData.key =
          (storeLocateVary mark encoding old).bind VaryData.key := by
  refine ⟨fun new hnew => ?_, htext.exists_records, ?_⟩
  · obtain ⟨rs, rfl, hrs⟩ := htext.exists_records
    rw [storeAddVary_render ha hrs hread] at hnew
    rw [storeLocateVary_render (update_fits ha hrs false) hnew]
    apply locate_eq_some
    · intro r hr hmark
      obtain ⟨hkey, henc⟩ := update_mark hK rs false r hr hmark
      exact ⟨hkey, .inr (.inr henc.symm)⟩
    · exact exists_mem_update hK rs
  · rintro rs rfl hrs mark encoding hmark hfor old new hold hnew
    rw [storeAddVary_render ha hrs hread] at hnew
    rw [storeLocateVary_render (update_fits ha hrs false) hnew, storeLocateVary_render hrs hold]
    apply locate_update hmark
    intro r hr hmem
    obtain ⟨hkey, hetag⟩ := hfor r hr hmem
    exact ⟨by rw [hK]; simpa using hkey.symm, hetag⟩

def plainArgs (key mark : List UInt8) : AddVaryArgs := ⟨some key, none, mark, none⟩

lemma plainArgs_fits {mark : List UInt8} (hkey : Fits keyField key) (hmark : Fits varyField mark) :
    (plainArgs key mark).Fits :=
  ⟨by simpa [plainArgs] using hkey, by simp [plainArgs], by simp [plainArgs], hmark⟩

def argsA : AddVaryArgs := plainArgs (ascii ['A']) (ascii ['x'])

def argsB : AddVaryArgs := plainArgs (ascii ['B']) (ascii ['y'])

def textA : List UInt8 := storeAddVary argsA []

def textAB : List UInt8 := storeAddVary argsB [textA]

/-- A second variant: its mark is found, and that of the first one still leads to the first key. -/
theorem storeAddVary_located_second :
    (storeLocateVary (ascii ['y']) none [textAB]).bind VaryData.key = some (ascii ['B']) ∧
    (storeLocateVary (ascii ['x']) none [textAB]).bind VaryData.key =
      (storeLocateVary (ascii ['x']) none [textA]).bind VaryData.key := by
  have hA : argsA.Fits := plainArgs_fits (by decide) (by decide)
  have hB : argsB.Fits := plainArgs_fits (by decide) (by decide)
  have hwri : Written textA := .add .first hA nil_prefix
  obtain ⟨hnew, -, hoth⟩ := storeAddVary_located hwri hB rfl (by simp : [textA].flatten = textA)
  have hrec : Record.Fits ⟨ascii ['A'], none, none, [ascii ['x']]⟩ :=
    ⟨by decide, by simp, by simp, by simpa using (by decide : Fits _ _)⟩
  refine ⟨hnew _ (by simp [textAB]), ?_⟩
  refine hoth [⟨ascii ['A'], none, none, [ascii ['x']]⟩] (by decide +kernel) (by simpa using hrec) _ _ (by decide)
    ?_ _ _ (by simp) (by simp [textAB])
  rintro r hr -
  rw [mem_singleton.mp hr]
  exact ⟨by decide, .inl rfl⟩

/-- A mark that is too long for the buffer of `storeAppendPrintf` loses its newline, and the line is never read. -/
theorem storeLocateVary_cut {V : List UInt8} (hK : Fits keyField K) (hV : newline ∉ V)
    (hlong : printfMax ≤ (varyField ++ V).length)
    (hpie : pieces.flatten = storeAddVary (plainArgs K V) []) : storeLocateVary V none pieces = none := by
  obtain ⟨rest, hrest⟩ : ∃ rest, rest = (varyField ++ V).take printfMax := ⟨_, rfl⟩
  have hcut : storeAppendPrintf varyField V = rest := by
    rw [storeAppendPrintf, take_append_of_le_length hlong, hrest]
  have hsho : newline ∉ rest ∧ rest.length < maxBufSize := by
    rw [hrest]
    constructor
    · intro h
      rcases mem_append.mp (mem_of_mem_take h) with h | h
      · exact absurd h (by decide)
      · exact hV h
    · exact Nat.lt_of_le_of_lt (length_take_le _ _) (by decide)
  have htext : pieces.flatten = unlines [keyField ++ K] ++ rest := by
    rw [hpie, ← hcut]
    simp [storeAddVary, LineReader.readAll, freeAddVaryState, plainArgs, printVariant, storeAppendPrintf_of_fits hK]
  have hline := hK.line (by decide)
  -- the text is the beginning of one in which the line is complete
  have hfro : pieces.flatten <+: unlines [keyField ++ K, rest] := by
    rw [htext]
    exact ⟨[newline], by simp [unlines]⟩
  rw [storeLocateVary, LineReader.readAll_eq_of_prefix _ rfl
    (forall_mem_cons.mpr ⟨hline, by simpa using hsho⟩) hfro, htext,
    eachLine_unlines (by simpa using hline.1) hsho.1]
  simp [storeLocateVaryLine]

/-- The shortest mark that is lost. -/
def longMark : List UInt8 := List.replicate 4085 97

theorem storeAddVary_long_lost : newline ∉ ascii ['A'] ∧ newline ∉ longMark ∧
    ∀ pieces : List (List UInt8), pieces.flatten = storeAddVary (plainArgs (ascii ['A']) longMark) [] →
      storeLocateVary longMark none pieces = none := by
  have hmark : newline ∉ longMark := by
    intro h
    exact absurd (eq_of_mem_replicate h) (by decide)
  refine ⟨by decide, hmark, fun pieces hpie => ?_⟩
  apply storeLocateVary_cut (by decide) hmark _ hpie
  simp only [length_append, longMark, length_replicate]
  decide

end SquidVideoCache.Vary
