import SquidVideoCache.Vary.Model

/-!
# Markers as lists of variants

The text of a marker is that of a list of records. On records an update says in one place what
becomes of a variant: it is kept without the new mark, it becomes the variant of the call, or it is
dropped.
-/

namespace SquidVideoCache.Vary
open Lib List

structure Record where
  key : List UInt8
  encoding : Option (List UInt8)
  etag : Option (List UInt8)
  marks : List (List UInt8)
  deriving DecidableEq

namespace Record

def head (r : Record) : List (List UInt8) :=
  (keyField ++ r.key) :: (r.encoding.toList.map (encodingField ++ ·) ++ r.etag.toList.map (etagField ++ ·))

def lines (r : Record) : List (List UInt8) := r.head ++ r.marks.map (varyField ++ ·)

end Record

def render (rs : List Record) : List UInt8 := unlines (rs.flatMap Record.lines)

/-- The line of the field is one line and is printed as a whole. -/
def Fits (name value : List UInt8) : Prop := newline ∉ value ∧ (name ++ value).length < printfMax

instance (name value : List UInt8) : Decidable (Fits name value) := inferInstanceAs (Decidable (_ ∧ _))

structure Record.Fits (r : Record) : Prop where
  key : Vary.Fits keyField r.key
  encoding : ∀ a ∈ r.encoding, Vary.Fits encodingField a
  etag : ∀ t ∈ r.etag, Vary.Fits etagField t
  marks : ∀ m ∈ r.marks, Vary.Fits varyField m

structure AddVaryArgs.Fits (args : AddVaryArgs) : Prop where
  key : ∀ k ∈ args.key, Vary.Fits keyField k
  encoding : ∀ a ∈ args.acceptEncoding, Vary.Fits encodingField a
  etag : ∀ t ∈ args.etag, Vary.Fits etagField t
  mark : Vary.Fits varyField args.varyHeaders

inductive Verdict where
  | other
  | this (key : List UInt8)
  | ignored
  deriving DecidableEq

def ofKey (args : AddVaryArgs) (r : Record) : Verdict := if args.key = some r.key then .this r.key else .other

def judge (args : AddVaryArgs) (done : Bool) (r : Record) : Verdict :=
  match r.etag with
  | none => ofKey args r
  | some etag =>
    if args.etag = some etag then
      if args.acceptEncoding.isSome ∧ args.acceptEncoding ≠ r.encoding then ofKey args r
      else
        match args.key with
        | none => .this r.key
        | some key => if key = r.key then .this key else if done then .ignored else .this key
    else if args.key = some r.key then .ignored
    else .other

/-- The variant of the call, with the marks of the variant that it replaces. -/
def AddVaryArgs.record (args : AddVaryArgs) (key : List UInt8) (marks : List (List UInt8)) : Record :=
  ⟨key, args.acceptEncoding, args.etag, args.varyHeaders :: marks⟩

def otherMarks (args : AddVaryArgs) (r : Record) : List (List UInt8) := r.marks.filter (· ≠ args.varyHeaders)

def update (args : AddVaryArgs) : Bool → List Record → List Record
  | done, [] => if done then [] else args.key.toList.map fun key => args.record key []
  | done, r :: rest =>
    match judge args done r with
    | .ignored => update args done rest
    | .other =>
      -- a variant without marks is not written
      if r.marks = [] then update args done rest
      else { r with marks := otherMarks args r } :: update args done rest
    | .this key =>
      -- the last one without marks is not written either
      if r.marks = [] ∧ rest = [] then update args done rest
      else args.record key (otherMarks args r) :: update args true rest

/-! ## Lines -/

@[simp] lemma field_append (name value : List UInt8) : field name (name ++ value) = some value := by
  simp [field]

section

variable (v : List UInt8)

include v

@[simp] lemma field_key_encoding : field keyField (encodingField ++ v) = none := rfl

@[simp] lemma field_key_etag : field keyField (etagField ++ v) = none := rfl

@[simp] lemma field_key_vary : field keyField (varyField ++ v) = none := rfl

@[simp] lemma field_etag_encoding : field etagField (encodingField ++ v) = none := rfl

@[simp] lemma field_etag_vary : field etagField (varyField ++ v) = none := rfl

@[simp] lemma field_vary_encoding : field varyField (encodingField ++ v) = none := rfl

@[simp] lemma field_encoding_vary : field encodingField (varyField ++ v) = none := rfl

end

variable {name value key : List UInt8} {marks p : List (List UInt8)} {done : Bool} {rs : List Record}

lemma storeAppendPrintf_of_fits (h : Fits name value) : storeAppendPrintf name value = unlines [name ++ value] := by
  have hlen := h.2
  rw [storeAppendPrintf, take_of_length_le (by simp at hlen ⊢; omega)]
  simp [unlines]

lemma printVariant_of_fits {r : Record} (h : r.Fits) : printVariant r.key r.encoding r.etag = unlines r.head := by
  obtain ⟨key, encoding, etag, marks⟩ := r
  rw [printVariant, storeAppendPrintf_of_fits h.key]
  cases encoding with
  | none =>
    cases etag with
    | none => simp [Record.head]
    | some t => simp [Record.head, storeAppendPrintf_of_fits (h.etag t rfl), unlines]
  | some a =>
    cases etag with
    | none => simp [Record.head, storeAppendPrintf_of_fits (h.encoding a rfl), unlines]
    | some t =>
      simp [Record.head, storeAppendPrintf_of_fits (h.encoding a rfl), storeAppendPrintf_of_fits (h.etag t rfl), unlines]

/-! ## One record -/

variable {args : AddVaryArgs} {s : AddVaryState} {r : Record}

/-- There is nothing to write before the next key. -/
def Settled (s : AddVaryState) : Prop :=
  s.current.thisKey = true → s.current.ignore = true ∨ s.current.keyUsed = true

lemma storeAddVaryFlush_used (h : s.current.ignore = true ∨ s.current.keyUsed = true) :
    storeAddVaryFlush args s = s := by
  rcases h with h | h <;> simp [storeAddVaryFlush, h]

lemma storeAddVaryLine_key (hs : Settled s) (key : List UInt8) : storeAddVaryLine args s (keyField ++ key) =
    { s with current := { key := some key, thisKey := args.key = some key } } := by
  simp only [storeAddVaryLine, field_append]
  split_ifs with hthis
  · rw [storeAddVaryFlush_used (hs hthis)]
  · rfl

/-- The state after the lines of a record before its marks. -/
structure AfterHead (args : AddVaryArgs) (s : AddVaryState) (r : Record) (s' : AddVaryState) : Prop where
  text : s'.text = s.text
  done : s'.done = s.done
  unused : s'.current.keyUsed = false
  ignored : judge args s.done r = .ignored → s'.current.ignore = true
  other : judge args s.done r = .other → s'.current.ignore = false ∧ s'.current.thisKey = false ∧
    s'.current.key = some r.key ∧ s'.current.acceptEncoding = r.encoding ∧ s'.current.etag = r.etag
  this : ∀ key, judge args s.done r = .this key → s'.current.ignore = false ∧ s'.current.thisKey = true ∧
    s'.current.key = some key

lemma storeAddVaryLine_encoding (encoding : Option (List UInt8)) (h : s.current.acceptEncoding = none) :
    (encoding.toList.map (encodingField ++ ·)).foldl (storeAddVaryLine args) s =
      { s with current := { s.current with acceptEncoding := encoding } } := by
  cases encoding with
  | none =>
    simp only [Option.toList_none, map_nil, foldl_nil]
    rw [← h]
  | some a => simp [storeAddVaryLine]

lemma afterHead (args : AddVaryArgs) (r : Record) (hs : Settled s) : AfterHead args s r (r.head.foldl (storeAddVaryLine args) s) := by
  obtain ⟨key, encoding, etag, marks⟩ := r
  rw [Record.head, foldl_cons, storeAddVaryLine_key hs, foldl_append, storeAddVaryLine_encoding _ rfl]
  cases etag with
  | none =>
    by_cases hkey : args.key = some key
    · constructor <;> simp [judge, ofKey, hkey]
    · constructor <;> simp [judge, ofKey, hkey]
  | some t =>
    simp only [Option.toList_some, map_cons, foldl_cons, storeAddVaryLine,
      storeAddVaryETag]
    by_cases htag : args.etag = some t
    · by_cases henc : args.acceptEncoding.isSome ∧ args.acceptEncoding ≠ encoding
      · -- another encoding: only the key counts
        by_cases hkey : args.key = some key
        · constructor <;> simp [judge, ofKey, hkey, htag]
        · constructor <;> simp [judge, ofKey, hkey, henc]
      · cases hargs : args.key with
        | none => constructor <;> simp [judge, htag, henc, hargs]
        | some k =>
          by_cases hk : k = key
          · constructor <;> simp [judge, htag, henc, hargs, hk]
          · cases hdone : s.done with
            | false => constructor <;> simp [judge, htag, henc, hargs, hk, hdone]
            | true => constructor <;> simp [judge, htag, henc, hargs, hk, hdone]
    · by_cases hkey : args.key = some key
      · constructor <;> simp [judge, hkey, htag]
      · constructor <;> simp [judge, hkey, htag]

lemma storeAddVaryLine_mark (h : s.current.ignore = false) (m : List UInt8) :
    storeAddVaryLine args s (varyField ++ m) = if m = args.varyHeaders then storeAddVaryFlush args s
      else { storeAddVaryFlush args s with
        text := (storeAddVaryFlush args s).text ++ (varyField ++ m ++ [newline]) } := by
  simp [storeAddVaryLine, h]

lemma foldl_marks_ignored (h : s.current.ignore = true) (marks : List (List UInt8)) :
    (marks.map (varyField ++ ·)).foldl (storeAddVaryLine args) s = s := by
  induction marks with
  | nil => rfl
  | cons m marks ih =>
    simpa [storeAddVaryLine, h] using ih

lemma foldl_marks_used (hi : s.current.ignore = false) (hu : s.current.keyUsed = true) (marks : List (List UInt8)) :
    (marks.map (varyField ++ ·)).foldl (storeAddVaryLine args) s =
      { s with text := s.text ++ unlines ((marks.filter (· ≠ args.varyHeaders)).map (varyField ++ ·)) } := by
  induction marks generalizing s with
  | nil => simp [unlines]
  | cons m marks ih =>
    rw [map_cons, foldl_cons, storeAddVaryLine_mark hi, storeAddVaryFlush_used (.inr hu)]
    by_cases hm : m = args.varyHeaders
    · simp [hm, ih hi hu]
    · rw [if_neg hm]
      refine Eq.trans (ih ?_ ?_) ?_
      · exact hi
      · exact hu
      · simp [hm, unlines]

lemma foldl_marks_new (hi : s.current.ignore = false)
    (hu : (storeAddVaryFlush args s).current.keyUsed = true ∧ (storeAddVaryFlush args s).current.ignore = false)
    (hmarks : marks ≠ []) : (marks.map (varyField ++ ·)).foldl (storeAddVaryLine args) s =
      (marks.map (varyField ++ ·)).foldl (storeAddVaryLine args) (storeAddVaryFlush args s) := by
  cases marks with
  | nil => exact absurd rfl hmarks
  | cons m marks =>
    simp only [map_cons, foldl_cons]
    rw [storeAddVaryLine_mark hi, storeAddVaryLine_mark hu.2, storeAddVaryFlush_used (.inr hu.1)]

lemma AddVaryArgs.Fits.record (ha : args.Fits) (hk : Vary.Fits keyField key)
    (hmarks : ∀ m ∈ marks, Vary.Fits varyField m) : (args.record key marks).Fits where
  key := hk
  encoding := ha.encoding
  etag := ha.etag
  marks := forall_mem_cons.mpr ⟨ha.mark, hmarks⟩

lemma printVariant_record (ha : args.Fits) (hk : Fits keyField key) :
    printVariant key args.acceptEncoding args.etag ++ storeAppendPrintf varyField args.varyHeaders =
      render [args.record key []] := by
  have hhead : printVariant key args.acceptEncoding args.etag = unlines (args.record key []).head :=
    printVariant_of_fits (ha.record hk (by simp))
  rw [hhead, storeAppendPrintf_of_fits ha.mark]
  simp [render, Record.lines, AddVaryArgs.record]

lemma storeAddVaryFlush_this (ha : args.Fits) (hi : s.current.ignore = false) (hu : s.current.keyUsed = false)
    (ht : s.current.thisKey = true) (hkey : s.current.key = some key) (hk : Fits keyField key) :
    storeAddVaryFlush args s = { s with
      text := s.text ++ render [args.record key []]
      done := true
      current := { s.current with keyUsed := true } } := by
  simp [storeAddVaryFlush, hi, hu, ht, hkey, ← printVariant_record ha hk]

lemma storeAddVaryFlush_other (args : AddVaryArgs) (hr : r.Fits) (hi : s.current.ignore = false) (hu : s.current.keyUsed = false)
    (ht : s.current.thisKey = false) (hkey : s.current.key = some r.key) (henc : s.current.acceptEncoding = r.encoding)
    (hetag : s.current.etag = r.etag) : storeAddVaryFlush args s = { s with
      text := s.text ++ unlines r.head
      current := { s.current with key := none, etag := none, keyUsed := true } } := by
  simp [storeAddVaryFlush, hi, hu, ht, hkey, henc, hetag, printVariant_of_fits hr]

/-- The state after a record. Only the variant of the call can wait for its marks. -/
inductive AfterRecord (args : AddVaryArgs) (s : AddVaryState) (r : Record) (s' : AddVaryState) : Prop
  | settled (hs : Settled s') (written : List Record) (htext : s'.text = s.text ++ render written)
    (hupdate : ∀ rest, update args s.done (r :: rest) = written ++ update args s'.done rest)
  | waits (hmarks : r.marks = []) (key : List UInt8) (hthis : judge args s.done r = .this key)
    (htext : s'.text = s.text) (hdone : s'.done = s.done) (hi : s'.current.ignore = false)
    (hu : s'.current.keyUsed = false) (ht : s'.current.thisKey = true) (hkey : s'.current.key = some key)

lemma key_of_judge (h : judge args done r = .this key) : args.key = some key ∨ args.key = none ∧ key = r.key := by
  unfold judge ofKey at h
  split at h <;> split_ifs at h <;> try split at h
  all_goals (try split_ifs at h) <;> simp_all

lemma fits_of_judge (ha : args.Fits) (hr : r.Fits) (h : judge args done r = .this key) : Fits keyField key := by
  rcases key_of_judge h with hkey | ⟨-, rfl⟩
  · exact ha.key key hkey
  · exact hr.key

lemma afterRecord (ha : args.Fits) (hr : r.Fits) (hs : Settled s) :
    AfterRecord args s r (r.lines.foldl (storeAddVaryLine args) s) := by
  have hhead := afterHead args r hs
  rw [Record.lines, foldl_append]
  set s' := r.head.foldl (storeAddVaryLine args) s
  cases hj : judge args s.done r with
  | ignored =>
    have hi := hhead.ignored hj
    rw [foldl_marks_ignored hi]
    refine .settled (fun _ => .inl hi) [] (by simp [hhead.text, render, unlines]) fun rest => ?_
    simp [update, hj, hhead.done]
  | other =>
    obtain ⟨hi, ht, hkey, henc, hetag⟩ := hhead.other hj
    by_cases hmarks : r.marks = []
    · rw [hmarks]
      refine .settled (fun h => by simp [ht] at h) [] (by simp [hhead.text, render, unlines]) fun rest => ?_
      simp [update, hj, hhead.done, hmarks]
    · have hflu := storeAddVaryFlush_other args hr hi hhead.unused ht hkey henc hetag
      rw [foldl_marks_new hi (by simp [hflu, hi]) hmarks, foldl_marks_used (by simp [hflu, hi]) (by simp [hflu]),
        hflu]
      refine .settled (fun h => by simp [ht] at h) [{ r with marks := otherMarks args r }] ?_ fun rest => ?_
      · simp [hhead.text, render, Record.lines, otherMarks, Record.head, unlines]
      · simp [update, hj, hhead.done, hmarks]
  | this key =>
    obtain ⟨hi, ht, hkey⟩ := hhead.this key hj
    by_cases hmarks : r.marks = []
    · rw [hmarks]
      exact .waits hmarks key hj hhead.text hhead.done hi hhead.unused ht hkey
    · have hflu := storeAddVaryFlush_this ha hi hhead.unused ht hkey (fits_of_judge ha hr hj)
      rw [foldl_marks_new hi (by simp [hflu, hi]) hmarks, foldl_marks_used (by simp [hflu, hi]) (by simp [hflu]),
        hflu]
      refine .settled (fun _ => .inr rfl) [args.record key (otherMarks args r)] ?_ fun rest => ?_
      · simp [hhead.text, render, Record.lines, otherMarks, AddVaryArgs.record, Record.head, unlines]
      · simp [update, hj, hmarks]

/-! ## The whole text -/

lemma freeAddVaryState_eq (ha : args.Fits) (s : AddVaryState) :
    freeAddVaryState args s = s.text ++ render (update args s.done []) := by
  cases hkey : args.key with
  | none => simp [freeAddVaryState, hkey, update, render, unlines]
  | some key =>
    cases hdone : s.done with
    | true => simp [freeAddVaryState, hkey, hdone, update, render, unlines]
    | false =>
      simp [freeAddVaryState, hkey, hdone, update, ← printVariant_record ha (ha.key key hkey)]

lemma storeAddVaryLine_key_waits (ht : s.current.thisKey = true)
    (hu : (storeAddVaryFlush args s).current.keyUsed = true) (key : List UInt8) :
    storeAddVaryLine args s (keyField ++ key) = storeAddVaryLine args (storeAddVaryFlush args s) (keyField ++ key) := by
  rw [storeAddVaryLine_key (fun _ => .inr hu)]
  simp [storeAddVaryLine, ht]

lemma freeAddVaryState_foldl (ha : args.Fits) (hrs : ∀ r ∈ rs, r.Fits) (hs : Settled s) :
    freeAddVaryState args ((rs.flatMap Record.lines).foldl (storeAddVaryLine args) s) =
      s.text ++ render (update args s.done rs) := by
  induction rs generalizing s with
  | nil => exact freeAddVaryState_eq ha s
  | cons r rest ih =>
    obtain ⟨hr, hrest⟩ := forall_mem_cons.mp hrs
    rw [flatMap_cons, foldl_append]
    rcases afterRecord ha hr hs with ⟨hs', written, htext, hupdate⟩ |
      ⟨hmarks, key, hthis, htext, hdone, hi, hu, ht, hkey⟩
    · rw [ih hrest hs', hupdate, htext]
      simp [render]
    · generalize r.lines.foldl (storeAddVaryLine args) s = s' at *
      cases rest with
      | nil =>
        rw [flatMap_nil, foldl_nil, freeAddVaryState_eq ha, htext, hdone]
        simp [update, hthis, hmarks]
      | cons r₂ rest =>
        have hflu := storeAddVaryFlush_this ha hi hu ht hkey (fits_of_judge ha hr hthis)
        have hnext : ((r₂ :: rest).flatMap Record.lines).foldl (storeAddVaryLine args) s' =
            ((r₂ :: rest).flatMap Record.lines).foldl (storeAddVaryLine args) (storeAddVaryFlush args s') := by
          simp only [flatMap_cons, Record.lines, Record.head, cons_append, foldl_cons]
          rw [storeAddVaryLine_key_waits ht (by simp [hflu])]
        rw [hnext, ih hrest (fun _ => .inr (by simp [hflu])), hflu]
        simp [htext, update, hthis, hmarks, otherMarks, render]

lemma Fits.line (hname : newline ∉ name) (h : Fits name value) :
    newline ∉ name ++ value ∧ (name ++ value).length < maxBufSize := by
  obtain ⟨hval, hlen⟩ := h
  exact ⟨by simp [hname, hval], by unfold printfMax at hlen; unfold maxBufSize; omega⟩

lemma Record.Fits.line (h : r.Fits) : ∀ l ∈ r.lines, newline ∉ l ∧ l.length < maxBufSize := by
  intro l hl
  simp only [Record.lines, Record.head, mem_append, mem_cons, mem_map, Option.mem_toList] at hl
  rcases hl with (rfl | ⟨a, ha, rfl⟩ | ⟨t, ht, rfl⟩) | ⟨m, hm, rfl⟩
  · exact h.key.line (by decide)
  · exact (h.encoding a ha).line (by decide)
  · exact (h.etag t ht).line (by decide)
  · exact (h.marks m hm).line (by decide)

lemma line_of_fits (hrs : ∀ r ∈ rs, r.Fits) : ∀ l ∈ rs.flatMap Record.lines, newline ∉ l ∧ l.length < maxBufSize := by
  intro l hl
  obtain ⟨r, hr, hl⟩ := mem_flatMap.mp hl
  exact (hrs r hr).line l hl

lemma storeAddVary_render (ha : args.Fits) (hrs : ∀ r ∈ rs, r.Fits)
    {pieces : List (List UInt8)} (hpie : pieces.flatten = render rs) :
    storeAddVary args pieces = render (update args false rs) := by
  rw [storeAddVary, LineReader.readAll_unlines _ rfl (line_of_fits hrs) hpie,
    freeAddVaryState_foldl ha hrs (by simp [Settled])]
  rfl

/-! ## Markers that have been written -/

lemma update_fits (ha : args.Fits) (hrs : ∀ r ∈ rs, r.Fits) (done : Bool) : ∀ r ∈ update args done rs, r.Fits := by
  induction rs generalizing done with
  | nil =>
    intro r hr
    unfold update at hr
    split_ifs at hr
    · cases hr
    · simp only [mem_map, Option.mem_toList] at hr
      obtain ⟨key, hkey, rfl⟩ := hr
      exact ha.record (ha.key key hkey) (by simp)
  | cons r rest ih =>
    obtain ⟨hr, hrest⟩ := forall_mem_cons.mp hrs
    have hmarks : ∀ m ∈ otherMarks args r, Fits varyField m := fun m hm => hr.marks m (mem_of_mem_filter hm)
    rw [update]
    cases hj : judge args done r with
    | ignored => exact ih hrest done
    | other =>
      simp only
      split_ifs
      · exact ih hrest done
      · exact forall_mem_cons.mpr ⟨⟨hr.key, hr.encoding, hr.etag, hmarks⟩, ih hrest done⟩
    | this key =>
      simp only
      split_ifs
      · exact ih hrest done
      · exact forall_mem_cons.mpr ⟨ha.record (fits_of_judge ha hr hj) hmarks, ih hrest true⟩

/-- The first lines of a record are those of a record with less in it. -/
theorem Record.Fits.of_prefix (h : r.Fits) (hp : p <+: r.lines) :
    p = [] ∨ ∃ part : Record, p = part.lines ∧ part.Fits := by
  obtain ⟨key, encoding, etag, marks⟩ := r
  have hspl : ∀ (o : Option (List UInt8)) (name : List UInt8) (q rest : List (List UInt8)),
      q <+: o.toList.map (name ++ ·) ++ rest →
      q = [] ∨ ∃ q', q = o.toList.map (name ++ ·) ++ q' ∧ q' <+: rest := by
    intro o name q rest hq
    cases o with
    | none => exact .inr ⟨q, rfl, hq⟩
    | some v =>
      cases q with
      | nil => exact .inl rfl
      | cons l q =>
        obtain ⟨rfl, hq'⟩ := cons_prefix_cons.mp hq
        exact .inr ⟨q, rfl, hq'⟩
  simp only [lines, head, cons_append, append_assoc] at hp
  cases p with
  | nil => exact .inl rfl
  | cons l q =>
    right
    obtain ⟨rfl, hq⟩ := cons_prefix_cons.mp hp
    rcases hspl _ _ _ _ hq with rfl | ⟨q₂, rfl, hq₂⟩
    · exact ⟨⟨key, none, none, []⟩, rfl, h.key, by simp, by simp, by simp⟩
    · rcases hspl _ _ _ _ hq₂ with rfl | ⟨q₃, rfl, hq₃⟩
      · exact ⟨⟨key, encoding, none, []⟩, by simp [lines, head], h.key, h.encoding, by simp, by simp⟩
      · rw [prefix_iff_eq_take] at hq₃
        refine ⟨⟨key, encoding, etag, marks.take q₃.length⟩, by simp [lines, head, ← hq₃], h.key, h.encoding, h.etag, ?_⟩
        exact fun m hm => h.marks m (mem_of_mem_take hm)

lemma exists_records_of_prefix (hrs : ∀ r ∈ rs, r.Fits)
    (hp : p <+: rs.flatMap Record.lines) : ∃ part : List Record, p = part.flatMap Record.lines ∧ ∀ r ∈ part, r.Fits := by
  induction rs generalizing p with
  | nil => exact ⟨[], by simpa using hp, by simp⟩
  | cons r rs ih =>
    obtain ⟨hr, hrs⟩ := forall_mem_cons.mp hrs
    rcases prefix_or_prefix_of_prefix hp (prefix_append r.lines _) with hsho | ⟨q, rfl⟩
    · rcases hr.of_prefix hsho with rfl | ⟨part, rfl, hpart⟩
      · exact ⟨[], rfl, by simp⟩
      · exact ⟨[part], by simp, by simpa using hpart⟩
    · obtain ⟨part, rfl, hpart⟩ := ih hrs ((prefix_append_right_inj _).mp hp)
      exact ⟨r :: part, rfl, forall_mem_cons.mpr ⟨hr, hpart⟩⟩

/-- The texts of markers. A call may have read only the beginning of the marker before it, or nothing. -/
inductive Written : List UInt8 → Prop
  | first : Written []
  | add {text : List UInt8} (h : Written text) {args : AddVaryArgs} (ha : args.Fits) {pieces : List (List UInt8)}
    (hread : pieces.flatten <+: text) : Written (storeAddVary args pieces)

lemma Written.exists_records {text : List UInt8} (h : Written text) : ∃ rs, text = render rs ∧ ∀ r ∈ rs, r.Fits := by
  induction h with
  | first => exact ⟨[], rfl, by simp⟩
  | @add text _ args ha pieces hread ih =>
    obtain ⟨rs, rfl, hrs⟩ := ih
    obtain ⟨begun, hbeg, hsta⟩ := LineReader.readAll_prefix (f := storeAddVaryLine args) ⟨{}, [], 4096⟩ rfl
      (line_of_fits hrs) hread
    obtain ⟨part, rfl, hpart⟩ := exists_records_of_prefix hrs hbeg
    refine ⟨update args false part, ?_, update_fits ha hpart false⟩
    rw [storeAddVary, hsta, freeAddVaryState_foldl ha hpart (by simp [Settled])]
    rfl

end SquidVideoCache.Vary
