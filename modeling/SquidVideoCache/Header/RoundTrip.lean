import SquidVideoCache.Header.Mask
import SquidVideoCache.Header.Text
import Mathlib.Data.List.Pairwise

/-!
# Packing what has been parsed

`Stable` is what parsing makes sure of an entry; such an entry, packed, is parsed into itself,
whatever follows, if the next entry does not look like a continuation of it.
-/

namespace SquidVideoCache.Header
open Lib List

variable {relaxed : Bool} {hdr hdr' : HttpHeader} {e : HttpHeaderEntry} {name value field text rest : List UInt8}
  {es : List HttpHeaderEntry}

/-! ## The names of the table -/

lemma mem_headerIds (id : HdrType) : id ∈ headerIds := by
  cases id <;> decide

structure TableName (id : HdrType) : Prop where
  found : httpHeaderIdByName (headerName id) = some id
  chars : ∀ c ∈ headerName id, c ≠ 0 ∧ c ≠ colon ∧ isSpace c = false
  ne_nil : headerName id ≠ []
  length_le : (headerName id).length ≤ 65534

lemma tableName {id : HdrType} (h : id ≠ .other) : TableName id := by
  have hall : ∀ id ∈ headerIds, id ≠ .other → httpHeaderIdByName (headerName id) = some id ∧
        (headerName id).all (fun c => decide (c ≠ 0 ∧ c ≠ colon ∧ isSpace c = false)) = true ∧
        headerName id ≠ [] ∧ (headerName id).length ≤ 65534 := by
    decide +kernel
  obtain ⟨hfou, hcha, hne, hlen⟩ := hall id (mem_headerIds id) h
  exact ⟨hfou, fun c hc => of_decide_eq_true (all_eq_true.1 hcha c hc), hne, hlen⟩

lemma entryNamed_cases (name value : List UInt8) : (∃ h, entryNamed name value = ⟨.other, name, value, h⟩) ∨
      ∃ id h, id ≠ .other ∧ entryNamed name value = ⟨id, headerName id, value, h⟩ := by
  unfold entryNamed
  by_cases h : (httpHeaderIdByName name).getD .other = .other
  · refine .inl ⟨fun hne => absurd rfl hne, ?_⟩
    simp [h]
  · refine .inr ⟨_, fun _ => rfl, h, ?_⟩
    simp [h]

lemma entryNamed_name (name value : List UInt8) :
    entryNamed (entryNamed name value).name value = entryNamed name value := by
  obtain ⟨h, heq⟩ | ⟨id, h, hid, heq⟩ := entryNamed_cases name value
  · rw [heq]
    exact heq
  · rw [heq]
    simp [entryNamed, (tableName hid).found]

lemma plain_of_not_isSpace (h : ∀ c ∈ name, isSpace c = false) : Plain name :=
  ⟨fun hcr => absurd (h cr hcr) (by decide), fun hnl => absurd (h _ hnl) (by decide)⟩

lemma plain_of_not_hasWhitespace (h0 : 0 ∉ name) (h : stringHasWhitespace name = false) : Plain name := by
  rw [stringHasWhitespace, cString_of_nulFree h0, any_eq_false] at h
  exact ⟨fun hcr => h cr hcr (by decide), fun hnl => h _ hnl (by decide)⟩

/-! ## Blanks -/

lemma rdropWhile_eq_self (h : ∀ c ∈ name.getLast?, isSpace c = false) : name.rdropWhile isSpace = name := by
  rw [rdropWhile_eq_self_iff]
  intro hne
  simpa using h _ (getLast?_eq_some_getLast hne)

lemma getLast?_rdropWhile (s : List UInt8) : ∀ c ∈ (s.rdropWhile isSpace).getLast?, isSpace c = false := by
  intro c hc
  obtain ⟨hne, rfl⟩ := mem_getLast?_eq_getLast hc
  simpa using rdropWhile_last_not _ s hne

lemma head?_dropWhile (s : List UInt8) : ∀ c ∈ (s.dropWhile isSpace).head?, isSpace c = false := by
  intro c hc
  have hnot := head?_dropWhile_not isSpace s
  rw [Option.mem_def.mp hc] at hnot
  simpa using hnot

/-! ## Stable entries -/

structure Stable (relaxed : Bool) (e : HttpHeaderEntry) : Prop where
  name_folded : Folded relaxed false e.name
  name_ne : e.name ≠ []
  name_length : e.name.length ≤ 65534
  colon_notMem : colon ∉ e.name
  name_trimmed : relaxed = true → e.name.rdropWhile isSpace = e.name
  named_eq : entryNamed e.name e.value = e
  value_folded : Folded relaxed false e.value
  value_length : e.value.length ≤ 65534
  value_trimmed : e.value.dropWhile isSpace = e.value ∧ e.value.rdropWhile isSpace = e.value
  nulFree : 0 ∉ e.name ∧ 0 ∉ e.value
  sized : e.id = .contentLength → (httpHeaderParseSize e.value).isSome
  unspaced : e.id = .other → relaxed = false → stringHasWhitespace e.name = false

def HttpHeaderEntry.line (e : HttpHeaderEntry) : List UInt8 := e.name ++ [colon, space] ++ e.value

lemma Stable.folded (h : Stable relaxed e) : Folded relaxed false e.line :=
  h.name_folded.join ⟨by decide, by decide⟩ (by simp) h.value_folded

lemma Stable.nul_notMem (h : Stable relaxed e) : 0 ∉ httpHeaderEntryPackInto e := by
  simp [httpHeaderEntryPackInto, h.nulFree.1, h.nulFree.2, colon, space, cr, newline]

lemma takeWhile_colon (h : colon ∉ name) (rest : List UInt8) :
    (name ++ colon :: rest).takeWhile (· ≠ colon) = name := by
  have hall : ∀ c ∈ name, decide (c ≠ colon) = true := by
    intro c hc
    exact decide_eq_true fun heq : c = colon => h (heq ▸ hc)
  rw [takeWhile_append_of_pos hall]
  simp

lemma Stable.parseCreate (h : Stable relaxed e) : httpHeaderEntryParseCreate relaxed e.line = some e := by
  have hline : e.line = e.name ++ colon :: space :: e.value := by simp [HttpHeaderEntry.line]
  have htrim : trimName relaxed e.name = e.name := by
    cases relaxed with
    | false => rfl
    | true => exact h.name_trimmed rfl
  have hdrop : (e.name ++ colon :: space :: e.value).drop (e.name.length + 1) = space :: e.value := by
    simp
  have hbla : (space :: e.value).dropWhile isSpace = e.value := by
    exact h.value_trimmed.1
  have hname : ¬ (colon ∉ e.line ∨ e.name = [] ∨ 65534 < e.name.length) := by
    have hlen := h.name_length
    simp [hline, h.name_ne]
    omega
  rw [hline] at hname ⊢
  simp only [httpHeaderEntryParseCreate, takeWhile_colon h.colon_notMem, if_neg hname, htrim, if_neg h.name_ne, hdrop,
    hbla, h.value_trimmed.2, h.named_eq]
  exact if_neg (by have hlen := h.value_length; omega)

structure Created (relaxed : Bool) (field name value : List UInt8) : Prop where
  split : ∃ before after, field = name ++ before ++ value ++ after
  name_ne : name ≠ []
  name_length : name.length ≤ 65534
  colon_notMem : colon ∉ name
  name_last : relaxed = true → ∀ c ∈ name.getLast?, isSpace c = false
  value_length : value.length ≤ 65534
  value_head : ∀ c ∈ value.head?, isSpace c = false
  value_last : ∀ c ∈ value.getLast?, isSpace c = false

lemma trim_value (w : List UInt8) : ∃ before after, w = before ++ (w.dropWhile isSpace).rdropWhile isSpace ++ after ∧
      (∀ c ∈ ((w.dropWhile isSpace).rdropWhile isSpace).head?, isSpace c = false) := by
  obtain ⟨after, haft⟩ := rdropWhile_prefix _ _
  refine ⟨w.takeWhile isSpace, after, ?_, fun c hc => head?_dropWhile w c ?_⟩
  · rw [append_assoc, haft, takeWhile_append_dropWhile]
  · rw [← haft, head?_append, Option.mem_def.mp hc]
    rfl

lemma trimName_le (relaxed : Bool) (name : List UInt8) : trimName relaxed name <+: name := by
  unfold trimName
  split_ifs
  · exact rdropWhile_prefix _ _
  · exact prefix_rfl

lemma eq_takeWhile_colon (h : colon ∈ field) : ∃ w, field = field.takeWhile (· ≠ colon) ++ colon :: w := by
  have hspl := takeWhile_append_dropWhile (p := fun c => decide (c ≠ colon)) (l := field)
  cases hdrop : field.dropWhile fun c => decide (c ≠ colon) with
  | nil =>
    have hall := dropWhile_eq_nil_iff.mp hdrop colon h
    simp at hall
  | cons c w =>
    have hhead := head?_dropWhile_not (fun c => decide (c ≠ colon)) field
    rw [hdrop] at hhead hspl
    have hc : c = colon := by simpa using hhead
    rw [hc] at hspl
    exact ⟨w, hspl.symm⟩

lemma created (h : httpHeaderEntryParseCreate relaxed field = some e) :
    ∃ name value, e = entryNamed name value ∧ Created relaxed field name value := by
  unfold httpHeaderEntryParseCreate at h
  simp only at h
  split_ifs at h with hbad htrim hlen
  simp only [not_or, not_not, not_lt] at hbad hlen
  obtain ⟨hcol, hne, hname⟩ := hbad
  obtain ⟨w, hfie⟩ := eq_takeWhile_colon hcol
  have hfree : colon ∉ field.takeWhile (· ≠ colon) := fun hmem => by simpa using mem_takeWhile_imp hmem
  obtain ⟨blanks, hblanks⟩ := trimName_le relaxed (field.takeWhile _)
  generalize field.takeWhile (fun c => decide (c ≠ colon)) = full at *
  subst hfie
  have hdrop : (full ++ colon :: w).drop (full.length + 1) = w := by
    simp
  rw [hdrop] at h hlen
  obtain ⟨before, after, hval, hhead⟩ := trim_value w
  refine ⟨_, _, (Option.some.inj h).symm, ?_⟩
  constructor
  · refine ⟨blanks ++ colon :: before, after, ?_⟩
    conv_lhs => rw [hval, ← hblanks]
    simp
  · exact htrim
  · exact ((trimName_le _ full).length_le).trans hname
  · exact fun hmem => hfree ((trimName_le _ full).subset hmem)
  · rintro rfl
    exact getLast?_rdropWhile full
  · exact hlen
  · exact hhead
  · exact getLast?_rdropWhile _

lemma stable_of_parseCreate (hfie : Folded relaxed false field) (h0 : 0 ∉ field)
    (h : httpHeaderEntryParseCreate relaxed field = some e)
    (hsiz : e.id = .contentLength → (httpHeaderParseSize e.value).isSome)
    (huns : e.id = .other → relaxed = false → stringHasWhitespace e.name = false) : Stable relaxed e := by
  obtain ⟨name, value, rfl, hcre⟩ := created h
  obtain ⟨before, after, rfl⟩ := hcre.split
  have hval : Folded relaxed false value := by
    by_cases hv : value = []
    · rw [hv]
      exact .last ⟨⟨by simp, by simp⟩, by simp⟩
    · have hrig : Folded relaxed false (value ++ after) := by
        rw [append_assoc] at hfie
        refine hfie.right ?_
        rw [head?_append_of_ne_nil _ hv]
        exact hcre.value_head
      exact hrig.left hv hcre.value_last
  simp only [mem_append, not_or] at h0
  have htrim : value.dropWhile isSpace = value ∧ value.rdropWhile isSpace = value := by
    refine ⟨?_, rdropWhile_eq_self hcre.value_last⟩
    cases value with
    | nil => rfl
    | cons c s => exact dropWhile_cons_of_neg (by simp [hcre.value_head c rfl])
  have hnam := entryNamed_name name value
  obtain ⟨hid, heq⟩ | ⟨id, hid, hne, heq⟩ := entryNamed_cases name value
  all_goals rw [heq] at hsiz huns hnam ⊢
  · have hfol : Folded relaxed false name := by
      cases relaxed with
      | true =>
        rw [append_assoc, append_assoc] at hfie
        exact hfie.left hcre.name_ne (hcre.name_last rfl)
      | false => exact .last ⟨plain_of_not_hasWhitespace h0.1.1.1 (huns rfl rfl), by simp⟩
    exact ⟨hfol, hcre.name_ne, hcre.name_length, hcre.colon_notMem,
      fun hr => rdropWhile_eq_self (hcre.name_last hr), hnam, hval, hcre.value_length, htrim,
      ⟨h0.1.1.1, h0.1.2⟩, hsiz, huns⟩
  · have htabl := tableName hne
    have hlast : ∀ c ∈ (headerName id).getLast?, isSpace c = false :=
      fun c hc => (htabl.chars c (mem_of_getLast? hc)).2.2
    have hpla := plain_of_not_isSpace fun c hc => (htabl.chars c hc).2.2
    exact ⟨.last ⟨hpla, by simp⟩, htabl.ne_nil, htabl.length_le, fun hc => (htabl.chars _ hc).2.1 rfl,
      fun _ => rdropWhile_eq_self hlast, hnam, hval, hcre.value_length, htrim,
      ⟨fun hc => (htabl.chars _ hc).1 rfl, h0.1.2⟩, hsiz, huns⟩

/-! ## Where fields begin -/

def starts : List UInt8 → ℕ
  | [] => 0
  | c :: s => (if c = newline ∧ s ≠ [] ∧ folds s = false then 1 else 0) + starts s

lemma starts_append_of_notMem (h : newline ∉ text) (rest : List UInt8) : starts (text ++ rest) = starts rest := by
  induction text with
  | nil => rfl
  | cons c s ih =>
    rw [mem_cons, not_or] at h
    simp [starts, ih h.2, Ne.symm h.1]

lemma le_starts_append (before rest : List UInt8) : starts rest ≤ starts (before ++ rest) := by
  induction before with
  | nil => exact le_refl _
  | cons c s ih => exact ih.trans (Nat.le_add_left _ _)

lemma Folded.starts_eq {cont : Bool} (h : Folded relaxed cont text) (rest : List UInt8) :
    starts (text ++ rest) = starts rest := by
  induction h with
  | last hl => exact starts_append_of_notMem hl.plain.2 rest
  | @fold cont l tail text hl htail ht ih =>
    have hfold : Header.folds (text ++ rest) = true := (folds_append ht.folds.2 rest).trans ht.folds.1
    have hline : newline ∉ l ++ tail := by simp [hl.plain.2, htail.notMem]
    rw [append_assoc, starts_append_of_notMem hline, cons_append, starts, hfold, ih]
    simp

def fieldCount (text : List UInt8) : ℕ := if text = [] then 0 else 1 + starts text

lemma fieldCount_lt (before : List UInt8) (h : folds rest = false) :
    fieldCount rest < fieldCount (before ++ newline :: rest) := by
  have hle := le_starts_append before (newline :: rest)
  by_cases hrest : rest = []
  · simp only [fieldCount, hrest, if_true, append_eq_nil_iff, reduceCtorEq, and_false, if_false]
    omega
  · simp only [starts, h, hrest, ne_eq, not_false_eq_true, and_self, if_true] at hle
    simp only [fieldCount, hrest, append_eq_nil_iff, reduceCtorEq, and_false, if_false]
    omega

/-! ## The loop -/

def OneLength (es : List HttpHeaderEntry) : Prop :=
  es.Pairwise fun e e' => ¬ (e.id = .contentLength ∧ e'.id = .contentLength)

lemma OneLength.length_le (h : OneLength es) (hall : ∀ e ∈ es, e.id = .contentLength) : es.length ≤ 1 := by
  match es, h with
  | [], _ => exact Nat.zero_le _
  | [_], _ => exact le_refl _
  | k :: k' :: es, h =>
    have hboth := rel_of_pairwise_cons h mem_cons_self
    exact absurd ⟨hall k (by simp), hall k' (by simp)⟩ hboth

/-- What the loop keeps of the header that it fills. -/
structure Parsed (relaxed : Bool) (hdr : HttpHeader) : Prop where
  keeps : Keeps 0 hdr
  stable : ∀ e ∈ hdr.live, Stable relaxed e
  one : OneLength hdr.live

lemma parsed_init (relaxed : Bool) : Parsed relaxed {} :=
  ⟨keeps_init, by simp [HttpHeader.live], List.Pairwise.nil⟩

lemma Parsed.add (h : Parsed relaxed hdr) (he : Stable relaxed e)
    (hone : e.id = .contentLength → ¬ Occurs hdr.live .contentLength) : Parsed relaxed (httpHeaderAddEntry hdr e) := by
  refine ⟨h.keeps.add e, ?_, ?_⟩
  · intro e' he'
    rw [live_httpHeaderAddEntry, mem_append, mem_singleton] at he'
    obtain hold | rfl := he'
    · exact h.stable e' hold
    · exact he
  · rw [live_httpHeaderAddEntry, OneLength, pairwise_append]
    refine ⟨h.one, pairwise_singleton _ _, fun a ha b hb hboth => ?_⟩
    rw [mem_singleton.mp hb] at hboth
    exact hone hboth.2 ⟨a, ha, hboth.1⟩

lemma ends_httpHeaderFindEntry (h : Keeps 0 hdr) (id : HdrType) : Ends (fun _ => False) (fun found => match found with
        | none => ¬ Occurs hdr.live id
        | some e2 => e2 ∈ hdr.live ∧ e2.id = id)
      (httpHeaderFindEntry hdr id) := by
  refine ends_ite (fun hmask => ?_) fun hmask => ?_
  · cases hfind : hdr.live.find? (·.id = id) with
    | none =>
      obtain ⟨e, he, hid⟩ := (h.mask_iff id).mp hmask
      simpa [hid] using find?_eq_none.mp hfind e he
    | some e2 => exact ⟨mem_of_find?_eq_some hfind, by simpa using find?_some hfind⟩
  · exact fun hocc => hmask ((h.mask_iff id).mpr hocc)

lemma Parsed.eq_of_contentLength (h : Parsed relaxed hdr) {k e : HttpHeaderEntry} (hk : k ∈ hdr.live)
    (he : e ∈ hdr.live) (hidk : k.id = .contentLength) (hide : e.id = .contentLength) : k = e := by
  have : Std.Symm fun e e' : HttpHeaderEntry => ¬ (e.id = .contentLength ∧ e'.id = .contentLength) :=
    ⟨fun _ _ hnot hboth => hnot hboth.symm⟩
  by_contra hne
  exact h.one.forall hk he hne ⟨hidk, hide⟩

/-- The `Content-Length` of the header is not less than that of `e`; the strict parser keeps no
other than `e`. -/
def Outdone (relaxed : Bool) (hdr : HttpHeader) (e : HttpHeaderEntry) : Prop :=
  e.id = .contentLength → ∃ k ∈ hdr.live, k.id = .contentLength ∧ (relaxed = false → k = e) ∧
    ∃ v l, httpHeaderParseSize k.value = some v ∧ httpHeaderParseSize e.value = some l ∧ l ≤ v

/-- The header has come to `hdr'` by the entries `es`. -/
structure Gains (relaxed : Bool) (hdr hdr' : HttpHeader) (es : List HttpHeaderEntry) : Prop where
  mem : ∀ k ∈ hdr'.live, k ∈ hdr.live ∨ k ∈ es
  kept : ∀ e, Outdone relaxed hdr e → Outdone relaxed hdr' e
  outdone : ∀ e ∈ es, Outdone relaxed hdr' e

lemma Gains.nil (relaxed : Bool) (hdr : HttpHeader) : Gains relaxed hdr hdr [] :=
  ⟨fun _ => .inl, fun _ h => h, by simp⟩

lemma Gains.skip (h : Outdone relaxed hdr e) : Gains relaxed hdr hdr [e] :=
  ⟨fun _ => .inl, fun _ h => h, by simpa using h⟩

lemma Gains.trans {hdr'' : HttpHeader} {es' : List HttpHeaderEntry} (h : Gains relaxed hdr hdr' es)
    (h' : Gains relaxed hdr' hdr'' es') : Gains relaxed hdr hdr'' (es ++ es') := by
  refine ⟨fun k hk => ?_, fun e he => h'.kept e (h.kept e he), fun e he => ?_⟩
  · have := h'.mem k hk
    have := h.mem k
    simp only [mem_append]
    tauto
  · obtain hmem | hmem := mem_append.mp he
    · exact h'.kept e (h.outdone e hmem)
    · exact h'.outdone e hmem

/-- Adding an entry to what is left of the header; nothing is left out but what the entry outdoes. -/
theorem Gains.add (hsub : ∀ k ∈ hdr'.live, k ∈ hdr.live)
    (hsiz : e.id = .contentLength → (httpHeaderParseSize e.value).isSome)
    (hkept : ∀ e', Outdone relaxed hdr e' → Outdone relaxed (httpHeaderAddEntry hdr' e) e') :
    Gains relaxed hdr (httpHeaderAddEntry hdr' e) [e] := by
  refine ⟨fun k hk => ?_, hkept, fun e' he' hid => ?_⟩
  · rw [live_httpHeaderAddEntry, mem_append] at hk
    exact hk.imp_left (hsub k)
  · cases mem_singleton.mp he'
    obtain ⟨v, hv⟩ := Option.isSome_iff_exists.mp (hsiz hid)
    exact ⟨e, by simp, hid, fun _ => rfl, v, v, hv, hv, le_refl v⟩

lemma Gains.addEntry (hdr : HttpHeader) (hsiz : e.id = .contentLength → (httpHeaderParseSize e.value).isSome) :
    Gains relaxed hdr (httpHeaderAddEntry hdr e) [e] := by
  refine Gains.add (fun _ hk => hk) hsiz fun e' hout hid => ?_
  obtain ⟨k, hk, hrest⟩ := hout hid
  exact ⟨k, by simp [hk], hrest⟩

def Added (relaxed : Bool) (hdr : HttpHeader) (e : HttpHeaderEntry) : Verdict → Prop
  | .reject => True
  | .skip => Gains relaxed hdr hdr [e]
  | .add hdr' => Parsed relaxed (httpHeaderAddEntry hdr' e) ∧ hdr'.live.length ≤ hdr.live.length ∧
      Gains relaxed hdr (httpHeaderAddEntry hdr' e) [e]

lemma Parsed.ends_checkContentLength (h : Parsed relaxed hdr) (hid : e.id = .contentLength)
    (he : (httpHeaderParseSize e.value).isSome → Stable relaxed e) :
    Ends (fun _ => False) (Added relaxed hdr e) (checkContentLength relaxed hdr e) := by
  unfold checkContentLength
  cases hsize : httpHeaderParseSize e.value with
  | none => trivial
  | some l1 =>
    have hsiz : (httpHeaderParseSize e.value).isSome := by rw [hsize]; rfl
    have hsta := he hsiz
    refine (ends_httpHeaderFindEntry h.keeps e.id).bind fun found hfou => ?_
    cases found with
    | none => exact ⟨h.add hsta fun _ => hid ▸ hfou, le_refl _, .addEntry hdr fun _ => hsiz⟩
    | some e2 =>
      have hid2 : e2.id = .contentLength := hfou.2.trans hid
      refine ends_ite (fun _ => ends_ite (fun hrel => ?_) fun _ => trivial) fun hsame =>
        ends_ite (fun hrel => ?_) fun _ => trivial
      · cases hsize2 : httpHeaderParseSize e2.value with
        | none => trivial
        | some l2 =>
          refine ends_ite (fun hlt => ?_) fun hle => ?_
          · -- the entry before is deleted; it was the only one
            refine ((h.keeps.ends_httpHeaderDelById (by rw [hid2]; decide)).weaken fun _ => by omega).bind ?_
            rintro r ⟨hkee, hlive⟩
            have hfil : r.1.live = hdr.live.filter fun e => ¬ e.id = .contentLength := by rw [hlive, hid2]
            refine ⟨Parsed.add ⟨hkee, fun e' he' => ?_, ?_⟩ hsta ?_, ?_, Gains.add ?_ (fun _ => hsiz) ?_⟩
            · exact h.stable e' (mem_of_mem_filter (hlive ▸ he'))
            · rw [hlive]
              exact h.one.filter _
            · rintro - ⟨e', he', hlen⟩
              rw [hfil] at he'
              simp [hlen] at he'
            · rw [hlive]
              exact length_filter_le _ _
            · exact fun k hk => mem_of_mem_filter (hlive ▸ hk)
            · intro e' hout hid'
              obtain ⟨k, hk, hidk, -, v, l, hv, hl, hlv⟩ := hout hid'
              rw [h.eq_of_contentLength hk hfou.1 hidk hid2, hsize2] at hv
              cases hv
              exact ⟨e, by simp, hid, by simp [hrel], l1, l, hsize, hl, by omega⟩
          · exact .skip fun _ => ⟨e2, hfou.1, hid2, by simp [hrel], l2, l1, hsize2, hsize, by omega⟩
      · have hsize2 : httpHeaderParseSize e2.value = some l1 := by
          rw [← hsize, httpHeaderParseSize, ← not_not.mp hsame]
          rfl
        exact .skip fun _ => ⟨e2, hfou.1, hid2, by simp [hrel], l1, l1, hsize2, hsize, le_refl _⟩

lemma Parsed.ends_checkEntry (h : Parsed relaxed hdr) (hfie : Folded relaxed false field) (h0 : 0 ∉ field)
    (hcre : httpHeaderEntryParseCreate relaxed field = some e) :
    Ends (fun _ => False) (Added relaxed hdr e) (checkEntry relaxed hdr e) := by
  have hsta := stable_of_parseCreate hfie h0 hcre
  refine ends_ite (fun hid => ?_) fun hid => ends_ite (fun _ => trivial) fun hspa => ?_
  · exact h.ends_checkContentLength hid fun hsiz => hsta (fun _ => hsiz) fun hoth => by
      rw [hid] at hoth
      cases hoth
  · refine ⟨h.add (hsta (fun hlen => absurd hlen hid) fun hoth hstr => ?_) fun hlen => absurd hlen hid,
      le_refl _, .addEntry hdr fun hlen => absurd hlen hid⟩
    by_contra hws
    exact hspa ⟨hoth, by simpa using hws, by simp [hstr]⟩

/-- The entries of all the fields of a block, as the parser reads them. -/
def blockEntries (relaxed : Bool) (text : List UInt8) : List HttpHeaderEntry :=
  match _h : readField relaxed [] text with
  | none => []
  | some (field, rest) => (httpHeaderEntryParseCreate relaxed field).toList ++ blockEntries relaxed rest
termination_by text.length
decreasing_by exact readField_length ‹_›

lemma blockEntries_eq (hread : readField relaxed [] text = some (field, rest)) :
    blockEntries relaxed text = (httpHeaderEntryParseCreate relaxed field).toList ++ blockEntries relaxed rest := by
  rw [blockEntries]
  split
  next hnone => simp [hnone] at hread
  next hsome =>
    rw [hsome] at hread
    cases hread
    rfl

@[simp] lemma blockEntries_nil (relaxed : Bool) : blockEntries relaxed [] = [] := by
  rw [blockEntries]
  split
  · rfl
  next hsome => simp [readField, splitLine] at hsome

def Accepted (relaxed : Bool) (hdr : HttpHeader) (text : List UInt8) (result : Option HttpHeader) : Prop :=
  ∀ hdr', result = some hdr' → Parsed relaxed hdr' ∧ hdr'.live.length ≤ hdr.live.length + fieldCount text ∧
    Gains relaxed hdr hdr' (blockEntries relaxed text)

lemma accepted_none (relaxed : Bool) (hdr : HttpHeader) (text : List UInt8) : Accepted relaxed hdr text none :=
  fun _ hsome => by cases hsome

lemma Parsed.accepted (h : Parsed relaxed hdr) (htext : blockEntries relaxed text = []) :
    Accepted relaxed hdr text (some hdr) := by
  rintro _ ⟨⟩
  exact ⟨h, Nat.le_add_right _ _, htext ▸ .nil _ hdr⟩

lemma Parsed.ends_parseFields (h : Parsed relaxed hdr) (h0 : 0 ∉ text) :
    Ends (fun _ => False) (Accepted relaxed hdr text) (parseFields relaxed hdr text) := by
  induction hn : text.length using Nat.strong_induction_on generalizing hdr text with
  | _ n ih =>
    rw [parseFields]
    refine ends_ite (fun hnil => h.accepted (by simp [hnil])) fun _ => ?_
    split
    · exact accepted_none _ _ _
    next field rest hread =>
      have hblo := blockEntries_eq hread
      obtain ⟨hunf, ⟨before, rfl⟩, field, rfl, hfol, hnul⟩ := readField_found hread (by simp)
      have hcou := fieldCount_lt before hunf
      have hrest : 0 ∉ rest := fun hmem => h0 (by simp [hmem])
      have hnext : ∀ {hdr'}, Parsed relaxed hdr' → hdr'.live.length ≤ hdr.live.length + 1 →
          Gains relaxed hdr hdr' (httpHeaderEntryParseCreate relaxed field).toList →
          Ends (fun _ => False) (Accepted relaxed hdr (before ++ newline :: rest)) (parseFields relaxed hdr' rest) := by
        intro hdr' h' hle hgai
        refine (ih _ (hn ▸ readField_length hread) h' hrest rfl).mono fun result hres hdr'' hsome => ?_
        obtain ⟨hpar, hlen, hgai'⟩ := hres hdr'' hsome
        exact ⟨hpar, by omega, hblo ▸ hgai.trans hgai'⟩
      refine ends_ite (fun hemp => ends_ite (fun hend => h.accepted ?_) fun _ => accepted_none _ _ _) fun _ => ?_
      · rw [hblo, hemp, hend]
        simp [httpHeaderEntryParseCreate]
      cases hcre : httpHeaderEntryParseCreate relaxed field with
      | none =>
        refine ends_ite (fun _ => hnext h (Nat.le_succ _) ?_) fun _ => accepted_none _ _ _
        exact hcre ▸ .nil _ hdr
      | some e =>
        refine (h.ends_checkEntry (by simpa using hfol) (hnul h0) hcre).bind fun verdict hver => ?_
        cases verdict with
        | reject => exact accepted_none _ _ _
        | skip => exact hnext h (Nat.le_succ _) (hcre ▸ hver)
        | add hdr' =>
          obtain ⟨hadde, hle, hgai⟩ := hver
          refine hnext hadde ?_ (hcre ▸ hgai)
          rw [live_httpHeaderAddEntry, length_append]
          exact Nat.succ_le_succ hle

lemma ends_httpHeaderParse (relaxed : Bool) (text : List UInt8) :
    Ends (fun _ => False) (Accepted relaxed {} text) (httpHeaderParse relaxed text) := by
  exact ends_ite (fun _ => accepted_none _ _ _) fun h0 => (parsed_init _).ends_parseFields h0

def parsedHeader (relaxed : Bool) (text : List UInt8) : Exec (Bool × HttpHeader) := do
  match ← httpHeaderParse relaxed text with
  | none => .ok (false, {})
  | some hdr => .ok (true, hdr)

/-- One `Content-Length` at most is kept. The relaxed parser keeps the largest of several; the strict
one rejects those that differ. -/
theorem parsedHeader_contentLength (relaxed : Bool) (text : List UInt8) :
    ∃ accepted hdr, parsedHeader relaxed text = .ok (accepted, hdr) ∧ (accepted = false → hdr = {}) ∧
      (accepted = true → (hdr.live.filter (·.id = .contentLength)).length ≤ 1) ∧
      (accepted = true → relaxed = true → ∀ e ∈ blockEntries relaxed text, e.id = .contentLength →
        ∃ k ∈ hdr.live, k.id = .contentLength ∧ k ∈ blockEntries relaxed text ∧
          ∃ v l, httpHeaderParseSize k.value = some v ∧ httpHeaderParseSize e.value = some l ∧ l ≤ v) ∧
      (relaxed = false → ∀ e ∈ blockEntries relaxed text, ∀ e' ∈ blockEntries relaxed text,
        e.id = .contentLength → e'.id = .contentLength →
        httpHeaderParseSize e.value ≠ httpHeaderParseSize e'.value → accepted = false) := by
  have hends := ends_httpHeaderParse relaxed text
  unfold parsedHeader
  cases hpars : httpHeaderParse relaxed text with
  | error err => exact absurd (hends.error_of_eq hpars) not_false
  | ok result =>
    cases result with
    | none => exact ⟨false, {}, rfl, by simp⟩
    | some hdr =>
      obtain ⟨hpar, -, hgai⟩ := hends.ok_of_eq hpars hdr rfl
      refine ⟨true, hdr, rfl, by simp, fun _ => ?_, fun _ hrel e he hid => ?_, fun hstr e he e' he' hid hid' hne => ?_⟩
      · refine OneLength.length_le (hpar.one.filter _) fun e he => ?_
        simpa using of_mem_filter he
      · obtain ⟨k, hk, hidk, -, hlar⟩ := hgai.outdone e he hid
        exact ⟨k, hk, hidk, (hgai.mem k hk).resolve_left (by simp [HttpHeader.live]), hlar⟩
      · obtain ⟨k, hk, hidk, heq, -⟩ := hgai.outdone e he hid
        obtain ⟨k', hk', hidk', heq', -⟩ := hgai.outdone e' he' hid'
        have hsame := hpar.eq_of_contentLength hk hk' hidk hidk'
        rw [heq hstr, heq' hstr] at hsame
        exact absurd (congrArg (httpHeaderParseSize ·.value) hsame) hne

/-! ## Parsing what has been packed -/

lemma Stable.checkEntry_eq (he : Stable relaxed e) (h : Keeps 0 hdr)
    (hone : e.id = .contentLength → ¬ Occurs hdr.live .contentLength) : checkEntry relaxed hdr e = .ok (.add hdr) := by
  unfold checkEntry
  by_cases hid : e.id = .contentLength
  · obtain ⟨l1, hl1⟩ := Option.isSome_iff_exists.mp (he.sized hid)
    have hmask : hdr.mask e.id = false := by
      rw [hid, ← Bool.not_eq_true, h.mask_iff]
      exact hone hid
    simp [hid, checkContentLength, hl1, httpHeaderFindEntry, hid ▸ hmask]
  · have hspa : ¬ (e.id = .other ∧ stringHasWhitespace e.name = true ∧ (!relaxed) = true) := by
      rintro ⟨hoth, hws, hstr⟩
      rw [he.unspaced hoth (by simpa using hstr)] at hws
      cases hws
    rw [if_neg hid, if_neg hspa]

def packAll (es : List HttpHeaderEntry) : List UInt8 := es.flatMap httpHeaderEntryPackInto

lemma packAll_cons (e : HttpHeaderEntry) (es : List HttpHeaderEntry) :
    packAll (e :: es) = e.line ++ [cr, newline] ++ packAll es := by
  simp [packAll, httpHeaderEntryPackInto, HttpHeaderEntry.line]

lemma folds_packAll (hsta : ∀ e ∈ es, Stable relaxed e)
    (h : ∀ e ∈ es.head?, folds e.name = false) : folds (packAll es) = false := by
  cases es with
  | nil => rfl
  | cons e es =>
    have hne := (hsta e mem_cons_self).name_ne
    rw [packAll_cons, HttpHeaderEntry.line]
    simp only [append_assoc]
    rw [folds_append hne]
    exact h e rfl

lemma parseFields_add (hread : readField relaxed [] text = some (field, rest)) (hne : field ≠ [])
    (hcre : httpHeaderEntryParseCreate relaxed field = some e)
    (hche : checkEntry relaxed hdr e = .ok (.add hdr')) :
    parseFields relaxed hdr text = parseFields relaxed (httpHeaderAddEntry hdr' e) rest := by
  have htext : text ≠ [] := by
    rintro rfl
    exact absurd (readField_length hread) (by simp)
  rw [parseFields, if_neg htext]
  split
  · next hnone => rw [hread] at hnone; cases hnone
  · next field' rest' hsome =>
    rw [hread] at hsome
    cases hsome
    simp [if_neg hne, hcre, hche]

lemma parseFields_packAll (es : List HttpHeaderEntry) : ∀ hdr, Keeps 0 hdr → (∀ e ∈ es, Stable relaxed e) →
    OneLength (hdr.live ++ es) → (∀ e ∈ es.tail, folds e.name = false) →
    ∃ hdr', parseFields relaxed hdr (packAll es) = .ok (some hdr') ∧ hdr'.live = hdr.live ++ es := by
  induction es with
  | nil =>
    intro hdr _ _ _ _
    refine ⟨hdr, ?_, by simp⟩
    rw [parseFields]
    simp [packAll]
  | cons e es ih =>
    intro hdr h hsta hone hfold
    have he := hsta e mem_cons_self
    have hrest : folds (packAll es) = false := folds_packAll (fun e' he' => hsta e' (mem_cons_of_mem _ he'))
        fun e' he' => hfold e' (mem_of_mem_head? he')
    have hread : readField relaxed [] (packAll (e :: es)) = some (e.line, packAll es) := by
      exact he.folded.readField_eq (by simp) hrest
    have hche : checkEntry relaxed hdr e = .ok (.add hdr) := by
      refine he.checkEntry_eq h fun hlen => ?_
      rintro ⟨e', he', hlen'⟩
      exact (pairwise_append.mp hone).2.2 e' he' e mem_cons_self ⟨hlen', hlen⟩
    obtain ⟨hdr', hpar, hlive⟩ := ih _ (h.add e)
      (fun e' he' => hsta e' (mem_cons_of_mem _ he'))
      (by simpa using hone) (fun e' he' => hfold e' (mem_of_mem_tail he'))
    refine ⟨hdr', ?_, by simpa using hlive⟩
    rw [parseFields_add hread (by simp [HttpHeaderEntry.line]) he.parseCreate hche, hpar]

/-! ## Counting the fields -/

lemma starts_packAll (hsta : ∀ e ∈ es, Stable relaxed e) :
    starts (packAll es) = es.tail.countP fun e => !folds e.name := by
  induction es with
  | nil => rfl
  | cons e es ih =>
    have hrest := ih fun e' he' => hsta e' (mem_cons_of_mem _ he')
    have hline : starts (packAll (e :: es)) = starts (newline :: packAll es) := by
      rw [packAll_cons, append_assoc, (hsta e mem_cons_self).folded.starts_eq]
      have hcr : newline ∉ [cr] := by decide
      exact starts_append_of_notMem hcr _
    rw [hline, starts, hrest, tail_cons]
    cases es with
    | nil => rfl
    | cons e' es =>
      have hne := (hsta e' (by simp)).name_ne
      have hfol : folds (packAll (e' :: es)) = folds e'.name := by
        rw [packAll_cons, HttpHeaderEntry.line]
        simp only [append_assoc]
        exact folds_append hne _
      have hpac : packAll (e' :: es) ≠ [] := by simp [packAll_cons]
      rw [hfol, countP_cons]
      simp [hpac, Nat.add_comm]

/-- If the text has a field for each entry, then each entry but the first begins one after a newline. -/
theorem folds_of_length_le (hsta : ∀ e ∈ es, Stable relaxed e)
    (h : es.length ≤ fieldCount (packAll es)) : ∀ e ∈ es.tail, folds e.name = false := by
  cases es with
  | nil => simp
  | cons e es =>
    have hpac : packAll (e :: es) ≠ [] := by simp [packAll_cons]
    rw [fieldCount, if_neg hpac, starts_packAll hsta, length_cons, tail_cons] at h
    have hfull : es.length ≤ es.countP fun e => !folds e.name := by omega
    have hcou := countP_eq_length.mp (le_antisymm countP_le_length hfull)
    intro e' he'
    simpa using hcou e' he'

/-- The header that is packed is parsed again, into the same entries, exactly when no entry but the
first has a name that begins with a space or a tab. -/
theorem httpHeaderParse_packInto_iff {relaxed : Bool} {text : List UInt8} {hdr : HttpHeader}
    (h : httpHeaderParse relaxed text = .ok (some hdr)) :
    (∃ hdr', httpHeaderParse relaxed (httpHeaderPackInto hdr) = .ok (some hdr') ∧ hdr'.live = hdr.live) ↔
      ∀ e ∈ hdr.live.tail, folds e.name = false := by
  obtain ⟨hpar, -⟩ := (ends_httpHeaderParse _ text).ok_of_eq h hdr rfl
  have hnul : 0 ∉ httpHeaderPackInto hdr := by
    intro hmem
    obtain ⟨e, he, hin⟩ := mem_flatMap.mp hmem
    exact (hpar.stable e he).nul_notMem hin
  constructor
  · rintro ⟨hdr', haga, hlive⟩
    obtain ⟨-, hle, -⟩ := (ends_httpHeaderParse _ _).ok_of_eq haga hdr' rfl
    rw [hlive] at hle
    exact folds_of_length_le hpar.stable (hle.trans (Nat.zero_add _).le)
  · intro hfold
    have hloop := parseFields_packAll _ {} keeps_init hpar.stable hpar.one hfold
    rw [httpHeaderParse, if_neg hnul]
    exact hloop

/-! Two fields, the second of which begins with a CR. -/

lemma exists_of_live {result : Exec (Option HttpHeader)}
    (h : (result.toOption.getD none).map HttpHeader.live = some es) :
    ∃ hdr, result = .ok (some hdr) ∧ hdr.live = es := by
  match result, h with
  | .ok (some hdr), h => exact ⟨hdr, rfl, Option.some.inj h⟩

def strayText : List UInt8 := ascii "A: b\r\n\rC: d\r\n".toList

def strayEntries : List HttpHeaderEntry := [
  ⟨.other, ascii "A".toList, ascii "b".toList, fun h => absurd rfl h⟩,
  ⟨.other, ascii " C".toList, ascii "d".toList, fun h => absurd rfl h⟩]

lemma parse_strayText : ∃ hdr, httpHeaderParse true strayText = .ok (some hdr) ∧ hdr.live = strayEntries :=
  exists_of_live (by decide +kernel)

theorem packInto_strayText : ∃ hdr, httpHeaderParse true strayText = .ok (some hdr) ∧
    ((∃ hdr', httpHeaderParse true (httpHeaderPackInto hdr) = .ok (some hdr') ∧ hdr'.live = hdr.live) ↔
      ∀ e ∈ hdr.live.tail, folds e.name = false) := by
  obtain ⟨hdr, h, -⟩ := parse_strayText
  exact ⟨hdr, h, httpHeaderParse_packInto_iff h⟩

/-- The second field becomes a continuation of the first. -/
theorem not_packInto_strayText : ¬ ∀ (relaxed : Bool) (text : List UInt8) (hdr : HttpHeader),
    httpHeaderParse relaxed text = .ok (some hdr) →
      ∃ hdr', httpHeaderParse relaxed (httpHeaderPackInto hdr) = .ok (some hdr') ∧ hdr'.live = hdr.live := by
  intro hall
  obtain ⟨hdr, h, hlive⟩ := parse_strayText
  obtain ⟨hdr', h', hlive'⟩ := hall true _ hdr h
  have hone : ((httpHeaderParse true (strayEntries.flatMap httpHeaderEntryPackInto)).toOption.getD none).map
      HttpHeader.live = some [⟨.other, ascii "A".toList, ascii "b\r\n C: d".toList, fun h => absurd rfl h⟩] := by
    decide +kernel
  obtain ⟨one, hpar, hlive1⟩ := exists_of_live hone
  rw [httpHeaderPackInto, hlive, hpar] at h'
  obtain rfl : one = hdr' := Option.some.inj (Except.ok.inj h')
  rw [hlive1, hlive] at hlive'
  exact absurd (congrArg List.length hlive') (by decide)

end SquidVideoCache.Header
