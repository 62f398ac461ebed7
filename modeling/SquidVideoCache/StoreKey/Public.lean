import SquidVideoCache.Acsm.Search
import SquidVideoCache.VideoReg.Extract
import SquidVideoCache.StoreKey.Model

/-!
# Public keys

What the conversion of the URL leaves in `query_str` decides how both functions
go on: below `MAX_LEN` bytes the search sees the upper-cased URL, at `MAX_LEN` the
buffer has no terminator, above it the conversion runs over its end.
-/

namespace SquidVideoCache.StoreKey
open Lib Acsm VideoReg List

/-! ## The query string -/

def query (url : CString) : List UInt8 := upper url.bytes ++ List.replicate (maxLen - url.bytes.length) 0

lemma zeroed_length : zeroed.length = maxLen := length_replicate

variable {url : CString} {request : Request} {flag : ℤ} {p : List UInt8}

lemma convertQuery_ok (h : url.bytes.length ≤ maxLen) : convertQuery url = .ok (query url) := by
  rw [convertQuery, convertCaseEX_ok le_rfl (by rwa [zeroed_length]), take_length]
  rw [zeroed, drop_replicate]
  rfl

lemma convertQuery_fault (h : maxLen < url.bytes.length) : convertQuery url = .error .bounds :=
  convertCaseEX_fault le_rfl (by rwa [zeroed_length])

lemma nul_mem_query : 0 ∈ query url ↔ url.bytes.length < maxLen := by
  have hnul := upper_nulFree url.nulFree
  simp only [query, mem_append, hnul, false_or, mem_replicate, and_true]
  omega

lemma strlen_query (h : url.bytes.length < maxLen) : strlen (query url) = .ok url.bytes.length := by
  rw [strlen, if_pos (nul_mem_query.mpr h), query,
    cString_padded (upper_nulFree url.nulFree) (by omega), upper_length]

lemma searchQuery_query (acsm : AcsmStruct) (h : url.bytes.length < maxLen) :
    searchQuery acsm (query url) = acsmSearchCap acsm (query url) (UInt32.ofNat url.bytes.length) := by
  rw [searchQuery, strlen_query h, ok_bind]

lemma searchQuery_full (acsm : AcsmStruct) (h : url.bytes.length = maxLen) :
    searchQuery acsm (query url) = .error .bounds := by
  have hnul : 0 ∉ query url := fun hc => absurd (nul_mem_query.mp hc) (by omega)
  rw [searchQuery, strlen_of_notMem hnul, error_bind]

lemma convertQuery_safe_iff (url : CString) :
    (∃ buf, convertQuery url = .ok buf ∧ 0 ∈ buf) ↔ url.bytes.length < maxLen := by
  rcases Nat.lt_or_ge maxLen url.bytes.length with hgt | hle
  · rw [convertQuery_fault hgt]
    simp
    omega
  · rw [convertQuery_ok hle]
    simp [nul_mem_query]

/-! ## The two functions -/

variable {Key : Type} (md5 : List UInt8 → Key) (acsmCap : AcsmCap)

lemma storeKeyPublic_short (h : url.bytes.length < maxLen) (method : Method) :
    storeKeyPublic md5 acsmCap url method = (do
      let ret ← searchQuery acsmCap.exclusions (query url) let url ← substituteVideo acsmCap url (query url) ret
      return md5 (publicPreimage url method)) := by
  rw [storeKeyPublic, convertQuery_ok (by omega), ok_bind]

lemma storeKeyPublic_noKeyword (h : url.bytes.length < maxLen) {excl ret : ℤ}
    (hexcl : searchQuery acsmCap.exclusions (query url) = .ok excl)
    (hret : searchQuery acsmCap.keywords (query url) = .ok ret) (hlow : ret < 100) (method : Method) :
    storeKeyPublic md5 acsmCap url method = .ok (md5 (publicPreimage url method)) := by
  have hsub : substituteVideo acsmCap url (query url) excl = .ok url := by
    rw [substituteVideo, hret, ok_bind, if_neg (show ¬ 0 ≤ ret - 100 by omega)]
    exact ite_self _
  rw [storeKeyPublic_short md5 _ h, hexcl, ok_bind, hsub]
  rfl

lemma storeKeyPublic_long (h : maxLen ≤ url.bytes.length) (method : Method) :
    storeKeyPublic md5 acsmCap url method = .error .bounds := by
  rcases Nat.lt_or_eq_of_le h with hgt | heq
  · rw [storeKeyPublic, convertQuery_fault hgt, error_bind]
  · rw [storeKeyPublic, convertQuery_ok (by omega), ok_bind, searchQuery_full _ heq.symm, error_bind]

section

variable (hv : request.varyHeaders = none) (hg : request.urlgroup = none)

include hv hg

lemma requestPreimage_plain (url : CString) (method : Method) :
    requestPreimage url method request = publicPreimage url method := by
  rw [requestPreimage, hv, hg]
  simp [varyPart, tagged]

lemma storeKeyPublicByRequestMethod_le (hs : request.storeUrl = none)
    (h : request.canonical.bytes.length ≤ maxLen) (method : Method) :
    storeKeyPublicByRequestMethod md5 acsmCap request method = storeKeyPublic md5 acsmCap request.canonical method := by
  simp [storeKeyPublicByRequestMethod, storeKeyPublic, requestQuery, hs, if_pos h, requestPreimage_plain hv hg]

lemma storeKeyPublicByRequestMethod_gt (hs : request.storeUrl = none)
    (h : maxLen < request.canonical.bytes.length) (method : Method) :
    storeKeyPublicByRequestMethod md5 acsmCap request method = .ok (md5 (publicPreimage request.canonical method)) := by
  simp only [storeKeyPublicByRequestMethod, requestQuery, hs, Option.getD_none, if_neg (not_le.mpr h),
    requestPreimage_plain hv hg]
  rfl

end

/-! ## Video URLs -/

/-- The search results under which the URL is replaced, and the id it is replaced by. -/
structure HasVideoID (url : CString) (flag : ℤ) (id : List UInt8) : Prop where
  short : url.bytes.length < maxLen
  notExcluded : ∃ ret, searchQuery acsmCap.exclusions (query url) = .ok ret ∧
    ¬ (0 < ret ∧ ret < 100)
  keyword : searchQuery acsmCap.keywords (query url) = .ok flag
  extracted : ∃ buf, selectFunc url zeroed flag = .ok (1, buf) ∧ cString buf = id

lemma storeKeyPublic_video {id : List UInt8} (h : HasVideoID acsmCap url flag id) (method : Method) :
    storeKeyPublic md5 acsmCap url method = .ok (md5 (method.toUInt8 :: id)) := by
  obtain ⟨ret, hret, hex⟩ := h.notExcluded
  obtain ⟨buf, hbuf, rfl⟩ := h.extracted
  obtain ⟨hflag, hnul⟩ := selectFunc_one hbuf
  have hsub : substituteVideo acsmCap url (query url) ret = .ok (CString.ofBuffer buf) := by
    have hge : 0 ≤ flag - 100 := by omega
    rw [substituteVideo, if_neg hex, h.keyword, ok_bind, if_pos hge, hbuf]
    simp only [videoUrl, strlen, if_pos hnul, ok_bind]
    rfl
  rw [storeKeyPublic_short _ _ h.short, hret, ok_bind, hsub]
  rfl

/-! ## The automata of a small configuration -/

def IsAscii (url : CString) : Prop := url.bytes ≠ [] ∧ ∀ c ∈ url.bytes, c < 128

instance : DecidablePred IsAscii := fun _ =>
  @instDecidableAnd _ _ inferInstance (List.decidableBAll _ _)

lemma IsAscii.ne_nul (h : IsAscii url) : ∀ c ∈ url.bytes, c ≠ 0 ∧ c < 128 :=
  fun c hc => ⟨fun h0 => url.nulFree (h0 ▸ hc), h.2 c hc⟩

lemma searchQuery_ascii (acsm : AcsmStruct) (hne : url.bytes ≠ []) (h : url.bytes.length < maxLen) :
    searchQuery acsm (query url) = searchLoop acsm 0 (upper url.bytes) := by
  rw [searchQuery_query acsm h, acsmSearchCap_eq _ _ (length_pos_iff.mpr hne)
    (by unfold maxLen at h; omega), query, take_left' (upper_length _)]

/-- The automaton of a list of words. It is not to be evaluated, only searched. -/
@[irreducible]
def acsmOf (pats : List (List UInt8 × UInt32)) : AcsmStruct :=
  (acsmCompileCap (acsmAddPatterns pats)).toOption.getD acsmNew

lemma acsmOf_eq {pats : List (List UInt8 × UInt32)} {acsm : AcsmStruct}
    (h : acsmCompileCap (acsmAddPatterns pats) = .ok acsm) : acsmOf pats = acsm := by
  rw [acsmOf, h]
  rfl

lemma searchQuery_acsmOf_single (flag : UInt32) (hne : p ≠ [])
    (hp : ∀ c ∈ p, c ≠ 0 ∧ c < 128) (hfit : sizeofStateTable * (1 + p.length) < 2 ^ 32)
    (hurl : IsAscii url) (h : url.bytes.length < maxLen) (hin : upper p <:+: upper url.bytes) :
    searchQuery (acsmOf [(p, flag)]) (query url) = .ok flag.toBitVec.toInt := by
  obtain ⟨acsm, hcomp, hfou⟩ := searchLoop_single flag hne hp hfit
  rw [acsmOf_eq hcomp, searchQuery_ascii _ hurl.1 h]
  exact hfou _ hurl.ne_nul hin

lemma searchQuery_acsmOf_nil (hurl : IsAscii url) (h : url.bytes.length < maxLen) :
    searchQuery (acsmOf []) (query url) = .ok 0 := by
  obtain ⟨acsm, hcomp, hfou⟩ := searchLoop_empty
  rw [acsmOf_eq hcomp, searchQuery_ascii _ hurl.1 h]
  exact hfou _ hurl.ne_nul

lemma exists_acsm (flag : UInt32) (hne : p ≠ [])
    (hp : ∀ c ∈ p, c ≠ 0 ∧ c < 128) (hfit : sizeofStateTable * (1 + p.length) < 2 ^ 32) :
    ∃ acsm, ∀ url, IsAscii url → url.bytes.length < maxLen → upper p <:+: upper url.bytes →
      searchQuery acsm (query url) = .ok flag.toBitVec.toInt :=
  ⟨_, fun _ => searchQuery_acsmOf_single flag hne hp hfit⟩

lemma exists_acsm_empty : ∃ acsm, ∀ url, IsAscii url → url.bytes.length < maxLen →
    searchQuery acsm (query url) = .ok 0 :=
  ⟨_, fun _ => searchQuery_acsmOf_nil⟩

lemma exists_acsmCap (flag : UInt32) (hne : p ≠ [])
    (hp : ∀ c ∈ p, c ≠ 0 ∧ c < 128) (hfit : sizeofStateTable * (1 + p.length) < 2 ^ 32) :
    ∃ acsmCap : AcsmCap, ∀ url, IsAscii url → url.bytes.length < maxLen →
      searchQuery acsmCap.exclusions (query url) = .ok 0 ∧ (upper p <:+: upper url.bytes →
        searchQuery acsmCap.keywords (query url) = .ok flag.toBitVec.toInt) := by
  obtain ⟨keywords, hkey⟩ := exists_acsm flag hne hp hfit
  obtain ⟨exclusions, hexc⟩ := exists_acsm_empty
  exact ⟨⟨keywords, exclusions⟩, fun url hurl h => ⟨hexc url hurl h, hkey url hurl h⟩⟩

/-! ## youku -/

/-- The URLs `a/youku/s/f.flv` with anything after them, that the lists pass on to youku. -/
structure YoukuUrl (f : List UInt8) (url : CString) : Prop where
  short : url.bytes.length < maxLen
  form : ∃ a s r, url.bytes = a ++ (youkuMark ++ (s ++ slash :: (f ++ (dotFlv ++ r)))) ∧
    (∀ j < a.length, ¬ youkuMark <+: url.bytes.drop j) ∧ slash ∉ s ∧
    ∀ j < a.length + 7 + (s.length + 1) + f.length, ¬ dotFlv <+: url.bytes.drop j
  noNk : ¬ flvNk <:+: url.bytes ∧ ¬ mp4Nk <:+: url.bytes
  notExcluded : ∃ ret, searchQuery acsmCap.exclusions (query url) = .ok ret ∧
    ¬ (0 < ret ∧ ret < 100)
  keyword : searchQuery acsmCap.keywords (query url) = .ok 100

lemma YoukuUrl.hasVideoID {f : List UInt8} (h : YoukuUrl acsmCap f url)
    (hf : f.length ≤ 1020) : HasVideoID acsmCap url 100 (f ++ dotFlv) := by
  obtain ⟨a, s, r, hurl, hyou, hs, hflv⟩ := h.form
  have hext := youkuExtractID_url hurl hyou hs hflv hf h.noNk.1 h.noNk.2
  have hpos : 0 < maxLen - (f.length + 4) := by
    unfold maxLen
    omega
  have hfree : 0 ∉ f ++ dotFlv := by
    intro h0
    apply url.nulFree
    rw [hurl]
    simp only [mem_append, mem_cons] at h0 ⊢
    tauto
  exact ⟨h.short, h.notExcluded, h.keyword, _, hext, cString_padded hfree hpos⟩

/-- `/youku/a/b.flv` -/
def videoAB : CString := ⟨youkuMark ++ ascii ['a', '/', 'b', '.', 'f', 'l', 'v'], by decide⟩

/-- The keyword of youku and no exclusions. -/
def youkuCap : AcsmCap := ⟨acsmOf [(youkuMark, 100)], acsmOf []⟩

lemma youkuUrl_videoAB : YoukuUrl youkuCap (ascii ['b']) videoAB where
  short := by decide
  form := ⟨[], ascii ['a'], [], rfl, by decide, by decide, by decide⟩
  noNk := by decide
  notExcluded := ⟨0, searchQuery_acsmOf_nil (by decide) (by decide), by decide⟩
  keyword :=
    searchQuery_acsmOf_single 100 (by decide) (by decide +kernel) (by decide) (by decide) (by decide) (by decide)

lemma exists_youkuUrl : ∃ acsmCap : AcsmCap, YoukuUrl acsmCap (ascii ['b']) videoAB := ⟨_, youkuUrl_videoAB⟩

/-- The key of a youku URL depends on the method and the file name only. -/
theorem storeKeyPublic_youku (f : List UInt8) (url : CString) (method : Method)
    (hf : f.length ≤ 1020) (h : YoukuUrl acsmCap f url) :
    storeKeyPublic md5 acsmCap url method = .ok (md5 (method.toUInt8 :: (f ++ dotFlv))) ∧
      ∀ url', YoukuUrl acsmCap f url' →
        storeKeyPublic md5 acsmCap url' method = storeKeyPublic md5 acsmCap url method := by
  have hkey : ∀ u, YoukuUrl acsmCap f u →
      storeKeyPublic md5 acsmCap u method = .ok (md5 (method.toUInt8 :: (f ++ dotFlv))) :=
    fun u hu => storeKeyPublic_video md5 _ (hu.hasVideoID _ hf) method
  refine ⟨hkey url h, ?_⟩
  intro url' h'
  rw [hkey url h, hkey url' h']

theorem storeKeyPublic_youku_ab : ∃ acsmCap : AcsmCap,
    storeKeyPublic id acsmCap videoAB 0 = .ok (0 :: ascii ['b', '.', 'f', 'l', 'v']) := by
  obtain ⟨acsmCap, h⟩ := exists_youkuUrl
  exact ⟨acsmCap, (storeKeyPublic_youku id _ _ _ 0 (by decide) h).1⟩

/-! ## Equal keys -/

/-- Injective digests apart, URLs with a video id share a key only if they share the id. -/
theorem id_eq_of_storeKeyPublic_eq (hmd5 : Function.Injective md5) {url' : CString}
    {flag' : ℤ} {id id' : List UInt8} {method method' : Method}
    (h : HasVideoID acsmCap url flag id) (h' : HasVideoID acsmCap url' flag' id')
    (heq : storeKeyPublic md5 acsmCap url method = storeKeyPublic md5 acsmCap url' method') : id = id' := by
  rw [storeKeyPublic_video md5 _ h, storeKeyPublic_video md5 _ h'] at heq
  exact (List.cons.inj (hmd5 (Except.ok.inj heq))).2

/-- `/youku/a.flv` and `/youku/b.flv`, without a directory below `/youku/`. -/
def flatA : CString := ⟨youkuMark ++ ascii ['a'] ++ dotFlv, by decide⟩

def flatB : CString := ⟨youkuMark ++ ascii ['b'] ++ dotFlv, by decide⟩

def plainRequest (url : CString) (method : Method) : Request := ⟨method, url, none, none, none, none⟩

def longUrl (n : ℕ) : CString := ⟨List.replicate n 97, fun h => by
  rw [mem_replicate] at h
  exact absurd h.2 (by decide)⟩

lemma longUrl_length (n : ℕ) : (longUrl n).bytes.length = n := length_replicate

end SquidVideoCache.StoreKey
