import SquidVideoCache.StoreKey.Public
import Mathlib.Data.List.Chain

/-!
# What a key is the digest of

A public key starts with one byte of the method and goes on with NUL-free strings,
each after the first behind a NUL and a letter. The bytes can therefore be read
back, and no two NULs of them are adjacent, which the method bytes of a private
key always have.
-/

namespace SquidVideoCache.StoreKey
open Lib List Option

/-! ## Reading the fields back -/

/-- The bytes after a NUL-free string: nothing or a NUL. -/
def NulFirst (x : List UInt8) : Prop := ∀ c ∈ x.head?, c = 0

variable {x s x' : List UInt8} {tag : UInt8} {request : Request} {method method' : Method} {url url' : CString}
  {n n' : UInt32} {order : ByteOrder} {Key : Type} {acsmCap : AcsmCap}

lemma nulFirst_tagged (tag : UInt8) (s : Option CString) (hx : NulFirst x) : NulFirst (tagged tag s ++ x) := by
  cases s with
  | none => exact hx
  | some s =>
    intro c hc
    exact (some.inj hc).symm

lemma cString_append (hs : 0 ∉ s) (hx : NulFirst x) : cString (s ++ x) = s := by
  cases x with
  | nil => rw [append_nil, cString_of_nulFree hs]
  | cons c x =>
    rw [hx c rfl]
    exact cString_append_nul hs x

lemma append_inj_of_nulFirst {s s' : CString} (hx : NulFirst x)
    (hx' : NulFirst x') (h : s.bytes ++ x = s'.bytes ++ x') : s = s' ∧ x = x' := by
  have hs : s.bytes = s'.bytes := by
    rw [← cString_append s.nulFree hx, ← cString_append s'.nulFree hx', h]
  rw [hs] at h
  exact ⟨CString.ext hs, append_cancel_left h⟩

/-- The letter after the first NUL. -/
def firstTag (x : List UInt8) : Option UInt8 := x.tail.head?

lemma firstTag_tagged_append (tag : UInt8) (s : CString) (x : List UInt8) :
    firstTag (tagged tag (some s) ++ x) = some tag := rfl

lemma tagged_append_inj {s s' : Option CString} (hx : NulFirst x) (hx' : NulFirst x') (htag : firstTag x ≠ some tag)
    (htag' : firstTag x' ≠ some tag) (h : tagged tag s ++ x = tagged tag s' ++ x') : s = s' ∧ x = x' := by
  cases s with
  | none =>
    cases s' with
    | none => exact ⟨rfl, h⟩
    | some s' =>
      rw [show x = tagged tag (some s') ++ x' from h] at htag
      exact absurd (firstTag_tagged_append tag s' x') htag
  | some s =>
    cases s' with
    | none =>
      rw [show x' = tagged tag (some s) ++ x from h.symm] at htag'
      exact absurd (firstTag_tagged_append tag s x) htag'
    | some s' =>
      have htail : s.bytes ++ x = s'.bytes ++ x' := (List.cons.inj (List.cons.inj h).2).2
      obtain ⟨rfl, rfl⟩ := append_inj_of_nulFirst hx hx' htail
      exact ⟨rfl, rfl⟩

/-- `vary_encoding` is only set together with `vary_headers`. -/
def Request.WellFormed (request : Request) : Prop := request.varyEncoding.isSome → request.varyHeaders.isSome

instance (request : Request) : Decidable request.WellFormed := inferInstanceAs (Decidable (_ → _))

lemma varyPart_eq (h : request.WellFormed) : varyPart request.varyHeaders request.varyEncoding =
      tagged tagV request.varyHeaders ++ tagged tagE request.varyEncoding := by
  unfold Request.WellFormed at h
  cases hv : request.varyHeaders with
  | some v => rfl
  | none =>
    cases he : request.varyEncoding with
    | none => rfl
    | some e =>
      rw [hv, he] at h
      exact absurd (h rfl) (by decide)

lemma requestPreimage_eq (h : request.WellFormed) (url : CString)
    (method : Method) : requestPreimage url method request =
      method.toUInt8 :: (url.bytes ++ (tagged tagV request.varyHeaders ++
        (tagged tagE request.varyEncoding ++ (tagged tagG request.urlgroup ++ [])))) := by
  rw [requestPreimage, varyPart_eq h]
  simp [publicPreimage]

lemma toUInt8_inj (h : method.toNat < 256) (h' : method'.toNat < 256)
    (heq : method.toUInt8 = method'.toUInt8) : method = method' := by
  have hn := congrArg UInt8.toNat heq
  rw [UInt32.toNat_toUInt8, UInt32.toNat_toUInt8, Nat.mod_eq_of_lt (by omega),
    Nat.mod_eq_of_lt (by omega)] at hn
  exact UInt32.toNat_inj.mp hn

lemma requestPreimage_inj {request' : Request} (hm : method.toNat < 256) (hm' : method'.toNat < 256)
    (hr : request.WellFormed) (hr' : request'.WellFormed)
    (h : requestPreimage url method request = requestPreimage url' method' request') :
    method = method' ∧ url = url' ∧ request.varyHeaders = request'.varyHeaders ∧
      request.varyEncoding = request'.varyEncoding ∧ request.urlgroup = request'.urlgroup := by
  rw [requestPreimage_eq hr, requestPreimage_eq hr'] at h
  obtain ⟨hmet, h⟩ := List.cons.inj h
  have hnil : NulFirst [] := fun _ hc => absurd hc (by simp)
  have hG : ∀ s, NulFirst (tagged tagG s ++ []) := fun s => nulFirst_tagged _ s hnil
  have hE : ∀ s t, NulFirst (tagged tagE s ++ (tagged tagG t ++ [])) := fun s t =>
    nulFirst_tagged _ s (hG t)
  have hV : ∀ s t u, NulFirst (tagged tagV s ++ (tagged tagE t ++ (tagged tagG u ++ []))) :=
    fun s t u => nulFirst_tagged _ s (hE t u)
  have htagE : ∀ s t, firstTag (tagged tagE s ++ (tagged tagG t ++ [])) ≠ some tagV := by
    intro s t
    cases s with
    | some s => exact fun hc => absurd (some.inj hc) (by decide)
    | none =>
      cases t with
      | some t => exact fun hc => absurd (some.inj hc) (by decide)
      | none => exact fun hc => by cases hc
  have htagG : ∀ t, firstTag (tagged tagG t ++ []) ≠ some tagE := by
    intro t
    cases t with
    | some t => exact fun hc => absurd (some.inj hc) (by decide)
    | none => exact fun hc => by cases hc
  obtain ⟨hurl, h⟩ := append_inj_of_nulFirst (hV _ _ _) (hV _ _ _) h
  obtain ⟨hvary, h⟩ := tagged_append_inj (hE _ _) (hE _ _) (htagE _ _) (htagE _ _) h
  obtain ⟨henc, h⟩ := tagged_append_inj (hG _) (hG _) (htagG _) (htagG _) h
  obtain ⟨hgro, -⟩ := tagged_append_inj hnil hnil (by decide) (by decide) h
  exact ⟨toUInt8_inj hm hm' hmet, hurl, hvary, henc, hgro⟩

/-! ## Private keys -/

lemma littleBytes_inj (h : littleBytes n = littleBytes n') : n = n' := by
  apply UInt32.toNat_inj.mp
  have hb := congrArg (List.map UInt8.toNat) h
  simp [littleBytes] at hb
  have hn := n.toNat_lt
  have hn' := n'.toNat_lt
  omega

lemma rawBytes_length (order : ByteOrder) (n : UInt32) : (rawBytes order n).length = 4 := by
  cases order <;> rfl

lemma rawBytes_inj (h : rawBytes order n = rawBytes order n') : n = n' := by
  cases order with
  | little => exact littleBytes_inj h
  | big => exact littleBytes_inj (reverse_injective h)

lemma ofInt_inj {id id' : ℤ} (h : 0 < id ∧ id < 2 ^ 31) (h' : 0 < id' ∧ id' < 2 ^ 31)
    (heq : UInt32.ofBitVec (BitVec.ofInt 32 id) = UInt32.ofBitVec (BitVec.ofInt 32 id')) : id = id' := by
  have hb := congrArg (fun n => n.toBitVec.toNat) heq
  simp only [BitVec.toNat_ofInt] at hb
  omega

lemma privatePreimage_inj {id id' : ℤ} (hid : 0 < id ∧ id < 2 ^ 31) (hid' : 0 < id' ∧ id' < 2 ^ 31)
    (h : privatePreimage order url method id = privatePreimage order url' method' id') :
    id = id' ∧ method = method' ∧ url = url' := by
  unfold privatePreimage at h
  rw [append_assoc, append_assoc] at h
  obtain ⟨hnum, h⟩ := append_inj h (by rw [rawBytes_length, rawBytes_length])
  obtain ⟨hmet, hurl⟩ := append_inj h (by rw [rawBytes_length, rawBytes_length])
  exact ⟨ofInt_inj hid hid' (rawBytes_inj hnum), rawBytes_inj hmet, CString.ext hurl⟩

/-! ## Public and private keys -/

/-- No two adjacent NULs. -/
def Separated (x : List UInt8) : Prop := x.IsChain fun a b => a ≠ 0 ∨ b ≠ 0

lemma separated_append (hs : 0 ∉ s) (hx : Separated x) : Separated (s ++ x) := by
  have hne : ∀ a ∈ s, a ≠ 0 := fun a ha h0 => hs (h0 ▸ ha)
  have hself : Separated s := (pairwise_of_forall_mem_list fun a ha b _ =>
    Or.inl (hne a ha)).isChain
  refine isChain_append.mpr ⟨hself, hx, ?_⟩
  intro a ha b _
  exact Or.inl (hne a (mem_of_getLast? ha))

lemma separated_tagged (htag : tag ≠ 0) (s : Option CString) (hx : Separated x) : Separated (tagged tag s ++ x) := by
  cases s with
  | none => exact hx
  | some s =>
    have hfree : 0 ∉ tag :: s.bytes := by
      rw [mem_cons, not_or]
      exact ⟨htag.symm, s.nulFree⟩
    exact isChain_cons_cons.mpr ⟨Or.inr htag, separated_append hfree hx⟩

lemma requestPreimage_separated (url : CString) (method : Method) (request : Request) :
    Separated (requestPreimage url method request).tail := by
  have hG : Separated (tagged tagG request.urlgroup ++ []) :=
    separated_tagged (by decide) _ isChain_nil
  rw [requestPreimage, publicPreimage, cons_append, cons_append, append_assoc]
  apply separated_append url.nulFree
  rw [append_nil] at hG
  cases hv : request.varyHeaders with
  | none => exact hG
  | some v =>
    rw [varyPart, append_assoc]
    exact separated_tagged (by decide) _ (separated_tagged (by decide) _ hG)

/-- The second and third byte of a method below 256 are NULs in both byte orders. -/
theorem rawBytes_method (order : ByteOrder) (h : method.toNat < 256) : ∃ a d, rawBytes order method = [a, 0, 0, d] := by
  have hshi : ∀ k : UInt32, 8 ≤ k.toNat → k.toNat < 32 → (method >>> k).toUInt8 = 0 := by
    intro k hk hk'
    have hpow : 2 ^ 8 ≤ 2 ^ k.toNat := Nat.pow_le_pow_right (by decide) hk
    apply UInt8.toNat_inj.mp
    rw [UInt32.toNat_toUInt8, UInt32.toNat_shiftRight, Nat.mod_eq_of_lt hk',
      Nat.shiftRight_eq_div_pow, Nat.div_eq_of_lt (by omega)]
    rfl
  have hlit : littleBytes method = [method.toUInt8, 0, 0, 0] := by
    rw [littleBytes, hshi 8 (by decide) (by decide), hshi 16 (by decide) (by decide),
      hshi 24 (by decide) (by decide)]
  cases order with
  | little => exact ⟨_, _, hlit⟩
  | big =>
    rw [rawBytes, hlit]
    exact ⟨_, _, rfl⟩

lemma privatePreimage_not_separated (order : ByteOrder) (url : CString)
    (h : method.toNat < 256) (id : ℤ) : ¬ Separated (privatePreimage order url method id).tail := by
  obtain ⟨a, d, hmet⟩ := rawBytes_method order h
  obtain ⟨i, j, k, l, hid⟩ : ∃ i j k l,
      rawBytes order (UInt32.ofBitVec (BitVec.ofInt 32 id)) = [i, j, k, l] := by
    cases order <;> exact ⟨_, _, _, _, rfl⟩
  have hspl : (privatePreimage order url method id).tail = [j, k, l, a] ++ 0 :: 0 :: (d :: url.bytes) := by
    rw [privatePreimage, hid, hmet]
    rfl
  intro hsep
  have hzero := isChain_iff_forall_rel_of_append_cons_cons.mp hsep hspl
  exact absurd hzero (by decide)

lemma requestPreimage_ne_privatePreimage (order : ByteOrder) (url url' : CString)
    (method : Method) (hm : method'.toNat < 256) (num : ℤ) (request : Request) :
    requestPreimage url method request ≠ privatePreimage order url' method' num := by
  intro heq
  apply privatePreimage_not_separated order url' hm num
  rw [← heq]
  exact requestPreimage_separated url method _

lemma storeKeyPublicByRequestMethod_preimage {md5 : List UInt8 → Key} {key : Key}
    (h : storeKeyPublicByRequestMethod md5 acsmCap request method = .ok key) :
    ∃ url, key = md5 (requestPreimage url method request) := by
  obtain ⟨⟨queryStr, ret⟩, -, h⟩ := bind_eq_ok.mp h
  obtain ⟨url, -, h⟩ := bind_eq_ok.mp h
  exact ⟨url, (Except.ok.inj h).symm⟩

lemma storeKeyPublic_preimage {md5 : List UInt8 → Key} {key : Key}
    (h : storeKeyPublic md5 acsmCap url method = .ok key) :
    ∃ url', key = md5 (requestPreimage url' method (plainRequest url' method)) := by
  obtain ⟨queryStr, -, h⟩ := bind_eq_ok.mp h
  obtain ⟨ret, -, h⟩ := bind_eq_ok.mp h
  obtain ⟨url', -, h⟩ := bind_eq_ok.mp h
  refine ⟨url', ?_⟩
  rw [requestPreimage_plain rfl rfl]
  exact (Except.ok.inj h).symm

lemma storeKeyPrivate_preimage {md5 : List UInt8 → Key} {num : ℤ} {key : Key}
    (h : storeKeyPrivate md5 order url method num = .ok key) : key = md5 (privatePreimage order url method num) := by
  obtain ⟨_, -, h⟩ := bind_eq_ok.mp h
  exact (Except.ok.inj h).symm

/-- Public keys can be read back, private keys can be read back, and no bytes are those of both. -/
theorem preimages_unambiguous (order : ByteOrder) :
    (∀ url url' method method' request request', method.toNat < 256 → method'.toNat < 256 →
      request.WellFormed → request'.WellFormed →
      requestPreimage url method request = requestPreimage url' method' request' →
      method = method' ∧ url = url' ∧ request.varyHeaders = request'.varyHeaders ∧
        request.varyEncoding = request'.varyEncoding ∧ request.urlgroup = request'.urlgroup) ∧
    (∀ url url' method method' num num', 0 < num ∧ num < 2 ^ 31 → 0 < num' ∧ num' < 2 ^ 31 →
      privatePreimage order url method num = privatePreimage order url' method' num' →
      num = num' ∧ method = method' ∧ url = url') ∧
    ∀ acsmCap url url' method method' request num pre pre', method'.toNat < 256 →
      storeKeyPublic id acsmCap url method = .ok pre ∨
        storeKeyPublicByRequestMethod id acsmCap request method = .ok pre →
      storeKeyPrivate id order url' method' num = .ok pre' → pre ≠ pre' := by
  refine ⟨?_, ?_, ?_⟩
  · intro url url' method method' request request' hm hm' hr hr' h
    exact requestPreimage_inj hm hm' hr hr' h
  · intro url url' method method' num num' hnum hnum' h
    exact privatePreimage_inj hnum hnum' h
  · intro acsmCap url url' method method' request num pre pre' hm hpub hpriv
    obtain rfl := storeKeyPrivate_preimage hpriv
    rcases hpub with hpub | hpub
    · obtain ⟨u, rfl⟩ := storeKeyPublic_preimage hpub
      exact requestPreimage_ne_privatePreimage order u url' method hm num _
    · obtain ⟨u, rfl⟩ := storeKeyPublicByRequestMethod_preimage hpub
      exact requestPreimage_ne_privatePreimage order u url' method hm num _

theorem preimages_unambiguous_flat :
    requestPreimage flatA 0 (plainRequest flatA 0) ≠ requestPreimage flatB 0 (plainRequest flatB 0) := by
  intro h
  have hurl := ((preimages_unambiguous .little).1 flatA flatB 0 0 _ _ (by decide) (by decide)
    (by decide) (by decide) h).2.1
  exact absurd hurl (by decide)

end SquidVideoCache.StoreKey
