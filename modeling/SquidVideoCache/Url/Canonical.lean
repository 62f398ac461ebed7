import SquidVideoCache.Url.Model

/-!
# The canonical form of a URL

A request that `urlParse` has made is `Clean`: its pieces are what the checks leave alone, and none
of them has the character that ends it in the canonical form. Such a request is what `urlParse`
makes of its canonical form, unless the protocol is `urn`.
-/

namespace SquidVideoCache.Url
open Lib List

variable {cfg : Config} {method : Method} {r : Request} {host urlpath login url raw : List UInt8}
  {u : Bool} {c : UInt8} {s proto authority : List UInt8} {p : Protocol}

structure Clean (cfg : Config) (r : Request) : Prop where
  nulFree : 0 ∉ r.login ∧ 0 ∉ r.urlpath
  protocol_eq : urlParseProtocol (protocolStr r.protocol) = r.protocol
  slash_notMem : slash ∉ r.login
  host_chars : ∀ c ∈ r.host, validHostnameChar cfg.allowUnderscore c = true ∧ tolower c = c
  host_dots : r.host.rdropWhile (· = dot) = r.host ∧ ¬ ([dot, dot] <:+: r.host ∨ r.host.head? = some dot)
  port_pos : 1 ≤ r.port
  port_le : r.port ≤ 65535
  path_head : r.urlpath.head? = some slash
  path_chars : ∀ c ∈ r.urlpath, c ≠ 13 ∧ c ≠ 10
  path_eq : cleanPath cfg r.urlpath = some r.urlpath

/-! ## Characters of a host -/

def Separator (c : UInt8) : Prop := c = 0 ∨ c = slash ∨ c = atSign ∨ c = colon ∨ isSpace c = true

lemma not_separator_of_valid (h : validHostnameChar u c = true) : ¬ Separator c := by
  have hall : ∀ u c, validHostnameChar u c = true →
      ¬ (c = 0 ∨ c = slash ∨ c = atSign ∨ c = colon ∨ isSpace c = true) :=
    fun u => forall_byte (by cases u <;> decide +kernel)
  exact hall u c h

lemma not_hasWhitespace_of_valid (h : ∀ c ∈ host, validHostnameChar u c = true) :
    stringHasWhitespace host = false := by
  have hbla : ∀ c : UInt8, (c = 32 || c = 9 || c = 10 || c = 13) = true → isSpace c = true :=
    forall_byte (by decide +kernel)
  rw [stringHasWhitespace, any_eq_false]
  intro c hc hw
  have hval := h c ((List.takeWhile_prefix _).subset hc)
  exact not_separator_of_valid hval (.inr (.inr (.inr (.inr (hbla c hw)))))

lemma cleanHost_eq_some (hche : cfg.checkHostnames = true) (happ : cfg.appendDomain = none)
    (h : cleanHost cfg raw = some host) : (∀ c ∈ host, validHostnameChar cfg.allowUnderscore c = true ∧ tolower c = c) ∧
      host.rdropWhile (· = dot) = host ∧ ¬ ([dot, dot] <:+: host ∨ host.head? = some dot) := by
  unfold cleanHost at h
  simp only [appendDomain, happ] at h
  generalize hstr : (if stringHasWhitespace (raw.map tolower) = true ∧ cfg.uriWhitespace = .strip then
    stripWhitespace (raw.map tolower) else raw.map tolower) = stripped at h
  have hlow : ∀ c ∈ stripped, tolower c = c := by
    have hsub : ∀ c ∈ stripped, c ∈ raw.map tolower := by
      intro c hc
      rw [← hstr] at hc
      split_ifs at hc
      · exact mem_of_mem_filter hc
      · exact hc
    intro c hc
    obtain ⟨x, -, rfl⟩ := mem_map.mp (hsub c hc)
    exact tolower_tolower x
  split_ifs at h with hval hdots
  cases h
  refine ⟨fun c hc => ?_, ?_, hdots⟩
  · have hmem : c ∈ stripped := (List.rdropWhile_prefix _ _).subset hc
    have hall : stripped.all (validHostnameChar cfg.allowUnderscore) = true := by
      by_contra hnot
      exact hval ⟨hche, hnot⟩
    exact ⟨all_eq_true.mp hall c hmem, hlow c hmem⟩
  · exact rdropWhile_idempotent _ _

lemma cleanHost_of_clean (happ : cfg.appendDomain = none)
    (hcha : ∀ c ∈ host, validHostnameChar cfg.allowUnderscore c = true ∧ tolower c = c)
    (hdots : host.rdropWhile (· = dot) = host ∧ ¬ ([dot, dot] <:+: host ∨ host.head? = some dot)) :
    cleanHost cfg host = some host := by
  have hlow : host.map tolower = host := by
    rw [map_congr_left fun c hc => (hcha c hc).2, map_id']
  have hval : host.all (validHostnameChar cfg.allowUnderscore) = true :=
    all_eq_true.mpr fun c hc => (hcha c hc).1
  have hbla := not_hasWhitespace_of_valid fun c hc => (hcha c hc).1
  have hche : ¬ (cfg.checkHostnames = true ∧ ¬ host.all (validHostnameChar cfg.allowUnderscore) = true) :=
    fun hbad => hbad.2 hval
  simp only [cleanHost, hlow, hbla, Bool.false_eq_true, false_and, if_false, appendDomain, happ]
  rw [if_neg hche, hdots.1, if_neg hdots.2]

/-! ## The path -/

lemma hasWhitespace_iff (h0 : 0 ∉ raw) :
    stringHasWhitespace raw = true ↔ ∃ c ∈ raw, c = 32 ∨ c = 9 ∨ c = 10 ∨ c = 13 := by
  rw [stringHasWhitespace, cString_of_nulFree h0]
  simp [or_assoc]

lemma mem_escape (h : c ∈ rfc1738EscapeUnescaped raw) : 33 ≤ c := by
  have hall : ∀ x : UInt8, (escapeChar false x).all (fun c => decide (33 ≤ c)) = true := forall_byte (by decide +kernel)
  obtain ⟨x, -, hx⟩ := mem_flatMap.mp h
  exact of_decide_eq_true (all_eq_true.1 (hall x) c hx)

structure CleanPath (cfg : Config) (urlpath : List UInt8) : Prop where
  nulFree : 0 ∉ urlpath
  head : urlpath.head? = some slash
  chars : ∀ c ∈ urlpath, c ≠ 13 ∧ c ≠ 10
  clean : cleanPath cfg urlpath = some urlpath

lemma cleanPath_of_chars (hhead : urlpath.head? = some slash)
    (hcha : ∀ c ∈ urlpath, c ≠ 0 ∧ c ≠ 32 ∧ c ≠ 9 ∧ c ≠ 10 ∧ c ≠ 13) : CleanPath cfg urlpath := by
  have h0 : 0 ∉ urlpath := fun hmem => (hcha 0 hmem).1 rfl
  refine ⟨h0, hhead, fun c hc => ⟨(hcha c hc).2.2.2.2, (hcha c hc).2.2.2.1⟩, if_neg ?_⟩
  rw [hasWhitespace_iff h0]
  rintro ⟨c, hc, hbla⟩
  have hnot := hcha c hc
  tauto

lemma cleanPath_eq_some (h0 : 0 ∉ raw) (hhead : raw.head? = some slash) (hcha : ∀ c ∈ raw, c ≠ 13 ∧ c ≠ 10)
    (h : cleanPath cfg raw = some urlpath) : CleanPath cfg urlpath := by
  obtain ⟨rest, rfl⟩ : ∃ rest, raw = slash :: rest := by
    cases raw with
    | nil => cases hhead
    | cons c rest => exact ⟨rest, by rw [Option.some.inj hhead]⟩
  have hself := h
  unfold cleanPath at h
  split_ifs at h with hbla
  · cases hpol : cfg.uriWhitespace with
    | deny => simp [hpol] at h
    | allow =>
      simp only [hpol, Option.some.injEq] at h
      subst h
      exact ⟨h0, hhead, hcha, hself⟩
    | encode =>
      simp only [hpol, Option.some.injEq] at h
      subst h
      refine cleanPath_of_chars rfl fun c hc => ?_
      have hge := mem_escape (mem_of_mem_take hc)
      refine ⟨?_, ?_, ?_, ?_, ?_⟩
      all_goals rintro rfl; exact absurd hge (by decide)
    | chop =>
      simp only [hpol, Option.some.injEq] at h
      subst h
      refine cleanPath_of_chars rfl fun c hc => ?_
      have hmem := (List.takeWhile_prefix _).subset hc
      have hnot := mem_takeWhile_imp hc
      refine ⟨fun h' => h0 (h' ▸ hmem), ?_, ?_, (hcha c hmem).2, (hcha c hmem).1⟩
      all_goals rintro rfl; exact absurd hnot (by decide)
    | strip =>
      simp only [hpol, Option.some.injEq] at h
      subst h
      refine cleanPath_of_chars rfl fun c hc => ?_
      obtain ⟨hmem, hnot⟩ := mem_filter.mp hc
      refine ⟨fun h' => h0 (h' ▸ hmem), ?_, ?_, (hcha c hmem).2, (hcha c hmem).1⟩
      all_goals rintro rfl; exact absurd hnot (by decide)
  · cases h
    exact ⟨h0, hhead, hcha, hself⟩

/-! ## Taking a URL apart -/

structure Split (url proto authority urlpath : List UInt8) : Prop where
  slash_notMem : slash ∉ authority
  authority_sub : ∀ c ∈ authority, c ∈ url
  path_sub : ∀ c ∈ urlpath, c ∈ url ∨ c = slash
  path_head : urlpath.head? = some slash
  path_chars : ∀ c ∈ urlpath, c ≠ 13 ∧ c ≠ 10

lemma drop_length_takeWhile (p : UInt8 → Bool) (s : List UInt8) : s.drop (s.takeWhile p).length = s.dropWhile p := by
  induction s with
  | nil => rfl
  | cons c s ih =>
    by_cases hc : p c = true
    · simp [hc, ih]
    · simp [hc]

lemma dropWhile_slash (s : List UInt8) :
    (s.dropWhile fun c => decide (c ≠ slash)) = [] ∨ ∃ rest, (s.dropWhile fun c => decide (c ≠ slash)) = slash :: rest := by
  have hhead := head?_dropWhile_not (fun c => decide (c ≠ slash)) s
  cases hdrop : s.dropWhile fun c => decide (c ≠ slash) with
  | nil => exact .inl rfl
  | cons c rest =>
    rw [hdrop] at hhead
    have hc : c = slash := by simpa using hhead
    exact .inr ⟨rest, by rw [hc]⟩

lemma linePath_eq (hne : s ≠ []) (h : ∀ c ∈ s, c ≠ 13 ∧ c ≠ 10) : linePath s = s := by
  have hall : s.takeWhile (fun c => decide (c ≠ 13) && decide (c ≠ 10)) = s :=
    takeWhile_eq_self_iff.mpr fun c hc => by simpa using h c hc
  simp only [linePath, hall, if_neg hne]

lemma mem_linePath (h : c ∈ linePath s) : (c ∈ s ∨ c = slash) ∧ c ≠ 13 ∧ c ≠ 10 := by
  unfold linePath at h
  simp only at h
  split_ifs at h with hnil
  · rw [mem_singleton.mp h]
    exact ⟨.inr rfl, by decide, by decide⟩
  · have hnot := mem_takeWhile_imp h
    exact ⟨.inl ((List.takeWhile_prefix _).subset h), by simpa using hnot⟩

lemma splitUrl_eq_some (h : splitUrl url = some (proto, authority, urlpath)) : Split url proto authority urlpath := by
  unfold splitUrl at h
  simp only [drop_length_takeWhile] at h
  split at h
  · next rest hrest =>
    cases h
    have hsub : ∀ c ∈ rest, c ∈ url := by
      intro c hc
      have hdrop : c ∈ url.dropWhile fun c => decide (c ≠ colon) := by
        rw [hrest]
        simp [hc]
      exact (dropWhile_suffix _).subset hdrop
    refine ⟨fun hmem => ?_, fun c hc => hsub c ((List.takeWhile_prefix _).subset hc), fun c hc => ?_, ?_,
      fun c hc => (mem_linePath hc).2⟩
    · simpa using mem_takeWhile_imp hmem
    · exact (mem_linePath hc).1.imp_left fun hin => hsub c ((dropWhile_suffix _).subset hin)
    · obtain hnil | ⟨rest', hcons⟩ := dropWhile_slash rest
      · rw [hnil]
        rfl
      · rw [hcons]
        rfl
  · cases h

lemma takeWhile_ne (h : c ∉ s) (rest : List UInt8) : (s ++ c :: rest).takeWhile (fun x => decide (x ≠ c)) = s := by
  refine takeWhile_run (fun x hx => decide_eq_true fun heq : x = c => h (heq ▸ hx)) ?_
  simp

lemma splitUrl_append (hpro : colon ∉ proto) (hauth : slash ∉ authority)
    (hpath : urlpath.head? = some slash) (hcha : ∀ c ∈ urlpath, c ≠ 13 ∧ c ≠ 10) :
    splitUrl (proto ++ [colon, slash, slash] ++ authority ++ urlpath) = some (proto, authority, urlpath) := by
  obtain ⟨rest, rfl⟩ : ∃ rest, urlpath = slash :: rest := by
    cases urlpath with
    | nil => cases hpath
    | cons c rest => exact ⟨rest, by rw [Option.some.inj hpath]⟩
  have htext : proto ++ [colon, slash, slash] ++ authority ++ slash :: rest =
      proto ++ colon :: slash :: slash :: (authority ++ slash :: rest) := by simp
  have hline : linePath (slash :: rest) = slash :: rest := linePath_eq (by simp) hcha
  rw [htext]
  simp only [splitUrl, takeWhile_ne hpro, drop_left]
  change some (proto, (authority ++ slash :: rest).takeWhile (fun c => decide (c ≠ slash)), linePath _) = _
  simp only [takeWhile_ne hauth, drop_left, hline]

/-! ## What is parsed is clean -/

lemma ite_ne_icp {cond : Prop} [Decidable cond] {q : Protocol} (hp : p ≠ .icp) (hq : q ≠ .icp) :
    (if cond then p else q) ≠ .icp := by
  split_ifs
  · exact hp
  · exact hq

lemma urlParseProtocol_ne_icp (s : List UInt8) : urlParseProtocol s ≠ .icp := by
  iterate 10 refine ite_ne_icp (by decide) ?_
  decide

lemma urlParseProtocol_protocolStr (s : List UInt8) :
    urlParseProtocol (protocolStr (urlParseProtocol s)) = urlParseProtocol s := by
  have hne := urlParseProtocol_ne_icp s
  generalize urlParseProtocol s = p at *
  cases p with
  | icp => exact absurd rfl hne
  | _ => decide

lemma splitLogin_sub (authority : List UInt8) : ∀ c ∈ (splitLogin authority).1, c ∈ authority := by
  intro c hc
  unfold splitLogin at hc
  cases hs : splitLast atSign authority with
  | none => simp [hs] at hc
  | some ab =>
    obtain ⟨rfl, -⟩ := splitLast_eq_some hs
    rw [hs] at hc
    exact mem_append_left _ hc

lemma clean_of_check (hche : cfg.checkHostnames = true)
    (happ : cfg.appendDomain = none) (h0 : 0 ∉ url) (hspl : splitUrl url = some (proto, authority, urlpath))
    (h : (Parts.ofAuthority (urlParseProtocol proto) authority urlpath).check cfg method = some r) :
    Clean cfg r ∧ r.method = method := by
  obtain ⟨hsla, hauth, hsub, hhead, hcha⟩ := splitUrl_eq_some hspl
  unfold Parts.check at h
  split at h
  · cases h
  next host hhost =>
    split_ifs at h with hport
    obtain ⟨path, hpath, rfl⟩ := Option.map_eq_some_iff.mp h
    obtain ⟨hhos, hdots⟩ := cleanHost_eq_some hche happ hhost
    have hraw : 0 ∉ urlpath := fun hmem => (hsub 0 hmem).elim h0 (by decide)
    have hcle := cleanPath_eq_some hraw hhead hcha hpath
    have hlog := splitLogin_sub authority
    refine ⟨⟨⟨fun hmem => h0 (hauth 0 (hlog 0 hmem)), hcle.nulFree⟩, urlParseProtocol_protocolStr proto,
      fun hmem => hsla (hlog slash hmem), hhos, hdots, ?_, ?_, hcle.head, hcle.chars, hcle.clean⟩, rfl⟩
    all_goals
      simp only at hport ⊢
      omega

/-! ## The canonical form of a clean request -/

lemma colon_notMem_protocolStr (p : Protocol) : colon ∉ protocolStr p := by
  cases p <;> decide

lemma nul_notMem_protocolStr (p : Protocol) : 0 ∉ protocolStr p := by
  cases p <;> decide

lemma Clean.host_notMem (h : Clean cfg r) (hc : Separator c) : c ∉ r.host :=
  fun hmem => not_separator_of_valid (h.host_chars c hmem).1 hc

lemma portText_notMem (hc : c ≠ colon) (hdig : 10 ≤ digitValue c) : c ∉ portText r := by
  unfold portText
  split_ifs
  · rw [mem_cons, not_or]
    exact ⟨hc, fun hmem => absurd (mem_decimal hmem) (by omega)⟩
  · exact not_mem_nil

section

variable (h : Clean cfg r)

include h

lemma Clean.splitLogin_eq :
    splitLogin (loginText r ++ r.host ++ portText r) = (r.login, r.host ++ portText r) := by
  have hat : atSign ∉ r.host ++ portText r := by
    rw [mem_append, not_or]
    exact ⟨h.host_notMem (.inr (.inr (.inl rfl))), portText_notMem (by decide) (by decide)⟩
  unfold loginText splitLogin
  split_ifs with hlog
  · rw [hlog, nil_append, splitLast_eq_none.mpr hat]
    rfl
  · have htext : r.login ++ [atSign] ++ r.host ++ portText r = r.login ++ atSign :: (r.host ++ portText r) := by simp
    rw [htext, splitLast_append hat]
    rfl

lemma Clean.splitPort_eq :
    splitPort (urlDefaultPort r.protocol) (r.host ++ portText r) = (r.host, (r.port : ℤ)) := by
  have hcol : colon ∉ r.host := h.host_notMem (.inr (.inr (.inr (.inl rfl))))
  unfold portText splitPort
  split_ifs with hport
  · have hdigits : colon ∉ decimal r.port := fun hmem => absurd (mem_decimal hmem) (by decide)
    rw [splitLast_append hdigits]
    split
    · next heq => cases heq
    · next heq =>
      obtain ⟨-, hnil⟩ := Prod.mk.inj (Option.some.inj heq)
      exact absurd hnil (decimal_ne_nil _)
    · next heq =>
      obtain ⟨rfl, rfl⟩ := Prod.mk.inj (Option.some.inj heq)
      rw [atoi_decimal h.port_le]
  · rw [append_nil, splitLast_eq_none.mpr hcol]
    rw [not_not] at hport
    rw [hport]

lemma Clean.ofAuthority_eq : Parts.ofAuthority r.protocol (loginText r ++ r.host ++ portText r) r.urlpath =
      ⟨r.protocol, r.login, r.host, r.port, r.urlpath⟩ := by
  simp only [Parts.ofAuthority, h.splitLogin_eq, h.splitPort_eq]

lemma Clean.check_eq (happ : cfg.appendDomain = none) :
    Parts.check cfg r.method ⟨r.protocol, r.login, r.host, r.port, r.urlpath⟩ = some r := by
  have hport : ¬ ((r.port : ℤ) < 1 ∨ 65535 < (r.port : ℤ)) := by
    have hpos := h.port_pos
    have hle := h.port_le
    omega
  simp only [Parts.check, cleanHost_of_clean happ h.host_chars h.host_dots, if_neg hport, h.path_eq]
  simp

lemma Clean.slash_notMem_authority : slash ∉ loginText r ++ r.host ++ portText r := by
  have hlog : slash ∉ loginText r := by
    unfold loginText
    split_ifs
    · exact not_mem_nil
    · rw [mem_append, not_or]
      exact ⟨h.slash_notMem, by decide⟩
  simp only [mem_append, not_or]
  exact ⟨⟨hlog, h.host_notMem (.inr (.inl rfl))⟩, portText_notMem (by decide) (by decide)⟩

lemma Clean.nul_notMem_authority : 0 ∉ loginText r ++ r.host ++ portText r := by
  have hlog : 0 ∉ loginText r := by
    unfold loginText
    split_ifs
    · exact not_mem_nil
    · rw [mem_append, not_or]
      exact ⟨h.nulFree.1, by decide⟩
  simp only [mem_append, not_or]
  exact ⟨⟨hlog, h.host_notMem (.inl rfl)⟩, portText_notMem (by decide) (by decide)⟩

end

lemma protocolStr_head (hp : p ≠ .urn) : ∃ c rest, protocolStr p = c :: rest ∧ c ≠ 117 := by
  cases p with
  | urn => exact absurd rfl hp
  | _ => exact ⟨_, _, rfl, by decide⟩

lemma not_urnScheme (hp : p ≠ .urn) (rest : List UInt8) : ¬ urnScheme <+: protocolStr p ++ rest := by
  rintro ⟨t, ht⟩
  obtain ⟨c, s, hstr, hc⟩ := protocolStr_head hp
  rw [hstr] at ht
  exact hc (List.cons.inj ht).1.symm

lemma canonicalText_of_ne (hp : r.protocol ≠ .urn) (hm : r.method ≠ .connect) : canonicalText r =
    protocolStr r.protocol ++ [colon, slash, slash] ++ (loginText r ++ r.host ++ portText r) ++ r.urlpath := by
  rw [canonicalText, if_neg hp, if_neg hm]

lemma appendDomainLen_eq (happ : cfg.appendDomain = none) : cfg.appendDomainLen = 0 := by
  simp [Config.appendDomainLen, happ]

lemma Clean.urlScan_eq (h : Clean cfg r) (happ : cfg.appendDomain = none) (hp : r.protocol ≠ .urn)
    (hm : r.method ≠ .connect) (hlen : (canonicalText r).length < maxUrl) :
    urlScan cfg r.method (canonicalText r) = some r := by
  have htext := canonicalText_of_ne hp hm
  have hnul : 0 ∉ canonicalText r := by
    have hauth := h.nul_notMem_authority
    rw [htext]
    simp only [mem_append, not_or] at hauth ⊢
    exact ⟨⟨⟨nul_notMem_protocolStr _, by decide⟩, hauth⟩, h.nulFree.2⟩
  have hsch : ¬ (r.method ≠ .connect ∧ urnScheme <+: canonicalText r) := by
    rintro ⟨-, hpre⟩
    rw [htext, append_assoc, append_assoc] at hpre
    exact not_urnScheme hp _ hpre
  have hlong : ¬ maxUrl - 1 < (canonicalText r).length + cfg.appendDomainLen := by
    rw [appendDomainLen_eq happ]
    omega
  have hspl := splitUrl_append (colon_notMem_protocolStr r.protocol) h.slash_notMem_authority h.path_head h.path_chars
  rw [← htext] at hspl
  simp only [urlScan, cString_of_nulFree hnul, if_neg hlong, if_neg hsch, urlParts, if_neg hm, hspl,
    Option.map_some, h.protocol_eq, h.ofAuthority_eq]
  exact h.check_eq happ

lemma stored_eq (hhost : r.host.length < squidHostnameLen) (hlog : r.login.length < maxLoginSz) : r.stored = r := by
  unfold Request.stored
  rw [take_of_length_le (by omega), take_of_length_le (by omega)]

lemma urlCanonical_eq (hlen : (canonicalText r).length < maxUrl) : urlCanonical r = canonicalText r :=
  take_of_length_le (by omega)

/-! ## URNs -/

/-- Any text behind the scheme is a URN. -/
theorem urlScan_urn (happ : cfg.appendDomain = none) (hm : method ≠ .connect) (h0 : 0 ∉ urlpath)
    (hlen : (urnScheme ++ urlpath).length < maxUrl) :
    urlScan cfg method (urnScheme ++ urlpath) = some ⟨method, .urn, [], [], 0, urlpath⟩ := by
  have hnul : 0 ∉ urnScheme ++ urlpath := by
    rw [mem_append, not_or]
    exact ⟨by decide, h0⟩
  have hlong : ¬ maxUrl - 1 < (urnScheme ++ urlpath).length + cfg.appendDomainLen := by
    rw [appendDomainLen_eq happ]
    omega
  have hsch : method ≠ .connect ∧ urnScheme <+: urnScheme ++ urlpath := ⟨hm, prefix_append _ _⟩
  simp only [urlScan, cString_of_nulFree hnul, if_neg hlong, if_pos hsch]
  rfl

lemma urlScan_eq_some (hche : cfg.checkHostnames = true) (happ : cfg.appendDomain = none)
    (hm : method ≠ .connect) (h : urlScan cfg method url = some r) :
    (urnScheme <+: cString url ∧ r = urnParse method (cString url)) ∨
      (¬ urnScheme <+: cString url ∧ Clean cfg r ∧ r.method = method) := by
  unfold urlScan at h
  simp only at h
  split_ifs at h with hlong hsch
  · exact .inl ⟨hsch.2, (Option.some.inj h).symm⟩
  · refine .inr ⟨fun hpre => hsch ⟨hm, hpre⟩, ?_⟩
    obtain ⟨parts, hpar, hr⟩ := Option.bind_eq_some_iff.mp h
    rw [urlParts, if_neg hm] at hpar
    obtain ⟨⟨proto, authority, urlpath⟩, hspl, rfl⟩ := Option.map_eq_some_iff.mp hpar
    exact clean_of_check hche happ (cString_nulFree url) hspl hr

/-- The canonical form of a request is parsed into the request, unless the URL has `URN` as the protocol
of a host. The conditions say that nothing is cut off. -/
theorem urlParse_urlCanonical_iff {cfg : Config} (hcheck : cfg.checkHostnames = true)
    (happend : cfg.appendDomain = none) {method : Method} (hm : method ≠ .connect) {url : List UInt8} {r : Request}
    (h : urlScan cfg method url = some r) (hhost : r.host.length < squidHostnameLen)
    (hlogin : r.login.length < maxLoginSz) (hlen : (canonicalText r).length < maxUrl) :
    urlParse cfg method url = some r ∧
      (urlParse cfg method (urlCanonical r) = some r ↔ ¬ (r.protocol = .urn ∧ ¬ urnScheme <+: cString url)) := by
  have hsto := stored_eq hhost hlogin
  refine ⟨by rw [urlParse, h, Option.map_some, hsto], ?_⟩
  rw [urlCanonical_eq hlen, urlParse]
  obtain ⟨hsch, rfl⟩ | ⟨hsch, hcle, rfl⟩ := urlScan_eq_some hcheck happend hm h
  · -- the canonical form of a URN is the URN
    obtain ⟨urlpath, hurl⟩ := hsch
    have hnul : 0 ∉ urlpath := fun hmem => cString_nulFree url (hurl ▸ mem_append_right _ hmem)
    have hurn : urnParse method (cString url) = ⟨method, .urn, [], [], 0, urlpath⟩ := by
      rw [← hurl]
      rfl
    rw [hurn] at hlen hsto ⊢
    have hscan := urlScan_urn happend hm hnul hlen
    refine iff_of_true ?_ fun hbad => hbad.2 (hurl ▸ prefix_append _ _)
    rw [canonicalText, if_pos rfl, hscan, Option.map_some, hsto]
  · by_cases hp : r.protocol = .urn
    · -- the host is lost, and the port with it
      refine iff_of_false (fun hsame => ?_) fun hnot => hnot ⟨hp, hsch⟩
      rw [canonicalText, if_pos hp] at hlen hsame
      rw [urlScan_urn happend hm hcle.nulFree.2 hlen] at hsame
      have hport := congrArg Request.port (Option.some.inj hsame)
      have hpos := hcle.port_pos
      rw [← hport] at hpos
      exact absurd hpos (by simp [Request.stored])
    · refine iff_of_true ?_ fun hbad => hp hbad.1
      rw [hcle.urlScan_eq happend hp hm hlen, Option.map_some, hsto]

/-! A URL with a host and the protocol `URN`. -/

def plainConfig : Config := ⟨true, false, .strip, none⟩

def urnUrl : List UInt8 := ascii "URN://h:80/x".toList

def urnRequest : Request := ⟨.get, .urn, [], ascii "h".toList, 80, ascii "/x".toList⟩

theorem urlParse_urlCanonical_urnUrl : urlParse plainConfig .get urnUrl = some urnRequest ∧
      (urlParse plainConfig .get (urlCanonical urnRequest) = some urnRequest ↔
        ¬ (urnRequest.protocol = .urn ∧ ¬ urnScheme <+: cString urnUrl)) :=
  urlParse_urlCanonical_iff rfl rfl (by decide) (by decide +kernel) (by decide) (by decide) (by decide +kernel)

/-- Its canonical form is `urn:/x`. -/
theorem not_urlParse_urlCanonical : ¬ ∀ (cfg : Config) (method : Method) (url : List UInt8) (r : Request),
    cfg.checkHostnames = true → cfg.appendDomain = none → method ≠ .connect → urlScan cfg method url = some r →
      r.host.length < squidHostnameLen → r.login.length < maxLoginSz → (canonicalText r).length < maxUrl →
      urlParse cfg method (urlCanonical r) = some r := by
  intro hall
  have hsame := hall plainConfig .get urnUrl urnRequest rfl rfl (by decide) (by decide +kernel) (by decide) (by decide)
    (by decide +kernel)
  exact absurd hsame (by decide +kernel)

end SquidVideoCache.Url
