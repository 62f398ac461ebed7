import SquidVideoCache.Stmem.Model

/-!
# The window of the stream that is in memory

The nodes hold the stream from `origin_offset` on, cut into pages. Every node before the last is full, so
the data that was freed fills whole pages and a node's number tells where its page begins.
-/

namespace SquidVideoCache.Stmem
open Lib List

variable {mem mem' : MemHdr} {stream data : Bytes} {target offset : ℤ} {size : ℕ}

lemma smPageSize_pos : 0 < smPageSize := by decide

structure Window (stream : Bytes) (mem : MemHdr) : Prop where
  origin : mem.originOffset = (smPageSize * mem.freed : ℕ)
  origin_le : mem.originOffset ≤ stream.length
  paged : Paged smPageSize mem.pages
  text : mem.pages.flatten = stream.drop mem.originOffset.toNat
  kept : stream ≠ [] → mem.pages ≠ []

lemma Window.origin_nonneg (h : Window stream mem) : 0 ≤ mem.originOffset := by
  rw [h.origin]
  exact Int.natCast_nonneg _

lemma Window.length_flatten (h : Window stream mem) : (mem.pages.flatten.length : ℤ) = stream.length - mem.originOffset := by
  have hle := h.origin_le
  have hnn := h.origin_nonneg
  rw [h.text, length_drop]
  omega

lemma Window.getElem? {node : ℕ} (h : Window stream mem) (hfre : mem.freed ≤ node) (hlt : smPageSize * node < stream.length) :
    mem.pages[node - mem.freed]? = some ((stream.drop (smPageSize * node)).take smPageSize) := by
  have hori := h.origin
  have hlen := h.length_flatten
  have hmul : smPageSize * node = smPageSize * mem.freed + smPageSize * (node - mem.freed) := by
    rw [← Nat.mul_add, Nat.add_sub_cancel' hfre]
  have htoN : mem.originOffset.toNat = smPageSize * mem.freed := by
    rw [hori, Int.toNat_natCast]
  rw [h.paged.getElem? (by omega), h.text, drop_drop, htoN, ← hmul]

lemma window_empty : Window [] .empty := ⟨rfl, le_refl _, paged_nil, rfl, fun h => absurd rfl h⟩

/-! ## Appending -/

lemma stmemAppend_frame (mem : MemHdr) (data : Bytes) :
    (stmemAppend mem data).freed = mem.freed ∧ (stmemAppend mem data).originOffset = mem.originOffset := by
  unfold stmemAppend
  split
  · exact ⟨rfl, rfl⟩
  · split_ifs <;> exact ⟨rfl, rfl⟩

lemma stmemAppend_flatten (mem : MemHdr) (data : Bytes) :
    (stmemAppend mem data).pages.flatten = mem.pages.flatten ++ data := by
  have hnew : ∀ d : Bytes, (newNodes d).flatten = d := fun d => flatten_cutPages smPageSize_pos (le_refl _)
  unfold stmemAppend
  split
  · rename_i hlast
    rw [getLast?_eq_none_iff.1 hlast]
    exact hnew data
  · rename_i tail hlast
    have hpag : mem.pages = mem.pages.dropLast ++ [tail] := (dropLast_append_getLast? tail hlast).symm
    split_ifs
    · conv_rhs => rw [hpag]
      simp [hnew]
    · simp [hnew]

lemma stmemAppend_paged (h : Paged smPageSize mem.pages) (data : Bytes) : Paged smPageSize (stmemAppend mem data).pages := by
  unfold stmemAppend
  split
  · exact paged_cutPages smPageSize_pos _ _
  · rename_i tail hlast
    have hpag : mem.pages = mem.pages.dropLast ++ [tail] := (dropLast_append_getLast? tail hlast).symm
    split_ifs with hroom
    · rw [hpag] at h
      exact h.fill smPageSize_pos _ data
    · -- The last page is full as well.
      refine (paged_cutPages smPageSize_pos _ _).append smPageSize_pos fun p hp => ?_
      rw [hpag, mem_append, mem_singleton] at hp
      rcases hp with hp | rfl
      · exact h.full p hp
      · have hle := h.le p (mem_of_getLast? hlast)
        omega

lemma Window.append (h : Window stream mem) (data : Bytes) : Window (stream ++ data) (stmemAppend mem data) := by
  obtain ⟨hfre, hori⟩ := stmemAppend_frame mem data
  have hle := h.origin_le
  have hfla := stmemAppend_flatten mem data
  refine ⟨?_, ?_, stmemAppend_paged h.paged data, ?_, ?_⟩
  · rw [hori, hfre, h.origin]
  · rw [length_append]
    omega
  · rw [hfla, h.text, hori, drop_append_of_le_length (by omega)]
  · intro hne hnil
    rw [hnil] at hfla
    obtain ⟨htext, hdata⟩ := append_eq_nil_iff.1 hfla.symm
    have hstr : stream ≠ [] := by
      rintro rfl
      exact hne hdata
    -- The pages were not empty, so their text was not.
    obtain ⟨p, hp⟩ := exists_mem_of_ne_nil _ (h.kept hstr)
    exact h.paged.ne_nil p hp (flatten_eq_nil_iff.1 htext p hp)

/-! ## Freeing -/

/-- Whole nodes are freed, none that reaches beyond the target and never the last. -/
structure FreedUpto (target : ℤ) (mem mem' : MemHdr) : Prop where
  nodes : ∃ k, mem'.freed = mem.freed + k ∧ mem'.pages = mem.pages.drop k ∧
    mem'.originOffset = mem.originOffset + (smPageSize * k : ℕ)
  le : mem'.originOffset ≤ target
  kept : mem' = mem ∨ mem'.pages ≠ []

lemma freedUpto_refl (h : mem.originOffset ≤ target) : FreedUpto target mem mem := ⟨⟨0, rfl, rfl, by simp⟩, h, Or.inl rfl⟩

lemma freedTo_eq (h : mem.originOffset ≤ target) : freedTo target mem = .ok mem := by
  unfold freedTo
  split_ifs with hlt
  · rfl
  · rw [cAssert_pos (by omega)]
    rfl

lemma freeNodes_ends (node : ℕ) {current : ℤ} {pages : List Bytes} (hpag : Paged smPageSize pages) (hle : current ≤ target) :
    ∃ mem', freeNodes target node current pages = .ok mem' ∧ FreedUpto target ⟨node, pages, current⟩ mem' := by
  induction pages generalizing node current with
  | nil => exact ⟨_, freedTo_eq hle, freedUpto_refl hle⟩
  | cons p rest ih =>
    cases rest with
    | nil =>
      rw [freeNodes]
      split_ifs
      · exact ⟨_, rfl, freedUpto_refl hle⟩
      · exact ⟨_, freedTo_eq hle, freedUpto_refl hle⟩
    | cons q rest =>
      rw [freeNodes]
      split_ifs with hbef
      · obtain ⟨mem', hfree, ⟨k, hfre, hpage, hori⟩, hle', hkept⟩ := ih _ hpag.of_cons hbef
        refine ⟨mem', hfree, ⟨k + 1, ?_, hpage, ?_⟩, hle', Or.inr ?_⟩
        · rw [hfre, Nat.add_assoc, Nat.add_comm 1 k]
        · rw [hori, hpag.length_head (cons_ne_nil _ _), Nat.mul_succ]
          show current + _ + _ = current + _
          omega
        · rcases hkept with rfl | hkept
          · exact cons_ne_nil _ _
          · exact hkept
      · exact ⟨_, freedTo_eq hle, freedUpto_refl hle⟩

lemma Window.free (h : Window stream mem) (hlo : mem.originOffset ≤ target) :
    ∃ mem', stmemFreeDataUpto mem target = .ok mem' ∧ Window stream mem' ∧ FreedUpto target mem mem' := by
  obtain ⟨mem', hfree, hupto⟩ := freeNodes_ends _ h.paged hlo
  have hnn := h.origin_nonneg
  obtain ⟨k, hfre, hpag, hori⟩ := hupto.nodes
  have htext : mem'.pages.flatten = stream.drop mem'.originOffset.toNat := by
    rw [hpag, h.paged.flatten_drop, h.text, drop_drop]
    congr 1
    simp only at hori
    omega
  have hpage : Paged smPageSize mem'.pages := by
    rw [hpag]
    exact h.paged.drop k
  refine ⟨mem', hfree, ?_, hupto⟩
  rcases hupto.kept with rfl | hkept
  · exact h
  · refine ⟨?_, ?_, hpage, htext, fun _ => hkept⟩
    · rw [hori, hfre, Nat.mul_add, Nat.cast_add]
      rw [h.origin]
    · -- A page is left, so there is text from the new origin on.
      obtain ⟨p, hp⟩ := exists_mem_of_ne_nil _ hkept
      have hne : stream.drop mem'.originOffset.toNat ≠ [] := by
        rw [← htext]
        exact fun hnil => hpage.ne_nil p hp (flatten_eq_nil_iff.1 hnil p hp)
      rw [Ne, drop_eq_nil_iff] at hne
      omega

/-! ## Copying -/

lemma copyNodes_eq (pages : List Bytes) (go : ℕ) :
    copyNodes pages go = (pages.flatten.take go, go - pages.flatten.length) := by
  induction pages generalizing go with
  | nil => simp [copyNodes]
  | cons p rest ih =>
    rw [copyNodes]
    split_ifs with hzero hlt
    · simp [hzero]
    · have hwho : p.take go = p := take_of_length_le (by omega)
      rw [ih, flatten_cons, take_append, hwho, length_append, Nat.sub_add_eq]
    · rw [flatten_cons, take_append_of_le_length (by omega), length_append]
      simp only [Prod.mk.injEq, true_and]
      omega

lemma copyFrom_eq (p : Bytes) (rest : List Bytes) {into : ℕ} (hinto : into ≤ p.length) (size : ℕ) :
    copyFrom p rest into size =
      (((p ++ rest.flatten).drop into).take size, min size ((p ++ rest.flatten).drop into).length) := by
  have hlen : (p.drop into).length = p.length - into := length_drop
  rw [copyFrom, copyNodes_eq, firstBytes, drop_append_of_le_length hinto, take_append, length_append, hlen]
  refine Prod.ext ?_ ?_
  · by_cases hle : size ≤ p.length - into
    · simp [Nat.min_eq_left hle, Nat.sub_eq_zero_of_le hle]
    · have hwho : (p.drop into).take (p.length - into) = p.drop into := take_of_length_le hlen.le
      have hwho' : (p.drop into).take size = p.drop into := take_of_length_le (by omega)
      rw [Nat.min_eq_right (by omega), hwho, hwho']
  · omega

lemma seekNode_spec {pages : List Bytes} {tOff : ℤ} (hlo : tOff ≤ offset) (hhi : offset < tOff + pages.flatten.length) :
    ∃ p rest t, seekNode offset tOff pages = some (p, rest, t) ∧ t ≤ offset ∧ offset ≤ t + p.length ∧
      (p ++ rest.flatten).drop (offset - t).toNat = pages.flatten.drop (offset - tOff).toNat := by
  induction pages generalizing tOff with
  | nil => simp at hhi; omega
  | cons p rest ih =>
    rw [flatten_cons, length_append] at hhi
    rw [seekNode]
    split_ifs with hbef
    · obtain ⟨q, rest', t, hseek, hle, hend, htext⟩ := ih (Int.not_lt.1 (by omega) : tOff + p.length ≤ offset) (by omega)
      refine ⟨q, rest', t, hseek, hle, hend, htext.trans ?_⟩
      have hspl : (offset - tOff).toNat = p.length + (offset - (tOff + p.length)).toNat := by omega
      rw [flatten_cons, hspl, ← drop_drop, drop_left]
    · exact ⟨p, rest, tOff, rfl, hlo, by omega, rfl⟩

lemma Window.copy (h : Window stream mem) (hlo : mem.originOffset ≤ offset) (hhi : offset < stream.length) (hsize : 0 < size) :
    stmemCopy mem offset size = .ok ((stream.drop offset.toNat).take size, min size (stream.length - offset).toNat) := by
  have hlen := h.length_flatten
  have hnn := h.origin_nonneg
  have hne : mem.pages ≠ [] := by
    intro hnil
    rw [hnil, flatten_nil, length_nil] at hlen
    omega
  obtain ⟨p, rest, t, hseek, hle, hend, htext⟩ := seekNode_spec hlo (by omega : offset < mem.originOffset + mem.pages.flatten.length)
  have hdrop : (p ++ rest.flatten).drop (offset - t).toNat = stream.drop offset.toNat := by
    rw [htext, h.text, drop_drop]
    congr 1
    omega
  rw [stmemCopy, if_neg hne, cAssert_pos hsize, hseek]
  show (if offset < t then _ else _) = _
  rw [if_neg (by omega), copyFrom_eq p rest (by omega), hdrop, length_drop]
  have hcou : stream.length - offset.toNat = (stream.length - offset).toNat := by omega
  rw [hcou]
  rfl

/-! ## Runs -/

variable {s s' : State} {e : Event}

/-- What the state of a run is: a window that begins at or before the last offset that was to be freed. -/
structure Inv (s : State) : Prop where
  window : Window s.stream s.mem
  requested : s.mem.originOffset ≤ s.requested

lemma Inv.step (h : Inv s) (he : enabled s e = true) :
    ∃ s', step s e = .ok s' ∧ Inv s' ∧ s.mem.originOffset ≤ s'.mem.originOffset := by
  cases e with
  | append data =>
    have hori := (stmemAppend_frame s.mem data).2
    refine ⟨_, rfl, ⟨h.window.append data, ?_⟩, ?_⟩
    · exact hori.trans_le h.requested
    · exact hori.ge
  | freeDataUpto target =>
    obtain ⟨hreq, -⟩ := of_decide_eq_true he
    obtain ⟨mem', hfree, hwin, hupto⟩ := h.window.free (h.requested.trans hreq)
    obtain ⟨k, -, -, hori⟩ := hupto.nodes
    refine ⟨{ s with mem := mem', requested := target }, ?_, ⟨hwin, hupto.le⟩, ?_⟩
    · rw [Stmem.step, hfree]
      rfl
    · show s.mem.originOffset ≤ mem'.originOffset
      omega

lemma inv_of_reached {es : List Event} (h : machine.Reached (fun _ _ => true) es s) : Inv s := by
  induction h with
  | init => exact ⟨window_empty, le_refl _⟩
  | next e _ he _ hstep ih =>
    obtain ⟨s', hs', hinv, -⟩ := ih.step he
    obtain rfl := Except.ok.inj (hs'.symm.trans hstep)
    exact hinv

/-- The nodes hold a window of the stream. It begins at or before the last offset that was to be freed and
never moves back, no call fails, and a copy of at least one byte from the window is that of the stream. -/
theorem window_of_reached {es : List Event} (h : machine.Reached (fun _ _ => true) es s) :
    (0 ≤ s.mem.originOffset ∧ s.mem.originOffset ≤ s.stream.length ∧ s.mem.originOffset ≤ s.requested ∧
      s.mem.pages.flatten = s.stream.drop s.mem.originOffset.toNat) ∧
    (∀ e, enabled s e = true → ∃ s', step s e = .ok s' ∧ s.mem.originOffset ≤ s'.mem.originOffset) ∧
    ∀ offset size, s.mem.originOffset ≤ offset → offset < s.stream.length → 0 < size → stmemCopy s.mem offset size =
        .ok ((s.stream.drop offset.toNat).take size, min size (s.stream.length - offset).toNat) := by
  have hinv := inv_of_reached h
  have hwin := hinv.window
  refine ⟨⟨hwin.origin_nonneg, hwin.origin_le, hinv.requested, hwin.text⟩, ?_, ?_⟩
  · intro e he
    obtain ⟨s', hs', -, hle⟩ := hinv.step he
    exact ⟨s', hs', hle⟩
  · intro offset size hlo hhi hsize
    exact hwin.copy hlo hhi hsize

def shortRun : List Event := [.append [1, 2, 3], .freeDataUpto 2, .append [4]]

lemma exists_shortRun : ∃ s, machine.Reached (fun _ _ => true) shortRun s ∧ s.mem.originOffset = 0 ∧ s.stream = [1, 2, 3, 4] :=
  machine.exists_reached _ _ (fun s => s.mem.originOffset = 0 ∧ s.stream = [1, 2, 3, 4]) (by decide)

theorem window_shortRun : ∃ s, machine.Reached (fun _ _ => true) shortRun s ∧ stmemCopy s.mem 1 2 = .ok ([2, 3], 2) := by
  obtain ⟨s, hs, hori, hstr⟩ := exists_shortRun
  refine ⟨s, hs, ?_⟩
  have hcopy := (window_of_reached hs).2.2 1 2 (by rw [hori]; decide) (by rw [hstr]; decide) (by decide)
  rw [hcopy, hstr]
  rfl

/-- A copy of no bytes is refused by an assertion. -/
theorem not_window_shortRun : ∃ s, machine.Reached (fun _ _ => true) shortRun s ∧ s.mem.originOffset ≤ 1 ∧
    (1 : ℤ) < s.stream.length ∧ stmemCopy s.mem 1 0 = .error .assertion :=
  machine.exists_reached _ _
    (fun s => s.mem.originOffset ≤ 1 ∧ (1 : ℤ) < s.stream.length ∧ stmemCopy s.mem 1 0 = .error _) (by decide)

end SquidVideoCache.Stmem
