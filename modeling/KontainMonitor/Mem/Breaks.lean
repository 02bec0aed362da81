import KontainMonitor.Mem.Ownership

/-!
# Breaks — `km_mem_brk` and `km_mem_tbrk`

The bottom zone uses the slots up to the one of `brk - 1`, the top zone those from the one of
`tbrk` on (`MemInv`).  Both calls keep this, whatever the host answers: a growing loop adds uses one
by one, and the loop after it takes away the uses that the new break does not need, also those of a
growth that failed half way.
-/

namespace KontainMonitor.Mem

open Loop Option

/-- The slots that the two zones use: up to `l` and from `u` on. -/
def usedUpTo (g : Geometry) (l u : Int) : Uses :=
  fun upper i => if upper then u ≤ i ∧ i < g.lastMemIdx else 1 ≤ i ∧ i ≤ l

/-- The physical addresses that have to be present: below `b` and from `t` on. -/
def presentUpTo (b t : Nat) : Bool → Nat → Prop := fun upper a => if upper then t ≤ a else a < b

def MemState.tbrkPa (g : Geometry) (m : MemState) : Nat := m.tbrk - g.guestVaOffset

structure MemInv (g : Geometry) (m : MemState) : Prop where
  brk_lo : guestMemStartVa ≤ m.brk
  tbrk_lo : g.guestVaOffset < m.tbrk
  tbrk_hi : m.tbrk ≤ guestMemTopVa
  apart : m.brk / gib < m.tbrkPa g / gib
  slots : SlotsInv g m (usedUpTo g (memregIdx g (m.brk - 1)) (memregIdx g (m.tbrkPa g)))
    (presentUpTo m.brk (m.tbrkPa g))

section

variable {g : Geometry} {m : MemState}
variable {b : Nat} {i : Int} {S : Uses}
variable {a t0 : Nat}

/-! ## Addresses -/

theorem MemInv.tbrkPa_hi (h : MemInv g m) : m.tbrkPa g ≤ g.guestMaxPhysmem - guestMemStartVa := by
  obtain ⟨n, hsizes⟩ := g.sizes
  have := h.tbrk_hi
  simp only [MemState.tbrkPa]
  omega

/-- `brk` stays below the last GB, `tbrk` above the first. -/
theorem MemInv.brk_hi (h : MemInv g m) : m.brk < g.guestMaxPhysmem - gib ∧ gib ≤ m.tbrkPa g := by
  obtain ⟨n, hsizes⟩ := g.sizes
  have htpa := h.tbrkPa_hi
  have hap := h.apart
  rw [gib_eq] at hap
  omega

theorem MemInv.brkIdx (h : MemInv g m) :
    gvaToMemregIdx g (m.brk - 1) = some (memregIdx g (m.brk - 1)) := by
  have hconsts := layout_consts
  have hlo := h.brk_lo
  have hhi := h.brk_hi
  exact memregIdx_of_gpa (gvaToGpa_low (by omega) (by omega)) (by omega) (by omega)

theorem MemInv.tbrkIdx (h : MemInv g m) :
    gvaToMemregIdx g m.tbrk = some (memregIdx g (m.tbrkPa g)) := by
  have hconsts := layout_consts
  have hlo := h.brk_hi.2
  exact memregIdx_of_gpa (gvaToGpa_up h.tbrk_lo h.tbrk_hi) (by omega) h.tbrkPa_hi

theorem memregIdx_mono (hlo : guestMemStartVa - 1 ≤ a) (hab : a ≤ b)
    (hhi : b ≤ g.guestMaxPhysmem - guestMemStartVa) : memregIdx g a ≤ memregIdx g b := by
  have hba := memregIdx_bounds g hlo (le_trans hab hhi)
  have hbb := memregIdx_bounds g (le_trans hlo hab) hhi
  by_cases h1 : 1 ≤ memregIdx g a
  · have hbase := (memregIdx_le_iff g h1 hba.2 hlo (le_trans hab hhi)).1 le_rfl
    exact (memregIdx_le_iff g h1 hba.2 (le_trans hlo hab) hhi).2 (le_trans hbase hab)
  · omega

/-! ## Slots and zones -/

/-- A slot that starts below the last GB ends there at the latest. -/
theorem slotInZone_low (h1 : 1 ≤ i) (hi : i < g.lastMemIdx)
    (hbase : memregBase g i < g.guestMaxPhysmem - gib) : slotInZone g false i := by
  obtain ⟨n, hsizes⟩ := g.sizes
  simp only [slotInZone, Bool.false_eq_true, if_false]
  by_cases hs : memregSize g i < gib
  · rcases memreg_small g h1 hi hs with h | h
    · omega
    · omega
  · exact (memreg_large g h1 hi (not_lt.1 hs)).2.2.2

/-- A slot that ends above the first GB starts there at the earliest. -/
theorem slotInZone_up (h1 : 1 ≤ i) (hi : i < g.lastMemIdx) (htop : gib < memregTop g i) :
    slotInZone g true i := by
  obtain ⟨n, hsizes⟩ := g.sizes
  simp only [slotInZone, if_true]
  by_cases hs : memregSize g i < gib
  · rcases memreg_small g h1 hi hs with h | h
    · omega
    · omega
  · exact (memreg_large g h1 hi (not_lt.1 hs)).2.2.1

theorem inSlot_disjoint {j : Int} (hi : 1 ≤ i) (hj : 1 ≤ j) (hi' : i < g.lastMemIdx)
    (hj' : j < g.lastMemIdx) (hij : i ≠ j) (ha : inSlot g i a) : ¬ inSlot g j a := by
  intro hb
  have hi2 := memregBase_add g i
  have hj2 := memregBase_add g j
  have hi3 := memregTop_eq g (by omega) hi'
  have hj3 := memregTop_eq g (by omega) hj'
  obtain ⟨ha1, ha2⟩ := ha
  obtain ⟨hb1, hb2⟩ := hb
  rcases lt_or_gt_of_ne hij with h | h
  · have := memregBase_mono g (by omega : (0 : Int) ≤ i + 1) (by omega : i + 1 ≤ j) (by omega)
    omega
  have := memregBase_mono g (by omega : (0 : Int) ≤ j + 1) (by omega : j + 1 ≤ i) (by omega)
  omega

theorem usedUpTo_add_low {l u : Int} (hl : 0 ≤ l) (b : Bool) (i : Int) :
    (usedUpTo g l u).add false (l + 1) b i ↔ usedUpTo g (l + 1) u b i := by
  cases b <;> simp only [Uses.add, usedUpTo, if_true, if_false, Bool.false_eq_true,
    Bool.true_eq_false, true_and, false_and, or_false]
  omega

theorem usedUpTo_remove_low {l u : Int} (b : Bool) (i : Int) :
    (usedUpTo g l u).remove false l b i ↔ usedUpTo g (l - 1) u b i := by
  cases b <;> simp only [Uses.remove, usedUpTo, if_true, if_false, Bool.false_eq_true,
    Bool.true_eq_false, true_and, false_and, not_false_eq_true, and_true]
  omega

theorem usedUpTo_add_up {l u : Int} (hu : u ≤ g.lastMemIdx) (b : Bool) (i : Int) :
    (usedUpTo g l u).add true (u - 1) b i ↔ usedUpTo g l (u - 1) b i := by
  cases b <;> simp only [Uses.add, usedUpTo, if_true, if_false, Bool.false_eq_true,
    true_and, false_and, or_false]
  omega

theorem usedUpTo_remove_up {l u : Int} (b : Bool) (i : Int) :
    (usedUpTo g l u).remove true u b i ↔ usedUpTo g l (u + 1) b i := by
  cases b <;> simp only [Uses.remove, usedUpTo, if_true, if_false, Bool.false_eq_true,
    true_and, false_and, not_false_eq_true, and_true]
  omega

/-! ## Moving `brk` -/

variable {P : Bool → Nat → Prop} {l u idx : Int} {brk tbrk : Nat}

section

variable (host : Int → AllocOutcome) (hlo : guestMemStartVa ≤ brk)
  (hgb : brk < g.guestMaxPhysmem - gib)
include host hlo hgb

/-- One round of the growing loop of `km_mem_brk`. -/
theorem brkGrowStep_spec (hidx : 0 ≤ idx) (hlast : idx < g.lastMemIdx)
    (h : SlotsInv g m (usedUpTo g idx u) P) :
    (∃ m', brkGrowStep g host brk (m, idx) = some (.inl (m', idx + 1)) ∧ SameBreaks g m m' ∧
      SlotsInv g m' (usedUpTo g (idx + 1) u) P ∧ idx + 1 ≤ memregIdx g (brk - 1)) ∨
    ∃ r, brkGrowStep g host brk (m, idx) = some (.inr r) ∧ SameBreaks g m r.mem ∧
      SlotsInv g r.mem (usedUpTo g idx u) P ∧ r.idx = idx ∧
      ((r.error = 0 ∧ r.brk = brk ∧ memregIdx g (brk - 1) ≤ idx) ∨
        (r.error = enomem ∧ r.brk = m.brk)) := by
  obtain ⟨n, hsizes⟩ := g.sizes
  have htop := memregTop_eq g hidx hlast
  have hiff := memregIdx_le_iff g (i := idx + 1) (a := brk - 1) (by omega) (by omega) (by omega)
    (by omega)
  by_cases hmore : min brk (memregTop g idx) < brk
  · have hnext : idx + 1 ≤ memregIdx g (brk - 1) := hiff.2 (by omega)
    have hbelow : idx + 1 < g.lastMemIdx := by
      by_contra hge
      have hbase := hiff.1 hnext
      have heq : idx + 1 = g.lastMemIdx := by omega
      rw [heq, memregBase_last] at hbase
      omega
    have hz := slotInZone_low (by omega) hbelow (by have := hiff.1 hnext; omega)
    rcases growSlot_spec h host false (by omega) hbelow hz with ⟨m', rc, hg, hsame, hrc⟩
    rcases hrc with ⟨rfl, hs⟩ | ⟨hrc, hs⟩
    · left
      refine ⟨m', by simp [brkGrowStep, hmore, hg], hsame, ?_, hnext⟩
      exact hs.congr (usedUpTo_add_low hidx) fun _ _ => id
    right
    exact ⟨_, by simp [brkGrowStep, hmore, hg, hrc]; rfl, hsame, hs, rfl, .inr ⟨rfl, hsame.brk⟩⟩
  right
  refine ⟨_, by simp [brkGrowStep, hmore]; rfl, .refl m, h, rfl, .inl ⟨rfl, rfl, ?_⟩⟩
  by_contra hlt
  have := hiff.1 (by omega)
  omega

/-- The growing loop of `km_mem_brk` ends at the slot of the new break, or gives up. -/
theorem brkGrow_spec (hl0 : 0 ≤ l) (hll : l < g.lastMemIdx) (h : SlotsInv g m (usedUpTo g l u) P) :
    ∃ r, Loop.run (brkGrowStep g host brk) (slotRounds g) (m, l) = some r ∧ SameBreaks g m r.mem ∧
      SlotsInv g r.mem (usedUpTo g r.idx u) P ∧ l ≤ r.idx ∧ r.idx < g.lastMemIdx ∧
      ((r.error = 0 ∧ r.brk = brk ∧ memregIdx g (brk - 1) ≤ r.idx) ∨
        (r.error = enomem ∧ r.brk = m.brk)) := by
  obtain ⟨n, hsizes⟩ := g.sizes
  have htgt : memregIdx g (brk - 1) < g.lastMemIdx := memregIdx_lt_last g (by omega) (by omega)
  refine run_total
    (I := fun s => SameBreaks g m s.1 ∧ SlotsInv g s.1 (usedUpTo g s.2 u) P ∧ l ≤ s.2 ∧
      s.2 < g.lastMemIdx)
    (fun s => (g.lastMemIdx - s.2).toNat) ?_ ⟨.refl m, h, le_refl l, hll⟩ ?_
  · rintro ⟨m1, idx⟩ ⟨hsame, hs, hl, hidx⟩
    rcases brkGrowStep_spec host hlo hgb (by omega) hidx hs with
      ⟨m2, hstep, hsame', hs', hnext⟩ | ⟨r, hstep, hsame', hs', rfl, hres⟩
    · exact .inl ⟨_, hstep, ⟨hsame.trans hsame', hs', by omega, by omega⟩, by simp only; omega⟩
    refine .inr ⟨r, hstep, hsame.trans hsame', hs', hl, hidx, ?_⟩
    rcases hres with hok | ⟨he, hb⟩
    · exact .inl hok
    · exact .inr ⟨he, hb.trans hsame.brk⟩
  simp only [slotRounds]
  omega

end

/-- Slot `i`, which one zone uses and which lies between the pages of the two zones, is freed. -/
theorem SlotsInv.freeSlot {t : Nat} (h : SlotsInv g m (usedUpTo g l u) (presentUpTo b t)) (upper : Bool)
    (hidx : usedUpTo g l u upper i) (honly : ¬ usedUpTo g l u (!upper) i)
    (hb : b ≤ memregBase g i) (ht : memregTop g i ≤ t) :
    ∃ m', kmFreeRegion g m i upper = some m' ∧ SameBreaks g m m' ∧
      SlotsInv g m' ((usedUpTo g l u).remove upper i) (presentUpTo b t) := by
  obtain ⟨h1, hi, -⟩ := h.range upper i hidx
  refine kmFreeRegion_spec h upper hidx honly (fun b' a ha hin => ?_) fun b' j a hj hji hin => ?_
  · have hadd := memregBase_add g i
    have hlo := hin.1
    have hhi := hin.2
    cases b' <;> simp only [presentUpTo, if_true, if_false, Bool.false_eq_true] at ha <;> omega
  have hr := h.range b' j hj
  exact inSlot_disjoint hr.1 h1 hr.2.1 hi hji hin

/-- The loop that gives up slots after `km_mem_brk`: it leaves those of the break. -/
theorem brkFree_spec {t : Nat} (hlo : guestMemStartVa ≤ brk) (hgb : brk < g.guestMaxPhysmem - gib)
    (hb : b ≤ brk) (ht : guestMemStartVa ≤ t) (ht' : t ≤ g.guestMaxPhysmem - guestMemStartVa)
    (hl : memregIdx g (brk - 1) ≤ l) (hll : l < g.lastMemIdx)
    (h : SlotsInv g m (usedUpTo g l (memregIdx g t)) (presentUpTo b t)) :
    ∃ m', Loop.run (brkFreeStep g brk (memregIdx g t)) (slotRounds g) (m, l) = some m' ∧
      SameBreaks g m m' ∧
      SlotsInv g m' (usedUpTo g (memregIdx g (brk - 1)) (memregIdx g t)) (presentUpTo b t) := by
  obtain ⟨n, hsizes⟩ := g.sizes
  have hbnd := memregIdx_bounds g (a := brk - 1) (by omega) (by omega)
  have hidx : gvaToMemregIdx g (brk - 1) = some (memregIdx g (brk - 1)) :=
    memregIdx_of_gpa (gvaToGpa_low (by omega) (by omega)) (by omega) (by omega)
  have htbnd := memregIdx_bounds g (by omega) ht'
  refine run_total (I := fun s => SameBreaks g m s.1 ∧
      SlotsInv g s.1 (usedUpTo g s.2 (memregIdx g t)) (presentUpTo b t) ∧
      memregIdx g (brk - 1) ≤ s.2 ∧ s.2 < g.lastMemIdx)
    (fun s => s.2.toNat) ?_ ⟨.refl m, h, hl, hll⟩ ?_
  · rintro ⟨m1, i⟩ ⟨hsame, hs, hi, hi'⟩
    simp only at hs hi hi'
    by_cases hmore : memregIdx g (brk - 1) < i
    · left
      by_cases hshared : i < memregIdx g t
      · -- nobody else uses the slot: the pages below `brk` and above `t` are outside of it
        have hbase : ¬ memregBase g i ≤ brk - 1 := by
          rw [← memregIdx_le_iff g (by omega) (by omega) (by omega) (by omega)]
          omega
        have htop := le_trans (memregTop_le_base g (by omega) htbnd.2 hshared)
          (memregBase_idx_le g ht ht')
        rcases hs.freeSlot false (by simp [usedUpTo]; omega) (by simp [usedUpTo]; omega) (by omega)
          htop with ⟨m2, hf, hsame', hs'⟩
        refine ⟨(m2, i - 1), by simp [brkFreeStep, hidx, hmore, hshared, hf],
          ⟨hsame.trans hsame', hs'.congr usedUpTo_remove_low fun _ _ => id, by omega, by omega⟩, ?_⟩
        simp only
        omega
      -- the top zone still uses the slot
      refine ⟨(m1, i - 1), by simp [brkFreeStep, hidx, hmore, hshared],
        ⟨hsame, ?_, by omega, by omega⟩, by simp only; omega⟩
      have hother : usedUpTo g i (memregIdx g t) (!false) i := by
        simp [usedUpTo]
        omega
      exact (hs.forget hother).congr usedUpTo_remove_low fun _ _ => id
    right
    have heq : i = memregIdx g (brk - 1) := by omega
    exact ⟨m1, by simp [brkFreeStep, hidx, hmore], hsame, heq ▸ hs⟩
  simp only [slotRounds]
  omega

/-- The tables after the bottom zone moved from `m.brk` to `brk`. -/
theorem SlotsInv.fixupBottom {t : Nat} (h : SlotsInv g m S (presentUpTo (min m.brk brk) t))
    (hold : guestMemStartVa ≤ m.brk) (hnew : guestMemStartVa ≤ brk) (hot : m.brk / gib < t / gib)
    (hnt : brk / gib < t / gib) (ht : t ≤ g.guestMaxPhysmem - guestMemStartVa) :
    SlotsInv g { m with pt := fixupBottomPageTables m.brk brk m.pt } S (presentUpTo brk t) where
  range := h.range
  plugged := h.plugged
  unplugged := h.unplugged
  tables hk := by
    obtain ⟨n, hsizes⟩ := g.sizes
    have hmoved : PresentMoved g m.pt (fixupBottomPageTables m.brk brk m.pt) :=
      fixupBottomPageTables_moved hot ht
    have htab := h.tables hk
    refine ⟨hmoved.wf htab.wf, fun b i a hb hz hin => hmoved.maps (htab.maps b i a hb hz hin), ?_⟩
    intro b a hz ha
    cases b with
    | false =>
      simp only [inZone, presentUpTo, if_false, Bool.false_eq_true] at hz ha
      refine fixupBottomPageTables_low hold hnew hot hnt ht (fun c hc1 hc2 hc3 => ?_) hz.1 ha
      refine htab.present false c ⟨hc1, ?_⟩ (lt_min hc2 hc3)
      rw [gib_eq] at hnt
      omega
    | true =>
      simp only [inZone, presentUpTo, if_true] at hz ha
      exact fixupBottomPageTables_up hot hnt ht ha hz.2 (htab.present true a hz ha)

/-- Without KVM there are no tables to keep. -/
theorem SlotsInv.of_not_kvm {P' : Bool → Nat → Prop} (h : SlotsInv g m S P) (hk : g.vmType ≠ .kvm) :
    SlotsInv g m S P' :=
  ⟨h.range, h.plugged, h.unplugged, fun h' => absurd h' hk⟩

/-- `brk` only tells the host about the pages it moved over. -/
theorem brkProtect_eq (g : Geometry) (m : MemState) (brk : Nat) :
    ∃ calls, brkProtect g m brk = { m with hostCalls := calls } := by
  simp only [brkProtect]
  split
  · exact ⟨_, rfl⟩
  split
  · exact ⟨_, rfl⟩
  · exact ⟨m.hostCalls, rfl⟩

section

variable (host : Int → AllocOutcome) (h : MemInv g m) (hlo : guestMemStartVa ≤ brk)
include host h hlo

/-- What a call on one of the breaks did: it moved the break, or failed and changed nothing. -/
theorem moveBrk_spec (hapart : brk / gib < m.tbrkPa g / gib) :
    ∃ m' r, moveBrk g host m brk = some (m', r) ∧ MemInv g m' ∧ SameReserved g m m' ∧
      m'.tbrk = m.tbrk ∧ ((r = brk ∧ m'.brk = brk) ∨ (r = negErrno enomem ∧ m'.brk = m.brk)) := by
  obtain ⟨n, hsizes⟩ := g.sizes
  have htpa := h.tbrkPa_hi
  have hbrk := h.brk_lo
  have hap := h.apart
  rw [gib_eq] at hap hapart
  have hbnd := memregIdx_bounds g (a := m.brk - 1) (by omega) (by omega)
  have hlt : memregIdx g (m.brk - 1) < g.lastMemIdx := memregIdx_lt_last g (by omega) (by omega)
  rcases brkGrow_spec host hlo (by omega) hbnd.1 hlt h.slots with
    ⟨r, hgrow, hsame, hs, hl, hl', hres⟩
  -- after a failure the break to install is the old one
  have hr : guestMemStartVa ≤ r.brk ∧ r.brk / 1073741824 < m.tbrkPa g / 1073741824 ∧
      memregIdx g (r.brk - 1) ≤ r.idx := by
    rcases hres with ⟨-, hb, hidx⟩ | ⟨-, hb⟩
    · rw [hb]
      exact ⟨hlo, hapart, hidx⟩
    rw [hb]
    exact ⟨hbrk, hap, hl⟩
  have hpresent : ∀ b a, presentUpTo (min m.brk r.brk) (m.tbrkPa g) b a →
      presentUpTo m.brk (m.tbrkPa g) b a := by
    intro b a ha
    cases b
    · simp only [presentUpTo, if_false, Bool.false_eq_true] at ha ⊢
      omega
    · exact ha
  have hs' := hs.congr (fun _ _ => Iff.rfl) hpresent
  rcases brkFree_spec hr.1 (by omega) (min_le_right _ _) (by omega) htpa hr.2.2 hl' hs' with
    ⟨m2, hfree, hsame', hs2⟩
  have hbrk2 : m2.brk = m.brk := (hsame.trans hsame').brk
  have htbrk2 : m2.tbrk = m.tbrk := (hsame.trans hsame').tbrk
  -- the tables of KVM
  have hs3 : SlotsInv g (if g.vmType = .kvm then
      { m2 with pt := fixupBottomPageTables m2.brk r.brk m2.pt } else m2)
      (usedUpTo g (memregIdx g (r.brk - 1)) (memregIdx g (m.tbrkPa g)))
      (presentUpTo r.brk (m.tbrkPa g)) := by
    split
    · rw [← hbrk2] at hs2 hbrk hap
      exact hs2.fixupBottom hbrk hr.1 (by rw [gib_eq]; exact hap) (by rw [gib_eq]; exact hr.2.1) htpa
    · exact hs2.of_not_kvm ‹_›
  simp only [moveBrk, h.brkIdx, hgrow, h.tbrkIdx, hfree, do_some]
  generalize hm3 : (if g.vmType = .kvm then
    { m2 with pt := fixupBottomPageTables m2.brk r.brk m2.pt } else m2) = m3 at hs3 ⊢
  have htbrk3 : m3.tbrk = m.tbrk := by
    rw [← hm3, ← htbrk2]
    split <;> rfl
  have hrsv3 : SameReserved g m m3 := by
    intro i hi
    rw [← (hsame.trans hsame').reserved i hi, ← hm3]
    split <;> rfl
  obtain ⟨calls, hcalls⟩ := brkProtect_eq g m3 r.brk
  rw [hcalls]
  have hpa : MemState.tbrkPa g { m3 with hostCalls := calls, brk := r.brk } = m.tbrkPa g := by
    simp only [MemState.tbrkPa, htbrk3]
  refine ⟨_, _, rfl, ⟨hr.1, ?_, ?_, ?_, ?_⟩, hrsv3, htbrk3, ?_⟩
  · exact htbrk3 ▸ h.tbrk_lo
  · exact htbrk3 ▸ h.tbrk_hi
  · rw [hpa, gib_eq]
    exact hr.2.1
  · rw [hpa]
    exact ⟨hs3.range, hs3.plugged, hs3.unplugged, hs3.tables⟩
  rcases hres with ⟨he, hb, -⟩ | ⟨he, hb⟩
  · left
    simp [he, hb]
  right
  simp [he, hb, enomem]

theorem kmMemBrk_spec :
    ∃ m' r, kmMemBrk g host m brk = some (m', r) ∧ MemInv g m' ∧ SameReserved g m m' ∧
      m'.tbrk = m.tbrk ∧ ((r = brk ∧ m'.brk = brk) ∨ (r = negErrno enomem ∧ m'.brk = m.brk)) := by
  have hconsts := layout_consts
  have h0 : brk ≠ 0 := by omega
  rw [kmMemBrk, if_neg h0]
  by_cases hzone : g.guestMemZoneSizeVa ≤ brk
  · rw [if_pos hzone]
    exact ⟨m, _, rfl, h, fun _ _ => rfl, rfl, .inr ⟨rfl, rfl⟩⟩
  have hbrk : gvaToGpa g brk = some brk := gvaToGpa_low (by omega) (not_le.1 hzone)
  have htbrk : gvaToGpa g m.tbrk = some (m.tbrkPa g) := gvaToGpa_up h.tbrk_lo h.tbrk_hi
  rw [if_neg hzone, hbrk, htbrk, bind_eq_bind, bind_some, bind_some]
  split
  · exact ⟨m, _, rfl, h, fun _ _ => rfl, rfl, .inr ⟨rfl, rfl⟩⟩
  next hsame =>
    rw [rounddown, rounddown, not_le] at hsame
    exact moveBrk_spec host h hlo (Nat.lt_of_mul_lt_mul_right hsame)

end

/-! ## Moving `tbrk` -/

variable {t : Nat}

section

variable (host : Int → AllocOutcome) (hlo : gib ≤ t) (hhi : t ≤ g.guestMaxPhysmem - guestMemStartVa)
include host hlo hhi

/-- One round of the growing loop of `km_mem_tbrk`. -/
theorem tbrkGrowStep_spec (hidx : 1 ≤ idx) (hlast : idx ≤ g.lastMemIdx)
    (h : SlotsInv g m (usedUpTo g l idx) P) :
    (∃ m', tbrkGrowStep g host (t + g.guestVaOffset) (m, idx) = some (.inl (m', idx - 1)) ∧
      SameBreaks g m m' ∧ SlotsInv g m' (usedUpTo g l (idx - 1)) P ∧ memregIdx g t ≤ idx - 1) ∨
    ∃ r, tbrkGrowStep g host (t + g.guestVaOffset) (m, idx) = some (.inr r) ∧ SameBreaks g m r.mem ∧
      SlotsInv g r.mem (usedUpTo g l idx) P ∧ r.idx = idx ∧
      ((r.error = 0 ∧ r.brk = t + g.guestVaOffset ∧ idx ≤ memregIdx g t) ∨
        (r.error = enomem ∧ r.brk = m.tbrk)) := by
  obtain ⟨n, hsizes⟩ := g.sizes
  have hone := memregBase_mono g (by decide : (0 : Int) ≤ 1) hidx hlast
  have hend := memregBase_mono g (by omega : (0 : Int) ≤ idx) hlast le_rfl
  rw [memregBase_one] at hone
  rw [memregBase_last] at hend
  have hbase : gpaToUpperGva g (memregBase g idx) = some (memregBase g idx + g.guestVaOffset) := by
    have hrange : guestMemStartVa ≤ memregBase g idx ∧ memregBase g idx < g.guestMaxPhysmem := by
      omega
    simp [gpaToUpperGva, hrange]
  have hiff := memregIdx_le_iff g (i := idx) (a := t) hidx hlast (by omega) hhi
  by_cases hmore : t < memregBase g idx
  · have hnext : memregIdx g t ≤ idx - 1 := by
      by_contra hge
      have := hiff.1 (by omega)
      omega
    have ht1 := (memregIdx_spec g (a := t) (by omega) (by omega)).1
    have htop : gib < memregTop g (idx - 1) := by
      rw [memregTop_eq g (by omega) (by omega)]
      have hsub : idx - 1 + 1 = idx := by omega
      rw [hsub]
      omega
    have hz := slotInZone_up (g := g) (by omega) (by omega) htop
    rcases growSlot_spec h host true (by omega) (by omega) hz with ⟨m', rc, hg, hsame, hrc⟩
    rcases hrc with ⟨rfl, hs⟩ | ⟨hrc, hs⟩
    · left
      refine ⟨m', by simp [tbrkGrowStep, hbase, hmore, hg], hsame, ?_, hnext⟩
      exact hs.congr (usedUpTo_add_up hlast) fun _ _ => id
    right
    exact ⟨_, by simp [tbrkGrowStep, hbase, hmore, hg, hrc]; rfl, hsame, hs, rfl,
      .inr ⟨rfl, hsame.tbrk⟩⟩
  right
  refine ⟨_, by simp [tbrkGrowStep, hbase, hmore]; rfl, .refl m, h, rfl,
    .inl ⟨rfl, rfl, hiff.2 (by omega)⟩⟩

/-- The growing loop of `km_mem_tbrk` ends at the slot of the new break, or gives up. -/
theorem tbrkGrow_spec (hu1 : 1 ≤ u) (hul : u ≤ g.lastMemIdx) (h : SlotsInv g m (usedUpTo g l u) P) :
    ∃ r, Loop.run (tbrkGrowStep g host (t + g.guestVaOffset)) (slotRounds g) (m, u) = some r ∧
      SameBreaks g m r.mem ∧ SlotsInv g r.mem (usedUpTo g l r.idx) P ∧ r.idx ≤ u ∧ 1 ≤ r.idx ∧
      ((r.error = 0 ∧ r.brk = t + g.guestVaOffset ∧ r.idx ≤ memregIdx g t) ∨
        (r.error = enomem ∧ r.brk = m.tbrk)) := by
  have hconsts := layout_consts
  have hone := memregIdx_pos g (a := t) (by omega) hhi
  refine run_total
    (I := fun s => SameBreaks g m s.1 ∧ SlotsInv g s.1 (usedUpTo g l s.2) P ∧ s.2 ≤ u ∧ 1 ≤ s.2)
    (fun s => s.2.toNat) ?_ ⟨.refl m, h, le_refl u, hu1⟩ ?_
  · rintro ⟨m1, idx⟩ ⟨hsame, hs, hu, hidx⟩
    rcases tbrkGrowStep_spec host hlo hhi hidx (le_trans hu hul) hs with
      ⟨m2, hstep, hsame', hs', hnext⟩ | ⟨r, hstep, hsame', hs', rfl, hres⟩
    · exact .inl ⟨_, hstep, ⟨hsame.trans hsame', hs', by omega, by omega⟩, by simp only; omega⟩
    refine .inr ⟨r, hstep, hsame.trans hsame', hs', hu, hidx, ?_⟩
    rcases hres with hok | ⟨he, hb⟩
    · exact .inl hok
    · exact .inr ⟨he, hb.trans hsame.tbrk⟩
  simp only [slotRounds]
  omega

end

/-- The loop that gives up slots after `km_mem_tbrk`: it leaves those of the break. -/
theorem tbrkFree_spec (hb : guestMemStartVa ≤ b) (hbt : b ≤ t) (hlo : gib ≤ t)
    (hhi : t ≤ g.guestMaxPhysmem - guestMemStartVa) (ht0 : t ≤ t0) (hu : u ≤ memregIdx g t)
    (hu1 : 1 ≤ u) (h : SlotsInv g m (usedUpTo g (memregIdx g (b - 1)) u) (presentUpTo b t0)) :
    ∃ m', Loop.run (tbrkFreeStep g (t + g.guestVaOffset) (memregIdx g (b - 1))) (slotRounds g)
        (m, u) = some m' ∧ SameBreaks g m m' ∧
      SlotsInv g m' (usedUpTo g (memregIdx g (b - 1)) (memregIdx g t)) (presentUpTo b t0) := by
  obtain ⟨n, hsizes⟩ := g.sizes
  have hbnd := memregIdx_bounds g (by omega) hhi
  have hidx : gvaToMemregIdx g (t + g.guestVaOffset) = some (memregIdx g t) := by
    have hgpa : gvaToGpa g (t + g.guestVaOffset) = some t := by
      rw [gvaToGpa_up (by omega) (by omega), Nat.add_sub_cancel]
    exact memregIdx_of_gpa hgpa (by omega) hhi
  refine run_total (I := fun s => SameBreaks g m s.1 ∧
      SlotsInv g s.1 (usedUpTo g (memregIdx g (b - 1)) s.2) (presentUpTo b t0) ∧
      s.2 ≤ memregIdx g t ∧ 1 ≤ s.2)
    (fun s => (g.lastMemIdx - s.2).toNat) ?_ ⟨.refl m, h, hu, hu1⟩ ?_
  · rintro ⟨m1, i⟩ ⟨hsame, hs, hi, hi'⟩
    simp only at hs hi hi'
    by_cases hmore : i < memregIdx g t
    · left
      by_cases hshared : memregIdx g (b - 1) < i
      · -- nobody else uses the slot: the pages below `brk` and above `tbrk` are outside of it
        have hbase : ¬ memregBase g i ≤ b - 1 := by
          rw [← memregIdx_le_iff g hi' (by omega) (by omega) (by omega)]
          omega
        have htop := le_trans (memregTop_le_base g (by omega) hbnd.2 hmore)
          (memregBase_idx_le g (by omega) hhi)
        rcases hs.freeSlot true (by simp [usedUpTo]; omega) (by simp [usedUpTo]; omega) (by omega)
          (le_trans htop ht0) with ⟨m2, hf, hsame', hs'⟩
        refine ⟨(m2, i + 1), by simp [tbrkFreeStep, hidx, hmore, hshared, hf],
          ⟨hsame.trans hsame', hs'.congr usedUpTo_remove_up fun _ _ => id, by omega, by omega⟩, ?_⟩
        simp only
        omega
      -- the bottom zone still uses the slot
      refine ⟨(m1, i + 1), by simp [tbrkFreeStep, hidx, hmore, hshared],
        ⟨hsame, ?_, by omega, by omega⟩, by simp only; omega⟩
      have hother : usedUpTo g (memregIdx g (b - 1)) i (!true) i := by
        simp [usedUpTo]
        omega
      have hforget := hs.forget hother
      exact hforget.congr usedUpTo_remove_up fun _ _ => id
    right
    have heq : i = memregIdx g t := by omega
    exact ⟨m1, by simp [tbrkFreeStep, hidx, hmore], hsame, heq ▸ hs⟩
  simp only [slotRounds]
  omega

/-- The tables after the top zone moved from physical address `t0` to `t`. -/
theorem SlotsInv.fixupTop (h : SlotsInv g m S (presentUpTo b (max t0 t)))
    (hbt0 : b / gib < t0 / gib) (hbt : b / gib < t / gib)
    (ht0 : t0 ≤ g.guestMaxPhysmem - guestMemStartVa)
    (ht : t ≤ g.guestMaxPhysmem - guestMemStartVa) :
    SlotsInv g { m with pt := fixupTopPageTables (t0 + g.guestVaOffset) (t + g.guestVaOffset) m.pt }
      S (presentUpTo b t) where
  range := h.range
  plugged := h.plugged
  unplugged := h.unplugged
  tables hk := by
    have hg0 : gib ≤ t0 := by
      rw [gib_eq] at hbt0 ⊢
      omega
    have hg : gib ≤ t := by
      rw [gib_eq] at hbt ⊢
      omega
    have hmoved : PresentMoved g m.pt
        (fixupTopPageTables (t0 + g.guestVaOffset) (t + g.guestVaOffset) m.pt) :=
      fixupTopPageTables_moved hg0 hg ht0 ht
    have htab := h.tables hk
    refine ⟨hmoved.wf htab.wf, fun b i a hb hz hin => hmoved.maps (htab.maps b i a hb hz hin), ?_⟩
    intro upper a hz ha
    cases upper with
    | false =>
      simp only [presentUpTo, if_false, Bool.false_eq_true] at ha
      exact fixupTopPageTables_low hbt0 ht0 ht ha (htab.present false a hz ha)
    | true =>
      simp only [inZone, presentUpTo, if_true] at hz ha
      refine fixupTopPageTables_up hg ht0 ht (fun c hc1 hc2 hc3 => ?_) ha hz.2
      exact htab.present true c ⟨le_trans hg hc2, hc3⟩ (max_le hc1 hc2)

theorem moveTbrk_spec (host : Int → AllocOutcome) (h : MemInv g m)
    (hlo : g.guestVaOffset < tbrk) (hhi : tbrk ≤ guestMemTopVa)
    (hapart : m.brk / gib < (tbrk - g.guestVaOffset) / gib) :
    ∃ m' r, moveTbrk g host m tbrk = some (m', r) ∧ MemInv g m' ∧ SameReserved g m m' ∧
      m'.brk = m.brk ∧
      ((r = tbrk ∧ m'.tbrk = tbrk) ∨ (r = negErrno enomem ∧ m'.tbrk = m.tbrk)) := by
  obtain ⟨n, hsizes⟩ := g.sizes
  -- work with physical addresses
  obtain ⟨t, rfl⟩ : ∃ t, tbrk = t + g.guestVaOffset := ⟨tbrk - g.guestVaOffset, by omega⟩
  rw [Nat.add_sub_cancel] at hapart
  have hcur : m.tbrkPa g + g.guestVaOffset = m.tbrk := Nat.sub_add_cancel (le_of_lt h.tbrk_lo)
  have htpa := h.tbrkPa_hi
  have hbrk := h.brk_lo
  have hbrk' := h.brk_hi
  have hap := h.apart
  have ht : t ≤ g.guestMaxPhysmem - guestMemStartVa := by omega
  have hgt : gib ≤ t := by
    rw [gib_eq] at hapart ⊢
    omega
  have hubnd := memregIdx_bounds g (by omega) htpa
  have hu1 := memregIdx_pos g (by omega) htpa
  rcases tbrkGrow_spec host hgt ht hu1 hubnd.2 h.slots with
    ⟨r, hgrow, hsame, hs, hu, hu', hres⟩
  -- after a failure the break to install is the old one
  obtain ⟨t', ht'eq, ht'apart, ht'hi, ht'idx⟩ : ∃ t', r.brk = t' + g.guestVaOffset ∧
      m.brk / gib < t' / gib ∧ t' ≤ g.guestMaxPhysmem - guestMemStartVa ∧
      r.idx ≤ memregIdx g t' := by
    rcases hres with ⟨-, hb, hidx⟩ | ⟨-, hb⟩
    · exact ⟨t, hb, hapart, ht, hidx⟩
    · exact ⟨m.tbrkPa g, by rw [hb, hcur], hap, htpa, hu⟩
  have ht'gib : gib ≤ t' := by
    rw [gib_eq] at ht'apart ⊢
    omega
  have hbt' : m.brk ≤ t' := by
    rw [gib_eq] at ht'apart
    omega
  have hpresent : ∀ b a, presentUpTo m.brk (max (m.tbrkPa g) t') b a →
      presentUpTo m.brk (m.tbrkPa g) b a := by
    intro b a ha
    cases b
    · exact ha
    simp only [presentUpTo, if_true] at ha ⊢
    exact le_trans (le_max_left _ _) ha
  have hs' := hs.congr (fun _ _ => Iff.rfl) hpresent
  rcases tbrkFree_spec hbrk hbt' ht'gib ht'hi (le_max_right _ _) ht'idx hu' hs' with
    ⟨m2, hfree, hsame', hs2⟩
  have hbrk2 : m2.brk = m.brk := (hsame.trans hsame').brk
  have htbrk2 : m2.tbrk = m.tbrk := (hsame.trans hsame').tbrk
  have hs3 : SlotsInv g (if g.vmType = .kvm then
      { m2 with pt := fixupTopPageTables m2.tbrk r.brk m2.pt } else m2)
      (usedUpTo g (memregIdx g (m.brk - 1)) (memregIdx g t')) (presentUpTo m.brk t') := by
    split
    · have hfix := hs2.fixupTop hap ht'apart htpa ht'hi
      rw [hcur, ← htbrk2, ← ht'eq] at hfix
      exact hfix
    · exact hs2.of_not_kvm ‹_›
  rw [← ht'eq] at hfree
  simp only [moveTbrk, h.brkIdx, hgrow, h.tbrkIdx, hfree, do_some]
  generalize hm3 : (if g.vmType = .kvm then
    { m2 with pt := fixupTopPageTables m2.tbrk r.brk m2.pt } else m2) = m3 at hs3 ⊢
  have hbrk3 : m3.brk = m.brk := by
    rw [← hm3, ← hbrk2]
    split <;> rfl
  have hrsv3 : SameReserved g m m3 := by
    intro i hi
    rw [← (hsame.trans hsame').reserved i hi, ← hm3]
    split <;> rfl
  have hpa : MemState.tbrkPa g { m3 with tbrk := r.brk } = t' := by
    simp only [MemState.tbrkPa, ht'eq, Nat.add_sub_cancel]
  refine ⟨_, _, rfl, ⟨hbrk3 ▸ hbrk, ?_, ?_, ?_, ?_⟩, hrsv3, hbrk3, ?_⟩
  · simp only [ht'eq]
    omega
  · simp only [ht'eq]
    omega
  · rw [hpa, hbrk3]
    exact ht'apart
  · rw [hpa, hbrk3]
    exact ⟨hs3.range, hs3.plugged, hs3.unplugged, hs3.tables⟩
  rcases hres with ⟨he, hb, -⟩ | ⟨he, hb⟩
  · left
    simp [he, hb]
  right
  simp [he, hb, enomem]

theorem kmMemTbrk_spec (host : Int → AllocOutcome) (h : MemInv g m)
    (harg : tbrk = 0 ∨ g.guestVaOffset < tbrk) :
    ∃ m' r, kmMemTbrk g host m tbrk = some (m', r) ∧ MemInv g m' ∧ SameReserved g m m' ∧
      m'.brk = m.brk ∧ ((tbrk = 0 ∧ r = m.tbrk ∧ m'.tbrk = m.tbrk) ∨ (r = tbrk ∧ m'.tbrk = tbrk) ∨
        (r = negErrno enomem ∧ m'.tbrk = m.tbrk)) := by
  rw [kmMemTbrk]
  by_cases h0 : tbrk = 0
  · rw [if_pos h0]
    exact ⟨m, _, rfl, h, fun _ _ => rfl, rfl, .inl ⟨h0, rfl, rfl⟩⟩
  rw [if_neg h0]
  by_cases hrange : guestMemTopVa < tbrk ∨ tbrk < g.guestVaOffset
  · rw [if_pos hrange]
    exact ⟨m, _, rfl, h, fun _ _ => rfl, rfl, .inr (.inr ⟨rfl, rfl⟩)⟩
  have hlo : g.guestVaOffset < tbrk := by omega
  have hhi : tbrk ≤ guestMemTopVa := by omega
  have hbrk : gvaToGpa g m.brk = some m.brk := by
    have h1 := h.brk_lo
    have h2 := h.brk_hi.1
    exact gvaToGpa_low (by omega) (by omega)
  rw [if_neg hrange, hbrk, gvaToGpa_up hlo hhi, bind_eq_bind, bind_some,
    bind_some]
  split
  · exact ⟨m, _, rfl, h, fun _ _ => rfl, rfl, .inr (.inr ⟨rfl, rfl⟩)⟩
  rename_i hsame
  rw [rounddown, rounddown, not_le] at hsame
  rcases moveTbrk_spec host h hlo hhi (Nat.lt_of_mul_lt_mul_right hsame) with
    ⟨m', r, hmove, hinv, hrsv, hb, hres⟩
  exact ⟨m', r, hmove, hinv, hrsv, hb, .inr hres⟩

end

end KontainMonitor.Mem
