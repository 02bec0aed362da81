import KontainMonitor.Mem.Breaks

/-!
# Moves — where the breaks are after a call that did not abort

`MemInv` describes calls whose arguments are above `GUEST_VA_OFFSET`.  The mapping code may also ask
for `tbrk` at `GUEST_VA_OFFSET` itself, where the slots are no longer described by the breaks.  What
every call keeps, as long as no assertion fails, is `BreaksOk`: the breaks stay in their zones and
out of each other's GB.
-/

namespace KontainMonitor.Mem

open Loop

structure BreaksOk (g : Geometry) (m : MemState) : Prop where
  tbrk_lo : g.guestVaOffset < m.tbrk
  tbrk_hi : m.tbrk ≤ guestMemTopVa
  apart : m.brk / gib < m.tbrkPa g / gib

theorem MemInv.breaks {g : Geometry} {m : MemState} (h : MemInv g m) : BreaksOk g m :=
  ⟨h.tbrk_lo, h.tbrk_hi, h.apart⟩

structure SameBrk (m m' : MemState) : Prop where
  brk : m'.brk = m.brk
  tbrk : m'.tbrk = m.tbrk

theorem SameBrk.refl (m : MemState) : SameBrk m m := ⟨rfl, rfl⟩

theorem SameBrk.trans {m₁ m2 m3 : MemState} (h₁ : SameBrk m₁ m2) (h₂ : SameBrk m2 m3) :
    SameBrk m₁ m3 :=
  ⟨h₂.brk.trans h₁.brk, h₂.tbrk.trans h₁.tbrk⟩

theorem BreaksOk.congr {g : Geometry} {m m' : MemState} (h : BreaksOk g m) (hs : SameBrk m m') :
    BreaksOk g m' := by
  obtain ⟨h1, h2, h3⟩ := h
  refine ⟨hs.tbrk ▸ h1, hs.tbrk ▸ h2, ?_⟩
  simp only [MemState.tbrkPa, hs.brk, hs.tbrk]
  exact h3

section

variable {g : Geometry} {m m' : MemState} {host : Int → AllocOutcome} {idx : Int} {upper : Bool}
variable {arg r : Nat} {rc : Int}
variable {reg : MemReg} {n : Nat} {i : Int} {x : Grown}
variable {size b a : Nat} {F : Int → Prop}

/-! ## Slots come and go, the breaks stay -/

theorem setPages_same (h : setPages g m reg upper = some m') : SameBrk m m' := by
  simp only [setPages, do_eq_some, return_eq_some] at h
  rcases h with ⟨pt, -, rfl⟩
  exact ⟨rfl, rfl⟩

theorem clearPages_same (h : clearPages g m reg upper = some m') : SameBrk m m' := by
  simp only [clearPages, do_eq_some, return_eq_some] at h
  rcases h with ⟨pt, -, rfl⟩
  exact ⟨rfl, rfl⟩

theorem kmGuestPageMalloc_calls {gpaHint : Nat} {prot : BitVec 32} {fails : Bool} {ptr : Option Nat}
    (h : kmGuestPageMalloc g m gpaHint size prot fails = (m', ptr)) :
    ∃ calls, m' = { m with hostCalls := calls } := by
  simp only [kmGuestPageMalloc] at h
  split at h
  · cases h
    exact ⟨m.hostCalls, rfl⟩
  cases h
  exact ⟨_, rfl⟩

/-- Making a slot usable calls the host and changes slots, and enters pages when all went well. -/
theorem growSlot_end (h : growSlot g host m idx upper = some (m', rc)) :
    ∃ calls regs, m' = { m with hostCalls := calls, vmMemRegs := regs } ∨
      ∃ reg, setPages g { m with hostCalls := calls, vmMemRegs := regs } reg upper = some m' := by
  simp only [growSlot] at h
  split at h
  · simp only [do_eq_some, return_eq_some, Prod.mk.injEq] at h
    rcases h with ⟨m1, hm1, rfl, -⟩
    exact ⟨m.hostCalls, m.vmMemRegs, .inr ⟨_, hm1⟩⟩
  simp only [kmAllocRegion, do_eq_some] at h
  rcases h with ⟨-, -, -, -, h⟩
  split at h
  next m1 hmal =>
    rcases kmGuestPageMalloc_calls hmal with ⟨calls, rfl⟩
    cases h
    exact ⟨calls, m.vmMemRegs, .inl rfl⟩
  rename_i m1 ptr hmal
  rcases kmGuestPageMalloc_calls hmal with ⟨calls, rfl⟩
  unfold plugRegion at h
  split at h
  · cases h
    exact ⟨_, _, .inl rfl⟩
  simp only [do_eq_some, return_eq_some, Prod.mk.injEq] at h
  rcases h with ⟨m2, hm2, rfl, -⟩
  exact ⟨_, _, .inr ⟨_, hm2⟩⟩

theorem growSlot_same (h : growSlot g host m idx upper = some (m', rc)) : SameBrk m m' := by
  rcases growSlot_end h with ⟨calls, regs, rfl | ⟨reg, hset⟩⟩
  · exact ⟨rfl, rfl⟩
  have hs := setPages_same hset
  exact ⟨hs.brk, hs.tbrk⟩

theorem kmFreeRegion_same (h : kmFreeRegion g m idx upper = some m') : SameBrk m m' := by
  simp only [kmFreeRegion, do_eq_some, return_eq_some] at h
  rcases h with ⟨-, -, m₁, hm1, rfl⟩
  exact (clearPages_same hm1).trans ⟨rfl, rfl⟩

/-! ## The loops -/

theorem brkGrow_same (h : Loop.run (brkGrowStep g host arg) n (m, i) = some x) :
    SameBrk m x.mem ∧ ((x.error = 0 ∧ x.brk = arg) ∨ (x.error = enomem ∧ x.brk = m.brk)) := by
  refine run_sum (I := fun s : MemState × Int => SameBrk m s.1) ?_ (.refl m) h
  rintro ⟨m₁, i1⟩ y hs hstep
  rcases brkGrowStep_cases hstep with rfl | ⟨-, m2, rc, hg, rfl | ⟨-, rfl⟩⟩
  · exact ⟨hs, .inl ⟨rfl, rfl⟩⟩
  · have hs2 := hs.trans (growSlot_same hg)
    exact ⟨hs2, .inr ⟨rfl, hs2.brk⟩⟩
  · exact hs.trans (growSlot_same hg)

/-- The growing loop of `km_mem_tbrk` can only succeed above `GUEST_VA_OFFSET`, because the slots it
compares with are there. -/
theorem tbrkGrow_same (h : Loop.run (tbrkGrowStep g host arg) n (m, i) = some x) :
    SameBrk m x.mem ∧ ((x.error = 0 ∧ x.brk = arg ∧ g.guestVaOffset < arg) ∨
      (x.error = enomem ∧ x.brk = m.tbrk)) := by
  refine run_sum (I := fun s : MemState × Int => SameBrk m s.1) ?_ (.refl m) h
  rintro ⟨m₁, i1⟩ y hs hstep
  rcases tbrkGrowStep_cases hstep with ⟨hlo, ⟨hle, rfl⟩ | ⟨-, m2, rc, hg, rfl | ⟨-, rfl⟩⟩⟩
  · have hconsts := layout_consts
    exact ⟨hs, .inl ⟨rfl, rfl, by omega⟩⟩
  · have hs2 := hs.trans (growSlot_same hg)
    exact ⟨hs2, .inr ⟨rfl, hs2.tbrk⟩⟩
  · exact hs.trans (growSlot_same hg)

/-- The slots of `F` were freed, one by one. -/
inductive Frees (g : Geometry) (upper : Bool) : (Int → Prop) → MemState → MemState → Prop
  | none {F : Int → Prop} {m : MemState} (hF : ∀ i, ¬ F i) : Frees g upper F m m
  | slot {F G : Int → Prop} {m m₁ m' : MemState} {idx : Int} (h : Frees g upper F m m₁)
      (hfree : kmFreeRegion g m₁ idx upper = some m') (hG : ∀ i, G i ↔ F i ∨ i = idx) :
      Frees g upper G m m'

theorem Frees.congr {G : Int → Prop} (h : Frees g upper F m m') (hG : ∀ i, G i ↔ F i) :
    Frees g upper G m m' := by
  have hset : G = F := funext fun i => propext (hG i)
  exact hset ▸ h

theorem Frees.same (h : Frees g upper F m m') : SameBrk m m' := by
  induction h with
  | none => exact .refl _
  | slot _ hfree _ ih => exact ih.trans (kmFreeRegion_same hfree)

/-- The loop of `km_mem_brk` frees from the top down, and leaves what the memory from `tbrk` on uses. -/
theorem brkFree_frees {u : Int} (h : Loop.run (brkFreeStep g arg u) n (m, i) = some m') :
    ∃ b, gvaToMemregIdx g (arg - 1) = some b ∧ Frees g false (fun j => b < j ∧ j ≤ i ∧ j < u) m m' := by
  obtain ⟨b, hb⟩ := run_inv (I := fun _ => True)
    (Q := fun _ => ∃ b, gvaToMemregIdx g (arg - 1) = some b) (fun _ _ _ _ => trivial)
    (fun _ _ _ hstep => (brkFreeStep_cases hstep).imp fun _ => And.left) trivial h
  refine ⟨b, hb, ?_⟩
  refine run_sum (I := fun s : MemState × Int => s.2 ≤ i ∧
    Frees g false (fun j => s.2 < j ∧ b < j ∧ j ≤ i ∧ j < u) m s.1) ?_
      ⟨le_rfl, .none fun j hj => by omega⟩ h
  rintro ⟨m₁, k⟩ y ⟨hk, hf⟩ hstep
  simp only at hk hf
  obtain ⟨_, hb', hcases⟩ := brkFreeStep_cases hstep
  cases hb.symm.trans hb'
  rcases hcases with ⟨hmore, rfl⟩ | ⟨hmore, hshared, rfl⟩ | ⟨hmore, hbelow, m2, hfree, rfl⟩
  · exact hf.congr fun j => by omega
  · exact ⟨by simp only; omega, hf.congr fun j => by simp only; omega⟩
  · exact ⟨by simp only; omega, hf.slot hfree fun j => by simp only; omega⟩

/-- The loop of `km_mem_tbrk` frees from the bottom up, and leaves what the heap uses. -/
theorem tbrkFree_frees {b : Int} (h : Loop.run (tbrkFreeStep g arg b) n (m, i) = some m') :
    ∃ u, gvaToMemregIdx g arg = some u ∧ Frees g true (fun j => i ≤ j ∧ j < u ∧ b < j) m m' := by
  obtain ⟨u, hu⟩ := run_inv (I := fun _ => True)
    (Q := fun _ => ∃ u, gvaToMemregIdx g arg = some u) (fun _ _ _ _ => trivial)
    (fun _ _ _ hstep => (tbrkFreeStep_cases hstep).imp fun _ => And.left) trivial h
  refine ⟨u, hu, ?_⟩
  refine run_sum (I := fun s : MemState × Int => i ≤ s.2 ∧
    Frees g true (fun j => j < s.2 ∧ i ≤ j ∧ j < u ∧ b < j) m s.1) ?_
      ⟨le_rfl, .none fun j hj => by omega⟩ h
  rintro ⟨m₁, k⟩ y ⟨hk, hf⟩ hstep
  simp only at hk hf
  obtain ⟨_, hu', hcases⟩ := tbrkFreeStep_cases hstep
  cases hu.symm.trans hu'
  rcases hcases with ⟨hmore, rfl⟩ | ⟨hmore, hshared, rfl⟩ | ⟨hmore, hbelow, m2, hfree, rfl⟩
  · exact hf.congr fun j => by omega
  · exact ⟨by simp only; omega, hf.congr fun j => by simp only; omega⟩
  · exact ⟨by simp only; omega, hf.slot hfree fun j => by simp only; omega⟩

/-! ## The calls -/

theorem rounddown_gib_lt (h : ¬ rounddown b pdpteRegion ≤ rounddown a pdpteRegion) :
    a / gib < b / gib := by
  by_contra hle
  exact h (Nat.mul_le_mul_right _ (not_lt.1 hle))

theorem gib_le_of_rounddown (h : rounddown b pdpteRegion ≤ rounddown a pdpteRegion) :
    b / gib ≤ a / gib :=
  Nat.le_of_mul_le_mul_right h (by decide)

theorem BreaksOk.bounds (hb : BreaksOk g m) : m.brk < g.guestMaxPhysmem ∧ gib ≤ m.tbrkPa g ∧
    m.tbrkPa g ≤ g.guestMaxPhysmem - guestMemStartVa := by
  obtain ⟨n, hsizes⟩ := g.sizes
  obtain ⟨hlo, hhi, hap⟩ := hb
  simp only [MemState.tbrkPa, gib_eq] at hap ⊢
  omega

theorem moveBrk_same (h : moveBrk g host m arg = some (m', r)) :
    m'.tbrk = m.tbrk ∧ (m'.brk = arg ∨ m'.brk = m.brk) := by
  simp only [moveBrk, do_eq_some, return_eq_some, Prod.mk.injEq] at h
  rcases h with ⟨idx, -, x, hgrow, tbrkIdx, -, m₁, hfree, rfl, -⟩
  obtain ⟨hs, hx⟩ := brkGrow_same hgrow
  obtain ⟨b, -, hfrees⟩ := brkFree_frees hfree
  have hs1 := hs.trans hfrees.same
  have hprot : ∀ m2 : MemState, (brkProtect g m2 x.brk).tbrk = m2.tbrk := by
    intro m2
    rcases brkProtect_eq g m2 x.brk with ⟨calls, hc⟩
    rw [hc]
  refine ⟨?_, hx.imp And.right And.right⟩
  simp only [hprot]
  split <;> exact hs1.tbrk

theorem gvaToGpa_eq_low {pa : Nat} (h : gvaToGpa g a = some pa) (hlt : a < g.guestMaxPhysmem) :
    pa = a := by
  simp only [gvaToGpa, kmAssert_bind_eq_some, return_eq_some, gvaToGpaNocheck_low hlt] at h
  exact h.2.symm

section

variable (hb : BreaksOk g m) (h : kmMemBrk g host m arg = some (m', r))
include hb h

/-- `km_mem_brk` changes nothing, or it moves `brk`. -/
theorem kmMemBrk_moves :
    (m' = m ∧ (arg ≠ 0 → arg < g.guestMaxPhysmem → m.tbrkPa g / gib ≤ arg / gib)) ∨
      (arg ≠ 0 ∧ arg < g.guestMaxPhysmem ∧ arg / gib < m.tbrkPa g / gib ∧
        moveBrk g host m arg = some (m', r)) := by
  simp only [kmMemBrk] at h
  split at h
  · cases h
    exact .inl ⟨rfl, by omega⟩
  split at h
  next hzone =>
    cases h
    exact .inl ⟨rfl, fun _ hlt => absurd hlt (not_lt.2 hzone)⟩
  rename_i hne hzone
  simp only [do_eq_some] at h
  rcases h with ⟨brkPa, hbrkPa, tbrkPa, htbrkPa, h⟩
  obtain rfl := gvaToGpa_eq_low hbrkPa (not_le.1 hzone)
  cases (gvaToGpa_up hb.tbrk_lo hb.tbrk_hi).symm.trans htbrkPa
  split at h
  next hle =>
    cases h
    exact .inl ⟨rfl, fun _ _ => gib_le_of_rounddown hle⟩
  · exact .inr ⟨hne, not_le.1 hzone, rounddown_gib_lt ‹_›, h⟩

theorem kmMemBrk_breaks : BreaksOk g m' ∧ m'.tbrk = m.tbrk := by
  rcases kmMemBrk_moves hb h with ⟨rfl, -⟩ | ⟨-, -, hapart, hmove⟩
  · exact ⟨hb, rfl⟩
  obtain ⟨ht, hbrk⟩ := moveBrk_same hmove
  refine ⟨⟨ht ▸ hb.tbrk_lo, ht ▸ hb.tbrk_hi, ?_⟩, ht⟩
  simp only [MemState.tbrkPa, ht]
  rcases hbrk with hbrk | hbrk <;> rw [hbrk]
  · exact hapart
  · exact hb.apart

end

theorem moveTbrk_same (h : moveTbrk g host m arg = some (m', r)) :
    m'.brk = m.brk ∧ ((r = arg ∧ m'.tbrk = arg ∧ g.guestVaOffset < arg) ∨
      (r = negErrno enomem ∧ m'.tbrk = m.tbrk)) := by
  simp only [moveTbrk, do_eq_some, return_eq_some, Prod.mk.injEq] at h
  rcases h with ⟨idx, -, x, hgrow, brkIdx, -, m₁, hfree, rfl, rfl⟩
  obtain ⟨hs, hx⟩ := tbrkGrow_same hgrow
  obtain ⟨u, -, hfrees⟩ := tbrkFree_frees hfree
  have hs1 := hs.trans hfrees.same
  constructor
  · simp only
    split <;> exact hs1.brk
  rcases hx with ⟨he, hb, hlo⟩ | ⟨he, hb⟩
  · exact .inl ⟨by simp [he, hb], hb, hlo⟩
  · exact .inr ⟨by simp [he, enomem], hb⟩

section

variable (hb : BreaksOk g m)
include hb

/-- `km_mem_tbrk` changes nothing, or it moves `tbrk`. -/
theorem kmMemTbrk_moves (h : kmMemTbrk g host m arg = some (m', r)) :
    (m' = m ∧ (arg ≠ 0 → r = negErrno enomem) ∧ (arg ≠ 0 → arg ≤ guestMemTopVa →
        g.guestVaOffset < arg → (arg - g.guestVaOffset) / gib ≤ m.brk / gib)) ∨
      (arg ≠ 0 ∧ g.guestVaOffset ≤ arg ∧ arg ≤ guestMemTopVa ∧
        (g.guestVaOffset < arg → m.brk / gib < (arg - g.guestVaOffset) / gib) ∧
          moveTbrk g host m arg = some (m', r)) := by
  simp only [kmMemTbrk] at h
  split at h
  · cases h
    exact .inl ⟨rfl, by omega, by omega⟩
  split at h
  · cases h
    exact .inl ⟨rfl, fun _ => rfl, by omega⟩
  rename_i hne hrange
  simp only [do_eq_some] at h
  rcases h with ⟨brkPa, hbrkPa, tbrkPa, htbrkPa, h⟩
  obtain rfl := gvaToGpa_eq_low hbrkPa hb.bounds.1
  have hpa : g.guestVaOffset < arg → tbrkPa = arg - g.guestVaOffset := fun hlt =>
    (Option.some.inj ((gvaToGpa_up hlt (by omega)).symm.trans htbrkPa)).symm
  split at h
  next hle =>
    cases h
    exact .inl ⟨rfl, fun _ => rfl, fun _ _ hlt => hpa hlt ▸ gib_le_of_rounddown hle⟩
  next hapart =>
    exact .inr ⟨hne, by omega, by omega, fun hlt => hpa hlt ▸ rounddown_gib_lt hapart, h⟩

/-- `km_mem_tbrk` moves `tbrk` to the argument and returns it, or returns `-ENOMEM`. -/
theorem kmMemTbrk_breaks (harg : arg ≠ 0) (h : kmMemTbrk g host m arg = some (m', r)) :
    BreaksOk g m' ∧ ((r = arg ∧ m'.tbrk = arg) ∨ (r = negErrno enomem ∧ m'.tbrk = m.tbrk)) := by
  rcases kmMemTbrk_moves hb h with ⟨rfl, hr, -⟩ | ⟨-, -, hhi, hapart, hmove⟩
  · exact ⟨hb, .inr ⟨hr harg, rfl⟩⟩
  obtain ⟨hbrk, ⟨hr, ht, hlo⟩ | ⟨hr, ht⟩⟩ := moveTbrk_same hmove
  · refine ⟨⟨ht ▸ hlo, ht ▸ hhi, ?_⟩, .inl ⟨hr, ht⟩⟩
    rw [MemState.tbrkPa, hbrk, ht]
    exact hapart hlo
  · exact ⟨hb.congr ⟨hbrk, ht⟩, .inr ⟨hr, ht⟩⟩

/-- The slot of `tbrk` starts below `tbrk`: no slot is missing above it. -/
theorem tbrkGrow_up (harg : m.tbrk ≤ arg) (hidx : gvaToMemregIdx g m.tbrk = some idx)
    (h : Loop.run (tbrkGrowStep g host arg) (slotRounds g) (m, idx) = some x) :
    x = ⟨m, idx, arg, 0⟩ := by
  obtain ⟨hbrk, hlo, hhi⟩ := hb.bounds
  have hconsts := layout_consts
  rw [memregIdx_of_gpa (gvaToGpa_up hb.tbrk_lo hb.tbrk_hi) (a := m.tbrkPa g) (by omega) hhi,
    Option.some.injEq] at hidx
  have hbase := memregBase_idx_le g (a := m.tbrkPa g) (by omega) hhi
  rw [hidx] at hbase
  have hnot : memregBase g idx + g.guestVaOffset ≤ arg := by
    have := hb.tbrk_lo
    simp only [MemState.tbrkPa] at hbase
    omega
  -- the first round is the last
  refine run_sum (I := fun s => s = (m, idx)) ?_ rfl h
  rintro _ y rfl hstep
  rcases tbrkGrowStep_cases hstep with ⟨-, ⟨-, rfl⟩ | ⟨hlt, -⟩⟩
  · rfl
  · omega

/-- Moving `tbrk` up never fails. -/
theorem kmMemTbrk_up (hlo : m.tbrk ≤ arg) (hhi : arg ≤ guestMemTopVa)
    (h : kmMemTbrk g host m arg = some (m', r)) : BreaksOk g m' ∧ m'.tbrk = arg := by
  have hoff := hb.tbrk_lo
  obtain ⟨hok, -⟩ := kmMemTbrk_breaks hb (by omega) h
  refine ⟨hok, ?_⟩
  rcases kmMemTbrk_moves hb h with ⟨-, -, hno⟩ | ⟨-, -, -, -, hmove⟩
  · have hap := hb.apart
    have hmono : (m.tbrk - g.guestVaOffset) / gib ≤ (arg - g.guestVaOffset) / gib :=
      Nat.div_le_div_right (by omega)
    simp only [MemState.tbrkPa] at hap
    omega
  simp only [moveTbrk, do_eq_some, return_eq_some, Prod.mk.injEq] at hmove
  rcases hmove with ⟨idx, hidx, x, hgrow, brkIdx, -, m₁, hfree, rfl, rfl⟩
  rw [tbrkGrow_up hb hlo hidx hgrow]

end

end

end KontainMonitor.Mem
