import KontainMonitor.Mem.Moves

/-!
# Plugs — what moving the breaks asks of the host

Moving a break maps and unmaps the memory of whole slots, and `brk` changes the protection of pages.
The slots that the upper zone uses before and after the move are not touched: every call stays below
the higher one of the two positions of `tbrk`.
-/

namespace KontainMonitor.Mem

open Option

def PlugCall (S : Int → Prop) (lim : Nat) : HostCall → Prop
  | .mmap addr len prot flags _ _ => prot = protNone ∧ flags &&& mapFixed ≠ mapFixed ∧
      flags &&& mapShared = 0 ∧ flags &&& mapAnonymous = mapAnonymous ∧ addr + len ≤ lim
  | .munmap addr len => addr + len ≤ lim
  | .mprotect addr len _ => addr + len ≤ lim
  | .setUserMemoryRegion reg => S reg.slot
  | _ => False

def WellPlugged (g : Geometry) (m : MemState) : Prop :=
  ∀ i, 1 ≤ i → i < g.lastMemIdx → (m.vmMemRegs i).memorySize ≠ 0 → m.vmMemRegs i = pluggedReg g i

def guestSlot (g : Geometry) (i : Int) : Prop := 1 ≤ i ∧ i < g.lastMemIdx

structure Plugging (g : Geometry) (S : Int → Prop) (lim : Nat) (m m' : MemState) : Prop where
  calls : ∃ cs, m'.hostCalls = cs ++ m.hostCalls ∧
    ∀ c ∈ cs, PlugCall S (g.kmUserMemBase + lim) c
  plugged : WellPlugged g m → WellPlugged g m'

section

variable {g : Geometry} {m m' : MemState} {host : Int → AllocOutcome} {idx : Int} {upper : Bool}
variable {S : Int → Prop} {lim arg r : Nat} {rc : Int}
variable {reg : MemReg} {n : Nat}
variable {x : Grown}

theorem SlotsInv.wellPlugged {U : Uses} {P : Bool → Nat → Prop} (h : SlotsInv g m U P) :
    WellPlugged g m := by
  intro i h1 hi hsize
  by_cases huse : ∃ b, U b i
  · rcases huse with ⟨b, hb⟩
    exact h.plugged b i hb
  · exact absurd (h.unplugged i h1 hi fun b hb => huse ⟨b, hb⟩).1 hsize

theorem Plugging.refl (m : MemState) : Plugging g S lim m m := ⟨⟨[], rfl, by simp⟩, id⟩

theorem Plugging.trans {m1 m2 m3 : MemState} (h₁ : Plugging g S lim m1 m2)
    (h₂ : Plugging g S lim m2 m3) : Plugging g S lim m1 m3 := by
  rcases h₁.calls with ⟨cs1, hcs1, hall1⟩
  rcases h₂.calls with ⟨cs2, hcs2, hall2⟩
  refine ⟨⟨cs2 ++ cs1, by rw [hcs2, hcs1, List.append_assoc], fun c hc => ?_⟩,
    fun hw => h₂.plugged (h₁.plugged hw)⟩
  rcases List.mem_append.1 hc with hc | hc
  · exact hall2 c hc
  · exact hall1 c hc

theorem Plugging.mono {lim' : Nat} (hp : Plugging g S lim m m') (hle : lim ≤ lim') :
    Plugging g S lim' m m' := by
  rcases hp.calls with ⟨cs, hcs, hall⟩
  refine ⟨⟨cs, hcs, fun c hc => ?_⟩, hp.plugged⟩
  have hcall := hall c hc
  cases c with
  | mmap addr len prot flags fd offset =>
    obtain ⟨h1, h2, h3, h4, h5⟩ := hcall
    exact ⟨h1, h2, h3, h4, by omega⟩
  | munmap | mprotect =>
    simp only [PlugCall] at hcall ⊢
    omega
  | setUserMemoryRegion | madvise | msync | memcpy | calloc => exact hcall

/-- One call, and nothing else that matters. -/
theorem Plugging.call {c : HostCall} (hc : PlugCall S (g.kmUserMemBase + lim) c) :
    Plugging g S lim m (m.call c) :=
  ⟨⟨[c], rfl, by simpa using hc⟩, id⟩

theorem Plugging.setReg (hreg : reg.memorySize ≠ 0 → reg = pluggedReg g idx) :
    Plugging g S lim m (m.setReg idx reg) := by
  refine ⟨⟨[], rfl, by simp⟩, fun hw i h1 hi hsize => ?_⟩
  simp only [MemState.setReg, Function.update] at hsize ⊢
  by_cases heq : i = idx
  · subst heq
    simp only [dite_true] at hsize ⊢
    exact hreg hsize
  simp only [heq, dite_false] at hsize ⊢
  exact hw i h1 hi hsize

theorem setPages_plugging (h : setPages g m reg upper = some m') : Plugging g S lim m m' := by
  simp only [setPages, do_eq_some, return_eq_some] at h
  rcases h with ⟨pt, -, rfl⟩
  exact ⟨⟨[], rfl, by simp⟩, id⟩

theorem clearPages_plugging (h : clearPages g m reg upper = some m') :
    Plugging g S lim m m' ∧ m'.vmMemRegs = m.vmMemRegs := by
  simp only [clearPages, do_eq_some, return_eq_some] at h
  rcases h with ⟨pt, -, rfl⟩
  exact ⟨⟨⟨[], rfl, by simp⟩, id⟩, rfl⟩

theorem plugRegion_plugging {outcome : AllocOutcome} (hS : S idx) (hlim : memregTop g idx ≤ lim)
    (h : plugRegion g outcome m (pluggedReg g idx) upper = some (m', rc)) : Plugging g S lim m m' := by
  have hcall : Plugging g S lim m (m.call (.setUserMemoryRegion (pluggedReg g idx))) :=
    Plugging.call hS
  have hset : (do
      let m2 ← setPages g ((m.call (.setUserMemoryRegion (pluggedReg g idx))).setReg
        (pluggedReg g idx).slot (pluggedReg g idx)) (pluggedReg g idx) upper
      return (m2, (0 : Int))) = some (m', rc) → Plugging g S lim m m' := by
    intro hm
    simp only [do_eq_some, return_eq_some, Prod.mk.injEq] at hm
    rcases hm with ⟨m2, hm2, rfl, -⟩
    exact (hcall.trans (.setReg fun _ => rfl)).trans (setPages_plugging hm2)
  cases outcome with
  | ok => exact hset h
  | noMem => exact hset h
  | plugFailed errno =>
    simp only [plugRegion, some_mk_inj] at h
    obtain ⟨rfl, -⟩ := h
    have hfree : PlugCall S (g.kmUserMemBase + lim)
        (.munmap ((pluggedReg g idx).guestPhysAddr + g.kmUserMemBase)
          (pluggedReg g idx).memorySize) := by
      have hsize := memregBase_add g idx
      simp only [PlugCall, pluggedReg]
      omega
    exact (hcall.trans (.call hfree)).trans (.setReg fun hne => absurd rfl hne)

theorem kmAllocRegion_plugging (hS : S idx) (hlim : memregTop g idx ≤ lim)
    (h : kmAllocRegion g host m idx (memregSize g idx) upper = some (m', rc)) :
    Plugging g S lim m m' := by
  have hsize := memregBase_add g idx
  simp only [kmAllocRegion, do_eq_some] at h
  rcases h with ⟨-, -, -, -, h⟩
  have hmap : ∀ flags : BitVec 32, flags = mapPrivate ||| mapAnonymous ∨
      flags = mapPrivate ||| mapAnonymous ||| mapNoreserve →
      PlugCall S (g.kmUserMemBase + lim) (.mmap (memregBase g idx + g.kmUserMemBase)
        (memregSize g idx) protNone flags (-1) 0) := by
    intro flags hflags
    refine ⟨rfl, ?_, ?_, ?_, by omega⟩ <;> rcases hflags with rfl | rfl <;> decide
  have hflags : ∀ b : Bool, (mapPrivate ||| mapAnonymous ||| (if b then mapNoreserve else 0)) =
      mapPrivate ||| mapAnonymous ∨ (mapPrivate ||| mapAnonymous ||| (if b then mapNoreserve else 0)) =
      mapPrivate ||| mapAnonymous ||| mapNoreserve := by
    decide
  split at h
  next m1 hmal =>
    cases h
    simp only [kmGuestPageMalloc] at hmal
    split at hmal
    · cases hmal
      exact .refl m
    rw [Prod.mk.injEq] at hmal
    rw [← hmal.1]
    exact .call (hmap _ (hflags m.overcommitMemory))
  rename_i m1 ptr hmal
  simp only [kmGuestPageMalloc] at hmal
  split at hmal
  · cases hmal
  rw [Prod.mk.injEq] at hmal
  obtain ⟨rfl, hptr⟩ := hmal
  have hbase : ptr = memregBase g idx + g.kmUserMemBase := by
    split at hptr
    · cases hptr
    · exact (Option.some.inj hptr).symm
  subst hbase
  exact (Plugging.call (hmap _ (hflags m.overcommitMemory))).trans (plugRegion_plugging hS hlim h)

/-- A slot that is plugged already only gets its pages. -/
theorem growSlot_plugging (hS : S idx)
    (hlim : kmRegionAllocated m idx = false → memregTop g idx ≤ lim)
    (h : growSlot g host m idx upper = some (m', rc)) : Plugging g S lim m m' := by
  simp only [growSlot] at h
  split at h
  · simp only [do_eq_some, return_eq_some, Prod.mk.injEq] at h
    rcases h with ⟨m2, hm2, rfl, -⟩
    exact setPages_plugging hm2
  next hfree =>
    exact kmAllocRegion_plugging hS (hlim (by simpa using hfree)) h

theorem growSlot_wellPlugged (hw : WellPlugged g m) (h : growSlot g host m idx upper = some (m', rc)) :
    WellPlugged g m' :=
  (growSlot_plugging (S := fun _ => True) trivial (fun _ => le_rfl) h).plugged hw

theorem kmFreeRegion_plugging (hw : WellPlugged g m) (hi : guestSlot g idx) (hS : S idx)
    (hlim : memregTop g idx ≤ lim) (h : kmFreeRegion g m idx upper = some m') :
    Plugging g S lim m m' := by
  simp only [kmFreeRegion, do_eq_some, return_eq_some, kmAssert_eq_some] at h
  rcases h with ⟨-, hsize, m1, hm1, rfl⟩
  have hreg := hw idx hi.1 hi.2 hsize
  have hclear : Plugging g S lim m m1 := (clearPages_plugging hm1).1
  have hset : PlugCall S (g.kmUserMemBase + lim)
      (.setUserMemoryRegion { m.vmMemRegs idx with memorySize := 0 }) := by
    rw [hreg]
    exact hS
  have hfree : PlugCall S (g.kmUserMemBase + lim)
      (.munmap ((m.vmMemRegs idx).guestPhysAddr + g.kmUserMemBase)
        (m.vmMemRegs idx).memorySize) := by
    have hadd := memregBase_add g idx
    rw [hreg]
    simp only [PlugCall, pluggedReg]
    omega
  exact ((hclear.trans (.call hset)).trans (.call hfree)).trans
    (.setReg fun hne => absurd rfl hne)

theorem kmFreeRegion_wellPlugged (hw : WellPlugged g m) (h1 : 1 ≤ idx) (hi : idx < g.lastMemIdx)
    (h : kmFreeRegion g m idx upper = some m') : WellPlugged g m' :=
  (kmFreeRegion_plugging (S := fun _ => True) hw ⟨h1, hi⟩ trivial le_rfl h).plugged hw

/-! ## The loops -/

/-- A round that goes on grows into the slot below, which is not the lowest one. -/
theorem tbrkGrow_plugging {u : Int} (hu : 0 ≤ u) (hlast : u ≤ g.lastMemIdx)
    (hlim : memregBase g u ≤ lim) (harg : gib + g.guestVaOffset ≤ arg)
    (h : Loop.run (tbrkGrowStep g host arg) n (m, u) = some x) :
    Plugging g (guestSlot g) lim m x.mem := by
  refine Loop.run_sum
    (I := fun s : MemState × Int => Plugging g (guestSlot g) lim m s.1 ∧ 0 ≤ s.2 ∧ s.2 ≤ u) ?_
    ⟨.refl m, hu, le_rfl⟩ h
  rintro ⟨m1, i⟩ y ⟨hm1, hi0, hiu⟩ hstep
  simp only at hm1 hi0 hiu
  have hgrown : ∀ {m2 rc}, arg < memregBase g i + g.guestVaOffset →
      growSlot g host m1 (i - 1) true = some (m2, rc) →
        Plugging g (guestSlot g) lim m m2 ∧ 2 ≤ i := by
    intro m2 rc hmore hg
    have hi2 : 2 ≤ i := by
      by_contra hlt
      have hconsts := layout_consts
      have hlast2 := g.lastMemIdx_eq
      have hbase := memregBase_mono g hi0 (by omega : i ≤ 1) (by omega)
      rw [memregBase_one] at hbase
      omega
    have hmono := memregBase_mono g hi0 hiu hlast
    have htop := memregTop_eq g (by omega : 0 ≤ i - 1) (by omega : i - 1 < g.lastMemIdx)
    rw [Int.sub_add_cancel] at htop
    exact ⟨hm1.trans (growSlot_plugging ⟨by omega, by omega⟩ (fun _ => by omega) hg), hi2⟩
  rcases tbrkGrowStep_cases hstep with ⟨-, ⟨-, rfl⟩ | ⟨hmore, m2, rc, hg, rfl | ⟨-, rfl⟩⟩⟩
  · exact hm1
  · exact (hgrown hmore hg).1
  obtain ⟨hplug, hi2⟩ := hgrown hmore hg
  exact ⟨hplug, by simp only; omega, by simp only; omega⟩

/-- Freeing slots below `lim`. -/
theorem Frees.plugging {F : Int → Prop} (h : Frees g upper F m m') (hw : WellPlugged g m)
    (hF : ∀ i, F i → guestSlot g i ∧ memregTop g i ≤ lim) : Plugging g (guestSlot g) lim m m' := by
  induction h with
  | none => exact .refl _
  | slot _ hfree hG ih =>
    have hplug := ih hw fun i hi => hF i ((hG i).2 (.inl hi))
    obtain ⟨hslot, hlim⟩ := hF _ ((hG _).2 (.inr rfl))
    exact hplug.trans (kmFreeRegion_plugging (hplug.plugged hw) hslot hslot hlim hfree)

/-! ## `tbrk` -/

/-- Whatever happens, no call reaches above the higher one of the old and the new `tbrk`. -/
theorem kmMemTbrk_plugging (hm : MemInv g m) (harg : arg ≠ g.guestVaOffset)
    (h : kmMemTbrk g host m arg = some (m', r)) :
    Plugging g (guestSlot g) (max (m.tbrkPa g) (m'.tbrkPa g)) m m' := by
  obtain ⟨n, hsizes⟩ := g.sizes
  rcases kmMemTbrk_moves hm.breaks h with ⟨rfl, -⟩ | ⟨-, hle, hhi, hapart, h⟩
  · exact .refl _
  have hlo : g.guestVaOffset < arg := by omega
  have hgap := hapart hlo
  rw [gib_eq] at hgap
  simp only [moveTbrk, hm.tbrkIdx, hm.brkIdx, bind_eq_bind, bind_some,
    bind_eq_some_iff, return_eq_some, Prod.mk.injEq] at h
  rcases h with ⟨x, hgrow, m2, hfree, rfl, -⟩
  have htpa := hm.tbrkPa_hi
  have hgt := hm.brk_hi.2
  have hubnd := memregIdx_bounds g (by omega) htpa
  have hubase := memregBase_idx_le g (by omega) htpa
  have hgrown : Plugging g (guestSlot g) (m.tbrkPa g) m x.mem :=
    tbrkGrow_plugging (by omega) hubnd.2 hubase (by rw [gib_eq]; omega) hgrow
  obtain ⟨hsame, hres⟩ := tbrkGrow_same hgrow
  -- the break that is installed
  have hcur : m.tbrkPa g + g.guestVaOffset = m.tbrk := Nat.sub_add_cancel (le_of_lt hm.tbrk_lo)
  have hnew : x.brk = arg ∨ x.brk = m.tbrk := by
    rcases hres with ⟨-, hb, -⟩ | ⟨-, hb⟩
    · exact .inl hb
    · exact .inr hb
  have hxlo : g.guestVaOffset < x.brk := by
    have := hm.tbrk_lo
    rcases hnew with hb | hb <;> omega
  have hxhi : x.brk ≤ guestMemTopVa := by
    have := hm.tbrk_hi
    rcases hnew with hb | hb <;> omega
  have hxpa : gib ≤ x.brk - g.guestVaOffset := by
    rw [gib_eq] at hgt ⊢
    rcases hnew with hb | hb <;> omega
  obtain ⟨u, hu, hfrees⟩ := tbrkFree_frees hfree
  cases (memregIdx_of_gpa (gvaToGpa_up hxlo hxhi) (by omega) (by omega)).symm.trans hu
  have hbidx := (memregIdx_bounds g (a := m.brk - 1)
    (by have := hm.brk_lo; omega) (by have := hm.brk_hi.1; omega)).1
  have hxbnd := memregIdx_bounds g (a := x.brk - g.guestVaOffset) (by omega) (by omega)
  have hfreed : Plugging g (guestSlot g) (x.brk - g.guestVaOffset) x.mem m2 := by
    refine hfrees.plugging (hgrown.plugged hm.slots.wellPlugged) fun j hj => ⟨⟨by omega, by omega⟩, ?_⟩
    have htop := memregTop_le_base g (by omega) hxbnd.2 hj.2.1
    exact le_trans htop (memregBase_idx_le g (by omega) (by omega))
  have hall : Plugging g (guestSlot g) (max (m.tbrkPa g) (x.brk - g.guestVaOffset)) m m2 :=
    (hgrown.mono (le_max_left _ _)).trans (hfreed.mono (le_max_right _ _))
  refine hall.trans ?_
  split
  · exact ⟨⟨[], rfl, by simp⟩, id⟩
  · exact ⟨⟨[], rfl, by simp⟩, id⟩

/-! ## `brk` -/

section Brk

variable {P : Bool → Nat → Prop} {i u : Int}

section

variable (hs : SlotsInv g m (usedUpTo g i u) P) (hi0 : 0 ≤ i) (hi : i < g.lastMemIdx)
  (hu : u ≤ g.lastMemIdx) (hlim : memregBase g u ≤ lim)
include hs hi0 hi hu hlim

/-- A slot that the upper zone uses is plugged, so only slots below it are new. -/
theorem brkGrowSlot_plugging (harg : arg < g.guestMaxPhysmem - gib) (hmore : memregTop g i < arg)
    (hg : growSlot g host m (i + 1) false = some (m', rc)) : Plugging g (guestSlot g) lim m m' := by
  have htop := memregTop_eq g hi0 hi
  have hbelow : i + 1 < g.lastMemIdx := by
    by_contra hge
    obtain ⟨n, hsizes⟩ := g.sizes
    have heq : i + 1 = g.lastMemIdx := by omega
    rw [heq, memregBase_last] at htop
    omega
  refine growSlot_plugging ⟨by omega, hbelow⟩ (fun hfree => ?_) hg
  have hlt : i + 1 < u := by
    by_contra hge
    have hused : ∃ b, usedUpTo g i u b (i + 1) := ⟨true, by omega, hbelow⟩
    rw [(hs.allocated_iff (by omega) hbelow).2 hused] at hfree
    exact Bool.noConfusion hfree
  have hmono := memregBase_mono g (by omega : 0 ≤ i + 1 + 1) (by omega : i + 1 + 1 ≤ u) hu
  have hsucc := memregTop_eq g (by omega : 0 ≤ i + 1) hbelow
  omega

theorem brkGrow_plugging (hlo : guestMemStartVa ≤ arg) (harg : arg < g.guestMaxPhysmem - gib)
    (h : Loop.run (brkGrowStep g host arg) n (m, i) = some x) :
    Plugging g (guestSlot g) lim m x.mem := by
  refine Loop.run_sum (I := fun s : MemState × Int => Plugging g (guestSlot g) lim m s.1 ∧
      SlotsInv g s.1 (usedUpTo g s.2 u) P ∧ 0 ≤ s.2 ∧ s.2 < g.lastMemIdx) ?_
    ⟨.refl m, hs, hi0, hi⟩ h
  rintro ⟨m1, j⟩ y ⟨hm1, hs1, hj0, hj⟩ hstep
  have hspec := brkGrowStep_spec host hlo harg hj0 hj hs1
  rcases brkGrowStep_cases hstep with rfl | ⟨hmore, m2, rc, hg, rfl | ⟨-, rfl⟩⟩
  · exact hm1
  · exact hm1.trans (brkGrowSlot_plugging hs1 hj0 hj hu hlim harg hmore hg)
  rcases hspec with ⟨m2, heq, -, hs2, hnext⟩ | ⟨r, heq, -⟩
  · cases hstep.symm.trans heq
    obtain ⟨n, hsizes⟩ := g.sizes
    have hlast := memregIdx_lt_last g (a := arg - 1) (by omega) (by omega)
    exact ⟨hm1.trans (brkGrowSlot_plugging hs1 hj0 hj hu hlim harg hmore hg), hs2,
      by simp only; omega, by simp only; omega⟩
  · cases hstep.symm.trans heq

end

end Brk

theorem roundup_le (hn : n < 2 ^ 63) (hlim : n ≤ lim) (hpage : lim % kmPageSize = 0) :
    roundup n kmPageSize ≤ lim := by
  simp only [roundup, u64, kmPageSize_eq] at hpage ⊢
  omega

/-- Protecting the pages that `brk` moved over. -/
theorem brkProtect_plugging {b : Nat} (hlim : lim % kmPageSize = 0) (hold : m.brk ≤ lim) (hnew : b ≤ lim)
    (hmax : lim < g.guestMaxPhysmem) : Plugging g (guestSlot g) lim m (brkProtect g m b) := by
  have hconsts := layout_consts
  obtain ⟨n, hn2, hn, hmaxn, hoff⟩ := g.gibs
  have hro := roundup_le (by omega) hold hlim
  have hrn := roundup_le (by omega) hnew hlim
  have hkma : ∀ a, a ≤ lim → kmGvaToKmaNocheck g m a = g.kmUserMemBase + a := by
    intro a ha
    have hno1 : ¬ kmVdsoGva m a := by
      simp only [kmVdsoGva]
      omega
    have hno2 : ¬ kmGuestmemGva m a := by
      simp only [kmGuestmemGva]
      omega
    rw [kmGvaToKmaNocheck, if_neg hno1, if_neg hno2, gvaToGpaNocheck_low (by omega)]
  simp only [brkProtect]
  split
  · refine .call ?_
    simp only [PlugCall, hkma _ hro]
    omega
  split
  · refine .call ?_
    simp only [PlugCall, hkma _ hrn]
    omega
  · exact .refl m

/-- No call of `km_mem_brk` reaches `tbrk`. -/
theorem kmMemBrk_plugging (hm : MemInv g m) (harg : arg = 0 ∨ guestMemStartVa ≤ arg)
    (h : kmMemBrk g host m arg = some (m', r)) : Plugging g (guestSlot g) (m.tbrkPa g) m m' := by
  obtain ⟨n, hsizes⟩ := g.sizes
  have hlow := hm.brk_lo
  have htpa := hm.tbrkPa_hi
  rcases kmMemBrk_moves hm.breaks h with ⟨rfl, -⟩ | ⟨hne, hrange, hap', h⟩
  · exact .refl _
  have hmap := hm.apart
  rw [gib_eq] at hap' hmap
  -- a limit at a page: the start of the GiB that `tbrk` is in
  generalize hlim : m.tbrkPa g / 1073741824 * 1073741824 = lim
  have hle : lim ≤ m.tbrkPa g := by omega
  have hpage : lim % kmPageSize = 0 := by
    rw [kmPageSize_eq, ← hlim]
    omega
  simp only [moveBrk, hm.tbrkIdx, hm.brkIdx, bind_eq_bind, bind_some,
    bind_eq_some_iff, return_eq_some, Prod.mk.injEq] at h
  rcases h with ⟨x, hgrow, m2, hfree, rfl, -⟩
  have hubnd := memregIdx_bounds g (by omega) htpa
  have hubase := memregBase_idx_le g (by omega) htpa
  have hbidx := memregIdx_bounds g (a := m.brk - 1) (by omega) (by omega)
  have hblast := memregIdx_lt_last g (a := m.brk - 1) (by omega) (by omega)
  have hgrown : Plugging g (guestSlot g) (m.tbrkPa g) m x.mem :=
    brkGrow_plugging hm.slots hbidx.1 hblast hubnd.2 hubase (by omega) (by omega) hgrow
  obtain ⟨hsame, hres⟩ := brkGrow_same hgrow
  have hnew : guestMemStartVa ≤ x.brk ∧ x.brk / 1073741824 < m.tbrkPa g / 1073741824 := by
    rcases hres with ⟨-, hb⟩ | ⟨-, hb⟩ <;> rw [hb] <;> omega
  obtain ⟨b, hb', hfrees⟩ := brkFree_frees hfree
  cases (memregIdx_of_gpa (gvaToGpa_low (by omega) (by omega)) (by omega)
    (by omega)).symm.trans hb'
  have hxbnd := (memregIdx_bounds g (a := x.brk - 1) (by omega) (by omega)).1
  have hfreed : Plugging g (guestSlot g) (m.tbrkPa g) x.mem m2 :=
    hfrees.plugging (hgrown.plugged hm.slots.wellPlugged) fun j hj =>
      ⟨⟨by omega, by omega⟩, le_trans (memregTop_le_base g (by omega) hubnd.2 hj.2.2) hubase⟩
  have hbrk2 : m2.brk = m.brk := hfrees.same.brk.trans hsame.brk
  refine (hgrown.trans hfreed).trans ?_
  -- the tables of KVM, and the pages
  generalize hm3 : (if g.vmType = .kvm then
    { m2 with pt := fixupBottomPageTables m2.brk x.brk m2.pt } else m2) = m3
  have htables : Plugging g (guestSlot g) (m.tbrkPa g) m2 m3 := by
    rw [← hm3]
    split
    · exact ⟨⟨[], rfl, by simp⟩, id⟩
    · exact .refl m2
  have hbrk3 : m3.brk = m.brk := by
    rw [← hm3, ← hbrk2]
    split <;> rfl
  have hprot : Plugging g (guestSlot g) lim m3 (brkProtect g m3 x.brk) :=
    brkProtect_plugging hpage (by omega) (by omega) (by omega)
  exact (htables.trans (hprot.mono hle)).trans ⟨⟨[], rfl, by simp⟩, id⟩

end

end KontainMonitor.Mem
