import KontainMonitor.Mem.Slots

/-!
# Ownership — which zone uses which slot

The source never records who uses a memory slot: it is implicit in `brk` and `tbrk`.  Here the use
is a parameter.  `SlotsInv g m S P` says that exactly the slots used by some zone are plugged, that
the page tables map the pages of each slot in every zone that uses it, and that the addresses in
`P` are present.  `growSlot_spec` adds a use, `kmFreeRegion_spec` takes the only use away.
-/

namespace KontainMonitor.Mem

open Function

/-- `S upper i`: the zone uses slot `i`. -/
abbrev Uses := Bool → Int → Prop

def Uses.add (S : Uses) (upper : Bool) (idx : Int) : Uses :=
  fun b i => S b i ∨ (b = upper ∧ i = idx)

def Uses.remove (S : Uses) (upper : Bool) (idx : Int) : Uses :=
  fun b i => S b i ∧ ¬ (b = upper ∧ i = idx)

structure TablesInv (g : Geometry) (pt : PageTables) (S : Uses) (P : Bool → Nat → Prop) : Prop where
  wf : TablesWf g pt
  maps : ∀ b i a, S b i → inZone g b a → inSlot g i a → LeafMaps g b pt a
  present : ∀ b a, inZone g b a → P b a → (leaf g b pt a).p

structure SlotsInv (g : Geometry) (m : MemState) (S : Uses) (P : Bool → Nat → Prop) : Prop where
  range : ∀ b i, S b i → 1 ≤ i ∧ i < g.lastMemIdx ∧ slotInZone g b i
  plugged : ∀ b i, S b i → m.vmMemRegs i = pluggedReg g i
  unplugged : ∀ i, 1 ≤ i → i < g.lastMemIdx → (∀ b, ¬ S b i) →
    (m.vmMemRegs i).memorySize = 0 ∧ (m.vmMemRegs i).userspaceAddr = 0
  tables : g.vmType = .kvm → TablesInv g m.pt S P

section

variable {g : Geometry} {m : MemState} {S S' : Uses} {P P' : Bool → Nat → Prop} {idx : Int}
variable {upper : Bool} {m' : MemState}

section

variable (h : SlotsInv g m S P)
include h

theorem SlotsInv.congr (hS : ∀ b i, S b i ↔ S' b i) (hP : ∀ b a, P' b a → P b a) :
    SlotsInv g m S' P' where
  range b i hi := h.range b i ((hS b i).2 hi)
  plugged b i hi := h.plugged b i ((hS b i).2 hi)
  unplugged i h1 h2 hi := h.unplugged i h1 h2 fun b hb => hi b ((hS b i).1 hb)
  tables hk :=
    { wf := (h.tables hk).wf
      maps := fun b i a hi => (h.tables hk).maps b i a ((hS b i).2 hi)
      present := fun b a hz ha => (h.tables hk).present b a hz (hP b a ha) }

/-- Forget a use of a slot that the other zone still uses. -/
theorem SlotsInv.forget (hidx : S (!upper) idx) : SlotsInv g m (S.remove upper idx) P where
  range b i hi := h.range b i hi.1
  plugged b i hi := h.plugged b i hi.1
  unplugged i h1 h2 hi := by
    refine h.unplugged i h1 h2 fun b hb => hi b ⟨hb, ?_⟩
    rintro ⟨rfl, rfl⟩
    exact hi (!b) ⟨hidx, by simp⟩
  tables hk :=
    { wf := (h.tables hk).wf
      maps := fun b i a hi => (h.tables hk).maps b i a hi.1
      present := (h.tables hk).present }

/-- A slot is plugged iff some zone uses it. -/
theorem SlotsInv.allocated_iff (h1 : 1 ≤ idx) (hi : idx < g.lastMemIdx) :
    kmRegionAllocated m idx ↔ ∃ b, S b idx := by
  have hbase : 0 < memregBase g idx := by
    have hmono := memregBase_mono g (by decide : (0 : Int) ≤ 1) h1 (le_of_lt hi)
    have hone := memregBase_one g
    have hconsts := layout_consts
    omega
  constructor
  · intro hal
    by_contra hno
    have hz := (h.unplugged idx h1 hi fun b hb => hno ⟨b, hb⟩).2
    simp [kmRegionAllocated, hz] at hal
  rintro ⟨b, hb⟩
  have hne : memregBase g idx + g.kmUserMemBase ≠ 0 := by omega
  simp only [kmRegionAllocated, h.plugged b idx hb, pluggedReg]
  exact decide_eq_true hne

/-- A new use of slot `idx`, once its register and its leaves are in place. -/
theorem SlotsInv.add_use (h1 : 1 ≤ idx) (hi : idx < g.lastMemIdx) (hz : slotInZone g upper idx)
    (hreg : m'.vmMemRegs idx = pluggedReg g idx)
    (hother : ∀ i, i ≠ idx → m'.vmMemRegs i = m.vmMemRegs i)
    (hpt : g.vmType = .kvm → MapsMore g m.pt m'.pt ∧
      ∀ a, inZone g upper a → inSlot g idx a → LeafMaps g upper m'.pt a) :
    SlotsInv g m' (S.add upper idx) P where
  range b i := by
    rintro (hb | ⟨rfl, rfl⟩)
    · exact h.range b i hb
    · exact ⟨h1, hi, hz⟩
  plugged b i hb := by
    by_cases hii : i = idx
    · rw [hii]
      exact hreg
    rw [hother i hii]
    rcases hb with hb | ⟨-, rfl⟩
    · exact h.plugged b i hb
    · exact absurd rfl hii
  unplugged i hi1 hi2 hno := by
    have hii : i ≠ idx := fun he => hno upper (.inr ⟨rfl, he⟩)
    rw [hother i hii]
    exact h.unplugged i hi1 hi2 fun b hb => hno b (.inl hb)
  tables hk := by
    obtain ⟨hmore, hnew⟩ := hpt hk
    refine ⟨hmore.wf, ?_, ?_⟩
    · rintro b i a (hb | ⟨rfl, rfl⟩) hza hin
      · exact hmore.maps b a hza ((h.tables hk).maps b i a hb hza hin)
      · exact hnew a hza hin
    intro b a hza ha
    rw [hmore.present b a hza]
    exact (h.tables hk).present b a hza ha

end

/-! ## Regions -/

/-- The slots outside of guest memory: the reserved ones. -/
def SameReserved (g : Geometry) (m m' : MemState) : Prop :=
  ∀ i, ¬ (1 ≤ i ∧ i < g.lastMemIdx) → m'.vmMemRegs i = m.vmMemRegs i

/-- What plugging and unplugging leave alone. -/
structure SameBreaks (g : Geometry) (m m' : MemState) : Prop where
  brk : m'.brk = m.brk
  tbrk : m'.tbrk = m.tbrk
  reserved : SameReserved g m m'

theorem SameBreaks.refl (m : MemState) : SameBreaks g m m := ⟨rfl, rfl, fun _ _ => rfl⟩

theorem SameBreaks.trans {m1 m2 m3 : MemState} (h₁ : SameBreaks g m1 m2)
    (h₂ : SameBreaks g m2 m3) : SameBreaks g m1 m3 :=
  ⟨h₂.brk.trans h₁.brk, h₂.tbrk.trans h₁.tbrk,
    fun i hi => (h₂.reserved i hi).trans (h₁.reserved i hi)⟩

section

variable (h1 : 1 ≤ idx) (hi : idx < g.lastMemIdx)
include h1 hi

/-- Only the register of a slot of guest memory changed. -/
theorem SameBreaks.of_update (hbrk : m'.brk = m.brk) (htbrk : m'.tbrk = m.tbrk)
    (hregs : ∀ i, i ≠ idx → m'.vmMemRegs i = m.vmMemRegs i) : SameBreaks g m m' :=
  ⟨hbrk, htbrk, fun i hout => hregs i (fun he => hout (he ▸ ⟨h1, hi⟩))⟩

theorem memreg_page_aligned :
    memregSize g idx % kmPageSize = 0 ∧ memregBase g idx % kmPageSize = 0 := by
  obtain ⟨⟨b, hb⟩, ⟨s, hs⟩⟩ := memreg_pde_aligned g h1 hi
  rw [hb, hs, kmPageSize_eq, pdeRegion_eq]
  omega

/-- Without 1GB pages a region lies in the first or the last GB. -/
theorem memreg_1g_or_end :
    g.pdpe1g ∨ memregBase g idx < gib ∨ g.guestMaxPhysmem - gib ≤ memregBase g idx := by
  by_cases hp : g.pdpe1g
  · exact .inl hp
  have hs := memregSize_lt_gib_of_no_1g g h1 hi (by simpa using hp)
  have hadd := memregBase_add g idx
  have hpos := memregSize_pos g idx
  rcases memreg_small g h1 hi hs with h | h
  · exact .inr (.inl (by omega))
  · exact .inr (.inr h)

end

theorem setPages_spec (upper : Bool) (h1 : 1 ≤ idx) (hi : idx < g.lastMemIdx)
    (hz : slotInZone g upper idx) (hwf : g.vmType = .kvm → TablesWf g m.pt) :
    ∃ pt', setPages g m (pluggedReg g idx) upper = some { m with pt := pt' } ∧
      (g.vmType = .kvm → MapsMore g m.pt pt' ∧
        ∀ a, inZone g upper a → inSlot g idx a → LeafMaps g upper pt' a) := by
  by_cases hk : g.vmType = .kvm
  · rcases setPml4Hierarchy_spec (hwf hk) upper h1 hi hz with ⟨pt', hpt', hmore⟩
    exact ⟨pt', by simp [setPages, hk, hpt'], fun _ => hmore⟩
  · exact ⟨m.pt, by simp [setPages, hk], fun h => absurd h hk⟩

theorem clearPages_spec (upper : Bool) (h1 : 1 ≤ idx) (hi : idx < g.lastMemIdx)
    (hz : slotInZone g upper idx) (hwf : g.vmType = .kvm → TablesWf g m.pt) :
    ∃ pt', clearPages g m (pluggedReg g idx) upper = some { m with pt := pt' } ∧
      (g.vmType = .kvm → TablesWf g pt' ∧
        ∀ b a, inZone g b a → ¬ inSlot g idx a → leaf g b pt' a = leaf g b m.pt a) := by
  by_cases hk : g.vmType = .kvm
  · rcases clearPml4Hierarchy_spec (hwf hk) upper h1 hi hz with ⟨pt', hpt', hclear⟩
    exact ⟨pt', by simp [clearPages, hk, hpt'], fun _ => hclear⟩
  · exact ⟨m.pt, by simp [clearPages, hk], fun h => absurd h hk⟩

section

variable (h : SlotsInv g m S P)
include h

/-- The log of host calls does not matter. -/
theorem SlotsInv.call (c : HostCall) : SlotsInv g (m.call c) S P :=
  ⟨h.range, h.plugged, h.unplugged, h.tables⟩

theorem plugRegion_spec (outcome : AllocOutcome) (upper : Bool) (h1 : 1 ≤ idx)
    (hi : idx < g.lastMemIdx) (hz : slotInZone g upper idx) (hfree : ∀ b, ¬ S b idx) :
    ∃ m' rc, plugRegion g outcome m (pluggedReg g idx) upper = some (m', rc) ∧ SameBreaks g m m' ∧
      ((rc = 0 ∧ SlotsInv g m' (S.add upper idx) P) ∨ (rc ≠ 0 ∧ SlotsInv g m' S P)) := by
  -- any answer but a failed ioctl lets the region in
  have hok : ∃ m' rc, (do
      let m ← setPages g ((m.call (.setUserMemoryRegion (pluggedReg g idx))).setReg idx
        (pluggedReg g idx)) (pluggedReg g idx) upper
      return (m, (0 : Int))) = some (m', rc) ∧ SameBreaks g m m' ∧
      ((rc = 0 ∧ SlotsInv g m' (S.add upper idx) P) ∨ (rc ≠ 0 ∧ SlotsInv g m' S P)) := by
    rcases setPages_spec (m := (m.call (.setUserMemoryRegion (pluggedReg g idx))).setReg idx
      (pluggedReg g idx)) upper h1 hi hz (fun hk => (h.tables hk).wf) with ⟨pt', hset, hmore⟩
    rw [hset]
    refine ⟨_, 0, rfl, .of_update h1 hi rfl rfl (fun i hii => update_of_ne hii _ _), .inl ⟨rfl, ?_⟩⟩
    exact h.add_use h1 hi hz (update_self _ _ _) (fun i hii => update_of_ne hii _ _) hmore
  cases outcome with
  | ok => exact hok
  | noMem => exact hok
  | plugFailed e =>
    refine ⟨_, _, rfl, .of_update h1 hi rfl rfl (fun i hii => update_of_ne hii _ _),
      .inr ⟨?_, h.range, ?_, ?_, h.tables⟩⟩
    · have := e.pos
      omega
    · intro b i hb
      have hii : i ≠ idx := fun he => hfree b (he ▸ hb)
      simp only [MemState.setReg, kmGuestPageFree, MemState.call, pluggedReg, update_of_ne hii]
      exact h.plugged b i hb
    intro i hi1 hi2 hno
    simp only [MemState.setReg, kmGuestPageFree, MemState.call, pluggedReg]
    by_cases hii : i = idx
    · subst hii
      rw [update_self]
      exact ⟨rfl, rfl⟩
    rw [update_of_ne hii]
    exact h.unplugged i hi1 hi2 hno

/-- `km_alloc_region` of an unused slot: it becomes used by the zone, or nothing changes. -/
theorem kmAllocRegion_spec (host : Int → AllocOutcome) (upper : Bool) (h1 : 1 ≤ idx)
    (hi : idx < g.lastMemIdx) (hz : slotInZone g upper idx) (hfree : ∀ b, ¬ S b idx) :
    ∃ m' rc, kmAllocRegion g host m idx (memregSize g idx) upper = some (m', rc) ∧
      SameBreaks g m m' ∧
      ((rc = 0 ∧ SlotsInv g m' (S.add upper idx) P) ∨ (rc ≠ 0 ∧ SlotsInv g m' S P)) := by
  obtain ⟨hs0, hb0⟩ := memreg_page_aligned h1 hi
  simp only [kmAllocRegion, kmAssert_pos (h.unplugged idx h1 hi hfree),
    kmAssert_pos (memreg_1g_or_end h1 hi), kmGuestPageMalloc, hs0, hb0, Option.bind_eq_bind,
    Option.bind_some, ne_eq, not_true_eq_false, or_self, if_false]
  cases hno : (host idx).isNoMem with
  | true => exact ⟨_, _, rfl, ⟨rfl, rfl, fun _ _ => rfl⟩, .inr ⟨by decide, h.call _⟩⟩
  | false =>
    rcases plugRegion_spec (h.call _) (host idx) upper h1 hi hz hfree with ⟨m', rc, hp, hsame, hrc⟩
    exact ⟨m', rc, hp, ⟨hsame.brk, hsame.tbrk, hsame.reserved⟩, hrc⟩

/-- A round of a growing loop: the slot becomes used by the zone, or nothing changes. -/
theorem growSlot_spec (host : Int → AllocOutcome) (upper : Bool) (h1 : 1 ≤ idx)
    (hi : idx < g.lastMemIdx) (hz : slotInZone g upper idx) :
    ∃ m' rc, growSlot g host m idx upper = some (m', rc) ∧ SameBreaks g m m' ∧
      ((rc = 0 ∧ SlotsInv g m' (S.add upper idx) P) ∨ (rc ≠ 0 ∧ SlotsInv g m' S P)) := by
  by_cases hal : kmRegionAllocated m idx
  · rcases (h.allocated_iff h1 hi).1 hal with ⟨b, hb⟩
    have hreg := h.plugged b idx hb
    rcases setPages_spec upper h1 hi hz (fun hk => (h.tables hk).wf) with
      ⟨pt', hset, hmore⟩
    refine ⟨{ m with pt := pt' }, 0, by simp [growSlot, hal, hreg, hset],
      ⟨rfl, rfl, fun _ _ => rfl⟩, .inl ⟨rfl, ?_⟩⟩
    exact h.add_use h1 hi hz hreg (fun _ _ => rfl) hmore
  have hfree : ∀ b, ¬ S b idx := fun b hb => hal ((h.allocated_iff h1 hi).2 ⟨b, hb⟩)
  simp only [growSlot, hal, if_false, Bool.false_eq_true]
  exact kmAllocRegion_spec h host upper h1 hi hz hfree

/-- `km_free_region` of a slot with a single user, none of whose pages has to stay present. -/
theorem kmFreeRegion_spec (upper : Bool) (hidx : S upper idx) (honly : ¬ S (!upper) idx)
    (hP : ∀ b a, P b a → ¬ inSlot g idx a)
    (hdisj : ∀ b i a, S b i → i ≠ idx → inSlot g i a → ¬ inSlot g idx a) :
    ∃ m', kmFreeRegion g m idx upper = some m' ∧ SameBreaks g m m' ∧
      SlotsInv g m' (S.remove upper idx) P := by
  obtain ⟨h1, hi, hz⟩ := h.range upper idx hidx
  have hreg := h.plugged upper idx hidx
  have hsize : (pluggedReg g idx).memorySize ≠ 0 := ne_of_gt (memregSize_pos g idx)
  rcases clearPages_spec upper h1 hi hz (fun hk => (h.tables hk).wf) with
    ⟨pt', hclear, htab⟩
  -- the slot is used by nobody afterwards
  have hne : ∀ b i, S.remove upper idx b i → i ≠ idx := by
    rintro b i ⟨hb, hno⟩ rfl
    by_cases hbu : b = upper
    · exact hno ⟨hbu, rfl⟩
    obtain rfl : b = !upper := by cases b <;> cases upper <;> simp_all
    exact honly hb
  simp only [kmFreeRegion, hreg, kmAssert_pos hsize, hclear, do_some]
  refine ⟨_, rfl, .of_update h1 hi rfl rfl (fun i hii => update_of_ne hii _ _),
    fun b i hb => h.range b i hb.1, ?_, ?_, ?_⟩
  · intro b i hb
    simp only [MemState.setReg, kmGuestPageFree, MemState.call, update_of_ne (hne b i hb)]
    exact h.plugged b i hb.1
  · intro i hi1 hi2 hno
    simp only [MemState.setReg, kmGuestPageFree, MemState.call]
    by_cases hii : i = idx
    · subst hii
      rw [update_self]
      exact ⟨rfl, rfl⟩
    rw [update_of_ne hii]
    exact h.unplugged i hi1 hi2 fun b hb => hno b ⟨hb, fun hc => hii hc.2⟩
  intro hk
  obtain ⟨hwf, hkeep⟩ := htab hk
  refine ⟨hwf, ?_, ?_⟩
  · intro b i a hb hza hin
    have hout := hdisj b i a hb.1 (hne b i hb) hin
    have hm := (h.tables hk).maps b i a hb.1 hza hin
    rw [LeafMaps] at hm ⊢
    rwa [← hkeep b a hza hout] at hm
  intro b a hza ha
  have hp := (h.tables hk).present b a hza ha
  rwa [← hkeep b a hza (hP b a ha)] at hp

end

end

end KontainMonitor.Mem
