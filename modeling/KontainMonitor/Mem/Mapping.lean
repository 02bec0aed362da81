import KontainMonitor.Mem.PageTables

/-!
# Mapping — what the page tables say about an address

The tables are read through the *leaf entry* of an address: for each of the two zones of the guest
address space, the entry that maps a physical address there.  `pml4Hierarchy_spec`,
`fixupBottomPageTables_spec` and `fixupTopPageTables_spec` say how each function of the monitor
changes the leaf entries of both zones; `walk_eq_some` is the processor's side.
-/

namespace KontainMonitor.Mem

/-! ## Zones and leaf entries -/

/-- Is the leaf entry of a zone a 2MB entry? -/
def smallLeaf (g : Geometry) (upper : Bool) (a : Nat) : Prop :=
  if upper then g.guestMaxPhysmem - gib ≤ a else a < gib

instance (g : Geometry) (upper : Bool) (a : Nat) : Decidable (smallLeaf g upper a) :=
  inferInstanceAs (Decidable (if upper then g.guestMaxPhysmem - gib ≤ a else a < gib))

def inZone (g : Geometry) (upper : Bool) (a : Nat) : Prop :=
  if upper then gib ≤ a ∧ a < g.guestMaxPhysmem - guestMemStartVa
  else guestMemStartVa ≤ a ∧ a < g.guestMaxPhysmem - gib

def zoneOffset (g : Geometry) (upper : Bool) : Nat := if upper then g.guestVaOffset else 0

def leafShift (g : Geometry) (upper : Bool) (a : Nat) : Nat := if smallLeaf g upper a then 21 else 30

/-- The entry that maps physical address `a` in a zone. -/
def leaf (g : Geometry) (upper : Bool) (pt : PageTables) (a : Nat) : Pte :=
  if smallLeaf g upper a then (if upper then pt.pd2 else pt.pd0) (pdeSlot a)
  else pt.pdpt0 (pdpteSlot (a + zoneOffset g upper))

def LeafMaps (g : Geometry) (upper : Bool) (pt : PageTables) (a : Nat) : Prop :=
  (leaf g upper pt a).ps ∧
    (leaf g upper pt a).frame = a / 2 ^ leafShift g upper a * 2 ^ (leafShift g upper a - 12)

/-- The entries above the leaves, as `init_pml4` leaves them, and no stray bits in the leaves. -/
structure TablesWf (g : Geometry) (pt : PageTables) : Prop where
  pml4_zero : (pt.pml4 0).p ∧ (pt.pml4 0).ps = false ∧ (pt.pml4 0).frame = 33
  pdpt0_zero : (pt.pdpt0 0).p ∧ (pt.pdpt0 0).ps = false ∧ (pt.pdpt0 0).frame = 36
  pdpt0_last : (pt.pdpt0 511).p ∧ (pt.pdpt0 511).ps = false ∧ (pt.pdpt0 511).frame = 38
  clean : ∀ upper a, inZone g upper a →
    (leaf g upper pt a).frame % 2 ^ (leafShift g upper a - 12) = 0

variable {upper : Bool} {a : Nat}

theorem LeafMaps.clean {g : Geometry} {pt : PageTables} (h : LeafMaps g upper pt a) :
    (leaf g upper pt a).frame % 2 ^ (leafShift g upper a - 12) = 0 := by
  rw [h.2]
  exact Nat.mul_mod_left _ _

/-! ## The processor's walk -/

theorem tableAt_consts (pt : PageTables) :
    pt.tableAt 33 = some pt.pdpt0 ∧ pt.tableAt 36 = some pt.pd0 ∧ pt.tableAt 38 = some pt.pd2 := by
  refine ⟨?_, ?_, ?_⟩ <;> rfl

theorem pml4Slot_zone {g : Geometry} (hz : inZone g upper a) :
    pml4Slot (a + zoneOffset g upper) = 0 := by
  obtain ⟨n, hgibs⟩ := g.gibs
  have hreg : pml4eRegion = 549755813888 := by decide
  simp only [pml4Slot, Table.pageSlot, hreg]
  cases upper
  · simp only [inZone, zoneOffset, if_false, Bool.false_eq_true] at hz ⊢
    omega
  simp only [inZone, zoneOffset, if_true] at hz ⊢
  omega

/-- The 2MB leaves of the zones hang off the first and the last entry of `pdpt0`. -/
theorem pdpteSlot_zone_small {g : Geometry} (hz : inZone g upper a) (hs : smallLeaf g upper a) :
    pdpteSlot (a + zoneOffset g upper) = if upper then 511 else 0 := by
  obtain ⟨n, hsizes⟩ := g.sizes
  simp only [pdpteSlot, Table.pageSlot, pdpteRegion_eq]
  cases upper
  · simp only [smallLeaf, zoneOffset, if_false, Bool.false_eq_true] at hs ⊢
    omega
  simp only [inZone, smallLeaf, zoneOffset, if_true] at hz hs ⊢
  omega

theorem pdeSlot_zone (g : Geometry) (upper : Bool) (a : Nat) :
    pdeSlot (a + zoneOffset g upper) = pdeSlot a := by
  obtain ⟨n, hgibs⟩ := g.gibs
  simp only [pdeSlot, Table.pageSlot, pdeRegion_eq]
  cases upper
  · simp [zoneOffset]
  simp only [zoneOffset, if_true]
  omega

/-- A present leaf entry that points to the page of `a` makes the processor find `a`. -/
theorem walk_eq_some {g : Geometry} {pt : PageTables} (wf : TablesWf g pt) (hz : inZone g upper a)
    (hp : (leaf g upper pt a).p) (hm : LeafMaps g upper pt a) :
    pt.walk (a + zoneOffset g upper) = some a := by
  obtain ⟨n, -, -, -, hoff⟩ := g.gibs
  obtain ⟨h4p, h4s, h4f⟩ := wf.pml4_zero
  obtain ⟨hp0p, hp0s, hp0f⟩ := wf.pdpt0_zero
  obtain ⟨hplp, hpls, hplf⟩ := wf.pdpt0_last
  obtain ⟨ht1, ht2, ht3⟩ := tableAt_consts pt
  have hslot4 := pml4Slot_zone hz
  by_cases hs : smallLeaf g upper a
  · have hslot3 := pdpteSlot_zone_small hz hs
    have hslot2 := pdeSlot_zone g upper a
    have hres : (leaf g upper pt a).frame / 2 ^ 9 * pdeRegion +
        (a + zoneOffset g upper) % pdeRegion = a := by
      rw [hm.2, leafShift, if_pos hs]
      cases upper <;> simp only [zoneOffset, hoff, pdeRegion, mib] <;> norm_num <;> omega
    have hcl : (leaf g upper pt a).frame % 2 ^ 9 = 0 := by
      have := hm.clean
      rwa [leafShift, if_pos hs] at this
    have hps := hm.1
    cases upper
    · simp only [leaf, hs, if_true, if_false, Bool.false_eq_true, Nat.reducePow] at hp hres hcl hps hslot3
      simp [PageTables.walk, hslot4, hslot3, hslot2, h4p, h4s, h4f, ht1, ht2, hp0p, hp0s, hp0f, hp,
        hps, hcl, hres, guard]
    simp only [leaf, hs, if_true, Nat.reducePow] at hp hres hcl hps hslot3
    simp [PageTables.walk, hslot4, hslot3, hslot2, h4p, h4s, h4f, ht1, ht3, hplp, hpls, hplf, hp,
      hps, hcl, hres, guard]
  have hres : (leaf g upper pt a).frame / 2 ^ 18 * pdpteRegion +
      (a + zoneOffset g upper) % pdpteRegion = a := by
    rw [hm.2, leafShift, if_neg hs]
    cases upper <;> simp only [zoneOffset, hoff, pdpteRegion, gib] <;> norm_num <;> omega
  have hcl : (leaf g upper pt a).frame % 2 ^ 18 = 0 := by
    have := hm.clean
    rwa [leafShift, if_neg hs] at this
  have hps := hm.1
  simp only [leaf, hs, if_false, Nat.reducePow] at hp hres hcl hps
  simp [PageTables.walk, hslot4, h4p, h4s, h4f, ht1, hp, hps, hcl, hres, guard]

/-! ## Entering and clearing a region -/

/-- KVM slot `idx` once `km_alloc_region` has filled it. -/
def pluggedReg (g : Geometry) (idx : Int) : MemReg :=
  { slot := idx
    guestPhysAddr := memregBase g idx
    memorySize := memregSize g idx
    userspaceAddr := memregBase g idx + g.kmUserMemBase
    flags := 0 }

def inSlot (g : Geometry) (idx : Int) (a : Nat) : Prop :=
  memregBase g idx ≤ a ∧ a < memregBase g idx + memregSize g idx

instance (g : Geometry) (idx : Int) (a : Nat) : Decidable (inSlot g idx a) :=
  inferInstanceAs (Decidable (_ ∧ _))

def slotInZone (g : Geometry) (upper : Bool) (idx : Int) : Prop :=
  if upper then gib ≤ memregBase g idx else memregTop g idx ≤ g.guestMaxPhysmem - gib

def leafUpd (g : Geometry) (upper : Bool) (f2m f1g : Nat → Pte → Pte) (a : Nat) : Pte → Pte :=
  if smallLeaf g upper a then f2m (a / pdeRegion * pdeRegion)
  else f1g (a / pdpteRegion * pdpteRegion)

/-- How the leaf entries change when those of region `idx` are rewritten for one zone; those of the
other zone only where both share an entry. -/
structure LeavesUpdated (g : Geometry) (upper : Bool) (idx : Int) (f2m f1g : Nat → Pte → Pte)
    (pt pt' : PageTables) : Prop where
  same : ∀ a, inZone g upper a → leaf g upper pt' a =
    if inSlot g idx a then leafUpd g upper f2m f1g a (leaf g upper pt a) else leaf g upper pt a
  other : ∀ a, inZone g (!upper) a → leaf g (!upper) pt' a = leaf g (!upper) pt a ∨
    (inZone g upper a ∧ inSlot g idx a ∧ leafShift g (!upper) a = leafShift g upper a ∧
      ∀ pt'', leaf g (!upper) pt'' a = leaf g upper pt'' a)
  pml4 : pt'.pml4 = pt.pml4
  pdpt0_zero : pt'.pdpt0 0 = pt.pdpt0 0
  pdpt0_last : pt'.pdpt0 511 = pt.pdpt0 511

section Hierarchy

variable {g : Geometry} {idx : Int} (f2m f1g : Nat → Pte → Pte) (pt : PageTables)

/-- Region of 2MB pages in the bottom zone. -/
theorem leavesUpdated_pd0 (h1 : 1 ≤ idx) (hi : idx < g.lastMemIdx) (hs : memregSize g idx < gib)
    (hz : slotInZone g false idx) : LeavesUpdated g false idx f2m f1g pt { pt with
        pd0 := Table.forEach (Table.addrsBy (memregBase g idx) (memregSize g idx) pdeRegion)
          pdeSlot f2m pt.pd0 } := by
  have hadd := memregBase_add g idx
  have hpos := memregSize_pos g idx
  obtain ⟨hdb, hds⟩ := memreg_pde_aligned g h1 hi
  have htop : memregTop g idx ≤ gib := by
    rcases memreg_small g h1 hi hs with h | h
    · exact h
    simp only [slotInZone, Bool.false_eq_true, if_false] at hz
    omega
  have hgib : gib = 1 * (512 * pdeRegion) := by decide
  refine ⟨?_, ?_, rfl, rfl, rfl⟩
  · intro a ha
    by_cases hsm : smallLeaf g false a
    · have ha' : a < gib := by simpa [smallLeaf] using hsm
      have hblock : a / pdeRegion / 512 = 0 := by
        simp only [pdeRegion, gib, mib] at ha' ⊢
        omega
      have hupd := Table.forEach_pages_apply (by decide) hdb hds (by omega)
        (by omega) hblock f2m pt.pd0
      simp only [leaf, leafUpd, hsm, if_true, if_false, Bool.false_eq_true]
      exact hupd
    have ha' : ¬ a < gib := by simpa [smallLeaf] using hsm
    have hout : ¬ inSlot g idx a := by
      intro h
      have := h.2
      omega
    simp [leaf, hsm, hout]
  intro a _
  left
  simp [leaf]

/-- Region of 2MB pages in the top zone. -/
theorem leavesUpdated_pd2 (h1 : 1 ≤ idx) (hi : idx < g.lastMemIdx) (hs : memregSize g idx < gib)
    (hz : slotInZone g true idx) : LeavesUpdated g true idx f2m f1g pt { pt with
        pd2 := Table.forEach (Table.addrsBy (memregBase g idx) (memregSize g idx) pdeRegion)
          pdeSlot f2m pt.pd2 } := by
  obtain ⟨n, hgibs⟩ := g.gibs
  have hadd := memregBase_add g idx
  have hpos := memregSize_pos g idx
  obtain ⟨hdb, hds⟩ := memreg_pde_aligned g h1 hi
  have hz' : gib ≤ memregBase g idx := by simpa [slotInZone] using hz
  have hbase : g.guestMaxPhysmem - gib ≤ memregBase g idx := by
    rcases memreg_small g h1 hi hs with h | h
    · omega
    · exact h
  have htop : memregTop g idx ≤ g.guestMaxPhysmem := by
    have hmono := memregBase_mono g (by omega : (0 : Int) ≤ idx + 1) (by omega) le_rfl
    rw [memregTop_eq g (by omega) hi]
    rw [memregBase_last] at hmono
    omega
  have hconsts := layout_consts
  refine ⟨?_, ?_, rfl, rfl, rfl⟩
  · intro a ha
    by_cases hsm : smallLeaf g true a
    · have ha' : g.guestMaxPhysmem - gib ≤ a := by simpa [smallLeaf] using hsm
      have ha2 : a < g.guestMaxPhysmem - guestMemStartVa := by
        simp only [inZone, if_true] at ha
        exact ha.2
      have hblock : a / pdeRegion / 512 = n - 1 := by
        rw [pdeRegion_eq]
        omega
      have hupd := Table.forEach_pages_apply (by decide) hdb hds (by rw [pdeRegion_eq]; omega)
        (by rw [pdeRegion_eq]; omega) hblock f2m pt.pd2
      simp only [leaf, leafUpd, hsm, if_true]
      exact hupd
    have ha' : ¬ g.guestMaxPhysmem - gib ≤ a := by simpa [smallLeaf] using hsm
    have hout : ¬ inSlot g idx a := by
      intro h
      have := h.1
      omega
    simp [leaf, hsm, hout]
  intro a _
  left
  simp [leaf]

/-- Region of 1GB pages, in either zone. -/
theorem leavesUpdated_pdpt0 (upper : Bool) (h1 : 1 ≤ idx) (hi : idx < g.lastMemIdx)
    (hs : gib ≤ memregSize g idx) : LeavesUpdated g upper idx f2m f1g pt { pt with
        pdpt0 := Table.forEach
          (Table.addrsBy (memregBase g idx + zoneOffset g upper) (memregSize g idx) pdpteRegion)
          pdpteSlot
          (fun addr => f1g (memregBase g idx + (addr - (memregBase g idx + zoneOffset g upper))))
          pt.pdpt0 } := by
  obtain ⟨n, hn2, hn, hmax, hoff⟩ := g.gibs
  have hadd := memregBase_add g idx
  obtain ⟨hdb, hds, hbase, htop⟩ := memreg_large g h1 hi hs
  have hgib := gib_eq
  have hreg := pdpteRegion_eq
  -- the offset of either zone is a whole number of GBs
  obtain ⟨m, hm, hmn⟩ : ∃ m, zoneOffset g upper = m * 1073741824 ∧ (m = 512 - n ∨ m = 0) := by
    cases upper
    · exact ⟨0, by simp [zoneOffset], .inr rfl⟩
    · exact ⟨512 - n, by simpa [zoneOffset] using hoff, .inl rfl⟩
  have hdb' : pdpteRegion ∣ memregBase g idx + zoneOffset g upper := by
    rw [hreg, ← hgib]
    exact Nat.dvd_add hdb (by rw [hm, hgib]; exact Nat.dvd_mul_left _ _)
  -- entry of any virtual address of the bottom 512GB after the loop
  have hupd : ∀ v, v < 512 * 1073741824 → ∀ f : Nat → Pte → Pte,
      Table.forEach (Table.addrsBy (memregBase g idx + zoneOffset g upper) (memregSize g idx)
        pdpteRegion) pdpteSlot f pt.pdpt0 (pdpteSlot v) =
      if memregBase g idx + zoneOffset g upper ≤ v ∧
          v < memregBase g idx + zoneOffset g upper + memregSize g idx
      then f (v / pdpteRegion * pdpteRegion) (pt.pdpt0 (pdpteSlot v)) else pt.pdpt0 (pdpteSlot v) := by
    intro v hv f
    exact Table.forEach_pages_apply (by decide) hdb' hds (c := 0) (by omega) (by omega)
      (by rw [hreg]; omega) f pt.pdpt0
  refine ⟨?_, ?_, rfl, ?_, ?_⟩
  · intro a ha
    have hva : a + zoneOffset g upper < 512 * 1073741824 := by
      cases upper <;> simp only [inZone, if_true, if_false, Bool.false_eq_true] at ha <;> omega
    by_cases hsm : smallLeaf g upper a
    · have hout : ¬ inSlot g idx a := by
        intro h
        have h1 := h.1
        have h2 := h.2
        cases upper <;> simp only [smallLeaf, if_true, if_false, Bool.false_eq_true] at hsm <;> omega
      cases upper <;> simp [leaf, hsm, hout]
    simp only [leaf, leafUpd, hsm, if_false]
    rw [hupd _ hva]
    by_cases hin : inSlot g idx a
    · have hin' := hin
      simp only [inSlot] at hin'
      rw [if_pos hin, if_pos (by omega)]
      congr 1
      rw [hreg, hm]
      obtain ⟨k, hk⟩ := hdb
      rw [hgib] at hk
      omega
    rw [if_neg hin, if_neg]
    simp only [inSlot] at hin
    omega
  · intro a ha
    have hva : a + zoneOffset g (!upper) < 512 * 1073741824 := by
      cases upper <;> simp only [inZone, zoneOffset, Bool.not_true, Bool.not_false, if_true, if_false,
        Bool.false_eq_true] at ha ⊢ <;> omega
    by_cases hsm : smallLeaf g (!upper) a
    · left
      cases upper <;> simp only [Bool.not_true, Bool.not_false] at hsm ⊢ <;> simp [leaf, hsm]
    simp only [leaf, hsm, if_false]
    rw [hupd _ hva]
    by_cases hin : memregBase g idx + zoneOffset g upper ≤ a + zoneOffset g (!upper) ∧
        a + zoneOffset g (!upper) < memregBase g idx + zoneOffset g upper + memregSize g idx
    · -- both zones use one entry: the offset must be zero
      right
      have h0 : g.guestVaOffset = 0 := by
        cases upper <;> simp only [inZone, zoneOffset, Bool.not_true, Bool.not_false, if_true,
          if_false, Bool.false_eq_true] at ha hin <;> omega
      have hz0 : ∀ b, zoneOffset g b = 0 := by
        intro b
        cases b <;> simp [zoneOffset, h0]
      have hin' : inSlot g idx a := by
        simp only [hz0] at hin
        exact ⟨by omega, by omega⟩
      have hbig : ∀ b, ¬ smallLeaf g b a := by
        intro b
        have h1 := hin'.1
        cases b <;> simp only [smallLeaf, if_true, if_false, Bool.false_eq_true] <;> omega
      refine ⟨?_, hin', by simp [leafShift, hbig], by simp [hbig, hz0]⟩
      have h1 := hin'.1
      have hconsts := layout_consts
      cases upper <;> simp only [inZone, if_true, if_false, Bool.false_eq_true] <;> omega
    left
    rw [if_neg hin]
  · have h0 : (0 : Nat) = pdpteSlot 0 := by decide
    rw [h0]
    simp only
    rw [hupd 0 (by decide), if_neg (by omega)]
  have h511 : (511 : Nat) = pdpteSlot (511 * 1073741824) := by decide
  rw [h511]
  simp only
  rw [hupd _ (by decide), if_neg (by omega)]

/-- Rewriting a region that fits the zone never fails, and changes the leaves of the region. -/
theorem pml4Hierarchy_spec (upper : Bool) (h1 : 1 ≤ idx) (hi : idx < g.lastMemIdx)
    (hz : slotInZone g upper idx) :
    ∃ pt', pml4Hierarchy g f2m f1g (pluggedReg g idx) upper pt = some pt' ∧
      LeavesUpdated g upper idx f2m f1g pt pt' := by
  by_cases hs : memregSize g idx < gib
  · have hs' : (pluggedReg g idx).memorySize < pdpteRegion := hs
    simp only [pml4Hierarchy, hs', if_true]
    cases upper
    · exact ⟨_, rfl, leavesUpdated_pd0 f2m f1g pt h1 hi hs hz⟩
    · exact ⟨_, rfl, leavesUpdated_pd2 f2m f1g pt h1 hi hs hz⟩
  have hs' : ¬ (pluggedReg g idx).memorySize < pdpteRegion := hs
  have h1g : g.pdpe1g := by
    by_contra h
    exact hs (memregSize_lt_gib_of_no_1g g h1 hi (by simpa using h))
  obtain ⟨-, -, hbase, htop⟩ := memreg_large g h1 hi (not_lt.1 hs)
  have hadd := memregBase_add g idx
  have hconsts := layout_consts
  have hgva : (if upper then gpaToUpperGva g (memregBase g idx) else some (memregBase g idx)) =
      some (memregBase g idx + zoneOffset g upper) := by
    cases upper
    · simp [zoneOffset]
    have hrange : guestMemStartVa ≤ memregBase g idx ∧
        memregBase g idx < g.guestMaxPhysmem := by omega
    simp [gpaToUpperGva, zoneOffset, hrange]
  refine ⟨_, ?_, leavesUpdated_pdpt0 f2m f1g pt upper h1 hi (not_lt.1 hs)⟩
  simp only [pml4Hierarchy, hs', if_false, h1g, kmAssert_pos]
  simp [pluggedReg, hgva]

variable {f2m f1g pt}

/-- A leaf entry of either zone keeps its value, or it belongs to the region and is rewritten. -/
theorem LeavesUpdated.cases {pt' : PageTables} (hu : LeavesUpdated g upper idx f2m f1g pt pt')
    {b : Bool} (ha : inZone g b a) :
    (leaf g b pt' a = leaf g b pt a ∧ (b = upper → ¬ inSlot g idx a)) ∨
      (inSlot g idx a ∧ leafShift g b a = leafShift g upper a ∧
        leaf g b pt' a = leafUpd g upper f2m f1g a (leaf g b pt a)) := by
  by_cases hb : b = upper
  · subst hb
    rw [hu.same a ha]
    by_cases hin : inSlot g idx a
    · exact .inr ⟨hin, rfl, if_pos hin⟩
    · exact .inl ⟨if_neg hin, fun _ => hin⟩
  obtain rfl : b = !upper := by cases b <;> cases upper <;> simp_all
  rcases hu.other a ha with heq | ⟨hz, hin, hsh, hleaf⟩
  · exact .inl ⟨heq, fun h => absurd h hb⟩
  · exact .inr ⟨hin, hsh, by rw [hleaf, hleaf, hu.same a hz, if_pos hin]⟩

/-- The entries above the leaves are untouched. -/
theorem LeavesUpdated.wf {pt' : PageTables} (hu : LeavesUpdated g upper idx f2m f1g pt pt')
    (wf : TablesWf g pt)
    (hclean : ∀ b a, inZone g b a → (leaf g b pt' a).frame % 2 ^ (leafShift g b a - 12) = 0) :
    TablesWf g pt' where
  pml4_zero := by
    rw [hu.pml4]
    exact wf.pml4_zero
  pdpt0_zero := by
    rw [hu.pdpt0_zero]
    exact wf.pdpt0_zero
  pdpt0_last := by
    rw [hu.pdpt0_last]
    exact wf.pdpt0_last
  clean := hclean

/-- The leaves of `pt'` have the present bits of `pt`, and point to their pages where those of
`pt` do. -/
structure MapsMore (g : Geometry) (pt pt' : PageTables) : Prop where
  wf : TablesWf g pt'
  present : ∀ upper a, inZone g upper a → (leaf g upper pt' a).p = (leaf g upper pt a).p
  maps : ∀ upper a, inZone g upper a → LeafMaps g upper pt a → LeafMaps g upper pt' a

theorem inZone_lt (h : inZone g upper a) : a < 549755813888 := by
  obtain ⟨n, hgibs⟩ := g.gibs
  cases upper <;> simp only [inZone, if_true, if_false, Bool.false_eq_true] at h <;> omega

/-- Setting the entry of a clean leaf makes it point to its page. -/
theorem leafUpd_set {e : Pte} (ha : a < 549755813888)
    (hc : e.frame % 2 ^ (leafShift g upper a - 12) = 0) :
    let e' := leafUpd g upper (fun addr e => pde2mbSet e addr) (fun base e => pdpte1gSet e base) a e
    e'.p = e.p ∧ e'.ps ∧
      e'.frame = a / 2 ^ leafShift g upper a * 2 ^ (leafShift g upper a - 12) := by
  by_cases hs : smallLeaf g upper a
  · simp only [leafShift, leafUpd, hs, if_true] at hc ⊢
    refine ⟨rfl, rfl, ?_⟩
    simp only [pde2mbSet, Pte.setPage, hc, Nat.shiftRight_eq_div_pow, pdeRegion, mib] at hc ⊢
    norm_num
    omega
  simp only [leafShift, leafUpd, hs, if_false] at hc ⊢
  refine ⟨rfl, rfl, ?_⟩
  simp only [pdpte1gSet, Pte.setPage, hc, Nat.shiftRight_eq_div_pow, pdpteRegion, gib] at hc ⊢
  norm_num
  omega

theorem setPml4Hierarchy_spec (wf : TablesWf g pt) (upper : Bool) (h1 : 1 ≤ idx)
    (hi : idx < g.lastMemIdx) (hz : slotInZone g upper idx) :
    ∃ pt', setPml4Hierarchy g (pluggedReg g idx) upper pt = some pt' ∧ MapsMore g pt pt' ∧
      ∀ a, inZone g upper a → inSlot g idx a → LeafMaps g upper pt' a := by
  rcases pml4Hierarchy_spec (fun addr e => pde2mbSet e addr) (fun base e => pdpte1gSet e base) pt
    upper h1 hi hz with ⟨pt', hpt', hu⟩
  -- a leaf that is rewritten points to its page, with the old present bit
  have hleaf : ∀ b a, inZone g b a →
      (leaf g b pt' a = leaf g b pt a ∧ (b = upper → ¬ inSlot g idx a)) ∨
        (LeafMaps g b pt' a ∧ (leaf g b pt' a).p = (leaf g b pt a).p) := by
    intro b a ha
    rcases hu.cases ha with hkeep | ⟨-, hsh, heq⟩
    · exact .inl hkeep
    have hc := wf.clean b a ha
    rw [hsh] at hc
    have hset := leafUpd_set (inZone_lt ha) hc
    rw [← heq] at hset
    refine .inr ⟨?_, hset.1⟩
    rw [LeafMaps, hsh]
    exact hset.2
  refine ⟨pt', hpt', ⟨hu.wf wf ?_, ?_, ?_⟩, ?_⟩
  · intro b a ha
    rcases hleaf b a ha with ⟨heq, -⟩ | ⟨hm, -⟩
    · rw [heq]
      exact wf.clean b a ha
    · exact hm.clean
  · intro b a ha
    rcases hleaf b a ha with ⟨heq, -⟩ | ⟨-, hp⟩
    · rw [heq]
    · exact hp
  · intro b a ha hm
    rcases hleaf b a ha with ⟨heq, -⟩ | ⟨hm', -⟩
    · rw [LeafMaps, heq]
      exact hm
    · exact hm'
  intro a ha hin
  rcases hleaf upper a ha with ⟨-, hout⟩ | ⟨hm, -⟩
  · exact absurd hin (hout rfl)
  · exact hm

theorem clearPml4Hierarchy_spec (wf : TablesWf g pt) (upper : Bool) (h1 : 1 ≤ idx)
    (hi : idx < g.lastMemIdx) (hz : slotInZone g upper idx) :
    ∃ pt', clearPml4Hierarchy g (pluggedReg g idx) upper pt = some pt' ∧ TablesWf g pt' ∧
      ∀ b a, inZone g b a → ¬ inSlot g idx a → leaf g b pt' a = leaf g b pt a := by
  rcases pml4Hierarchy_spec (fun _ _ => Pte.zero) (fun _ _ => Pte.zero) pt upper h1 hi hz with
    ⟨pt', hpt', hu⟩
  have hzero : ∀ a e, leafUpd g upper (fun _ _ => Pte.zero) (fun _ _ => Pte.zero) a e = Pte.zero := by
    intro a e
    simp only [leafUpd]
    split <;> rfl
  refine ⟨pt', hpt', hu.wf wf ?_, ?_⟩
  · intro b a ha
    rcases hu.cases ha with ⟨heq, -⟩ | ⟨-, -, heq⟩
    · rw [heq]
      exact wf.clean b a ha
    rw [heq, hzero]
    exact Nat.zero_mod _
  intro b a ha hout
  rcases hu.cases ha with ⟨heq, -⟩ | ⟨hin, -, -⟩
  · exact heq
  · exact absurd hin hout

end Hierarchy

/-! ## Present bits -/

def SameButPresent (t t' : Nat → Pte) : Prop := ∀ j, t' j = { t j with p := (t' j).p }

structure PresentMoved (g : Geometry) (pt pt' : PageTables) : Prop where
  pml4 : pt'.pml4 = pt.pml4
  pdpt0 : SameButPresent pt.pdpt0 pt'.pdpt0
  pd0 : SameButPresent pt.pd0 pt'.pd0
  pd2 : SameButPresent pt.pd2 pt'.pd2
  pdpt0_zero : (pt'.pdpt0 0).p = (pt.pdpt0 0).p
  pdpt0_last : (pt.pdpt0 511).p → (pt'.pdpt0 511).p

section Present

variable {g : Geometry} {pt pt' : PageTables}
variable {t old new : Nat}
variable {x : Nat}

theorem PresentMoved.leaf (h : PresentMoved g pt pt') (upper : Bool) (a : Nat) :
    leaf g upper pt' a = { leaf g upper pt a with p := (leaf g upper pt' a).p } := by
  by_cases hs : smallLeaf g upper a
  · cases upper
    · simp only [Mem.leaf, hs, if_true, if_false, Bool.false_eq_true]
      exact h.pd0 _
    simp only [Mem.leaf, hs, if_true]
    exact h.pd2 _
  simp only [Mem.leaf, hs, if_false]
  exact h.pdpt0 _

theorem PresentMoved.wf (h : PresentMoved g pt pt') (wf : TablesWf g pt) : TablesWf g pt' where
  pml4_zero := by
    rw [h.pml4]
    exact wf.pml4_zero
  pdpt0_zero := by
    rw [h.pdpt0 0, h.pdpt0_zero]
    exact wf.pdpt0_zero
  pdpt0_last := by
    rw [h.pdpt0 511]
    exact ⟨h.pdpt0_last wf.pdpt0_last.1, wf.pdpt0_last.2⟩
  clean := by
    intro upper a ha
    rw [h.leaf upper a]
    exact wf.clean upper a ha

theorem PresentMoved.maps (h : PresentMoved g pt pt') (hm : LeafMaps g upper pt a) :
    LeafMaps g upper pt' a := by
  rw [LeafMaps, h.leaf upper a]
  exact hm

/-- Slots of the byte below a value of `brk` in the bottom zone. -/
theorem brk_slots (hxt : x / gib < t / gib) (ht : t ≤ g.guestMaxPhysmem - guestMemStartVa) :
    pdpteSlot (x - 1) = (x - 1) / 1073741824 ∧
      ((x - 1) / 1073741824 = 0 → pdeSlot (x - 1) = (x - 1) / 2097152) := by
  obtain ⟨n, hgibs⟩ := g.gibs
  simp only [pdpteSlot, pdeSlot, Table.pageSlot, pdpteRegion_eq, pdeRegion_eq]
  rw [gib_eq] at hxt
  exact ⟨by omega, fun h => by omega⟩

theorem fixupBottomPageTables_moved (hot : old / gib < t / gib)
    (ht : t ≤ g.guestMaxPhysmem - guestMemStartVa) :
    PresentMoved g pt (fixupBottomPageTables old new pt) := by
  obtain ⟨n, hsizes⟩ := g.sizes
  obtain ⟨hold, -⟩ := brk_slots hot ht
  rw [gib_eq] at hot
  refine ⟨fixupBottomPageTables_pml4 _ _ _, ?_, ?_, ?_, ?_, ?_⟩
  · intro j
    rw [fixupBottomPageTables_pdpt0]
    split_ifs <;> rfl
  · intro j
    rw [fixupBottomPageTables_pd0]
    split_ifs <;> rfl
  · intro j
    rw [fixupBottomPageTables_pd2]
  · rw [fixupBottomPageTables_pdpt0]
    split_ifs <;> first | rfl | omega
  intro h
  rw [fixupBottomPageTables_pdpt0]
  split_ifs <;> first | exact h | rfl | omega

/-- `brk` moves below the GB of `t`, where the top zone starts: the bottom zone is present up to
the new `brk`. -/
theorem fixupBottomPageTables_low (ho : guestMemStartVa ≤ old) (hn : guestMemStartVa ≤ new)
    (hot : old / gib < t / gib) (hnt : new / gib < t / gib)
    (ht : t ≤ g.guestMaxPhysmem - guestMemStartVa)
    (hlow : ∀ a, guestMemStartVa ≤ a → a < old → a < new → (leaf g false pt a).p)
    (ha1 : guestMemStartVa ≤ a) (ha2 : a < new) :
    (leaf g false (fixupBottomPageTables old new pt) a).p := by
  obtain ⟨n, hsizes⟩ := g.sizes
  have hm2 : maxPdeSlot = 511 := by decide
  obtain ⟨hold, hold2⟩ := brk_slots hot ht
  obtain ⟨hnew, hnew2⟩ := brk_slots hnt ht
  have hprev : a < old → (leaf g false pt a).p := fun h => hlow a ha1 h ha2
  rw [gib_eq] at hot hnt
  by_cases hs : smallLeaf g false a
  · have hag : a < 1073741824 := by
      have : a < gib := by simpa [smallLeaf] using hs
      omega
    have hslot : pdeSlot a = a / 2097152 := by
      simp only [pdeSlot, Table.pageSlot, pdeRegion_eq]
      omega
    simp only [leaf, hs, if_true, if_false, Bool.false_eq_true, hslot] at hprev ⊢
    rw [fixupBottomPageTables_pd0, hold, hnew, hm2]
    -- the 2MB pages between the two values of `brk` are set or cleared, the others keep their bit
    split_ifs <;> first | rfl | exact hprev (by omega) | omega
  have hag : ¬ a < 1073741824 := by
    have : ¬ a < gib := by simpa [smallLeaf] using hs
    omega
  have hslot : pdpteSlot (a + zoneOffset g false) = a / 1073741824 := by
    simp only [pdpteSlot, Table.pageSlot, pdpteRegion_eq, zoneOffset, if_false, Bool.false_eq_true]
    omega
  simp only [leaf, hs, if_false, hslot] at hprev ⊢
  rw [fixupBottomPageTables_pdpt0, hold, hnew]
  split_ifs <;> first | rfl | exact hprev (by omega) | omega

/-- The top zone stays present while `brk` moves below it. -/
theorem fixupBottomPageTables_up (hot : old / gib < t / gib) (hnt : new / gib < t / gib)
    (ht : t ≤ g.guestMaxPhysmem - guestMemStartVa) (ha1 : t ≤ a)
    (ha2 : a < g.guestMaxPhysmem - guestMemStartVa) (hp : (leaf g true pt a).p) :
    (leaf g true (fixupBottomPageTables old new pt) a).p := by
  obtain ⟨n, hgibs⟩ := g.gibs
  obtain ⟨hold, -⟩ := brk_slots hot ht
  obtain ⟨hnew, -⟩ := brk_slots hnt ht
  rw [gib_eq] at hot hnt
  by_cases hs : smallLeaf g true a
  · simp only [leaf, hs, if_true, fixupBottomPageTables_pd2] at hp ⊢
    exact hp
  have hslot : pdpteSlot (a + zoneOffset g true) = a / 1073741824 + (512 - n) := by
    simp only [pdpteSlot, Table.pageSlot, pdpteRegion_eq, zoneOffset, if_true]
    omega
  simp only [leaf, hs, if_false, hslot] at hp ⊢
  rw [fixupBottomPageTables_pdpt0, hold, hnew]
  split_ifs <;> first | rfl | exact hp | omega

/-- Slots of a value of `tbrk` whose physical address is `x`. -/
theorem tbrk_slots (hx : x ≤ g.guestMaxPhysmem - guestMemStartVa) :
    pdpteSlot (x + g.guestVaOffset) = (x + g.guestVaOffset) / 1073741824 ∧
      pdeSlot (x + g.guestVaOffset) =
        (x + g.guestVaOffset) / 2097152 - (x + g.guestVaOffset) / 1073741824 * 512 := by
  obtain ⟨n, hsizes⟩ := g.sizes
  simp only [pdpteSlot, pdeSlot, Table.pageSlot, pdpteRegion_eq, pdeRegion_eq]
  exact ⟨by omega, by omega⟩

theorem fixupTopPageTables_moved (hog : gib ≤ old) (hng : gib ≤ new)
    (ho : old ≤ g.guestMaxPhysmem - guestMemStartVa)
    (hn : new ≤ g.guestMaxPhysmem - guestMemStartVa) : PresentMoved g pt
      (fixupTopPageTables (old + g.guestVaOffset) (new + g.guestVaOffset) pt) := by
  obtain ⟨n, hsizes⟩ := g.sizes
  obtain ⟨hold, -⟩ := tbrk_slots ho
  obtain ⟨hnew, -⟩ := tbrk_slots hn
  refine ⟨fixupTopPageTables_pml4 _ _ _, ?_, ?_, ?_, ?_, ?_⟩
  · intro j
    rw [fixupTopPageTables_pdpt0]
    split_ifs <;> rfl
  · intro j
    rw [fixupTopPageTables_pd0]
  · intro j
    rw [fixupTopPageTables_pd2]
    split_ifs <;> rfl
  · rw [fixupTopPageTables_pdpt0]
    split_ifs <;> first | rfl | omega
  intro h
  rw [fixupTopPageTables_pdpt0]
  split_ifs <;> first | exact h | rfl | omega

/-- The top zone is present from the new `tbrk` on. -/
theorem fixupTopPageTables_up (hng : gib ≤ new) (ho : old ≤ g.guestMaxPhysmem - guestMemStartVa)
    (hn : new ≤ g.guestMaxPhysmem - guestMemStartVa)
    (hup : ∀ a, old ≤ a → new ≤ a → a < g.guestMaxPhysmem - guestMemStartVa →
      (leaf g true pt a).p) (ha1 : new ≤ a) (ha2 : a < g.guestMaxPhysmem - guestMemStartVa) :
    (leaf g true (fixupTopPageTables (old + g.guestVaOffset) (new + g.guestVaOffset) pt) a).p =
      true := by
  obtain ⟨n, hsizes⟩ := g.sizes
  have hm1 : maxPdpteSlot = 511 := by decide
  obtain ⟨hold, hold2⟩ := tbrk_slots ho
  obtain ⟨hnew, hnew2⟩ := tbrk_slots hn
  obtain ⟨ha3, ha4⟩ := tbrk_slots (le_of_lt ha2)
  have hprev : old ≤ a → (leaf g true pt a).p := fun h => hup a h ha1 ha2
  by_cases hs : smallLeaf g true a
  · have hag : g.guestMaxPhysmem - gib ≤ a := by simpa [smallLeaf] using hs
    have hslot : pdeSlot a = pdeSlot (a + g.guestVaOffset) := (pdeSlot_zone g true a).symm
    simp only [leaf, hs, if_true] at hprev ⊢
    rw [hslot] at hprev ⊢
    rw [fixupTopPageTables_pd2, hold, hnew, hm1, hold2, hnew2, ha4]
    rw [ha4] at hprev
    split_ifs <;> first | rfl | exact hprev (by omega) | omega
  have hag : ¬ g.guestMaxPhysmem - gib ≤ a := by simpa [smallLeaf] using hs
  simp only [leaf, hs, if_false, zoneOffset, if_true] at hprev ⊢
  rw [fixupTopPageTables_pdpt0, hold, hnew, hm1, ha3]
  rw [ha3] at hprev
  split_ifs <;> first | rfl | exact hprev (by omega) | omega

/-- The bottom zone stays present while `tbrk` moves above its GB. -/
theorem fixupTopPageTables_low {b : Nat} (hob : b / gib < old / gib)
    (ho : old ≤ g.guestMaxPhysmem - guestMemStartVa)
    (hn : new ≤ g.guestMaxPhysmem - guestMemStartVa) (ha : a < b)
    (hp : (leaf g false pt a).p) :
    (leaf g false (fixupTopPageTables (old + g.guestVaOffset) (new + g.guestVaOffset) pt) a).p =
      true := by
  obtain ⟨n, hgibs⟩ := g.gibs
  obtain ⟨hold, -⟩ := tbrk_slots ho
  obtain ⟨hnew, -⟩ := tbrk_slots hn
  rw [gib_eq] at hob
  by_cases hs : smallLeaf g false a
  · simp only [leaf, hs, if_true, if_false, Bool.false_eq_true, fixupTopPageTables_pd0] at hp ⊢
    exact hp
  have hslot : pdpteSlot (a + zoneOffset g false) = a / 1073741824 := by
    simp only [pdpteSlot, Table.pageSlot, pdpteRegion_eq, zoneOffset, if_false, Bool.false_eq_true]
    omega
  simp only [leaf, hs, if_false, hslot] at hp ⊢
  rw [fixupTopPageTables_pdpt0, hold, hnew]
  split_ifs <;> first | rfl | exact hp | omega

/-- The tables that `init_pml4` leaves. -/
theorem initPml4_spec (g : Geometry) : ∃ pt, initPml4 g = some pt ∧ TablesWf g pt := by
  obtain ⟨n, hgibs⟩ := g.gibs
  have h1 : g.guestMaxPhysmem ≤ pml4eRegion := by
    have hreg : pml4eRegion = 549755813888 := by decide
    omega
  have h2 : g.guestVaOffset % pdpteRegion = 0 := by
    rw [pdpteRegion_eq]
    omega
  refine ⟨_, by simp only [initPml4, h1, h2, kmAssert_pos]; rfl, ?_, ?_, ?_, ?_⟩
  · exact ⟨rfl, rfl, rfl⟩
  · exact ⟨rfl, rfl, rfl⟩
  · exact ⟨rfl, rfl, rfl⟩
  -- every leaf is still zero: the two entries set in `pdpt0` are not leaves
  intro upper a ha
  have hconsts := layout_consts
  by_cases hs : smallLeaf g upper a
  · cases upper <;> simp [leaf, hs, PageTables.zero, Pte.zero]
  have hr1 := pdpteRegion_eq
  have hslot : pdpteSlot (a + zoneOffset g upper) ≠ 0 ∧
      pdpteSlot (a + zoneOffset g upper) ≠ pdeSlot guestMemTopVa := by
    have h511 : pdeSlot guestMemTopVa = 511 := by decide
    rw [h511]
    simp only [pdpteSlot, Table.pageSlot, hr1]
    cases upper
    · simp only [inZone, smallLeaf, zoneOffset, if_false, Bool.false_eq_true] at ha hs ⊢
      omega
    simp only [inZone, smallLeaf, zoneOffset, if_true] at ha hs ⊢
    omega
  simp [leaf, hs, PageTables.zero, Pte.zero, Function.update_of_ne hslot.1,
    Function.update_of_ne hslot.2]

end Present

end KontainMonitor.Mem
