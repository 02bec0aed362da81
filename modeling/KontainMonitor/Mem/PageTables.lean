import KontainMonitor.Lib.Table
import KontainMonitor.Mem.Layout

/-!
# PageTables — the in-guest page tables (`km_mem.c`, KVM build without `KM_HIGH_GVA`)

The tables live at `RSV_MEM_START` of guest physical memory.  The first GB of the bottom zone
(`pd0`) and the last GB of the top zone (`pd2`) are mapped with 2MB pages, everything between with
1GB pages, directly in `pdpt0`.  `walk` is the translation the processor does.
-/

namespace KontainMonitor.Mem

/-! ## Entries -/

/-- The bits of a page table entry that `km` uses; `frame` holds bits 51..12. -/
structure Pte where
  p : Bool
  rW : Bool
  uS : Bool
  ps : Bool
  glb : Bool
  frame : Nat
  deriving DecidableEq, Repr

def Pte.zero : Pte :=
  { p := false, rW := false, uS := false, ps := false, glb := false, frame := 0 }

def Pte.setNext (e : Pte) (addr : Nat) : Pte :=
  { e with p := true, rW := true, uS := true, frame := addr >>> 12 % 2 ^ 40 }

/-- An entry for a large page of `2^shift` bytes; the present bit is set separately, and the bits of
`frame` below the page number stay. -/
def Pte.setPage (shift : Nat) (e : Pte) (addr : Nat) : Pte :=
  { e with
    rW := true
    uS := true
    ps := true
    glb := true
    frame := e.frame % 2 ^ (shift - 12) + addr >>> shift % 2 ^ (52 - shift) * 2 ^ (shift - 12) }

def pml4eSet : Pte → Nat → Pte := Pte.setNext
def pdpteSet : Pte → Nat → Pte := Pte.setNext
def pde4kSet : Pte → Nat → Pte := Pte.setNext
def pteSet : Pte → Nat → Pte := Pte.setNext
def pdpte1gSet : Pte → Nat → Pte := Pte.setPage 30
def pde2mbSet : Pte → Nat → Pte := Pte.setPage 21

/-- The tables of `struct page_tables` that this build uses (`pdpt2` stays zero). -/
structure PageTables where
  pml4 : Nat → Pte
  pdpt0 : Nat → Pte
  pdpt1 : Nat → Pte
  pd0 : Nat → Pte
  pd1 : Nat → Pte
  pd2 : Nat → Pte
  pt1 : Nat → Pte

def tablePhys (k : Nat) : Nat := rsvMemStart + k * kmPageSize

def PageTables.tableAt (pt : PageTables) (frame : Nat) : Option (Nat → Pte) :=
  if frame = tablePhys 0 / kmPageSize then some pt.pml4
  else if frame = tablePhys 1 / kmPageSize then some pt.pdpt0
  else if frame = tablePhys 2 / kmPageSize then some pt.pdpt1
  else if frame = tablePhys 4 / kmPageSize then some pt.pd0
  else if frame = tablePhys 5 / kmPageSize then some pt.pd1
  else if frame = tablePhys 6 / kmPageSize then some pt.pd2
  else if frame = tablePhys 7 / kmPageSize then some pt.pt1
  else none

/-! ## Slots -/

def pteSlot (addr : Nat) : Nat := Table.pageSlot kmPageSize addr

def pdeSlot (addr : Nat) : Nat := Table.pageSlot pdeRegion addr

def pdpteSlot (addr : Nat) : Nat := Table.pageSlot pdpteRegion addr

def pml4Slot (addr : Nat) : Nat := Table.pageSlot pml4eRegion addr

/-! ## The processor's walk -/

/-- Translation by the processor: every entry on the way is present, and the bits of a large-page
entry below its page number are zero. -/
def PageTables.walk (pt : PageTables) (gva : Nat) : Option Nat := do
  let e4 := pt.pml4 (pml4Slot gva)
  guard (e4.p ∧ e4.ps = false)
  let pdpt ← pt.tableAt e4.frame
  let e3 := pdpt (pdpteSlot gva)
  guard (e3.p)
  if e3.ps then
    guard (e3.frame % 2 ^ 18 = 0)
    return e3.frame / 2 ^ 18 * pdpteRegion + gva % pdpteRegion
  else
    let pd ← pt.tableAt e3.frame
    let e2 := pd (pdeSlot gva)
    guard (e2.p)
    if e2.ps then
      guard (e2.frame % 2 ^ 9 = 0)
      return e2.frame / 2 ^ 9 * pdeRegion + gva % pdeRegion
    else
      let ptab ← pt.tableAt e2.frame
      let e1 := ptab (pteSlot gva)
      guard (e1.p)
      return e1.frame * kmPageSize + gva % kmPageSize

/-! ## Building the tables -/

def PageTables.zero : PageTables :=
  { pml4 := fun _ => Pte.zero
    pdpt0 := fun _ => Pte.zero
    pdpt1 := fun _ => Pte.zero
    pd0 := fun _ => Pte.zero
    pd1 := fun _ => Pte.zero
    pd2 := fun _ => Pte.zero
    pt1 := fun _ => Pte.zero }

def initPml4 (g : Geometry) : Option PageTables := do
  kmAssert (g.guestMaxPhysmem ≤ pml4eRegion)
  kmAssert (g.guestVaOffset % pdpteRegion = 0)
  let pt := PageTables.zero
  -- covers 0 to 512GB - 1
  let pt := { pt with pml4 := Function.update pt.pml4 0 (pml4eSet (pt.pml4 0) (tablePhys 1)) }
  let pt := { pt with pdpt0 := Function.update pt.pdpt0 0 (pdpteSet (pt.pdpt0 0) (tablePhys 4)) }
  -- covers 512GB to 1TB - 1
  let idx := guestPrivateMemStartVa / pml4eRegion
  let pt := { pt with pml4 := Function.update pt.pml4 idx (pml4eSet (pt.pml4 idx) (tablePhys 2)) }
  let pt := { pt with pdpt1 := Function.update pt.pdpt1 0 (pdpteSet (pt.pdpt1 0) (tablePhys 5)) }
  let idx := pdeSlot guestVvarVdsoBaseVa
  let pt := { pt with pd1 := Function.update pt.pd1 idx (pde4kSet (pt.pd1 idx) (tablePhys 7)) }
  let idx := pdeSlot guestMemTopVa
  return { pt with pdpt0 := Function.update pt.pdpt0 idx (pdpteSet (pt.pdpt0 idx) (tablePhys 6)) }

/-- The part of `struct kvm_userspace_memory_region` that is read back. -/
structure MemReg where
  slot : Int
  guestPhysAddr : Nat
  memorySize : Nat
  userspaceAddr : Nat
  flags : Nat
  deriving DecidableEq, Repr

/-- Rewrite the entries of a memory region: 2MB entries of `pd0` or `pd2` for a region of less than
1GB, 1GB entries of `pdpt0` for the others.  `f` gets the physical address of each page. -/
def pml4Hierarchy (g : Geometry) (f2m f1g : Nat → Pte → Pte) (reg : MemReg) (upperVa : Bool)
    (pt : PageTables) : Option PageTables :=
  let size := reg.memorySize
  let base := reg.guestPhysAddr
  if size < pdpteRegion then
    -- virtual and physical memory are aligned the same on PDE_REGION
    let upd := Table.forEach (Table.addrsBy base size pdeRegion) pdeSlot f2m
    some (if upperVa then { pt with pd2 := upd pt.pd2 } else { pt with pd0 := upd pt.pd0 })
  else do
    kmAssert (g.pdpe1g)
    let gva ← (if upperVa then gpaToUpperGva g base else some base)
    return { pt with
      pdpt0 := Table.forEach (Table.addrsBy gva size pdpteRegion) pdpteSlot
        (fun addr => f1g (base + (addr - gva))) pt.pdpt0 }

def setPml4Hierarchy (g : Geometry) : MemReg → Bool → PageTables → Option PageTables :=
  pml4Hierarchy g (fun addr e => pde2mbSet e addr) (fun base e => pdpte1gSet e base)

def clearPml4Hierarchy (g : Geometry) : MemReg → Bool → PageTables → Option PageTables :=
  pml4Hierarchy g (fun _ _ => Pte.zero) (fun _ _ => Pte.zero)

/-! ## Present bits -/

def maxPdeSlot : Nat := pdeSlot guestMemTopVa
def maxPdpteSlot : Nat := pdpteSlot guestMemTopVa

/-- `for (i = lo; i <= hi; i++) t[i].p = b`. -/
def setPresent (lo hi : Nat) (b : Bool) : (Nat → Pte) → Nat → Pte :=
  Table.forEach (List.range' lo (hi + 1 - lo)) id (fun _ e => { e with p := b })

theorem setPresent_apply (lo hi : Nat) (b : Bool) (t : Nat → Pte) (j : Nat) :
    setPresent lo hi b t j = if lo ≤ j ∧ j ≤ hi then { t j with p := b } else t j := by
  rw [setPresent, Table.forEach_range'_apply]
  exact if_congr (by omega) rfl rfl

def fixupBottomPageTables (oldBrk newBrk : Nat) (pt : PageTables) : PageTables :=
  let old2m := max 1 (pdeSlot (oldBrk - 1))
  let new2m := max 1 (pdeSlot (newBrk - 1))
  let old1g := pdpteSlot (oldBrk - 1)
  let new1g := pdpteSlot (newBrk - 1)
  if newBrk > oldBrk then
    let pd0 :=
      if old1g = 0 then
        setPresent old2m (if new1g = 0 then new2m else maxPdeSlot) true pt.pd0
      else pt.pd0
    let pdpt0 :=
      if new1g > 0 then
        setPresent (if old1g = 0 then 1 else old1g) new1g true pt.pdpt0
      else pt.pdpt0
    { pt with pd0 := pd0, pdpt0 := pdpt0 }
  else
    let pdpt0 :=
      if old1g > 0 then setPresent (new1g + 1) old1g false pt.pdpt0 else pt.pdpt0
    let pd0 :=
      if new1g = 0 then
        setPresent (new2m + 1) (if old1g = 0 then old2m else maxPdeSlot) false pt.pd0
      else pt.pd0
    { pt with pd0 := pd0, pdpt0 := pdpt0 }

theorem ite_setPresent_apply (c : Prop) [Decidable c] (lo hi : Nat) (b : Bool) (t : Nat → Pte)
    (j : Nat) : (if c then setPresent lo hi b t else t) j =
      if c ∧ lo ≤ j ∧ j ≤ hi then { t j with p := b } else t j := by
  by_cases hc : c
  · simp [hc, setPresent_apply]
  · simp [hc]

section

variable (oldBrk newBrk : Nat) (pt : PageTables)
include oldBrk newBrk pt

theorem fixupBottomPageTables_pd0 (j : Nat) :
    (fixupBottomPageTables oldBrk newBrk pt).pd0 j = if newBrk > oldBrk then
        if pdpteSlot (oldBrk - 1) = 0 ∧ max 1 (pdeSlot (oldBrk - 1)) ≤ j ∧
          j ≤ (if pdpteSlot (newBrk - 1) = 0 then max 1 (pdeSlot (newBrk - 1)) else maxPdeSlot)
        then { pt.pd0 j with p := true } else pt.pd0 j
      else
        if pdpteSlot (newBrk - 1) = 0 ∧ max 1 (pdeSlot (newBrk - 1)) + 1 ≤ j ∧
          j ≤ (if pdpteSlot (oldBrk - 1) = 0 then max 1 (pdeSlot (oldBrk - 1)) else maxPdeSlot)
        then { pt.pd0 j with p := false } else pt.pd0 j := by
  rw [fixupBottomPageTables]
  split <;> exact ite_setPresent_apply _ _ _ _ _ _

theorem fixupBottomPageTables_pdpt0 (j : Nat) :
    (fixupBottomPageTables oldBrk newBrk pt).pdpt0 j = if newBrk > oldBrk then
        if pdpteSlot (newBrk - 1) > 0 ∧
          (if pdpteSlot (oldBrk - 1) = 0 then 1 else pdpteSlot (oldBrk - 1)) ≤ j ∧
          j ≤ pdpteSlot (newBrk - 1) then { pt.pdpt0 j with p := true } else pt.pdpt0 j
      else
        if pdpteSlot (oldBrk - 1) > 0 ∧ pdpteSlot (newBrk - 1) + 1 ≤ j ∧ j ≤ pdpteSlot (oldBrk - 1)
        then { pt.pdpt0 j with p := false } else pt.pdpt0 j := by
  rw [fixupBottomPageTables]
  split <;> exact ite_setPresent_apply _ _ _ _ _ _

theorem fixupBottomPageTables_pml4 : (fixupBottomPageTables oldBrk newBrk pt).pml4 = pt.pml4 := by
  rw [fixupBottomPageTables]
  split <;> rfl

theorem fixupBottomPageTables_pd2 : (fixupBottomPageTables oldBrk newBrk pt).pd2 = pt.pd2 := by
  rw [fixupBottomPageTables]
  split <;> rfl

end

/-- `for (i = lo; i < hi; i++) t[i].p = b`. -/
def setPresentBelow (lo hi : Nat) (b : Bool) : (Nat → Pte) → Nat → Pte :=
  Table.forEach (List.range' lo (hi - lo)) id (fun _ e => { e with p := b })

theorem setPresentBelow_apply (lo hi : Nat) (b : Bool) (t : Nat → Pte) (j : Nat) :
    setPresentBelow lo hi b t j = if lo ≤ j ∧ j < hi then { t j with p := b } else t j := by
  rw [setPresentBelow, Table.forEach_range'_apply]
  exact if_congr (by omega) rfl rfl

def fixupTopPageTables (oldBrk newBrk : Nat) (pt : PageTables) : PageTables :=
  let old2m := pdeSlot oldBrk
  let new2m := pdeSlot newBrk
  let old1g := pdpteSlot oldBrk
  let new1g := pdpteSlot newBrk
  if newBrk < oldBrk then
    let pd2 :=
      if old1g = maxPdpteSlot then
        setPresent (if new1g = maxPdpteSlot then new2m else 0) old2m true pt.pd2
      else pt.pd2
    let pdpt0 :=
      if new1g < maxPdpteSlot then setPresent new1g old1g true pt.pdpt0 else pt.pdpt0
    { pt with pd2 := pd2, pdpt0 := pdpt0 }
  else
    let pdpt0 :=
      if old1g < maxPdpteSlot then setPresentBelow old1g new1g false pt.pdpt0 else pt.pdpt0
    let pd2 :=
      if new1g = maxPdpteSlot then
        setPresentBelow (if old1g = maxPdpteSlot then 0 else old2m) new2m false pt.pd2
      else pt.pd2
    { pt with pd2 := pd2, pdpt0 := pdpt0 }

theorem ite_setPresentBelow_apply (c : Prop) [Decidable c] (lo hi : Nat) (b : Bool)
    (t : Nat → Pte) (j : Nat) : (if c then setPresentBelow lo hi b t else t) j =
      if c ∧ lo ≤ j ∧ j < hi then { t j with p := b } else t j := by
  by_cases hc : c
  · simp [hc, setPresentBelow_apply]
  · simp [hc]

section

variable (oldBrk newBrk : Nat) (pt : PageTables)
include oldBrk newBrk pt

theorem fixupTopPageTables_pd2 (j : Nat) :
    (fixupTopPageTables oldBrk newBrk pt).pd2 j = if newBrk < oldBrk then
        if pdpteSlot oldBrk = maxPdpteSlot ∧
          (if pdpteSlot newBrk = maxPdpteSlot then pdeSlot newBrk else 0) ≤ j ∧ j ≤ pdeSlot oldBrk
        then { pt.pd2 j with p := true } else pt.pd2 j
      else
        if pdpteSlot newBrk = maxPdpteSlot ∧
          (if pdpteSlot oldBrk = maxPdpteSlot then 0 else pdeSlot oldBrk) ≤ j ∧ j < pdeSlot newBrk
        then { pt.pd2 j with p := false } else pt.pd2 j := by
  rw [fixupTopPageTables]
  split
  · exact ite_setPresent_apply _ _ _ _ _ _
  · exact ite_setPresentBelow_apply _ _ _ _ _ _

theorem fixupTopPageTables_pdpt0 (j : Nat) :
    (fixupTopPageTables oldBrk newBrk pt).pdpt0 j = if newBrk < oldBrk then
        if pdpteSlot newBrk < maxPdpteSlot ∧ pdpteSlot newBrk ≤ j ∧ j ≤ pdpteSlot oldBrk
        then { pt.pdpt0 j with p := true } else pt.pdpt0 j
      else
        if pdpteSlot oldBrk < maxPdpteSlot ∧ pdpteSlot oldBrk ≤ j ∧ j < pdpteSlot newBrk
        then { pt.pdpt0 j with p := false } else pt.pdpt0 j := by
  rw [fixupTopPageTables]
  split
  · exact ite_setPresent_apply _ _ _ _ _ _
  · exact ite_setPresentBelow_apply _ _ _ _ _ _

theorem fixupTopPageTables_pml4 : (fixupTopPageTables oldBrk newBrk pt).pml4 = pt.pml4 := by
  rw [fixupTopPageTables]
  split <;> rfl

theorem fixupTopPageTables_pd0 : (fixupTopPageTables oldBrk newBrk pt).pd0 = pt.pd0 := by
  rw [fixupTopPageTables]
  split <;> rfl

end

end KontainMonitor.Mem
