import KontainMonitor.Lib.Loop
import KontainMonitor.Lib.Transition
import KontainMonitor.Mem.Mapping

/-!
# Slots — KVM memory slots and the two breaks (`km_mem.c`)

`machine.brk` is the end of the bottom zone, `machine.tbrk` the start of the top zone.  Moving
either of them plugs memory regions into the KVM slots they grow over, and unplugs the regions
they leave; a slot may be used by both sides at once.
-/

namespace KontainMonitor.Mem

open Option

/-! ## Host calls -/

def protNone : BitVec 32 := 0
def protRead : BitVec 32 := 1
def protWrite : BitVec 32 := 2
def protExec : BitVec 32 := 4

def mapShared : BitVec 32 := 0x01
def mapPrivate : BitVec 32 := 0x02
def mapFixed : BitVec 32 := 0x10
def mapAnonymous : BitVec 32 := 0x20
def mapNoreserve : BitVec 32 := 0x4000

inductive HostCall
  | mmap (addr len : Nat) (prot flags : BitVec 32) (fd offset : Int)
  | munmap (addr len : Nat)
  | mprotect (addr len : Nat) (prot : BitVec 32)
  | madvise (addr len : Nat) (advice : Nat)
  | msync (addr len : Nat) (flags : BitVec 32)
  | memcpy (dst src len : Nat)
  | calloc
  | setUserMemoryRegion (reg : MemReg)
  deriving DecidableEq, Repr

/-- What the host answers when a region is plugged: `mmap` may fail, and after it the
`KVM_SET_USER_MEMORY_REGION` ioctl.  A mapping at another address ends the monitor. -/
inductive AllocOutcome
  | ok
  | noMem
  | plugFailed (errno : ℕ+)

/-! ## State -/

def MemReg.zero : MemReg :=
  { slot := 0, guestPhysAddr := 0, memorySize := 0, userspaceAddr := 0, flags := 0 }

def kmRsrvMemslot : Int := 0
def kmRsrvVdsoslot : Int := 41
def kmRsrvKmguestmemSlot : Int := 42

/-- The part of `machine` that describes guest memory; `hostCalls` has the latest call first. -/
structure MemState where
  brk : Nat
  tbrk : Nat
  vmMemRegs : Int → MemReg
  pt : PageTables
  kmVvarVdsoSize : Nat
  overcommitMemory : Bool
  hostCalls : List HostCall

def MemState.call (m : MemState) (c : HostCall) : MemState :=
  { m with hostCalls := c :: m.hostCalls }

def MemState.setReg (m : MemState) (idx : Int) (reg : MemReg) : MemState :=
  { m with vmMemRegs := Function.update m.vmMemRegs idx reg }

/-! ## Guest addresses in the monitor -/

def kmVdsoGva (m : MemState) (gva : Nat) : Prop :=
  guestVvarVdsoBaseVa ≤ gva ∧ gva < guestVvarVdsoBaseVa + m.kmVvarVdsoSize

instance (m : MemState) (gva : Nat) : Decidable (kmVdsoGva m gva) :=
  inferInstanceAs (Decidable (_ ∧ _))

def kmGuestmemGva (m : MemState) (gva : Nat) : Prop :=
  guestKmguestmemBaseVa ≤ gva ∧
    gva < guestKmguestmemBaseVa + (m.vmMemRegs kmRsrvKmguestmemSlot).memorySize

instance (m : MemState) (gva : Nat) : Decidable (kmGuestmemGva m gva) :=
  inferInstanceAs (Decidable (_ ∧ _))

def kmGvaToKmaNocheck (g : Geometry) (m : MemState) (gva : Nat) : Nat :=
  if kmVdsoGva m gva then
    (m.vmMemRegs kmRsrvVdsoslot).userspaceAddr + (gva - guestVvarVdsoBaseVa)
  else if kmGuestmemGva m gva then
    (m.vmMemRegs kmRsrvKmguestmemSlot).userspaceAddr + (gva - guestKmguestmemBaseVa)
  else
    g.kmUserMemBase + gvaToGpaNocheck g gva

/-- `none` is the NULL the source returns for an address the guest does not have. -/
def kmGvaToKma (g : Geometry) (m : MemState) (gva : Nat) : Option Nat :=
  if gva < guestMemStartVa ∨ guestMemTopVa ≤ gva ∨
      (roundup m.brk kmPageSize ≤ gva ∧ gva < rounddown m.tbrk kmPageSize ∧
        ¬ kmVdsoGva m gva ∧ ¬ kmGuestmemGva m gva) then
    none
  else
    some (kmGvaToKmaNocheck g m gva)

/-! ## Plugging and unplugging -/

/-- `km_guest_page_malloc`; `fails` is the host's answer to `mmap`. -/
def kmGuestPageMalloc (g : Geometry) (m : MemState) (gpaHint size : Nat) (prot : BitVec 32)
    (fails : Bool) : MemState × Option Nat :=
  let flags := mapPrivate ||| mapAnonymous ||| (if m.overcommitMemory then mapNoreserve else 0)
  if size % kmPageSize ≠ 0 ∨ gpaHint % kmPageSize ≠ 0 then (m, none)
  else
    let m := m.call (.mmap (gpaHint + g.kmUserMemBase) size prot flags (-1) 0)
    (m, if fails then none else some (gpaHint + g.kmUserMemBase))

def kmGuestPageFree (g : Geometry) (m : MemState) (addr size : Nat) : MemState :=
  m.call (.munmap (addr + g.kmUserMemBase) size)

/-- Enter the pages of a region in the tables; only KVM uses them. -/
def setPages (g : Geometry) (m : MemState) (reg : MemReg) (upperVa : Bool) : Option MemState := do
  let pt ← (if g.vmType = .kvm then setPml4Hierarchy g reg upperVa m.pt else some m.pt)
  return { m with pt := pt }

def clearPages (g : Geometry) (m : MemState) (reg : MemReg) (upperVa : Bool) : Option MemState := do
  let pt ← (if g.vmType = .kvm then clearPml4Hierarchy g reg upperVa m.pt else some m.pt)
  return { m with pt := pt }

def AllocOutcome.isNoMem : AllocOutcome → Bool
  | .noMem => true
  | _ => false

/-- Second half of `km_alloc_region`: hand the region to KVM and enter its pages. -/
def plugRegion (g : Geometry) (outcome : AllocOutcome) (m : MemState) (reg : MemReg)
    (upperVa : Bool) : Option (MemState × Int) :=
  let m := m.call (.setUserMemoryRegion reg)
  match outcome with
  | .plugFailed errno =>
    let m := kmGuestPageFree g m reg.guestPhysAddr reg.memorySize
    some (m.setReg reg.slot MemReg.zero, -(errno : Int))
  | _ => do
    let m ← setPages g (m.setReg reg.slot reg) reg upperVa
    return (m, 0)

/-- `km_alloc_region`: 0 or a negative errno. -/
def kmAllocRegion (g : Geometry) (host : Int → AllocOutcome) (m : MemState) (idx : Int)
    (size : Nat) (upperVa : Bool) : Option (MemState × Int) := do
  let base := memregBase g idx
  kmAssert ((m.vmMemRegs idx).memorySize = 0 ∧ (m.vmMemRegs idx).userspaceAddr = 0)
  kmAssert (g.pdpe1g ∨ base < gib ∨ g.guestMaxPhysmem - gib ≤ base)
  match kmGuestPageMalloc g m base size protNone (host idx).isNoMem with
  | (m, none) => return (m, -enomem)
  | (m, some ptr) =>
    plugRegion g (host idx) m
      { slot := idx, guestPhysAddr := base, memorySize := size, userspaceAddr := ptr, flags := 0 }
      upperVa

def kmFreeRegion (g : Geometry) (m : MemState) (idx : Int) (upperVa : Bool) : Option MemState := do
  let reg := m.vmMemRegs idx
  let size := reg.memorySize
  kmAssert (size ≠ 0)
  let m ← clearPages g m reg upperVa
  let m := m.call (.setUserMemoryRegion { reg with memorySize := 0 })
  let m := kmGuestPageFree g m reg.guestPhysAddr size
  return m.setReg idx { reg with memorySize := 0, userspaceAddr := 0, guestPhysAddr := 0 }

def kmRegionAllocated (m : MemState) (idx : Int) : Bool := (m.vmMemRegs idx).userspaceAddr ≠ 0

/-! ## Moving the breaks -/

/-- Body of both growing loops: make slot `idx` usable in a zone. -/
def growSlot (g : Geometry) (host : Int → AllocOutcome) (m : MemState) (idx : Int)
    (upperVa : Bool) : Option (MemState × Int) :=
  if kmRegionAllocated m idx then do
    -- the other side allocated it; this side still needs its page mapping
    let m ← setPages g m (m.vmMemRegs idx) upperVa
    return (m, 0)
  else
    kmAllocRegion g host m idx (memregSize g idx) upperVa

/-- What the growing loops leave: the slot reached, the break to install and the errno. -/
structure Grown where
  mem : MemState
  idx : Int
  brk : Nat
  error : Nat

def slotRounds (g : Geometry) : Nat := g.lastMemIdx.toNat + 2

def brkGrowStep (g : Geometry) (host : Int → AllocOutcome) (brk : Nat) (s : MemState × Int) :
    Option ((MemState × Int) ⊕ Grown) := do
  let (m, idx) := s
  if min brk (memregTop g idx) < brk then
    let (m', rc) ← growSlot g host m (idx + 1) false
    if rc ≠ 0 then return .inr { mem := m', idx := idx, brk := m'.brk, error := enomem }
    else return .inl (m', idx + 1)
  else
    return .inr { mem := m, idx := idx, brk := brk, error := 0 }

def brkFreeStep (g : Geometry) (brk : Nat) (tbrkIdx : Int) (s : MemState × Int) :
    Option ((MemState × Int) ⊕ MemState) := do
  let (m, idx) := s
  let brkIdx ← gvaToMemregIdx g (brk - 1)
  if brkIdx < idx then
    -- don't free a shared slot
    let m' ← (if idx < tbrkIdx then kmFreeRegion g m idx false else some m)
    return .inl (m', idx - 1)
  else
    return .inr m

def brkProtect (g : Geometry) (m : MemState) (brk : Nat) : MemState :=
  let oldpage := roundup m.brk kmPageSize
  let newpage := roundup brk kmPageSize
  if oldpage < newpage then
    m.call (.mprotect (kmGvaToKmaNocheck g m oldpage) (newpage - oldpage) (protRead ||| protWrite))
  else if newpage < oldpage then
    m.call (.mprotect (kmGvaToKmaNocheck g m newpage) (oldpage - newpage) protNone)
  else m

def moveBrk (g : Geometry) (host : Int → AllocOutcome) (m : MemState) (brk : Nat) :
    Option (MemState × Nat) := do
  let idx ← gvaToMemregIdx g (m.brk - 1)
  let r ← Loop.run (brkGrowStep g host brk) (slotRounds g) (m, idx)
  let tbrkIdx ← gvaToMemregIdx g m.tbrk
  let m ← Loop.run (brkFreeStep g r.brk tbrkIdx) (slotRounds g) (r.mem, r.idx)
  let m := if g.vmType = .kvm then { m with pt := fixupBottomPageTables m.brk r.brk m.pt } else m
  let m := brkProtect g m r.brk
  return ({ m with brk := r.brk }, if r.error = 0 then r.brk else negErrno r.error)

def kmMemBrk (g : Geometry) (host : Int → AllocOutcome) (m : MemState) (brk : Nat) :
    Option (MemState × Nat) :=
  if brk = 0 then some (m, m.brk)
  else if g.guestMemZoneSizeVa ≤ brk then some (m, negErrno enomem)
  else do
    -- keep brk and tbrk out of the same 1 GIB region
    let brkPa ← gvaToGpa g brk
    let tbrkPa ← gvaToGpa g m.tbrk
    if rounddown tbrkPa pdpteRegion ≤ rounddown brkPa pdpteRegion then
      return (m, negErrno enomem)
    else
      moveBrk g host m brk

def tbrkGrowStep (g : Geometry) (host : Int → AllocOutcome) (tbrk : Nat) (s : MemState × Int) :
    Option ((MemState × Int) ⊕ Grown) := do
  let (m, idx) := s
  let base ← gpaToUpperGva g (memregBase g idx)
  if tbrk < max tbrk base then
    let (m', rc) ← growSlot g host m (idx - 1) true
    if rc ≠ 0 then return .inr { mem := m', idx := idx, brk := m'.tbrk, error := enomem }
    else return .inl (m', idx - 1)
  else
    return .inr { mem := m, idx := idx, brk := tbrk, error := 0 }

def tbrkFreeStep (g : Geometry) (tbrk : Nat) (brkIdx : Int) (s : MemState × Int) :
    Option ((MemState × Int) ⊕ MemState) := do
  let (m, idx) := s
  let tbrkIdx ← gvaToMemregIdx g tbrk
  if idx < tbrkIdx then
    -- don't free a shared slot
    let m' ← (if brkIdx < idx then kmFreeRegion g m idx true else some m)
    return .inl (m', idx + 1)
  else
    return .inr m

def moveTbrk (g : Geometry) (host : Int → AllocOutcome) (m : MemState) (tbrk : Nat) :
    Option (MemState × Nat) := do
  let idx ← gvaToMemregIdx g m.tbrk
  let r ← Loop.run (tbrkGrowStep g host tbrk) (slotRounds g) (m, idx)
  let brkIdx ← gvaToMemregIdx g (m.brk - 1)
  let m ← Loop.run (tbrkFreeStep g r.brk brkIdx) (slotRounds g) (r.mem, r.idx)
  let m := if g.vmType = .kvm then { m with pt := fixupTopPageTables m.tbrk r.brk m.pt } else m
  return ({ m with tbrk := r.brk }, if r.error = 0 then r.brk else negErrno r.error)

def kmMemTbrk (g : Geometry) (host : Int → AllocOutcome) (m : MemState) (tbrk : Nat) :
    Option (MemState × Nat) :=
  if tbrk = 0 then some (m, m.tbrk)
  else if guestMemTopVa < tbrk ∨ tbrk < g.guestVaOffset then some (m, negErrno enomem)
  else do
    let brkPa ← gvaToGpa g m.brk
    let tbrkPa ← gvaToGpa g tbrk
    if rounddown tbrkPa pdpteRegion ≤ rounddown brkPa pdpteRegion then
      return (m, negErrno enomem)
    else
      moveTbrk g host m tbrk

/-! ## The rounds of the loops -/

section

variable {g : Geometry} {host : Int → AllocOutcome} {arg : Nat} {m : MemState} {i b u : Int}
variable {y : (MemState × Int) ⊕ Grown}

theorem brkGrowStep_cases (h : brkGrowStep g host arg (m, i) = some y) :
    y = .inr ⟨m, i, arg, 0⟩ ∨ memregTop g i < arg ∧ ∃ m' rc,
      growSlot g host m (i + 1) false = some (m', rc) ∧
        (y = .inr ⟨m', i, m'.brk, enomem⟩ ∨ rc = 0 ∧ y = .inl (m', i + 1)) := by
  simp only [brkGrowStep] at h
  split at h
  · simp only [do_eq_some] at h
    rcases h with ⟨⟨m', rc⟩, hg, h⟩
    refine .inr ⟨by omega, m', rc, hg, ?_⟩
    split at h
    · cases h
      exact .inl rfl
    cases h
    exact .inr ⟨by omega, rfl⟩
  cases h
  exact .inl rfl

theorem brkFreeStep_cases {y : (MemState × Int) ⊕ MemState}
    (h : brkFreeStep g arg u (m, i) = some y) : ∃ b, gvaToMemregIdx g (arg - 1) = some b ∧
      ((¬ b < i ∧ y = .inr m) ∨ (b < i ∧ ¬ i < u ∧ y = .inl (m, i - 1)) ∨
        (b < i ∧ i < u ∧ ∃ m', kmFreeRegion g m i false = some m' ∧ y = .inl (m', i - 1))) := by
  simp only [brkFreeStep, bind_eq_bind, bind_eq_some_iff] at h
  rcases h with ⟨b, hb, h⟩
  refine ⟨b, hb, ?_⟩
  split at h
  case isTrue hmore =>
    simp only [bind_eq_some_iff] at h
    rcases h with ⟨m', hf, h⟩
    cases h
    split at hf
    case isTrue hu => exact .inr (.inr ⟨hmore, hu, m', hf, rfl⟩)
    case isFalse hu =>
      cases hf
      exact .inr (.inl ⟨hmore, hu, rfl⟩)
  case isFalse hmore =>
    cases h
    exact .inl ⟨hmore, rfl⟩

theorem tbrkGrowStep_cases (h : tbrkGrowStep g host arg (m, i) = some y) :
    guestMemStartVa ≤ memregBase g i ∧
      ((memregBase g i + g.guestVaOffset ≤ arg ∧ y = .inr ⟨m, i, arg, 0⟩) ∨
        arg < memregBase g i + g.guestVaOffset ∧ ∃ m' rc,
          growSlot g host m (i - 1) true = some (m', rc) ∧
            (y = .inr ⟨m', i, m'.tbrk, enomem⟩ ∨ rc = 0 ∧ y = .inl (m', i - 1))) := by
  simp only [tbrkGrowStep, gpaToUpperGva, bind_eq_bind, bind_eq_some_iff,
    kmAssert_eq_some, pure_def, Option.some.injEq] at h
  rcases h with ⟨base, ⟨-, ⟨hlo, -⟩, rfl⟩, h⟩
  refine ⟨hlo, ?_⟩
  split at h
  · simp only [bind_eq_some_iff] at h
    rcases h with ⟨⟨m', rc⟩, hg, h⟩
    refine .inr ⟨by omega, m', rc, hg, ?_⟩
    split at h
    · cases h
      exact .inl rfl
    cases h
    exact .inr ⟨by omega, rfl⟩
  cases h
  exact .inl ⟨by omega, rfl⟩

theorem tbrkFreeStep_cases {y : (MemState × Int) ⊕ MemState}
    (h : tbrkFreeStep g arg b (m, i) = some y) : ∃ u, gvaToMemregIdx g arg = some u ∧
      ((¬ i < u ∧ y = .inr m) ∨ (i < u ∧ ¬ b < i ∧ y = .inl (m, i + 1)) ∨
        (i < u ∧ b < i ∧ ∃ m', kmFreeRegion g m i true = some m' ∧ y = .inl (m', i + 1))) := by
  simp only [tbrkFreeStep, bind_eq_bind, bind_eq_some_iff] at h
  rcases h with ⟨u, hu, h⟩
  refine ⟨u, hu, ?_⟩
  split at h
  case isTrue hmore =>
    simp only [bind_eq_some_iff] at h
    rcases h with ⟨m', hf, h⟩
    cases h
    split at hf
    case isTrue hb => exact .inr (.inr ⟨hmore, hb, m', hf, rfl⟩)
    case isFalse hb =>
      cases hf
      exact .inr (.inl ⟨hmore, hb, rfl⟩)
  case isFalse hmore =>
    cases h
    exact .inl ⟨hmore, rfl⟩

end

/-! ## Start-up -/

def guestVvarVdsoBaseGpa : Nat := 0x7ffff00000
def guestKmguestmemBaseGpa : Nat := 0x7ffff08000

/-- Pages of the monitor that the guest can see: `[vvar]` and `[vdso]` if the host has them, and the
`km_guest` code and data, all at user addresses. -/
structure MonitorPages where
  vvarVdso : Option ((Nat × Nat) × (Nat × Nat))
  kmGuestStart : Nat
  kmGuestDataStart : Nat
  kmGuestEnd : Nat
  vvarVdso_adjacent : ∀ r, vvarVdso = some r → r.1.2 = r.2.1
  vvarVdso_user : ∀ r, vvarVdso = some r → r.1.2 < 2 ^ 47 ∧ r.2.2 < 2 ^ 47
  kmGuestEnd_user : kmGuestDataStart < 2 ^ 47 ∧ kmGuestEnd < 2 ^ 47
  kmGuestStart_aligned : kmGuestStart % kmPageSize = 0

def setPtes (virtaddr physaddr n : Nat) (pt : PageTables) : PageTables :=
  { pt with
    pt1 := Table.forEach (List.range n) (fun k => pteSlot (virtaddr + k * kmPageSize))
      (fun k e => pteSet e (physaddr + k * kmPageSize)) pt.pt1 }

def pagesOf (size : Nat) : Nat := (size + kmPageSize - 1) / kmPageSize

def kmAddVvarVdsoToGuestAddressSpace (g : Geometry) (p : MonitorPages) (m : MemState) :
    Option MemState :=
  match p.vvarVdso with
  | none => some m
  | some ((vvarBegin, vvarEnd), (vdsoBegin, vdsoEnd)) => do
    kmAssert (vvarEnd = vdsoBegin)
    let size := (vvarEnd - vvarBegin) + (vdsoEnd - vdsoBegin)
    let reg : MemReg :=
      { slot := kmRsrvVdsoslot, guestPhysAddr := guestVvarVdsoBaseGpa, memorySize := size,
        userspaceAddr := vvarBegin, flags := 0 }
    let m := (m.setReg kmRsrvVdsoslot reg).call (.setUserMemoryRegion reg)
    let n := pagesOf (vvarEnd - vvarBegin) + pagesOf (vdsoEnd - vdsoBegin)
    return { m with
      kmVvarVdsoSize := size
      pt := if g.vmType = .kvm then setPtes guestVvarVdsoBaseVa guestVvarVdsoBaseGpa n m.pt
        else m.pt }

def kmAddCodeToGuestAddressSpace (g : Geometry) (p : MonitorPages) (m : MemState) :
    Option MemState := do
  kmAssert (p.kmGuestStart % kmPageSize = 0)
  let size := p.kmGuestEnd - p.kmGuestStart
  let reg : MemReg :=
    { slot := kmRsrvKmguestmemSlot, guestPhysAddr := guestKmguestmemBaseGpa, memorySize := size,
      userspaceAddr := p.kmGuestStart, flags := 0 }
  let m := (m.setReg kmRsrvKmguestmemSlot reg).call (.setUserMemoryRegion reg)
  return { m with
    pt := if g.vmType = .kvm then
        setPtes guestKmguestmemBaseVa guestKmguestmemBaseGpa (pagesOf size) m.pt
      else m.pt }

/-- The reserved region with the page tables, which only KVM has. -/
def kmMemInitReserved (g : Geometry) (m : MemState) : Option MemState :=
  if g.vmType = .kvm then
    match kmGuestPageMalloc g m rsvMemStart rsvMemSize (protRead ||| protWrite) false with
    | (_, none) => none
    | (m, some ptr) => do
      let reg : MemReg :=
        { slot := kmRsrvMemslot, guestPhysAddr := rsvMemStart, memorySize := rsvMemSize,
          userspaceAddr := ptr, flags := 0 }
      let m := (m.setReg kmRsrvMemslot reg).call (.setUserMemoryRegion reg)
      let pt ← initPml4 g
      return { m with pt := pt }
  else some m

/-- `km_mem_init`, without the lists of mapped regions. -/
def kmMemInit (g : Geometry) (p : MonitorPages) (overcommitMemory : Bool) : Option MemState := do
  let m ← kmMemInitReserved g
    { brk := guestMemStartVa
      tbrk := guestMemTopVa
      vmMemRegs := fun _ => MemReg.zero
      pt := PageTables.zero
      kmVvarVdsoSize := 0
      overcommitMemory := overcommitMemory
      hostCalls := [] }
  let m ← kmAddVvarVdsoToGuestAddressSpace g p m
  kmAddCodeToGuestAddressSpace g p m

end KontainMonitor.Mem
