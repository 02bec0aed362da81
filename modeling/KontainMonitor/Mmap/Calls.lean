import KontainMonitor.Mmap.Regions

/-!
# Calls — `mmap`, `munmap`, `mprotect`, `mremap` and their kin (`km_mmap.c`)

Each call returns the new state and the value the source returns: an address, 0, or a negative
errno.  `none` means that an assertion failed or that the monitor gave up.
-/

namespace KontainMonitor.Mmap

open Function Mem

def mapFixedNoreplace : BitVec 32 := 0x100000
def mremapMaymove : BitVec 32 := 1
def protGrowsdown : BitVec 32 := 0x01000000
def protGrowsup : BitVec 32 := 0x02000000

/-- Who asks for memory. -/
inductive AllocationType
  | guest
  | monitor
  deriving DecidableEq, Repr

/-! ## Parameters -/

/-- 0, or the negative errno for what is not supported. -/
def mmapCheckParams (addr : Nat) (flags : BitVec 32) (fd : Int) : Nat :=
  if flags &&& mapFixedNoreplace ≠ 0 then negErrno einval
  else if flags &&& mapFixed ≠ 0 ∧ addr = 0 then negErrno eperm
  else if flags &&& mapAnonymous = 0 ∧ fd < 0 then negErrno ebadf
  else 0

def mumapCheckParams (addr size : Nat) : Nat :=
  if addr ≠ roundup addr kmPageSize ∨ size = 0 then negErrno einval else 0

/-! ## Ranges -/

def rangeReg (addr size : Nat) (prot : BitVec 32) (clean : Bool) : Reg :=
  { start := addr
    size := size
    flags := 0
    protection := prot
    kmFlags := { KmFlags.none with clean := clean }
    filename := none
    offset := 0 }

section

variable (g : Geometry) (h : Host) (s : MmapState)

def kmGuestMunmapNolock (addr size : Nat) : Option (MmapState × Nat) :=
  kmMmapBusyRangeApply g h s (rangeReg addr size protNone false) .moveToFree

def kmGuestMprotectNolock (addr size : Nat) (prot : BitVec 32) : Option (MmapState × Nat) :=
  -- allowed on memory under machine.brk
  if u64 (addr + size) ≤ s.mem.brk ∧ guestMemStartVa ≤ addr then
    let c := HostCall.mprotect (kmGvaToKmaNocheck g s.mem addr) size (protectionAdjust prot)
    -- the kernel refuses a range that wraps
    some (s.call c, if 2 ^ 64 ≤ addr + size then negErrno enomem
      else if h.answer s.mem c then 0 else h.failure s.mem c)
  else if ¬ kmMmapBusyCheckContiguous s.busy addr size then some (s, negErrno enomem)
  else do
    let (s, rc) ← kmMmapBusyRangeApply g h s (rangeReg addr size prot false) .mprotect
    return (s, if rc ≠ 0 then negErrno enomem else 0)

def kmGuestMadviseNolock (addr size advise : Nat) : Option (MmapState × Nat) := do
  kmAssert (advise = madvDontneed ∨ advise = madvHugepage ∨ advise = madvWillneed)
  if ¬ kmMmapBusyCheckContiguous s.busy addr size then return (s, negErrno enomem)
  else
    let c := HostCall.madvise (kmGvaToKmaNocheck g s.mem addr) size advise
    return (s.call c, if h.answer s.mem c then 0 else h.failure s.mem c)

def kmGuestMsyncNolock (addr size : Nat) (flag : BitVec 32) : MmapState × Nat :=
  if ¬ kmMmapBusyCheckContiguous s.busy addr size then (s, negErrno enomem)
  else
    let c := HostCall.msync (kmGvaToKmaNocheck g s.mem addr) size flag
    (s.call c, if h.answer s.mem c then 0 else h.failure s.mem c)

/-! ## New regions -/

/-- The region taken from the free list or from below `tbrk`, and the flags it had; or the error. -/
inductive Taken
  | region (s : MmapState) (reg : Reg) (existingFlags : BitVec 32)
  | error (s : MmapState) (e : Nat)

/-- First half of `km_mmap_add_region`: find room for `size` bytes. -/
def takeRegion (size : Nat) : Option Taken :=
  match kmMmapFindFree s.free size with
  | some p =>
    if size < p.reg.size then
      -- free mmap has extra room to be kept in free
      let ok := h.answer s.mem .calloc
      let s := s.call .calloc
      if ok then
        let rest := { p.reg with start := p.reg.start + size, size := p.reg.size - size }
        let s := { s with free := p.left.reverse ++ rest :: p.right }
        some (.region s { p.reg with size := size } p.reg.flags)
      else some (.error s (negErrno enomem))
    else do
      kmAssert (p.reg.size = size)
      return .region { s with free := p.left.reverse ++ p.right } p.reg p.reg.flags
  | none =>
    -- nothing useful in the free list, get fresh memory by moving tbrk down
    let ok := h.answer s.mem .calloc
    let s := s.call .calloc
    if ok then do
      let want := u64 (s.mem.tbrk + 2 ^ 64 - size)
      let (mem, ret) ← kmMemTbrk g h.alloc s.mem want
      let s := { s with mem := mem }
      if ret ≠ want then return .error s ret
      else return .region s (rangeReg ret size 0 false) (mapAnonymous ||| mapPrivate)
    else some (.error s (negErrno enomem))

/-- `km_mmap_change_region_sharing`: the region, or the negative errno. -/
def kmMmapChangeRegionSharing (reg : Reg) (existingFlags desiredFlags : BitVec 32) (hostfd : Int) :
    MmapState × Except Nat Reg :=
  let sharing := mapPrivate ||| mapShared
  if existingFlags &&& sharing ≠ desiredFlags &&& sharing then
    let startKma := (kmGvaToKma g s.mem reg.start).getD 0
    let c := HostCall.mmap startKma reg.size reg.protection (mapFixed ||| desiredFlags) hostfd 0
    let flags := (reg.flags &&& ~~~sharing) ||| (desiredFlags &&& sharing)
    (s.call c, if h.answer s.mem c then .ok { reg with flags := flags } else .error (h.failure s.mem c))
  else (s, .ok reg)

/-- The region as the caller of `km_mmap_add_region` wants it. -/
def Reg.relabelled (reg : Reg) (prot flags : BitVec 32) (type : AllocationType) : Reg :=
  { reg with
    flags := flags
    protection := prot
    kmFlags := { KmFlags.none with monitor := type = .monitor }
    filename := none
    offset := 0 }

def kmMmapAddRegion (size : Nat) (prot flags : BitVec 32) (hostfd : Int) (type : AllocationType) :
    Option (MmapState × Nat) := do
  match ← takeRegion g h s size with
  | .error s e => return (s, e)
  | .region s reg existingFlags =>
    let reg := reg.relabelled prot flags type
    match kmMmapChangeRegionSharing g h s reg existingFlags flags hostfd with
    | (s, .error rc) =>
      let s ← kmMmapInsertFree g h s reg
      return (s, rc)
    | (s, .ok reg) =>
      let s ← kmMmapInsertBusy g s reg
      return (s, reg.start)

/-! ## mmap -/

/-- Last part of `km_guest_mmap_nolock`: put the host mapping of a file, or a fixed mapping, into
the busy regions there. -/
def mapIntoBusy (gva size : Nat) (prot flags : BitVec 32) (fd hostfd offset : Int) :
    Option (MmapState × Nat) := do
  let kma ← kmGvaToKma g s.mem gva
  let c := HostCall.mmap kma size prot (flags ||| mapFixed) hostfd offset
  let ok := h.answer s.mem c
  let failure := h.failure s.mem c
  let s := s.call c
  if ¬ ok then return (s, failure)
  else
    -- glue the underlying regions together
    let (s, rc) ← kmMmapBusyRangeApply g h s (rangeReg gva size prot (hostfd < 0)) .regionCleanConcat
    if rc ≠ 0 then return (s, rc)
    else
      let p ← kmFindRegNolock s.busy gva
      kmAssert (p.reg.start = gva ∧ p.reg.size = size)
      let reg := { p.reg with flags := flags &&& ~~~mapFixed, protection := prot, filename := none }
      let reg := match h.kmGuestfdName fd with
        | some name => { reg with filename := h.realpath name, offset := offset }
        | none => reg
      let p := kmMmapConcat s.recoveryMode { p with reg := reg }
      return ({ s with busy := p.toList }, gva)

def kmGuestMmapNolock (gva size : Nat) (prot flags : BitVec 32) (fd offset : Int)
    (type : AllocationType) : Option (MmapState × Nat) :=
  -- fd is ignored if MAP_ANONYMOUS is set
  let fd := if flags &&& mapAnonymous = mapAnonymous then -1 else fd
  match (if 0 ≤ fd then h.kmFsG2hFd fd else some 0) with
  | none => some (s, negErrno ebadf)
  | some n =>
    let hostfd : Int := if 0 ≤ fd then n else -1
    if flags &&& mapFixed = mapFixed then
      if ¬ kmMmapBusyCheckContiguous s.busy gva size then some (s, negErrno einval)
      else do
        kmAssert (type = .guest)
        mapIntoBusy g h s gva size prot flags fd hostfd offset
    else do
      -- ignore the hint and grab an address range
      let (s, gva) ← kmMmapAddRegion g h s size prot flags hostfd type
      if isErrno gva ∨ fd < 0 then return (s, gva)
      else
        kmAssert (type = .guest)
        mapIntoBusy g h s gva size prot flags fd hostfd offset

def kmGuestMmapImpl (gva size : Nat) (prot flags : BitVec 32) (fd offset : Int)
    (type : AllocationType) : Option (MmapState × Nat) :=
  let ret := mmapCheckParams gva flags fd
  if ret ≠ 0 then some (s, ret)
  else kmGuestMmapNolock g h s gva (roundup size kmPageSize) prot flags fd offset type

def kmGuestMmap (gva size : Nat) (prot flags : BitVec 32) (fd offset : Int) :
    Option (MmapState × Nat) :=
  kmGuestMmapImpl g h s gva size prot flags fd offset .guest

def kmGuestMmapSimpleMonitor (size : Nat) : Option (MmapState × Nat) :=
  kmGuestMmapImpl g h s 0 size (protRead ||| protWrite) (mapPrivate ||| mapAnonymous) (-1) 0 .monitor

def kmGuestMmapSimple (size : Nat) : Option (MmapState × Nat) :=
  kmGuestMmapImpl g h s 0 size (protRead ||| protWrite) (mapPrivate ||| mapAnonymous) (-1) 0 .guest

def monitorReg (gva size : Nat) (protection : BitVec 32) (tag : Option String) : Reg :=
  { start := gva
    size := size
    flags := 0
    protection := protection
    kmFlags := { KmFlags.none with partOfMonitor := true }
    filename := tag
    offset := 0 }

/-- `km_monitor_pages_in_guest`; `ENOMEM` ends the monitor in its callers. -/
def kmMonitorPagesInGuest (gva size : Nat) (protection : BitVec 32) (tag : Option String) :
    Option MmapState :=
  kmMmapInsertBusy g s (monitorReg gva size protection tag)

/-! ## munmap -/

/-- `km_guest_munmap` of a vcpu with stack pointer `stackTop`: a range with the stack in it is only
noted, and unmapped by `km_delayed_munmap`. -/
def kmGuestMunmap (vcpu stackTop addr size : Nat) : Option (MmapState × Nat) :=
  let size := roundup size kmPageSize
  let ret := mumapCheckParams addr size
  if ret ≠ 0 then some (s, ret)
  else if addr ≤ stackTop ∧ stackTop < u64 (addr + size) then do
    kmAssert ((s.mapself vcpu).base = 0 ∧ (s.mapself vcpu).size = 0)
    return ({ s with mapself := update s.mapself vcpu { base := addr, size := size } }, 0)
  else
    kmGuestMunmapNolock g h s addr size

def kmDelayedMunmap (vcpu : Nat) : Option MmapState :=
  if 0 < (s.mapself vcpu).size then do
    let (s, rc) ← kmGuestMunmapNolock g h s (s.mapself vcpu).base (s.mapself vcpu).size
    kmAssert (rc = 0)
    return { s with mapself := update s.mapself vcpu { base := 0, size := 0 } }
  else some s

/-! ## mprotect, madvise and msync -/

def kmGuestMprotect (addr size : Nat) (prot : BitVec 32) : Option (MmapState × Nat) :=
  if prot &&& ~~~(protRead ||| protWrite ||| protExec ||| protGrowsdown ||| protGrowsup) ≠ 0 then
    some (s, negErrno einval)
  else if addr ≠ rounddown addr kmPageSize ∨ roundup size kmPageSize = 0 then
    some (s, negErrno einval)
  else kmGuestMprotectNolock g h s addr (roundup size kmPageSize) prot

def kmGuestMadvise (addr size advise : Nat) : Option (MmapState × Nat) :=
  if advise ≠ madvDontneed ∧ advise ≠ madvHugepage ∧ advise ≠ madvWillneed then
    some (s, negErrno einval)
  else if addr ≠ rounddown addr kmPageSize ∨ roundup size kmPageSize = 0 then
    some (s, negErrno einval)
  else kmGuestMadviseNolock g h s addr (roundup size kmPageSize) advise

/-- The size is not rounded here. -/
def kmGuestMsync (addr size : Nat) (flag : BitVec 32) : MmapState × Nat :=
  if addr ≠ rounddown addr kmPageSize then (s, negErrno einval)
  else kmGuestMsyncNolock g h s addr size flag

/-! ## mremap -/

/-- What is left of a free region without its first `n` bytes. -/
def Reg.trimFront (r : Reg) (n : Nat) : List Reg :=
  if r.size = n then [] else [{ r with start := r.start + n, size := r.size - n }]

/-- Grow a mapping into the free region after it. -/
def mremapGrowInPlace (p : Pos) (oldAddr needed : Nat) : Option (MmapState × Nat) := do
  -- there must be a free region due to the gap in busy
  let donor ← kmMmapFindAddress s.free p.reg.fin
  kmAssert (needed ≤ donor.reg.size)
  let ptr := { p.reg with size := p.reg.size + needed }
  let s := if ptr.kmFlags.clean then
      (kmRegMakeClean g s (rangeReg donor.reg.start needed protWrite false)).1
    else s
  let (s, ptr) := kmMmapMprotectRegion g s ptr
  let free := donor.left.reverse ++ donor.reg.trimFront needed ++ donor.right
  let p := kmMmapConcat s.recoveryMode { p with reg := ptr }
  return ({ s with free := free, busy := p.toList }, oldAddr)

/-- The next busy region is at least `needed` bytes away. -/
def Pos.roomAfter (p : Pos) (needed : Nat) : Bool :=
  match p.right with
  | [] => false
  | next :: _ => needed ≤ u64 (next.start + 2 ^ 64 - p.reg.fin)

def kmMremapGrow (p : Pos) (oldAddr oldSize size : Nat) (mayMove : Bool) :
    Option (MmapState × Nat) := do
  let needed := size - oldSize
  kmAssert (p.reg.ofMonitor = false)
  kmAssert (p.reg.start ≤ oldAddr ∧ oldAddr < p.reg.fin ∧ u64 (oldAddr + oldSize) ≤ p.reg.fin ∧
    oldSize < size)
  if p.reg.fin = u64 (oldAddr + oldSize) ∧ p.roomAfter needed then
    mremapGrowInPlace g s p oldAddr needed
  else if ¬ mayMove then return (s, negErrno enomem)
  else
    let (s, ret) ← kmGuestMmapNolock g h s 0 size p.reg.protection p.reg.flags (-1) 0 .guest
    if isErrno ret then return (s, negErrno enomem)
    else
      let to_ := (kmGvaToKma g s.mem ret).getD 0
      let from_ ← kmGvaToKma g s.mem oldAddr
      let s := s.call (.memcpy to_ from_ oldSize)
      let (s, rc) ← kmGuestMunmapNolock g h s oldAddr oldSize
      -- a failure to unmap here ends the monitor
      if isErrno rc then none else return (s, ret)

def kmMremapShrink (p : Pos) (oldAddr oldSize size : Nat) : Option (MmapState × Nat) := do
  kmAssert (p.reg.start ≤ oldAddr ∧ oldAddr < p.reg.fin ∧ u64 (oldAddr + oldSize) ≤ p.reg.fin)
  let (s, rc) ← kmGuestMunmapNolock g h s (u64 (oldAddr + size)) (oldSize - size)
  return (s, if isErrno rc then negErrno efault else oldAddr)

def kmGuestMremapNolock (oldAddr oldSize size : Nat) (flags : BitVec 32) :
    Option (MmapState × Nat) :=
  match kmMmapFindAddress s.busy oldAddr with
  | none => some (s, negErrno efault)
  | some p =>
    -- the requested map has to be homogeneous
    if p.reg.fin < u64 (oldAddr + oldSize) then some (s, negErrno efault)
    else if p.reg.ofMonitor then some (s, negErrno efault)
    else if oldSize < size then
      kmMremapGrow g h s p oldAddr oldSize size (flags &&& mremapMaymove ≠ 0)
    else kmMremapShrink g h s p oldAddr oldSize size

def kmGuestMremap (oldAddr oldSize size : Nat) (flags : BitVec 32) : Option (MmapState × Nat) :=
  if oldAddr % kmPageSize ≠ 0 ∨ oldSize = 0 ∨ size = 0 ∨ flags &&& ~~~mremapMaymove ≠ 0 then
    some (s, negErrno einval)
  else if roundup oldSize kmPageSize = roundup size kmPageSize then some (s, oldAddr)
  else kmGuestMremapNolock g h s oldAddr (roundup oldSize kmPageSize) (roundup size kmPageSize) flags

/-! ## Start-up -/

/-- `km_mem_init` with the lists of regions: the pages of the monitor that the guest sees are put
into the busy list. -/
def kmMmapInit (p : MonitorPages) (overcommitMemory : Bool) : Option MmapState := do
  let mem ← kmMemInit g p overcommitMemory
  let s : MmapState :=
    { mem := mem
      free := []
      busy := []
      recoveryMode := false
      mapself := fun _ => { base := 0, size := 0 } }
  let s ← (match p.vvarVdso with
    | none => some s
    | some ((vvarBegin, vvarEnd), (vdsoBegin, vdsoEnd)) => do
      let vdsoVa := guestVvarVdsoBaseVa + (vvarEnd - vvarBegin)
      let s ← kmMonitorPagesInGuest g s guestVvarVdsoBaseVa (vvarEnd - vvarBegin) protRead none
      kmMonitorPagesInGuest g s vdsoVa (vdsoEnd - vdsoBegin) protExec none)
  let textSize := p.kmGuestDataStart - p.kmGuestStart
  let s ← kmMonitorPagesInGuest g s guestKmguestmemBaseVa textSize protExec (some "[km_guest_text]")
  kmMonitorPagesInGuest g s (guestKmguestmemBaseVa + textSize) (p.kmGuestEnd - p.kmGuestDataStart)
    protRead (some "[km_guest_data]")

end

end KontainMonitor.Mmap
