import KontainMonitor.Mem.Breaks

/-!
# Regions — the lists of mapped and free regions (`km_mmap.c`)

`machine.mmaps.busy` lists what is mapped, `machine.mmaps.free` what was unmapped above `tbrk`.
The queues are lists here.  A region that a function works on in place is written as a *position*:
the regions before it, nearest first, the region, and the regions after it.
`kmMmapBusyRangeApply` walks over the busy list while its action rewrites it.
-/

namespace KontainMonitor.Mmap

open Mem

/-! ## Regions -/

structure KmFlags where
  monitor : Bool
  clean : Bool
  partOfMonitor : Bool
  deriving DecidableEq, Repr

def KmFlags.none : KmFlags := { monitor := false, clean := false, partOfMonitor := false }

structure Reg where
  start : Nat
  size : Nat
  flags : BitVec 32
  protection : BitVec 32
  kmFlags : KmFlags
  filename : Option String
  offset : Int
  deriving DecidableEq, Repr

def Reg.fin (r : Reg) : Nat := u64 (r.start + r.size)

/-- Regions that belong to the monitor are not the payload's to change. -/
def Reg.ofMonitor (r : Reg) : Bool := r.kmFlags.monitor || r.kmFlags.partOfMonitor

/-- A region on which a function works: `left` has the nearest region first. -/
structure Pos where
  left : List Reg
  reg : Reg
  right : List Reg

def Pos.toList (p : Pos) : List Reg := p.left.reverse ++ p.reg :: p.right

/-- The part of `km_vcpu_t` that delayed unmapping uses. -/
structure MapSelf where
  base : Nat
  size : Nat
  deriving DecidableEq, Repr

structure MmapState where
  mem : MemState
  free : List Reg
  busy : List Reg
  recoveryMode : Bool
  mapself : Nat → MapSelf

/-! ## The host -/

def einval : Nat := 22
def eperm : Nat := 1
def ebadf : Nat := 9
def efault : Nat := 14

def madvWillneed : Nat := 3
def madvDontneed : Nat := 4
def madvHugepage : Nat := 14

/-- The errors that the host may report. -/
abbrev Errno := { e : Nat // 0 < e ∧ e < 4096 }

/-- What the host answers during one call.  `ok n c` is the answer to call `c`, which is the
`n`-th one of the monitor; the other fields are what the file system layer knows about a guest fd. -/
structure Host where
  alloc : Int → AllocOutcome
  ok : Nat → HostCall → Bool
  errno : Nat → HostCall → Errno
  kmFsG2hFd : Int → Option Nat
  kmGuestfdName : Int → Option String
  realpath : String → Option String
  kmGuestfdName_neg : ∀ fd, fd < 0 → kmGuestfdName fd = none

def maxRange : Nat := 2 ^ 47

/-- `mmap` rejects addresses and offsets that are not page aligned, and empty mappings. -/
def wellFormedCall : HostCall → Bool
  | .mmap addr len _ _ _ offset =>
    addr % kmPageSize = 0 ∧ len ≠ 0 ∧ offset % (kmPageSize : Int) = 0
  | .mprotect _ len _ | .madvise _ len _ | .msync _ len _ => len ≤ maxRange
  | _ => true

def malformedErrno : HostCall → Nat
  | .mprotect .. | .msync .. => enomem
  | .madvise addr len _ => if addr + len < 2 ^ 64 then enomem else einval
  | _ => einval

section

variable (g : Geometry) (h : Host) (s : MmapState)

def Host.answer (m : MemState) (c : HostCall) : Bool :=
  wellFormedCall c && h.ok m.hostCalls.length c

/-- The errno of a call that failed, as a `km_gva_t`. -/
def Host.failure (m : MemState) (c : HostCall) : Nat :=
  negErrno (if wellFormedCall c then (h.errno m.hostCalls.length c).1 else malformedErrno c)

def MmapState.call (c : HostCall) : MmapState := { s with mem := s.mem.call c }

/-! ## Lookup -/

/-- First element that satisfies `p`, with what stands before and after it. -/
def findPos (p : Reg → Bool) : List Reg → List Reg → Option Pos
  | _, [] => none
  | left, r :: right =>
    if p r then some { left := left, reg := r, right := right } else findPos p (r :: left) right

/-- `km_mmap_find_free`: any free region of at least `size` bytes. -/
def kmMmapFindFree (free : List Reg) (size : Nat) : Option Pos :=
  findPos (fun r => size ≤ r.size) [] free

/-- `km_mmap_find_address`: the first region that does not end at or before the address, if it
contains the address. -/
def kmMmapFindAddress (list : List Reg) (address : Nat) : Option Pos :=
  (findPos (fun r => ¬ r.fin ≤ address) [] list).filter fun p => p.reg.start ≤ address

def kmFindRegNolock (busy : List Reg) (gva : Nat) : Option Pos :=
  findPos (fun r => r.start ≤ gva ∧ gva < r.fin) [] busy

/-! ## Merging -/

def okToConcat (recoveryMode : Bool) (left right : Reg) : Bool :=
  if recoveryMode then false
  else if left.filename ≠ right.filename then false
  else left.fin = right.start ∧ left.protection = right.protection ∧ left.flags = right.flags ∧
    left.kmFlags = right.kmFlags

def concatLeft (recoveryMode : Bool) (p : Pos) : Pos :=
  match p.left with
  | [] => p
  | l :: ls =>
    if okToConcat recoveryMode l p.reg then
      { p with left := ls, reg := { p.reg with start := l.start, size := u64 (p.reg.size + l.size) } }
    else p

def concatRight (recoveryMode : Bool) (p : Pos) : Pos :=
  match p.right with
  | [] => p
  | r :: rs =>
    if okToConcat recoveryMode p.reg r then
      { p with right := rs, reg := { p.reg with size := u64 (p.reg.size + r.size) } }
    else p

/-- `km_mmap_concat`: the region stays, the neighbours it absorbs go. -/
def kmMmapConcat (recoveryMode : Bool) (p : Pos) : Pos :=
  concatRight recoveryMode (concatLeft recoveryMode p)

/-! ## Protection -/

def protectionAdjust (prot : BitVec 32) : BitVec 32 :=
  if prot &&& protWrite = protWrite then prot ||| protRead else prot

def kmRegMakeClean (reg : Reg) : MmapState × Reg :=
  if reg.protection ≠ protNone ∧ reg.kmFlags.clean = false ∧ reg.filename = none then
    (s.call (.madvise (kmGvaToKmaNocheck g s.mem reg.start) reg.size madvDontneed),
      { reg with kmFlags := { reg.kmFlags with clean := true } })
  else (s, reg)

/-- `km_mmap_mprotect_region`; a failing host `mprotect` is only warned about. -/
def kmMmapMprotectRegion (reg : Reg) : MmapState × Reg :=
  let s := if reg.kmFlags.partOfMonitor then s
    else s.call (.mprotect (kmGvaToKmaNocheck g s.mem reg.start) reg.size
      (protectionAdjust reg.protection))
  kmRegMakeClean g s reg

/-! ## Inserting -/

/-- The place for `reg` in a list sorted by start; overlaps are assertion failures. -/
def insertPos (reg : Reg) : List Reg → List Reg → Option Pos
  | left, [] => some { left := left, reg := reg, right := [] }
  | left, p :: right =>
    if reg.start < p.start then do
      kmAssert (reg.fin ≤ p.start)
      return { left := left, reg := reg, right := p :: right }
    else do
      kmAssert (p.start < reg.start ∧ p.fin ≤ reg.start)
      insertPos reg (p :: left) right

/-- `km_mmap_insert`: the list with `reg` in it, and the protection of `reg` applied. -/
def kmMmapInsert (reg : Reg) (list : List Reg) : Option (MmapState × Pos) := do
  let p ← insertPos reg [] list
  let (s, reg) := kmMmapMprotectRegion g s reg
  return (s, { p with reg := reg })

def kmMmapInsertBusy (reg : Reg) : Option MmapState := do
  let (s, p) ← kmMmapInsert g s reg s.busy
  return { s with busy := (kmMmapConcat s.recoveryMode p).toList }

/-- The attributes of a region that becomes free. -/
def Reg.cleared (reg : Reg) : Reg :=
  { reg with
    protection := protNone
    flags := 0
    filename := none
    offset := 0
    kmFlags := { reg.kmFlags with clean := false } }

/-- The free list after an insertion: the lowest region is dropped, and `tbrk` moves up over it,
whatever `km_mem_tbrk` returns. -/
def settleFree (p : Pos) : Option MmapState :=
  if p.reg.start = s.mem.tbrk then do
    let (mem, _) ← kmMemTbrk g h.alloc s.mem p.reg.fin
    return { s with mem := mem, free := p.left.reverse ++ p.right }
  else
    some { s with free := p.toList }

def kmMmapInsertFree (reg : Reg) : Option MmapState := do
  let (s, p) ← kmMmapInsert g s reg.cleared s.free
  settleFree g h s (kmMmapConcat s.recoveryMode p)

/-! ## Walking over a range of the busy list -/

/-- The actions of `km_mmap_busy_range_apply`. -/
inductive Action
  | mprotect
  | moveToFree
  | regionCleanConcat
  deriving DecidableEq, Repr

def kmMmapMoveToFree (reg : Reg) : Option MmapState :=
  if reg.flags &&& mapShared ≠ 0 ∨ reg.filename ≠ none then
    let startKma := (kmGvaToKma g s.mem reg.start).getD 0
    let newFlags := (reg.flags &&& ~~~mapShared) ||| mapPrivate ||| mapAnonymous
    let c := HostCall.mmap startKma reg.size reg.protection (newFlags ||| mapFixed) (-1) 0
    let reg := if h.answer s.mem c then { reg with flags := newFlags } else reg
    kmMmapInsertFree g h (s.call c) reg
  else
    kmMmapInsertFree g h s reg

def kmMmapRegionClean (mreg reg : Reg) : MmapState × Reg :=
  let reg := { reg with flags := BitVec.allOnes 32 }
  let (s, reg) := if mreg.kmFlags.clean then kmRegMakeClean g s reg else (s, reg)
  (s, { reg with offset := 0, filename := none })

/-- A walk: the regions passed, nearest first, and those still to visit.  The state's own busy list
is not read meanwhile. -/
structure Walk where
  state : MmapState
  left : List Reg
  right : List Reg

def Walk.done (w : Walk) : MmapState := { w.state with busy := w.left.reverse ++ w.right }

/-- The two parts of a region cut in two; file offsets follow. -/
def Reg.splitAt (r : Reg) (cut : Nat) : Reg × Reg :=
  ({ r with size := cut - r.start },
    { r with
      start := cut
      size := r.size - (cut - r.start)
      offset := if r.filename ≠ none then r.offset + ((cut - r.start : Nat) : Int) else r.offset })

/-- Apply the action to a region inside of the range; `last` if the walk ends after it. -/
def applyAction (action : Action) (mreg : Reg) (w : Walk) (reg : Reg) (right : List Reg)
    (last : Bool) : Option (Walk ⊕ (MmapState × Nat)) := do
  -- fully within the range
  kmAssert (mreg.start ≤ reg.start ∧ reg.fin ≤ mreg.fin)
  let reg := { reg with protection := mreg.protection }
  match action with
  | .moveToFree =>
    let s ← kmMmapMoveToFree g h w.state reg
    let w : Walk := { state := s, left := w.left, right := right }
    return if last then .inr (w.done, 0) else .inl w
  | .mprotect =>
    let (s, reg) := kmMmapMprotectRegion g w.state reg
    let p := kmMmapConcat s.recoveryMode { left := w.left, reg := reg, right := right }
    let w : Walk := { state := s, left := p.reg :: p.left, right := p.right }
    return if last then .inr (w.done, 0) else .inl w
  | .regionCleanConcat =>
    let (s, reg) := kmMmapRegionClean g w.state mreg reg
    let p := kmMmapConcat s.recoveryMode { left := w.left, reg := reg, right := right }
    let w : Walk := { state := s, left := p.reg :: p.left, right := p.right }
    return if last then .inr (w.done, 0) else .inl w

/-- One round of the loop of `km_mmap_busy_range_apply`; the result is 0 or a negative errno. -/
def rangeStep (action : Action) (mreg : Reg) (w : Walk) : Option (Walk ⊕ (MmapState × Nat)) :=
  match w.right with
  | [] => some (.inr (w.done, 0))
  | reg :: right =>
    let skip : Walk := { w with left := reg :: w.left, right := right }
    if reg.fin ≤ mreg.start then some (.inl skip)
    else if mreg.fin ≤ reg.start then some (.inr (w.done, 0))
    else if reg.ofMonitor then some (.inl skip)
    else if reg.start < mreg.start then
      -- overlaps on the start: the left part stays, the right part is next
      let ok := h.answer w.state.mem .calloc
      let w := { w with state := w.state.call .calloc }
      if ok then
        let (a, b) := reg.splitAt mreg.start
        some (.inl { w with left := a :: w.left, right := b :: right })
      else some (.inr (w.done, negErrno enomem))
    else if mreg.fin < reg.fin then
      -- overlaps on the end: nothing after this region
      let ok := h.answer w.state.mem .calloc
      let w := { w with state := w.state.call .calloc }
      if ok then
        let (a, b) := reg.splitAt mreg.fin
        applyAction g h action mreg w a (b :: right) true
      else some (.inr (w.done, negErrno enomem))
    else
      -- a walk that ends with the list ends in the next round
      applyAction g h action mreg w reg right false

def kmMmapBusyRangeApply (mreg : Reg) (action : Action) : Option (MmapState × Nat) :=
  Loop.run (rangeStep g h action mreg) (2 * s.busy.length + 3)
    { state := s, left := [], right := s.busy }

end

/-- `km_mmap_busy_check_contiguous`, with what it carries through the list. -/
def checkContiguousFrom (addr size : Nat) (lastEnd : Nat) : List Reg → Bool
  | [] => lastEnd ≠ 0
  | reg :: rest =>
    if reg.fin < addr then checkContiguousFrom addr size lastEnd rest
    else if u64 (addr + size) ≤ reg.start then u64 (addr + size) ≤ lastEnd
    else if (lastEnd ≠ 0 ∧ lastEnd ≠ reg.start) ∨ (lastEnd = 0 ∧ addr < reg.start) ∨
        reg.ofMonitor then false
    else checkContiguousFrom addr size reg.fin rest

/-- True where the source returns 0. -/
def kmMmapBusyCheckContiguous (busy : List Reg) (addr size : Nat) : Bool :=
  checkContiguousFrom addr size 0 busy

end KontainMonitor.Mmap
