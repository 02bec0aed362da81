import KontainMonitor.Lib.SList
import KontainMonitor.Signal.Queues

/-!
# Pool — vcpus and their reuse (`km_cpu_init.c`, `km_init_guest.c`)

A `km_vcpu_t` is allocated once and never freed.  When its thread exits, `km_vcpu_put` puts it on
the idle list, from which `km_vcpu_get` takes it for the next thread.  The link of that list shares
its storage with `stack_top`, so the list is modelled with its pointers (`Shared`).  A pointer is
the number of the allocation.
-/

namespace KontainMonitor.Vcpus

open Function Transition
open Signal (SigSet SigInfo SignalQueue)

inductive VcpuState
  | parkedIdle
  | starting
  | hypercall
  | hcallInt
  | inGuest
  | paused
  deriving DecidableEq

/-- The union of `stack_top` and `next_idle`. -/
inductive Shared
  | stackTop (gva : Nat)
  | nextIdle (v : Option Nat)
  deriving DecidableEq

def Shared.link : Shared → Option (Option Nat)
  | .stackTop _ => none
  | .nextIdle v => some v

structure Regs where
  rax : Nat
  rbx : Nat
  rcx : Nat
  rdx : Nat
  rsi : Nat
  rdi : Nat
  rsp : Nat
  rbp : Nat
  r8 : Nat
  r9 : Nat
  r10 : Nat
  r11 : Nat
  r12 : Nat
  r13 : Nat
  r14 : Nat
  r15 : Nat
  rip : Nat
  rflags : Nat
  deriving DecidableEq

def Regs.zero : Regs := ⟨0, 0, 0, 0, 0, 0, 0, 0, 0, 0, 0, 0, 0, 0, 0, 0, 0, 0⟩

/-- The bases of the segment registers in `kvm_sregs_t`. -/
structure Sregs where
  cs : Nat
  ss : Nat
  ds : Nat
  es : Nat
  fs : Nat
  gs : Nat
  deriving DecidableEq

def Sregs.zero : Sregs := ⟨0, 0, 0, 0, 0, 0⟩

structure AltStack where
  sp : Nat
  flags : Nat
  size : Nat
  deriving DecidableEq

/-- `mapself_base` and `mapself_size`; only `km_guest_munmap` sets them, to a nonempty range. -/
structure DelayedUnmap where
  base : Nat
  size : Nat
  empty : size = 0 → base = 0
  deriving DecidableEq

def DelayedUnmap.none : DelayedUnmap := ⟨0, 0, fun _ => rfl⟩

/-- The fields of `km_vcpu_t` that the calls of its own thread change.  `signal_link` is the queue that
the vcpu is on and whether its `tqe_prev` is set, which a removal leaves. -/
structure ThreadFields where
  sigmask : SigSet
  sigpending : List SigInfo
  inSigsuspend : Bool
  savedSigmask : SigSet
  signalLink : Option SignalQueue × Bool
  sigaltstack : AltStack
  setChildTid : Nat
  clearChildTid : Nat
  mapself : DelayedUnmap
  deriving DecidableEq

/-- What `calloc` and `km_vcpu_init` leave. -/
def ThreadFields.zero : ThreadFields where
  sigmask := 0
  sigpending := []
  inSigsuspend := false
  savedSigmask := 0
  signalLink := (none, false)
  sigaltstack := ⟨0, 0, 0⟩
  setChildTid := 0
  clearChildTid := 0
  mapself := DelayedUnmap.none

/-- `km_vcpu_t`.  `parked` says that the thread is in the wait of `km_vcpu_stopped`. -/
structure Vcpu where
  vcpuId : Nat
  vcpuThread : Bool
  parked : Bool
  hypercall : Nat
  restart : Nat
  state : VcpuState
  shared : Shared
  guestThr : Nat
  thr : ThreadFields
  regs : Regs
  sregs : Sregs
  fpstate : List (BitVec 8)
  deriving DecidableEq

def Vcpu.calloc : Vcpu where
  vcpuId := 0
  vcpuThread := false
  parked := false
  hypercall := 0
  restart := 0
  state := .parkedIdle
  shared := .stackTop 0
  guestThr := 0
  thr := ThreadFields.zero
  regs := Regs.zero
  sregs := Sregs.zero
  fpstate := []

def kvmMaxVcpus : Nat := 288

/-- The part of `machine` that has to do with vcpus; `km_hcargs` by vcpu id. -/
structure Machine where
  heap : Nat → Vcpu
  allocated : Nat
  vmVcpus : Nat → Option Nat
  idle : Option Nat
  vmVcpuCnt : Nat
  vmVcpuRunCnt : Int
  exitGroup : Bool
  finiSignalled : Bool
  hcargs : Nat → Nat

def Machine.init : Machine where
  heap _ := Vcpu.calloc
  allocated := 0
  vmVcpus _ := none
  idle := none
  vmVcpuCnt := 0
  vmVcpuRunCnt := 0
  exitGroup := false
  finiSignalled := false
  hcargs _ := 0

section

variable (m : Machine)

def Machine.setVcpu (p : Nat) (f : Vcpu → Vcpu) : Machine :=
  { m with heap := update m.heap p (f (m.heap p)) }

def kmVcpuGetTid (p : Nat) : Nat := (m.heap p).vcpuId + 1

/-- `machine.vm_vcpus[i]`; `none` if that is outside of the array. -/
def Machine.vcpuAt (i : Int) : Option (Option Nat) :=
  if 0 ≤ i ∧ i < kvmMaxVcpus then some (m.vmVcpus i.toNat) else none

/-- `km_vcpu_fetch_by_tid`; the inner `none` is NULL, the outer one a read outside of the table. -/
def kmVcpuFetchByTid (tid : Int) : Option (Option Nat) := do
  if 0 < tid ∧ tid < kvmMaxVcpus then
    match ← m.vcpuAt (tid - 1) with
    | some p => return if (m.heap p).state ≠ .parkedIdle then some p else none
    | none => return none
  else return none

/-! ## Getting and putting -/

/-- Which of the host's calls succeed; the floating point state is restored by vcpu id. -/
structure HostLuck where
  calloc : Bool
  vcpuInit : Bool
  pthreadCreate : Bool
  restoreFpstate : Nat → Bool

def Machine.alloc (vcpuId : Nat) : Machine × Nat :=
  ({ m with
      heap := update m.heap m.allocated { Vcpu.calloc with vcpuId := vcpuId }
      allocated := m.allocated + 1 }, m.allocated)

/-- `km_vcpu_get`; the inner `none` is NULL, the outer one a failed assertion. -/
def kmVcpuGet (host : HostLuck) : Option (Machine × Option Nat) :=
  if m.exitGroup then some (m, none)
  else match m.idle with
    | some p =>
      match (m.heap p).shared.link with
      | none => none
      | some rest =>
        let m := { m with idle := rest, vmVcpuRunCnt := m.vmVcpuRunCnt + 1 }
        if (m.heap p).state = .parkedIdle then
          some (m.setVcpu p fun x => { x with state := .starting }, some p)
        else none
    | none =>
      if m.vmVcpuCnt = kvmMaxVcpus then some (m, none)
      else if !host.calloc then some (m, none)
      else
        let (m, p) := m.alloc m.vmVcpuCnt
        if !host.vcpuInit then some (m, none)
        else
          let m := m.setVcpu p fun x => { x with state := .starting }
          some ({ m with
            vmVcpuCnt := m.vmVcpuCnt + 1
            vmVcpuRunCnt := m.vmVcpuRunCnt + 1
            vmVcpus := update m.vmVcpus (m.heap p).vcpuId (some p) }, some p)

/-- `kvm_vcpu_init_sregs`; the address of a vcpu's `km_hcargs` is a function of its id. -/
def kvmVcpuInitSregs (hcargsGva : Nat → Nat) (x : Vcpu) : Vcpu :=
  { x with sregs := { Sregs.zero with fs := x.guestThr, gs := hcargsGva x.vcpuId } }

def kmVcpuRestore (hcargsGva : Nat → Nat) (m : Machine) (tid : Int) (host : HostLuck) :
    Machine × Option Nat :=
  let slot := tid - 1
  if slot < 0 ∨ kvmMaxVcpus ≤ slot then (m, none)
  else
    let slot := slot.toNat
    if (m.vmVcpus slot).isSome then (m, none)
    else
      let (m, p) := m.alloc slot
      let m := m.setVcpu p fun x => { x with state := .starting }
      if !host.vcpuInit then (m, none)
      else
        let m := m.setVcpu p (kvmVcpuInitSregs hcargsGva)
        ({ m with
          vmVcpus := update m.vmVcpus slot (some p)
          vmVcpuRunCnt := m.vmVcpuRunCnt + 1
          vmVcpuCnt := m.vmVcpuCnt + 1 }, some p)

def kmVcpuPut (p : Nat) : Machine :=
  let m := m.setVcpu p fun x =>
    { x with guestThr := 0, state := .parkedIdle, shared := .nextIdle m.idle }
  { m with
    idle := some p
    vmVcpuRunCnt := m.vmVcpuRunCnt - 1
    finiSignalled := m.finiSignalled || m.vmVcpuRunCnt - 1 = 0 }

/-- `km_run_vcpu_thread`; true if the thread was created or signalled. -/
def kmRunVcpuThread (p : Nat) (host : HostLuck) : Machine × Bool :=
  if !(m.heap p).vcpuThread then
    if host.pthreadCreate then
      (m.setVcpu p fun x => { x with state := .hypercall, vcpuThread := true }, true)
    else (m.setVcpu p fun x => { x with state := .starting }, false)
  else (m.setVcpu p fun x => { x with state := .hypercall }, true)

/-! ## Clone -/

def cloneThread : Nat := 0x00010000
def cloneParentSettid : Nat := 0x00100000
def cloneChildCleartid : Nat := 0x00200000
def cloneChildSettid : Nat := 0x01000000

def hasFlag (flags flag : Nat) : Bool := flags &&& flag ≠ 0

def eagain : Int := 11
def einval : Int := 22

structure CloneArgs where
  flags : Nat
  childStack : Nat
  ptid : Nat
  ctid : Nat
  newtls : Nat

/-- What guest memory and the driver decide: whether an address is legitimate (`km_gva_to_kma`),
where `km_hcargs` are, and the driver's stack adjustment. -/
structure GuestEnv where
  legit : Nat → Bool
  hcargsGva : Nat → Nat
  stackAdjustment : Nat

def CloneArgs.fill (a : CloneArgs) (x : Vcpu) : Vcpu :=
  { x with
    thr := { x.thr with
      setChildTid := if hasFlag a.flags cloneChildSettid then a.ctid else x.thr.setChildTid
      clearChildTid := if hasFlag a.flags cloneChildCleartid then a.ctid else x.thr.clearChildTid }
    shared := .stackTop (a.childStack - a.childStack % 8)
    guestThr := a.newtls }

/-- `km_vcpu_clone_to_run`, with the registers of the creating thread. -/
def kmVcpuCloneToRun (env : GuestEnv) (regs : Regs) (stackTop : Nat) (x : Vcpu) : Vcpu :=
  { kvmVcpuInitSregs env.hcargsGva x with
    regs := { regs with rsp := stackTop - env.stackAdjustment } }

def cloneTidWrites (env : GuestEnv) (a : CloneArgs) (m : Machine) (p : Nat) : List (Nat × Nat) :=
  (if hasFlag a.flags cloneParentSettid && env.legit a.ptid then [(a.ptid, kmVcpuGetTid m p)]
    else []) ++
  (if env.legit (m.heap p).thr.setChildTid then
    [((m.heap p).thr.setChildTid, kmVcpuGetTid m p)] else [])

/-- What a call of `km_clone` gives back: the result, the vcpu it used and what it wrote. -/
structure Cloned where
  machine : Machine
  result : Int
  vcpu : Option Nat
  writes : List (Nat × Nat)

def kmClone (env : GuestEnv) (m : Machine) (v : Nat) (a : CloneArgs) (host : HostLuck) :
    Option Cloned := do
  if !hasFlag a.flags cloneThread then none
  else
    let childStack := a.childStack - a.childStack % 8
    if !env.legit ((childStack + 2 ^ 64 - 8) % 2 ^ 64) then return ⟨m, -einval, none, []⟩
    else
      match ← kmVcpuGet m host with
      | (m, none) => return ⟨m, -eagain, none, []⟩
      | (m, some p) =>
        let m := m.setVcpu p a.fill
        let m := m.setVcpu p (kmVcpuCloneToRun env (m.heap v).regs childStack)
        let writes := cloneTidWrites env a m p
        match kmRunVcpuThread m p host with
        | (m, false) => return ⟨kmVcpuPut m p, -eagain, some p, writes⟩
        | (m, true) => return ⟨m, kmVcpuGetTid m p, some p, writes⟩

/-! ## Exit -/

/-- What `km_exit` does to the vcpu: the delayed unmap is done. -/
def kmExit (x : Vcpu) : Vcpu :=
  if 0 < x.thr.mapself.size then { x with thr := { x.thr with mapself := DelayedUnmap.none } }
  else x

/-- `km_vcpu_stopped`, up to its wait. -/
def kmVcpuStopped (p : Nat) : Machine :=
  (kmVcpuPut (m.setVcpu p kmExit) p).setVcpu p fun x => { x with parked := true }

/-- The rest of `km_vcpu_stopped`, once its loop ends. -/
def stoppedWake (p : Nat) : Option Machine :=
  if !(m.heap p).parked then none
  else if !m.exitGroup && (m.heap p).state ≠ .hypercall && (m.heap p).state ≠ .hcallInt then none
  else
    let m := m.setVcpu p fun x => { x with parked := false }
    if m.exitGroup then some (m.setVcpu p fun x => { x with state := .parkedIdle })
    else some m

/-! ## The system -/

/-- The vcpu has a thread that runs. -/
def Machine.inUse (p : Nat) : Bool :=
  p < m.allocated && (m.heap p).state ≠ .parkedIdle && (m.heap p).state ≠ .starting

end

/-- What a thread that runs does to its processor, and the hypercall it makes. -/
structure Executed where
  regs : Regs
  sregs : Sregs
  fpstate : List (BitVec 8)
  hypercall : Nat
  restart : Nat
  hcarg : Nat

/-- The calls, and what threads do otherwise: run, change their fields, and go in and out of the
guest, of hypercalls and of pauses. -/
inductive PoolOp
  | get (host : HostLuck)
  | start (p : Nat) (host : HostLuck)
  | clone (v : Nat) (a : CloneArgs) (host : HostLuck)
  | stopped (p : Nat)
  | wake (p : Nat)
  | act (p : Nat) (f : ThreadFields → ThreadFields)
  | execute (p : Nat) (e : Executed)
  | setState (p : Nat) (state : VcpuState)
  | exitGroup

def poolStep (env : GuestEnv) (m : Machine) : PoolOp → Option Machine
  | .get host => (kmVcpuGet m host).map Prod.fst
  | .start p host =>
    if p < m.allocated ∧ (m.heap p).state = .starting then some (kmRunVcpuThread m p host).1
    else none
  | .clone v a host => if m.inUse v then (kmClone env m v a host).map Cloned.machine else none
  | .stopped p => if m.inUse p ∧ !(m.heap p).parked then some (kmVcpuStopped m p) else none
  | .wake p => stoppedWake m p
  | .act p f =>
    if m.inUse p then some (m.setVcpu p fun x => { x with thr := f x.thr }) else none
  | .execute p e =>
    if m.inUse p then
      some { m.setVcpu p fun x => { x with
          regs := e.regs
          sregs := e.sregs
          fpstate := e.fpstate
          hypercall := e.hypercall
          restart := e.restart } with
        hcargs := update m.hcargs (m.heap p).vcpuId e.hcarg }
    else none
  | .setState p state =>
    if m.inUse p ∧ state ≠ .parkedIdle ∧ state ≠ .starting then
      some (m.setVcpu p fun x => { x with state := state })
    else none
  | .exitGroup => some { m with exitGroup := true }

end KontainMonitor.Vcpus
