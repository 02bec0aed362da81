import KontainMonitor.Vcpu.Pool

/-!
# Restore — threads in a snapshot (`km_coredump.c`, `km_snapshot.c`)

A thread is written to a snapshot as two notes, `NT_PRSTATUS` with its registers and `NT_KM_VCPU`
with the rest.  `km_snapshot_restore` reads all notes of the first kind, then all of the second, and
then fills the gaps between the ids with idle vcpus.
-/

namespace KontainMonitor.Vcpus

/-! ## Notes -/

/-- `struct elf_prstatus`: `pr_pid` and `pr_reg`. -/
structure Prstatus where
  pid : Nat
  reg : List Nat

inductive FpFormat
  | none
  | kvmFpu
  | kvmXsave
  | kkmXsave
  deriving DecidableEq

inductive VmType
  | kvm
  | kkm
  deriving DecidableEq

def kmVmdriverFpFormat (vmType : VmType) (xsave : Bool) : FpFormat :=
  match vmType with
  | .kvm => if xsave then .kvmXsave else .kvmFpu
  | .kkm => .kkmXsave

/-- `struct km_nt_vcpu`, and the floating point data that follows it, if there are any. -/
structure NtVcpu where
  vcpuId : Nat
  stackTop : Nat
  guestThr : Nat
  setChildTid : Nat
  clearChildTid : Nat
  sigaltstack : AltStack
  mapself : DelayedUnmap
  hcarg : Nat
  hypercall : Nat
  restart : Nat
  fpFormat : FpFormat
  fpstate : Option (List (BitVec 8))

/-! ## Writing -/

def kmMakeDumpPrstatus (x : Vcpu) : Prstatus where
  pid := x.vcpuId + 1
  reg :=
    [x.regs.r15, x.regs.r14, x.regs.r13, x.regs.r12, x.regs.rbp, x.regs.rbx, x.regs.r11, x.regs.r10,
      x.regs.r9, x.regs.r8, x.regs.rax, x.regs.rcx, x.regs.rdx, x.regs.rsi, x.regs.rdi, x.regs.rax,
      x.regs.rip, x.sregs.cs, x.regs.rflags, x.regs.rsp, x.sregs.ss, x.sregs.fs, x.sregs.gs,
      x.sregs.ds, x.sregs.es, x.sregs.fs, x.sregs.gs]

/-- The word in which the union is, as `stack_top`. -/
def Shared.word : Shared → Nat
  | .stackTop gva => gva
  | .nextIdle _ => 0

/-- `km_core_dump_vcpu`, with the format that the driver uses; `saved` says that its calls for the
floating point state succeed.  KKM marks data that it did not get in the data. -/
def kmCoreDumpVcpu (fpFormat : FpFormat) (saved : Bool) (m : Machine) (x : Vcpu) : NtVcpu where
  vcpuId := x.vcpuId
  stackTop := x.shared.word
  guestThr := x.guestThr
  setChildTid := x.thr.setChildTid
  clearChildTid := x.thr.clearChildTid
  sigaltstack := x.thr.sigaltstack
  mapself := x.thr.mapself
  hcarg := m.hcargs x.vcpuId
  hypercall := x.hypercall
  restart := x.restart
  fpFormat := if saved ∨ fpFormat = .kkmXsave then fpFormat else .none
  fpstate := if saved then some x.fpstate else none

/-- The vcpus that `km_vcpu_apply_all` calls its function for, from index `i` on. -/
def applyAll (m : Machine) : Nat → Nat → List Nat
  | 0, _ => []
  | n + 1, i =>
    match m.vmVcpus i with
    | none => []
    | some p =>
      if (m.heap p).state ≠ .parkedIdle then p :: applyAll m n (i + 1)
      else applyAll m n (i + 1)

def kmVcpuApplyAll (m : Machine) : List Nat := applyAll m kvmMaxVcpus 0

/-- The `NT_PRSTATUS` notes of `km_core_write_notes`, the current thread first. -/
def writePrstatus (m : Machine) (vcpu : Option Nat) : List Prstatus :=
  (vcpu.toList ++ (kmVcpuApplyAll m).filter fun p => some p ≠ vcpu).map fun p =>
    kmMakeDumpPrstatus (m.heap p)

/-- What `km_ss_recover_prstatus` sets; the later assignments win. -/
def Prstatus.fill (n : Prstatus) (x : Vcpu) : Vcpu :=
  let r := fun i => n.reg.getD i 0
  { x with
    regs :=
      { r15 := r 0, r14 := r 1, r13 := r 2, r12 := r 3, rbp := r 4, rbx := r 5, r11 := r 6,
        r10 := r 7, r9 := r 8, r8 := r 9, rcx := r 11, rdx := r 12, rsi := r 13, rdi := r 14,
        rax := r 15, rip := r 16, rflags := r 18, rsp := r 19 }
    sregs := { cs := r 17, ss := r 20, ds := r 23, es := r 24, fs := r 25, gs := r 26 } }

/-- `km_ss_recover_prstatus`; `none` is the exit with an error message. -/
def kmSsRecoverPrstatus (hcargsGva : Nat → Nat) (host : HostLuck) (m : Machine) (n : Prstatus) :
    Option Machine :=
  match kmVcpuRestore hcargsGva m n.pid host with
  | (_, none) => none
  | (m, some p) => some (m.setVcpu p n.fill)

/-- What `km_ss_recover_vcpu_info` sets in the vcpu.  It only warns if the driver does not take the
floating point state. -/
def NtVcpu.fill (n : NtVcpu) (restored : Bool) (x : Vcpu) : Vcpu :=
  { x with
    shared := .stackTop n.stackTop
    guestThr := n.guestThr
    thr := { x.thr with
      setChildTid := n.setChildTid
      clearChildTid := n.clearChildTid
      sigaltstack := n.sigaltstack
      mapself := n.mapself }
    hypercall := n.hypercall
    restart := n.restart
    fpstate := if n.fpFormat = .none ∨ !restored then x.fpstate else n.fpstate.getD x.fpstate }

/-- `km_ss_recover_vcpu_info`; `none` if there is no such vcpu. -/
def kmSsRecoverVcpuInfo (host : HostLuck) (m : Machine) (n : NtVcpu) : Option Machine :=
  match m.vmVcpus n.vcpuId with
  | none => none
  | some p =>
    let m := m.setVcpu p (n.fill (host.restoreFpstate n.vcpuId))
    some { m with hcargs := Function.update m.hcargs n.vcpuId n.hcarg }

/-- The loop of `km_snapshot_restore` that looks for the last vcpu, over the first `n` slots. -/
def topVcpu (m : Machine) (n : Nat) : Int :=
  (List.range n).foldl (fun top i => if (m.vmVcpus i).isSome then (i : Int) else top) (-1)

/-- The body of the loop that fills the gaps; `none` if the new vcpu is NULL. -/
def fillGap (hcargsGva : Nat → Nat) (host : HostLuck) (m : Machine) (i : Nat) : Option Machine :=
  if (m.vmVcpus i).isSome then some m
  else match kmVcpuRestore hcargsGva m (i + 1) host with
    | (_, none) => none
    | (m, some p) => some (kmVcpuPut { m with vmVcpus := Function.update m.vmVcpus i (some p) } p)

def kmSsRecoverVcpus (hcargsGva : Nat → Nat) (host : HostLuck) (m : Machine)
    (prstatus : List Prstatus) (vcpus : List NtVcpu) : Option Machine := do
  let m ← prstatus.foldlM (kmSsRecoverPrstatus hcargsGva host) m
  vcpus.foldlM (kmSsRecoverVcpuInfo host) m

/-- The part of `km_snapshot_restore` that has to do with vcpus. -/
def kmSnapshotRestore (hcargsGva : Nat → Nat) (host : HostLuck) (m : Machine)
    (prstatus : List Prstatus) (vcpus : List NtVcpu) : Option Machine := do
  let m ← kmSsRecoverVcpus hcargsGva host m prstatus vcpus
  (List.range (topVcpu m kvmMaxVcpus).toNat).foldlM (fillGap hcargsGva host) m

end KontainMonitor.Vcpus
