import Mathlib.Logic.Function.Basic

/-!
# Registers — the `g` and `G` packets of gdb (`gdb_kvm_x86_64.c`, `km_gdb_stub.c`)

Both packets carry a `struct km_gdb_regs` in hexadecimal.  The stub builds it in the static buffer
`registers`, which other packets use too, and sends what the buffer holds then.
-/

namespace KontainMonitor.Gdb

inductive Gpr
  | rax | rbx | rcx | rdx | rsi | rdi | rbp | rsp | r8 | r9 | r10 | r11 | r12 | r13 | r14 | r15
  deriving DecidableEq

inductive Seg
  | cs | ss | ds | es | fs | gs
  deriving DecidableEq

/-- `struct km_gdb_regs`; `fpu` are the bytes of `fpr` and of the eight words behind it. -/
structure KmGdbRegs where
  gpr : Gpr → BitVec 64
  rip : BitVec 64
  eflags : BitVec 32
  seg : Seg → BitVec 32
  fpu : BitVec 896

structure VcpuRegs where
  gpr : Gpr → BitVec 64
  rip : BitVec 64
  rflags : BitVec 64
  selector : Seg → BitVec 16

/-- The registers that `km_gdb_read_registers` does not copy. -/
def Gpr.left : Gpr → Bool
  | .r12 | .r13 | .r14 | .r15 => true
  | _ => false

/-- `km_gdb_read_registers`, into a buffer that holds `registers`.  The reply to a `g` packet is what the
buffer holds then. -/
def kmGdbReadRegisters (v : VcpuRegs) (registers : KmGdbRegs) : KmGdbRegs :=
  { registers with
    gpr := fun r => if r.left then registers.gpr r else v.gpr r
    rip := v.rip
    eflags := v.rflags.setWidth 32
    seg := fun x => (v.selector x).setWidth 32 }

/-- `km_gdb_write_registers` with what a `G` packet carries, which overwrites the whole struct in
the buffer.  `none`: the assertion about the segments fails. -/
def kmGdbWriteRegisters (v : VcpuRegs) (gregs : KmGdbRegs) : Option VcpuRegs :=
  if gregs.seg .cs = (v.selector .cs).setWidth 32 ∧ gregs.seg .ss = (v.selector .ss).setWidth 32 ∧
      gregs.seg .ds = (v.selector .ds).setWidth 32 ∧ gregs.seg .es = (v.selector .es).setWidth 32 ∧
      gregs.seg .fs = (v.selector .fs).setWidth 32 ∧ gregs.seg .gs = (v.selector .gs).setWidth 32 then
    some { v with gpr := gregs.gpr, rip := gregs.rip, rflags := gregs.eflags.setWidth 64 }
  else none

structure Reports (v : VcpuRegs) (reply : KmGdbRegs) : Prop where
  gpr : ∀ r, reply.gpr r = v.gpr r
  rip : reply.rip = v.rip
  eflags : reply.eflags.setWidth 64 = v.rflags
  seg : ∀ x, reply.seg x = (v.selector x).setWidth 32

variable {v : VcpuRegs} {b b' : KmGdbRegs}

theorem kmGdbReadRegisters_left {r : Gpr} (hr : r.left) :
    (kmGdbReadRegisters v b).gpr r = b.gpr r := if_pos hr

theorem reports_iff : Reports v (kmGdbReadRegisters v b) ↔
    (∀ r, r.left → b.gpr r = v.gpr r) ∧ (v.rflags.setWidth 32).setWidth 64 = v.rflags := by
  constructor
  · intro h
    exact ⟨fun r hr => (kmGdbReadRegisters_left hr).symm.trans (h.gpr r), h.eflags⟩
  rintro ⟨hleft, hflags⟩
  refine ⟨fun r => ?_, rfl, hflags, fun _ => rfl⟩
  by_cases hr : r.left
  · exact (kmGdbReadRegisters_left hr).trans (hleft r hr)
  · exact if_neg hr

/-- Sending the reply back is harmless exactly if the reply is right. -/
theorem write_read_iff : kmGdbWriteRegisters v (kmGdbReadRegisters v b) = some v ↔
    Reports v (kmGdbReadRegisters v b) := by
  have hwrite : kmGdbWriteRegisters v (kmGdbReadRegisters v b) = some { v with
      gpr := (kmGdbReadRegisters v b).gpr
      rflags := (kmGdbReadRegisters v b).eflags.setWidth 64 } :=
    if_pos ⟨rfl, rfl, rfl, rfl, rfl, rfl⟩
  rw [hwrite, Option.some.injEq]
  constructor
  · intro h
    exact ⟨fun r => congrFun (congrArg VcpuRegs.gpr h) r, rfl, congrArg VcpuRegs.rflags h,
      fun _ => rfl⟩
  intro h
  rw [funext h.gpr, h.eflags]

/-- The reply to a `g` packet is right, and may be sent back, if and only if the buffer happens to
hold `r12` to `r15` of the vcpu already.  Two replies are the same if and only if the buffers agree
in these registers and in those of the FPU. -/
theorem registers_reported_iff (v : VcpuRegs) (b b' : KmGdbRegs) :
    (Reports v (kmGdbReadRegisters v b) ∧ kmGdbWriteRegisters v (kmGdbReadRegisters v b) = some v ↔
      (∀ r, r.left → b.gpr r = v.gpr r) ∧ (v.rflags.setWidth 32).setWidth 64 = v.rflags) ∧
    (kmGdbReadRegisters v b = kmGdbReadRegisters v b' ↔
      (∀ r, r.left → b.gpr r = b'.gpr r) ∧ b.fpu = b'.fpu) := by
  refine ⟨by rw [write_read_iff, and_self, reports_iff], fun h => ⟨fun r hr => ?_, ?_⟩, ?_⟩
  · have hreg := congrFun (congrArg KmGdbRegs.gpr h) r
    rwa [kmGdbReadRegisters_left hr, kmGdbReadRegisters_left hr] at hreg
  · exact (congrArg KmGdbRegs.fpu h :)
  rintro ⟨hleft, hfpu⟩
  have hgpr : (kmGdbReadRegisters v b).gpr = (kmGdbReadRegisters v b').gpr := by
    funext r
    show (if r.left then b.gpr r else v.gpr r) = if r.left then b'.gpr r else v.gpr r
    split
    · exact hleft r ‹_›
    · rfl
  simp only [kmGdbReadRegisters] at hgpr ⊢
  rw [hgpr, hfpu]

/-- The buffer at the start, and a vcpu with 5 in `r12`. -/
def zeroBuffer : KmGdbRegs := ⟨fun _ => 0, 0, 0, fun _ => 0, 0⟩

def someVcpu : VcpuRegs := ⟨fun r => if r = .r12 then 5 else 1, 0x401000, 2, fun _ => 8⟩

/-- The first `g` packet reports 0 in `r12`, and a `G` packet with the reply puts it there. -/
theorem r12_lost : (kmGdbReadRegisters someVcpu zeroBuffer).gpr .r12 = 0 ∧
    (kmGdbWriteRegisters someVcpu (kmGdbReadRegisters someVcpu zeroBuffer)).map
      (fun v => v.gpr .r12) = some 0 := by
  decide

end KontainMonitor.Gdb
