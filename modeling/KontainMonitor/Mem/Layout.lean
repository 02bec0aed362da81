import Mathlib.Tactic.Linarith
import Mathlib.Data.Nat.Log
import Mathlib.Data.Nat.ModEq

/-!
# Layout — the guest address space (`km_mem.h`)

The guest sees two zones of virtual addresses.  The bottom zone is mapped one to one onto guest
physical memory, the top zone is shifted up by `GUEST_VA_OFFSET`.  Guest physical memory is cut
into *memory regions* whose sizes double up to the middle of the space and halve after it; region
`idx` is backed by KVM memory slot `idx`, and `memregIdx_le_iff` says which region an address falls
into.
-/

namespace KontainMonitor.Mem

/-! ## Constants -/

def kmPageSize : Nat := 0x1000
def kib : Nat := 0x400
def mib : Nat := 0x100000
def gib : Nat := 0x40000000

def rsvMemStart : Nat := kmPageSize * 32
def rsvMemSize : Nat := kmPageSize * 32

def guestMemStartVa : Nat := 2 * mib
def guestPrivateMemStartVa : Nat := 512 * gib

/-- Ceiling for guest virtual addresses in the build without `KM_HIGH_GVA`. -/
def guestMemTopVa : Nat := 512 * gib - guestMemStartVa

def guestVvarVdsoBaseVa : Nat := guestPrivateMemStartVa
def guestKmguestmemBaseVa : Nat := guestPrivateMemStartVa + 32 * kib
/-- Virtual address space covered by one entry of a PML4, a PDPT and a PD. -/
def pml4eRegion : Nat := 512 * gib
def pdpteRegion : Nat := gib
def pdeRegion : Nat := 2 * mib

/-- The constants above as literals, for the arithmetic. -/
theorem kmPageSize_eq : kmPageSize = 4096 := by decide

theorem gib_eq : gib = 1073741824 := by decide

theorem pdpteRegion_eq : pdpteRegion = 1073741824 := by decide

theorem pdeRegion_eq : pdeRegion = 2097152 := by decide

theorem layout_consts : kmPageSize = 4096 ∧ kib = 1024 ∧ mib = 1048576 ∧ gib = 1073741824 ∧
      guestMemStartVa = 2097152 ∧ guestPrivateMemStartVa = 549755813888 ∧
      guestMemTopVa = 549753716736 ∧ guestVvarVdsoBaseVa = 549755813888 ∧
      guestKmguestmemBaseVa = 549755846656 ∧ pml4eRegion = 549755813888 ∧
      pdpteRegion = 1073741824 ∧ pdeRegion = 2097152 := by
  decide

/-! ## Machine integers and assertions -/

def u64 (x : Nat) : Nat := x % 2 ^ 64

def rounddown (x y : Nat) : Nat := x / y * y

/-- `roundup` of `sys/param.h` on `uint64_t`: the sum wraps. -/
def roundup (x y : Nat) : Nat := u64 (x + (y - 1)) / y * y

/-- `-errno` as the `uint64_t` the memory calls return. -/
def negErrno (e : Nat) : Nat := 2 ^ 64 - e

def enomem : Nat := 12

/-- The values `km_syscall_ok` takes for an error. -/
def isErrno (r : Nat) : Bool := 2 ^ 64 - 4096 < r

/-- `km_assert`: a failed assertion aborts the monitor. -/
def kmAssert (p : Prop) [Decidable p] : Option Unit := if p then some () else none

variable {p : Prop} {i : Int} {a : Nat}

@[simp] theorem kmAssert_pos [Decidable p] (h : p) : kmAssert p = some () := by
  simp [kmAssert, h]

/-- A computation that starts with an assertion only ends if the assertion holds. -/
theorem kmAssert_eq_some [Decidable p] {u : Unit} : kmAssert p = some u ↔ p := by
  by_cases h : p <;> simp [kmAssert, h]

theorem kmAssert_bind_eq_some {α : Type} [Decidable p] {k : Unit → Option α} {a : α} :
    (kmAssert p >>= k) = some a ↔ p ∧ k () = some a := by
  by_cases h : p <;> simp [kmAssert, h]

/-! ## The machine's memory geometry -/

inductive VmType
  | kvm
  | kkm
  deriving DecidableEq, Repr

/-- What `km_machine_setup` fixes: the width of the physical address space (`guest_max_physmem` is
`2^bits`), whether 1GB pages can be used (else guest memory is limited to 2GB), the VM driver, and
the base of guest memory in the monitor. -/
structure Geometry where
  bits : Nat
  pdpe1g : Bool
  vmType : VmType
  kmUserMemBase : Nat
  base_aligned : kmUserMemBase % kmPageSize = 0
  bits_lo : 31 ≤ bits
  bits_hi : bits ≤ 39
  bits_no_1g : pdpe1g = false → bits ≤ 31

namespace Geometry

variable (g : Geometry)

def guestMaxPhysmem : Nat := 2 ^ g.bits
def guestMemZoneSizeVa : Nat := g.guestMaxPhysmem
def guestVaOffset : Nat := guestMemTopVa + guestMemStartVa - g.guestMemZoneSizeVa

end Geometry

/-- Count leading zeroes of a nonzero 64-bit word, as `__builtin_clzl` does. -/
def clzl (x : Nat) : Int := 63 - (Nat.log2 x : Int)

/-- Region index of an address in the bottom half of physical memory; without its assertion. -/
def memIdx (addr : Nat) : Int := 43 - clzl addr

theorem memIdx_eq (addr : Nat) : memIdx addr = (Nat.log2 addr : Int) - 20 := by
  simp only [memIdx, clzl]
  omega

namespace Geometry

variable (g : Geometry)

def guestMidPhysmem : Nat := g.guestMaxPhysmem >>> 1
def midMemIdx : Int := memIdx (g.guestMidPhysmem - 1)

/-- Index of the last 2MB of physical memory, which is never allocated. -/
def lastMemIdx : Int := g.midMemIdx * 2 + 1

end Geometry

/-- Guest virtual to guest physical, without the range check. -/
def gvaToGpaNocheck (g : Geometry) (gva : Nat) : Nat :=
  if gva > g.guestVaOffset then gva - g.guestVaOffset else gva

def gvaToGpa (g : Geometry) (gva : Nat) : Option Nat := do
  kmAssert ((guestMemStartVa - 1 ≤ gva ∧ gva < g.guestMemZoneSizeVa) ∨
    (g.guestVaOffset ≤ gva ∧ gva ≤ guestMemTopVa))
  return gvaToGpaNocheck g gva

def gpaToUpperGva (g : Geometry) (gpa : Nat) : Option Nat := do
  kmAssert (guestMemStartVa ≤ gpa ∧ gpa < g.guestMaxPhysmem)
  return gpa + g.guestVaOffset

/-- The region index of a guest physical address, without the assertions on the way. -/
def memregIdx (g : Geometry) (gpa : Nat) : Int :=
  if gpa > g.guestMidPhysmem then
    g.lastMemIdx - memIdx (u64 (g.guestMaxPhysmem + 2 ^ 64 - gpa - 1))
  else
    memIdx gpa

def gvaToMemregIdx (g : Geometry) (gva : Nat) : Option Int := do
  let addr ← gvaToGpa g gva
  -- `MEM_IDX` asserts that its argument is not zero
  if addr > g.guestMidPhysmem then
    kmAssert (0 < u64 (g.guestMaxPhysmem + 2 ^ 64 - addr - 1))
  else
    kmAssert (0 < addr)
  return memregIdx g addr

/-- First address of region `idx`.  In the top half `memreg_base` and `memreg_top` call each other
once, on an index of the bottom half. -/
def memregBase (g : Geometry) (idx : Int) : Nat :=
  if idx ≤ g.midMemIdx then mib <<< idx.toNat
  else g.guestMaxPhysmem - (mib <<< 1) <<< (g.lastMemIdx - idx).toNat

def memregTop (g : Geometry) (idx : Int) : Nat :=
  if idx ≤ g.midMemIdx then (mib <<< 1) <<< idx.toNat
  else g.guestMaxPhysmem - mib <<< (g.lastMemIdx - idx).toNat

def memregSize (g : Geometry) (idx : Int) : Nat :=
  if idx ≤ g.midMemIdx then mib <<< idx.toNat
  else mib <<< (g.lastMemIdx - idx).toNat

/-! ## Closed forms -/

section ClosedForms

variable (g : Geometry)

theorem Geometry.guestMidPhysmem_eq : g.guestMidPhysmem = 2 ^ (g.bits - 1) := by
  have hlo := g.bits_lo
  have hbits : g.bits = (g.bits - 1) + 1 := by omega
  rw [Geometry.guestMidPhysmem, Geometry.guestMaxPhysmem, Nat.shiftRight_eq_div_pow, hbits]
  simp [pow_succ]

theorem log2_pred_pow {n : Nat} (hn : 1 ≤ n) : Nat.log2 (2 ^ n - 1) = n - 1 := by
  have hpow : 2 ^ n = 2 ^ (n - 1) * 2 := by
    rw [← pow_succ]
    congr 1
    omega
  have hpos : 0 < 2 ^ (n - 1) := Nat.two_pow_pos _
  have hne : 2 ^ n - 1 ≠ 0 := by omega
  have hle : n - 1 ≤ Nat.log2 (2 ^ n - 1) := (Nat.le_log2 hne).2 (by omega)
  have hlt : Nat.log2 (2 ^ n - 1) < n := (Nat.log2_lt hne).2 (by omega)
  omega

theorem Geometry.midMemIdx_eq : g.midMemIdx = (g.bits : Int) - 22 := by
  have hlo := g.bits_lo
  rw [Geometry.midMemIdx, memIdx_eq, Geometry.guestMidPhysmem_eq, log2_pred_pow (by omega)]
  omega

theorem Geometry.lastMemIdx_eq : g.lastMemIdx = 2 * (g.bits : Int) - 43 := by
  rw [Geometry.lastMemIdx, Geometry.midMemIdx_eq]
  omega

theorem mib_shift (k : Nat) : mib <<< k = 2 ^ (20 + k) := by
  rw [Nat.shiftLeft_eq, pow_add]
  rfl

theorem mib_shift_one (k : Nat) : (mib <<< 1) <<< k = 2 ^ (21 + k) := by
  rw [Nat.shiftLeft_eq, pow_add]
  rfl

theorem memregBase_low (h : i ≤ g.midMemIdx) : memregBase g i = 2 ^ (20 + i.toNat) := by
  simp [memregBase, h, mib_shift]

theorem memregBase_high (h : g.midMemIdx < i) :
    memregBase g i = 2 ^ g.bits - 2 ^ (21 + (g.lastMemIdx - i).toNat) := by
  simp [memregBase, not_le.2 h, mib_shift_one, Geometry.guestMaxPhysmem]

theorem memregTop_low (h : i ≤ g.midMemIdx) : memregTop g i = 2 ^ (21 + i.toNat) := by
  simp [memregTop, h, mib_shift_one]

theorem memregTop_high (h : g.midMemIdx < i) :
    memregTop g i = 2 ^ g.bits - 2 ^ (20 + (g.lastMemIdx - i).toNat) := by
  simp [memregTop, not_le.2 h, mib_shift, Geometry.guestMaxPhysmem]

theorem memregSize_low (h : i ≤ g.midMemIdx) : memregSize g i = 2 ^ (20 + i.toNat) := by
  simp [memregSize, h, mib_shift]

theorem memregSize_high (h : g.midMemIdx < i) :
    memregSize g i = 2 ^ (20 + (g.lastMemIdx - i).toNat) := by
  simp [memregSize, not_le.2 h, mib_shift]

theorem Geometry.guestVaOffset_add : g.guestVaOffset + g.guestMaxPhysmem = 2 ^ 39 := by
  have hle : g.guestMaxPhysmem ≤ 2 ^ 39 := Nat.pow_le_pow_right (by decide) g.bits_hi
  have htop : guestMemTopVa + guestMemStartVa = 2 ^ 39 := by decide
  simp only [Geometry.guestVaOffset, Geometry.guestMemZoneSizeVa, htop]
  omega

/-- Guest memory is a whole number of GBs, and the two zones meet only if the offset of the top zone
is zero. -/
theorem Geometry.gibs : ∃ n : Nat, 2 ≤ n ∧ (n = 512 ∨ n ≤ 256) ∧
    g.guestMaxPhysmem = n * 1073741824 ∧ g.guestVaOffset = (512 - n) * 1073741824 := by
  have hlo := g.bits_lo
  have hhi := g.bits_hi
  have hadd := g.guestVaOffset_add
  have hmax : g.guestMaxPhysmem = 2 ^ (g.bits - 30) * 1073741824 := by
    have hsplit : g.bits = (g.bits - 30) + 30 := by omega
    rw [Geometry.guestMaxPhysmem]
    nth_rewrite 1 [hsplit]
    rw [Nat.pow_add]
  have h2 : 2 ^ 1 ≤ 2 ^ (g.bits - 30) := Nat.pow_le_pow_right (by decide) (by omega)
  have h512 : 2 ^ (g.bits - 30) = 512 ∨ 2 ^ (g.bits - 30) ≤ 2 ^ 8 := by
    rcases lt_or_ge g.bits 39 with h | h
    · exact .inr (Nat.pow_le_pow_right (by decide) (by omega))
    have h9 : g.bits - 30 = 9 := by omega
    exact .inl (by rw [h9]; norm_num)
  exact ⟨2 ^ (g.bits - 30), h2, h512, hmax, by omega⟩

theorem Geometry.sizes : ∃ n : Nat, (2 ≤ n ∧ (n = 512 ∨ n ≤ 256) ∧
    g.guestMaxPhysmem = n * 1073741824 ∧ g.guestVaOffset = (512 - n) * 1073741824) ∧
    kmPageSize = 4096 ∧ gib = 1073741824 ∧ guestMemStartVa = 2097152 ∧
    guestMemTopVa = 549753716736 := by
  obtain ⟨n, hn⟩ := g.gibs
  exact ⟨n, hn, by decide⟩

end ClosedForms

/-! ## Which region an address falls into -/

section Regions

variable (g : Geometry)

/-- Consecutive regions touch: region `i` ends where region `i + 1` starts. -/
theorem memregTop_eq (h0 : 0 ≤ i) (hi : i < g.lastMemIdx) :
    memregTop g i = memregBase g (i + 1) := by
  have hmid := g.midMemIdx_eq
  have hlast := g.lastMemIdx_eq
  rcases lt_trichotomy i g.midMemIdx with hlt | heq | hgt
  · rw [memregTop_low g (le_of_lt hlt), memregBase_low g (by omega)]
    congr 1
    omega
  · -- the two halves meet in the middle of physical memory
    have hexp : 21 + (g.lastMemIdx - (i + 1)).toNat = g.bits - 1 := by omega
    have hexp' : 21 + i.toNat = g.bits - 1 := by omega
    have hpow : 2 ^ g.bits = 2 ^ (g.bits - 1) * 2 := by
      rw [← pow_succ]
      congr 1
      omega
    rw [memregTop_low g (le_of_eq heq), memregBase_high g (by omega), hexp, hexp', hpow]
    omega
  rw [memregTop_high g hgt, memregBase_high g (by omega)]
  congr 2
  omega

/-- The size of a region is the distance between its ends. -/
theorem memregBase_add (i : Int) : memregBase g i + memregSize g i = memregTop g i := by
  have hmid := g.midMemIdx_eq
  have hlast := g.lastMemIdx_eq
  have hlo := g.bits_lo
  by_cases h : i ≤ g.midMemIdx
  · rw [memregBase_low g h, memregSize_low g h, memregTop_low g h]
    have hpow : 2 ^ (21 + i.toNat) = 2 ^ (20 + i.toNat) * 2 := by
      rw [← pow_succ]
      congr 1
      omega
    omega
  have h' : g.midMemIdx < i := not_le.1 h
  rw [memregBase_high g h', memregSize_high g h', memregTop_high g h']
  have hpow : 2 ^ (21 + (g.lastMemIdx - i).toNat) = 2 ^ (20 + (g.lastMemIdx - i).toNat) * 2 := by
    rw [← pow_succ]
    congr 1
    omega
  have hle : 2 ^ (21 + (g.lastMemIdx - i).toNat) ≤ 2 ^ g.bits :=
    Nat.pow_le_pow_right (by decide) (by omega)
  omega

theorem memregSize_pos (i : Int) : 0 < memregSize g i := by
  by_cases h : i ≤ g.midMemIdx
  · rw [memregSize_low g h]
    exact Nat.two_pow_pos _
  rw [memregSize_high g (not_le.1 h)]
  exact Nat.two_pow_pos _

theorem memregBase_lt_succ (h0 : 0 ≤ i) (hi : i < g.lastMemIdx) :
    memregBase g i < memregBase g (i + 1) := by
  have h1 := memregBase_add g i
  have h2 := memregTop_eq g h0 hi
  have h3 := memregSize_pos g i
  omega

/-- Region bases are ordered as their indices. -/
theorem memregBase_mono {j : Int} (h0 : 0 ≤ i) (hij : i ≤ j) (hj : j ≤ g.lastMemIdx) :
    memregBase g i ≤ memregBase g j := by
  obtain ⟨n, rfl⟩ : ∃ n : Nat, j = i + n := ⟨(j - i).toNat, by omega⟩
  induction n with
  | zero => simp
  | succ n ih =>
    have hstep : memregBase g (i + n) < memregBase g (i + n + 1) :=
      memregBase_lt_succ g (by omega) (by omega)
    have hidx : i + ((n + 1 : Nat) : Int) = i + n + 1 := by push_cast; omega
    rw [hidx]
    omega

theorem memregBase_one : memregBase g 1 = guestMemStartVa := by
  have hmid := g.midMemIdx_eq
  have hlo := g.bits_lo
  rw [memregBase_low g (by omega)]
  decide

theorem memregBase_last : memregBase g g.lastMemIdx = g.guestMaxPhysmem - guestMemStartVa := by
  have hmid := g.midMemIdx_eq
  have hlast := g.lastMemIdx_eq
  have hlo := g.bits_lo
  rw [memregBase_high g (by omega)]
  simp [Geometry.guestMaxPhysmem, guestMemStartVa, mib]

/-- An address lies at or above the base of region `i` iff its region index is at least `i`. -/
theorem memregIdx_le_iff (h1 : 1 ≤ i) (hi : i ≤ g.lastMemIdx) (hlo : guestMemStartVa - 1 ≤ a)
    (hhi : a ≤ g.guestMaxPhysmem - guestMemStartVa) : i ≤ memregIdx g a ↔ memregBase g i ≤ a := by
  have hmid := g.midMemIdx_eq
  have hlast := g.lastMemIdx_eq
  have hb' := g.bits_hi
  have hconsts := layout_consts
  have hmax : g.guestMaxPhysmem = 2 ^ (g.bits - 1) * 2 := by
    rw [Geometry.guestMaxPhysmem, ← pow_succ]
    congr 1
    omega
  have hmaxle : g.guestMaxPhysmem ≤ 2 ^ 39 := Nat.pow_le_pow_right (by decide) hb'
  have ha0 : a ≠ 0 := by omega
  by_cases hhalf : a > g.guestMidPhysmem
  · -- top half: the index counts down from the end of memory
    have hmidv := g.guestMidPhysmem_eq
    have hwrap : u64 (g.guestMaxPhysmem + 2 ^ 64 - a - 1) = g.guestMaxPhysmem - a - 1 := by
      simp only [u64]
      omega
    have hne : g.guestMaxPhysmem - a - 1 ≠ 0 := by omega
    have hidx : memregIdx g a = g.lastMemIdx - (Nat.log2 (g.guestMaxPhysmem - a - 1) - 20) := by
      simp only [memregIdx, hhalf, if_true, hwrap, memIdx_eq]
    have hiff : i ≤ memregIdx g a ↔
        Nat.log2 (g.guestMaxPhysmem - a - 1) < 21 + (g.lastMemIdx - i).toNat := by
      rw [hidx]
      omega
    rw [hiff, Nat.log2_lt hne]
    by_cases hi' : i ≤ g.midMemIdx
    · have hbase : memregBase g i ≤ 2 ^ (g.bits - 1) := by
        rw [memregBase_low g hi']
        exact Nat.pow_le_pow_right (by decide) (by omega)
      have hpow : 2 ^ (g.bits - 1) ≤ 2 ^ (21 + (g.lastMemIdx - i).toNat) :=
        Nat.pow_le_pow_right (by decide) (by omega)
      constructor
      · intro _
        omega
      intro _
      omega
    rw [memregBase_high g (not_le.1 hi')]
    have hpow : 2 ^ (21 + (g.lastMemIdx - i).toNat) ≤ 2 ^ g.bits :=
      Nat.pow_le_pow_right (by decide) (by omega)
    have hmax' : g.guestMaxPhysmem = 2 ^ g.bits := rfl
    omega
  have hmidv := g.guestMidPhysmem_eq
  have hidx : memregIdx g a = (Nat.log2 a : Int) - 20 := by
    simp only [memregIdx, hhalf, if_false, memIdx_eq]
  have hiff : i ≤ memregIdx g a ↔ 20 + i.toNat ≤ Nat.log2 a := by
    rw [hidx]
    omega
  rw [hiff, Nat.le_log2 ha0]
  by_cases hi' : i ≤ g.midMemIdx
  · rw [memregBase_low g hi']
  -- only the middle of memory itself has an index above `midMemIdx` here
  rw [memregBase_high g (not_le.1 hi')]
  have hmax' : 2 ^ g.bits = 2 ^ (g.bits - 1) * 2 := by
    rw [← hmax]
    rfl
  have hexp : i = g.midMemIdx + 1 ∨ 20 + i.toNat ≥ g.bits := by omega
  rcases hexp with rfl | hge
  · have he1 : 20 + (g.midMemIdx + 1).toNat = g.bits - 1 := by omega
    have he2 : 21 + (g.lastMemIdx - (g.midMemIdx + 1)).toNat = g.bits - 1 := by omega
    rw [he1, he2, hmax']
    omega
  have hle2 : 2 ^ g.bits ≤ 2 ^ (20 + i.toNat) := Nat.pow_le_pow_right (by decide) hge
  have hle3 : 2 ^ (21 + (g.lastMemIdx - i).toNat) ≤ 2 ^ (g.bits - 2) :=
    Nat.pow_le_pow_right (by decide) (by omega)
  have hpow2 : 2 ^ (g.bits - 1) = 2 ^ (g.bits - 2) * 2 := by
    rw [← pow_succ]
    congr 1
    omega
  omega

/-- Region indices run from 0, for the byte below usable memory, to `last_mem_idx`. -/
theorem memregIdx_bounds (hlo : guestMemStartVa - 1 ≤ a)
    (hhi : a ≤ g.guestMaxPhysmem - guestMemStartVa) :
    0 ≤ memregIdx g a ∧ memregIdx g a ≤ g.lastMemIdx := by
  have hlast := g.lastMemIdx_eq
  have hb := g.bits_lo
  have hb' := g.bits_hi
  have hconsts := layout_consts
  have hmaxle : g.guestMaxPhysmem ≤ 2 ^ 39 := Nat.pow_le_pow_right (by decide) hb'
  simp only [memregIdx]
  split
  · have hwrap : u64 (g.guestMaxPhysmem + 2 ^ 64 - a - 1) = g.guestMaxPhysmem - a - 1 := by
      simp only [u64]
      omega
    have hne : g.guestMaxPhysmem - a - 1 ≠ 0 := by omega
    have hge : 20 ≤ Nat.log2 (g.guestMaxPhysmem - a - 1) := (Nat.le_log2 hne).2 (by omega)
    have hlt : Nat.log2 (g.guestMaxPhysmem - a - 1) < g.bits := by
      rw [Nat.log2_lt hne]
      have : g.guestMaxPhysmem = 2 ^ g.bits := rfl
      omega
    rw [hwrap, memIdx_eq]
    omega
  have hne : a ≠ 0 := by omega
  have hge : 20 ≤ Nat.log2 a := (Nat.le_log2 hne).2 (by omega)
  have hlt : Nat.log2 a < g.bits := by
    rw [Nat.log2_lt hne]
    have : g.guestMaxPhysmem = 2 ^ g.bits := rfl
    omega
  rw [memIdx_eq]
  omega

theorem memregIdx_lt_last (hlo : guestMemStartVa - 1 ≤ a)
    (hhi : a < g.guestMaxPhysmem - guestMemStartVa) : memregIdx g a < g.lastMemIdx := by
  have hlast := g.lastMemIdx_eq
  have hb := g.bits_lo
  by_contra hge
  have hbase := (memregIdx_le_iff g (by omega) le_rfl hlo (le_of_lt hhi)).1 (not_lt.1 hge)
  rw [memregBase_last] at hbase
  omega

section

variable (hlo : guestMemStartVa ≤ a) (hhi : a ≤ g.guestMaxPhysmem - guestMemStartVa)
include hlo hhi

theorem memregIdx_pos : 1 ≤ memregIdx g a := by
  have hlast := g.lastMemIdx_eq
  have hbits := g.bits_lo
  rw [memregIdx_le_iff g (by decide) (by omega) (by omega) hhi, memregBase_one]
  exact hlo

/-- The slot of an address starts below it. -/
theorem memregBase_idx_le : memregBase g (memregIdx g a) ≤ a := by
  have hb := memregIdx_bounds g (by omega) hhi
  exact (memregIdx_le_iff g (memregIdx_pos g hlo hhi) hb.2 (by omega) hhi).1 le_rfl

end

theorem memregTop_le_base {u : Int} (hi : 0 ≤ i) (hu : u ≤ g.lastMemIdx) (hlt : i < u) :
    memregTop g i ≤ memregBase g u := by
  rw [memregTop_eq g hi (by omega)]
  exact memregBase_mono g (by omega) (by omega) hu

/-- An address lies in the region of its index. -/
theorem memregIdx_spec (hlo : guestMemStartVa ≤ a) (hhi : a < g.guestMaxPhysmem - guestMemStartVa) :
    1 ≤ memregIdx g a ∧ memregIdx g a < g.lastMemIdx ∧ memregBase g (memregIdx g a) ≤ a ∧
      a < memregTop g (memregIdx g a) := by
  have hbounds := memregIdx_bounds g (by omega) (le_of_lt hhi)
  have h1 := memregIdx_pos g hlo (le_of_lt hhi)
  have h2 : memregIdx g a < g.lastMemIdx := memregIdx_lt_last g (by omega) hhi
  refine ⟨h1, h2, ?_, ?_⟩
  · exact (memregIdx_le_iff g h1 hbounds.2 (by omega) (le_of_lt hhi)).1 le_rfl
  rw [memregTop_eq g (by omega) h2]
  by_contra hge
  have := (memregIdx_le_iff g (by omega : 1 ≤ memregIdx g a + 1) (by omega) (by omega)
    (le_of_lt hhi)).2 (not_lt.1 hge)
  omega

/-! ## Alignment of the regions -/

section

variable (h1 : 1 ≤ i) (hi : i < g.lastMemIdx)
include h1 hi

/-- A region's size is a power of two that divides both of its ends. -/
theorem memregSize_dvd :
    ∃ k : Nat, 1 ≤ k ∧ memregSize g i = 2 ^ (20 + k) ∧ 2 ^ (20 + k) ∣ memregBase g i ∧
      ((i ≤ g.midMemIdx ∧ memregBase g i = 2 ^ (20 + k)) ∨
        (g.midMemIdx < i ∧ memregBase g i = 2 ^ g.bits - 2 ^ (21 + k) ∧ 22 + k ≤ g.bits)) := by
  have hmid := g.midMemIdx_eq
  have hlast := g.lastMemIdx_eq
  by_cases h : i ≤ g.midMemIdx
  · refine ⟨i.toNat, by omega, memregSize_low g h, ?_, .inl ⟨h, memregBase_low g h⟩⟩
    rw [memregBase_low g h]
  have h' : g.midMemIdx < i := not_le.1 h
  refine ⟨(g.lastMemIdx - i).toNat, by omega, memregSize_high g h', ?_,
    .inr ⟨h', memregBase_high g h', by omega⟩⟩
  rw [memregBase_high g h']
  exact Nat.dvd_sub (pow_dvd_pow 2 (by omega)) (pow_dvd_pow 2 (by omega))

theorem memreg_pde_aligned : pdeRegion ∣ memregBase g i ∧ pdeRegion ∣ memregSize g i := by
  rcases memregSize_dvd g h1 hi with ⟨k, hk, hsize, hbase, -⟩
  have hpde : pdeRegion = 2 ^ 21 := by decide
  have hdvd : pdeRegion ∣ 2 ^ (20 + k) := by
    rw [hpde]
    exact pow_dvd_pow 2 (by omega)
  exact ⟨dvd_trans hdvd hbase, hsize ▸ hdvd⟩

/-- Regions of less than 1GB lie in the first or the last GB of physical memory. -/
theorem memreg_small (hs : memregSize g i < gib) :
    memregTop g i ≤ gib ∨ g.guestMaxPhysmem - gib ≤ memregBase g i := by
  rcases memregSize_dvd g h1 hi with ⟨k, hk, hsize, -, hbase⟩
  have hgib : gib = 2 ^ 30 := by decide
  have hk' : 20 + k < 30 := by
    rw [hsize, hgib] at hs
    exact (Nat.pow_lt_pow_iff_right (by decide)).1 hs
  have htop := memregBase_add g i
  have hpow : 2 ^ (21 + k) ≤ 2 ^ 30 := Nat.pow_le_pow_right (by decide) (by omega)
  have hpow' : 2 ^ (21 + k) = 2 ^ (20 + k) * 2 := by
    rw [← pow_succ]
    congr 1
    omega
  rcases hbase with ⟨-, hbase⟩ | ⟨-, hbase, -⟩
  · left
    omega
  right
  rw [hbase, Geometry.guestMaxPhysmem, hgib]
  omega

/-- Regions of 1GB and more are made of whole GBs between the first and the last one. -/
theorem memreg_large (hs : gib ≤ memregSize g i) :
    gib ∣ memregBase g i ∧ gib ∣ memregSize g i ∧ gib ≤ memregBase g i ∧
      memregTop g i ≤ g.guestMaxPhysmem - gib := by
  rcases memregSize_dvd g h1 hi with ⟨k, hk, hsize, hdvd, hbase⟩
  have hgib : gib = 2 ^ 30 := by decide
  have hmid := g.midMemIdx_eq
  have hk' : 30 ≤ 20 + k := by
    rw [hsize, hgib] at hs
    exact (Nat.pow_le_pow_iff_right (by decide)).1 hs
  have hd : gib ∣ 2 ^ (20 + k) := by
    rw [hgib]
    exact pow_dvd_pow 2 hk'
  have htop := memregBase_add g i
  have hpow : 2 ^ (21 + k) = 2 ^ (20 + k) * 2 := by
    rw [← pow_succ]
    congr 1
    omega
  refine ⟨dvd_trans hd hdvd, hsize ▸ hd, ?_, ?_⟩
  · rcases hbase with ⟨-, hbase⟩ | ⟨-, hbase, hkb⟩
    · omega
    have hpow' : 2 ^ (21 + k) * 2 ≤ 2 ^ g.bits := by
      rw [← pow_succ]
      exact Nat.pow_le_pow_right (by decide) (by omega)
    omega
  rcases hbase with ⟨hi', hbase⟩ | ⟨-, hbase, hkb⟩
  · have hexp : memregTop g i ≤ 2 ^ (g.bits - 1) := by
      rw [memregTop_low g hi']
      exact Nat.pow_le_pow_right (by decide) (by omega)
    have hhalf : 2 ^ g.bits = 2 ^ (g.bits - 1) * 2 := by
      rw [← pow_succ]
      congr 1
      omega
    rw [Geometry.guestMaxPhysmem]
    omega
  have hpow' : 2 ^ (21 + k) ≤ 2 ^ g.bits := Nat.pow_le_pow_right (by decide) (by omega)
  rw [Geometry.guestMaxPhysmem]
  omega

/-- Without 1GB pages every region is smaller than 1GB. -/
theorem memregSize_lt_gib_of_no_1g (h : g.pdpe1g = false) : memregSize g i < gib := by
  by_contra hs
  have hb := g.bits_no_1g h
  rcases memreg_large g h1 hi (not_lt.1 hs) with ⟨-, -, hbase, htop⟩
  have hadd := memregBase_add g i
  have hmax : g.guestMaxPhysmem ≤ 2 ^ 31 := Nat.pow_le_pow_right (by decide) hb
  have hgib : gib = 2 ^ 30 := by decide
  omega

end

end Regions

/-! ## Guest addresses -/

section Addresses

variable {g : Geometry}
variable {v : Nat}

theorem gvaToGpaNocheck_low (ha : a < g.guestMaxPhysmem) : gvaToGpaNocheck g a = a := by
  obtain ⟨n, hgibs⟩ := g.gibs
  simp only [gvaToGpaNocheck]
  split <;> omega

theorem gvaToGpa_low (hlo : guestMemStartVa - 1 ≤ a) (ha : a < g.guestMaxPhysmem) :
    gvaToGpa g a = some a := by
  simp only [gvaToGpa, gvaToGpaNocheck_low ha, kmAssert_pos (.inl ⟨hlo, ha⟩ :
    (guestMemStartVa - 1 ≤ a ∧ a < g.guestMemZoneSizeVa) ∨ _)]
  rfl

theorem gvaToGpa_up (hlo : g.guestVaOffset < v) (hhi : v ≤ guestMemTopVa) :
    gvaToGpa g v = some (v - g.guestVaOffset) := by
  simp only [gvaToGpa, gvaToGpaNocheck, hlo, if_true, kmAssert_pos (.inr ⟨le_of_lt hlo, hhi⟩ :
      _ ∨ (g.guestVaOffset ≤ v ∧ v ≤ guestMemTopVa))]
  rfl

/-- No assertion of `gva_to_memreg_idx` fails on a physical address of the usable range. -/
theorem memregIdx_of_gpa (h : gvaToGpa g v = some a) (hlo : guestMemStartVa - 1 ≤ a)
    (hhi : a ≤ g.guestMaxPhysmem - guestMemStartVa) :
    gvaToMemregIdx g v = some (memregIdx g a) := by
  obtain ⟨n, hsizes⟩ := g.sizes
  have h1 : 0 < u64 (g.guestMaxPhysmem + 2 ^ 64 - a - 1) := by
    simp only [u64]
    omega
  have h2 : 0 < a := by omega
  simp only [gvaToMemregIdx, h, Option.bind_eq_bind, Option.bind_some]
  split
  · rw [kmAssert_pos h1]
    rfl
  rw [kmAssert_pos h2]
  rfl

end Addresses

/-! ## The regions tile the memory -/

/-- Region `i` is one of the memory slots, and the physical address lies in it. -/
def InRegion (g : Geometry) (i : Int) (gpa : Nat) : Prop :=
  (1 ≤ i ∧ i < g.lastMemIdx) ∧ memregBase g i ≤ gpa ∧ gpa < memregTop g i

/-- The regions cut the usable memory into consecutive pieces, their sizes are mirrored at the
middle, and `gva_to_memreg_idx` finds the piece of an address from both zones. -/
structure RegionsTile (g : Geometry) : Prop where
  first : memregBase g 1 = guestMemStartVa
  next : ∀ i, 1 ≤ i → i + 1 < g.lastMemIdx → memregTop g i = memregBase g (i + 1)
  last : memregTop g (g.lastMemIdx - 1) = g.guestMaxPhysmem - guestMemStartVa
  size : ∀ i, 1 ≤ i → i < g.lastMemIdx →
    memregBase g i < memregTop g i ∧ memregSize g i = memregTop g i - memregBase g i
  mirror : ∀ i, 1 ≤ i → i < g.lastMemIdx → memregSize g i = memregSize g (g.lastMemIdx - i)
  tile : ∀ gpa, guestMemStartVa ≤ gpa → gpa < g.guestMaxPhysmem - guestMemStartVa →
    (∃! i, InRegion g i gpa) ∧
      gvaToGpa g gpa = some gpa ∧ gvaToGpa g (gpa + g.guestVaOffset) = some gpa
  index : ∀ gva gpa, gvaToGpa g gva = some gpa → guestMemStartVa ≤ gpa →
    gpa < g.guestMaxPhysmem - guestMemStartVa →
    ∀ i, gvaToMemregIdx g gva = some i ↔ InRegion g i gpa

section Tile

variable (g : Geometry)

/-- The address's index is the only region that holds it. -/
theorem inRegion_iff {gpa : Nat} (hlo : guestMemStartVa ≤ gpa)
    (hhi : gpa < g.guestMaxPhysmem - guestMemStartVa) : InRegion g i gpa ↔ i = memregIdx g gpa := by
  constructor
  · rintro ⟨⟨h1, hi⟩, hbase, htop⟩
    have hle : i ≤ memregIdx g gpa :=
      (memregIdx_le_iff g h1 (le_of_lt hi) (by omega) (le_of_lt hhi)).2 hbase
    have hnot : ¬ i + 1 ≤ memregIdx g gpa := by
      rw [memregIdx_le_iff g (by omega) (by omega) (by omega) (le_of_lt hhi),
        ← memregTop_eq g (by omega) hi]
      omega
    omega
  rintro rfl
  rcases memregIdx_spec g hlo hhi with ⟨h1, hi, hbase, htop⟩
  exact ⟨⟨h1, hi⟩, hbase, htop⟩

/-- A region is as large as its mirror image. -/
theorem memregSize_mirror (i : Int) : memregSize g i = memregSize g (g.lastMemIdx - i) := by
  have hmid := g.midMemIdx_eq
  have hlast := g.lastMemIdx_eq
  by_cases h : i ≤ g.midMemIdx
  · rw [memregSize_low g h, memregSize_high g (by omega)]
    congr 2
    omega
  · rw [memregSize_high g (not_le.1 h), memregSize_low g (by omega)]

/-- For every size of guest memory. -/
theorem memregs_tile : RegionsTile g where
  first := memregBase_one g
  next i h1 hi := memregTop_eq g (by omega) (by omega)
  last := by
    have hlast := g.lastMemIdx_eq
    have hb := g.bits_lo
    rw [memregTop_eq g (by omega) (by omega), sub_add_cancel, memregBase_last]
  size i _ _ := by
    have hadd := memregBase_add g i
    have hpos := memregSize_pos g i
    omega
  mirror i _ _ := memregSize_mirror g i
  tile gpa hlo hhi := by
    have hadd := g.guestVaOffset_add
    have hconsts := layout_consts
    refine ⟨⟨memregIdx g gpa, (inRegion_iff g hlo hhi).2 rfl, fun i hi =>
      (inRegion_iff g hlo hhi).1 hi⟩, gvaToGpa_low (by omega) (by omega), ?_⟩
    rw [gvaToGpa_up (by omega) (by omega), Nat.add_sub_cancel]
  index gva gpa hgpa hlo hhi i := by
    rw [memregIdx_of_gpa hgpa (by omega) (le_of_lt hhi), inRegion_iff g hlo hhi,
      Option.some.injEq, eq_comm]

end Tile

end KontainMonitor.Mem
