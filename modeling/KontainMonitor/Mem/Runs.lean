import KontainMonitor.Mem.Breaks

/-!
# Runs — guest memory after any sequence of `brk` and `tbrk` calls

`kmMemInit` establishes `MemInv`, the calls keep it, so it holds after every sequence of calls.  Two
results are read off: who owns which memory slot, and that the three descriptions of guest memory
(page tables, KVM slots, address arithmetic) agree.
-/

namespace KontainMonitor.Mem

open Function Transition

/-! ## Start-up -/

variable {g : Geometry} {m : MemState} {gva : Nat}
variable {op : MemOp}

theorem setPtes_wf {pt : PageTables} (h : TablesWf g pt) (virtaddr physaddr n : Nat) :
    TablesWf g (setPtes virtaddr physaddr n pt) :=
  ⟨h.pml4_zero, h.pdpt0_zero, h.pdpt0_last, h.clean⟩

/-- What `km_mem_init` leaves: the two zones are empty, only reserved slots are plugged. -/
structure Fresh (g : Geometry) (m : MemState) : Prop where
  brk : m.brk = guestMemStartVa
  tbrk : m.tbrk = guestMemTopVa
  unplugged : ∀ i, 1 ≤ i → i < 41 → m.vmMemRegs i = MemReg.zero
  tables : g.vmType = .kvm → TablesWf g m.pt

theorem kmMemInitReserved_spec (g : Geometry) (hbrk : m.brk = guestMemStartVa)
    (htbrk : m.tbrk = guestMemTopVa) (hregs : ∀ i, m.vmMemRegs i = MemReg.zero) :
    ∃ m', kmMemInitReserved g m = some m' ∧ Fresh g m' := by
  by_cases hk : g.vmType = .kvm
  · rcases initPml4_spec g with ⟨pt, hpt, hwf⟩
    have h1 : rsvMemSize % kmPageSize = 0 := by decide
    have h2 : rsvMemStart % kmPageSize = 0 := by decide
    simp only [kmMemInitReserved, hk, if_true, kmGuestPageMalloc, h1, h2, ne_eq, not_true_eq_false,
      or_self, if_false, Bool.false_eq_true, hpt]
    refine ⟨_, rfl, hbrk, htbrk, ?_, fun _ => hwf⟩
    intro i hi1 hi2
    have hne : i ≠ kmRsrvMemslot := by
      simp only [kmRsrvMemslot]
      omega
    simp only [MemState.setReg, MemState.call, update_of_ne hne, hregs]
  exact ⟨m, by simp [kmMemInitReserved, hk], hbrk, htbrk, fun i _ _ => hregs i,
    fun h => absurd h hk⟩

theorem kmAddVvarVdso_spec (p : MonitorPages) (h : Fresh g m) :
    ∃ m', kmAddVvarVdsoToGuestAddressSpace g p m = some m' ∧ Fresh g m' := by
  cases hv : p.vvarVdso with
  | none => exact ⟨m, by simp [kmAddVvarVdsoToGuestAddressSpace, hv], h⟩
  | some r =>
    obtain ⟨⟨vvarBegin, vvarEnd⟩, ⟨vdsoBegin, vdsoEnd⟩⟩ := r
    have hadj : vvarEnd = vdsoBegin := p.vvarVdso_adjacent _ hv
    simp only [kmAddVvarVdsoToGuestAddressSpace, hv, kmAssert_pos hadj]
    refine ⟨_, rfl, h.brk, h.tbrk, ?_, ?_⟩
    · intro i hi1 hi2
      have hne : i ≠ kmRsrvVdsoslot := by
        simp only [kmRsrvVdsoslot]
        omega
      simp only [MemState.setReg, MemState.call, update_of_ne hne]
      exact h.unplugged i hi1 hi2
    intro hk
    simp only [hk, if_true]
    exact setPtes_wf (h.tables hk) _ _ _

theorem kmAddCode_spec (p : MonitorPages) (h : Fresh g m) :
    ∃ m', kmAddCodeToGuestAddressSpace g p m = some m' ∧ Fresh g m' := by
  simp only [kmAddCodeToGuestAddressSpace, kmAssert_pos p.kmGuestStart_aligned]
  refine ⟨_, rfl, h.brk, h.tbrk, ?_, ?_⟩
  · intro i hi1 hi2
    have hne : i ≠ kmRsrvKmguestmemSlot := by
      simp only [kmRsrvKmguestmemSlot]
      omega
    simp only [MemState.setReg, MemState.call, update_of_ne hne]
    exact h.unplugged i hi1 hi2
  intro hk
  simp only [hk, if_true]
  exact setPtes_wf (h.tables hk) _ _ _

/-- A fresh machine owns no slot of guest memory. -/
theorem Fresh.inv (h : Fresh g m) : MemInv g m := by
  obtain ⟨n, hsizes⟩ := g.sizes
  have hlast := g.lastMemIdx_eq
  have hb' := g.bits_hi
  have hpa : m.tbrkPa g = g.guestMaxPhysmem - guestMemStartVa := by
    simp only [MemState.tbrkPa, h.tbrk]
    omega
  have hl : memregIdx g (m.brk - 1) = 0 := by
    have hbnd := memregIdx_bounds g (a := m.brk - 1) (by rw [h.brk]) (by rw [h.brk]; omega)
    have hiff := memregIdx_le_iff g (i := 1) (a := m.brk - 1) (by decide) (by omega)
      (by rw [h.brk]) (by rw [h.brk]; omega)
    rw [memregBase_one, h.brk] at hiff
    rw [h.brk] at hbnd ⊢
    omega
  have hu : memregIdx g (m.tbrkPa g) = g.lastMemIdx := by
    have hbnd := memregIdx_bounds g (a := m.tbrkPa g) (by omega) (le_of_eq hpa)
    have hiff := memregIdx_le_iff g (by omega) le_rfl
      (by omega) (le_of_eq hpa)
    rw [memregBase_last] at hiff
    have := hiff.2 (le_of_eq hpa.symm)
    omega
  have hnone : ∀ b i, ¬ usedUpTo g 0 g.lastMemIdx b i := by
    intro b i
    cases b <;> simp only [usedUpTo, if_true, if_false, Bool.false_eq_true] <;> omega
  refine ⟨le_of_eq h.brk.symm, by rw [h.tbrk]; omega, le_of_eq h.tbrk, ?_, ?_⟩
  · rw [hpa, h.brk, gib_eq]
    omega
  rw [hl, hu]
  refine ⟨fun b i hi => absurd hi (hnone b i), fun b i hi => absurd hi (hnone b i), ?_, ?_⟩
  · intro i hi1 hi2 _
    rw [h.unplugged i hi1 (by omega)]
    exact ⟨rfl, rfl⟩
  intro hk
  refine ⟨h.tables hk, fun b i a hi => absurd hi (hnone b i), ?_⟩
  intro b a hz ha
  exfalso
  rw [hpa, h.brk] at ha
  cases b <;> simp only [inZone, presentUpTo, if_true, if_false, Bool.false_eq_true] at hz ha <;>
    omega

theorem kmMemInit_spec (g : Geometry) (p : MonitorPages) (overcommitMemory : Bool) :
    ∃ m, kmMemInit g p overcommitMemory = some m ∧ Fresh g m := by
  rcases kmMemInitReserved_spec g
    (m := { brk := guestMemStartVa
            tbrk := guestMemTopVa
            vmMemRegs := fun _ => MemReg.zero
            pt := PageTables.zero
            kmVvarVdsoSize := 0
            overcommitMemory := overcommitMemory
            hostCalls := [] }) rfl rfl (fun _ => rfl) with ⟨m1, h₁, hf1⟩
  rcases kmAddVvarVdso_spec p hf1 with ⟨m2, h₂, hf2⟩
  rcases kmAddCode_spec p hf2 with ⟨m3, h₃, hf3⟩
  refine ⟨m3, ?_, hf3⟩
  simp only [kmMemInit, h₁, h₂, do_some]
  exact h₃

/-! ## Sequences of calls -/

/-- A call on one of the breaks, with what the host answers when regions are plugged. -/
inductive MemOp
  | brk (host : Int → AllocOutcome) (arg : Nat)
  | tbrk (host : Int → AllocOutcome) (arg : Nat)

def MemOp.call (g : Geometry) (m : MemState) : MemOp → Option (MemState × Nat)
  | .brk host arg => kmMemBrk g host m arg
  | .tbrk host arg => kmMemTbrk g host m arg

/-- Arguments that neither zone's arithmetic rejects by an assertion. -/
def MemOp.InRange (g : Geometry) : MemOp → Prop
  | .brk _ arg => guestMemStartVa ≤ arg ∧ arg < 2 ^ 64
  | .tbrk _ arg => arg = 0 ∨ (g.guestVaOffset < arg ∧ arg < 2 ^ 64)

/-- The machine after start-up and a sequence of calls; `none` if an assertion failed. -/
def memAfter (g : Geometry) (p : MonitorPages) (overcommitMemory : Bool) (ops : List MemOp) :
    Option MemState := do
  let m ← kmMemInit g p overcommitMemory
  runCalls (fun m op => (MemOp.call g m op).map Prod.fst) m ops

/-- A call moves its break to the argument and returns it, or it moves nothing and returns a value
that is no error, or it fails and moves nothing. -/
theorem MemOp.call_spec (h : MemInv g m) (hop : op.InRange g) :
    ∃ m' r, op.call g m = some (m', r) ∧ MemInv g m' ∧ SameReserved g m m' ∧
      (isErrno r → m'.brk = m.brk ∧ m'.tbrk = m.tbrk) := by
  have hconsts := layout_consts
  -- results that are breaks are far below the error values
  have hsmall : ∀ r, r ≤ guestMemTopVa → isErrno r ≠ true := by
    intro r hr
    simp only [isErrno, ne_eq, decide_eq_true_eq]
    omega
  have hbrk : ∀ m', MemInv g m' → m'.brk ≤ guestMemTopVa := by
    intro m' h'
    obtain ⟨n, hgibs⟩ := g.gibs
    have := h'.brk_hi.1
    omega
  cases op with
  | brk host arg =>
    rcases kmMemBrk_spec host h hop.1 with ⟨m', r, hcall, hinv, hrsv, ht, hres⟩
    refine ⟨m', r, hcall, hinv, hrsv, fun he => ?_⟩
    rcases hres with ⟨hr, hb⟩ | ⟨-, hb⟩
    · exact absurd he (hsmall r (hr ▸ hb ▸ hbrk m' hinv))
    · exact ⟨hb, ht⟩
  | tbrk host arg =>
    rcases kmMemTbrk_spec host h (hop.imp_right And.left) with ⟨m', r, hcall, hinv, hrsv, hb, hres⟩
    refine ⟨m', r, hcall, hinv, hrsv, fun he => ?_⟩
    rcases hres with ⟨-, -, ht⟩ | ⟨hr, ht⟩ | ⟨-, ht⟩
    · exact ⟨hb, ht⟩
    · exact absurd he (hsmall r (hr ▸ ht ▸ hinv.tbrk_hi))
    · exact ⟨hb, ht⟩

theorem memAfter_spec (g : Geometry) (p : MonitorPages) (overcommitMemory : Bool)
    {ops : List MemOp} (hops : ∀ op ∈ ops, op.InRange g) :
    ∃ m, memAfter g p overcommitMemory ops = some m ∧ MemInv g m := by
  rcases kmMemInit_spec g p overcommitMemory with ⟨m0, h0, hfresh⟩
  have hcall : ∀ m op, MemInv g m → MemOp.InRange g op →
      ∃ m', (MemOp.call g m op).map Prod.fst = some m' ∧ MemInv g m' := by
    intro m op hm hop
    rcases MemOp.call_spec hm hop with ⟨m', r, hc, hinv, -⟩
    exact ⟨m', by simp [hc], hinv⟩
  rcases runCalls_total hcall hfresh.inv hops with ⟨m, hrun, hinv⟩
  exact ⟨m, by simp [memAfter, h0, hrun], hinv⟩

/-! ## Who owns a slot -/

structure SlotsFollowBreaks (g : Geometry) (m : MemState) : Prop where
  owned : ∃ l u, gvaToMemregIdx g (m.brk - 1) = some l ∧ gvaToMemregIdx g m.tbrk = some u ∧
    ∀ i, 1 ≤ i → i < g.lastMemIdx → (kmRegionAllocated m i ↔ i ≤ l ∨ u ≤ i)
  apart : ∃ b t, gvaToGpa g m.brk = some b ∧ gvaToGpa g m.tbrk = some t ∧
    b / pdpteRegion < t / pdpteRegion

theorem MemInv.allocated_iff (h : MemInv g m) {i : Int} (h1 : 1 ≤ i) (hi : i < g.lastMemIdx) :
    kmRegionAllocated m i ↔ i ≤ memregIdx g (m.brk - 1) ∨ memregIdx g (m.tbrkPa g) ≤ i := by
  rw [h.slots.allocated_iff h1 hi]
  constructor
  · rintro ⟨b, hb⟩
    cases b
    · exact .inl hb.2
    · exact .inr hb.1
  rintro (hl | hu)
  · exact ⟨false, h1, hl⟩
  · exact ⟨true, hu, hi⟩

theorem MemInv.slotsFollowBreaks (h : MemInv g m) : SlotsFollowBreaks g m where
  owned := ⟨_, _, h.brkIdx, h.tbrkIdx, fun _ h1 hi => h.allocated_iff h1 hi⟩
  apart := by
    have hlo := h.brk_lo
    have hhi := h.brk_hi.1
    exact ⟨_, _, gvaToGpa_low (by omega) (by omega), gvaToGpa_up h.tbrk_lo h.tbrk_hi, h.apart⟩

/-- The slots that are plugged depend only on the breaks. -/
theorem MemInv.allocated_eq {m' : MemState} (h : MemInv g m) (h' : MemInv g m')
    (hrsv : SameReserved g m m') (hbrk : m'.brk = m.brk) (htbrk : m'.tbrk = m.tbrk) (i : Int) :
    kmRegionAllocated m' i = kmRegionAllocated m i := by
  by_cases hi : 1 ≤ i ∧ i < g.lastMemIdx
  · rw [Bool.eq_iff_iff, h.allocated_iff hi.1 hi.2, h'.allocated_iff hi.1 hi.2]
    simp only [MemState.tbrkPa, hbrk, htbrk]
  · simp only [kmRegionAllocated, hrsv i hi]

/-- After any sequence of calls, another call fails no assertion, leaves exactly the slots of the
two breaks plugged, and changes nothing if it returns an error. -/
theorem mem_calls_keep_slots (g : Geometry) (p : MonitorPages) (overcommitMemory : Bool)
    (ops : List MemOp) (hops : ∀ op ∈ ops, op.InRange g) (op : MemOp) (hop : op.InRange g) :
    ∃ m, memAfter g p overcommitMemory ops = some m ∧ SlotsFollowBreaks g m ∧
      ∃ m' r, op.call g m = some (m', r) ∧ SlotsFollowBreaks g m' ∧
        (isErrno r → m'.brk = m.brk ∧ m'.tbrk = m.tbrk ∧
          ∀ i, kmRegionAllocated m' i = kmRegionAllocated m i) := by
  rcases memAfter_spec g p overcommitMemory hops with ⟨m, hrun, hinv⟩
  rcases MemOp.call_spec hinv hop with ⟨m', r, hcall, hinv', hrsv, herr⟩
  refine ⟨m, hrun, hinv.slotsFollowBreaks, m', r, hcall, hinv'.slotsFollowBreaks, fun he => ?_⟩
  obtain ⟨hb, ht⟩ := herr he
  exact ⟨hb, ht, hinv.allocated_eq hinv' hrsv hb ht⟩

def geo512 : Geometry where
  bits := 39
  pdpe1g := true
  vmType := .kvm
  kmUserMemBase := 0
  base_aligned := by decide
  bits_lo := by decide
  bits_hi := by decide
  bits_no_1g := by decide

def onePage : MonitorPages where
  vvarVdso := none
  kmGuestStart := 0x555555554000
  kmGuestDataStart := 0x555555555000
  kmGuestEnd := 0x555555555000
  vvarVdso_adjacent := by simp
  vvarVdso_user := by simp
  kmGuestEnd_user := by decide
  kmGuestStart_aligned := by decide

/-- Growing the heap to 1GB when the fourth region cannot be plugged, then the stack to 2MB. -/
theorem mem_calls_keep_slots_two_ops : ∃ m, memAfter geo512 onePage false
        [.brk (fun i => if i = 4 then .noMem else .ok) 0x40000000] = some m ∧
      SlotsFollowBreaks geo512 m ∧
      ∃ m' r, MemOp.call geo512 m (.tbrk (fun _ => .ok) 0x7fffa00000) = some (m', r) ∧
        SlotsFollowBreaks geo512 m' ∧ (isErrno r → m'.brk = m.brk ∧ m'.tbrk = m.tbrk ∧
          ∀ i, kmRegionAllocated m' i = kmRegionAllocated m i) :=
  mem_calls_keep_slots geo512 onePage false _ (by
      intro op hop
      rw [List.mem_singleton] at hop
      subst hop
      exact ⟨by decide, by decide⟩)
    (.tbrk (fun _ => .ok) 0x7fffa00000) (.inr ⟨by decide, by decide⟩)

/-! ## Three descriptions of guest memory -/

def MemOp.InMemory (g : Geometry) : MemOp → Prop
  | .brk _ arg => guestMemStartVa ≤ arg ∧ arg < g.guestMaxPhysmem
  | .tbrk _ arg => g.guestVaOffset < arg ∧ arg ≤ guestMemTopVa

theorem MemOp.InMemory.inRange (h : op.InMemory g) : op.InRange g := by
  obtain ⟨n, hsizes⟩ := g.sizes
  cases op with
  | brk host arg =>
    obtain ⟨h1, h2⟩ := h
    exact ⟨h1, by omega⟩
  | tbrk host arg =>
    obtain ⟨h1, h2⟩ := h
    exact .inr ⟨h1, by omega⟩

def guestAddr (m : MemState) (gva : Nat) : Prop :=
  (guestMemStartVa ≤ gva ∧ gva < m.brk) ∨ (m.tbrk ≤ gva ∧ gva < guestMemTopVa)

structure Translated (g : Geometry) (m : MemState) (gva gpa : Nat) : Prop where
  walk : m.pt.walk gva = some gpa
  arithmetic : gvaToGpa g gva = some gpa
  slot : ∃ i, 1 ≤ i ∧ i < g.lastMemIdx ∧ kmRegionAllocated m i ∧
    (m.vmMemRegs i).guestPhysAddr ≤ gpa ∧
    gpa < (m.vmMemRegs i).guestPhysAddr + (m.vmMemRegs i).memorySize ∧
    kmGvaToKma g m gva =
      some ((m.vmMemRegs i).userspaceAddr + (gpa - (m.vmMemRegs i).guestPhysAddr))

/-- A guest address is the image of a physical address of its zone that has to be present. -/
theorem MemInv.guestAddr_zone (h : MemInv g m) (hgva : guestAddr m gva) :
    ∃ upper a, gva = a + zoneOffset g upper ∧ inZone g upper a ∧
      presentUpTo m.brk (m.tbrkPa g) upper a ∧ gvaToGpa g gva = some a := by
  obtain ⟨n, hsizes⟩ := g.sizes
  obtain ⟨hb, ht⟩ := h.brk_hi
  have htlo := h.tbrk_lo
  rcases hgva with ⟨h1, h2⟩ | ⟨h1, h2⟩
  · exact ⟨false, gva, by simp [zoneOffset], ⟨h1, by omega⟩, h2, gvaToGpa_low (by omega) (by omega)⟩
  refine ⟨true, gva - g.guestVaOffset, ?_, ⟨?_, ?_⟩, ?_, gvaToGpa_up (by omega) (le_of_lt h2)⟩
  · simp only [zoneOffset, if_true]
    omega
  · simp only [MemState.tbrkPa] at ht
    omega
  · omega
  simp only [presentUpTo, if_true, MemState.tbrkPa]
  omega

theorem kmGvaToKma_guestAddr (h : MemInv g m) (hgva : guestAddr m gva) :
    kmGvaToKma g m gva = some (g.kmUserMemBase + gvaToGpaNocheck g gva) := by
  obtain ⟨n, hn2, hn, hmax, hoff⟩ := g.gibs
  have hconsts := layout_consts
  have htpa := h.tbrkPa_hi
  have hap := h.apart
  simp only [MemState.tbrkPa] at htpa hap
  rw [gib_eq] at hap
  have hlt : gva < guestMemTopVa := by
    rcases hgva with ⟨-, h2⟩ | ⟨-, h2⟩
    · omega
    · exact h2
  have hno1 : ¬ kmVdsoGva m gva := by
    simp only [kmVdsoGva]
    omega
  have hno2 : ¬ kmGuestmemGva m gva := by
    simp only [kmGuestmemGva]
    omega
  have hin : ¬ (gva < guestMemStartVa ∨ guestMemTopVa ≤ gva ∨
      (roundup m.brk kmPageSize ≤ gva ∧ gva < rounddown m.tbrk kmPageSize ∧
        ¬ kmVdsoGva m gva ∧ ¬ kmGuestmemGva m gva)) := by
    rintro (h1 | h1 | ⟨h1, h2, -⟩)
    · rcases hgva with ⟨h3, -⟩ | ⟨h3, -⟩ <;> omega
    · omega
    simp only [roundup, rounddown, u64, kmPageSize_eq] at h1 h2
    rcases hgva with ⟨-, h4⟩ | ⟨h3, -⟩ <;> omega
  rw [kmGvaToKma, if_neg hin, kmGvaToKmaNocheck, if_neg hno1, if_neg hno2]

theorem MemInv.translated (h : MemInv g m) (hk : g.vmType = .kvm) (hgva : guestAddr m gva) :
    ∃ upper a, gva = a + zoneOffset g upper ∧ presentUpTo m.brk (m.tbrkPa g) upper a ∧
      Translated g m gva a := by
  obtain ⟨n, hsizes⟩ := g.sizes
  rcases h.guestAddr_zone hgva with ⟨upper, a, heq, hz, hpres, hgpa⟩
  have hrange : guestMemStartVa ≤ a ∧ a < g.guestMaxPhysmem - guestMemStartVa := by
    cases upper <;> simp only [inZone, if_true, if_false, Bool.false_eq_true] at hz <;> omega
  obtain ⟨hi1, hi2, hbase, htop⟩ := memregIdx_spec g hrange.1 hrange.2
  have hin : inSlot g (memregIdx g a) a := ⟨hbase, by rw [memregBase_add]; exact htop⟩
  -- the slot of `a` is one of those that its zone uses
  have huse : usedUpTo g (memregIdx g (m.brk - 1)) (memregIdx g (m.tbrkPa g)) upper
      (memregIdx g a) := by
    obtain ⟨hbhi, htlo⟩ := h.brk_hi
    cases upper
    · simp only [presentUpTo, if_false, Bool.false_eq_true] at hpres
      exact ⟨hi1, memregIdx_mono (by omega) (by omega) (by omega)⟩
    simp only [presentUpTo, if_true] at hpres
    exact ⟨memregIdx_mono (by omega) hpres (by omega), hi2⟩
  have htab := h.slots.tables hk
  have hreg := h.slots.plugged upper _ huse
  refine ⟨upper, a, heq, hpres, ?_, hgpa, memregIdx g a, hi1, hi2, ?_, ?_, ?_, ?_⟩
  · rw [heq]
    exact walk_eq_some htab.wf hz (htab.present upper a hz hpres) (htab.maps upper _ a huse hz hin)
  · exact (h.slots.allocated_iff hi1 hi2).2 ⟨upper, huse⟩
  · rw [hreg]
    exact hbase
  · rw [hreg]
    exact hin.2
  have hnc : gvaToGpaNocheck g gva = a := by
    rw [gvaToGpa] at hgpa
    have := (kmAssert_bind_eq_some.1 hgpa).2
    simpa using this
  rw [kmGvaToKma_guestAddr h hgva, hnc, hreg]
  simp only [pluggedReg]
  congr 1
  omega

/-- On KVM, after any sequence of calls, the page tables, the address arithmetic and the memory
slots give one and the same place for every guest address, and different places for different ones.
-/
theorem guest_memory_descriptions_agree (g : Geometry) (hk : g.vmType = .kvm) (p : MonitorPages)
    (overcommitMemory : Bool) (ops : List MemOp) (hops : ∀ op ∈ ops, op.InMemory g) :
    ∃ m, memAfter g p overcommitMemory ops = some m ∧
      (∀ gva, guestAddr m gva → ∃ gpa, Translated g m gva gpa) ∧
      ∀ gva gva', guestAddr m gva → guestAddr m gva' → gva ≠ gva' →
        m.pt.walk gva ≠ m.pt.walk gva' := by
  rcases memAfter_spec g p overcommitMemory (fun op hop => (hops op hop).inRange) with
    ⟨m, hrun, hinv⟩
  refine ⟨m, hrun, ?_, ?_⟩
  · intro gva hgva
    rcases hinv.translated hk hgva with ⟨upper, a, -, -, ht⟩
    exact ⟨a, ht⟩
  intro gva gva' hgva hgva' hne hwalk
  rcases hinv.translated hk hgva with ⟨upper, a, heq, hpres, ht⟩
  rcases hinv.translated hk hgva' with ⟨upper', a', heq', hpres', ht'⟩
  have haa : a = a' := by
    have := ht.walk.symm.trans (hwalk.trans ht'.walk)
    simpa using this
  subst haa
  -- the zones are apart in physical memory
  have hap := hinv.apart
  rw [gib_eq] at hap
  cases upper <;> cases upper' <;>
    simp only [presentUpTo, if_true, if_false, Bool.false_eq_true] at hpres hpres'
  · exact hne (heq.trans heq'.symm)
  · omega
  · omega
  · exact hne (heq.trans heq'.symm)

/-- Heap of 3GB and mappings of 2GB, after a failed growth of the heap. -/
theorem guest_memory_descriptions_agree_three_ops : ∃ m, memAfter geo512 onePage false
        [.brk (fun i => if i = 4 then .noMem else .ok) 0x40000000,
          .tbrk (fun _ => .ok) 0x7f80000000, .brk (fun _ => .ok) 0xc0000000] = some m ∧
      (∀ gva, guestAddr m gva → ∃ gpa, Translated geo512 m gva gpa) ∧
      ∀ gva gva', guestAddr m gva → guestAddr m gva' → gva ≠ gva' →
        m.pt.walk gva ≠ m.pt.walk gva' :=
  guest_memory_descriptions_agree geo512 rfl onePage false _ (by
    intro op hop
    simp only [List.mem_cons, List.not_mem_nil, or_false] at hop
    rcases hop with rfl | rfl | rfl
    · exact ⟨by decide, by decide⟩
    · exact ⟨by decide, by decide⟩
    · exact ⟨by decide, by decide⟩)

end KontainMonitor.Mem
