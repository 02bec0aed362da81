import KontainMonitor.Mmap.HostMemory

/-!
# Heap — what is in the memory that `brk` gives

`km_mem_brk` gives memory back to the host slot by slot.  Pages that it leaves in a slot that stays
plugged only lose their access, and have their old contents when `brk` comes back to them.  So new
pages are zero exactly as long as only zeroes are left behind in such a slot.

Addresses are physical here: the heap and the memory from `tbrk` on share the slots.
-/

namespace KontainMonitor.Mmap

open Function List Mem Option Transition

/-! ## Slots that are unplugged -/

def slotFree (g : Geometry) (i : Int) : HostCall :=
  .munmap (memregBase g i + g.kmUserMemBase) (memregSize g i)

def Unplugged (g : Geometry) (F : Int → Prop) (m m' : MemState) : Prop :=
  ∃ cs, m'.hostCalls = cs ++ m.hostCalls ∧ ∀ i, F i → slotFree g i ∈ cs

variable {a : Nat}

section

variable {g : Geometry} {m m' : MemState} {host : Int → AllocOutcome} {F : Int → Prop}
variable {idx : Int} {upper : Bool} {n arg r : Nat}
variable {m1 : MemState}

theorem Unplugged.refl (hF : ∀ i, ¬ F i) (m : MemState) : Unplugged g F m m :=
  ⟨[], rfl, fun i hi => absurd hi (hF i)⟩

theorem Unplugged.later (h : Unplugged g F m m1) (hlog : ∃ cs, m'.hostCalls = cs ++ m1.hostCalls) :
    Unplugged g F m m' := by
  rcases h with ⟨cs, hcs, hall⟩
  rcases hlog with ⟨ds, hds⟩
  exact ⟨ds ++ cs, by rw [hds, hcs, append_assoc], fun i hi => mem_append_right _ (hall i hi)⟩

theorem kmFreeRegion_unplugged (hw : WellPlugged g m) (h1 : 1 ≤ idx) (hi : idx < g.lastMemIdx)
    (h : kmFreeRegion g m idx upper = some m') : Unplugged g (· = idx) m m' := by
  simp only [kmFreeRegion, do_eq_some, return_eq_some, kmAssert_eq_some] at h
  rcases h with ⟨-, hsize, m1, hm1, rfl⟩
  have hreg := hw idx h1 hi hsize
  have hcalls : m1.hostCalls = m.hostCalls := by
    simp only [clearPages, do_eq_some, return_eq_some] at hm1
    rcases hm1 with ⟨pt, -, rfl⟩
    rfl
  refine ⟨[slotFree g idx, .setUserMemoryRegion { m.vmMemRegs idx with memorySize := 0 }], ?_, ?_⟩
  · simp [MemState.setReg, kmGuestPageFree, MemState.call, hcalls, slotFree, hreg, pluggedReg]
  rintro i rfl
  exact .head _

/-- One more slot. -/
theorem Unplugged.add {G : Int → Prop} (h : Unplugged g F m m1) (h₁ : Unplugged g (· = idx) m1 m')
    (hG : ∀ i, G i → F i ∨ i = idx) : Unplugged g G m m' := by
  rcases h with ⟨cs, hcs, hall⟩
  rcases h₁ with ⟨ds, hds, hone⟩
  refine ⟨ds ++ cs, by rw [hds, hcs, append_assoc], fun i hi => ?_⟩
  rcases hG i hi with hF | heq
  · exact mem_append_right _ (hall i hF)
  · exact mem_append_left _ (hone i heq)

theorem unplugged_of_frees (h : Frees g upper F m m') (hw : WellPlugged g m)
    (hF : ∀ i, F i → guestSlot g i) : Unplugged g F m m' := by
  suffices hboth : WellPlugged g m' ∧ Unplugged g F m m' from hboth.2
  induction h with
  | none hnone => exact ⟨hw, Unplugged.refl hnone _⟩
  | slot _ hfree hG ih =>
    obtain ⟨hw1, hun⟩ := ih hw fun i hi => hF i ((hG i).2 (.inl hi))
    obtain ⟨h1, hi⟩ := hF _ ((hG _).2 (.inr rfl))
    exact ⟨kmFreeRegion_wellPlugged hw1 h1 hi hfree,
      hun.add (kmFreeRegion_unplugged hw1 h1 hi hfree) fun i => (hG i).1⟩

/-! ## Breaks that give memory back -/

/-- The slot of an address ends behind it. -/
theorem lt_memregTop_idx (hlo : guestMemStartVa - 1 ≤ a)
    (hhi : a < g.guestMaxPhysmem - guestMemStartVa) : a < memregTop g (memregIdx g a) := by
  have hb := memregIdx_bounds g hlo (le_of_lt hhi)
  have hlt := memregIdx_lt_last g hlo hhi
  rw [memregTop_eq g hb.1 hlt]
  by_contra hge
  have := (memregIdx_le_iff g (by omega : 1 ≤ memregIdx g a + 1) (by omega) hlo (le_of_lt hhi)).2
    (not_lt.1 hge)
  omega

theorem brkProtect_log (g : Geometry) (m : MemState) (brk : Nat) :
    ∃ cs, (brkProtect g m brk).hostCalls = cs ++ m.hostCalls := by
  simp only [brkProtect]
  split
  · exact ⟨[_], rfl⟩
  split
  · exact ⟨[_], rfl⟩
  · exact ⟨[], rfl⟩

theorem kmMemBrk_brk (hb : BreaksOk g m) (h : kmMemBrk g host m arg = some (m', r)) :
    m'.brk = arg ∨ m'.brk = m.brk := by
  rcases kmMemBrk_moves hb h with ⟨rfl, -⟩ | ⟨-, -, -, hmove⟩
  · exact .inr rfl
  · exact (moveBrk_same hmove).2

/-- A move down gives back the slots between the two positions, except for those that the memory
from `tbrk` on uses. -/
theorem kmMemBrk_unplugged (hm : MemInv g m) (hlo : guestMemStartVa ≤ arg) (hle : arg ≤ m.brk)
    (h : kmMemBrk g host m arg = some (m', r)) :
    m'.brk = arg ∧ Unplugged g (fun i => memregIdx g (arg - 1) < i ∧
      i ≤ memregIdx g (m.brk - 1) ∧ i < memregIdx g (m.tbrkPa g)) m m' := by
  obtain ⟨nn, hsizes⟩ := g.sizes
  obtain ⟨hbrk, hgt⟩ := hm.brk_hi
  have htpa := hm.tbrkPa_hi
  have hap := hm.apart
  rcases kmMemBrk_moves hm.breaks h with ⟨-, hno⟩ | ⟨-, -, -, h⟩
  · have hgib := hno (by omega) (by omega)
    rw [gib_eq] at hap hgib
    omega
  simp only [moveBrk, hm.brkIdx, hm.tbrkIdx, bind_eq_bind, bind_some,
    bind_eq_some_iff, return_eq_some, Prod.mk.injEq] at h
  rcases h with ⟨x, hgrow, h⟩
  -- the first round of the growing loop is the last
  have htop := lt_memregTop_idx (g := g) (a := m.brk - 1) (by omega) (by omega)
  have hx : x = ⟨m, memregIdx g (m.brk - 1), arg, 0⟩ := by
    refine Loop.run_sum (I := fun s => s = (m, memregIdx g (m.brk - 1))) ?_ rfl hgrow
    rintro _ y rfl hstep
    rcases brkGrowStep_cases hstep with rfl | ⟨hlt, -⟩
    · rfl
    · omega
  subst hx
  rcases h with ⟨m1, hfree, rfl, -⟩
  obtain ⟨b, hb, hfrees⟩ := brkFree_frees hfree
  cases (memregIdx_of_gpa (g := g) (v := arg - 1) (gvaToGpa_low (by omega) (by omega)) (by omega)
    (by omega)).symm.trans hb
  have hbnd := (memregIdx_bounds g (a := arg - 1) (by omega) (by omega)).1
  have hubnd := (memregIdx_bounds g (a := m.tbrkPa g) (by omega) htpa).2
  have hun := unplugged_of_frees hfrees hm.slots.wellPlugged fun i hi => ⟨by omega, by omega⟩
  refine ⟨rfl, hun.later ?_⟩
  rcases brkProtect_log g (if g.vmType = .kvm then
    { m1 with pt := fixupBottomPageTables m1.brk arg m1.pt } else m1) arg with ⟨cs, hcs⟩
  refine ⟨cs, hcs.trans ?_⟩
  split <;> rfl

theorem kmMemTbrk_brk (hb : BreaksOk g m) (h : kmMemTbrk g host m arg = some (m', r)) :
    m'.brk = m.brk := by
  rcases kmMemTbrk_moves hb h with ⟨rfl, -⟩ | ⟨-, -, -, -, hmove⟩
  · rfl
  · exact (moveTbrk_same hmove).1

/-- The same for a move of `tbrk` up. -/
theorem kmMemTbrk_unplugged (hm : MemInv g m) (hle : m.tbrk ≤ arg) (hhi : arg ≤ guestMemTopVa)
    (h : kmMemTbrk g host m arg = some (m', r)) :
    m'.tbrk = arg ∧ Unplugged g (fun i => memregIdx g (m.tbrkPa g) ≤ i ∧
      i < memregIdx g (arg - g.guestVaOffset) ∧ memregIdx g (m.brk - 1) < i) m m' := by
  obtain ⟨nn, hsizes⟩ := g.sizes
  have hbrklo := hm.brk_lo
  obtain ⟨hbrk, hgt⟩ := hm.brk_hi
  have hlo := hm.tbrk_lo
  have hap := hm.apart
  have hcur : m.tbrkPa g + g.guestVaOffset = m.tbrk := Nat.sub_add_cancel (le_of_lt hlo)
  rcases kmMemTbrk_moves hm.breaks h with ⟨-, -, hno⟩ | ⟨-, -, -, -, h⟩
  · have hgib := hno (by omega) hhi (by omega)
    rw [gib_eq] at hap hgib
    omega
  simp only [moveTbrk, hm.brkIdx, hm.tbrkIdx, bind_eq_bind, bind_some,
    bind_eq_some_iff, return_eq_some, Prod.mk.injEq] at h
  rcases h with ⟨x, hgrow, h⟩
  obtain rfl := tbrkGrow_up hm.breaks hle hm.tbrkIdx hgrow
  rcases h with ⟨m1, hfree, rfl, -⟩
  obtain ⟨u, hu, hfrees⟩ := tbrkFree_frees hfree
  cases (memregIdx_of_gpa (gvaToGpa_up (by omega) hhi) (by omega) (by omega)).symm.trans hu
  have hbnd := (memregIdx_bounds g (a := m.brk - 1) (by omega) (by omega)).1
  have hubnd := (memregIdx_bounds g (a := arg - g.guestVaOffset) (by omega) (by omega)).2
  have hun := unplugged_of_frees hfrees hm.slots.wellPlugged fun i hi => ⟨by omega, by omega⟩
  refine ⟨rfl, hun.later ⟨[], ?_⟩⟩
  simp only [nil_append]
  split <;> rfl

/-! ## Bytes -/

variable {h : Host} {file : FileData} {mem mem' : HostMem} {S : Int → Prop} {lim : Nat}

/-- Plugging and unplugging changes a byte to 0, if at all. -/
theorem plugCall_byte {c : HostCall} (hc : PlugCall S lim c) (h : Host) (file : FileData)
    (mem : HostMem) (n x : Nat) :
    ((if h.carriesOut n c then mem.exec file c else mem) x).byte = (mem x).byte ∨
      ((if h.carriesOut n c then mem.exec file c else mem) x).byte = 0 := by
  split
  · cases c with
    | mmap addr len prot flags fd offset =>
      obtain ⟨-, -, -, hanon, -⟩ := hc
      simp only [HostMem.exec, mapContent, if_pos hanon]
      split
      · exact .inr rfl
      · exact .inl rfl
    | munmap addr len =>
      simp only [HostMem.exec]
      split
      · exact .inr rfl
      · exact .inl rfl
    | mprotect addr len prot =>
      simp only [HostMem.exec]
      split
      · exact .inl rfl
      · exact .inl rfl
    | setUserMemoryRegion reg => exact .inl rfl
    | madvise | msync | memcpy | calloc => exact hc.elim
  · exact .inl rfl

/-- So a byte that is 0 stays 0, and what is unmapped is 0 from then on. -/
theorem replay_byte {cs : List HostCall} (hcs : ∀ c ∈ cs, PlugCall S lim c) (n x : Nat)
    (hx : (mem x).byte = 0 ∨
      ∃ addr len, HostCall.munmap addr len ∈ cs ∧ addr ≤ x ∧ x < addr + len) :
    (replay h file n cs mem x).byte = 0 := by
  induction cs with
  | nil =>
    rcases hx with hx | ⟨addr, len, hmem, -⟩
    · exact hx
    · cases hmem
  | cons c cs ih =>
    have hkeep : (replay h file n cs mem x).byte = 0 →
        (replay h file n (c :: cs) mem x).byte = 0 := by
      intro hzero
      rcases plugCall_byte (hcs c (.head _)) h file (replay h file n cs mem)
        (n + cs.length) x with hsame | hzero'
      · rw [replay]
        exact hsame.trans hzero
      rw [replay]
      exact hzero'
    have htail := ih fun d hd => hcs d (.tail _ hd)
    rcases hx with hx | ⟨addr, len, hmem, hlo, hhi⟩
    · exact hkeep (htail (.inl hx))
    rcases mem_cons.1 hmem with rfl | hmem
    · have hdone : h.carriesOut (n + cs.length) (.munmap addr len) := rfl
      rw [replay, if_pos hdone]
      simp only [HostMem.exec, if_pos (And.intro hlo hhi)]
      rfl
    · exact hkeep (htail (.inr ⟨addr, len, hmem, hlo, hhi⟩))

theorem zero_of_zero {x : Nat} (hp : Plugging g S lim m m')
    (hrun : HostRun h file m.hostCalls mem m'.hostCalls mem') (hx : (mem x).byte = 0) :
    (mem' x).byte = 0 := by
  rcases hp.calls with ⟨cs, hcs, hall⟩
  rcases hrun with ⟨ds, hds, rfl, -⟩
  cases append_cancel_right (hcs.symm.trans hds)
  exact replay_byte hall _ x (.inl hx)

theorem zero_of_unplugged {i : Int} (hp : Plugging g S lim m m') (hun : Unplugged g F m m')
    (hrun : HostRun h file m.hostCalls mem m'.hostCalls mem') (hi : F i) (hlo : memregBase g i ≤ a)
    (hhi : a < memregTop g i) : (mem' (g.kmUserMemBase + a)).byte = 0 := by
  have hsize := memregBase_add g i
  rcases hp.calls with ⟨cs, hcs, hall⟩
  rcases hun with ⟨ds, hds, hfree⟩
  rcases hrun with ⟨es, hes, rfl, -⟩
  cases append_cancel_right (hcs.symm.trans hds)
  cases append_cancel_right (hcs.symm.trans hes)
  exact replay_byte hall _ _ (.inr ⟨_, _, hfree i hi, by omega, by omega⟩)

end

/-! ## Runs -/

structure HeapWorld where
  m : MemState
  mem : HostMem

def HeapWorld.byte (g : Geometry) (w : HeapWorld) (a : Nat) : UInt8 :=
  (w.mem (g.kmUserMemBase + a)).byte

def HeapWorld.write (g : Geometry) (w : HeapWorld) (a : Nat) (v : UInt8) : HeapWorld :=
  { w with
    mem := update w.mem (g.kmUserMemBase + a)
      { w.mem (g.kmUserMemBase + a) with byte := v } }

inductive HeapInput
  | brk (h : Host) (file : FileData) (arg : Nat)
  | tbrk (h : Host) (file : FileData) (arg : Nat)
  | write (a : Nat) (v : UInt8)

/-- The payload writes to the pages of the heap, and anything may happen to the memory from `tbrk`
on. -/
def heapSystem (g : Geometry) : System HeapWorld HeapInput where
  init w := (∃ p overcommitMemory, kmMemInit g p overcommitMemory = some w.m) ∧
    ∀ a, guestMemStartVa ≤ a → a < w.m.tbrkPa g → w.byte g a = 0
  step w i w' :=
    match i with
    | .brk h file arg => (∃ r, kmMemBrk g h.alloc w.m arg = some (w'.m, r)) ∧
        HostRun h file w.m.hostCalls w.mem w'.m.hostCalls w'.mem
    | .tbrk h file arg => (∃ r, kmMemTbrk g h.alloc w.m arg = some (w'.m, r)) ∧
        HostRun h file w.m.hostCalls w.mem w'.m.hostCalls w'.mem
    | .write a v => ((guestMemStartVa ≤ a ∧ a < roundup w.m.brk kmPageSize) ∨ w.m.tbrkPa g ≤ a) ∧
        w' = w.write g a v

/-- What a call gives back in slots that stay plugged is zero. -/
def HeapInput.LeavesZero (g : Geometry) (w : HeapWorld) : HeapInput → Prop
  | .brk _ _ arg => arg = 0 ∨ (guestMemStartVa ≤ arg ∧
      ∀ a, roundup arg kmPageSize ≤ a → a < roundup w.m.brk kmPageSize →
        (memregIdx g a ≤ memregIdx g (arg - 1) ∨ memregIdx g (w.m.tbrkPa g) ≤ memregIdx g a) →
        w.byte g a = 0)
  | .tbrk _ _ arg => arg = 0 ∨ (arg ≠ g.guestVaOffset ∧
      ∀ a, w.m.tbrkPa g ≤ a → a + g.guestVaOffset < arg → arg ≤ guestMemTopVa →
        (memregIdx g (arg - g.guestVaOffset) ≤ memregIdx g a ∨
          memregIdx g a ≤ memregIdx g (w.m.brk - 1)) →
        w.byte g a = 0)
  | .write _ _ => True

def zeroingSystem (g : Geometry) : System HeapWorld HeapInput :=
  (heapSystem g).restrict fun w i _ => i.LeavesZero g w

/-- Between the heap and `tbrk` there are only zeroes. -/
structure GapZero (g : Geometry) (w : HeapWorld) : Prop where
  inv : MemInv g w.m
  gap : ∀ a, roundup w.m.brk kmPageSize ≤ a → a < w.m.tbrkPa g → w.byte g a = 0

section

variable {g : Geometry} {m : MemState} {w w' : HeapWorld} {h : Host} {file : FileData} {arg : Nat}
variable {b : Nat}

theorem roundup_brk (hb : b < 2 ^ 63) :
    b ≤ roundup b kmPageSize ∧ roundup b kmPageSize < b + 4096 ∧ roundup b kmPageSize % 4096 = 0 := by
  simp only [roundup, u64, kmPageSize_eq]
  omega

/-- Slots end at pages, so the last page of the heap is in one slot. -/
theorem memregIdx_le_of_page (hlo : guestMemStartVa ≤ b)
    (hhi : b < g.guestMaxPhysmem - guestMemStartVa) (ha : guestMemStartVa - 1 ≤ a)
    (hpage : a < roundup b kmPageSize) : memregIdx g a ≤ memregIdx g (b - 1) := by
  obtain ⟨nn, hsizes⟩ := g.sizes
  have hround := roundup_brk (b := b) (by omega)
  have hbnd := memregIdx_bounds g (a := b - 1) (by omega) (by omega)
  have hlast := memregIdx_lt_last g (a := b - 1) (by omega) (by omega)
  have htop := lt_memregTop_idx (g := g) (a := b - 1) (by omega) (by omega)
  rw [memregTop_eq g hbnd.1 hlast] at htop
  have halign : memregBase g (memregIdx g (b - 1) + 1) % 4096 = 0 := by
    rcases lt_or_ge (memregIdx g (b - 1) + 1) g.lastMemIdx with hlt | hge
    · exact kmPageSize_eq ▸ (memreg_page_aligned (by omega) hlt).2
    have heq : memregIdx g (b - 1) + 1 = g.lastMemIdx := by omega
    rw [heq, memregBase_last]
    omega
  have hmax' : a ≤ g.guestMaxPhysmem - guestMemStartVa := by omega
  by_contra hgt
  have := (memregIdx_le_iff g (by omega : 1 ≤ memregIdx g (b - 1) + 1) (by omega) ha hmax').1
    (by omega)
  omega

theorem HeapWorld.same (hm : w'.m = w.m)
    (hrun : HostRun h file w.m.hostCalls w.mem w'.m.hostCalls w'.mem) : w' = w := by
  rw [hm] at hrun
  have hmem := HostRun.unique (HostRun.refl h file w.m.hostCalls w.mem) hrun
  cases w
  cases w'
  simp only at hm hmem
  rw [hm, hmem]

theorem memInv_brk_lt (hm : MemInv g m) : m.brk < 2 ^ 63 := by
  obtain ⟨nn, hgibs⟩ := g.gibs
  have := hm.brk_hi
  omega

/-- `brk` and `tbrk` are in different GBs, and so are their pages. -/
theorem page_le_tbrkPa (hm : MemInv g m) : roundup m.brk kmPageSize ≤ m.tbrkPa g := by
  have hround := roundup_brk (memInv_brk_lt hm)
  have hap := hm.apart
  rw [gib_eq] at hap
  omega

/-- What is left behind in a slot that stays is zero by assumption, the other slots are unplugged. -/
theorem GapZero.brk (hw : GapZero g w) (hzero : (HeapInput.brk h file arg).LeavesZero g w)
    (hstep : (heapSystem g).step w (.brk h file arg) w') : GapZero g w' := by
  obtain ⟨⟨r, hr⟩, hrun⟩ := hstep
  by_cases h0 : arg = 0
  · simp only [kmMemBrk, if_pos h0, some_mk_inj] at hr
    exact HeapWorld.same hr.1.symm hrun ▸ hw
  obtain ⟨hlo, hzero⟩ := hzero.resolve_left h0
  obtain ⟨nn, hsizes⟩ := g.sizes
  have hbrk := hw.inv.brk_hi
  have hbrklo := hw.inv.brk_lo
  rcases kmMemBrk_spec h.alloc hw.inv hlo with ⟨m', r', hr', hinv, -, htbrk, hres⟩
  rw [hr, some_mk_inj] at hr'
  obtain ⟨rfl, rfl⟩ := hr'
  have hplug := kmMemBrk_plugging hw.inv (.inr hlo) hr
  have hpa' : w'.m.tbrkPa g = w.m.tbrkPa g := by simp only [MemState.tbrkPa, htbrk]
  refine ⟨hinv, fun a ha hb => ?_⟩
  rw [hpa'] at hb
  rcases lt_or_ge a (roundup w.m.brk kmPageSize) with hback | hgap
  · -- a byte that was given back
    have hround := roundup_brk (b := w.m.brk) (by omega)
    have hne : w'.m.brk = arg := by
      rcases hres with ⟨-, heq⟩ | ⟨-, heq⟩
      · exact heq
      rw [heq] at ha
      omega
    rw [hne] at ha
    have harg : arg ≤ w.m.brk := by
      have := roundup_brk (b := arg) (by have := hinv.brk_hi; omega)
      omega
    have hround' := roundup_brk (b := arg) (by omega)
    by_cases hkept : memregIdx g a ≤ memregIdx g (arg - 1) ∨
        memregIdx g (w.m.tbrkPa g) ≤ memregIdx g a
    · exact zero_of_zero hplug hrun (hzero a ha hback hkept)
    rw [not_or, not_le, not_le] at hkept
    obtain ⟨-, -, hbase, htop⟩ := memregIdx_spec g (a := a) (by omega) (by omega)
    have hidx := memregIdx_le_of_page (g := g) (a := a) hbrklo (by omega) (by omega) hback
    exact zero_of_unplugged hplug (kmMemBrk_unplugged hw.inv hlo harg hr).2 hrun
      ⟨hkept.1, hidx, hkept.2⟩ hbase htop
  · exact zero_of_zero hplug hrun (hw.gap a hgap hb)

theorem GapZero.tbrk (hw : GapZero g w) (hzero : (HeapInput.tbrk h file arg).LeavesZero g w)
    (hstep : (heapSystem g).step w (.tbrk h file arg) w') : GapZero g w' := by
  obtain ⟨⟨r, hr⟩, hrun⟩ := hstep
  by_cases h0 : arg = 0
  · simp only [kmMemTbrk, if_pos h0, some_mk_inj] at hr
    exact HeapWorld.same hr.1.symm hrun ▸ hw
  obtain ⟨hne, hzero⟩ := hzero.resolve_left h0
  have hconsts := layout_consts
  have hbrk := hw.inv.brk_hi
  have hcur : w.m.tbrkPa g + g.guestVaOffset = w.m.tbrk :=
    Nat.sub_add_cancel (le_of_lt hw.inv.tbrk_lo)
  rcases kmMemTbrk_served h.alloc hw.inv h0 hne with ⟨m', r', hr', hinv, -⟩
  rw [hr, some_mk_inj] at hr'
  obtain ⟨rfl, rfl⟩ := hr'
  have hbreaks := hw.inv.breaks
  obtain ⟨hbreaks', hres⟩ := kmMemTbrk_breaks hbreaks h0 hr
  have hplug := kmMemTbrk_plugging hw.inv hne hr
  have hpa' := hinv.tbrkPa_hi
  refine ⟨hinv, fun a ha hb => ?_⟩
  rw [kmMemTbrk_brk hbreaks hr] at ha
  rcases lt_or_ge a (w.m.tbrkPa g) with hgap | hback
  · exact zero_of_zero hplug hrun (hw.gap a ha hgap)
  -- a byte that was given back
  have htbrk : w'.m.tbrk = arg := by
    rcases hres with ⟨-, heq⟩ | ⟨-, heq⟩
    · exact heq
    rw [MemState.tbrkPa, heq] at hb
    omega
  have hhi := hbreaks'.tbrk_hi
  rw [MemState.tbrkPa, htbrk] at hb hpa'
  rw [htbrk] at hhi
  by_cases hkept : memregIdx g (arg - g.guestVaOffset) ≤ memregIdx g a ∨
      memregIdx g a ≤ memregIdx g (w.m.brk - 1)
  · exact zero_of_zero hplug hrun (hzero a hback (by omega) hhi hkept)
  rw [not_or, not_le, not_le] at hkept
  obtain ⟨-, -, hbase, htop⟩ := memregIdx_spec g (a := a) (by omega) (by omega)
  have hidx := memregIdx_mono (g := g) (a := w.m.tbrkPa g) (b := a) (by omega) hback (by omega)
  exact zero_of_unplugged hplug (kmMemTbrk_unplugged hw.inv (by omega) hhi hr).2 hrun
    ⟨hidx, hkept.1, hkept.2⟩ hbase htop

theorem zeroingSystem_gap (hw : Reach (zeroingSystem g) w) : GapZero g w := by
  refine Reach.inv (I := GapZero g) ?_ ?_ hw
  · rintro w ⟨⟨p, overcommitMemory, hinit⟩, hzero⟩
    rcases kmMemInit_spec g p overcommitMemory with ⟨m0, hm0, hfresh⟩
    cases hm0.symm.trans hinit
    have hinv := hfresh.inv
    refine ⟨hinv, fun a ha hb => hzero a ?_ hb⟩
    exact le_trans hinv.brk_lo (le_trans (roundup_brk (memInv_brk_lt hinv)).1 ha)
  rintro w i w' hw ⟨hstep, hzero⟩
  cases i with
  | brk h file arg => exact hw.brk hzero hstep
  | tbrk h file arg => exact hw.tbrk hzero hstep
  | write a v =>
    -- no byte between the heap and `tbrk`
    obtain ⟨hwhere, rfl⟩ := hstep
    refine ⟨hw.inv, fun b hlo hhi => ?_⟩
    have hold := hw.gap b hlo hhi
    simp only [HeapWorld.write, HeapWorld.byte] at hold hlo hhi ⊢
    rw [update_of_ne (by omega)]
    exact hold

/-- In every run in which only zeroes are left behind in slots that stay plugged, the new pages are
zero whenever `brk` grows. -/
theorem heap_growth_zero (g : Geometry) {w : HeapWorld} (hw : Reach (zeroingSystem g) w) (h : Host)
    (file : FileData) (arg : Nat) {w' : HeapWorld}
    (hstep : (heapSystem g).step w (.brk h file arg) w') (hgrow : w.m.brk < w'.m.brk) (a : Nat)
    (hlo : roundup w.m.brk kmPageSize ≤ a) (hhi : a < roundup w'.m.brk kmPageSize) :
    w'.byte g a = 0 := by
  have hzero := zeroingSystem_gap hw
  obtain ⟨⟨r, hr⟩, hrun⟩ := hstep
  have hbrklo := hzero.inv.brk_lo
  have harg : w'.m.brk = arg := by
    rcases kmMemBrk_brk hzero.inv.breaks hr with heq | heq
    · exact heq
    · omega
  have hargs : guestMemStartVa ≤ arg := by omega
  rcases kmMemBrk_spec h.alloc hzero.inv hargs with ⟨m', r', hr', hinv, -, htbrk, -⟩
  rw [hr, some_mk_inj] at hr'
  obtain ⟨rfl, rfl⟩ := hr'
  have hpage := page_le_tbrkPa hinv
  have hpa : w'.m.tbrkPa g = w.m.tbrkPa g := by simp only [MemState.tbrkPa, htbrk]
  -- the page was above the heap before, and plugging makes no byte other than 0
  exact zero_of_zero (kmMemBrk_plugging hzero.inv (.inr hargs) hr) hrun (hzero.gap a hlo (by omega))

end

/-! ## Runs on fixed inputs -/

def HeapWorld.brk (g : Geometry) (h : Host) (file : FileData) (arg : Nat) (w : HeapWorld) :
    Option HeapWorld :=
  (kmMemBrk g h.alloc w.m arg).map fun r =>
    { m := r.1
      mem := replay h file w.m.hostCalls.length (newCalls w.m.hostCalls r.1.hostCalls) w.mem }

theorem HeapWorld.brk_step {g : Geometry} {h : Host} {file : FileData} {arg : Nat} {w w' : HeapWorld}
    (hw : w.brk g h file arg = some w')
    (hlog : w'.m.hostCalls = newCalls w.m.hostCalls w'.m.hostCalls ++ w.m.hostCalls)
    (hcopy : ∀ c ∈ newCalls w.m.hostCalls w'.m.hostCalls, HostCall.copies c = false) :
    (heapSystem g).step w (.brk h file arg) w' := by
  simp only [HeapWorld.brk, map_eq_some_iff] at hw
  rcases hw with ⟨⟨m', r⟩, hr, rfl⟩
  exact ⟨⟨r, hr⟩, _, hlog, rfl, permitted_of_no_copy hcopy⟩

def emptyFiles : FileData := fun _ _ => 0

def memStart : MemState := evaluate (kmMemInit geo512 onePage false)

theorem memStart_eq : kmMemInit geo512 onePage false = some memStart := eq_eval

def heapStart : HeapWorld := { m := memStart, mem := fun _ => Cell.mapped 0 mapPrivate protNone }

theorem heapStart_init : (heapSystem geo512).init heapStart :=
  ⟨⟨onePage, false, memStart_eq⟩, fun _ _ _ => rfl⟩

def heapGrown : HeapWorld := evaluate (heapStart.brk geo512 kindHost emptyFiles 0x203000)

def heapWritten : HeapWorld := heapGrown.write geo512 0x202000 7

def heapShrunk : HeapWorld := evaluate (heapWritten.brk geo512 kindHost emptyFiles 0x202000)

def heapBack : HeapWorld := evaluate (heapShrunk.brk geo512 kindHost emptyFiles 0x203000)

theorem heapGrown_step :
    (heapSystem geo512).step heapStart (.brk kindHost emptyFiles 0x203000) heapGrown :=
  HeapWorld.brk_step eq_eval (by decide +kernel) (by decide +kernel)

theorem heapWritten_step : (heapSystem geo512).step heapGrown (.write 0x202000 7) heapWritten :=
  ⟨.inl (by decide +kernel), rfl⟩

/-- The 7 is there again when `brk` comes back to the page. -/
theorem heap_old_byte : Reach (heapSystem geo512) heapShrunk ∧
      (heapSystem geo512).step heapShrunk (.brk kindHost emptyFiles 0x203000) heapBack ∧
      heapShrunk.m.brk = 0x202000 ∧ heapBack.m.brk = 0x203000 ∧
      heapBack.byte geo512 0x202000 = 7 := by
  refine ⟨?_, HeapWorld.brk_step eq_eval (by decide +kernel) (by decide +kernel),
    by decide +kernel, by decide +kernel, by decide +kernel⟩
  have hgrown := Reach.step (Reach.init heapStart_init) heapGrown_step
  have hwritten := Reach.step hgrown heapWritten_step
  exact Reach.step (a := .brk kindHost emptyFiles 0x202000) hwritten
    (HeapWorld.brk_step eq_eval (by decide +kernel) (by decide +kernel))

def heapEmptied : HeapWorld := evaluate (heapWritten.brk geo512 kindHost emptyFiles 0x200000)

def heapAgain : HeapWorld := evaluate (heapEmptied.brk geo512 kindHost emptyFiles 0x203000)

theorem heapEmptied_reach : Reach (zeroingSystem geo512) heapEmptied := by
  have hgrown : Reach (zeroingSystem geo512) heapGrown := by
    refine Reach.step (Reach.init heapStart_init) ⟨heapGrown_step, .inr ⟨by decide, ?_⟩⟩
    intro a hlo hhi
    have h1 : roundup heapStart.m.brk kmPageSize = 0x200000 := by decide +kernel
    have h2 : roundup 0x203000 kmPageSize = 0x203000 := by decide
    omega
  have hwritten : Reach (zeroingSystem geo512) heapWritten :=
    Reach.step hgrown ⟨heapWritten_step, trivial⟩
  refine Reach.step (a := .brk kindHost emptyFiles 0x200000) hwritten
    ⟨HeapWorld.brk_step eq_eval (by decide +kernel) (by decide +kernel),
      .inr ⟨by decide, ?_⟩⟩
  intro a hlo hhi hkept
  have h1 : roundup 0x200000 kmPageSize = 0x200000 := by decide
  have h2 : roundup heapWritten.m.brk kmPageSize = 0x203000 := by decide +kernel
  have h3 : memregIdx geo512 (0x200000 - 1) = 0 := by decide +kernel
  have h4 : memregIdx geo512 (heapWritten.m.tbrkPa geo512) = geo512.lastMemIdx := by
    decide +kernel
  have hstart : guestMemStartVa = 0x200000 := by decide
  have hmax : geo512.guestMaxPhysmem = 2 ^ 39 := by decide
  obtain ⟨hone, hlast, -, -⟩ := memregIdx_spec geo512 (a := a) (by omega) (by omega)
  omega

theorem heap_growth_zero_again : heapAgain.byte geo512 0x202000 = 0 :=
  heap_growth_zero geo512 heapEmptied_reach kindHost emptyFiles 0x203000
    (HeapWorld.brk_step eq_eval (by decide +kernel) (by decide +kernel))
    (by decide +kernel) 0x202000 (by decide +kernel) (by decide +kernel)

end KontainMonitor.Mmap
