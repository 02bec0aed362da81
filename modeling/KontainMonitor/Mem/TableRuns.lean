import KontainMonitor.Mem.Present

/-!
# TableRuns — the present bits after any sequence of calls

Start-up leaves all entries absent, and the calls keep each entry as it should be.  For the bottom
zone this holds in every run.  In the top zone it holds for the 1GB entries; a 2MB entry can go wrong
in three ways, all of them in `km_mem_tbrk`.
-/

namespace KontainMonitor.Mem

open Entry Function List Transition

/-! ## Runs -/

def memSystem (g : Geometry) (p : MonitorPages) (overcommitMemory : Bool) :
    System MemState MemOp where
  init m := kmMemInit g p overcommitMemory = some m
  step m op m' := ∃ r, op.call g m = some (m', r)

/-- Arguments of `km_mem_brk` below guest memory are left out. -/
def MemOp.BrkInMemory : MemOp → Prop
  | .brk _ arg => arg = 0 ∨ guestMemStartVa ≤ arg
  | .tbrk _ _ => True

def brkSystem (g : Geometry) (p : MonitorPages) (overcommitMemory : Bool) : System MemState MemOp :=
  (memSystem g p overcommitMemory).restrict fun _ op _ => op.BrkInMemory

def MemOp.Marks (g : Geometry) (m : MemState) (e : Entry) : MemOp → Prop
  | .brk _ arg => arg = 0 ∨ guestMemStartVa ≤ arg
  | .tbrk _ arg => MarkedRight g m arg e

section

variable {g : Geometry} {p : MonitorPages} {overcommitMemory : Bool} {m m' : MemState} {e : Entry}
variable {pt : PageTables} {op : MemOp} {r : Nat}

theorem initPml4_absent (he : e.Valid) (h : initPml4 g = some pt) : ¬ e.Present pt := by
  have h511 : pdeSlot guestMemTopVa = 511 := by decide
  simp only [initPml4, do_eq_some, return_eq_some, h511] at h
  obtain ⟨-, -, -, -, rfl⟩ := h
  cases e with
  | pd0 | pd2 => simp [PageTables.zero, Pte.zero]
  | pdpt0 k =>
    obtain ⟨hk1, hk2⟩ : 1 ≤ k ∧ k < 511 := he
    rw [present_pdpt0]
    simp only
    rw [update_of_ne (by omega), update_of_ne (by omega)]
    simp [PageTables.zero, Pte.zero]

/-- The pages of the monitor go into tables of their own. -/
theorem setPtes_present (virtaddr physaddr n : Nat) (pt : PageTables) :
    SamePresent pt (setPtes virtaddr physaddr n pt) :=
  SamePresent.of_tables (fun _ => rfl) (fun _ => rfl) fun _ => rfl

theorem kmAddVvarVdso_present (h : kmAddVvarVdsoToGuestAddressSpace g p m = some m') :
    SamePresent m.pt m'.pt := by
  rw [kmAddVvarVdsoToGuestAddressSpace] at h
  split at h
  · cases h
    exact SamePresent.refl _
  simp only [do_eq_some, return_eq_some] at h
  rcases h with ⟨-, -, rfl⟩
  simp only
  split
  · exact setPtes_present _ _ _ _
  · exact SamePresent.refl _

theorem kmAddCode_present (h : kmAddCodeToGuestAddressSpace g p m = some m') :
    SamePresent m.pt m'.pt := by
  simp only [kmAddCodeToGuestAddressSpace, do_eq_some, return_eq_some] at h
  rcases h with ⟨-, -, rfl⟩
  simp only
  split
  · exact setPtes_present _ _ _ _
  · exact SamePresent.refl _

section

variable (hk : g.vmType = .kvm) (he : e.Valid) (h : kmMemInit g p overcommitMemory = some m)
include hk he h

theorem kmMemInit_absent : ¬ e.Present m.pt := by
  have h1 : rsvMemSize % kmPageSize = 0 := by decide
  have h2 : rsvMemStart % kmPageSize = 0 := by decide
  simp only [kmMemInit, do_eq_some] at h
  rcases h with ⟨m1, hm1, m2, hm2, hm3⟩
  simp only [kmMemInitReserved, hk, if_true, kmGuestPageMalloc, h1, h2, ne_eq, not_true_eq_false,
    or_self, if_false, Bool.false_eq_true, do_eq_some, return_eq_some] at hm1
  rcases hm1 with ⟨pt, hpt, rfl⟩
  rw [kmAddCode_present hm3 e, kmAddVvarVdso_present hm2 e]
  exact initPml4_absent he hpt

/-- Nothing is shown, and nothing is present. -/
theorem kmMemInit_exact : Orderly g m ∧ Exact m e := by
  rcases kmMemInit_spec g p overcommitMemory with ⟨m0, hm0, hfresh⟩
  cases hm0.symm.trans h
  have hinv := hfresh.inv
  refine ⟨⟨⟨hinv.tbrk_lo, hinv.tbrk_hi, hinv.apart⟩, hinv.brk_lo, hinv.slots.wellPlugged⟩, ?_⟩
  rw [Exact, Shown, meets_iff, meets_iff, hfresh.brk, hfresh.tbrk]
  exact ⟨fun hp => absurd hp (kmMemInit_absent hk he h), fun hs => by omega⟩

end

theorem MemOp.call_exact (hk : g.vmType = .kvm) (ho : Orderly g m) (he : e.Valid)
    (hmarks : op.Marks g m e) (h : op.call g m = some (m', r)) :
    Orderly g m' ∧ (Exact m e → Exact m' e) := by
  cases op with
  | brk host arg => exact kmMemBrk_exact hk ho he hmarks h
  | tbrk host arg => exact kmMemTbrk_exact hk ho he hmarks h

/-- Runs in which every call leaves the entry as it should be. -/
def markingSystem (g : Geometry) (p : MonitorPages) (overcommitMemory : Bool) (e : Entry) :
    System MemState MemOp :=
  (memSystem g p overcommitMemory).restrict fun m op _ => op.Marks g m e

theorem markingSystem_exact (hk : g.vmType = .kvm) (he : e.Valid)
    (hm : Reach (markingSystem g p overcommitMemory e) m) : Orderly g m ∧ Exact m e := by
  refine Reach.inv (I := fun m => Orderly g m ∧ Exact m e) ?_ ?_ hm
  · intro m h
    exact kmMemInit_exact hk he h
  rintro m op m' ⟨ho, hex⟩ ⟨⟨r, hcall⟩, hmarks⟩
  obtain ⟨ho', hex'⟩ := MemOp.call_exact hk ho he hmarks hcall
  exact ⟨ho', hex' hex⟩

/-- Entries that are not in `pd2` are marked right by every call. -/
theorem MemOp.BrkInMemory.marks (hop : op.BrkInMemory) (hne : ∀ j, e ≠ .pd2 j) : op.Marks g m e := by
  cases op with
  | brk host arg => exact hop
  | tbrk host arg =>
    cases e with
    | pd0 j => exact trivial
    | pdpt0 k => exact trivial
    | pd2 j => exact absurd rfl (hne j)

theorem brkSystem_exact (hk : g.vmType = .kvm) (he : e.Valid) (hne : ∀ j, e ≠ .pd2 j)
    (hm : Reach (brkSystem g p overcommitMemory) m) : Orderly g m ∧ Exact m e := by
  refine Reach.inv (I := fun m => Orderly g m ∧ Exact m e) ?_ ?_ hm
  · intro m h
    exact kmMemInit_exact hk he h
  rintro m op m' ⟨ho, hex⟩ ⟨⟨r, hcall⟩, hop⟩
  obtain ⟨ho', hex'⟩ := MemOp.call_exact hk ho he (hop.marks hne) hcall
  exact ⟨ho', hex' hex⟩

/-! ## The bottom zone -/

/-- The bottom zone's entries show exactly the memory below `brk`. -/
structure LowerExact (m : MemState) : Prop where
  pages : ∀ j, 1 ≤ j → j < 512 →
    ((m.pt.pd0 j).p ↔ (Entry.pd0 j).Meets guestMemStartVa m.brk)
  gibs : ∀ k, 1 ≤ k → k < m.tbrk / gib →
    ((m.pt.pdpt0 k).p ↔ (Entry.pdpt0 k).Meets guestMemStartVa m.brk)
  zero : (m.pt.pd0 0).p = false

theorem lower_tables_exact (g : Geometry) (hk : g.vmType = .kvm) (p : MonitorPages)
    (overcommitMemory : Bool) {m : MemState} (hm : Reach (brkSystem g p overcommitMemory) m) :
    LowerExact m := by
  have hconsts := layout_consts
  have hpd0 : ∀ j, j < 512 → ((m.pt.pd0 j).p ↔ (Entry.pd0 j).Meets guestMemStartVa m.brk) := by
    intro j hj
    obtain ⟨ho, hex⟩ := brkSystem_exact (e := .pd0 j) hk hj (by simp) hm
    have hlo := ho.bounds.2.1
    rw [MemState.tbrkPa] at hlo
    rw [Exact, Shown, present_pd0] at hex
    refine hex.trans (or_iff_left ?_)
    -- the first GB is below `tbrk`
    rw [meets_iff]
    simp only [gva_pd0, size_pd0]
    omega
  refine ⟨fun j _ hj => hpd0 j hj, ?_, ?_⟩
  · intro k hk1 hk2
    rw [gib_eq] at hk2
    have hk511 : k < 511 := by
      have := (brkSystem_exact (e := .pd0 0) hk (by decide : (0 : Nat) < 512) (by simp) hm).1.tbrk_hi
      omega
    obtain ⟨ho, hex⟩ := brkSystem_exact (e := .pdpt0 k) hk ⟨hk1, hk511⟩ (by simp) hm
    rw [Exact, Shown, present_pdpt0] at hex
    refine hex.trans (or_iff_left ?_)
    rw [meets_iff]
    simp only [gva_pdpt0, size_pdpt0]
    omega
  have hzero := hpd0 0 (by decide)
  rw [meets_iff] at hzero
  simp only [gva_pd0, size_pd0] at hzero
  rw [← Bool.not_eq_true, hzero]
  omega

/-! ## The top zone -/

/-- A 2MB entry is right in every run whose calls mark it right, and the 1GB entries above `brk` are
right in every run. -/
theorem upper_tables_exact (g : Geometry) (hk : g.vmType = .kvm) (p : MonitorPages)
    (overcommitMemory : Bool) :
    (∀ j, j < 512 → ∀ m, Reach (markingSystem g p overcommitMemory (.pd2 j)) m →
      ((m.pt.pd2 j).p ↔ (Entry.pd2 j).Meets m.tbrk guestMemTopVa)) ∧
    ∀ m, Reach (brkSystem g p overcommitMemory) m → ∀ k, m.brk / gib < k → k < 511 →
      ((m.pt.pdpt0 k).p ↔ (Entry.pdpt0 k).Meets m.tbrk guestMemTopVa) := by
  constructor
  · intro j hj m hm
    obtain ⟨ho, hex⟩ := markingSystem_exact (e := .pd2 j) hk hj hm
    rw [Exact, Shown, present_pd2] at hex
    refine hex.trans (or_iff_right ?_)
    -- `brk` stays below the GB of `tbrk`
    have hap := ho.apart
    have hhi := ho.bounds.2.2
    obtain ⟨n, hsizes⟩ := g.sizes
    rw [meets_iff]
    simp only [gva_pd2, size_pd2]
    rw [gib_eq] at hap
    omega
  intro m hm k hlo hhi
  obtain ⟨ho, hex⟩ := brkSystem_exact (e := .pdpt0 k) hk ⟨Nat.one_le_of_lt hlo, hhi⟩ (by simp) hm
  rw [Exact, Shown, present_pdpt0] at hex
  refine hex.trans (or_iff_right ?_)
  rw [gib_eq] at hlo
  rw [meets_iff]
  simp only [gva_pdpt0, size_pdpt0]
  omega

end

/-! ## Runs given as lists -/

theorem memAfter_reach {g : Geometry} {p : MonitorPages} {overcommitMemory : Bool} {ops : List MemOp}
    {m : MemState} (hops : ∀ op ∈ ops, op.BrkInMemory)
    (h : memAfter g p overcommitMemory ops = some m) : Reach (brkSystem g p overcommitMemory) m := by
  simp only [memAfter, do_eq_some] at h
  rcases h with ⟨m0, hm0, hrun⟩
  refine Reach.runCalls_of_mem ?_ (Reach.init hm0) hrun
  intro op hop t t' ht
  simp only [Option.map_eq_some_iff] at ht
  rcases ht with ⟨⟨t1, r⟩, hcall, rfl⟩
  exact ⟨⟨r, hcall⟩, hops op hop⟩

/-- Up into the third GB, a failed growth, and back to the first pages. -/
def upAndDown : List MemOp :=
  [.brk (fun _ => .ok) 0xa0000000, .tbrk (fun _ => .ok) 0x7f80000000,
    .brk (fun i => if i = 13 then .noMem else .ok) 0x400000000, .brk (fun _ => .ok) 0x200000]

theorem lower_tables_exact_up_and_down :
    ∃ m, memAfter geo512 onePage false upAndDown = some m ∧ LowerExact m := by
  have hops : ∀ op ∈ upAndDown, op.InRange geo512 := by
    simp only [upAndDown, forall_mem_cons, not_mem_nil, false_implies, implies_true,
      MemOp.InRange]
    decide
  obtain ⟨m, hm, -⟩ := memAfter_spec geo512 onePage false hops
  refine ⟨m, hm, lower_tables_exact geo512 rfl onePage false (memAfter_reach ?_ hm)⟩
  simp only [upAndDown, forall_mem_cons, not_mem_nil, false_implies, implies_true,
    MemOp.BrkInMemory]
  decide

def fewPages : MemState :=
  evaluate (memAfter geo512 onePage false [.tbrk (fun _ => .ok) 0x7fffa00000])

theorem upper_tables_exact_few_pages :
    ((fewPages.pt.pd2 510).p ↔ (Entry.pd2 510).Meets fewPages.tbrk guestMemTopVa) ∧
      ((fewPages.pt.pdpt0 510).p ↔ (Entry.pdpt0 510).Meets fewPages.tbrk guestMemTopVa) := by
  have hrun : memAfter geo512 onePage false [.tbrk (fun _ => .ok) 0x7fffa00000] =
      some fewPages := eq_eval
  obtain ⟨hpage, hgib⟩ := upper_tables_exact geo512 rfl onePage false
  refine ⟨hpage 510 (by decide) fewPages ?_, hgib fewPages ?_ 510 (by decide +kernel) (by decide)⟩
  · -- the one call starts from the top, in the last GB, and is not about the page behind the end
    simp only [memAfter, runCalls, Option.bind_eq_bind, Option.bind_eq_some_iff,
      Option.map_eq_some_iff] at hrun
    rcases hrun with ⟨m0, hm0, m1, ⟨⟨m2, r⟩, hcall, rfl⟩, hrun⟩
    cases hrun
    rcases kmMemInit_spec geo512 onePage false with ⟨m0', hm0', hfresh⟩
    cases hm0'.symm.trans hm0
    refine Reach.step (Reach.init hm0) ⟨⟨r, hcall⟩, .inr ⟨by decide, ?_, ?_⟩⟩
    · rintro ⟨⟨hlow, -⟩, -⟩
      rw [hfresh.tbrk] at hlow
      exact absurd hlow (by decide)
    rintro ⟨hend, -⟩
    exact absurd hend (by decide)
  refine memAfter_reach ?_ hrun
  simp only [forall_mem_cons, not_mem_nil, false_implies, implies_true,
    MemOp.BrkInMemory, and_true]

/-- Down into the GB below the last one, and up again to a page of the last GB. -/
def crossedUp : MemState :=
  evaluate (memAfter geo512 onePage false
    [.tbrk (fun _ => .ok) 0x7fb2000000, .tbrk (fun _ => .ok) 0x7fe5800000])

/-- The last pages below the new `tbrk` are still present, and so is the page behind the end of guest
memory. -/
theorem upper_tables_stale :
    ((crossedUp.pt.pd2 299).p ∧ ¬ (Entry.pd2 299).Meets crossedUp.tbrk guestMemTopVa) ∧
      ((crossedUp.pt.pd2 511).p ∧ ¬ (Entry.pd2 511).Meets crossedUp.tbrk guestMemTopVa) := by
  simp only [meets_iff]
  decide +kernel

end KontainMonitor.Mem
