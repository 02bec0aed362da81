import KontainMonitor.Mem.Plugs

/-!
# Entries — the present bits of the page tables

The monitor shows guest memory to the payload through three tables: the 2MB entries of the first GB
(`pd0`) and of the last (`pd2`), and the 1GB entries between them (`pdpt0`).  Here they are one kind
of thing, an `Entry`, with the page of guest virtual addresses that it stands for.  A slot that is
mapped changes no present bit, a slot that is freed clears the entries of its pages
(`Freed`), and the rest is done by the two fix-ups.
-/

namespace KontainMonitor.Mem

/-! ## Entries and their pages -/

inductive Entry
  | pd0 (j : Nat)
  | pdpt0 (k : Nat)
  | pd2 (j : Nat)
  deriving DecidableEq, Repr

open Entry

/-- The entries that are pages; `pdpt0` starts and ends with the pointers to the other two. -/
def Entry.Valid : Entry → Prop
  | .pd0 j => j < 512
  | .pdpt0 k => 1 ≤ k ∧ k < 511
  | .pd2 j => j < 512

def Entry.get (pt : PageTables) : Entry → Pte
  | .pd0 j => pt.pd0 j
  | .pdpt0 k => pt.pdpt0 k
  | .pd2 j => pt.pd2 j

def Entry.gva : Entry → Nat
  | .pd0 j => j * pdeRegion
  | .pdpt0 k => k * pdpteRegion
  | .pd2 j => 511 * pdpteRegion + j * pdeRegion

def Entry.size : Entry → Nat
  | .pdpt0 _ => pdpteRegion
  | _ => pdeRegion

@[simp] theorem Entry.gva_pd0 (j : Nat) : (Entry.pd0 j).gva = j * 2097152 := rfl
@[simp] theorem Entry.gva_pdpt0 (k : Nat) : (Entry.pdpt0 k).gva = k * 1073741824 := rfl
@[simp] theorem Entry.gva_pd2 (j : Nat) : (Entry.pd2 j).gva = 548682072064 + j * 2097152 := rfl
@[simp] theorem Entry.size_pd0 (j : Nat) : (Entry.pd0 j).size = 2097152 := rfl
@[simp] theorem Entry.size_pdpt0 (k : Nat) : (Entry.pdpt0 k).size = 1073741824 := rfl
@[simp] theorem Entry.size_pd2 (j : Nat) : (Entry.pd2 j).size = 2097152 := rfl

/-- Where pages are: 1GB pages between the first GB and the last, 2MB pages in these two. -/
theorem Entry.Valid.shape {e : Entry} (he : e.Valid) :
    (e.size = 1073741824 ∧ e.gva % 1073741824 = 0 ∧ 1073741824 ≤ e.gva ∧ e.gva < 548682072064) ∨
    (e.size = 2097152 ∧ e.gva % 2097152 = 0 ∧
      (e.gva < 1073741824 ∨ 548682072064 ≤ e.gva ∧ e.gva < 549755813888)) := by
  cases e with
  | pd0 j =>
    have hj : j < 512 := he
    rw [gva_pd0, size_pd0]
    omega
  | pdpt0 k =>
    obtain ⟨hk1, hk2⟩ : 1 ≤ k ∧ k < 511 := he
    rw [gva_pdpt0, size_pdpt0]
    omega
  | pd2 j =>
    have hj : j < 512 := he
    rw [gva_pd2, size_pd2]
    omega

def Entry.Meets (e : Entry) (lo hi : Nat) : Prop :=
  ∃ a, (e.gva ≤ a ∧ a < e.gva + e.size) ∧ lo ≤ a ∧ a < hi

theorem Entry.size_pos (e : Entry) : 0 < e.size := by
  cases e <;> simp

theorem Entry.meets_iff (e : Entry) (lo hi : Nat) :
    e.Meets lo hi ↔ e.gva < hi ∧ lo < e.gva + e.size ∧ lo < hi := by
  have hsize := e.size_pos
  constructor
  · rintro ⟨a, ha, hlo, hhi⟩
    omega
  intro h
  exact ⟨max e.gva lo, by omega, by omega, by omega⟩

/-- The page lies in slot `i`, as the zone shows it. -/
def Entry.Within (g : Geometry) (upper : Bool) (i : Int) (e : Entry) : Prop :=
  memregBase g i + zoneOffset g upper ≤ e.gva ∧ e.gva + e.size ≤ memregTop g i + zoneOffset g upper

def Entry.Present (pt : PageTables) (e : Entry) : Prop := (e.get pt).p

@[simp] theorem Entry.present_pd0 (pt : PageTables) (j : Nat) :
    (Entry.pd0 j).Present pt ↔ (pt.pd0 j).p := Iff.rfl

@[simp] theorem Entry.present_pdpt0 (pt : PageTables) (k : Nat) :
    (Entry.pdpt0 k).Present pt ↔ (pt.pdpt0 k).p := Iff.rfl

@[simp] theorem Entry.present_pd2 (pt : PageTables) (j : Nat) :
    (Entry.pd2 j).Present pt ↔ (pt.pd2 j).p := Iff.rfl

section

variable {g : Geometry} {m m' : MemState} {host : Int → AllocOutcome} {idx : Int} {upper : Bool}
variable {pt pt' : PageTables} {rc : Int} {e : Entry}
variable {reg : MemReg} {size base : Nat} {F : Int → Prop} {l u : Int}
variable {pt1 : PageTables} {i : Int} {x : Grown} {j : Nat}

/-! ## Mapping a slot -/

def SamePresent (pt pt' : PageTables) : Prop := ∀ e : Entry, e.Present pt' ↔ e.Present pt

theorem SamePresent.refl (pt : PageTables) : SamePresent pt pt := fun _ => Iff.rfl

theorem SamePresent.trans {pt2 pt3 : PageTables} (h₁ : SamePresent pt1 pt2)
    (h₂ : SamePresent pt2 pt3) : SamePresent pt1 pt3 := fun e => (h₂ e).trans (h₁ e)

/-- `pde_2mb_set` and `pdpte_1g_set` leave the present bit alone. -/
theorem Pte.setPage_p (shift : Nat) (e : Pte) (addr : Nat) : (Pte.setPage shift e addr).p = e.p := rfl

theorem SamePresent.of_tables (h0 : ∀ j, (pt'.pd0 j).p = (pt.pd0 j).p)
    (h1 : ∀ j, (pt'.pdpt0 j).p = (pt.pdpt0 j).p) (h2 : ∀ j, (pt'.pd2 j).p = (pt.pd2 j).p) :
    SamePresent pt pt' := by
  intro e
  cases e with
  | pd0 j => exact iff_of_eq (congrArg (· = true) (h0 j))
  | pdpt0 k => exact iff_of_eq (congrArg (· = true) (h1 k))
  | pd2 j => exact iff_of_eq (congrArg (· = true) (h2 j))

theorem setPml4Hierarchy_present (h : setPml4Hierarchy g reg upper pt = some pt') :
    SamePresent pt pt' := by
  have h2m : ∀ (l : List Nat) (t : Nat → Pte) (j : Nat),
      (Table.forEach l pdeSlot (fun addr e => pde2mbSet e addr) t j).p = (t j).p := fun l t j =>
    Table.forEach_proj Pte.p (fun addr e => Pte.setPage_p 21 e addr) l pdeSlot t j
  simp only [setPml4Hierarchy, pml4Hierarchy] at h
  split at h
  · cases upper with
    | false =>
      cases h
      exact .of_tables (h2m _ _) (fun _ => rfl) fun _ => rfl
    | true =>
      cases h
      exact .of_tables (fun _ => rfl) (fun _ => rfl) (h2m _ _)
  simp only [do_eq_some, return_eq_some] at h
  rcases h with ⟨-, -, gva, -, rfl⟩
  refine .of_tables (fun _ => rfl) (fun j => ?_) fun _ => rfl
  exact Table.forEach_proj Pte.p (fun addr e => Pte.setPage_p 30 e _) _ pdpteSlot _ j

theorem setPages_present (h : setPages g m reg upper = some m') : SamePresent m.pt m'.pt := by
  simp only [setPages, do_eq_some, return_eq_some] at h
  rcases h with ⟨pt, hpt, rfl⟩
  split at hpt
  · exact setPml4Hierarchy_present hpt
  cases hpt
  exact .refl _

theorem growSlot_present (h : growSlot g host m idx upper = some (m', rc)) :
    SamePresent m.pt m'.pt := by
  rcases growSlot_end h with ⟨calls, regs, rfl | ⟨reg, hset⟩⟩
  · exact .refl _
  have hs := setPages_present hset
  exact hs

/-! ## Freeing a slot -/

/-- The zone shows the slot where it belongs, or the entry is not one that a slot of the first GB
would be taken for in the top zone. -/
def Clearable (g : Geometry) (upper : Bool) (idx : Int) (e : Entry) : Prop :=
  slotInZone g upper idx ∨ (upper ∧ 0 < g.guestVaOffset ∧ ∀ j, e ≠ .pd2 j)

/-- An entry that the loop over the slot's pages has cleared, or left alone. -/
theorem present_of_clear {x y : Pte} {c w : Prop} [Decidable c]
    (hx : x = if c then Pte.zero else y) (hc : c ↔ w) : x.p ↔ y.p ∧ ¬ w := by
  rw [← hc, hx]
  by_cases h : c
  · simp [h, Pte.zero]
  · simp [h]

/-- The loop of `clear_pml4_hierarchy` over a table that holds the pages from `c * 512` on. -/
theorem clear_pages_index (step c : Nat) (h0 : 0 < step) (hb : step ∣ base) (hs : step ∣ size)
    (hlo : c * (512 * step) ≤ base) (hhi : base + size ≤ (c + 1) * (512 * step)) (hj : j < 512)
    (t : Nat → Pte) :
    Table.forEach (Table.addrsBy base size step) (Table.pageSlot step) (fun _ _ => Pte.zero) t j =
      if base ≤ (c * 512 + j) * step ∧ (c * 512 + j) * step + step ≤ base + size then Pte.zero
      else t j := by
  rw [Table.forEach_pages_index h0 hb hs hlo hhi hj]
  obtain ⟨q, rfl⟩ := hb
  obtain ⟨q', rfl⟩ := hs
  refine if_congr (and_congr_right fun _ => ?_) rfl rfl
  rw [← Nat.mul_add, mul_comm _ step, ← Nat.mul_succ]
  exact ⟨fun h => Nat.mul_le_mul_left _ (Nat.lt_of_mul_lt_mul_left h),
    fun h => Nat.mul_lt_mul_of_pos_left (Nat.le_of_mul_le_mul_left h h0) h0⟩

theorem clear_pde_index (lo c : Nat) (hc : lo = c * 1073741824) (hb : pdeRegion ∣ base)
    (hs : pdeRegion ∣ size) (hlo : lo ≤ base) (hhi : base + size ≤ lo + 1073741824) (hj : j < 512)
    (t : Nat → Pte) :
    Table.forEach (Table.addrsBy base size pdeRegion) pdeSlot (fun _ _ => Pte.zero) t j =
      if base ≤ lo + j * 2097152 ∧ lo + j * 2097152 + 2097152 ≤ base + size then Pte.zero
      else t j := by
  have hidx := clear_pages_index pdeRegion c (by decide) hb hs (by rw [pdeRegion_eq]; omega)
    (by rw [pdeRegion_eq]; omega) hj t
  have hsum : (c * 512 + j) * pdeRegion = lo + j * 2097152 := by
    rw [pdeRegion_eq]
    omega
  rw [hsum, pdeRegion_eq] at hidx
  rw [pdeRegion_eq]
  exact hidx

theorem clear_pdpte_index {k : Nat} (hb : pdpteRegion ∣ base) (hs : pdpteRegion ∣ size)
    (hhi : base + size ≤ 549755813888) (hk : k < 512) (t : Nat → Pte) :
    Table.forEach (Table.addrsBy base size pdpteRegion) pdpteSlot (fun _ _ => Pte.zero) t k =
      if base ≤ k * 1073741824 ∧ k * 1073741824 + 1073741824 ≤ base + size then Pte.zero
      else t k := by
  have hidx := clear_pages_index pdpteRegion 0 (by decide) hb hs (by omega)
    (by simpa [pdpteRegion, gib] using hhi) hk t
  simp only [zero_mul, zero_add] at hidx
  exact hidx

theorem memregTop_le (h1 : 1 ≤ i) (hi : i < g.lastMemIdx) :
    memregTop g i ≤ g.guestMaxPhysmem - guestMemStartVa := by
  rw [memregTop_eq g (by omega) hi, ← memregBase_last]
  exact memregBase_mono g (by omega) (by omega) le_rfl

/-- A slot of less than 1GB is shown by the 2MB entries of its zone. -/
theorem clearPml4Hierarchy_small (h1 : 1 ≤ idx) (hi : idx < g.lastMemIdx) (he : e.Valid)
    (hz : Clearable g upper idx e) (hs : memregSize g idx < gib)
    (h : clearPml4Hierarchy g (pluggedReg g idx) upper pt = some pt') :
    e.Present pt' ↔ e.Present pt ∧ ¬ e.Within g upper idx := by
  obtain ⟨n, hsizes⟩ := g.sizes
  have hadd := memregBase_add g idx
  have htop := memregTop_le h1 hi
  have hpos := memregSize_pos g idx
  have hsmall := memreg_small g h1 hi hs
  obtain ⟨hdb, hds⟩ := memreg_pde_aligned g h1 hi
  have hlt : memregSize g idx < pdpteRegion := hs
  simp only [clearPml4Hierarchy, pml4Hierarchy, pluggedReg, hlt, if_true, Option.some.injEq] at h
  -- the entries of the other two tables are not touched, and their pages are not in the slot
  have hkeep : ∀ x : Pte, ¬ e.Within g upper idx → (x.p ↔ x.p ∧ ¬ e.Within g upper idx) :=
    fun x hout => (and_iff_left hout).symm
  cases upper with
  | false =>
    have hlow : memregTop g idx ≤ gib := by
      rcases hz with hz | ⟨hz, -⟩
      · simp only [slotInZone, Bool.false_eq_true, if_false] at hz
        omega
      · cases hz
    simp only [Bool.false_eq_true, if_false] at h
    subst h
    cases e with
    | pd0 j =>
      rw [present_pd0, present_pd0]
      refine present_of_clear (clear_pde_index 0 0 rfl hdb hds (by omega) (by omega) he pt.pd0) ?_
      simp only [Entry.Within, gva_pd0, size_pd0, zoneOffset, Bool.false_eq_true,
        if_false]
      omega
    | pdpt0 k =>
      rw [present_pdpt0, present_pdpt0]
      refine hkeep _ ?_
      simp only [Entry.Within, gva_pdpt0, size_pdpt0, zoneOffset,
        Bool.false_eq_true, if_false]
      omega
    | pd2 j =>
      rw [present_pd2, present_pd2]
      refine hkeep _ ?_
      simp only [Entry.Within, gva_pd2, size_pd2, zoneOffset, Bool.false_eq_true,
        if_false]
      omega
  | true =>
    simp only [if_true] at h
    subst h
    cases e with
    | pd0 j =>
      have hj : j < 512 := he
      rw [present_pd0, present_pd0]
      refine hkeep _ ?_
      simp only [Entry.Within, gva_pd0, size_pd0, zoneOffset, if_true]
      rcases hz with hz | ⟨-, hz, -⟩
      · simp only [slotInZone, if_true] at hz
        omega
      · omega
    | pdpt0 k =>
      rw [present_pdpt0, present_pdpt0]
      refine hkeep _ ?_
      simp only [Entry.Within, gva_pdpt0, size_pdpt0, zoneOffset, if_true]
      omega
    | pd2 j =>
      have hhigh : g.guestMaxPhysmem - gib ≤ memregBase g idx := by
        rcases hz with hz | ⟨-, -, hz⟩
        · simp only [slotInZone, if_true] at hz
          omega
        · exact absurd rfl (hz j)
      rw [present_pd2, present_pd2]
      refine present_of_clear (clear_pde_index (g.guestMaxPhysmem - 1073741824) (n - 1)
        (by omega) hdb hds (by omega) (by omega) he pt.pd2) ?_
      simp only [Entry.Within, gva_pd2, size_pd2, zoneOffset, if_true]
      omega

/-- A larger slot is shown by 1GB entries, wherever it is. -/
theorem clearPml4Hierarchy_large (h1 : 1 ≤ idx) (hi : idx < g.lastMemIdx) (he : e.Valid)
    (hs : gib ≤ memregSize g idx)
    (h : clearPml4Hierarchy g (pluggedReg g idx) upper pt = some pt') :
    e.Present pt' ↔ e.Present pt ∧ ¬ e.Within g upper idx := by
  obtain ⟨n, hn2, hn, hmax, hoff⟩ := g.gibs
  have hconsts := layout_consts
  have hadd := memregBase_add g idx
  obtain ⟨hdb, hds, hlo, hhi⟩ := memreg_large g h1 hi hs
  have hge : ¬ memregSize g idx < pdpteRegion := not_lt.2 hs
  simp only [clearPml4Hierarchy, pml4Hierarchy, pluggedReg, hge, if_false, do_eq_some,
    return_eq_some] at h
  rcases h with ⟨-, -, gva, hgva, rfl⟩
  have hzone : gva = memregBase g idx + zoneOffset g upper := by
    cases upper with
    | false => simpa [zoneOffset] using hgva.symm
    | true =>
      simp only [if_true, gpaToUpperGva, kmAssert_bind_eq_some, Option.pure_def,
        Option.some.injEq] at hgva
      exact hgva.2.symm
  subst hzone
  have hofflo : zoneOffset g upper ≤ (512 - n) * 1073741824 := by
    cases upper
    · exact Nat.zero_le _
    · exact le_of_eq hoff
  have hdo : pdpteRegion ∣ zoneOffset g upper := by
    cases upper
    · exact dvd_zero _
    · exact ⟨512 - n, by rw [zoneOffset, if_pos rfl, hoff, pdpteRegion_eq, mul_comm]⟩
  have hkeep : ∀ x : Pte, ¬ e.Within g upper idx → (x.p ↔ x.p ∧ ¬ e.Within g upper idx) :=
    fun x hout => (and_iff_left hout).symm
  cases e with
  | pd0 j =>
    have hj : j < 512 := he
    rw [present_pd0, present_pd0]
    refine hkeep _ ?_
    simp only [Entry.Within, gva_pd0, size_pd0]
    omega
  | pdpt0 k =>
    obtain ⟨hk1, hk2⟩ : 1 ≤ k ∧ k < 511 := he
    rw [present_pdpt0, present_pdpt0]
    refine present_of_clear (clear_pdpte_index (Nat.dvd_add hdb hdo) hds (by omega) (by omega)
      pt.pdpt0) ?_
    simp only [Entry.Within, gva_pdpt0, size_pdpt0]
    omega
  | pd2 j =>
    rw [present_pd2, present_pd2]
    refine hkeep _ ?_
    simp only [Entry.Within, gva_pd2, size_pd2]
    omega

/-- `km_free_region` clears the entries of the slot's pages and no others. -/
theorem kmFreeRegion_present (hk : g.vmType = .kvm) (hw : WellPlugged g m) (h1 : 1 ≤ idx)
    (hi : idx < g.lastMemIdx) (he : e.Valid) (hz : Clearable g upper idx e)
    (h : kmFreeRegion g m idx upper = some m') :
    e.Present m'.pt ↔ e.Present m.pt ∧ ¬ e.Within g upper idx := by
  simp only [kmFreeRegion, clearPages, hk, if_true, do_eq_some, return_eq_some,
    kmAssert_eq_some] at h
  rcases h with ⟨-, hsize, m1, ⟨pt1, hpt, rfl⟩, rfl⟩
  rw [hw idx h1 hi hsize] at hpt
  rcases lt_or_ge (memregSize g idx) gib with hs | hs
  · exact clearPml4Hierarchy_small h1 hi he hz hs hpt
  · exact clearPml4Hierarchy_large h1 hi he hs hpt

/-! ## The loops -/

/-- Some slot of a set holds the entry's page. -/
def Entry.In (g : Geometry) (upper : Bool) (F : Int → Prop) (e : Entry) : Prop :=
  ∃ i, F i ∧ e.Within g upper i

/-- The slots of the set have been freed: their entries are cleared, and nothing else. -/
def Freed (g : Geometry) (upper : Bool) (F : Int → Prop) (e : Entry) (pt pt' : PageTables) : Prop :=
  e.Present pt' ↔ e.Present pt ∧ ¬ e.In g upper F

theorem Freed.refl (hF : ∀ i, ¬ F i) (pt : PageTables) : Freed g upper F e pt pt :=
  (and_iff_left (fun ⟨i, hi, _⟩ => hF i hi)).symm

theorem Freed.congr {F' : Int → Prop} (h : Freed g upper F e pt pt') (hF : ∀ i, F i ↔ F' i) :
    Freed g upper F' e pt pt' := by
  have hset : F = F' := funext fun i => propext (hF i)
  exact hset ▸ h

/-- One more slot. -/
theorem Freed.add (h : Freed g upper F e pt pt1)
    (hpt : e.Present pt' ↔ e.Present pt1 ∧ ¬ e.Within g upper idx) :
    Freed g upper (fun i => F i ∨ i = idx) e pt pt' := by
  rw [Freed] at h ⊢
  rw [hpt, h, and_assoc]
  refine and_congr_right fun _ => ?_
  constructor
  · rintro ⟨hF, hidx⟩ ⟨i, hi | rfl, hin⟩
    · exact hF ⟨i, hi, hin⟩
    · exact hidx hin
  intro h'
  exact ⟨fun ⟨i, hi, hin⟩ => h' ⟨i, .inl hi, hin⟩, fun hin => h' ⟨idx, .inr rfl, hin⟩⟩

variable {arg n : Nat}

/-- A growing loop: no present bit changes, and the slots it goes through start below the
argument. -/
theorem brkGrow_present (hl : 0 ≤ l) (hlast : l < g.lastMemIdx)
    (harg : arg ≤ g.guestMaxPhysmem - guestMemStartVa) (hw : WellPlugged g m)
    (h : Loop.run (brkGrowStep g host arg) n (m, l) = some x) :
    SamePresent m.pt x.mem.pt ∧ WellPlugged g x.mem ∧ l ≤ x.idx ∧ x.idx < g.lastMemIdx ∧
      ∀ i, l < i → i ≤ x.idx → memregBase g i < arg := by
  refine Loop.run_sum
    (I := fun s : MemState × Int => SamePresent m.pt s.1.pt ∧ WellPlugged g s.1 ∧ l ≤ s.2 ∧
      s.2 < g.lastMemIdx ∧ ∀ i, l < i → i ≤ s.2 → memregBase g i < arg) ?_
    ⟨.refl _, hw, le_rfl, hlast, fun i h1 h2 => absurd h2 (not_le.2 h1)⟩ h
  rintro ⟨m1, i1⟩ y ⟨hsame, hw1, hl1, hi1, hall⟩ hstep
  rcases brkGrowStep_cases hstep with rfl | ⟨htop, m2, rc, hg, rfl | ⟨-, rfl⟩⟩
  · exact ⟨hsame, hw1, hl1, hi1, hall⟩
  · exact ⟨hsame.trans (growSlot_present hg), growSlot_wellPlugged hw1 hg, hl1, hi1, hall⟩
  rw [memregTop_eq g (by omega) hi1] at htop
  have hne : i1 + 1 ≠ g.lastMemIdx := by
    intro heq
    rw [heq, memregBase_last] at htop
    omega
  refine ⟨hsame.trans (growSlot_present hg), growSlot_wellPlugged hw1 hg, by simp only; omega,
    by simp only; omega, fun i h1 h2 => ?_⟩
  rcases lt_or_ge i1 i with hlt | hge
  · have heq : i = i1 + 1 := by
      simp only at h2
      omega
    exact heq ▸ htop
  · exact hall i h1 hge

/-- Freeing slots clears their entries. -/
theorem Frees.present (h : Frees g upper F m m') (hk : g.vmType = .kvm) (hw : WellPlugged g m)
    (he : e.Valid) (hF : ∀ i, F i → guestSlot g i ∧ Clearable g upper i e) :
    Freed g upper F e m.pt m'.pt ∧ WellPlugged g m' := by
  induction h with
  | none hnone => exact ⟨.refl hnone _, hw⟩
  | slot _ hfree hG ih =>
    obtain ⟨hfreed, hw1⟩ := ih hw fun i hi => hF i ((hG i).2 (.inl hi))
    obtain ⟨⟨h1, hi⟩, hz⟩ := hF _ ((hG _).2 (.inr rfl))
    exact ⟨(hfreed.add (kmFreeRegion_present hk hw1 h1 hi he hz hfree)).congr fun i => (hG i).symm,
      kmFreeRegion_wellPlugged hw1 h1 hi hfree⟩

/-- The same for the top zone.  The slots that it goes through end above the argument. -/
theorem tbrkGrow_present (hu : u ≤ g.lastMemIdx) (hw : WellPlugged g m)
    (h : Loop.run (tbrkGrowStep g host arg) n (m, u) = some x) :
    SamePresent m.pt x.mem.pt ∧ WellPlugged g x.mem ∧ x.idx ≤ u ∧
      ∀ i, 1 ≤ i → x.idx ≤ i → i < u → arg < memregTop g i + g.guestVaOffset := by
  refine Loop.run_sum
    (I := fun s : MemState × Int => SamePresent m.pt s.1.pt ∧ WellPlugged g s.1 ∧ s.2 ≤ u ∧
      ∀ i, 1 ≤ i → s.2 ≤ i → i < u → arg < memregTop g i + g.guestVaOffset) ?_
    ⟨.refl _, hw, le_rfl, fun i _ h1 h2 => absurd h1 (not_le.2 h2)⟩ h
  rintro ⟨m1, i1⟩ y ⟨hsame, hw1, hi1, hall⟩ hstep
  simp only at hi1 hall
  rcases tbrkGrowStep_cases hstep with ⟨-, ⟨-, rfl⟩ | ⟨hmore, m2, rc, hg, rfl | ⟨-, rfl⟩⟩⟩
  · exact ⟨hsame, hw1, hi1, hall⟩
  · exact ⟨hsame.trans (growSlot_present hg), growSlot_wellPlugged hw1 hg, hi1, hall⟩
  refine ⟨hsame.trans (growSlot_present hg), growSlot_wellPlugged hw1 hg, by simp only; omega,
    fun i h1 h2 h3 => ?_⟩
  rcases lt_or_ge i i1 with hlt | hge
  · have heq : i + 1 = i1 := by
      simp only at h2
      omega
    rw [memregTop_eq g (by omega) (by omega), heq]
    exact hmore
  · exact hall i h1 hge h3

end

end KontainMonitor.Mem
