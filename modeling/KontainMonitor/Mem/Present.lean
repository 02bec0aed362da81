import KontainMonitor.Mem.Entries
import KontainMonitor.Mem.Runs

/-!
# Present — which pages the guest can see

An entry should be present exactly when its page meets the memory below `brk` or the memory from
`tbrk` on (`Exact`).  Each of the two calls keeps this for each entry on its own, so that the entries
for which it goes wrong do not disturb the others.
-/

namespace KontainMonitor.Mem

open Entry Option Transition

/-- The page meets the memory that the two zones show. -/
def Shown (m : MemState) (e : Entry) : Prop :=
  e.Meets guestMemStartVa m.brk ∨ e.Meets m.tbrk guestMemTopVa

def Exact (m : MemState) (e : Entry) : Prop := e.Present m.pt ↔ Shown m e

structure Orderly (g : Geometry) (m : MemState) : Prop extends BreaksOk g m where
  brk_lo : guestMemStartVa ≤ m.brk
  plugged : WellPlugged g m

section

variable {g : Geometry} {m m' : MemState} {host : Int → AllocOutcome} {pt : PageTables} {e : Entry}
variable {old new arg r : Nat}
variable {y : Pte} {c w A A' T I gone : Prop} {b t : Nat} {i : Int} {upper : Bool}

/-! ## The fix-ups -/

theorem present_raise [Decidable c] (hc : c ↔ w) :
    (if c then { y with p := true } else y).p ↔ y.p ∨ w := by
  rw [← hc]
  by_cases h : c
  · simp [h]
  · simp [h]

theorem present_lower [Decidable c] (hc : c ↔ w) :
    (if c then { y with p := false } else y).p ↔ y.p ∧ ¬ w := by
  rw [← hc]
  by_cases h : c
  · simp [h]
  · simp [h]

theorem fixupBottom_grow (he : e.Valid) (ho : guestMemStartVa ≤ old) (hnew : new ≤ 548682072064)
    (hlt : old < new) : e.Present (fixupBottomPageTables old new pt) ↔ e.Present pt ∨
      (guestMemStartVa ≤ e.gva ∧ e.gva < new ∧ old ≤ e.gva + e.size) := by
  have hconsts := layout_consts
  have hmaxpde : maxPdeSlot = 511 := by decide
  cases e with
  | pd0 j =>
    have hj : j < 512 := he
    rw [present_pd0, present_pd0, fixupBottomPageTables_pd0, if_pos hlt]
    refine present_raise ?_
    simp only [gva_pd0, size_pd0, pdpteSlot, pdeSlot, Table.pageSlot, pdpteRegion_eq, pdeRegion_eq,
      hmaxpde]
    split_ifs <;> omega
  | pdpt0 k =>
    obtain ⟨hk1, hk2⟩ : 1 ≤ k ∧ k < 511 := he
    rw [present_pdpt0, present_pdpt0, fixupBottomPageTables_pdpt0, if_pos hlt]
    refine present_raise ?_
    simp only [gva_pdpt0, size_pdpt0, pdpteSlot, Table.pageSlot, pdpteRegion_eq]
    split_ifs <;> omega
  | pd2 j =>
    rw [present_pd2, present_pd2, fixupBottomPageTables_pd2]
    simp only [gva_pd2, size_pd2]
    exact ⟨.inl, fun h => h.resolve_right (by omega)⟩

/-- The clamp at 1 keeps the first page. -/
theorem fixupBottom_shrink (he : e.Valid) (hn : guestMemStartVa ≤ new) (hold : old ≤ 548682072064)
    (hle : new ≤ old) : e.Present (fixupBottomPageTables old new pt) ↔ e.Present pt ∧
      ¬ (2 * guestMemStartVa ≤ e.gva ∧ new ≤ e.gva ∧ e.gva < old) := by
  have hconsts := layout_consts
  have hmaxpde : maxPdeSlot = 511 := by decide
  cases e with
  | pd0 j =>
    have hj : j < 512 := he
    rw [present_pd0, present_pd0, fixupBottomPageTables_pd0, if_neg (not_lt.2 hle)]
    refine present_lower ?_
    simp only [gva_pd0, pdpteSlot, pdeSlot, Table.pageSlot, pdpteRegion_eq, pdeRegion_eq, hmaxpde]
    split_ifs <;> omega
  | pdpt0 k =>
    obtain ⟨hk1, hk2⟩ : 1 ≤ k ∧ k < 511 := he
    rw [present_pdpt0, present_pdpt0, fixupBottomPageTables_pdpt0,
      if_neg (not_lt.2 hle)]
    refine present_lower ?_
    simp only [gva_pdpt0, pdpteSlot, Table.pageSlot, pdpteRegion_eq]
    omega
  | pd2 j =>
    rw [present_pd2, present_pd2, fixupBottomPageTables_pd2]
    simp only [gva_pd2]
    exact ⟨fun h => ⟨h, by omega⟩, And.left⟩

theorem fixupTop_grow (he : e.Valid) (hnew : gib ≤ new) (hold : old ≤ guestMemTopVa)
    (hlt : new < old) : e.Present (fixupTopPageTables old new pt) ↔ e.Present pt ∨
      (new < e.gva + e.size ∧ e.gva ≤ old) := by
  have hconsts := layout_consts
  have hmax : maxPdpteSlot = 511 := by decide
  cases e with
  | pd0 j =>
    have hj : j < 512 := he
    rw [present_pd0, present_pd0, fixupTopPageTables_pd0]
    simp only [gva_pd0, size_pd0]
    exact ⟨.inl, fun h => h.resolve_right (by omega)⟩
  | pdpt0 k =>
    obtain ⟨hk1, hk2⟩ : 1 ≤ k ∧ k < 511 := he
    rw [present_pdpt0, present_pdpt0, fixupTopPageTables_pdpt0, if_pos hlt]
    refine present_raise ?_
    simp only [gva_pdpt0, size_pdpt0, pdpteSlot, Table.pageSlot, pdpteRegion_eq, hmax]
    omega
  | pd2 j =>
    rw [present_pd2, present_pd2, fixupTopPageTables_pd2, if_pos hlt]
    refine present_raise ?_
    simp only [gva_pd2, size_pd2, pdpteSlot, pdeSlot, Table.pageSlot, pdpteRegion_eq, pdeRegion_eq, hmax]
    split_ifs <;> omega

/-- Where the clearing loop starts: at the old `tbrk`, but in `pd2` at the entry number of the old
`tbrk` if that is *not* in the last GB, else at 0. -/
def ClearedFrom (old : Nat) : Entry → Prop
  | .pd2 j => old / gib = 511 ∨ pdeSlot old ≤ j
  | e => old < e.gva + e.size

theorem fixupTop_shrink (he : e.Valid) (hold : gib ≤ old) (hnew : new ≤ guestMemTopVa)
    (hle : old ≤ new) : e.Present (fixupTopPageTables old new pt) ↔ e.Present pt ∧
      ¬ (e.gva + e.size ≤ new ∧ ClearedFrom old e) := by
  have hconsts := layout_consts
  have hmax : maxPdpteSlot = 511 := by decide
  cases e with
  | pd0 j =>
    have hj : j < 512 := he
    rw [present_pd0, present_pd0, fixupTopPageTables_pd0]
    simp only [ClearedFrom, gva_pd0, size_pd0]
    exact ⟨fun h => ⟨h, by omega⟩, And.left⟩
  | pdpt0 k =>
    obtain ⟨hk1, hk2⟩ : 1 ≤ k ∧ k < 511 := he
    rw [present_pdpt0, present_pdpt0, fixupTopPageTables_pdpt0, if_neg (not_lt.2 hle)]
    refine present_lower ?_
    simp only [ClearedFrom, gva_pdpt0, size_pdpt0, pdpteSlot, Table.pageSlot, pdpteRegion_eq, hmax]
    omega
  | pd2 j =>
    rw [present_pd2, present_pd2, fixupTopPageTables_pd2, if_neg (not_lt.2 hle)]
    refine present_lower ?_
    simp only [ClearedFrom, gva_pd2, size_pd2, pdpteSlot, pdeSlot, Table.pageSlot, pdpteRegion_eq,
      pdeRegion_eq, hmax, gib_eq]
    split_ifs <;> omega

/-! ## How a call changes an entry

`A` and `T` say that the page meets the memory of the zone that moves and of the one that does not,
`A'` is `A` after the move.  The entry is cleared with its slot (`I`), then raised (`R`) or lowered
(`L`) by the fix-up. -/

theorem shown_raise {R : Prop} (hA : A' ↔ A ∨ R) (hI : I → ¬ A' ∧ ¬ T) :
    ((A ∨ T) ∧ ¬ I) ∨ R ↔ A' ∨ T := by
  tauto

theorem shown_lower {L S : Prop} (hA : A' ↔ A ∧ ¬ L ∧ ¬ S) (hI : I → ¬ A' ∧ ¬ T) (hS : S → A → I)
    (hL : T → ¬ L) : ((A ∨ T) ∧ ¬ I) ∧ ¬ L ↔ A' ∨ T := by
  tauto

/-! ## `brk` -/

theorem Entry.meets_grow (he : e.Valid) (ho : guestMemStartVa ≤ old) (hlt : old < new) :
    e.Meets guestMemStartVa new ↔ e.Meets guestMemStartVa old ∨
      (guestMemStartVa ≤ e.gva ∧ e.gva < new ∧ old ≤ e.gva + e.size) := by
  have hconsts := layout_consts
  rw [meets_iff, meets_iff]
  have hshape := he.shape
  omega

theorem Entry.meets_shrink (he : e.Valid) (hn : guestMemStartVa ≤ new) (hle : new ≤ old) :
    e.Meets guestMemStartVa new ↔ e.Meets guestMemStartVa old ∧
      ¬ (2 * guestMemStartVa ≤ e.gva ∧ new ≤ e.gva ∧ e.gva < old) ∧
      ¬ (e.gva = guestMemStartVa ∧ new = guestMemStartVa) := by
  have hconsts := layout_consts
  rw [meets_iff, meets_iff]
  have hshape := he.shape
  omega

/-- No page belongs to both zones. -/
theorem Entry.not_both (he : e.Valid) (hap : b / gib < t / gib) :
    ¬ (e.gva < b ∧ t < e.gva + e.size) := by
  rw [gib_eq] at hap
  have hshape := he.shape
  omega

theorem Orderly.brkIdx (ho : Orderly g m) :
    gvaToMemregIdx g (m.brk - 1) = some (memregIdx g (m.brk - 1)) := by
  have hlo := ho.brk_lo
  have hap := ho.apart
  obtain ⟨-, -, hhi⟩ := ho.bounds
  rw [gib_eq] at hap
  exact memregIdx_of_gpa (gvaToGpa_low (by omega) (by omega)) (by omega) (by omega)

theorem gvaToMemregIdx_up {v : Nat} (hlo : g.guestVaOffset + gib ≤ v) (hhi : v ≤ guestMemTopVa) :
    gvaToMemregIdx g v = some (memregIdx g (v - g.guestVaOffset)) := by
  have hconsts := layout_consts
  have hadd := g.guestVaOffset_add
  exact memregIdx_of_gpa (gvaToGpa_up (by omega) hhi) (by omega) (by omega)

/-- Pages of slots above that of the last byte `b` lie above it. -/
theorem Entry.Within.above (hin : e.Within g upper i) (h1 : 1 ≤ i) (hi : i < g.lastMemIdx)
    (hlo : guestMemStartVa - 1 ≤ b) (hhi : b ≤ g.guestMaxPhysmem - guestMemStartVa)
    (hb : memregIdx g b < i) : b + zoneOffset g upper < e.gva := by
  have hnot : ¬ memregBase g i ≤ b := fun hle =>
    absurd ((memregIdx_le_iff g h1 (le_of_lt hi) hlo hhi).2 hle) (not_le.2 hb)
  have := hin.1
  omega

/-- Pages of slots below that of an address lie below it. -/
theorem Entry.Within.below (hin : e.Within g upper i) (h1 : 1 ≤ i) (hlo : guestMemStartVa - 1 ≤ t)
    (hhi : t ≤ g.guestMaxPhysmem - guestMemStartVa) (ht : i < memregIdx g t) :
    e.gva + e.size ≤ t + zoneOffset g upper := by
  have hbnd := memregIdx_bounds g hlo hhi
  have hbase : memregBase g (memregIdx g t) ≤ t :=
    (memregIdx_le_iff g (by omega) hbnd.2 hlo hhi).1 le_rfl
  have hmono := memregBase_mono g (by omega : 0 ≤ i + 1) (by omega) hbnd.2
  rw [← memregTop_eq g (by omega) (by omega)] at hmono
  have := hin.2
  omega

/-- The first page above `GUEST_MEM_START_VA` goes with its slot when `brk` moves all the way down. -/
theorem Entry.in_first {F : Int → Prop} (he : e.Valid) (hgva : e.gva = guestMemStartVa) (hF : F 1) :
    e.In g false F := by
  have hconsts := layout_consts
  have hmid := g.midMemIdx_eq
  have hlo := g.bits_lo
  have htop : memregTop g 1 = 4194304 := memregTop_low g (by omega)
  refine ⟨1, hF, ?_⟩
  simp only [Entry.Within, memregBase_one, htop, zoneOffset, Bool.false_eq_true, if_false]
  have hshape := he.shape
  omega

/-- What a move of `brk` to `new` does to an entry: it is cleared with its slot (`gone`), between
the new `brk` and `tbrk`, and then comes the fix-up. -/
structure BrkMoved (g : Geometry) (m m' : MemState) (e : Entry) (new : Nat) (gone : Prop) : Prop where
  brk : m'.brk = new
  tbrk : m'.tbrk = m.tbrk
  lo : guestMemStartVa ≤ new
  apart : new / gib < m.tbrkPa g / gib
  plugged : WellPlugged g m'
  present : ∃ pt, m'.pt = fixupBottomPageTables m.brk new pt ∧
    (e.Present pt ↔ e.Present m.pt ∧ ¬ gone)
  between : gone → new ≤ e.gva ∧ e.gva + e.size ≤ m.tbrk
  first : e.gva = guestMemStartVa → new = guestMemStartVa → guestMemStartVa < m.brk → gone

theorem moveBrk_moved (hk : g.vmType = .kvm) (ho : Orderly g m) (he : e.Valid)
    (hlo : guestMemStartVa ≤ arg) (hapart : arg / gib < m.tbrkPa g / gib)
    (h : moveBrk g host m arg = some (m', r)) : ∃ new gone, BrkMoved g m m' e new gone := by
  obtain ⟨nn, hsizes⟩ := g.sizes
  obtain ⟨-, htlo, hthi⟩ := ho.bounds
  have hbrk := ho.brk_lo
  have hap := ho.apart
  simp only [MemState.tbrkPa] at hap hapart htlo hthi
  have hu := gvaToMemregIdx_up (g := g) (v := m.tbrk) (by omega) ho.tbrk_hi
  simp only [moveBrk, ho.brkIdx, hu, bind_eq_bind, bind_some, bind_eq_some_iff,
    pure_def, Option.some.injEq, Prod.mk.injEq] at h
  rcases h with ⟨x, hgrow, m1, hfree, rfl, -⟩
  obtain ⟨hsame, hx⟩ := brkGrow_same hgrow
  obtain ⟨b, hb', hfrees⟩ := brkFree_frees hfree
  have hsame1 := hsame.trans hfrees.same
  have hnew : guestMemStartVa ≤ x.brk ∧ x.brk / gib < (m.tbrk - g.guestVaOffset) / gib := by
    rcases hx with ⟨-, hxb⟩ | ⟨-, hxb⟩ <;> rw [hxb]
    · exact ⟨hlo, hapart⟩
    · exact ⟨hbrk, hap⟩
  have hnewlt := hnew.2
  rw [gib_eq] at hap hapart hnewlt
  have hl0 := memregIdx_bounds g (a := m.brk - 1) (by omega) (by omega)
  have hllast := memregIdx_lt_last g (a := m.brk - 1) (by omega) (by omega)
  obtain ⟨hpres, hw1, hxge, hxlast, hslots⟩ :=
    brkGrow_present hl0.1 hllast (by omega) ho.plugged hgrow
  cases (memregIdx_of_gpa (g := g) (v := x.brk - 1)
    (gvaToGpa_low (by omega) (by omega)) (by omega) (by omega)).symm.trans hb'
  have hb0 := memregIdx_bounds g (a := x.brk - 1) (by omega) (by omega)
  have hzone : ∀ i, memregIdx g (x.brk - 1) < i → i ≤ x.idx → slotInZone g false i := by
    intro i h1 h2
    refine slotInZone_low (by omega) (by omega) ?_
    rcases lt_or_ge (memregIdx g (m.brk - 1)) i with hlt | hge
    · have := hslots i hlt h2
      omega
    have := (memregIdx_le_iff g (by omega) (by omega) (by omega) (by omega)).1 hge
    omega
  obtain ⟨hfreed, hw2⟩ := hfrees.present hk hw1 he fun i hi =>
    ⟨⟨by omega, by omega⟩, .inl (hzone i hi.1 hi.2.1)⟩
  have hpt : ∀ mm : MemState, (brkProtect g mm x.brk).pt = mm.pt ∧
      (brkProtect g mm x.brk).tbrk = mm.tbrk ∧
      (brkProtect g mm x.brk).vmMemRegs = mm.vmMemRegs := by
    intro mm
    rcases brkProtect_eq g mm x.brk with ⟨calls, hc⟩
    rw [hc]
    exact ⟨rfl, rfl, rfl⟩
  rw [Freed, hpres e] at hfreed
  refine ⟨x.brk, _, ⟨rfl, ?_, hnew.1, hnew.2, ?_, ⟨m1.pt, ?_, hfreed⟩, ?_, ?_⟩⟩
  · simp only [hpt, hk, if_true, hsame1.tbrk]
  · intro i h1 h2
    simp only [hpt, hk, if_true]
    exact hw2 i h1 h2
  · simp only [hpt, hk, if_true, hsame1.brk]
  · rintro ⟨i, ⟨h1, h2, h3⟩, hw⟩
    have habove := hw.above (by omega) (by omega) (by omega) (by omega) h1
    have hbelow := hw.below (by omega) (by omega) hthi h3
    simp only [zoneOffset, Bool.false_eq_true, if_false] at habove hbelow
    omega
  intro hgva hxb hlt
  have hbits := g.bits_lo
  have hmid := g.midMemIdx_eq
  have hbase : memregBase g 2 = 4194304 := memregBase_low g (by omega)
  have h1 := memregIdx_pos g (a := m.brk - 1) (by omega) (by omega)
  have h2 : ¬ 1 ≤ memregIdx g (x.brk - 1) := by
    rw [memregIdx_le_iff g (by decide) (by omega) (by omega) (by omega), memregBase_one]
    omega
  have h3 : 2 ≤ memregIdx g (m.tbrk - g.guestVaOffset) := by
    rw [memregIdx_le_iff g (by decide) (by omega) (by omega) hthi, hbase]
    omega
  exact in_first he hgva ⟨by omega, by omega, by omega⟩

theorem BrkMoved.exact (hm : BrkMoved g m m' e new gone) (ho : Orderly g m) (he : e.Valid)
    (hex : Exact m e) : Exact m' e := by
  obtain ⟨nn, hsizes⟩ := g.sizes
  obtain ⟨-, -, hthi⟩ := ho.bounds
  have hap := ho.apart
  have hnewlt := hm.apart
  rw [gib_eq] at hap hnewlt
  obtain ⟨pt, hpt, hgone⟩ := hm.present
  rw [Exact] at hex
  rw [hex, Shown] at hgone
  have hout : gone → ¬ e.Meets guestMemStartVa new ∧ ¬ e.Meets m.tbrk guestMemTopVa := by
    intro hg
    have := hm.between hg
    rw [meets_iff, meets_iff]
    omega
  rw [Exact, Shown, hpt, hm.brk, hm.tbrk]
  rcases lt_or_ge m.brk new with hlt | hge
  · rw [fixupBottom_grow he ho.brk_lo (by omega) hlt, hgone]
    exact shown_raise (meets_grow he ho.brk_lo hlt) hout
  rw [fixupBottom_shrink he hm.lo (by omega) hge, hgone]
  refine shown_lower (meets_shrink he hm.lo hge) hout ?_ ?_
  · -- `brk` back at its start: the slot goes, so the clamp of the fix-up does no harm
    rintro ⟨hgva, hnew⟩ hmeets
    exact hm.first hgva hnew ((meets_iff e _ _).1 hmeets).2.2
  rintro htop ⟨-, -, hlt⟩
  exact not_both he (b := m.brk) (t := m.tbrk)
    (lt_of_lt_of_le ho.apart (Nat.div_le_div_right (Nat.sub_le _ _)))
    ⟨hlt, ((meets_iff e _ _).1 htop).2.1⟩

/-- `km_mem_brk`, except for the arguments below the start of guest memory. -/
theorem kmMemBrk_exact (hk : g.vmType = .kvm) (ho : Orderly g m) (he : e.Valid)
    (harg : arg = 0 ∨ guestMemStartVa ≤ arg) (h : kmMemBrk g host m arg = some (m', r)) :
    Orderly g m' ∧ (Exact m e → Exact m' e) := by
  have hbreaks := (kmMemBrk_breaks ho.toBreaksOk h).1
  rcases kmMemBrk_moves ho.toBreaksOk h with ⟨rfl, -⟩ | ⟨hne, -, hapart, hmove⟩
  · exact ⟨ho, id⟩
  rcases moveBrk_moved hk ho he (harg.resolve_left hne) hapart hmove with ⟨new, gone, hm⟩
  exact ⟨⟨hbreaks, hm.brk ▸ hm.lo, hm.plugged⟩, hm.exact ho he⟩

/-! ## `tbrk` -/

theorem Entry.meets_top_grow (hlt : new < old) (hold : old ≤ guestMemTopVa)
    (hend : ¬ (e.gva = guestMemTopVa ∧ old = guestMemTopVa)) :
    e.Meets new guestMemTopVa ↔ e.Meets old guestMemTopVa ∨
      (new < e.gva + e.size ∧ e.gva ≤ old) := by
  rw [meets_iff, meets_iff]
  omega

theorem Entry.meets_top_shrink (he : e.Valid) (hle : old ≤ new) (hnew : new ≤ guestMemTopVa) :
    e.Meets new guestMemTopVa ↔ e.Meets old guestMemTopVa ∧
      ¬ (e.gva + e.size ≤ new ∧ ClearedFrom old e) ∧
      ¬ (e.gva + e.size ≤ new ∧ ¬ ClearedFrom old e) := by
  have hconsts := layout_consts
  have hsplit : (¬ (e.gva + e.size ≤ new ∧ ClearedFrom old e) ∧
      ¬ (e.gva + e.size ≤ new ∧ ¬ ClearedFrom old e)) ↔ ¬ e.gva + e.size ≤ new := by
    tauto
  rw [hsplit, meets_iff, meets_iff]
  have hshape := he.shape
  omega

/-- The same as `BrkMoved` for a move of `tbrk`.  The slots of the last GB below the one of the new
`tbrk` go if `tbrk` comes from below. -/
structure TbrkMoved (g : Geometry) (m m' : MemState) (arg : Nat) (e : Entry) (new : Nat)
    (gone : Prop) : Prop where
  target : new = arg ∨ new = m.tbrk
  tbrk : m'.tbrk = new
  brk : m'.brk = m.brk
  hi : new ≤ guestMemTopVa
  lo : g.guestVaOffset + gib ≤ new
  plugged : WellPlugged g m'
  present : ∃ pt, m'.pt = fixupTopPageTables m.tbrk new pt ∧
    (e.Present pt ↔ e.Present m.pt ∧ ¬ gone)
  between : gone → m.brk ≤ e.gva ∧ e.gva + e.size ≤ new
  last : 511 * gib ≤ e.gva → m.tbrk < 511 * gib → 511 * gib ≤ new →
    e.gva + e.size ≤ memregBase g (memregIdx g (new - g.guestVaOffset)) + g.guestVaOffset → gone

/-- The page of an entry of the last GB lies in the slot of its first address. -/
theorem Entry.within_last (he : e.Valid) (hlo : 511 * gib ≤ e.gva)
    (hhi : e.gva + e.size ≤ guestMemTopVa) :
    e.Within g true (memregIdx g (e.gva - g.guestVaOffset)) ∧
      g.guestMaxPhysmem - gib ≤ memregBase g (memregIdx g (e.gva - g.guestVaOffset)) := by
  obtain ⟨n, hsizes⟩ := g.sizes
  have hshape := he.shape
  simp only [Entry.Within, zoneOffset, if_true]
  obtain ⟨h1, hlt, hbase, htop'⟩ := memregIdx_spec g (a := e.gva - g.guestVaOffset) (by omega)
    (by omega)
  generalize memregIdx g (e.gva - g.guestVaOffset) = i at *
  obtain ⟨hdb, hds⟩ := memreg_pde_aligned g h1 hlt
  have hadd := memregBase_add g i
  have hsmall : memregSize g i < gib := by
    by_contra hge
    have := (memreg_large g h1 hlt (not_lt.1 hge)).2.2.2
    omega
  have hhigh := (memreg_small g h1 hlt hsmall).resolve_left (by omega)
  have hdt : pdeRegion ∣ memregTop g i := hadd ▸ Nat.dvd_add hdb hds
  rw [pdeRegion_eq] at hdt
  omega

theorem moveTbrk_moved (hk : g.vmType = .kvm) (ho : Orderly g m) (he : e.Valid)
    (hhi : arg ≤ guestMemTopVa)
    (hlo : (g.guestVaOffset < arg ∧ m.brk / gib < (arg - g.guestVaOffset) / gib) ∨
      (arg = g.guestVaOffset ∧ 0 < g.guestVaOffset ∧ ∀ j, e ≠ .pd2 j))
    (h : moveTbrk g host m arg = some (m', r)) : ∃ new gone, TbrkMoved g m m' arg e new gone := by
  obtain ⟨nn, hsizes⟩ := g.sizes
  obtain ⟨-, htlo, hthi⟩ := ho.bounds
  have hbrk := ho.brk_lo
  have hap := ho.apart
  simp only [MemState.tbrkPa] at hap htlo hthi
  have hu := gvaToMemregIdx_up (g := g) (v := m.tbrk) (by omega) ho.tbrk_hi
  simp only [moveTbrk, ho.brkIdx, hu, bind_eq_bind, bind_some, bind_eq_some_iff,
    pure_def, Option.some.injEq, Prod.mk.injEq] at h
  rcases h with ⟨x, hgrow, m1, hfree, rfl, -⟩
  obtain ⟨hsame, hx⟩ := tbrkGrow_same hgrow
  obtain ⟨u, hu', hfrees⟩ := tbrkFree_frees hfree
  have hsame1 := hsame.trans hfrees.same
  have hubnd := memregIdx_bounds g (a := m.tbrk - g.guestVaOffset) (by omega) hthi
  obtain ⟨hpres, hw1, hxle, hslots⟩ := tbrkGrow_present hubnd.2 ho.plugged hgrow
  have hnew : x.brk ≤ guestMemTopVa ∧ g.guestVaOffset + gib ≤ x.brk ∧
      m.brk / gib < (x.brk - g.guestVaOffset) / gib := by
    rcases hx with ⟨-, hxb, hlt⟩ | ⟨-, hxb⟩
    · rcases hlo with ⟨-, hlo⟩ | ⟨hlo, -⟩
      · rw [hxb]
        refine ⟨hhi, ?_, hlo⟩
        rw [gib_eq] at hlo ⊢
        omega
      · omega
    rw [hxb]
    exact ⟨ho.tbrk_hi, by omega, hap⟩
  obtain ⟨hnewhi, hnewlo, hnewap⟩ := hnew
  rw [gib_eq] at hap hnewap hnewlo htlo
  cases (gvaToMemregIdx_up (g := g) (v := x.brk) (by omega) hnewhi).symm.trans hu'
  have hvbnd := memregIdx_bounds g (a := x.brk - g.guestVaOffset) (by omega) (by omega)
  have hb0 := memregIdx_bounds g (a := m.brk - 1) (by omega) (by omega)
  have hzone : ∀ i, memregIdx g (m.brk - 1) < i → x.idx ≤ i →
      i < memregIdx g (x.brk - g.guestVaOffset) → Clearable g true i e := by
    intro i h1 h2 h3
    rcases hlo with ⟨hlt, hgap⟩ | ⟨-, hpos, hne⟩
    · refine .inl (slotInZone_up (by omega) (by omega) ?_)
      rw [gib_eq] at hgap
      rcases lt_or_ge i (memregIdx g (m.tbrk - g.guestVaOffset)) with hi | hi
      · have := hslots i (by omega) h2 hi
        omega
      -- a slot of the old top zone
      have hnot : ¬ i + 1 ≤ memregIdx g (m.tbrk - g.guestVaOffset) := by omega
      rw [memregIdx_le_iff g (by omega) (by omega) (by omega) hthi,
        ← memregTop_eq g (by omega) (by omega)] at hnot
      omega
    · exact .inr ⟨rfl, hpos, hne⟩
  obtain ⟨hfreed, hw2⟩ := hfrees.present hk hw1 he fun i hi =>
    ⟨⟨by omega, by omega⟩, hzone i hi.2.2 hi.1 hi.2.1⟩
  rw [Freed, hpres e] at hfreed
  refine ⟨x.brk, _, ⟨hx.imp (·.2.1) And.right, rfl, ?_, hnewhi, hnewlo, ?_, ⟨m1.pt, ?_, hfreed⟩,
    ?_, ?_⟩⟩
  · simp only [hk, if_true, hsame1.brk]
  · simp only [hk, if_true]
    exact hw2
  · simp only [hk, if_true, hsame1.tbrk]
  · rintro ⟨i, ⟨h1, h2, h3⟩, hw⟩
    have habove := hw.above (by omega) (by omega) (by omega) (by omega) h3
    have hbelow := hw.below (by omega) (by omega) (by omega) h2
    simp only [zoneOffset, if_true] at habove hbelow
    omega
  intro hgva hold hnew' hend
  rw [gib_eq] at hgva hold hnew'
  have hsize := e.size_pos
  have hbase := memregBase_idx_le g (a := x.brk - g.guestVaOffset) (by omega) (by omega)
  obtain ⟨hwithin, hhigh⟩ := within_last (g := g) he (by rw [gib_eq]; omega) (by omega)
  have hspec := memregIdx_spec g (a := e.gva - g.guestVaOffset) (by omega) (by omega)
  refine ⟨memregIdx g (e.gva - g.guestVaOffset), ⟨?_, ?_, ?_⟩, hwithin⟩
  · have hmono := memregIdx_mono (g := g) (a := m.tbrk - g.guestVaOffset)
      (b := e.gva - g.guestVaOffset) (by omega) (by omega) (by omega)
    omega
  · by_contra hge
    have hmono := memregBase_mono g (by omega) (not_lt.1 hge) (by omega)
    omega
  by_contra hge
  have hle := (memregIdx_le_iff g hspec.1 (by omega) (by omega) (by omega)).1 (not_lt.1 hge)
  omega

/-- A move of `tbrk` up, from below into the last GB, that leaves entry `j` of `pd2` present: its
slot stays, its page is below the new `tbrk`, and the clearing loop starts behind it. -/
def Stale (g : Geometry) (m : MemState) (arg j : Nat) : Prop :=
  (m.tbrk < 511 * gib ∧ arg ≤ guestMemTopVa) ∧
    memregBase g (memregIdx g (arg - g.guestVaOffset)) + g.guestVaOffset ≤ (Entry.pd2 j).gva ∧
    (Entry.pd2 j).gva + pdeRegion ≤ arg ∧ j < pdeSlot m.tbrk

/-- A move of `tbrk` down from its start marks the page behind the end of guest memory. -/
def PastEnd (m : MemState) (arg j : Nat) : Prop :=
  j = 511 ∧ m.tbrk = guestMemTopVa ∧ arg < guestMemTopVa

def MarkedRight (g : Geometry) (m : MemState) (arg : Nat) : Entry → Prop
  | .pd2 j => arg = 0 ∨ (arg ≠ g.guestVaOffset ∧ ¬ Stale g m arg j ∧ ¬ PastEnd m arg j)
  | _ => True

theorem TbrkMoved.exact (hm : TbrkMoved g m m' arg e new gone) (ho : Orderly g m) (he : e.Valid)
    (harg : arg ≠ 0) (hright : MarkedRight g m arg e) (hex : Exact m e) : Exact m' e := by
  have hconsts := layout_consts
  have hstart : guestMemStartVa = 2097152 := by decide
  obtain ⟨nn, hn2, hnn, hmax, hoff⟩ := g.gibs
  obtain ⟨-, htlo, hthi⟩ := ho.bounds
  have hap := ho.apart
  have htbrk := ho.tbrk_hi
  have hnewlo := hm.lo
  simp only [MemState.tbrkPa, gib_eq] at hap htlo hthi hnewlo
  obtain ⟨pt, hpt, hgone⟩ := hm.present
  rw [Exact] at hex
  rw [hex, Shown, or_comm] at hgone
  have hout : gone → ¬ e.Meets new guestMemTopVa ∧ ¬ e.Meets guestMemStartVa m.brk := by
    intro hg
    have := hm.between hg
    rw [meets_iff, meets_iff]
    omega
  rw [Exact, Shown, hpt, hm.brk, hm.tbrk, or_comm]
  rcases lt_or_ge new m.tbrk with hlt | hge
  · rw [fixupTop_grow he (by omega) htbrk hlt, hgone]
    refine shown_raise (meets_top_grow hlt htbrk ?_) hout
    -- only the last entry of `pd2` starts at the end
    rintro ⟨hgva, hend⟩
    have harg' : new = arg := hm.target.resolve_right (by omega)
    cases e with
    | pd0 j =>
      have hj : j < 512 := he
      simp only [gva_pd0] at hgva
      omega
    | pdpt0 k =>
      simp only [gva_pdpt0] at hgva
      omega
    | pd2 j =>
      simp only [gva_pd2] at hgva
      exact (hright.resolve_left harg).2.2 ⟨by omega, hend, by omega⟩
  rw [fixupTop_shrink he (by omega) hm.hi hge, hgone]
  refine shown_lower (meets_top_shrink he hge hm.hi) hout ?_ ?_
  · rintro ⟨hbelow, hpassed⟩ hmeets
    rw [meets_iff] at hmeets
    cases e with
    | pd0 | pdpt0 => exact absurd hmeets.2.1 hpassed
    | pd2 j =>
      simp only [ClearedFrom, not_or, not_le] at hpassed
      simp only [gva_pd2, size_pd2, gib_eq] at hbelow hmeets hpassed
      have harg' : new = arg := hm.target.resolve_right (by omega)
      have hstale := (hright.resolve_left harg).2.1
      refine hm.last (by simp only [gva_pd2]; omega) (by omega) (by omega) ?_
      -- the entry is not stale, so its page lies below the slot that stays
      simp only [gva_pd2, size_pd2]
      simp only [Stale, gva_pd2, gib_eq, pdeRegion_eq, ← harg'] at hstale
      have hdb : pdeRegion ∣ memregBase g (memregIdx g (new - g.guestVaOffset)) := by
        have hv := memregIdx_bounds g (a := new - g.guestVaOffset) (by omega) (by
          have := hm.hi
          omega)
        have hv1 := memregIdx_pos g (a := new - g.guestVaOffset) (by omega) (by
          have := hm.hi
          omega)
        rcases lt_or_eq_of_le hv.2 with hlt | heq
        · exact (memreg_pde_aligned g hv1 hlt).1
        rw [heq, memregBase_last, hmax, pdeRegion_eq, hstart]
        omega
      rw [pdeRegion_eq] at hdb
      have := hm.hi
      omega
  rintro hmeets ⟨hbelow, hcl⟩
  rw [meets_iff] at hmeets
  have hboth := not_both he (b := m.brk) (t := m.tbrk) (by rw [gib_eq]; omega)
  cases e with
  | pd0 | pdpt0 => exact hboth ⟨hmeets.1, hcl⟩
  | pd2 j =>
    simp only [gva_pd2] at hmeets
    omega

/-- `km_mem_tbrk` with any argument. -/
theorem kmMemTbrk_exact (hk : g.vmType = .kvm) (ho : Orderly g m) (he : e.Valid)
    (hright : MarkedRight g m arg e) (h : kmMemTbrk g host m arg = some (m', r)) :
    Orderly g m' ∧ (Exact m e → Exact m' e) := by
  rcases kmMemTbrk_moves ho.toBreaksOk h with ⟨rfl, -⟩ | ⟨hzero, hle, hhi, hapart, hmove⟩
  · exact ⟨ho, id⟩
  have hbreaks := (kmMemTbrk_breaks ho.toBreaksOk hzero h).1
  have hlo : (g.guestVaOffset < arg ∧ m.brk / gib < (arg - g.guestVaOffset) / gib) ∨
      (arg = g.guestVaOffset ∧ 0 < g.guestVaOffset ∧ ∀ j, e ≠ .pd2 j) := by
    rcases lt_or_ge g.guestVaOffset arg with hlt | hge
    · exact .inl ⟨hlt, hapart hlt⟩
    have heq : arg = g.guestVaOffset := by omega
    refine .inr ⟨heq, by omega, fun j hj => ?_⟩
    subst hj
    exact (hright.resolve_left hzero).1 heq
  rcases moveTbrk_moved hk ho he hhi hlo hmove with ⟨new, gone, hm⟩
  exact ⟨⟨hbreaks, hm.brk ▸ ho.brk_lo, hm.plugged⟩, hm.exact ho he hzero hright⟩

end

end KontainMonitor.Mem
