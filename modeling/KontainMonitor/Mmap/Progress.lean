import KontainMonitor.Mmap.Runs

/-!
# Progress — unmapping and changing protections never abort

`Sound` adds to the tiling what `km_mem_tbrk` needs of the memory slots.  In a sound state no
assertion fails in the functions on the lists, and the walk over a range ends: with 0, or with
`-ENOMEM` if the host has no memory for a new region.
-/

namespace KontainMonitor.Mmap

open Intervals Mem Reg

/-- The regions tile the top zone and the memory slots follow the breaks. -/
structure Sound (g : Geometry) (s : MmapState) (busy : List Reg) : Prop where
  whole : Whole g s busy
  mem : MemInv g s.mem

/-- Nothing has happened but calls of the host. -/
def Logged (s s' : MmapState) : Prop :=
  ∃ cs, s' = { s with mem := { s.mem with hostCalls := cs ++ s.mem.hostCalls } }

section

variable {g : Geometry} {h : Host} {s s' : MmapState} {busy : List Reg} {lo hi : Nat}
variable {reg : Reg} {w : Walk}
variable {r : Reg} {n : Nat} {right : List Reg}

/-! ## The log of host calls -/

theorem Logged.refl (s : MmapState) : Logged s s := ⟨[], rfl⟩

theorem Logged.call (s : MmapState) (c : HostCall) : Logged s (s.call c) := ⟨[c], rfl⟩

theorem Logged.trans {s1 s2 s3 : MmapState} (h₁ : Logged s1 s2) (h₂ : Logged s2 s3) :
    Logged s1 s3 := by
  rcases h₁ with ⟨cs, rfl⟩
  rcases h₂ with ⟨ds, rfl⟩
  exact ⟨ds ++ cs, by simp⟩

theorem Logged.quiet (hl : Logged s s') : Quiet s s' := by
  rcases hl with ⟨cs, rfl⟩
  exact ⟨⟨rfl, rfl⟩, rfl, rfl, rfl, rfl⟩

theorem Logged.memInv (hl : Logged s s') (hm : MemInv g s.mem) : MemInv g s'.mem := by
  rcases hl with ⟨cs, rfl⟩
  obtain ⟨h1, h2, h3, h4, h5⟩ := hm
  exact ⟨h1, h2, h3, h4, ⟨h5.range, h5.plugged, h5.unplugged, h5.tables⟩⟩

theorem Sound.logged (hs : Sound g s busy) (hl : Logged s s') : Sound g s' busy :=
  ⟨hs.whole.quiet hl.quiet, hl.memInv hs.mem⟩

theorem Sound.call (hs : Sound g s s.busy) (c : HostCall) : Sound g (s.call c) (s.call c).busy :=
  hs.logged (.call s c)

theorem kmRegMakeClean_logged (g : Geometry) (s : MmapState) (reg : Reg) :
    Logged s (kmRegMakeClean g s reg).1 := by
  simp only [kmRegMakeClean]
  split
  · exact .call s _
  · exact .refl s

theorem kmMmapMprotectRegion_logged (g : Geometry) (s : MmapState) (reg : Reg) :
    Logged s (kmMmapMprotectRegion g s reg).1 := by
  simp only [kmMmapMprotectRegion]
  split
  · exact kmRegMakeClean_logged g s reg
  · exact (Logged.call s _).trans (kmRegMakeClean_logged g _ reg)

theorem kmMmapRegionClean_logged (g : Geometry) (s : MmapState) (mreg reg : Reg) :
    Logged s (kmMmapRegionClean g s mreg reg).1 := by
  simp only [kmMmapRegionClean]
  split
  · exact kmRegMakeClean_logged g s _
  · exact .refl s

/-! ## Inserting -/

/-- There is a place for a region that overlaps no region of the list. -/
theorem insertPos_total {l : List Reg} (left : List Reg) (hreg : reg.stop < 2 ^ 64)
    (hpos : 0 < reg.size)
    (hl : ∀ r ∈ l, r.stop < 2 ^ 64 ∧ ((0 < r.size ∧ r.stop ≤ reg.start) ∨ reg.stop ≤ r.start)) :
    ∃ q, insertPos reg left l = some q := by
  induction l generalizing left with
  | nil => exact ⟨_, rfl⟩
  | cons p right ih =>
    obtain ⟨hwrap, hapart⟩ := hl p (.head _)
    simp only [Reg.stop] at hapart
    have hfin := fin_eq hreg
    have hpfin := fin_eq hwrap
    simp only [Reg.stop] at hfin hpfin
    by_cases hlt : reg.start < p.start
    · rw [insertPos, if_pos hlt, kmAssert_pos (by omega)]
      exact ⟨_, rfl⟩
    rw [insertPos, if_neg hlt, kmAssert_pos (by omega)]
    exact ih _ fun r hr => hl r (.tail _ hr)

/-- A hole overlaps no free region. -/
theorem Holed.apart_free (hs : Holed g s busy reg.start reg.stop) (hpos : 0 < reg.size)
    (hr : r ∈ s.free) : r.stop ≤ reg.start ∨ reg.stop ≤ r.start := by
  have hz := (hs.free_ok r hr).zone
  have := disjoint_of_not_mapped hz.nonempty hpos fun a hlo hhi hin =>
    hs.hole a hin.1 hin.2 ⟨r, hr, hlo, hhi⟩
  exact this

/-- A hole overlaps no busy region. -/
theorem Holed.apart_busy (hs : Holed g s busy reg.start reg.stop) (hz : InZone s.mem.tbrk reg)
    (hr : r ∈ busy) (hpart : r.kmFlags.partOfMonitor = false) :
    r.stop ≤ reg.start ∨ reg.stop ≤ r.start := by
  have hrz := (hs.busy_ok r hr).payload hpart
  have := disjoint_of_not_mapped hrz.nonempty hz.nonempty fun a hlo hhi hin => by
    have hlow := hz.lower
    have hupp := hz.upper
    exact ((hs.tiled a (by omega) (by omega)).1 ⟨r, hr, hlo, hhi⟩).2 hin
  exact this

theorem settleFree_total {p : Pos} (hm : MemInv g s.mem) (hz : InZone s.mem.tbrk p.reg) :
    ∃ s', settleFree g h s p = some s' ∧ MemInv g s'.mem := by
  simp only [settleFree]
  split
  · have hlo := hm.tbrk_lo
    have hstop := p.reg.start_le_stop
    rw [fin_eq hz.no_wrap]
    rcases kmMemTbrk_spec h.alloc hm (.inr (by omega) : p.reg.stop = 0 ∨ _) with
      ⟨m', r, hcall, hinv, -⟩
    rw [hcall]
    exact ⟨_, rfl, hinv⟩
  · exact ⟨_, rfl, hm⟩

section

variable (hs : Holed g s busy reg.start reg.stop)
include hs

/-- A region goes to the free list merged with its neighbours, behind the call that takes its
access away. -/
theorem kmMmapInsertFree_settled (hz : InZone s.mem.tbrk reg) (hpayload : reg.ofMonitor = false)
    (hr : kmMmapInsertFree g h s reg = some s') :
    ∃ p : Pos, InZone (kmMmapMprotectRegion g s reg.cleared).1.mem.tbrk p.reg ∧
      settleFree g h (kmMmapMprotectRegion g s reg.cleared).1 p = some s' := by
  have hz' : InZone s.mem.tbrk reg.cleared := hz.sized rfl rfl
  have hlogged := kmMmapMprotectRegion_logged g s reg.cleared
  have hsame : (kmMmapMprotectRegion g s reg.cleared).2 = reg.cleared := kmMmapMprotectRegion_none rfl
  simp only [kmMmapInsertFree, kmMmapInsert, do_eq_some, return_eq_some, hsame] at hr
  rcases hr with ⟨-, ⟨q, hq, rfl⟩, hr⟩
  have hs' : Holed g s busy reg.cleared.start reg.cleared.stop := hs
  obtain ⟨hreg, hpos, -⟩ := insertFree_list hs' hz' (blank_cleared hpayload) hq
  have hq' : ({ q with reg := reg.cleared } : Pos) = q := by rw [← hreg]
  rw [hq', (hs.quiet hlogged.quiet).running] at hr
  refine ⟨_, ?_, hr⟩
  rw [hlogged.quiet.mem.tbrk]
  exact (kmMmapConcat_free hpos).1.zone

section

variable (hm : MemInv g s.mem) (hz : InZone s.mem.tbrk reg) (hpayload : reg.ofMonitor = false)
include hm hz hpayload

theorem kmMmapInsertFree_total :
    ∃ s', kmMmapInsertFree g h s reg = some s' ∧ Sound g s' busy ∧ s'.busy = s.busy := by
  have hz' : InZone s.mem.tbrk reg.cleared := hz.sized rfl rfl
  have hs' : Holed g s busy reg.cleared.start reg.cleared.stop := hs
  have hplace : ∃ q, insertPos reg.cleared [] s.free = some q :=
    insertPos_total [] hz'.no_wrap hz'.nonempty fun r hr =>
      ⟨(hs.free_ok r hr).zone.no_wrap, (hs'.apart_free hz.nonempty hr).imp_left
        fun hle => ⟨(hs.free_ok r hr).zone.nonempty, hle⟩⟩
  rcases hplace with ⟨q, hq⟩
  obtain ⟨hreg, hpos, -⟩ := insertFree_list hs' hz' (blank_cleared hpayload) hq
  have hlogged := kmMmapMprotectRegion_logged g s reg.cleared
  have hsame : (kmMmapMprotectRegion g s reg.cleared).2 = reg.cleared := kmMmapMprotectRegion_none rfl
  have hres : ∃ s', kmMmapInsertFree g h s reg = some s' ∧ MemInv g s'.mem := by
    simp only [kmMmapInsertFree, kmMmapInsert, hq, do_some,
      Option.pure_def, hsame]
    rw [(hs.quiet hlogged.quiet).running]
    refine settleFree_total (hlogged.memInv hm) ?_
    rw [hlogged.quiet.mem.tbrk]
    have hq' : ({ q with reg := reg.cleared } : Pos) = q := by rw [← hreg]
    rw [hq']
    exact (kmMmapConcat_free hpos).1.zone
  rcases hres with ⟨s', hr, hmem⟩
  obtain ⟨hwhole, hbusy⟩ := kmMmapInsertFree_inv hs hz hpayload hr
  exact ⟨s', hr, ⟨hwhole, hmem⟩, hbusy⟩

theorem kmMmapMoveToFree_total : ∃ s', kmMmapMoveToFree g h s reg = some s' ∧ Sound g s' busy := by
  have hcall : ∀ c, Holed g (s.call c) busy reg.start reg.stop := fun c => hs.quiet (.call s c)
  have hmem : ∀ c, MemInv g (s.call c).mem := fun c => (Logged.call s c).memInv hm
  simp only [kmMmapMoveToFree]
  split
  · split
    · rcases kmMmapInsertFree_total (hcall _) (hmem _)
        (hz.sized rfl rfl) hpayload with ⟨s', hr, hs', -⟩
      exact ⟨s', hr, hs'⟩
    rcases kmMmapInsertFree_total (hcall _) (hmem _) hz hpayload with ⟨s', hr, hs', -⟩
    exact ⟨s', hr, hs'⟩
  rcases kmMmapInsertFree_total hs hm hz hpayload with ⟨s', hr, hs', -⟩
  exact ⟨s', hr, hs'⟩

end

end

/-! ## The walk over a range -/

def WalkSound (g : Geometry) (h : Host) : Walk ⊕ (MmapState × Nat) → Prop
  | .inl w => Sound g w.state w.list
  | .inr (s, rc) => Sound g s s.busy ∧
      (rc = 0 ∨ (rc = negErrno enomem ∧ ∃ n, h.ok n .calloc = false))

/-- A bound for the rounds that are left: a region that is cut is visited twice. -/
def Walk.rounds (mreg : Reg) (w : Walk) : Nat :=
  2 * w.right.length + if w.right.head?.any (fun r => r.start < mreg.start) then 1 else 0

theorem Walk.rounds_lt {mreg : Reg} (hn : w.right.length < n) : w.rounds mreg < 2 * n := by
  simp only [Walk.rounds]
  split <;> omega

variable {action : Action} {mreg : Reg}

theorem kmMmapConcat_right_length (rm : Bool) (p : Pos) :
    (kmMmapConcat rm p).right.length ≤ p.right.length := by
  have hleft : (concatLeft rm p).right = p.right := by
    simp only [concatLeft]
    split
    · rfl
    · split <;> rfl
  simp only [kmMmapConcat, concatRight]
  split
  · exact le_of_eq (congrArg List.length hleft)
  rename_i r rs hr
  rw [hleft] at hr
  split
  · simp [hr]
  · exact le_of_eq (congrArg List.length hleft)

/-- A walk after an action on a region, with at most `n` regions after it, or its end after the
last region. -/
def WalkOn (g : Geometry) (h : Host) (last : Bool) (n : Nat) (x : Walk ⊕ (MmapState × Nat)) : Prop :=
  WalkSound g h x ∧ ∀ w, x = .inl w → last = false ∧ w.right.length ≤ n

theorem walkOn_ite (hw : Sound g w.state w.list) (hlen : w.right.length ≤ n) (last : Bool) :
    WalkOn g h last n (if last then .inr (w.done, 0) else .inl w) := by
  cases last with
  | true => exact ⟨⟨⟨w.done_ok hw.whole, hw.mem⟩, .inl rfl⟩, fun v hv => by cases hv⟩
  | false =>
    refine ⟨hw, fun v hv => ?_⟩
    cases hv
    exact ⟨rfl, hlen⟩

theorem walkOn_concat {reg' : Reg} {rm : Bool}
    (hs : Sound g w.state (w.left.reverse ++ reg :: right)) (hl : Logged w.state s')
    (hext : SameExtent reg reg') (last : Bool) :
    let p := kmMmapConcat rm { left := w.left, reg := reg', right := right }
    let w' : Walk := { state := s', left := p.reg :: p.left, right := p.right }
    WalkOn g h last right.length (if last then .inr (w'.done, 0) else .inl w') := by
  intro p w'
  have hp : Whole g s' p.toList :=
    kmMmapConcat_inv
      ((hs.whole.relabel hext).quiet hl.quiet)
  refine walkOn_ite ⟨?_, hl.memInv hs.mem⟩ (kmMmapConcat_right_length rm _) last
  simpa [Walk.list, Pos.toList, w'] using hp

theorem applyAction_total {last : Bool} (hs : Sound g w.state (w.left.reverse ++ reg :: right))
    (hmon : reg.ofMonitor = false) (hin : mreg.start ≤ reg.start ∧ reg.fin ≤ mreg.fin) :
    ∃ x, applyAction g h action mreg w reg right last = some x ∧ WalkOn g h last right.length x := by
  have hpart := payload_part hmon
  have hext : SameExtent reg { reg with protection := mreg.protection } := ⟨rfl, rfl, rfl⟩
  rw [applyAction, kmAssert_pos hin]
  cases action with
  | moveToFree =>
    have hz := (hext.busyOk hs.whole.mem_ok).payload hpart
    rcases kmMmapMoveToFree_total (h := h) ((hs.whole.relabel hext).remove hpart) hs.mem hz hmon with
      ⟨s1, hs1, hsound⟩
    refine ⟨_, ?_, walkOn_ite (w := { state := s1, left := w.left, right := right }) hsound
      le_rfl last⟩
    simp only [do_some, hs1]
    rfl
  | mprotect =>
    obtain ⟨-, hext'⟩ := kmMmapMprotectRegion_spec (g := g) (s := w.state)
      { reg with protection := mreg.protection }
    exact ⟨_, rfl, walkOn_concat hs (kmMmapMprotectRegion_logged _ _ _)
      ⟨hext'.start, hext'.size, hext'.partOfMonitor⟩ last⟩
  | regionCleanConcat =>
    obtain ⟨-, hext'⟩ := kmMmapRegionClean_spec mreg
      { reg with protection := mreg.protection }
    exact ⟨_, rfl, walkOn_concat hs (kmMmapRegionClean_logged _ _ _ _)
      ⟨hext'.start, hext'.size, hext'.partOfMonitor⟩ last⟩

/-- The part of a region up to the end of the range ends there. -/
theorem splitAt_fin_le (hlt : reg.start < mreg.fin) : (reg.splitAt mreg.fin).1.fin ≤ mreg.fin := by
  have heq : reg.start + (mreg.fin - reg.start) = mreg.fin := by omega
  calc (reg.splitAt mreg.fin).1.fin = u64 (reg.start + (mreg.fin - reg.start)) := rfl
    _ = u64 mreg.fin := by rw [heq]
    _ ≤ mreg.fin := Nat.mod_le _ _

/-- No round of the walk aborts. -/
theorem rangeStep_total (hfin : mreg.fin % kmPageSize = 0) (hs : Sound g w.state w.list) :
    ∃ x, rangeStep g h action mreg w = some x := by
  obtain ⟨st, left, right⟩ := w
  cases right with
  | nil => exact ⟨_, rfl⟩
  | cons reg right =>
    have hreg := fin_eq hs.whole.mem_ok.no_wrap
    simp only [rangeStep]
    split
    · exact ⟨_, rfl⟩
    split
    · exact ⟨_, rfl⟩
    rename_i hbehind
    split
    · exact ⟨_, rfl⟩
    rename_i hmon
    rw [Bool.not_eq_true] at hmon
    split
    · split <;> exact ⟨_, rfl⟩
    rename_i hlow
    split
    next hhigh =>
      split
      · have hcall := hs.logged (.call st .calloc)
        have hcut := hcall.whole.cut (payload_part hmon) hfin (not_le.1 hbehind) (hreg ▸ hhigh)
        rcases applyAction_total
          (w := { state := st.call .calloc, left := left, right := reg :: right })
          ⟨hcut, hcall.mem⟩ hmon ⟨not_lt.1 hlow, splitAt_fin_le (not_le.1 hbehind)⟩ with
          ⟨x, hx, -⟩
        exact ⟨x, hx⟩
      · exact ⟨_, rfl⟩
    next hhigh =>
      rcases applyAction_total
        hs hmon ⟨not_lt.1 hlow, not_lt.1 hhigh⟩ with ⟨x, hx, -⟩
      exact ⟨x, hx⟩

/-- One round keeps a sound state, and fewer rounds are left after it. -/
theorem rangeStep_sound {x : Walk ⊕ (MmapState × Nat)} (hstart : mreg.start % kmPageSize = 0)
    (hfin : mreg.fin % kmPageSize = 0) (hs : Sound g w.state w.list)
    (hx : rangeStep g h action mreg w = some x) :
    WalkSound g h x ∧ ∀ w', x = .inl w' → w'.rounds mreg < w.rounds mreg := by
  obtain ⟨st, left, right⟩ := w
  cases right with
  | nil =>
    cases hx
    exact ⟨⟨⟨Walk.done_ok hs.whole, hs.mem⟩, .inl rfl⟩, fun w' hw' => by cases hw'⟩
  | cons reg right =>
    have hreg := fin_eq hs.whole.mem_ok.no_wrap
    have hcall := hs.logged (.call st .calloc)
    -- what is left is at least one region shorter, but for a cut at the start of the range
    have hshort : ∀ w' : Walk, w'.right.length ≤ right.length →
        w'.rounds mreg < Walk.rounds mreg { state := st, left := left, right := reg :: right } := by
      intro w' hlen
      have h1 : w'.rounds mreg < 2 * (right.length + 1) := Walk.rounds_lt (Nat.lt_succ_of_le hlen)
      simp only [Walk.rounds, List.length_cons] at h1 ⊢
      omega
    have hskip : WalkSound g h (.inl { state := st, left := reg :: left, right := right }) := by
      refine ⟨?_, hs.mem⟩
      simpa [Walk.list] using hs.whole
    cases rangeStep_cons hx with
    | before | monitor =>
      refine ⟨hskip, fun w' hw' => ?_⟩
      cases hw'
      exact hshort _ le_rfl
    | behind hle => exact ⟨⟨⟨Walk.done_ok hs.whole, hs.mem⟩, .inl rfl⟩, fun w' hw' => by cases hw'⟩
    | noMem hok =>
      have hno : h.ok st.mem.hostCalls.length .calloc = false := by
        simpa [Host.answer, wellFormedCall] using hok
      exact ⟨⟨⟨Walk.done_ok hcall.whole, hcall.mem⟩, .inr ⟨rfl, _, hno⟩⟩,
        fun w' hw' => by cases hw'⟩
    | cutStart hmon hlo hhi =>
      have hcut := hcall.whole.cut (payload_part hmon) hstart hlo (hreg ▸ hhi)
      refine ⟨⟨by simpa [Walk.list] using hcut, hcall.mem⟩, fun w' hw' => ?_⟩
      cases hw'
      simp [Walk.rounds, Reg.splitAt, hlo]
    | cutEnd hmon hlo hin hhi hx =>
      have hcut := hcall.whole.cut (payload_part hmon) hfin hin (hreg ▸ hhi)
      rcases applyAction_total
        (w := { state := st.call .calloc, left := left, right := reg :: right })
        ⟨hcut, hcall.mem⟩ hmon ⟨hlo, splitAt_fin_le hin⟩ with ⟨x', hx', hon, hlen⟩
      obtain rfl : x' = x := Option.some.inj (hx'.symm.trans hx)
      exact ⟨hon, fun w' hw' => absurd (hlen w' hw').1 (by decide)⟩
    | inside hmon hlo hlt hhi hx =>
      rcases applyAction_total
        hs hmon ⟨hlo, hhi⟩ with ⟨x', hx', hon, hlen⟩
      obtain rfl : x' = x := Option.some.inj (hx'.symm.trans hx)
      exact ⟨hon, fun w' hw' => hshort w' (hlen w' hw').2⟩

/-- The walk over a page-aligned range ends, and fails only if the host has no memory for a new
region. -/
theorem kmMmapBusyRangeApply_total (hstart : mreg.start % kmPageSize = 0)
    (hsize : mreg.size % kmPageSize = 0) (hs : Sound g s s.busy) :
    ∃ s' rc, kmMmapBusyRangeApply g h s mreg action = some (s', rc) ∧ Sound g s' s'.busy ∧
      (rc = 0 ∨ (rc = negErrno enomem ∧ ∃ n, h.ok n .calloc = false)) := by
  have hfin := fin_page hstart hsize
  have hrun : ∃ b, kmMmapBusyRangeApply g h s mreg action = some b ∧ WalkSound g h (.inr b) := by
    refine Loop.run_total (I := fun w => Sound g w.state w.list) (Walk.rounds mreg) ?_ hs ?_
    · intro w hw
      have hstep : ∃ x, rangeStep g h action mreg w = some x := rangeStep_total hfin hw
      rcases hstep with ⟨x, hx⟩
      obtain ⟨hsound, hlt⟩ := rangeStep_sound hstart hfin hw hx
      cases x with
      | inl w' => exact .inl ⟨w', hx, hsound, hlt w' rfl⟩
      | inr b => exact .inr ⟨b, hx, hsound⟩
    simp only [Walk.rounds]
    split <;> omega
  rcases hrun with ⟨⟨s', rc⟩, hr, hsound, hrc⟩
  exact ⟨s', rc, hr, hsound, hrc⟩

theorem rangeApply_total {addr size : Nat} (h : Host) (prot : BitVec 32) (clean : Bool)
    (action : Action) (haddr : addr % kmPageSize = 0) (hsize : size % kmPageSize = 0)
    (hs : Sound g s s.busy) :
    ∃ s' rc, kmMmapBusyRangeApply g h s (rangeReg addr size prot clean) action = some (s', rc) ∧
      Sound g s' s'.busy ∧ (rc = 0 ∨ (rc = negErrno enomem ∧ ∃ n, h.ok n .calloc = false)) :=
  kmMmapBusyRangeApply_total haddr hsize hs

end

end KontainMonitor.Mmap
