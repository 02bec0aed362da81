import KontainMonitor.Mmap.HostMemory

/-!
# Contents — what a request does to the bytes of guest memory

Walking over a range treats bytes one at a time: what becomes of a byte depends on the label of its
page only.  So a property of labels and bytes that each treatment keeps is kept by the walk, whether
it ends early or not.  The other parts of the calls are simple enough to say what they do to each
byte.
-/

namespace KontainMonitor.Mmap

open Intervals Mem Reg

/-! ## Walks -/

/-- What holds of every byte that a mapping may have: the label of its page, if any, and what the
host has there. -/
def Pages (g : Geometry) (P : Nat → Option Label → Cell → Prop) (busy : List Reg) (m : HostMem) :
    Prop :=
  ∀ a, Zone g a → P a (labelAt busy a) (m (kmaOf g a))

/-- What an action does to a byte of a region that stays busy. -/
def Action.cell (action : Action) (mreg : Reg) (x : Label) (c : Cell) : Cell :=
  match action with
  | .mprotect => { x with protection := mreg.protection }.treated c
  | .regionCleanConcat =>
    if mreg.kmFlags.clean then
      { x with protection := mreg.protection, flags := BitVec.allOnes 32 }.wiped c
    else c
  | .moveToFree => c

/-- A property that a walk keeps. -/
structure PageRule (action : Action) (mreg : Reg) (P : Nat → Option Label → Cell → Prop) : Prop where
  free : action = .moveToFree → ∀ a c c', P a none c → Tame c c' → P a none c'
  released : action = .moveToFree → ∀ a x c c', mreg.start ≤ a → a < mreg.fin →
    x.ofMonitor = false → P a (some x) c → Released x c c' → P a none c'
  treated : action ≠ .moveToFree → ∀ a x c, mreg.start ≤ a → a < mreg.fin →
    x.ofMonitor = false → P a (some x) c → P a (action.relabel mreg x) (action.cell mreg x c)

section

variable {g : Geometry} {h : Host} {s s' : MmapState} {reg mreg : Reg} {action : Action} {t size : Nat}
variable {hostfd : Int}
variable {P : Nat → Option Label → Cell → Prop}

theorem HostRun.calloc {file : FileData} {log : List HostCall} {m : HostMem} :
    HostRun h file log m (.calloc :: log) m :=
  ⟨[.calloc], rfl, rfl, trivial, trivial⟩

theorem Action.treat_cells (hh : h.Steady) (hact : action ≠ .moveToFree)
    (hpay : reg.ofMonitor = false) (hz : InZone t reg) (hlo : g.guestVaOffset < t) (mreg : Reg)
    (s : MmapState) (file : FileData) (m : HostMem) :
    ∃ m', HostRun h file s.mem.hostCalls m (action.treat g mreg s reg).1.mem.hostCalls m' ∧
      ∀ a, Zone g a → m' (kmaOf g a) =
        if reg.start ≤ a ∧ a < reg.stop then action.cell mreg reg.label (m (kmaOf g a))
        else m (kmaOf g a) := by
  have hz' : ∀ r : Reg, r.start = reg.start → r.size = reg.size → InZone t r := by
    intro r hstart hsize
    have hstop : r.stop = reg.stop := by rw [Reg.stop, Reg.stop, hstart, hsize]
    exact ⟨hstart ▸ hz.start_page, hsize ▸ hz.size_page, hsize ▸ hz.nonempty, hstart ▸ hz.lower,
      hstop ▸ hz.upper⟩
  cases action with
  | moveToFree => exact absurd rfl hact
  | mprotect =>
    have hpart : ({ reg with protection := mreg.protection } : Reg).kmFlags.partOfMonitor = false :=
      payload_part hpay
    exact kmMmapMprotectRegion_cells hh hpart (hz' _ rfl rfl) hlo s file m
  | regionCleanConcat =>
    simp only [Action.treat, kmMmapRegionClean, Action.cell]
    split
    · exact kmRegMakeClean_cells hh (hz' { reg with
        protection := mreg.protection, flags := BitVec.allOnes 32 } rfl rfl) hlo s file m
    · exact ⟨m, .refl _ _ _ _, fun a _ => (ite_self _).symm⟩

/-- The rule of a walk over the busy list that runs together with the memory of the host. -/
theorem pages_walkRule (hh : h.Steady) (hP : PageRule action mreg P)
    (hprot : action = .moveToFree → mreg.protection = protNone) (file : FileData)
    (log : List HostCall) (m : HostMem) : WalkRule g h action mreg fun st l => MemInv g st.mem ∧
      ∃ m', HostRun h file log m st.mem.hostCalls m' ∧ Pages g P l m' where
  busy _ _ _ hi := hi
  calloc st l hi := by
    obtain ⟨hmem, m', hrun, hpages⟩ := hi
    exact ⟨(Logged.call st _).memInv hmem, m', hrun.trans HostRun.calloc, hpages⟩
  cut st xs r ys c _ _ _ hlo hhi hi := by
    obtain ⟨hmem, m', hrun, hpages⟩ := hi
    refine ⟨hmem, m', hrun, fun a ha => ?_⟩
    have hsame : labelAt (xs ++ (r.splitAt c).1 :: (r.splitAt c).2 :: ys) a =
        labelAt (xs ++ r :: ys) a := by
      rw [labelAt_append, labelAt_append, labelAt_splitAt hlo hhi]
    rw [hsame]
    exact hpages a ha
  freed st xs r ys st' hact hw hr hlo hhi hi hfree := by
    obtain ⟨hmem, m1, hrun1, hpages⟩ := hi
    have hz := hw.mem_ok.payload (payload_part hr)
    have hhole := hw.remove (payload_part hr)
    let r' : Reg := { r with protection := mreg.protection }
    have hz' : InZone st.mem.tbrk r' := hz.sized rfl rfl
    have hhole' : Holed g st (xs ++ ys) r'.start r'.stop := hhole
    have hr' : r'.ofMonitor = false := hr
    obtain ⟨m', hrun, hsettle, hrel⟩ := kmMmapMoveToFree_cells hh hhole' hmem hz' hr' (hprot hact)
      hfree file m1
    have hmem' : MemInv g st'.mem := by
      rcases kmMmapMoveToFree_total (h := h) hhole' hmem hz' hr' with ⟨st2, hst2, hsound⟩
      rw [hfree] at hst2
      cases hst2
      exact hsound.mem
    refine ⟨hmem', m', hrun1.trans hrun, fun a ha => ?_⟩
    have hold := hpages a ha
    rw [labelAt_remove hw.busy_sorted]
    split
    · -- a byte of the region
      rename_i hin
      rw [labelAt_of_mem hw.busy_sorted (by simp : r ∈ xs ++ r :: ys) hin.1 hin.2] at hold
      have hrel' := hrel a hin.1 hin.2
      exact hP.released hact a r.label _ _ (by omega) (by omega) hr hold
        ⟨hrel'.toTame, hrel'.unshared⟩
    rename_i hout
    obtain ⟨htame, hkeep⟩ := hsettle a ha
    cases hlabel : labelAt (xs ++ r :: ys) a with
    | none =>
      rw [hlabel] at hold
      exact hP.free hact a _ _ hold htame
    | some x =>
      have hmapped : Mapped (xs ++ ys) a := by
        by_contra hno
        have hnone := labelAt_eq_none.2 hno
        rw [labelAt_remove hw.busy_sorted, if_neg hout, hlabel] at hnone
        cases hnone
      rw [hkeep hmapped, ← hlabel]
      exact hold
  merged st left r right hact hw hr hlo hhi hi := by
    obtain ⟨hmem, m1, hrun1, hpages⟩ := hi
    obtain ⟨hquiet, hext⟩ := action.treat_spec (g := g) (s := st) mreg r
    have hlabel := Action.treat_label hact g st mreg r
    have hz := hw.mem_ok.payload (payload_part hr)
    obtain ⟨m', hrun, hcells⟩ := Action.treat_cells hh hact hr hz hmem.tbrk_lo mreg st file m1
    have hnew : Whole g st
        (Pos.toList { left := left, reg := (action.treat g mreg st r).2, right := right }) :=
      hw.relabel hext
    have hmem' : MemInv g (action.treat g mreg st r).1.mem := by
      cases action with
      | moveToFree => exact absurd rfl hact
      | mprotect => exact (kmMmapMprotectRegion_logged g st _).memInv hmem
      | regionCleanConcat => exact (kmMmapRegionClean_logged g st mreg _).memInv hmem
    refine ⟨hmem', m', hrun1.trans hrun, fun a ha => ?_⟩
    have hold := hpages a ha
    rw [labelAt_concat hnew, Pos.toList, labelAt_relabel hw.busy_sorted hext, hcells a ha]
    split
    next hin =>
      rw [labelAt_of_mem hw.busy_sorted (by simp : r ∈ left.reverse ++ r :: right) hin.1 hin.2] at hold
      rw [← hlabel]
      exact hP.treated hact a r.label _ (by omega) (by omega) hr hold
    · exact hold

/-- Whatever a walk does, and wherever it ends, it keeps the property. -/
theorem busyRangeApply_keeps {addr rc : Nat} {prot : BitVec 32} {clean : Bool} (hh : h.Steady)
    (hP : PageRule action (rangeReg addr size prot clean) P)
    (hprot : action = .moveToFree → prot = protNone) (haddr : addr % kmPageSize = 0)
    (hsize : size % kmPageSize = 0) (hs : Sound g s s.busy)
    (hr : kmMmapBusyRangeApply g h s (rangeReg addr size prot clean) action = some (s', rc))
    (file : FileData) (m : HostMem) (hm : Pages g P s.busy m) :
    ∃ m', HostRuns h file s m s' m' ∧ Pages g P s'.busy m' := by
  have hrule := pages_walkRule (g := g) hh hP hprot file s.mem.hostCalls m
  exact (kmMmapBusyRangeApply_rule hr hrule haddr hsize hs.whole
    ⟨hs.mem, m, .refl _ _ _ _, hm⟩).2

/-! ## New regions -/

/-- What `km_mmap_add_region` labels a region with, before it is made clean. -/
def rawLabel (prot flags : BitVec 32) : Label :=
  { flags := flags, protection := prot, kmFlags := KmFlags.none, filename := none }

/-- The `k`-th byte of a region that is taken for a new mapping: either the host maps it anew, or it
is private memory that is used as it is. -/
def Renewed (file : FileData) (prot flags : BitVec 32) (hostfd : Int) (k : Nat) (c c' : Cell) : Prop :=
  ∃ c1, (c1 = Cell.mapped (mapContent file (mapFixed ||| flags) hostfd k) (mapFixed ||| flags) prot ∨
      (flags &&& mapShared = 0 ∧ Tame c c1)) ∧
    c' = (rawLabel prot flags).treated c1

theorem kmMmapFindFree_blank {q : Pos} (hs : Whole g s s.busy)
    (hq : kmMmapFindFree s.free size = some q) : q.reg.flags = 0 := by
  have hmem : q.reg ∈ s.free := by
    rw [← (kmMmapFindFree_spec hq).1]
    simp [Pos.toList]
  exact (hs.free_ok q.reg hmem).blank.flags

def TakenCells (g : Geometry) (h : Host) (file : FileData) (s : MmapState) (m : HostMem) : Taken → Prop
  | .error s' _ => ∃ m', HostRun h file s.mem.hostCalls m s'.mem.hostCalls m' ∧ Settles g s.busy m m'
  | .region s' _ existing => (existing = 0 ∨ existing = mapAnonymous ||| mapPrivate) ∧
      ∃ m', HostRun h file s.mem.hostCalls m s'.mem.hostCalls m' ∧ Settles g s.busy m m'

theorem takeRegion_cells {taken : Taken} (hs : Sound g s s.busy)
    (hsized : WellSized g s size) (ht : takeRegion g h s size = some taken) (file : FileData)
    (m : HostMem) : TakenCells g h file s m taken := by
  have hcalloc : ∃ m', HostRun h file s.mem.hostCalls m (s.call .calloc).mem.hostCalls m' ∧
      Settles g s.busy m m' := ⟨m, .calloc, .refl _ _⟩
  simp only [takeRegion] at ht
  split at ht
  next p hfind =>
    have hblank := kmMmapFindFree_blank hs.whole hfind
    split at ht
    · split at ht
      · cases ht
        exact ⟨.inl hblank, hcalloc⟩
      cases ht
      exact hcalloc
    simp only [do_eq_some, return_eq_some] at ht
    rcases ht with ⟨-, -, rfl⟩
    exact ⟨.inl hblank, m, .refl _ _ _ _, .refl _ _⟩
  rename_i hnone
  split at ht
  · -- moving `tbrk` down changes nothing above it
    obtain ⟨hne, hdown, hoff⟩ := hsized.wanted hs hnone
    have hmem : MemInv g (s.call .calloc).mem := (Logged.call s _).memInv hs.mem
    simp only [do_eq_some] at ht
    rcases ht with ⟨⟨mem, ret⟩, htbrk, ht⟩
    have htbrk' : kmMemTbrk g h.alloc (s.call .calloc).mem (u64 (s.mem.tbrk + 2 ^ 64 - size)) =
      some (mem, ret) := htbrk
    obtain ⟨m', hrun, hcells⟩ := kmMemTbrk_cells hmem hoff htbrk' h file m
    obtain ⟨hbreaks, hres⟩ := kmMemTbrk_breaks (hs.whole.call .calloc).breaks hne htbrk'
    have hle : mem.tbrk ≤ s.mem.tbrk := by
      rcases hres with ⟨-, hok⟩ | ⟨-, hsame⟩
      · have := hdown (hok ▸ hbreaks.tbrk_hi)
        omega
      · exact le_of_eq hsame
    have hmove : ∃ m', HostRun h file s.mem.hostCalls m mem.hostCalls m' ∧
        Settles g s.busy m m' := by
      refine ⟨m', HostRun.calloc.trans hrun, fun a ha => ⟨(hcells a ha).1, fun hbusy => ?_⟩⟩
      have habove := hs.whole.tbrk_le_of_mapped hbusy
      exact (hcells a ha).2 habove (by omega)
    split at ht
    · cases ht
      exact hmove
    cases ht
    exact ⟨.inr rfl, hmove⟩
  cases ht
  exact hcalloc

theorem fixed_flags (flags : BitVec 32) : (mapFixed ||| flags) &&& mapFixed = mapFixed ∧
    (mapFixed ||| flags) &&& mapShared = flags &&& mapShared ∧
    (mapFixed ||| flags) &&& mapAnonymous = flags &&& mapAnonymous := by
  have hshared : mapShared &&& mapFixed = 0#32 := by decide
  have hanon : mapAnonymous &&& mapFixed = 0#32 := by decide
  refine ⟨?_, ?_, ?_⟩
  · ext i hi
    simp only [BitVec.getElem_and, BitVec.getElem_or]
    cases mapFixed[i] <;> simp
  · rw [BitVec.and_comm, BitVec.and_or_distrib_left, hshared, BitVec.zero_or, BitVec.and_comm]
  · rw [BitVec.and_comm, BitVec.and_or_distrib_left, hanon, BitVec.zero_or, BitVec.and_comm]

/-- A region of the right kind is left alone. -/
theorem changeRegionSharing_cells {existing flags : BitVec 32} {res : Except Nat Reg}
    (hflags : reg.flags = flags) (hexisting : existing = 0 ∨ existing = mapAnonymous ||| mapPrivate)
    (hm : MemInv g s.mem) (hz : InZone s.mem.tbrk reg)
    (hr : kmMmapChangeRegionSharing g h s reg existing flags hostfd = (s', res))
    (file : FileData) (m : HostMem) : ∃ m', HostRuns h file s m s' m' ∧
      ((m' = m ∧ ((∃ e, res = .error e) ∨ reg.flags &&& mapShared = 0)) ∨ ((∀ e, res ≠ .error e) ∧
          ∀ a, Zone g a → m' (kmaOf g a) = if reg.start ≤ a ∧ a < reg.stop then
              Cell.mapped (mapContent file (mapFixed ||| reg.flags) hostfd ((a - reg.start : Nat) : Int))
                (mapFixed ||| reg.flags) reg.protection else m (kmaOf g a))) := by
  subst hflags
  have hlt := hz.start_lt_stop
  have hupp := hz.upper
  have hstart := hz.zone hm.tbrk_lo
  have hkma := kmGvaToKma_zone hm hz.lower (by omega)
  simp only [kmMmapChangeRegionSharing] at hr
  split at hr
  · rw [hkma, Option.getD_some, Prod.mk.injEq] at hr
    obtain ⟨rfl, hres⟩ := hr
    generalize hc : HostCall.mmap (kmaOf g reg.start) reg.size reg.protection
      (mapFixed ||| reg.flags) hostfd 0 = c at hres
    have hpermit : m.Permits c := by
      rw [← hc]
      trivial
    refine ⟨_, .call hpermit, ?_⟩
    -- a fixed mapping of this size is made if and only if the host agrees
    have hcarry : h.carriesOut s.mem.hostCalls.length c = h.answer s.mem c := by
      rw [← hc]
      simp [Host.carriesOut, Host.answer, (fixed_flags reg.flags).1]
    cases hok : h.answer s.mem c with
    | false =>
      rw [hok, if_neg Bool.false_ne_true] at hres
      rw [hcarry, hok, if_neg Bool.false_ne_true]
      exact .inl ⟨rfl, .inl ⟨_, hres.symm⟩⟩
    | true =>
      rw [hok, if_pos rfl] at hres
      rw [hcarry, hok, if_pos rfl]
      refine .inr ⟨fun e he => (by cases hres.trans he), fun a ha => ?_⟩
      rw [← hc]
      simp only [HostMem.exec]
      rw [ite_kmaOf ha.1 hstart.1]
      by_cases hin : reg.start ≤ a ∧ a < reg.stop
      · have hin' : reg.start ≤ a ∧ a < reg.start + reg.size := hin
        rw [if_pos hin, if_pos hin', kmaOf_sub hstart.1 hin.1, Int.zero_add]
      have hin' : ¬ (reg.start ≤ a ∧ a < reg.start + reg.size) := hin
      rw [if_neg hin, if_neg hin']
  rename_i hsame
  cases hr
  refine ⟨m, .refl _ _ _ _, .inl ⟨rfl, .inr ?_⟩⟩
  -- the memory that is taken is private, so the flags ask for nothing else
  rw [ne_eq, not_not] at hsame
  have hmask : mapShared = (mapPrivate ||| mapShared) &&& mapShared := by decide
  rw [hmask, ← BitVec.and_assoc, ← hsame]
  rcases hexisting with rfl | rfl <;> decide

/-- The log after a region was put into the busy list. -/
theorem kmMmapInsertBusy_calls (hr : kmMmapInsertBusy g s reg = some s') :
    s'.mem.hostCalls = (kmMmapMprotectRegion g s reg).1.mem.hostCalls := by
  simp only [kmMmapInsertBusy, kmMmapInsert, do_eq_some, return_eq_some] at hr
  rcases hr with ⟨⟨s1, p⟩, ⟨q, -, hq⟩, rfl⟩
  rw [Prod.mk.injEq] at hq
  rw [← hq.1]

structure NewCells (g : Geometry) (file : FileData) (busy : List Reg) (m m' : HostMem)
    (gva size : Nat) (prot flags : BitVec 32) (hostfd : Int) : Prop where
  inside : ∀ a, gva ≤ a → a < gva + size →
    Renewed file prot flags hostfd (a - gva) (m (kmaOf g a)) (m' (kmaOf g a))
  outside : ∀ a, Zone g a → ¬ (gva ≤ a ∧ a < gva + size) →
    Tame (m (kmaOf g a)) (m' (kmaOf g a)) ∧ (Mapped busy a → m' (kmaOf g a) = m (kmaOf g a))

theorem kmMmapAddRegion_cells {ret : Nat} {prot flags : BitVec 32}
    (hh : h.Steady) (hs : Sound g s s.busy) (hsized : WellSized g s size)
    (hpage : size % kmPageSize = 0)
    (hr : kmMmapAddRegion g h s size prot flags hostfd .guest = some (s', ret)) (file : FileData)
    (m : HostMem) : ∃ m', HostRuns h file s m s' m' ∧
      ((isErrno ret ∧ s'.busy = s.busy ∧ Settles g s.busy m m') ∨
        (isErrno ret = false ∧ NewCells g file s.busy m m' ret size prot flags hostfd)) := by
  rcases takeRegion_total h hs hsized hpage with ⟨taken, ht, htook⟩
  have hok := takeRegion_inv hs.whole hsized.toSized hpage ht
  have hcells := takeRegion_cells hs hsized ht file m
  rw [kmMmapAddRegion, ht] at hr
  cases taken with
  | error s1 e =>
    cases hr
    obtain ⟨rfl, hbusy, -⟩ := htook
    obtain ⟨m', hrun, hsettle⟩ := hcells
    exact ⟨m', hrun, .inl ⟨by decide, hbusy, hsettle⟩⟩
  | region s1 reg existing =>
    obtain ⟨rfl, hbusy, hmem, -⟩ := htook
    obtain ⟨hhole, hz⟩ := hok
    obtain ⟨hexisting, m1, hrun1, hsettle1⟩ := hcells
    let reg' := reg.relabelled prot flags .guest
    have hz' : InZone s1.mem.tbrk reg' := hz.sized rfl rfl
    have hlt := hz.start_lt_stop
    have hlow := hz.lower
    have hupp := hz.upper
    cases hchange : kmMmapChangeRegionSharing g h s1 reg' existing flags hostfd with
    | mk s2 res =>
      obtain ⟨hlogged, hres⟩ := changeRegionSharing_region hchange rfl
      obtain ⟨m2, hrun2, hcells2⟩ := changeRegionSharing_cells rfl hexisting hmem hz' hchange file m1
      obtain ⟨hhole2, hz2⟩ := hlogged.hole hz' hhole
      have hmem2 := hlogged.memInv hmem
      have hbusy2 : s2.busy = s.busy := hlogged.quiet.busy.trans hbusy
      simp only [do_some] at hr
      rw [hchange] at hr
      rcases hres with rfl | ⟨e, rfl, herr⟩
      · -- the region becomes busy
        simp only [do_eq_some, return_eq_some, Prod.mk.injEq] at hr
        rcases hr with ⟨s3, hins, rfl, rfl⟩
        obtain ⟨m', hrun, hcells⟩ := kmMmapMprotectRegion_cells hh
          (rfl : reg'.kmFlags.partOfMonitor = false) hz2 hmem2.tbrk_lo s2 file m2
        rw [← kmMmapInsertBusy_calls hins] at hrun
        refine ⟨m', (hrun1.trans hrun2).trans hrun, .inr ⟨?_, fun a hlo hhi => ?_,
          fun a ha hout => ?_⟩⟩
        · exact isErrno_of_le (by have : reg'.start = reg.start := rfl; omega)
        · have hin : reg'.start ≤ a ∧ a < reg'.stop := ⟨hlo, hhi⟩
          have hlo' : reg.start ≤ a := hlo
          have hhi' : a < reg.stop := hhi
          have hoff := hmem.tbrk_lo
          have ha : Zone g a := ⟨by omega, by omega⟩
          have hcell := hcells a ha
          rw [if_pos hin] at hcell
          refine ⟨m2 (kmaOf g a), ?_, hcell⟩
          rcases hcells2 with ⟨rfl, hshared⟩ | ⟨-, hcells2⟩
          · right
            refine ⟨?_, (hsettle1 a ha).1⟩
            rcases hshared with ⟨e, he⟩ | hshared
            · cases he
            · exact hshared
          left
          have hcell2 := hcells2 a ha
          rw [if_pos hin] at hcell2
          exact hcell2
        have hout' : ¬ (reg'.start ≤ a ∧ a < reg'.stop) := hout
        have hcell := hcells a ha
        rw [if_neg hout'] at hcell
        have hcell2 : m2 (kmaOf g a) = m1 (kmaOf g a) := by
          rcases hcells2 with ⟨rfl, -⟩ | ⟨-, hcells2⟩
          · rfl
          have hcell2 := hcells2 a ha
          rw [if_neg hout'] at hcell2
          exact hcell2
        rw [hcell, hcell2]
        exact hsettle1 a ha
      -- the memory goes back to where it came from
      rcases hcells2 with ⟨rfl, -⟩ | ⟨hno, -⟩
      · simp only [do_eq_some, return_eq_some,
          Prod.mk.injEq] at hr
        rcases hr with ⟨s3, hins, rfl, rfl⟩
        obtain ⟨m', hrun, hsettle⟩ := kmMmapInsertFree_cells hh hhole2 hmem2 hz2 rfl hins file m2
        have hbusy3 := (kmMmapInsertFree_inv hhole2 hz2 rfl hins).2.trans hbusy2
        rw [hbusy2] at hsettle
        exact ⟨m', (hrun1.trans hrun2).trans hrun, .inl ⟨herr, hbusy3, hsettle1.trans hsettle⟩⟩
      · exact absurd rfl (hno e)

/-! ## Mappings into busy regions -/

/-- The `k`-th byte of what the host maps at a fixed place. -/
def mappedCell (file : FileData) (prot flags : BitVec 32) (hostfd offset : Int) (k : Nat) : Cell :=
  Cell.mapped (mapContent file (mapFixed ||| flags) hostfd (offset + (k : Int))) (mapFixed ||| flags) prot

/-- What was just mapped is clean already. -/
theorem Label.wiped_mapped (x : Label) (content : UInt8) (flags prot : BitVec 32) :
    x.wiped (Cell.mapped content flags prot) = Cell.mapped content flags prot := by
  simp only [Label.wiped, Cell.dontneed]
  split
  · split <;> rfl
  · rfl

/-- What `mapIntoBusy` does if it returns: nothing, or the whole range is mapped anew. -/
structure MappedCells (g : Geometry) (h : Host) (file : FileData) (s s' : MmapState) (m m' : HostMem)
    (gva size : Nat) (prot flags : BitVec 32) (fd hostfd offset : Int) : Prop where
  upper : gva + size ≤ guestMemTopVa
  labels : ∃ clean, Relabelled s s' gva size (mapLabel h prot flags fd clean) ∧
    ∀ a x, gva ≤ a → a < gva + size → labelAt s.busy a = some x →
      x.cleanAfter prot (hostfd < 0) = clean
  cells : ∀ a, Zone g a → m' (kmaOf g a) = if gva ≤ a ∧ a < gva + size then
      mappedCell file prot flags hostfd offset (a - gva) else m (kmaOf g a)

theorem mapIntoBusy_cells {gva ret : Nat} {prot flags : BitVec 32} {fd offset : Int}
    (hh : h.Steady) (hmem : ∀ n, h.ok n .calloc) (hs : Sound g s s.busy)
    (hpage : size % kmPageSize = 0) (hreal : RealAt s.busy)
    (hmapped : gva + size < 2 ^ 64 → PayloadMapped s.busy gva size)
    (hr : mapIntoBusy g h s gva size prot flags fd hostfd offset = some (s', ret)) (file : FileData)
    (m : HostMem) : ∃ m', HostRuns h file s m s' m' ∧ ((isErrno ret ∧ s'.busy = s.busy ∧ m' = m) ∨
        (ret = gva ∧ MappedCells g h file s s' m m' gva size prot flags fd hostfd offset)) := by
  have hflags : flags ||| mapFixed = mapFixed ||| flags := BitVec.or_comm _ _
  have hfixed := (fixed_flags flags).1
  cases mapIntoBusy_end hr with
  | @refused kma hkma hno =>
    -- the host does not do what it refuses
    have hnot : h.carriesOut s.mem.hostCalls.length (mapCall kma size prot flags hostfd offset) =
        false := by
      simp only [mapCall, hflags] at hno ⊢
      simp only [Host.answer, Bool.and_eq_false_iff] at hno
      simp only [Host.carriesOut, hfixed]
      rcases hno with hno | hno <;> simp [hno]
    have hrun : HostRun h file s.mem.hostCalls m
        (mapCall kma size prot flags hostfd offset :: s.mem.hostCalls) _ := .call trivial
    rw [hnot, if_neg Bool.false_ne_true] at hrun
    exact ⟨m, hrun, .inl ⟨h.isErrno_failure _ _, rfl, rfl⟩⟩
  | stuck hkma hok hgva hpass hrc => exact absurd (pass_ends hmem hs hgva hpage hpass) hrc
  | @done kma s1 p reg hkma hok hgva hpass hlist hstart hsize hreg hkm =>
    have hcall := hs.call (mapCall kma size prot flags hostfd offset)
    have hs1 := sound_of_walk hgva hpage hcall hpass
    have hpmem : p.reg ∈ s1.busy := by simp [← hlist, Pos.toList]
    -- the region that the pass left shows that the range is in the zone
    obtain ⟨-, hpz⟩ := (hs1.whole.busy_ok p.reg hpmem).zone_of_lt (le_of_eq hstart)
      (kmGvaToKma_lt_top hkma)
    have hpos : 0 < size := hsize ▸ hpz.nonempty
    have hupp : gva + size ≤ guestMemTopVa := by
      have := hpz.upper
      rwa [Reg.stop, hstart, hsize] at this
    have htop := guestMemTopVa_lt
    have hpay := hmapped (by omega)
    have hlow : s.mem.tbrk ≤ gva := by
      rcases hpay gva le_rfl (by omega) with ⟨r, hrmem, hlo, hhi, -⟩
      exact hs.whole.tbrk_le_of_mapped ⟨r, hrmem, hlo, hhi⟩
    have hoff := hs.mem.tbrk_lo
    have hkma' := hkma
    rw [kmGvaToKma_zone hs.mem hlow (by omega), Option.some.injEq] at hkma'
    subst hkma'
    have hcarry : h.carriesOut s.mem.hostCalls.length
        (mapCall (kmaOf g gva) size prot flags hostfd offset) := by
      simp only [mapCall, hflags] at hok ⊢
      simp only [Host.answer, Bool.and_eq_true] at hok
      simp [Host.carriesOut, hok.1, hok.2]
    have hrun1 : HostRun h file s.mem.hostCalls m
        (mapCall (kmaOf g gva) size prot flags hostfd offset :: s.mem.hostCalls) _ :=
      HostRun.call trivial
    rw [if_pos hcarry] at hrun1
    generalize hm1 : m.exec file (mapCall (kmaOf g gva) size prot flags hostfd offset) = m1 at hrun1
    have hcells1 : ∀ a, Zone g a → m1 (kmaOf g a) = if gva ≤ a ∧ a < gva + size then
        mappedCell file prot flags hostfd offset (a - gva) else m (kmaOf g a) := by
      intro a ha
      rw [← hm1]
      simp only [mapCall, HostMem.exec, hflags]
      rw [ite_kmaOf ha.1 (by omega)]
      by_cases hin : gva ≤ a ∧ a < gva + size
      · rw [if_pos hin, if_pos hin, kmaOf_sub (by omega) hin.1]
        rfl
      · rw [if_neg hin, if_neg hin]
    -- the pass cleans only what was just mapped
    have hrule : PageRule .regionCleanConcat (rangeReg gva size prot (decide (hostfd < 0)))
        fun a _ c => c = m1 (kmaOf g a) := by
      refine ⟨fun hact => (by cases hact), fun hact => (by cases hact),
        fun _ a x c hlo hhi _ hc => ?_⟩
      have hlo' : gva ≤ a := hlo
      have hfin : (rangeReg gva size prot (decide (hostfd < 0))).fin = gva + size :=
        fin_eq (show gva + size < 2 ^ 64 by omega)
      have hhi' : a < gva + size := hfin ▸ hhi
      have hcell := hcells1 a ⟨by omega, by omega⟩
      rw [if_pos ⟨hlo', hhi'⟩] at hcell
      simp only [Action.cell]
      split
      · rw [hc, hcell]
        exact Label.wiped_mapped _ _ _ _
      · exact hc
    have hkeep := busyRangeApply_keeps hh hrule (fun hact => (by cases hact)) hgva hpage hcall hpass
      file m1 (fun a _ => rfl)
    obtain ⟨m', hrun, hpages⟩ := hkeep
    refine ⟨m', hrun1.trans hrun, .inr ⟨rfl, hupp, ?_, fun a ha => (hpages a ha).trans
      (hcells1 a ha)⟩⟩
    -- the labels
    have hlabels : ∀ a, labelAt (kmMmapConcat s1.recoveryMode { p with reg := reg }).toList a = _ :=
      fun a => labelAt_mapped hs hgva hpage (hs.whole.real hreal) hpass hlist hstart hsize hreg hkm a
    have hglued : ∀ a x, gva ≤ a → a < gva + size → labelAt s.busy a = some x →
        p.reg.label = gluedLabel prot (x.cleanAfter prot (hostfd < 0)) := by
      intro a x hlo hhi hx
      have hxpay : x.ofMonitor = false := by
        rcases hpay a hlo hhi with ⟨r, hrmem, hrlo, hrhi, hrpay⟩
        rw [labelAt_of_mem hs.whole.busy_sorted hrmem hrlo hrhi, Option.some.injEq] at hx
        rw [← hx]
        exact hrpay
      exact mapped_clean hs hgva hpage (hs.whole.real hreal) hpass hlist hstart hsize hlo hhi hx hxpay
    refine ⟨p.reg.kmFlags.clean, fun a => ?_, fun a x hlo hhi hx =>
      (congrArg (fun y : Label => y.kmFlags.clean) (hglued a x hlo hhi hx)).symm⟩
    have hlabel : reg.label = mapLabel h prot flags fd p.reg.kmFlags.clean := by
      rcases hpay gva le_rfl (by omega) with ⟨r, hrmem, hrlo, hrhi, -⟩
      have hfirst := hglued gva r.label le_rfl (by omega)
        (labelAt_of_mem hs.whole.busy_sorted hrmem hrlo hrhi)
      have hflags : p.reg.kmFlags = (gluedLabel prot _).kmFlags := congrArg Label.kmFlags hfirst
      simp only [Reg.label, mapLabel, hreg.flags, hreg.protection, hreg.filename, hkm, hflags,
        gluedLabel]
    rw [← hlabel]
    exact hlabels a

/-! ## Growing in place -/

/-- The whole region gets its protection again; what is new is dropped first if the region is clean. -/
theorem mremapGrowInPlace_cells {p : Pos} {oldAddr needed ret : Nat} (hh : h.Steady)
    (hs : Whole g s p.toList) (hm : MemInv g s.mem) (hpay : p.reg.ofMonitor = false)
    (hroom : HasRoom p needed)
    (hr : mremapGrowInPlace g s p oldAddr needed = some (s', ret)) (file : FileData) (m : HostMem) :
    ∃ m', HostRuns h file s m s' m' ∧ ∀ a, Zone g a → m' (kmaOf g a) =
      if p.reg.start ≤ a ∧ a < p.reg.stop + needed then
        p.reg.label.treated (if p.reg.stop ≤ a ∧ p.reg.kmFlags.clean then
          (m (kmaOf g a)).dontneed else m (kmaOf g a)) else m (kmaOf g a) := by
  have hpart := payload_part hpay
  simp only [mremapGrowInPlace, do_eq_some] at hr
  rcases hr with ⟨d, hfind, ⟨⟩, hneed, hr⟩
  rw [kmAssert_eq_some] at hneed
  have hgrown := hs.grown hpart hroom hfind hneed
  cases hr
  -- the donor starts where the region ends
  have hz := hs.mem_ok.payload hpart
  obtain ⟨hdlist, hdlo, hdhi⟩ := kmMmapFindAddress_spec hfind
  have hdz := (hs.free_ok d.reg (by simp [← hdlist, Pos.toList])).zone
  rw [fin_eq hz.no_wrap] at hdlo hdhi
  rw [fin_eq hdz.no_wrap] at hdhi
  have hdstart := donor_start hs hpart hdlist hdlo hdhi
  have hdupp := hdz.upper
  have hdlow := hdz.lower
  have hdstop : d.reg.start + needed ≤ d.reg.stop := by
    simp only [Reg.stop]
    omega
  let new := rangeReg d.reg.start needed protWrite false
  have hnew : InZone s.mem.tbrk new :=
    ⟨hdz.start_page, hroom.page, hroom.pos, hdlow, le_trans hdstop hdupp⟩
  -- first the new part
  generalize hs1 : (if p.reg.kmFlags.clean then
    (kmRegMakeClean g s (rangeReg d.reg.start needed protWrite false)).1 else s) = s1
  have hfirst : ∃ m1, HostRuns h file s m s1 m1 ∧ ∀ a, Zone g a →
      m1 (kmaOf g a) = if (p.reg.stop ≤ a ∧ a < p.reg.stop + needed) ∧ p.reg.kmFlags.clean then
        (m (kmaOf g a)).dontneed else m (kmaOf g a) := by
    rw [← hs1]
    by_cases hclean : p.reg.kmFlags.clean
    · simp only [hclean, if_true, and_true]
      obtain ⟨m1, hrun, hcells⟩ := kmRegMakeClean_cells hh hnew hm.tbrk_lo s file m
      refine ⟨m1, hrun, fun a ha => ?_⟩
      rw [← hdstart]
      exact hcells a ha
    rw [if_neg hclean]
    exact ⟨m, .refl _ _ _ _, fun a _ => (if_neg fun hc => hclean hc.2).symm⟩
  obtain ⟨m1, hrun1, hcells1⟩ := hfirst
  -- then the whole region
  let grown : Reg := { p.reg with size := p.reg.size + needed }
  have hgz : InZone s.mem.tbrk grown := hgrown.mem_ok.payload hpart
  have hgstop : grown.stop = p.reg.stop + needed := by
    simp only [grown, Reg.stop]
    omega
  have hgpart : grown.kmFlags.partOfMonitor = false := hpart
  obtain ⟨m', hrun, hcells⟩ := kmMmapMprotectRegion_cells hh hgpart hgz hm.tbrk_lo s1 file m1
  refine ⟨m', hrun1.trans hrun, fun a ha => ?_⟩
  have hlt := hz.start_lt_stop
  have hcell := hcells a ha
  rw [hgstop, hcells1 a ha] at hcell
  rw [hcell]
  have hstart : grown.start = p.reg.start := rfl
  rw [hstart]
  by_cases hin : p.reg.start ≤ a ∧ a < p.reg.stop + needed
  · rw [if_pos hin, if_pos hin]
    have hiff : ((p.reg.stop ≤ a ∧ a < p.reg.stop + needed) ∧ p.reg.kmFlags.clean) ↔
        p.reg.stop ≤ a ∧ p.reg.kmFlags.clean := by
      constructor
      · exact fun hc => ⟨hc.1.1, hc.2⟩
      · exact fun hc => ⟨⟨hc.1, hin.2⟩, hc.2⟩
    rw [if_congr hiff rfl rfl]
    rfl
  · rw [if_neg hin, if_neg hin, if_neg fun hc => hin (by omega)]

/-! ## Memory below `brk` -/

/-- Protecting pages below `brk` changes nothing at or above `tbrk`. -/
theorem mprotect_low_cells {addr : Nat} (prot : BitVec 32) (hm : MemInv g s.mem)
    (hlow : addr + size ≤ s.mem.brk) (h : Host) (file : FileData) (m : HostMem) :
    ∃ m', HostRun h file s.mem.hostCalls m
        (HostCall.mprotect (kmGvaToKmaNocheck g s.mem addr) size prot :: s.mem.hostCalls) m' ∧
      ∀ a, Zone g a → Tame (m (kmaOf g a)) (m' (kmaOf g a)) ∧
        (s.mem.tbrk ≤ a → m' (kmaOf g a) = m (kmaOf g a)) := by
  have hconsts := layout_consts
  obtain ⟨n, hn2, hn, hmax, hoff⟩ := g.gibs
  have hap := hm.apart
  have hbrk := hm.brk_hi.1
  rw [gib_eq] at hap hbrk
  simp only [MemState.tbrkPa] at hap
  have hno1 : ¬ kmVdsoGva s.mem addr := by
    simp only [kmVdsoGva]
    omega
  have hno2 : ¬ kmGuestmemGva s.mem addr := by
    simp only [kmGuestmemGva]
    omega
  have hkma : kmGvaToKmaNocheck g s.mem addr = g.kmUserMemBase + addr := by
    rw [kmGvaToKmaNocheck, if_neg hno1, if_neg hno2, gvaToGpaNocheck_low (by omega)]
  rw [hkma]
  refine ⟨_, .call trivial, fun a ha => ?_⟩
  split
  · simp only [HostMem.exec]
    split
    next hin =>
      refine ⟨.protect _ _, fun htbrk => ?_⟩
      simp only [kmaOf] at hin
      omega
    · exact ⟨.refl _, fun _ => rfl⟩
  · exact ⟨.refl _, fun _ => rfl⟩

end

end KontainMonitor.Mmap
