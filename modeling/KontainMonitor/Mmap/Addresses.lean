import KontainMonitor.Mmap.Contents

/-!
# Addresses — the arithmetic of addresses in `brk`, `mmap` and `mremap`

`gva_to_gpa`, `gpa_to_upper_gva` and `MEM_IDX` assert that their arguments are addresses of guest
memory, and the slots of guest memory are those from 1 up to the one before the last.  A request that
is served never fails one of these assertions and never touches another slot.  What can still end the
monitor is said by `Stops`: two assertions about regions, after the address arithmetic is done.
-/

namespace KontainMonitor.Mmap

open Intervals Mem Option Transition

/-! ## Slots -/

def InSlots (g : Geometry) (m m' : MemState) : Prop :=
  ∃ cs, m'.hostCalls = cs ++ m.hostCalls ∧
    ∀ reg, HostCall.setUserMemoryRegion reg ∈ cs → guestSlot g reg.slot

section

variable {g : Geometry} {h : Host} {s s' : MmapState} {m m' : MemState} {reg : Reg} {size ret : Nat}
variable {p : Pos} {prot flags : BitVec 32} {oldAddr : Nat}
variable {busy : List Reg} {gva oldSize : Nat}

theorem InSlots.refl (m : MemState) : InSlots g m m := ⟨[], rfl, by simp⟩

theorem InSlots.trans {m1 m2 m3 : MemState} (h1 : InSlots g m1 m2) (h2 : InSlots g m2 m3) :
    InSlots g m1 m3 := by
  rcases h1 with ⟨cs1, hcs1, hall1⟩
  rcases h2 with ⟨cs2, hcs2, hall2⟩
  refine ⟨cs2 ++ cs1, by rw [hcs2, hcs1, List.append_assoc], fun reg hreg => ?_⟩
  rcases List.mem_append.1 hreg with hreg | hreg
  · exact hall2 reg hreg
  · exact hall1 reg hreg

theorem InSlots.call {c : HostCall} (m : MemState) (hc : ∀ reg, c ≠ .setUserMemoryRegion reg) :
    InSlots g m (m.call c) := by
  refine ⟨[c], rfl, fun reg hreg => ?_⟩
  exact absurd (List.mem_singleton.1 hreg).symm (hc reg)

theorem InSlots.of_plugging {lim : Nat} (hp : Plugging g (guestSlot g) lim m m') : InSlots g m m' := by
  rcases hp.calls with ⟨cs, hcs, hall⟩
  exact ⟨cs, hcs, fun reg hreg => hall _ hreg⟩

/-! ## Regions -/

theorem kmRegMakeClean_inSlots (s : MmapState) (reg : Reg) :
    InSlots g s.mem (kmRegMakeClean g s reg).1.mem := by
  simp only [kmRegMakeClean]
  split
  · exact .call _ (by simp)
  · exact .refl _

theorem kmMmapMprotectRegion_inSlots (s : MmapState) (reg : Reg) :
    InSlots g s.mem (kmMmapMprotectRegion g s reg).1.mem := by
  simp only [kmMmapMprotectRegion]
  refine .trans ?_ (kmRegMakeClean_inSlots _ _)
  split
  · exact .refl _
  · exact .call _ (by simp)

theorem kmMmapRegionClean_inSlots (s : MmapState) (mreg reg : Reg) :
    InSlots g s.mem (kmMmapRegionClean g s mreg reg).1.mem := by
  simp only [kmMmapRegionClean]
  split
  · exact kmRegMakeClean_inSlots _ _
  · exact .refl _

theorem kmMmapInsertBusy_inSlots (hr : kmMmapInsertBusy g s reg = some s') :
    InSlots g s.mem s'.mem := by
  rcases kmMmapMprotectRegion_inSlots s reg with ⟨cs, hcs, hall⟩
  exact ⟨cs, (kmMmapInsertBusy_calls hr).trans hcs, hall⟩

/-- Memory that is freed moves `tbrk` up, within the top zone. -/
theorem settleFree_inSlots (hm : MemInv g s.mem) (hz : InZone s.mem.tbrk p.reg)
    (hr : settleFree g h s p = some s') : InSlots g s.mem s'.mem := by
  simp only [settleFree] at hr
  split at hr
  · simp only [do_eq_some, return_eq_some] at hr
    rcases hr with ⟨⟨mem, r⟩, htbrk, rfl⟩
    have hlo := hm.tbrk_lo
    have hlt := hz.start_lt_stop
    rw [Reg.fin_eq hz.no_wrap] at htbrk
    exact .of_plugging (kmMemTbrk_plugging hm (by omega) htbrk)
  cases hr
  exact .refl _

section

variable (hs : Holed g s busy reg.start reg.stop) (hm : MemInv g s.mem) (hz : InZone s.mem.tbrk reg)
  (hpayload : reg.ofMonitor = false)
include hs hm hz hpayload

theorem kmMmapInsertFree_inSlots (hr : kmMmapInsertFree g h s reg = some s') :
    InSlots g s.mem s'.mem := by
  obtain ⟨p, hzone, hr⟩ := kmMmapInsertFree_settled hs hz hpayload hr
  have hlogged := kmMmapMprotectRegion_logged g s reg.cleared
  exact (kmMmapMprotectRegion_inSlots s _).trans (settleFree_inSlots (hlogged.memInv hm) hzone hr)

theorem kmMmapMoveToFree_inSlots (hr : kmMmapMoveToFree g h s reg = some s') :
    InSlots g s.mem s'.mem := by
  have hcall : ∀ c, Holed g (s.call c) busy reg.start reg.stop := fun c => hs.quiet (.call s c)
  have hmem : ∀ c, MemInv g (s.call c).mem := fun c => (Logged.call s c).memInv hm
  simp only [kmMmapMoveToFree] at hr
  split at hr
  · split at hr
    · exact (InSlots.call s.mem (by simp)).trans (kmMmapInsertFree_inSlots (hcall _) (hmem _)
        (hz.sized rfl rfl) hpayload hr)
    exact (InSlots.call s.mem (by simp)).trans
      (kmMmapInsertFree_inSlots (hcall _) (hmem _) hz hpayload hr)
  · exact kmMmapInsertFree_inSlots hs hm hz hpayload hr

end

/-- A walk over a range, from the memory `m` on. -/
theorem slots_walkRule (action : Action) (mreg : Reg) (m : MemState) :
    WalkRule g h action mreg fun st _ => MemInv g st.mem ∧ InSlots g m st.mem where
  busy _ _ _ hi := hi
  calloc st _ hi := ⟨(Logged.call st _).memInv hi.1, hi.2.trans (.call _ (by simp))⟩
  cut _ _ _ _ _ _ _ _ _ _ hi := hi
  freed st xs r ys st' hact hw hr hlo hhi hi hfree := by
    have hpart := Reg.payload_part hr
    have hz := hw.mem_ok.payload hpart
    let r' : Reg := { r with protection := mreg.protection }
    have hz' : InZone st.mem.tbrk r' := hz.sized rfl rfl
    have hhole' : Holed g st (xs ++ ys) r'.start r'.stop := hw.remove hpart
    have hr' : r'.ofMonitor = false := hr
    rcases kmMmapMoveToFree_total hhole' hi.1 hz' hr' with ⟨st2, hst2, hsound⟩
    cases hst2.symm.trans hfree
    exact ⟨hsound.mem, hi.2.trans (kmMmapMoveToFree_inSlots hhole' hi.1 hz' hr' hfree)⟩
  merged st left r right hact hw hr hlo hhi hi := by
    cases action with
    | moveToFree => exact absurd rfl hact
    | mprotect =>
      exact ⟨(kmMmapMprotectRegion_logged g st _).memInv hi.1,
        hi.2.trans (kmMmapMprotectRegion_inSlots st _)⟩
    | regionCleanConcat =>
      exact ⟨(kmMmapRegionClean_logged g st mreg _).memInv hi.1,
        hi.2.trans (kmMmapRegionClean_inSlots st mreg _)⟩

theorem busyRangeApply_inSlots {addr rc : Nat} {clean : Bool} {action : Action}
    (haddr : addr % kmPageSize = 0) (hsize : size % kmPageSize = 0) (hs : Sound g s s.busy)
    (hr : kmMmapBusyRangeApply g h s (rangeReg addr size prot clean) action = some (s', rc)) :
    InSlots g s.mem s'.mem := by
  exact (kmMmapBusyRangeApply_rule hr (slots_walkRule action _ s.mem) haddr hsize hs.whole
    ⟨hs.mem, .refl _⟩).2

/-! ## New mappings -/

def Taken.state : Taken → MmapState
  | .error s _ => s
  | .region s _ _ => s

theorem takeRegion_inSlots {t : Taken} (hs : Sound g s s.busy) (hsized : WellSized g s size)
    (ht : takeRegion g h s size = some t) : InSlots g s.mem t.state.mem := by
  have hcalloc : InSlots g s.mem (s.call .calloc).mem := .call s.mem (by simp)
  simp only [takeRegion] at ht
  split at ht
  · split at ht
    · split at ht
      · cases ht
        exact hcalloc
      cases ht
      exact hcalloc
    simp only [do_eq_some, return_eq_some] at ht
    rcases ht with ⟨-, -, rfl⟩
    exact .refl _
  rename_i hnone
  split at ht
  · -- `tbrk` moves down, and not to the start of the top zone
    obtain ⟨-, -, hoff⟩ := hsized.wanted hs hnone
    have hmem : MemInv g (s.call .calloc).mem := (Logged.call s _).memInv hs.mem
    simp only [do_eq_some] at ht
    rcases ht with ⟨⟨mem, r⟩, htbrk, ht⟩
    have hslots := hcalloc.trans (.of_plugging (kmMemTbrk_plugging hmem hoff htbrk))
    split at ht
    · cases ht
      exact hslots
    cases ht
    exact hslots
  cases ht
  exact hcalloc

theorem kmMmapAddRegion_inSlots {hostfd : Int} (hs : Sound g s s.busy) (hsized : WellSized g s size)
    (hpage : size % kmPageSize = 0)
    (hr : kmMmapAddRegion g h s size prot flags hostfd .guest = some (s', ret)) :
    InSlots g s.mem s'.mem := by
  rcases takeRegion_total h hs hsized hpage with ⟨t, ht, htook⟩
  have hok := takeRegion_inv hs.whole hsized.toSized hpage ht
  have hslots := takeRegion_inSlots hs hsized ht
  rw [kmMmapAddRegion, ht] at hr
  cases t with
  | error s1 e =>
    cases hr
    exact hslots
  | region s1 reg existing =>
    obtain ⟨rfl, hbusy, hmem, -⟩ := htook
    obtain ⟨hhole, hz⟩ := hok
    let reg' := reg.relabelled prot flags .guest
    have hz' : InZone s1.mem.tbrk reg' := hz.sized rfl rfl
    cases hchange : kmMmapChangeRegionSharing g h s1 reg' existing flags hostfd with
    | mk s2 res =>
      have hlogged := (changeRegionSharing_region hchange rfl).1
      have hslots2 : InSlots g s1.mem s2.mem := by
        simp only [kmMmapChangeRegionSharing] at hchange
        split at hchange
        · cases hchange
          exact .call _ (by simp)
        cases hchange
        exact .refl _
      simp only [do_some] at hr
      rw [hchange] at hr
      refine (hslots.trans hslots2).trans ?_
      cases res with
      | ok reg2 =>
        simp only [do_eq_some, return_eq_some, Prod.mk.injEq] at hr
        rcases hr with ⟨s3, hins, rfl, -⟩
        exact kmMmapInsertBusy_inSlots hins
      | error e =>
        simp only [do_eq_some, return_eq_some, Prod.mk.injEq] at hr
        rcases hr with ⟨s3, hins, rfl, -⟩
        obtain ⟨hhole2, hz2⟩ := hlogged.hole hz' hhole
        exact kmMmapInsertFree_inSlots hhole2 (hlogged.memInv hmem) hz2 rfl hins

/-! ## Stops -/

/-- A call ends the monitor although its addresses are right: the region that was glued together for
a file is not the new mapping, or the old mapping cannot be unmapped after a move. -/
inductive Stops (g : Geometry) (h : Host) (s : MmapState) : MmapOp → MmapState → Prop
  | glue {gva size ret kma : Nat} {prot flags : BitVec 32} {fd offset : Int} {s1 s2 : MmapState}
      (hadd : kmMmapAddRegion g h s (roundup size kmPageSize) prot flags
        (h.hostfd (requestFd flags fd)) .guest = some (s1, ret))
      (hkma : kmGvaToKma g s1.mem ret = some kma)
      (hwalk : kmMmapBusyRangeApply g h (s1.call (mapCall kma (roundup size kmPageSize) prot flags
        (h.hostfd (requestFd flags fd)) offset)) (rangeReg ret (roundup size kmPageSize) prot
          (h.hostfd (requestFd flags fd) < 0)) .regionCleanConcat = some (s2, 0))
      (hreg : ¬ ∃ p, kmFindRegNolock s2.busy ret = some p ∧ p.reg.start = ret ∧
        p.reg.size = roundup size kmPageSize) :
      Stops g h s (.mmap gva size prot flags fd offset) s2
  | unmap {oldAddr oldSize size src ret rc : Nat} {flags : BitVec 32} {p : Pos} {s1 s2 : MmapState}
      (hfind : kmMmapFindAddress s.busy oldAddr = some p)
      (hmmap : kmGuestMmapNolock g h s 0 (roundup size kmPageSize) p.reg.protection p.reg.flags (-1) 0
        .guest = some (s1, ret))
      (hsrc : kmGvaToKma g s1.mem oldAddr = some src)
      (hmun : kmGuestMunmapNolock g h (s1.call (.memcpy ((kmGvaToKma g s1.mem ret).getD 0) src
        (roundup oldSize kmPageSize))) oldAddr (roundup oldSize kmPageSize) = some (s2, rc))
      (hrc : isErrno rc) : Stops g h s (.mremap oldAddr oldSize size flags) s2

/-- A call that no assertion about addresses ends, and that stays within the slots of guest memory. -/
def AddressSafe (g : Geometry) (h : Host) (s : MmapState) (op : MmapOp) : Prop :=
  ∃ s', (op.call g h s = some s' ∨ Stops g h s op s') ∧ InSlots g s.mem s'.mem

theorem brk_safe {arg : Nat} (h : Host) (hs : Sound g s s.busy)
    (harg : arg = 0 ∨ guestMemStartVa ≤ arg) : AddressSafe g h s (.brk arg) := by
  have hret : ∃ r, kmMemBrk g h.alloc s.mem arg = some r := by
    rcases harg with rfl | hlo
    · exact ⟨_, rfl⟩
    rcases kmMemBrk_spec h.alloc hs.mem hlo with ⟨m', r, hr, -⟩
    exact ⟨_, hr⟩
  rcases hret with ⟨⟨m', r⟩, hr⟩
  refine ⟨{ s with mem := m' }, .inl ?_, .of_plugging (kmMemBrk_plugging hs.mem harg hr)⟩
  simp [MmapOp.call, hr]

/-- Mapping a file into a new region: the glued region is the last thing that is asserted. -/
theorem mapIntoBusy_returns {kma : Nat} (h : Host) (prot flags : BitVec 32) (fd hostfd offset : Int)
    (hs : Sound g s s.busy) (hgva : gva % kmPageSize = 0) (hsize : size % kmPageSize = 0)
    (hkma : kmGvaToKma g s.mem gva = some kma) :
    ∃ s', ((∃ ret, mapIntoBusy g h s gva size prot flags fd hostfd offset = some (s', ret)) ∨
      (kmMmapBusyRangeApply g h (s.call (mapCall kma size prot flags hostfd offset))
          (rangeReg gva size prot (hostfd < 0)) .regionCleanConcat = some (s', 0) ∧
        ¬ ∃ p, kmFindRegNolock s'.busy gva = some p ∧ p.reg.start = gva ∧ p.reg.size = size)) ∧
      InSlots g s.mem s'.mem := by
  have hcall : InSlots g s.mem (s.call (mapCall kma size prot flags hostfd offset)).mem :=
    InSlots.call s.mem (by simp [mapCall])
  by_cases hok : h.answer s.mem (mapCall kma size prot flags hostfd offset)
  · rcases rangeApply_total h prot (hostfd < 0) .regionCleanConcat hgva hsize
      (hs.call (mapCall kma size prot flags hostfd offset)) with ⟨s1, rc, hwalk, -, -⟩
    have hslots := hcall.trans
      (busyRangeApply_inSlots hgva hsize (hs.call (mapCall kma size prot flags hostfd offset)) hwalk)
    by_cases hrc : rc = 0
    · subst hrc
      by_cases hfound : ∃ p, kmFindRegNolock s1.busy gva = some p ∧ p.reg.start = gva ∧
          p.reg.size = size
      · rcases hfound with ⟨p, hp, hstart, hlen⟩
        simp only [mapCall] at hok hwalk
        have hret : ∃ b ret, mapIntoBusy g h s gva size prot flags fd hostfd offset =
            some ({ s1 with busy := b }, ret) := by
          simp only [mapIntoBusy, hkma, do_some, hok, not_true_eq_false,
            if_false, hwalk, ne_eq, hp, kmAssert_pos (And.intro hstart hlen), pure_def]
          exact ⟨_, _, rfl⟩
        rcases hret with ⟨b, ret, hret⟩
        exact ⟨_, .inl ⟨ret, hret⟩, hslots⟩
      · exact ⟨s1, .inr ⟨hwalk, hfound⟩, hslots⟩
    · exact ⟨s1, .inl ⟨rc, mapIntoBusy_stuck hkma hok hrc hwalk⟩, hslots⟩
  refine ⟨_, .inl ⟨h.failure s.mem (mapCall kma size prot flags hostfd offset), ?_⟩, hcall⟩
  simp only [mapCall] at hok
  simp [mapIntoBusy, hkma, hok, mapCall]

theorem mmap_safe {fd offset : Int} (h : Host) (hs : Sound g s s.busy)
    (hfixed : flags &&& mapFixed ≠ mapFixed) (hsized : WellSized g s (roundup size kmPageSize)) :
    AddressSafe g h s (.mmap gva size prot flags fd offset) := by
  have hpage := roundup_page size
  rcases kmGuestMmap_cases g h s gva size prot flags fd offset with ⟨e, -, heq⟩ | ⟨-, heq⟩
  · exact ⟨s, .inl (by simp [MmapOp.call, heq]), .refl _⟩
  rw [mapRequest, if_neg hfixed] at heq
  rcases kmMmapAddRegion_guest h prot flags (h.hostfd (requestFd flags fd)) hs hsized hpage with
    ⟨s1, ret, hadd, hs1, hres⟩
  have hslots := kmMmapAddRegion_inSlots hs hsized hpage hadd
  rw [hadd, bind_some] at heq
  by_cases hdone : isErrno ret ∨ requestFd flags fd < 0
  · rw [if_pos hdone] at heq
    exact ⟨s1, .inl (by simp [MmapOp.call, heq]), hslots⟩
  rw [if_neg hdone] at heq
  have hnew := hres.resolve_left fun herr => hdone (.inl herr.1)
  have hkma := kmGvaToKma_zone hs1.mem hnew.lower (by
    have := hnew.upper
    have := hsized.pos
    omega)
  rcases mapIntoBusy_returns h prot flags (requestFd flags fd) (h.hostfd (requestFd flags fd))
    offset hs1 hnew.page hpage hkma with
    ⟨s2, ⟨ret2, hinto⟩ | ⟨hwalk, hreg⟩, hslots2⟩
  · rw [hinto] at heq
    exact ⟨s2, .inl (by simp [MmapOp.call, heq]), hslots.trans hslots2⟩
  · exact ⟨s2, .inr (.glue hadd hkma hwalk hreg), hslots.trans hslots2⟩

/-! ## Moves -/

theorem mremapGrowInPlace_inSlots {needed : Nat}
    (hr : mremapGrowInPlace g s p oldAddr needed = some (s', ret)) : InSlots g s.mem s'.mem := by
  simp only [mremapGrowInPlace, do_eq_some] at hr
  rcases hr with ⟨d, -, -, -, hr⟩
  cases hr
  refine .trans ?_ (kmMmapMprotectRegion_inSlots _ _)
  split
  · exact kmRegMakeClean_inSlots _ _
  · exact .refl _

/-- The flags of a region may ask for a fixed address, which is 0 in a move, and refused. -/
theorem not_contiguous_zero (hs : Sound g s s.busy) (hpos : 0 < size) (hlt : size < 2 ^ 64) :
    kmMmapBusyCheckContiguous s.busy 0 size = false := by
  rw [kmMmapBusyCheckContiguous]
  cases hbusy : s.busy with
  | nil => rfl
  | cons r rest =>
    have hr : r ∈ s.busy := by simp [hbusy]
    have hok := hs.whole.busy_ok r hr
    have hstart : 0 < r.start := by
      have hlo := hs.mem.tbrk_lo
      cases hp : r.kmFlags.partOfMonitor with
      | true =>
        have hconsts := layout_consts
        have := hok.monitor hp
        omega
      | false =>
        have := (hok.payload hp).lower
        omega
    simp only [checkContiguousFrom]
    split
    · omega
    split
    · simp only [u64] at *
      simp
      omega
    rw [if_pos]
    exact .inr (.inl ⟨trivial, hstart⟩)

/-- The new place of a mapping that moves. -/
theorem mmapNolock_anywhere_returns (h : Host) (prot flags : BitVec 32) (hs : Sound g s s.busy)
    (hsized : WellSized g s size) (hpage : size % kmPageSize = 0) (hlt : size < 2 ^ 64) :
    ∃ s' ret, kmGuestMmapNolock g h s 0 size prot flags (-1) 0 .guest = some (s', ret) ∧
      Sound g s' s'.busy ∧ (∀ a, Mapped s.busy a → Mapped s'.busy a) ∧ InSlots g s.mem s'.mem := by
  rcases kmGuestMmapNolock_cases g h s 0 size prot flags (-1) 0 with ⟨e, -, heq⟩ | ⟨hcheck, heq⟩
  · exact ⟨s, e, heq, hs, fun _ ha => ha, .refl _⟩
  have hfixed : flags &&& mapFixed ≠ mapFixed := by
    intro hf
    have := hcheck hf
    rw [not_contiguous_zero hs hsized.pos hlt] at this
    cases this
  have hfd : requestFd flags (-1) < 0 := by
    simp only [requestFd]
    split <;> decide
  rcases kmMmapAddRegion_guest h prot flags (h.hostfd (requestFd flags (-1))) hs hsized hpage with
    ⟨s1, ret, hadd, hs1, hres⟩
  refine ⟨s1, ret, ?_, hs1, fun a ha => ?_, kmMmapAddRegion_inSlots hs hsized hpage hadd⟩
  · rw [heq, mapRequest, if_neg hfixed, hadd, bind_some, if_pos (.inr hfd)]
  rcases hres with ⟨-, hbusy⟩ | hnew
  · exact hbusy ▸ ha
  by_contra hno
  rw [← labelAt_eq_none, hnew.labels] at hno
  split at hno
  · cases hno
  · exact labelAt_eq_none.1 hno ha

theorem mremap_grow_safe (h : Host) (hs : Settled g s)
    (hsized : WellSized g s (roundup size kmPageSize)) (hpage : oldAddr % kmPageSize = 0)
    (hfind : kmMmapFindAddress s.busy oldAddr = some p)
    (hfin : ¬ p.reg.fin < u64 (oldAddr + roundup oldSize kmPageSize))
    (hpay : p.reg.ofMonitor = false) (hless : roundup oldSize kmPageSize < roundup size kmPageSize)
    {mayMove : Bool}
    (hcall : kmGuestMremap g h s oldAddr oldSize size flags = kmMremapGrow g h s p oldAddr
      (roundup oldSize kmPageSize) (roundup size kmPageSize) mayMove) :
    AddressSafe g h s (.mremap oldAddr oldSize size flags) := by
  obtain ⟨hlist, hlo, hhi⟩ := kmMmapFindAddress_spec hfind
  rw [kmMremapGrow, kmAssert_pos hpay, bind_eq_bind, bind_some,
    kmAssert_pos ⟨hlo, hhi, not_lt.1 hfin, hless⟩, bind_some] at hcall
  split at hcall
  next hroom =>
    have hgrow := (hs.donorAsserted p hfind hfin hpay hless hroom.1 hroom.2).2
    rcases ne_none_iff_exists'.1 hgrow with ⟨⟨s1, ret⟩, hr⟩
    rw [hr] at hcall
    exact ⟨s1, .inl (by simp [MmapOp.call, hcall]), mremapGrowInPlace_inSlots hr⟩
  split at hcall
  · exact ⟨s, .inl (by simp [MmapOp.call, hcall]), .refl _⟩
  rcases mmapNolock_anywhere_returns h p.reg.protection p.reg.flags hs.sound hsized
    (roundup_page size) (roundup_lt size) with ⟨s1, ret, hmmap, hs1, hkeep, hslots⟩
  simp only [hmmap, bind_eq_bind, bind_some] at hcall
  split at hcall
  · exact ⟨s1, .inl (by simp [MmapOp.call, hcall]), hslots⟩
  -- the old mapping is still there
  have hreg : p.reg ∈ s.busy := by simp [← hlist, Pos.toList]
  have hz := (hs.sound.whole.busy_ok p.reg hreg).payload (Reg.payload_part hpay)
  rw [Reg.fin_eq hz.no_wrap] at hhi
  have hmapped := hkeep oldAddr ⟨p.reg, hreg, hlo, hhi⟩
  have hsrc := kmGvaToKma_zone hs1.mem (hs1.whole.tbrk_le_of_mapped hmapped)
    (lt_of_lt_of_le hhi hz.upper)
  let c := HostCall.memcpy ((kmGvaToKma g s1.mem ret).getD 0) (kmaOf g oldAddr)
    (roundup oldSize kmPageSize)
  rcases rangeApply_total h protNone false .moveToFree hpage (roundup_page oldSize)
    (hs1.call c) with ⟨s2, rc, hmun, -, -⟩
  have hslots2 := (hslots.trans (.call s1.mem (by simp : ∀ reg, c ≠ _))).trans
    (busyRangeApply_inSlots hpage (roundup_page oldSize) (hs1.call c) hmun)
  have hmun' : kmGuestMunmapNolock g h (s1.call c) oldAddr (roundup oldSize kmPageSize) =
    some (s2, rc) := hmun
  rw [hsrc, bind_some, hmun', bind_some] at hcall
  refine ⟨s2, ?_, hslots2⟩
  by_cases hrc : isErrno rc
  · exact .inr (.unmap hfind hmmap hsrc hmun' hrc)
  left
  simp only [if_neg hrc] at hcall
  simp [MmapOp.call, hcall]

theorem mremap_safe (h : Host) (hs : Settled g s)
    (hsized : roundup oldSize kmPageSize < roundup size kmPageSize →
      WellSized g s (roundup size kmPageSize)) :
    AddressSafe g h s (.mremap oldAddr oldSize size flags) := by
  have hdone : ∀ {r}, kmGuestMremap g h s oldAddr oldSize size flags = some (s, r) →
      AddressSafe g h s (.mremap oldAddr oldSize size flags) := fun hr =>
    ⟨s, .inl (by simp [MmapOp.call, hr]), .refl _⟩
  have hold := roundup_page oldSize
  have hsize := roundup_page size
  by_cases hbad : oldAddr % kmPageSize ≠ 0 ∨ oldSize = 0 ∨ size = 0 ∨ flags &&& ~~~mremapMaymove ≠ 0
  · exact hdone (by rw [kmGuestMremap, if_pos hbad])
  have hpage : oldAddr % kmPageSize = 0 := by
    by_contra hne
    exact hbad (.inl hne)
  by_cases heq : roundup oldSize kmPageSize = roundup size kmPageSize
  · exact hdone (by rw [kmGuestMremap, if_neg hbad, if_pos heq])
  have hcall : kmGuestMremap g h s oldAddr oldSize size flags = kmGuestMremapNolock g h s oldAddr
      (roundup oldSize kmPageSize) (roundup size kmPageSize) flags := by
    rw [kmGuestMremap, if_neg hbad, if_neg heq]
  rw [kmGuestMremapNolock] at hcall
  cases hfind : kmMmapFindAddress s.busy oldAddr with
  | none =>
    simp only [hfind] at hcall
    exact hdone hcall
  | some p =>
    simp only [hfind] at hcall
    split at hcall
    · exact hdone hcall
    rename_i hfin
    split at hcall
    · exact hdone hcall
    rename_i hmon
    split at hcall
    next hless =>
      exact mremap_grow_safe h hs (hsized hless) hpage hfind hfin (by simpa using hmon) hless hcall
    rename_i hmore
    -- the end of the mapping is unmapped
    obtain ⟨-, hlo, hhi⟩ := kmMmapFindAddress_spec hfind
    have hfrom : u64 (oldAddr + roundup size kmPageSize) % kmPageSize = 0 := by
      rw [kmPageSize_eq] at hpage hsize ⊢
      rw [u64]
      omega
    have hlen : (roundup oldSize kmPageSize - roundup size kmPageSize) % kmPageSize = 0 := by
      rw [kmPageSize_eq] at hold hsize ⊢
      omega
    rcases rangeApply_total h protNone false .moveToFree hfrom hlen hs.sound with
      ⟨s1, rc, hmun, -, -⟩
    have hmun' : kmGuestMunmapNolock g h s (u64 (oldAddr + roundup size kmPageSize))
      (roundup oldSize kmPageSize - roundup size kmPageSize) = some (s1, rc) := hmun
    rw [kmMremapShrink, kmAssert_pos ⟨hlo, hhi, not_lt.1 hfin⟩, bind_eq_bind,
      bind_some, hmun'] at hcall
    refine ⟨s1, .inl ?_, busyRangeApply_inSlots hfrom hlen hs.sound hmun⟩
    simp [MmapOp.call, hcall]

end

/-! ## Requests -/

/-- The requests whose sizes and addresses the payload chooses freely. -/
def MmapOp.Unplaced : MmapOp → Prop
  | .brk _ => True
  | .mmap _ _ _ flags _ _ => flags &&& mapFixed ≠ mapFixed
  | .mremap .. => True
  | _ => False

/-- In every run of requests that are served: a request that is served is safe. -/
theorem served_addressSafe (g : Geometry) {s : MmapState} (hs : Reach (servedSystem g) s) (h : Host)
    (op : MmapOp) (hop : op.Unplaced) (hserved : op.Served g s) : AddressSafe g h s op := by
  have hset := servedSystem_settled hs
  cases op with
  | brk arg => exact brk_safe h hset.sound hserved
  | mmap gva size prot flags fd offset => exact mmap_safe h hset.sound hop (hserved hop)
  | mremap oldAddr oldSize size flags => exact mremap_safe h hset hserved
  | mmapSimple | mmapSimpleMonitor | munmap | delayedMunmap | mprotect => exact hop.elim

/-- Two pages anywhere, and the heap to its start. -/
theorem served_addressSafe_two : AddressSafe geo512 kindHost booted mapTwoPages ∧
      AddressSafe geo512 kindHost twoPages (.brk guestMemStartVa) :=
  ⟨served_addressSafe geo512 (.init booted_init) kindHost mapTwoPages
      (show (mapPrivate ||| mapAnonymous) &&& mapFixed ≠ mapFixed by decide) fun _ => booted_sized,
    served_addressSafe geo512 twoPages_reach kindHost (.brk guestMemStartVa) trivial
      (.inr le_rfl)⟩

/-- `brk(1)` asks for the slot of the address 0, and `brk(0x100000)` frees the slot of the page
tables. -/
theorem brk_below_memory : Reach (servedSystem geo512) booted ∧
      ¬ AddressSafe geo512 kindHost booted (.brk 1) ∧
      (booted.mem.vmMemRegs kmRsrvMemslot).memorySize ≠ 0 ∧
      ((MmapOp.brk 0x100000).call geo512 kindHost booted).map
        (fun s => (s.mem.vmMemRegs kmRsrvMemslot).memorySize) = some 0 := by
  have hnone : (MmapOp.brk 1).call geo512 kindHost booted = none := by
    rw [← isNone_iff_eq_none]
    decide +kernel
  refine ⟨.init booted_init, ?_, by decide +kernel, by decide +kernel⟩
  rintro ⟨s', hcall | hstop, -⟩
  · rw [hnone] at hcall
    cases hcall
  · cases hstop

end KontainMonitor.Mmap
