import KontainMonitor.Mem.Runs
import KontainMonitor.Mmap.Steps

/-!
# Runs — the mapped regions after any sequence of calls

Every call of the payload keeps the tiling, whatever the host answers; the allocations that the
monitor makes for itself at start-up keep it if the host does not refuse them.
-/

namespace KontainMonitor.Mmap

open Function Intervals List Mem Transition Option

/-- The fd that a request is about; it is ignored if `MAP_ANONYMOUS` is set. -/
def requestFd (flags : BitVec 32) (fd : Int) : Int :=
  if flags &&& mapAnonymous = mapAnonymous then -1 else fd

def Host.hostfd (h : Host) (fd : Int) : Int := if 0 ≤ fd then (h.kmFsG2hFd fd).getD 0 else -1

section Calls

variable {g : Geometry} {h : Host} {s s' : MmapState} {size ret : Nat}
variable {gva addr vcpu oldAddr oldSize : Nat} {hostfd fd offset : Int} {prot flags : BitVec 32}
variable {type : AllocationType} {p : Pos}
variable {m : MemState} {kma stackTop needed : Nat} {d : Pos} {next : Reg} {rest : List Reg}

/-! ## Addresses and sizes -/

theorem roundup_page (x : Nat) : roundup x kmPageSize % kmPageSize = 0 := Nat.mul_mod_left _ _

theorem rounddown_page (x : Nat) : rounddown x kmPageSize % kmPageSize = 0 := Nat.mul_mod_left _ _

/-- The monitor's address of a page is a page. -/
theorem kmGvaToKma_page (hk : kmGvaToKma g m gva = some kma) :
    kma % kmPageSize = 0 ↔ gva % kmPageSize = 0 := by
  obtain ⟨n, -, -, -, hoff⟩ := g.gibs
  have hconsts := layout_consts
  have hbase := g.base_aligned
  simp only [kmGvaToKma] at hk
  split at hk
  · cases hk
  have hno1 : ¬ kmVdsoGva m gva := by
    simp only [kmVdsoGva]
    omega
  have hno2 : ¬ kmGuestmemGva m gva := by
    simp only [kmGuestmemGva]
    omega
  rw [kmGvaToKmaNocheck, if_neg hno1, if_neg hno2, some.injEq] at hk
  rw [← hk, kmPageSize_eq]
  rw [kmPageSize_eq] at hbase
  simp only [gvaToGpaNocheck]
  split <;> omega

theorem kmGvaToKma_lt_top (hk : kmGvaToKma g m gva = some kma) : gva < guestMemTopVa := by
  by_contra hge
  rw [kmGvaToKma, if_pos (by omega)] at hk
  cases hk

/-! ## New regions -/

/-- There is room for `size` bytes in the free list, or `tbrk` would move down for them; `tbrk -
size`, modulo 2^64, is not the argument 0, with which `km_mem_tbrk` only answers, nor above `tbrk`.
-/
structure Sized (s : MmapState) (size : Nat) : Prop where
  pos : 0 < size
  fits : (∃ r ∈ s.free, size ≤ r.size) ∨
    (size ≠ s.mem.tbrk ∧ size + guestMemTopVa < 2 ^ 64 + s.mem.tbrk)

theorem Sized.of_lt (hpos : 0 < size) (hlt : size < s.mem.tbrk) : Sized s size := by
  have hconsts := layout_consts
  exact ⟨hpos, .inr ⟨by omega, by omega⟩⟩

/-- The argument of `km_mem_tbrk` for such a size. -/
theorem wanted_tbrk {tbrk : Nat} (hne : size ≠ tbrk) (hup : size + guestMemTopVa < 2 ^ 64 + tbrk)
    (htop : tbrk ≤ guestMemTopVa) : u64 (tbrk + 2 ^ 64 - size) ≠ 0 ∧
      (u64 (tbrk + 2 ^ 64 - size) ≤ guestMemTopVa →
        size < tbrk ∧ u64 (tbrk + 2 ^ 64 - size) = tbrk - size) := by
  have hconsts := layout_consts
  simp only [u64]
  omega

/-- What `takeRegion` hands out is a hole. -/
def TakenOk (g : Geometry) : Taken → Prop
  | .error s _ => Whole g s s.busy
  | .region s reg _ => Holed g s s.busy reg.start reg.stop ∧ InZone s.mem.tbrk reg

theorem takeRegion_inv {t : Taken} (hs : Whole g s s.busy) (hsized : Sized s size)
    (hpage : size % kmPageSize = 0) (ht : takeRegion g h s size = some t) : TakenOk g t := by
  obtain ⟨hpos, hfits⟩ := hsized
  have hcall := hs.quiet (.call s .calloc)
  simp only [takeRegion] at ht
  split at ht
  next p hfind =>
    obtain ⟨hlist, hle⟩ := kmMmapFindFree_spec hfind
    have hr : FreeOk s.mem.tbrk p.reg := hs.free_ok p.reg (by simp [← hlist, Pos.toList])
    obtain ⟨⟨h1, h2, h3, h4, h5⟩, -, -⟩ := hr
    split at ht
    next hless =>
      split at ht
      · cases ht
        have hcarved := hcall.carve hlist.symm hpos hpage (.inr ⟨hless, rfl⟩)
        rw [← append_cons] at hcarved
        refine ⟨hcarved, h1, hpage, hpos, h4, ?_⟩
        simp only [Reg.stop] at h5 ⊢
        omega
      cases ht
      exact hcall
    simp only [kmAssert_bind_eq_some, Option.pure_def, some.injEq] at ht
    obtain ⟨heq, rfl⟩ := ht
    have hcarved := hs.carve hlist.symm hpos hpage (.inl ⟨heq.symm, rfl⟩)
    refine ⟨?_, h1, h2, h3, h4, h5⟩
    simpa [Reg.stop, heq] using hcarved
  rename_i hnone
  have hfits := hfits.resolve_left (kmMmapFindFree_none hnone)
  split at ht
  · simp only [do_eq_some] at ht
    rcases ht with ⟨⟨m, ret⟩, hm, ht⟩
    have htop := hs.breaks.tbrk_hi
    obtain ⟨hne, hdown⟩ := wanted_tbrk hfits.1 hfits.2 htop
    obtain ⟨hbreaks, hres⟩ := kmMemTbrk_breaks hcall.breaks hne hm
    split at ht
    next hne =>
      cases ht
      rcases hres with ⟨hret, -⟩ | ⟨-, htbrk⟩
      · exact absurd hret hne
      exact { hs with
        breaks := hbreaks
        tbrk_page := htbrk ▸ hs.tbrk_page
        busy_ok := htbrk ▸ hs.busy_ok
        free_ok := htbrk ▸ hs.free_ok
        tiled := htbrk ▸ hs.tiled }
    rename_i heq
    rw [ne_eq, not_not] at heq
    cases ht
    have htbrk : ret = m.tbrk := by
      rcases hres with ⟨harg, htb⟩ | ⟨herr, -⟩
      · exact harg.trans htb.symm
      -- the error is no multiple of the page size
      have hpg' := hs.tbrk_page
      have : negErrno enomem = 2 ^ 64 - 12 := rfl
      rw [kmPageSize_eq] at hpage hpg'
      simp only [u64, MmapState.call, MemState.call] at heq
      omega
    have hlow : ret ≤ guestMemTopVa := by
      rw [htbrk]
      exact hbreaks.tbrk_hi
    obtain ⟨hlt, hwant⟩ := hdown (heq ▸ hlow)
    obtain rfl : ret = s.mem.tbrk - size := heq.trans hwant
    have htbrk : m.tbrk = s.mem.tbrk - size := htbrk.symm
    have hpg' := hs.tbrk_page
    rw [kmPageSize_eq] at hpage hpg'
    have hdown := hcall.tbrk_down hbreaks (by rw [htbrk, kmPageSize_eq]; omega)
      (by rw [htbrk]; exact Nat.sub_le _ _)
    rw [htbrk] at hdown
    have hstop : (rangeReg (s.mem.tbrk - size) size 0 false).stop = s.mem.tbrk := by
      simp only [Reg.stop, rangeReg]
      omega
    have hhole : Holed g { s.call .calloc with mem := m } s.busy
        (rangeReg (s.mem.tbrk - size) size 0 false).start
        (rangeReg (s.mem.tbrk - size) size 0 false).stop := by
      rw [hstop]
      exact hdown
    refine ⟨hhole, ?_, ?_, hpos, le_of_eq htbrk, le_of_eq_of_le hstop htop⟩
    · simp only [rangeReg, kmPageSize_eq]
      omega
    · simpa [rangeReg, kmPageSize_eq] using hpage
  cases ht
  exact hcall

theorem changeRegionSharing_spec {reg : Reg} {existing desired : BitVec 32} {res : Except Nat Reg}
    (hr : kmMmapChangeRegionSharing g h s reg existing desired hostfd = (s', res)) :
    Quiet s s' ∧ (∀ reg', res = .ok reg' → SameExtent reg reg') ∧
      ((∀ n c, h.ok n c) → reg.start % kmPageSize = 0 → 0 < reg.size → ∀ e, res ≠ .error e) := by
  simp only [kmMmapChangeRegionSharing] at hr
  split at hr
  · cases hr
    refine ⟨.call _ _, ?_, ?_⟩
    · intro reg' hok
      split at hok
      · cases hok
        exact ⟨rfl, rfl, rfl⟩
      · cases hok
    intro hhost hpage hsize e he
    have hkma : (kmGvaToKma g s.mem reg.start).getD 0 % kmPageSize = 0 := by
      cases hk : kmGvaToKma g s.mem reg.start with
      | none => exact Nat.zero_mod _
      | some kma => exact (kmGvaToKma_page hk).2 hpage
    have hne : reg.size ≠ 0 := by omega
    split at he
    · cases he
    next hno =>
      apply hno
      simp [Host.answer, wellFormedCall, hkma, hne, hhost]
  cases hr
  refine ⟨.refl _, ?_, fun _ _ _ e he => by cases he⟩
  intro reg' hok
  cases hok
  exact ⟨rfl, rfl, rfl⟩

theorem kmMmapAddRegion_inv (hs : Whole g s s.busy) (hsized : Sized s size)
    (hpage : size % kmPageSize = 0) (hhost : type = .guest ∨ ∀ n c, h.ok n c)
    (hr : kmMmapAddRegion g h s size prot flags hostfd type = some (s', ret)) :
    Whole g s' s'.busy := by
  simp only [kmMmapAddRegion, do_eq_some] at hr
  rcases hr with ⟨t, ht, hr⟩
  have htaken := takeRegion_inv hs hsized hpage ht
  cases t with
  | error s1 e =>
    cases hr
    exact htaken
  | region s1 reg existing =>
    obtain ⟨hhole, hz⟩ := htaken
    have hhole' : Holed g s1 s1.busy (reg.relabelled prot flags type).start
      (reg.relabelled prot flags type).stop := hhole
    have hz' : InZone s1.mem.tbrk (reg.relabelled prot flags type) :=
      hz.sized rfl rfl
    simp only at hr
    split at hr
    next s2 rc hchange =>
      obtain ⟨hq, -, hno⟩ := changeRegionSharing_spec hchange
      -- only a region of the payload may be given back
      have htype : type = .guest := by
        rcases hhost with hg | hok
        · exact hg
        · exact absurd rfl (hno hok hz.start_page hz.nonempty rc)
      simp only [do_eq_some, return_eq_some, Prod.mk.injEq] at hr
      rcases hr with ⟨s3, hins, rfl, -⟩
      obtain ⟨hwhole, hbusy⟩ := kmMmapInsertFree_inv (hhole'.quiet hq) (hq.mem.tbrk ▸ hz')
        (by simp [Reg.ofMonitor, Reg.relabelled, KmFlags.none, htype]) hins
      rw [hbusy, hq.busy]
      exact hwhole
    rename_i s2 reg2 hchange
    obtain ⟨hq, hext, -⟩ := changeRegionSharing_spec hchange
    have hext := hext reg2 rfl
    simp only [do_eq_some, return_eq_some, Prod.mk.injEq] at hr
    rcases hr with ⟨s3, hins, rfl, -⟩
    have hok : BusyOk s2.mem.tbrk reg2 :=
      hext.busyOk ⟨hz'.no_wrap, fun hp => absurd hp (by simp [Reg.relabelled, KmFlags.none]),
        fun _ => hq.mem.tbrk ▸ hz'⟩
    refine kmMmapInsertBusy_inv ?_ hok hins
    rw [hext.start, hext.stop, hq.busy]
    exact hhole'.quiet hq

/-! ## mmap -/

def mapCall (kma size : Nat) (prot flags : BitVec 32) (hostfd offset : Int) : HostCall :=
  .mmap kma size prot (flags ||| mapFixed) hostfd offset

/-- The attributes of a region that a request was mapped into. -/
structure Mapping (h : Host) (gva size : Nat) (prot flags : BitVec 32) (fd offset : Int) (reg : Reg) :
    Prop where
  start : reg.start = gva
  size : reg.size = size
  flags : reg.flags = flags &&& ~~~mapFixed
  protection : reg.protection = prot
  filename : reg.filename = (h.kmGuestfdName fd).bind h.realpath
  offset : reg.filename ≠ none → reg.offset = offset

/-- How `mapIntoBusy` ends: the host refuses, the pass runs out of memory, or the one region that
the pass leaves gets its attributes.  The host has checked that the address is a page. -/
inductive MapEnd (g : Geometry) (h : Host) (s : MmapState) (gva size : Nat) (prot flags : BitVec 32)
    (fd hostfd offset : Int) : MmapState → Nat → Prop
  | refused {kma : Nat} (hkma : kmGvaToKma g s.mem gva = some kma)
      (hno : h.answer s.mem (mapCall kma size prot flags hostfd offset) = false) :
      MapEnd g h s gva size prot flags fd hostfd offset
        (s.call (mapCall kma size prot flags hostfd offset))
        (h.failure s.mem (mapCall kma size prot flags hostfd offset))
  | stuck {kma rc : Nat} {s1 : MmapState} (hkma : kmGvaToKma g s.mem gva = some kma)
      (hok : h.answer s.mem (mapCall kma size prot flags hostfd offset))
      (hgva : gva % kmPageSize = 0)
      (hpass : kmMmapBusyRangeApply g h (s.call (mapCall kma size prot flags hostfd offset))
        (rangeReg gva size prot (hostfd < 0)) .regionCleanConcat = some (s1, rc)) (hrc : rc ≠ 0) :
      MapEnd g h s gva size prot flags fd hostfd offset s1 rc
  | done {kma : Nat} {s1 : MmapState} {p : Pos} {reg : Reg}
      (hkma : kmGvaToKma g s.mem gva = some kma)
      (hok : h.answer s.mem (mapCall kma size prot flags hostfd offset))
      (hgva : gva % kmPageSize = 0)
      (hpass : kmMmapBusyRangeApply g h (s.call (mapCall kma size prot flags hostfd offset))
        (rangeReg gva size prot (hostfd < 0)) .regionCleanConcat = some (s1, 0))
      (hlist : p.toList = s1.busy) (hstart : p.reg.start = gva) (hsize : p.reg.size = size)
      (hreg : Mapping h gva size prot flags fd offset reg) (hkm : reg.kmFlags = p.reg.kmFlags) :
      MapEnd g h s gva size prot flags fd hostfd offset
        { s1 with busy := (kmMmapConcat s1.recoveryMode { p with reg := reg }).toList } gva

theorem Mapping.sameExtent {p : Pos} {reg : Reg} (h : Mapping h gva size prot flags fd offset reg)
    (hstart : p.reg.start = gva) (hsize : p.reg.size = size) (hkm : reg.kmFlags = p.reg.kmFlags) :
    SameExtent p.reg reg :=
  ⟨h.start.trans hstart.symm, h.size.trans hsize.symm, by rw [hkm]⟩

theorem mapIntoBusy_end
    (hr : mapIntoBusy g h s gva size prot flags fd hostfd offset = some (s', ret)) :
    MapEnd g h s gva size prot flags fd hostfd offset s' ret := by
  simp only [mapIntoBusy, bind_eq_bind, bind_eq_some_iff] at hr
  rcases hr with ⟨kma, hkma, hr⟩
  split at hr
  next hno =>
    cases hr
    exact .refused hkma (Bool.not_eq_true _ ▸ hno)
  rename_i hok
  rw [not_not] at hok
  have hgva : gva % kmPageSize = 0 := by
    simp only [Host.answer, wellFormedCall, Bool.and_eq_true, decide_eq_true_eq] at hok
    exact (kmGvaToKma_page hkma).1 hok.1.1
  simp only [bind_eq_some_iff] at hr
  rcases hr with ⟨⟨s1, rc⟩, hpass, hr⟩
  split at hr
  next hrc =>
    cases hr
    exact .stuck hkma hok hgva hpass hrc
  rename_i hrc
  have hzero : rc = 0 := not_not.1 hrc
  subst hzero
  simp only [bind_eq_some_iff, kmAssert_eq_some] at hr
  rcases hr with ⟨p, hfind, -, ⟨hstart, hsize⟩, hr⟩
  cases hr
  refine .done hkma hok hgva hpass (kmFindRegNolock_spec hfind).1 hstart hsize ?_ ?_
  · cases hfd : h.kmGuestfdName fd with
    | none => exact ⟨hstart, hsize, rfl, rfl, by rw [hfd]; rfl, fun hno => absurd rfl hno⟩
    | some name => exact ⟨hstart, hsize, rfl, rfl, by rw [hfd]; rfl, fun _ => rfl⟩
  · split <;> rfl

theorem mapIntoBusy_inv (hs : Whole g s s.busy) (hpage : size % kmPageSize = 0)
    (hr : mapIntoBusy g h s gva size prot flags fd hostfd offset = some (s', ret)) :
    Whole g s' s'.busy := by
  cases mapIntoBusy_end hr with
  | refused hkma hno => exact hs.call _
  | stuck hkma hok hgva hpass hrc => exact kmMmapBusyRangeApply_inv hpass hgva hpage (hs.call _)
  | @done kma s1 p reg hkma hok hgva hpass hlist hstart hsize hreg hkm =>
    have hs1 := kmMmapBusyRangeApply_inv hpass hgva hpage (hs.call _)
    rw [← hlist] at hs1
    have hext := hreg.sameExtent hstart hsize hkm
    have hnew : Whole g s1 (Pos.toList { p with reg := reg }) := hs1.relabel hext
    exact { kmMmapConcat_inv hnew with }

inductive RequestEnd (g : Geometry) (h : Host) (s : MmapState) (gva size : Nat)
    (prot flags : BitVec 32) (fd offset : Int) (type : AllocationType) : MmapState → Nat → Prop
  | refused {e : Nat} (he : isErrno e) :
      RequestEnd g h s gva size prot flags fd offset type s e
  | into {s' : MmapState} {ret : Nat} (hfixed : flags &&& mapFixed = mapFixed)
      (hcheck : kmMmapBusyCheckContiguous s.busy gva size)
      (hm : mapIntoBusy g h s gva size prot flags (requestFd flags fd)
        (h.hostfd (requestFd flags fd)) offset = some (s', ret)) :
      RequestEnd g h s gva size prot flags fd offset type s' ret
  | taken {s' : MmapState} {ret : Nat} (hfixed : flags &&& mapFixed ≠ mapFixed)
      (hadd : kmMmapAddRegion g h s size prot flags (h.hostfd (requestFd flags fd)) type =
        some (s', ret)) (hend : isErrno ret ∨ requestFd flags fd < 0) :
      RequestEnd g h s gva size prot flags fd offset type s' ret
  | filled {s1 s' : MmapState} {gva1 ret : Nat} (hfixed : flags &&& mapFixed ≠ mapFixed)
      (hadd : kmMmapAddRegion g h s size prot flags (h.hostfd (requestFd flags fd)) type =
        some (s1, gva1)) (hok : isErrno gva1 = false) (hfd : 0 ≤ requestFd flags fd)
      (hm : mapIntoBusy g h s1 gva1 size prot flags (requestFd flags fd)
        (h.hostfd (requestFd flags fd)) offset = some (s', ret)) :
      RequestEnd g h s gva size prot flags fd offset type s' ret

theorem requestFd_eq (flags : BitVec 32) (fd : Int) :
    (if flags &&& mapAnonymous = mapAnonymous then -1 else fd) = requestFd flags fd := by
  rw [requestFd]

theorem kmGuestMmapNolock_end
    (hr : kmGuestMmapNolock g h s gva size prot flags fd offset type = some (s', ret)) :
    RequestEnd g h s gva size prot flags fd offset type s' ret := by
  simp only [kmGuestMmapNolock, requestFd_eq] at hr
  split at hr
  · cases hr
    exact .refused (by decide)
  rename_i n hn
  have hhost : (if 0 ≤ requestFd flags fd then (n : Int) else -1) =
      h.hostfd (requestFd flags fd) := by
    rw [Host.hostfd]
    split
    · rw [if_pos ‹_›] at hn
      rw [hn, getD_some]
    · rfl
  rw [hhost] at hr
  split at hr
  next hfixed =>
    split at hr
    · cases hr
      exact .refused (by decide)
    next hcheck =>
      simp only [kmAssert_bind_eq_some] at hr
      exact .into hfixed (not_not.1 hcheck) hr.2
  rename_i hfixed
  simp only [do_eq_some] at hr
  rcases hr with ⟨⟨s1, gva1⟩, hadd, hr⟩
  split at hr
  next hend =>
    cases hr
    exact .taken hfixed hadd hend
  next hfile =>
    rw [not_or, Bool.not_eq_true, not_lt] at hfile
    simp only [kmAssert_bind_eq_some] at hr
    exact .filled hfixed hadd hfile.1 hfile.2 hr.2

theorem mmapCheckParams_errno (addr : Nat) (flags : BitVec 32) (fd : Int) :
    mmapCheckParams addr flags fd = 0 ∨ isErrno (mmapCheckParams addr flags fd) := by
  simp only [mmapCheckParams]
  split
  · exact .inr (by decide)
  split
  · exact .inr (by decide)
  split
  · exact .inr (by decide)
  · exact .inl rfl

theorem kmGuestMmapImpl_end
    (hr : kmGuestMmapImpl g h s gva size prot flags fd offset type = some (s', ret)) :
    RequestEnd g h s gva (roundup size kmPageSize) prot flags fd offset type s' ret := by
  simp only [kmGuestMmapImpl] at hr
  split at hr
  next hbad =>
    cases hr
    exact .refused ((mmapCheckParams_errno gva flags fd).resolve_left hbad)
  · exact kmGuestMmapNolock_end hr

theorem RequestEnd.inv (hr : RequestEnd g h s gva size prot flags fd offset type s' ret)
    (hs : Whole g s s.busy) (hsized : flags &&& mapFixed ≠ mapFixed → Sized s size)
    (hpage : size % kmPageSize = 0) (hhost : type = .guest ∨ ∀ n c, h.ok n c) :
    Whole g s' s'.busy := by
  cases hr with
  | refused he => exact hs
  | into hfixed hcheck hm => exact mapIntoBusy_inv hs hpage hm
  | taken hfixed hadd hend => exact kmMmapAddRegion_inv hs (hsized hfixed) hpage hhost hadd
  | filled hfixed hadd hok hfd hm =>
    exact mapIntoBusy_inv (kmMmapAddRegion_inv hs (hsized hfixed) hpage hhost hadd) hpage hm

/-! ## munmap and mprotect -/

theorem kmGuestMunmapNolock_inv (hs : Whole g s s.busy) (haddr : addr % kmPageSize = 0)
    (hsize : size % kmPageSize = 0) (hr : kmGuestMunmapNolock g h s addr size = some (s', ret)) :
    Whole g s' s'.busy :=
  kmMmapBusyRangeApply_inv hr haddr hsize hs

/-- The range that `km_delayed_munmap` will unmap is noted. -/
theorem Holed.set_mapself {v : MapSelf} (hs : Whole g s s.busy)
    (hv : v.base % kmPageSize = 0 ∧ v.size % kmPageSize = 0) :
    Whole g { s with mapself := update s.mapself vcpu v } s.busy := by
  refine { hs with mapself := fun w => ?_ }
  by_cases hw : w = vcpu
  · simpa [hw] using hv
  · simpa [update_of_ne hw] using hs.mapself w

theorem mumapCheckParams_page (hc : mumapCheckParams addr size = 0) : addr % kmPageSize = 0 := by
  simp only [mumapCheckParams] at hc
  split at hc
  · exact absurd hc (by decide)
  rename_i hne
  rw [not_or, not_not] at hne
  rw [hne.1]
  exact roundup_page addr

theorem kmGuestMunmap_cases (hr : kmGuestMunmap g h s vcpu stackTop addr size = some (s', ret)) :
    s' = s ∨ addr % kmPageSize = 0 ∧
      (s' = { s with mapself := update s.mapself vcpu ⟨addr, roundup size kmPageSize⟩ } ∨
        kmGuestMunmapNolock g h s addr (roundup size kmPageSize) = some (s', ret)) := by
  simp only [kmGuestMunmap] at hr
  split at hr
  · cases hr
    exact .inl rfl
  rename_i hcheck
  refine .inr ⟨mumapCheckParams_page (not_not.1 hcheck), ?_⟩
  split at hr
  · simp only [kmAssert_bind_eq_some, return_eq_some, Prod.mk.injEq] at hr
    exact .inl hr.2.1.symm
  · exact .inr hr

theorem kmDelayedMunmap_cases (hr : kmDelayedMunmap g h s vcpu = some s') :
    s' = s ∨ ∃ s1 rc, kmGuestMunmapNolock g h s (s.mapself vcpu).base (s.mapself vcpu).size =
        some (s1, rc) ∧ s' = { s1 with mapself := update s1.mapself vcpu ⟨0, 0⟩ } := by
  simp only [kmDelayedMunmap] at hr
  split at hr
  · simp only [do_eq_some, return_eq_some] at hr
    rcases hr with ⟨⟨s1, rc⟩, hm, -, -, rfl⟩
    exact .inr ⟨s1, rc, hm, rfl⟩
  cases hr
  exact .inl rfl

/-- Memory below `brk` is protected without a look at the lists. -/
theorem kmGuestMprotect_cases (hr : kmGuestMprotect g h s addr size prot = some (s', ret)) :
    s' = s ∨ (u64 (addr + roundup size kmPageSize) ≤ s.mem.brk ∧ guestMemStartVa ≤ addr) ∧
        s' = s.call (.mprotect (kmGvaToKmaNocheck g s.mem addr) (roundup size kmPageSize)
          (protectionAdjust prot)) ∨ addr % kmPageSize = 0 ∧ ∃ rc, kmMmapBusyRangeApply g h s
        (rangeReg addr (roundup size kmPageSize) prot false) .mprotect = some (s', rc) := by
  simp only [kmGuestMprotect, kmGuestMprotectNolock] at hr
  split at hr
  · cases hr
    exact .inl rfl
  split at hr
  · cases hr
    exact .inl rfl
  rename_i hcheck
  split at hr
  · cases hr
    exact .inr (.inl ⟨by assumption, rfl⟩)
  split at hr
  · cases hr
    exact .inl rfl
  simp only [do_eq_some, return_eq_some, Prod.mk.injEq] at hr
  rcases hr with ⟨⟨s1, rc⟩, hm, rfl, -⟩
  rw [not_or, not_not] at hcheck
  exact .inr (.inr ⟨hcheck.1 ▸ rounddown_page addr, rc, hm⟩)

theorem kmGuestMunmap_inv (hs : Whole g s s.busy)
    (hr : kmGuestMunmap g h s vcpu stackTop addr size = some (s', ret)) : Whole g s' s'.busy := by
  rcases kmGuestMunmap_cases hr with rfl | ⟨haddr, rfl | hm⟩
  · exact hs
  · exact hs.set_mapself ⟨haddr, roundup_page size⟩
  · exact kmGuestMunmapNolock_inv hs haddr (roundup_page size) hm

theorem kmDelayedMunmap_inv (hs : Whole g s s.busy) (hr : kmDelayedMunmap g h s vcpu = some s') :
    Whole g s' s'.busy := by
  rcases kmDelayedMunmap_cases hr with rfl | ⟨s1, rc, hm, rfl⟩
  · exact hs
  have hs1 := kmGuestMunmapNolock_inv hs (hs.mapself vcpu).1 (hs.mapself vcpu).2 hm
  exact hs1.set_mapself ⟨Nat.zero_mod _, Nat.zero_mod _⟩

theorem kmGuestMprotect_inv (hs : Whole g s s.busy)
    (hr : kmGuestMprotect g h s addr size prot = some (s', ret)) : Whole g s' s'.busy := by
  rcases kmGuestMprotect_cases hr with rfl | ⟨-, rfl⟩ | ⟨haddr, rc, hm⟩
  · exact hs
  · exact hs.quiet (.call s _)
  · exact kmMmapBusyRangeApply_inv hm haddr (roundup_page size) hs

/-! ## mremap -/

/-- A free region that contains the end of a busy region starts there. -/
theorem donor_start (hs : Whole g s p.toList) (hpart : p.reg.kmFlags.partOfMonitor = false)
    (hd : d.toList = s.free) (hle : d.reg.start ≤ p.reg.stop) (hlt : p.reg.stop < d.reg.stop) :
    d.reg.start = p.reg.stop := by
  have hz := hs.mem_ok.payload hpart
  have h1 := hz.nonempty
  have h2 := hz.lower
  have h3 := hz.upper
  have hstop : p.reg.start < p.reg.stop := by
    simp only [Reg.stop]
    omega
  by_contra hne
  have hbusy : Mapped p.toList (p.reg.stop - 1) := ⟨p.reg, by simp [Pos.toList], by omega, by omega⟩
  have hfree : Mapped s.free (p.reg.stop - 1) :=
    ⟨d.reg, by simp [← hd, Pos.toList], by omega, by omega⟩
  exact ((hs.tiled _ (by omega) (by omega)).1 hbusy).1 hfree

/-- The room that `km_mremap_grow` finds is there: the difference of the addresses does not wrap. -/
theorem Holed.room_behind (hs : Whole g s p.toList) (hroom : p.roomAfter needed) :
    ∀ y ∈ p.right, p.reg.stop + needed ≤ y.start := by
  have hsorted := sorted_cons.1 (sorted_append.1 hs.busy_sorted).2.1
  simp only [Pos.roomAfter] at hroom
  split at hroom
  · cases hroom
  rename_i next rest hright
  rw [decide_eq_true_eq, Reg.fin_eq hs.mem_ok.no_wrap, u64] at hroom
  rw [hright] at hsorted ⊢
  have hbefore := hsorted.1 next (.head _)
  have := next.start_le_stop
  intro y hy
  rcases mem_cons.1 hy with rfl | hy
  · omega
  have := (sorted_cons.1 hsorted.2).1 y hy
  omega

/-- A region has room behind it to grow by whole pages. -/
structure HasRoom (p : Pos) (needed : Nat) : Prop where
  pos : 0 < needed
  page : needed % kmPageSize = 0
  room : p.roomAfter needed

section

variable (hs : Whole g s p.toList) (hpart : p.reg.kmFlags.partOfMonitor = false)
  (hroom : HasRoom p needed)
include hs hpart hroom

/-- A region grows by what is taken from the front of the free region behind it. -/
theorem Holed.grown (hfind : kmMmapFindAddress s.free p.reg.fin = some d)
    (hneed : needed ≤ d.reg.size) :
    Whole g { s with free := d.left.reverse ++ d.reg.trimFront needed ++ d.right }
      (Pos.toList { p with reg := { p.reg with size := p.reg.size + needed } }) := by
  have hok := hs.mem_ok
  have hfin := Reg.fin_eq hok.no_wrap
  obtain ⟨hdlist, hdlo, hdhi⟩ := kmMmapFindAddress_spec hfind
  have hdz := (hs.free_ok d.reg (by simp [← hdlist, Pos.toList])).zone
  rw [Reg.fin_eq hdz.no_wrap, hfin] at hdhi
  rw [hfin] at hdlo
  have hstart := donor_start hs hpart hdlist hdlo hdhi
  -- the front of the donor is taken from the free list
  have htrim : (needed = d.reg.size ∧ d.reg.trimFront needed = []) ∨
      (needed < d.reg.size ∧ d.reg.trimFront needed =
        [{ d.reg with start := d.reg.start + needed, size := d.reg.size - needed }]) := by
    by_cases heq : d.reg.size = needed
    · exact .inl ⟨heq.symm, if_pos heq⟩
    · exact .inr ⟨by omega, if_neg heq⟩
  have hcarved := hs.carve hdlist.symm hroom.pos hroom.page htrim
  rw [hstart] at hcarved
  -- and the region grows into it
  have htop : p.reg.stop + needed ≤ guestMemTopVa := by
    have := hdz.upper
    simp only [Reg.stop] at this hstart ⊢
    omega
  exact hcarved.extend hpart hroom.pos hroom.page htop (hs.room_behind hroom.room)

theorem mremapGrowInPlace_inv (hr : mremapGrowInPlace g s p oldAddr needed = some (s', ret)) :
    Whole g s' s'.busy := by
  simp only [mremapGrowInPlace, do_eq_some] at hr
  rcases hr with ⟨d, hfind, ⟨⟩, hneed, hr⟩
  rw [kmAssert_eq_some] at hneed
  have hgrown := hs.grown hpart hroom hfind hneed
  cases hr
  have hclean : Quiet s (if p.reg.kmFlags.clean then
      (kmRegMakeClean g s (rangeReg d.reg.start needed protWrite false)).1 else s) := by
    split
    · exact (kmRegMakeClean_spec _).1
    · exact .refl s
  generalize (if p.reg.kmFlags.clean then
    (kmRegMakeClean g s (rangeReg d.reg.start needed protWrite false)).1 else s) = s1 at hclean ⊢
  obtain ⟨hq, hext⟩ := kmMmapMprotectRegion_spec
    { p.reg with size := p.reg.size + needed }
  generalize kmMmapMprotectRegion g s1 { p.reg with size := p.reg.size + needed } = r at hq hext ⊢
  have hq' := hclean.trans hq
  have hquiet : Quiet { s with free := d.left.reverse ++ d.reg.trimFront needed ++ d.right }
      { r.1 with free := d.left.reverse ++ d.reg.trimFront needed ++ d.right } :=
    ⟨hq'.mem, rfl, hq'.busy, hq'.recoveryMode, hq'.mapself⟩
  have hnew := (hgrown.relabel hext).quiet hquiet
  have hconcat : Whole g _ (kmMmapConcat r.1.recoveryMode { p with reg := r.2 }).toList :=
    kmMmapConcat_inv hnew
  exact { hconcat with }

end

/-- The region that a `mremap` is about: a mapping of the payload that has the start of the range. -/
structure Remaps (s : MmapState) (p : Pos) (oldAddr oldSize : Nat) : Prop where
  page : oldAddr % kmPageSize = 0
  list : p.toList = s.busy
  payload : p.reg.ofMonitor = false
  lower : p.reg.start ≤ oldAddr
  upper : oldAddr < p.reg.stop
  fits : u64 (oldAddr + oldSize) ≤ p.reg.stop

inductive RemapEnd (g : Geometry) (h : Host) (s : MmapState) (oldAddr oldSize size : Nat) :
    MmapState → Nat → Prop
  | refused {e : Nat} (he : isErrno e) : RemapEnd g h s oldAddr oldSize size s e
  | same (heq : oldSize = size) : RemapEnd g h s oldAddr oldSize size s oldAddr
  | grown {p : Pos} {s' : MmapState} (hp : Remaps s p oldAddr oldSize) (hless : oldSize < size)
      (hstop : p.reg.stop = oldAddr + oldSize) (hroom : HasRoom p (size - oldSize))
      (hr : mremapGrowInPlace g s p oldAddr (size - oldSize) = some (s', oldAddr)) :
      RemapEnd g h s oldAddr oldSize size s' oldAddr
  -- there is no room for the larger mapping
  | full {p : Pos} {s' : MmapState} {e : Nat} (hp : Remaps s p oldAddr oldSize)
      (hless : oldSize < size)
      (hr : kmGuestMmapNolock g h s 0 size p.reg.protection p.reg.flags (-1) 0 .guest = some (s', e))
      (he : isErrno e) : RemapEnd g h s oldAddr oldSize size s' (negErrno enomem)
  | moved {p : Pos} {s1 s' : MmapState} {ret src rc : Nat} (hp : Remaps s p oldAddr oldSize)
      (hless : oldSize < size)
      (hroom : ¬ (p.reg.stop = u64 (oldAddr + oldSize) ∧ p.roomAfter (size - oldSize)))
      (hr : kmGuestMmapNolock g h s 0 size p.reg.protection p.reg.flags (-1) 0 .guest = some (s1, ret))
      (hok : isErrno ret = false) (hsrc : kmGvaToKma g s1.mem oldAddr = some src)
      (hmun : kmGuestMunmapNolock g h
        (s1.call (.memcpy ((kmGvaToKma g s1.mem ret).getD 0) src oldSize)) oldAddr oldSize =
          some (s', rc))
      (hrc : isErrno rc = false) : RemapEnd g h s oldAddr oldSize size s' ret
  | shrunk {p : Pos} {s' : MmapState} {rc : Nat} (hp : Remaps s p oldAddr oldSize)
      (hless : size < oldSize) (hfrom : u64 (oldAddr + size) % kmPageSize = 0)
      (hlen : (oldSize - size) % kmPageSize = 0)
      (hmun : kmGuestMunmapNolock g h s (u64 (oldAddr + size)) (oldSize - size) = some (s', rc)) :
      RemapEnd g h s oldAddr oldSize size s' (if isErrno rc then negErrno efault else oldAddr)

theorem kmMremapGrow_end {mayMove : Bool} (hs : Whole g s s.busy) (hp : Remaps s p oldAddr oldSize)
    (hold : oldSize % kmPageSize = 0) (holdlt : oldSize < 2 ^ 64) (hsize : size % kmPageSize = 0)
    (hr : kmMremapGrow g h s p oldAddr oldSize size mayMove = some (s', ret)) :
    RemapEnd g h s oldAddr oldSize size s' ret := by
  have hok := (hs.busy_ok p.reg (by simp [← hp.list, Pos.toList])).no_wrap
  have hupper := hp.upper
  simp only [kmMremapGrow, kmAssert_bind_eq_some, Reg.fin_eq hok] at hr
  obtain ⟨-, ⟨-, -, -, hmore⟩, hr⟩ := hr
  split at hr
  next hgap =>
    obtain ⟨hend, hgap⟩ := hgap
    -- a range that wraps does not end behind its start
    have hstop : p.reg.stop = oldAddr + oldSize := by
      rw [u64] at hend
      omega
    have hneed : (size - oldSize) % kmPageSize = 0 := by
      rw [kmPageSize_eq] at hsize hold ⊢
      omega
    have hret : ret = oldAddr := by
      simp only [mremapGrowInPlace, do_eq_some] at hr
      rcases hr with ⟨d, -, -, -, hr⟩
      cases hr
      rfl
    subst hret
    exact .grown hp hmore hstop ⟨Nat.sub_pos_of_lt hmore, hneed, hgap⟩ hr
  rename_i hroom
  split at hr
  · cases hr
    exact .refused (by decide)
  simp only [bind_eq_bind, bind_eq_some_iff] at hr
  rcases hr with ⟨⟨s1, ret1⟩, hm, hr⟩
  split at hr
  next he =>
    cases hr
    exact .full hp hmore hm he
  rename_i hok
  simp only [bind_eq_some_iff] at hr
  rcases hr with ⟨src, hsrc, ⟨s2, rc⟩, hmun, hr⟩
  split at hr
  · cases hr
  next hrc =>
    cases hr
    exact .moved hp hmore hroom hm (by simpa using hok) hsrc hmun (by simpa using hrc)

theorem roundup_lt (n : Nat) : roundup n kmPageSize < 2 ^ 64 := by
  simp only [roundup, u64, kmPageSize_eq]
  omega

theorem kmGuestMremap_end (hs : Whole g s s.busy)
    (hr : kmGuestMremap g h s oldAddr oldSize size flags = some (s', ret)) :
    RemapEnd g h s oldAddr (roundup oldSize kmPageSize) (roundup size kmPageSize) s' ret := by
  have hold := roundup_page oldSize
  have hsize := roundup_page size
  simp only [kmGuestMremap] at hr
  split at hr
  · cases hr
    exact .refused (by decide)
  rename_i hcheck
  have haddr : oldAddr % kmPageSize = 0 := by
    by_contra hne
    exact hcheck (.inl hne)
  split at hr
  next heq =>
    cases hr
    exact .same heq
  rename_i hne
  simp only [kmGuestMremapNolock] at hr
  split at hr
  · cases hr
    exact .refused (by decide)
  rename_i p hfind
  obtain ⟨hlist, hlo, hhi⟩ := kmMmapFindAddress_spec hfind
  have hfin := Reg.fin_eq (hs.busy_ok p.reg (by simp [← hlist, Pos.toList])).no_wrap
  rw [hfin] at hr hhi
  split at hr
  · cases hr
    exact .refused (by decide)
  rename_i hfits
  split at hr
  · cases hr
    exact .refused (by decide)
  rename_i hpay
  have hp : Remaps s p oldAddr (roundup oldSize kmPageSize) :=
    ⟨haddr, hlist, by simpa using hpay, hlo, hhi, not_lt.1 hfits⟩
  split at hr
  · exact kmMremapGrow_end hs hp hold (roundup_lt oldSize) hsize hr
  rename_i hmore
  simp only [kmMremapShrink, do_eq_some, return_eq_some, Prod.mk.injEq] at hr
  rcases hr with ⟨-, -, ⟨s1, rc⟩, hmun, rfl, rfl⟩
  rw [kmPageSize_eq] at haddr hold hsize
  refine .shrunk hp (by omega) ?_ ?_ hmun
  · rw [kmPageSize_eq, u64]
    omega
  rw [kmPageSize_eq]
  omega

theorem kmGuestMremap_inv (hs : Whole g s s.busy)
    (hsized : roundup oldSize kmPageSize < roundup size kmPageSize →
      Sized s (roundup size kmPageSize))
    (hr : kmGuestMremap g h s oldAddr oldSize size flags = some (s', ret)) :
    Whole g s' s'.busy := by
  cases kmGuestMremap_end hs hr with
  | refused he => exact hs
  | same heq => exact hs
  | grown hp hless hstop hroom hm =>
    exact mremapGrowInPlace_inv (hp.list ▸ hs) (Reg.payload_part hp.payload) hroom hm
  | full hp hless hm he =>
    exact (kmGuestMmapNolock_end hm).inv hs (fun _ => hsized hless) (roundup_page size) (.inl rfl)
  | moved hp hless hroom hm hok hsrc hmun hrc =>
    have hs1 := (kmGuestMmapNolock_end hm).inv hs (fun _ => hsized hless) (roundup_page size)
      (.inl rfl)
    exact kmGuestMunmapNolock_inv (hs1.call _) hp.page (roundup_page oldSize) hmun
  | shrunk hp hless hfrom hlen hmun => exact kmGuestMunmapNolock_inv hs hfrom hlen hmun

/-! ## Start-up -/

/-- The private area is no part of the tiling. -/
theorem Holed.private_hole {busy : List Reg} {lo hi : Nat} (hs : Whole g s busy)
    (hlo : guestPrivateMemStartVa ≤ lo) : Holed g s busy lo hi := by
  have htop := guestMemTopVa_lt
  refine { hs with tiled := fun a ha ha' => ?_, hole := fun a ha _ => ?_ }
  · rw [hs.tiled a ha ha']
    constructor
    · rintro ⟨hf, -⟩
      exact ⟨hf, by omega⟩
    rintro ⟨hf, -⟩
    exact ⟨hf, by omega⟩
  refine not_covers_of_le fun r hr => ?_
  have := (hs.free_ok r hr).zone.upper
  omega

theorem kmMonitorPagesInGuest_inv {tag : Option String} (hs : Whole g s s.busy)
    (hlo : guestPrivateMemStartVa ≤ gva) (hwrap : gva + size < 2 ^ 64)
    (hr : kmMonitorPagesInGuest g s gva size prot tag = some s') : Whole g s' s'.busy := by
  have hok : BusyOk s.mem.tbrk (monitorReg gva size prot tag) :=
    ⟨hwrap, fun _ => hlo, fun hp => absurd hp (by simp [monitorReg])⟩
  exact kmMmapInsertBusy_inv (hs.private_hole hlo) hok hr

theorem kmMmapInit_inv {p : MonitorPages} {overcommitMemory : Bool}
    (hr : kmMmapInit g p overcommitMemory = some s) : Whole g s s.busy := by
  simp only [kmMmapInit, bind_eq_bind, bind_eq_some_iff] at hr
  rcases hr with ⟨m, hm, s1, hs1, s2, hs2, hr⟩
  rcases kmMemInit_spec g p overcommitMemory with ⟨m', hm', hfresh⟩
  obtain rfl : m' = m := by
    rw [hm] at hm'
    exact (some.inj hm').symm
  have hinv := hfresh.inv
  have hconsts := layout_consts
  have hend := p.kmGuestEnd_user
  have hempty : Whole g
      { mem := m', free := [], busy := [], recoveryMode := false, mapself := fun _ => ⟨0, 0⟩ } [] := by
    refine ⟨⟨hinv.tbrk_lo, hinv.tbrk_hi, hinv.apart⟩, ?_, rfl, fun _ => ⟨rfl, rfl⟩,
      List.Pairwise.nil, List.Pairwise.nil, by simp, by simp, fun a hlo hhi => ?_, by simp⟩
    · rw [hfresh.tbrk]
      decide
    rw [hfresh.tbrk] at hlo
    exact absurd hhi (not_lt.2 hlo)
  have hpages : Whole g s1 s1.busy := by
    split at hs1
    · cases hs1
      exact hempty
    rename_i vvarBegin vvarEnd vdsoBegin vdsoEnd hv
    have huser := p.vvarVdso_user _ hv
    simp only at huser
    simp only [bind_eq_some_iff] at hs1
    rcases hs1 with ⟨s0, hs0, hs1⟩
    have h0 := kmMonitorPagesInGuest_inv hempty (by omega) (by omega) hs0
    exact kmMonitorPagesInGuest_inv h0 (by omega) (by omega) hs1
  have htext := kmMonitorPagesInGuest_inv hpages (by omega) (by omega) hs2
  exact kmMonitorPagesInGuest_inv htext (by omega) (by omega) hr

end Calls

/-! ## Runs -/

/-- The calls on guest memory: those of the payload, and those that the monitor makes while it loads
the payload. -/
inductive MmapOp
  | brk (arg : Nat)
  | mmapSimple (size : Nat)
  | mmapSimpleMonitor (size : Nat)
  | mmap (gva size : Nat) (prot flags : BitVec 32) (fd offset : Int)
  | munmap (vcpu stackTop addr size : Nat)
  | delayedMunmap (vcpu : Nat)
  | mprotect (addr size : Nat) (prot : BitVec 32)
  | mremap (oldAddr oldSize size : Nat) (flags : BitVec 32)

/-- The state after a call; `none` if an assertion failed or the monitor gave up. -/
def MmapOp.call (g : Geometry) (h : Host) (s : MmapState) : MmapOp → Option MmapState
  | .brk arg => (kmMemBrk g h.alloc s.mem arg).map fun r => { s with mem := r.1 }
  | .mmapSimple size => (kmGuestMmapSimple g h s size).map Prod.fst
  | .mmapSimpleMonitor size => (kmGuestMmapSimpleMonitor g h s size).map Prod.fst
  | .mmap gva size prot flags fd offset =>
    (kmGuestMmap g h s gva size prot flags fd offset).map Prod.fst
  | .munmap vcpu stackTop addr size => (kmGuestMunmap g h s vcpu stackTop addr size).map Prod.fst
  | .delayedMunmap vcpu => kmDelayedMunmap g h s vcpu
  | .mprotect addr size prot => (kmGuestMprotect g h s addr size prot).map Prod.fst
  | .mremap oldAddr oldSize size flags =>
    (kmGuestMremap g h s oldAddr oldSize size flags).map Prod.fst

/-- New mappings are not empty and smaller than `tbrk`, and the host does not refuse what the
monitor maps for itself. -/
def MmapOp.Allowed (h : Host) (s : MmapState) : MmapOp → Prop
  | .mmapSimple size | .mmap _ size _ _ _ _ | .mremap _ _ size _ =>
    0 < roundup size kmPageSize ∧ roundup size kmPageSize < s.mem.tbrk
  | .mmapSimpleMonitor size =>
    (0 < roundup size kmPageSize ∧ roundup size kmPageSize < s.mem.tbrk) ∧
      ∀ n c, h.ok n c
  | _ => True

/-- The machine from start-up on. -/
def mmapSystem (g : Geometry) : System MmapState (Host × MmapOp) where
  init s := ∃ p overcommitMemory, kmMmapInit g p overcommitMemory = some s
  step s a s' := a.2.Allowed a.1 s ∧ a.2.call g a.1 s = some s'

theorem MmapOp.call_inv {g : Geometry} {h : Host} {s s' : MmapState} {op : MmapOp}
    (hs : Whole g s s.busy) (hop : op.Allowed h s) (hr : op.call g h s = some s') :
    Whole g s' s'.busy := by
  cases op with
  | brk arg =>
    obtain ⟨⟨m, ret⟩, hm, rfl⟩ := map_eq_some_iff.1 hr
    obtain ⟨hbreaks, ht⟩ := kmMemBrk_breaks hs.breaks hm
    exact { hs with
      breaks := hbreaks
      tbrk_page := ht ▸ hs.tbrk_page
      busy_ok := ht ▸ hs.busy_ok
      free_ok := ht ▸ hs.free_ok
      tiled := ht ▸ hs.tiled }
  | mmapSimple | mmap =>
    obtain ⟨ret, hm⟩ := map_fst_eq_some.1 hr
    exact (kmGuestMmapImpl_end hm).inv hs (fun _ => .of_lt hop.1 hop.2) (roundup_page _)
      (.inl rfl)
  | mmapSimpleMonitor size =>
    obtain ⟨ret, hm⟩ := map_fst_eq_some.1 hr
    exact (kmGuestMmapImpl_end hm).inv hs (fun _ => .of_lt hop.1.1 hop.1.2) (roundup_page _)
      (.inr hop.2)
  | munmap vcpu stackTop addr size =>
    obtain ⟨ret, hm⟩ := map_fst_eq_some.1 hr
    exact kmGuestMunmap_inv hs hm
  | delayedMunmap vcpu => exact kmDelayedMunmap_inv hs hr
  | mprotect addr size prot =>
    obtain ⟨ret, hm⟩ := map_fst_eq_some.1 hr
    exact kmGuestMprotect_inv hs hm
  | mremap oldAddr oldSize size flags =>
    obtain ⟨ret, hm⟩ := map_fst_eq_some.1 hr
    exact kmGuestMremap_inv hs (fun _ => Sized.of_lt hop.1 hop.2) hm

theorem mmapSystem_whole {g : Geometry} {s : MmapState} (hs : Reach (mmapSystem g) s) :
    Whole g s s.busy := by
  refine Reach.inv (I := fun s => Whole g s s.busy) ?_ ?_ hs
  · rintro s ⟨p, overcommitMemory, hinit⟩
    exact kmMmapInit_inv hinit
  rintro s ⟨h, op⟩ s' hw ⟨hop, hcall⟩
  exact op.call_inv hw hop hcall

def MmapState.payload (s : MmapState) : List Reg := s.busy.filter fun r => !r.kmFlags.partOfMonitor

/-- What the lists look like between calls. -/
structure Tiles (s : MmapState) : Prop where
  busy_sorted : s.payload.Pairwise fun r q => r.start < q.start
  free_sorted : s.free.Pairwise fun r q => r.start < q.start
  pages : ∀ r ∈ s.payload ++ s.free, 0 < r.size ∧ r.start % 4096 = 0 ∧ r.size % 4096 = 0
  disjoint : (s.payload ++ s.free).Pairwise fun r q =>
    r.start + r.size ≤ q.start ∨ q.start + q.size ≤ r.start
  tile : ∀ a, (∃ r ∈ s.payload ++ s.free, r.start ≤ a ∧ a < r.start + r.size) ↔
    s.mem.tbrk ≤ a ∧ a < guestMemTopVa
  not_adjacent : ∀ r ∈ s.free, ∀ q ∈ s.free, r.start + r.size ≠ q.start
  above_tbrk : ∀ r ∈ s.free, r.start ≠ s.mem.tbrk

variable {r : Reg}

theorem Holed.mem_payload {g : Geometry} {s : MmapState} (hs : Whole g s s.busy)
    (hr : r ∈ s.payload) : r ∈ s.busy ∧ InZone s.mem.tbrk r := by
  simp only [MmapState.payload, mem_filter, Bool.not_eq_true'] at hr
  exact ⟨hr.1, (hs.busy_ok r hr.1).payload hr.2⟩

/-- Below the private area the payload's regions are all that is mapped. -/
theorem Holed.mapped_payload {g : Geometry} {s : MmapState} {a : Nat} (hs : Whole g s s.busy)
    (ha : a < guestMemTopVa) : Mapped s.payload a ↔ Mapped s.busy a := by
  constructor
  · exact fun h => h.mono fun r hr => (hs.mem_payload hr).1
  rintro ⟨r, hr, hlo, hhi⟩
  have hpart := ((hs.busy_ok r hr).zone_of_lt hlo ha).1
  exact ⟨r, by simp [MmapState.payload, hr, hpart], hlo, hhi⟩

/-- Two nonempty regions that share no address do not overlap. -/
theorem disjoint_of_not_mapped {q : Reg} (hr : 0 < r.size) (hq : 0 < q.size)
    (h : ∀ a, r.start ≤ a → a < r.stop → ¬ (q.start ≤ a ∧ a < q.stop)) :
    r.start + r.size ≤ q.start ∨ q.start + q.size ≤ r.start := by
  by_contra hover
  simp only [Reg.stop] at h
  have := h (max r.start q.start) (le_max_left _ _) (by omega)
  omega

theorem Holed.tiles {g : Geometry} {s : MmapState} (hs : Whole g s s.busy) : Tiles s := by
  have hbusy : Apart 0 s.payload := List.Pairwise.filter _ hs.busy_sorted
  have hzone : ∀ r ∈ s.payload ++ s.free, InZone s.mem.tbrk r := by
    intro r hr
    rcases mem_append.1 hr with hr | hr
    · exact (hs.mem_payload hr).2
    · exact (hs.free_ok r hr).zone
  have hsorted : ∀ {d : Nat} {l : List Reg}, (∀ r ∈ l, InZone s.mem.tbrk r) → Apart d l →
      l.Pairwise fun r q => r.start < q.start := by
    intro d l hl hap
    refine List.Pairwise.imp_of_mem ?_ hap
    intro r q hr _ hle
    have := (hl r hr).nonempty
    simp only [Reg.stop] at hle
    omega
  refine ⟨hsorted (fun r hr => hzone r (mem_append_left _ hr)) hbusy,
    hsorted (fun r hr => hzone r (mem_append_right _ hr)) hs.free_sorted, ?_, ?_, ?_, ?_, ?_⟩
  · intro r hr
    exact ⟨(hzone r hr).nonempty, (hzone r hr).start_page, (hzone r hr).size_page⟩
  · refine pairwise_append.2 ⟨hbusy.imp fun h => .inl h,
      hs.free_sorted.imp fun h => .inl (Nat.le_of_succ_le h), ?_⟩
    intro r hr q hq
    have hrz := (hs.mem_payload hr).2
    have hqz := (hs.free_ok q hq).zone
    refine disjoint_of_not_mapped hrz.nonempty hqz.nonempty fun a hlo hhi hin => ?_
    have hlow := hrz.lower
    have hupp := hrz.upper
    have ht := (hs.tiled a (by omega) (by omega)).1 ⟨r, (hs.mem_payload hr).1, hlo, hhi⟩
    exact ht.1 ⟨q, hq, hin⟩
  · intro a
    constructor
    · rintro ⟨r, hr, hlo, hhi⟩
      have hlow := (hzone r hr).lower
      have hupp := (hzone r hr).upper
      simp only [Reg.stop] at hupp
      omega
    rintro ⟨hlo, hhi⟩
    refine covers_append.2 ?_
    by_cases hf : Mapped s.free a
    · exact .inr hf
    · exact .inl ((hs.mapped_payload hhi).2 ((hs.tiled a hlo hhi).2 ⟨hf, by omega⟩))
  · intro r hr q hq heq
    have hrz := (hs.free_ok r hr).zone.nonempty
    have hne : r ≠ q := by
      rintro rfl
      omega
    rcases hs.free_sorted.apart hr hq hne with h | h <;> simp only [Reg.stop] at h <;> omega
  intro r hr heq
  have := (hs.free_ok r hr).above
  omega

/-- After any sequence of calls, the payload's busy regions and the free regions tile the top zone,
and free regions are merged with each other and with the memory below `tbrk`. -/
theorem mmap_calls_keep_tiling (g : Geometry) {s : MmapState} (hs : Reach (mmapSystem g) s) :
    Tiles s :=
  (mmapSystem_whole hs).tiles

def kindHost : Host where
  alloc _ := .ok
  ok _ _ := true
  errno _ _ := ⟨1, by decide⟩
  kmFsG2hFd _ := none
  kmGuestfdName _ := none
  realpath _ := none
  kmGuestfdName_neg _ _ := rfl

def mapFivePages : MmapOp := .mmap 0 0x5000 (protRead ||| protWrite) (mapPrivate ||| mapAnonymous) (-1) 0

def unmapThirdPage : MmapOp := .munmap 0 0 0x7fffdfd000 0x1000

def started : MmapState := evaluate (kmMmapInit geo512 onePage false)

def mapped : MmapState := evaluate (mapFivePages.call geo512 kindHost started)

def unmapped : MmapState := evaluate (unmapThirdPage.call geo512 kindHost mapped)

theorem mapped_reach : Reach (mmapSystem geo512) mapped := by
  have h0 : Reach (mmapSystem geo512) started :=
    Reach.init ⟨onePage, false, eq_eval⟩
  exact .step (a := (kindHost, mapFivePages)) h0
    ⟨⟨by decide +kernel, by decide +kernel⟩, eq_eval⟩

/-- Unmapping a page in the middle leaves one free region between two busy ones. -/
theorem mmap_calls_keep_tiling_hole :
    Reach (mmapSystem geo512) unmapped ∧ unmapped.free.length = 1 ∧ Tiles unmapped := by
  have h₂ : Reach (mmapSystem geo512) unmapped :=
    Reach.step (a := (kindHost, unmapThirdPage)) mapped_reach ⟨trivial, eq_eval⟩
  exact ⟨h₂, by decide +kernel, mmap_calls_keep_tiling geo512 h₂⟩

end KontainMonitor.Mmap
