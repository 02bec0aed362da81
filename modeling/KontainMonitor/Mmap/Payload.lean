import KontainMonitor.Mmap.Glue

/-!
# Payload — the mapped regions while the payload runs

Start-up puts the GDT and the IDT at the top of the top zone.  No call of the payload touches them, so
they stay a roof over its mappings (`Settled`).  The requests that `MmapOp.Served` leaves out are
those that move `tbrk` the wrong way: sizes that are 0 or near 2^64 after rounding, and the few for
which `tbrk - size` is an argument that `km_mem_tbrk` does not take.
-/

namespace KontainMonitor.Mmap

open Intervals Mem Option Transition

/-! ## The system -/

def x86IdtSize : Nat := 4096

/-- The memory that `km_init_guest_idt` takes.  It goes on only with addresses that it can write to. -/
def kmInitGuestIdt (g : Geometry) (h : Host) (s : MmapState) : Option MmapState := do
  let (s, gdtBase) ← kmGuestMmapSimpleMonitor g h s kmPageSize
  kmAssert (isErrno gdtBase = false)
  let (s, idtBase) ← kmGuestMmapSimpleMonitor g h s x86IdtSize
  kmAssert (isErrno idtBase = false)
  return s

def MmapOp.OfPayload : MmapOp → Prop
  | .mmapSimpleMonitor _ => False
  | _ => True

/-- The machine from the end of start-up on. -/
def payloadSystem (g : Geometry) : System MmapState (Host × MmapOp) where
  init s := ∃ p overcommitMemory h s0,
    kmMmapInit g p overcommitMemory = some s0 ∧ kmInitGuestIdt g h s0 = some s
  step s a s' := a.2.OfPayload ∧ a.2.call g a.1 s = some s'

/-- The request moves the breaks in the direction it should, if at all. -/
def MmapOp.Served (g : Geometry) (s : MmapState) : MmapOp → Prop
  | .brk arg => arg = 0 ∨ guestMemStartVa ≤ arg
  | .mmapSimple size => WellSized g s (roundup size kmPageSize)
  | .mmap _ size _ flags _ _ =>
    flags &&& mapFixed ≠ mapFixed → WellSized g s (roundup size kmPageSize)
  | .mremap _ oldSize size _ => roundup oldSize kmPageSize < roundup size kmPageSize →
      WellSized g s (roundup size kmPageSize)
  | _ => True

def servedSystem (g : Geometry) : System MmapState (Host × MmapOp) :=
  (payloadSystem g).restrict fun s a _ => a.2.Served g s

/-- Between calls: the tiling, and the monitor's roof over the mappings of the payload. -/
structure Settled (g : Geometry) (s : MmapState) : Prop where
  sound : Sound g s s.busy
  roof : ∃ roof, roof < guestMemTopVa ∧ ∀ a, a < guestMemTopVa → (monitorAt s.busy a ↔ roof ≤ a)

/-! ## What a call of the payload keeps -/

/-- A sound state in which the monitor owns the same pages.  Provided that `mem`, about the memory
that the host gave during the call, no page has got fake flags. -/
structure Kept (g : Geometry) (mem : Prop) (s s' : MmapState) : Prop where
  sound : Sound g s' s'.busy
  monitor : ∀ a, monitorAt s'.busy a = monitorAt s.busy a
  real : mem → RealAt s.busy → RealAt s'.busy

section

variable {g : Geometry} {h : Host} {s s' : MmapState} {size ret : Nat} {mem mem' : Prop}
variable {addr gva vcpu : Nat} {prot flags : BitVec 32} {fd offset : Int} {p : MonitorPages}
variable {overcommitMemory : Bool}
variable {action : Action} {clean : Bool} {rc oldAddr : Nat} {x : Label} {hostfd : Int}
variable {tag : Option String}

theorem Kept.refl (hs : Sound g s s.busy) : Kept g mem s s := ⟨hs, fun _ => rfl, fun _ hr => hr⟩

theorem Kept.trans {s1 s2 s3 : MmapState} (h₁ : Kept g mem s1 s2) (h₂ : Kept g mem s2 s3) :
    Kept g mem s1 s3 :=
  ⟨h₂.sound, fun a => (h₂.monitor a).trans (h₁.monitor a), fun hm hr => h₂.real hm (h₁.real hm hr)⟩

theorem Kept.weaken (hk : Kept g mem s s') (hmem : mem' → mem) : Kept g mem' s s' :=
  ⟨hk.sound, hk.monitor, fun hm => hk.real (hmem hm)⟩

theorem Kept.call (hs : Sound g s s.busy) (c : HostCall) : Kept g mem s (s.call c) :=
  ⟨hs.logged (.call s c), fun _ => rfl, fun _ hr => hr⟩

theorem Settled.kept (hs : Settled g s) (hk : Kept g mem s s') : Settled g s' := by
  rcases hs.roof with ⟨roof, hlt, hroof⟩
  exact ⟨hk.sound, roof, hlt, fun a ha => by rw [hk.monitor, hroof a ha]⟩

theorem sound_of_walk (haddr : addr % kmPageSize = 0) (hsize : size % kmPageSize = 0)
    (hs : Sound g s s.busy)
    (hr : kmMmapBusyRangeApply g h s (rangeReg addr size prot clean) action = some (s', rc)) :
    Sound g s' s'.busy := by
  rcases rangeApply_total h prot clean action haddr hsize hs with ⟨s1, r, hr1, hs1, -⟩
  rw [hr, some_mk_inj] at hr1
  obtain ⟨rfl, rfl⟩ := hr1
  exact hs1

theorem kept_of_walk (hact : action ≠ .regionCleanConcat) (haddr : addr % kmPageSize = 0)
    (hsize : size % kmPageSize = 0) (hs : Sound g s s.busy)
    (hr : kmMmapBusyRangeApply g h s (rangeReg addr size prot clean) action = some (s', rc)) :
    Kept g mem s s' :=
  ⟨sound_of_walk haddr hsize hs hr, monitorAt_walk haddr hsize hs.whole hr,
    fun _ hreal => realAt_of_walk hact haddr hsize hs.whole hreal hr⟩

theorem newLabel_ofMonitor (prot flags : BitVec 32) :
    (newLabel prot flags .guest).ofMonitor = false := by
  simp only [newLabel, Label.cleaned]
  split <;> rfl

theorem NewMapping.monitorAt (hn : NewMapping s s' gva size x) (hx : x.ofMonitor = false)
    (a : Nat) : monitorAt s'.busy a = monitorAt s.busy a := by
  rw [Mmap.monitorAt, Mmap.monitorAt, hn.labels]
  by_cases hin : gva ≤ a ∧ a < gva + size
  · rw [if_pos hin, hn.hole a hin.1 hin.2]
    simp [hx]
  · rw [if_neg hin]

theorem newLabel_flags (prot flags : BitVec 32) (type : AllocationType) :
    (newLabel prot flags type).flags = flags := Label.cleaned_flags _

theorem kept_of_addRegion (hs : Sound g s s.busy) (hfixed : flags &&& mapFixed ≠ mapFixed)
    (hsized : WellSized g s size) (hpage : size % kmPageSize = 0)
    (hr : kmMmapAddRegion g h s size prot flags hostfd .guest = some (s', ret)) :
    Kept g mem s s' := by
  rcases kmMmapAddRegion_took hs hsized hpage hr with ⟨hs1, ⟨-, hbusy⟩ | hnew⟩
  · exact ⟨hs1, fun a => by rw [hbusy], fun _ hreal => by rw [hbusy]; exact hreal⟩
  have hnewflags : (newLabel prot flags .guest).flags &&& mapFixed ≠ mapFixed := by
    rw [newLabel_flags]
    exact hfixed
  exact ⟨hs1, hnew.monitorAt (newLabel_ofMonitor prot flags),
    fun _ hreal => Relabelled.real hnew.labels hreal hnewflags⟩

theorem kept_of_mapIntoBusy (hs : Sound g s s.busy) (hpage : size % kmPageSize = 0)
    (hr : mapIntoBusy g h s gva size prot flags fd hostfd offset = some (s', ret)) :
    Kept g (∀ n, h.ok n .calloc) s s' := by
  have hwhole := mapIntoBusy_inv hs.whole hpage hr
  suffices hkept : MemInv g s'.mem ∧ ∀ a, monitorAt s'.busy a = monitorAt s.busy a from
    ⟨⟨hwhole, hkept.1⟩, hkept.2, fun hmem hreal => realAt_of_mapIntoBusy hmem hs hpage hreal hr⟩
  cases mapIntoBusy_end hr with
  | refused hkma hno => exact ⟨(Logged.call s _).memInv hs.mem, fun _ => rfl⟩
  | @stuck kma rc s1 hkma hok hgva hpass hrc =>
    have hcall := hs.call (mapCall kma size prot flags hostfd offset)
    have hmon := monitorAt_walk hgva hpage hcall.whole hpass
    exact ⟨(sound_of_walk hgva hpage hcall hpass).mem, hmon⟩
  | @done kma s1 p reg hkma hok hgva hpass hlist hstart hsize hreg hkm =>
    have hcall := hs.call (mapCall kma size prot flags hostfd offset)
    have hsound := sound_of_walk hgva hpage hcall hpass
    have hmon := monitorAt_walk hgva hpage hcall.whole hpass
    have hs1 := hsound.whole
    rw [← hlist] at hs1
    -- the region gets its attributes and is merged
    have hext := hreg.sameExtent hstart hsize hkm
    have hsame : reg.ofMonitor = p.reg.ofMonitor := by rw [Reg.ofMonitor, Reg.ofMonitor, hkm]
    have hnew : Whole g s1 (Pos.toList { p with reg := reg }) := hs1.relabel hext
    refine ⟨hsound.mem, fun a => ?_⟩
    simp only
    rw [monitorAt_concat hnew, Pos.toList, monitorAt_relabel hext hsame]
    rw [← hlist] at hmon
    exact hmon a

def MapsIntoBusy (flags : BitVec 32) (fd : Int) : Prop :=
  flags &&& mapFixed = mapFixed ∨ (0 ≤ fd ∧ flags &&& mapAnonymous ≠ mapAnonymous)

theorem mapsIntoBusy_of_fd (hfd : 0 ≤ requestFd flags fd) : MapsIntoBusy flags fd := by
  rw [requestFd] at hfd
  split at hfd
  · exact absurd hfd (by decide)
  · exact .inr ⟨hfd, by assumption⟩

theorem RequestEnd.kept (hr : RequestEnd g h s gva size prot flags fd offset .guest s' ret)
    (hs : Sound g s s.busy) (hsized : flags &&& mapFixed ≠ mapFixed → WellSized g s size)
    (hpage : size % kmPageSize = 0) :
    Kept g (MapsIntoBusy flags fd → ∀ n, h.ok n .calloc) s s' := by
  cases hr with
  | refused he => exact Kept.refl hs
  | into hfixed hcheck hm =>
    exact (kept_of_mapIntoBusy hs hpage hm).weaken fun hmem => hmem (.inl hfixed)
  | taken hfixed hadd hend => exact kept_of_addRegion hs hfixed (hsized hfixed) hpage hadd
  | @filled s1 _ _ _ hfixed hadd hok hfd hm =>
    have hs1 : Kept g (MapsIntoBusy flags fd → ∀ n, h.ok n .calloc) s s1 :=
      kept_of_addRegion hs hfixed (hsized hfixed) hpage hadd
    exact hs1.trans ((kept_of_mapIntoBusy hs1.sound hpage hm).weaken
      fun hmem => hmem (mapsIntoBusy_of_fd hfd))

/-- A noted range changes nothing. -/
theorem Kept.set_mapself {v : MapSelf} (hk : Kept g mem s s')
    (hv : v.base % kmPageSize = 0 ∧ v.size % kmPageSize = 0) :
    Kept g mem s { s' with mapself := Function.update s'.mapself vcpu v } :=
  ⟨⟨hk.sound.whole.set_mapself hv, hk.sound.mem⟩, hk.monitor, hk.real⟩

section

variable (hs : Sound g s s.busy)
include hs

theorem kept_of_munmap {stackTop : Nat}
    (hr : kmGuestMunmap g h s vcpu stackTop addr size = some (s', ret)) : Kept g mem s s' := by
  rcases kmGuestMunmap_cases hr with rfl | ⟨haddr, rfl | hm⟩
  · exact Kept.refl hs
  · exact (Kept.refl hs).set_mapself ⟨haddr, roundup_page size⟩
  · exact kept_of_walk (by decide) haddr (roundup_page size) hs hm

theorem kept_of_delayedMunmap (hr : kmDelayedMunmap g h s vcpu = some s') : Kept g mem s s' := by
  rcases kmDelayedMunmap_cases hr with rfl | ⟨s1, rc, hm, rfl⟩
  · exact Kept.refl hs
  have hk : Kept g mem s s1 :=
    kept_of_walk (by decide) (hs.whole.mapself vcpu).1 (hs.whole.mapself vcpu).2 hs hm
  exact hk.set_mapself ⟨Nat.zero_mod _, Nat.zero_mod _⟩

theorem kept_of_mprotect (hr : kmGuestMprotect g h s addr size prot = some (s', ret)) :
    Kept g mem s s' := by
  rcases kmGuestMprotect_cases hr with rfl | ⟨-, rfl⟩ | ⟨haddr, rc, hm⟩
  · exact Kept.refl hs
  · exact Kept.call hs _
  · exact kept_of_walk (by decide) haddr (roundup_page size) hs hm

/-- Growing in place: what the region grows into was not mapped. -/
theorem kept_of_growInPlace {p : Pos} {needed : Nat} (hp : p.toList = s.busy)
    (hpay : p.reg.ofMonitor = false) (hroom : HasRoom p needed)
    (hr : mremapGrowInPlace g s p oldAddr needed = some (s', ret)) : Kept g mem s s' := by
  have hpart := Reg.payload_part hpay
  have hwhole : Whole g s p.toList := hp ▸ hs.whole
  have hwhole' := mremapGrowInPlace_inv hwhole hpart hroom hr
  obtain ⟨-, hlogged, hlabels⟩ := mremapGrowInPlace_labelAt hwhole hpart hroom hr
  have hmem : MemInv g s'.mem := hlogged.memInv hs.mem
  refine ⟨⟨hwhole', hmem⟩, fun a => ?_, fun _ hreal a x hx hxpay => ?_⟩
  rotate_left
  · -- the region keeps its flags
    rw [hlabels, hp] at hx
    by_cases hin : p.reg.start ≤ a ∧ a < p.reg.stop + needed
    · rw [if_pos hin, Option.some.injEq] at hx
      rw [← hx, Label.cleaned_flags]
      exact hs.whole.not_fixed hreal (by simp [← hp, Pos.toList]) hpay
    rw [if_neg hin] at hx
    exact hreal a x hx hxpay
  rw [monitorAt, monitorAt, hlabels, ← hp]
  have hclean : p.reg.label.cleaned.ofMonitor = false := by
    simp only [Label.cleaned]
    split <;> exact hpay
  by_cases hin : p.reg.start ≤ a ∧ a < p.reg.stop + needed
  · rw [if_pos hin, any_some, hclean]
    by_cases hlt : a < p.reg.stop
    · rw [labelAt_of_mem hwhole.busy_sorted (by simp [Pos.toList]) hin.1 hlt, any_some]
      exact hpay.symm
    -- the new part was not mapped
    rw [labelAt_eq_none.2 (hwhole.not_mapped_behind hroom.room a (by omega) (by omega))]
    rfl
  · rw [if_neg hin]

theorem kept_of_mremap {oldSize : Nat}
    (hsized : roundup oldSize kmPageSize < roundup size kmPageSize →
      WellSized g s (roundup size kmPageSize))
    (hr : kmGuestMremap g h s oldAddr oldSize size flags = some (s', ret)) : Kept g mem s s' := by
  -- the flags of a region do not ask for a fixed address
  have hmap : ∀ {p : Pos} {s1 : MmapState} {e : Nat}, Remaps s p oldAddr (roundup oldSize kmPageSize) →
      roundup oldSize kmPageSize < roundup size kmPageSize →
      kmGuestMmapNolock g h s 0 (roundup size kmPageSize) p.reg.protection p.reg.flags (-1) 0 .guest =
        some (s1, e) → Kept g mem s s1 := by
    intro p s1 e hp hless hr
    have hmove := (kmGuestMmapNolock_end hr).kept hs (fun _ => hsized hless) (roundup_page size)
    refine ⟨hmove.sound, hmove.monitor, fun _ hreal => hmove.real ?_ hreal⟩
    rintro (hfixed | ⟨hneg, -⟩)
    · exact absurd hfixed (hs.whole.not_fixed hreal (by simp [← hp.list, Pos.toList]) hp.payload)
    · exact absurd hneg (by decide)
  cases kmGuestMremap_end hs.whole hr with
  | refused | same => exact Kept.refl hs
  | grown hp hless hstop hroom hm => exact kept_of_growInPlace hs hp.list hp.payload hroom hm
  | full hp hless hm he => exact hmap hp hless hm
  | @moved p s1 _ _ src rc hp hless hroom hm hok hsrc hmun hrc =>
    have hk1 := hmap hp hless hm
    have hk2 := hk1.trans (Kept.call hk1.sound
      (.memcpy ((kmGvaToKma g s1.mem ret).getD 0) src (roundup oldSize kmPageSize)))
    exact hk2.trans (kept_of_walk (by decide) hp.page (roundup_page oldSize) hk2.sound hmun)
  | shrunk hp hless hfrom hlen hmun => exact kept_of_walk (by decide) hfrom hlen hs hmun

theorem kept_of_brk {arg : Nat} {m : MemState} (harg : arg = 0 ∨ guestMemStartVa ≤ arg)
    (hr : kmMemBrk g h.alloc s.mem arg = some (m, ret)) : Kept g mem s { s with mem := m } := by
  obtain ⟨hbreaks, ht⟩ := kmMemBrk_breaks hs.whole.breaks hr
  have hmem : MemInv g m := by
    rcases harg with rfl | hlo
    · simp only [kmMemBrk, if_true, some_mk_inj] at hr
      rw [← hr.1]
      exact hs.mem
    rcases kmMemBrk_spec h.alloc hs.mem hlo with ⟨m', r, hr', hm', -⟩
    rw [hr, some_mk_inj] at hr'
    obtain ⟨rfl, rfl⟩ := hr'
    exact hm'
  refine ⟨⟨?_, hmem⟩, fun _ => rfl, fun _ hreal => hreal⟩
  exact { hs.whole with
    breaks := hbreaks
    tbrk_page := ht ▸ hs.whole.tbrk_page
    busy_ok := ht ▸ hs.whole.busy_ok
    free_ok := ht ▸ hs.whole.free_ok
    tiled := ht ▸ hs.whole.tiled }

end

def MmapOp.MapsIntoBusy : MmapOp → Prop
  | .mmap _ _ _ flags fd _ => Mmap.MapsIntoBusy flags fd
  | _ => False

/-- The step: a call of the payload that is served. -/
theorem MmapOp.call_kept {op : MmapOp} (hs : Sound g s s.busy) (hpay : op.OfPayload)
    (hserved : op.Served g s) (hr : op.call g h s = some s') :
    Kept g (op.MapsIntoBusy → ∀ n, h.ok n .calloc) s s' := by
  cases op with
  | brk arg =>
    obtain ⟨⟨m, ret⟩, hm, rfl⟩ := map_eq_some_iff.1 hr
    exact kept_of_brk hs hserved hm
  | mmapSimple size =>
    obtain ⟨ret, hm⟩ := map_fst_eq_some.1 hr
    have hk := (kmGuestMmapImpl_end hm).kept hs (fun _ => hserved) (roundup_page size)
    refine hk.weaken fun _ hinto => ?_
    -- an anonymous mapping at any address
    rcases hinto with hfixed | ⟨hfd, -⟩
    · exact absurd hfixed (by decide)
    · exact absurd hfd (by decide)
  | mmapSimpleMonitor size => cases hpay
  | mmap gva size prot flags fd offset =>
    obtain ⟨ret, hm⟩ := map_fst_eq_some.1 hr
    exact (kmGuestMmapImpl_end hm).kept hs hserved (roundup_page size)
  | munmap vcpu stackTop addr size =>
    obtain ⟨ret, hm⟩ := map_fst_eq_some.1 hr
    exact kept_of_munmap hs hm
  | delayedMunmap vcpu => exact kept_of_delayedMunmap hs hr
  | mprotect addr size prot =>
    obtain ⟨ret, hm⟩ := map_fst_eq_some.1 hr
    exact kept_of_mprotect hs hm
  | mremap oldAddr oldSize size flags =>
    obtain ⟨ret, hm⟩ := map_fst_eq_some.1 hr
    exact kept_of_mremap hs hserved hm

/-! ## Start-up -/

theorem kmMonitorPagesInGuest_logged (hr : kmMonitorPagesInGuest g s gva size prot tag = some s') :
    Logged s { s' with busy := s.busy } := by
  simp only [kmMonitorPagesInGuest, kmMmapInsertBusy, kmMmapInsert, do_eq_some,
    return_eq_some] at hr
  rcases hr with ⟨⟨s1, q⟩, ⟨p, -, hpair⟩, rfl⟩
  rw [Prod.mk.injEq] at hpair
  rcases kmMmapMprotectRegion_logged g s (monitorReg gva size prot tag) with ⟨cs, hcs⟩
  exact ⟨cs, by rw [← hpair.1, hcs]⟩

theorem kmMonitorPagesInGuest_mem (hm : MemInv g s.mem) (ht : s.mem.tbrk = guestMemTopVa)
    (hr : kmMonitorPagesInGuest g s gva size prot tag = some s') :
    MemInv g s'.mem ∧ s'.mem.tbrk = guestMemTopVa := by
  have hlogged := kmMonitorPagesInGuest_logged hr
  have hmem : MemInv g s'.mem := hlogged.memInv hm
  have htbrk : s'.mem.tbrk = s.mem.tbrk := hlogged.quiet.mem.tbrk
  exact ⟨hmem, htbrk.trans ht⟩

/-- The lists are sound at the end of `km_mem_init`, and the top zone is empty. -/
theorem kmMmapInit_sound (hr : kmMmapInit g p overcommitMemory = some s) :
    Sound g s s.busy ∧ s.mem.tbrk = guestMemTopVa := by
  have hwhole := kmMmapInit_inv hr
  simp only [kmMmapInit, bind_eq_bind, bind_eq_some_iff] at hr
  rcases hr with ⟨m, hm, s1, hs1, s2, hs2, hr⟩
  rcases kmMemInit_spec g p overcommitMemory with ⟨m', hm', hfresh⟩
  obtain rfl : m' = m := by
    rw [hm] at hm'
    exact (Option.some.inj hm').symm
  have hpages : MemInv g s1.mem ∧ s1.mem.tbrk = guestMemTopVa := by
    split at hs1
    · cases hs1
      exact ⟨hfresh.inv, hfresh.tbrk⟩
    simp only [bind_eq_some_iff] at hs1
    rcases hs1 with ⟨s0, hs0, hs1⟩
    obtain ⟨hm0, ht0⟩ := kmMonitorPagesInGuest_mem hfresh.inv hfresh.tbrk hs0
    exact kmMonitorPagesInGuest_mem hm0 ht0 hs1
  obtain ⟨hm2, ht2⟩ := kmMonitorPagesInGuest_mem hpages.1 hpages.2 hs2
  obtain ⟨hm3, ht3⟩ := kmMonitorPagesInGuest_mem hm2 ht2 hr
  exact ⟨⟨hwhole, hm3⟩, ht3⟩

/-- The monitor owns the top zone, and no page of it is free. -/
structure AllMonitor (g : Geometry) (s : MmapState) : Prop where
  sound : Sound g s s.busy
  monitor : ∀ a, a < guestMemTopVa → (monitorAt s.busy a ↔ s.mem.tbrk ≤ a)
  no_free : s.free = []

theorem newLabel_monitor (prot flags : BitVec 32) : (newLabel prot flags .monitor).ofMonitor := by
  simp only [newLabel, Label.cleaned]
  split <;> rfl

/-- It is an anonymous mapping at any address. -/
theorem kmGuestMmapSimpleMonitor_add (hr : kmGuestMmapSimpleMonitor g h s size = some (s', ret)) :
    kmMmapAddRegion g h s (roundup size kmPageSize) (protRead ||| protWrite)
      (mapPrivate ||| mapAnonymous) (-1) .monitor = some (s', ret) := by
  have hcheck : mmapCheckParams 0 (mapPrivate ||| mapAnonymous) (-1) = 0 := by decide
  have hanon : (mapPrivate ||| mapAnonymous) &&& mapAnonymous = mapAnonymous := by decide
  have hfixed : ¬ (mapPrivate ||| mapAnonymous) &&& mapFixed = mapFixed := by decide
  have hneg : ¬ (0 : Int) ≤ -1 := by decide
  simp only [kmGuestMmapSimpleMonitor, kmGuestMmapImpl, hcheck, kmGuestMmapNolock, hanon, if_true,
    hfixed, hneg, if_false, ne_eq, not_true_eq_false, do_eq_some] at hr
  rcases hr with ⟨⟨s1, gva⟩, hadd, hr⟩
  rw [if_pos (.inr (by decide))] at hr
  cases hr
  exact hadd

/-- A page for the monitor from below `tbrk`. -/
theorem AllMonitor.mmapSimpleMonitor (hs : AllMonitor g s) (hpage : size % kmPageSize = 0)
    (hpos : 0 < size) (hsize : size ≤ kmPageSize) (hlow : guestMemTopVa - kmPageSize ≤ s.mem.tbrk)
    (hret : isErrno ret = false) (hr : kmGuestMmapSimpleMonitor g h s size = some (s', ret)) :
    AllMonitor g s' ∧ s'.mem.tbrk + size = s.mem.tbrk := by
  obtain ⟨n, hsizes⟩ := g.sizes
  have hsized : WellSized g s size := { Sized.of_lt hpos (by omega) with room := .inr (by omega) }
  have hround : roundup size kmPageSize = size := by
    simp only [roundup, u64]
    rw [kmPageSize_eq] at hpage ⊢
    omega
  have hadd := kmGuestMmapSimpleMonitor_add hr
  rw [hround] at hadd
  obtain ⟨hs', hnew, htop⟩ := kmMmapAddRegion_new hs.sound hsized hpage hret hadd
  have hstop := htop hs.no_free
  have htbrk : s'.mem.tbrk = ret := by
    have hlower := hnew.lower
    have hat : labelAt s'.busy s'.mem.tbrk ≠ none := by
      rw [Ne, labelAt_eq_none, not_not]
      exact hs'.whole.busy_at_tbrk (by have := hnew.upper; omega)
    rw [hnew.labels] at hat
    by_contra hne
    rw [if_neg (by omega)] at hat
    refine hat (labelAt_eq_none.2 fun hm => ?_)
    have := hs.sound.whole.tbrk_le_of_mapped hm
    omega
  have hmon : ∀ a, a < guestMemTopVa → (monitorAt s'.busy a ↔ s'.mem.tbrk ≤ a) := by
    intro a ha
    rw [monitorAt, hnew.labels, htbrk]
    by_cases hin : ret ≤ a ∧ a < ret + size
    · rw [if_pos hin, any_some, newLabel_monitor]
      exact ⟨fun _ => hin.1, fun _ => rfl⟩
    have := hs.monitor a ha
    rw [monitorAt] at this
    rw [if_neg hin, this]
    omega
  refine ⟨⟨hs', hmon, ?_⟩, by omega⟩
  -- a free page would be one of the monitor
  rw [List.eq_nil_iff_forall_not_mem]
  intro r hr
  have hz := (hs'.whole.free_ok r hr).zone
  have hlow' := hz.lower
  have hupp := hz.upper
  have hlt : r.start < r.stop := by
    have := hz.nonempty
    simp only [Reg.stop]
    omega
  have hbusy : Mapped s'.busy r.start := by
    have hm := (hmon r.start (by omega)).2 hlow'
    by_contra hno
    rw [monitorAt, labelAt_eq_none.2 hno] at hm
    cases hm
  exact ((hs'.whole.tiled r.start hlow' (by omega)).1 hbusy).1 ⟨r, hr, le_rfl, hlt⟩

theorem kmMmapInit_allMonitor (hr : kmMmapInit g p overcommitMemory = some s) :
    AllMonitor g s ∧ s.mem.tbrk = guestMemTopVa := by
  obtain ⟨hs, ht⟩ := kmMmapInit_sound hr
  refine ⟨⟨hs, fun a ha => ?_, ?_⟩, ht⟩
  · have hnone : labelAt s.busy a = none := by
      rw [labelAt_eq_none]
      intro hm
      have := hs.whole.tbrk_le_of_mapped hm
      omega
    rw [monitorAt, hnone, ht]
    constructor
    · intro hfalse
      cases hfalse
    intro hle
    omega
  rw [List.eq_nil_iff_forall_not_mem]
  intro r hr
  have hz := (hs.whole.free_ok r hr).zone
  have h1 := hz.lower
  have h2 := hz.upper
  have h3 := hz.nonempty
  simp only [Reg.stop] at h2
  omega

theorem kmInitGuestIdt_allMonitor {s0 : MmapState}
    (hinit : kmMmapInit g p overcommitMemory = some s0) (hr : kmInitGuestIdt g h s0 = some s) :
    AllMonitor g s ∧ s.mem.tbrk < guestMemTopVa := by
  have hconsts := layout_consts
  have hidt : x86IdtSize = 4096 := rfl
  obtain ⟨h0, ht0⟩ := kmMmapInit_allMonitor hinit
  simp only [kmInitGuestIdt, do_eq_some, kmAssert_eq_some, return_eq_some] at hr
  rcases hr with ⟨⟨s1, gdt⟩, hgdt, -, hok1, ⟨s2, idt⟩, hidt2, -, hok2, rfl⟩
  obtain ⟨h₁, ht1⟩ := h0.mmapSimpleMonitor (by decide) (by decide) le_rfl (by omega) hok1 hgdt
  obtain ⟨h₂, ht2⟩ := h₁.mmapSimpleMonitor (by decide) (by decide) (by omega) (by omega) hok2 hidt2
  have hlt : s2.mem.tbrk < guestMemTopVa := by omega
  exact ⟨h₂, hlt⟩

theorem AllMonitor.settled (hs : AllMonitor g s) (hlt : s.mem.tbrk < guestMemTopVa) : Settled g s :=
  ⟨hs.sound, s.mem.tbrk, hlt, hs.monitor⟩

/-- There is no page of the payload yet. -/
theorem AllMonitor.monitor_of_mapped (hs : AllMonitor g s) {a : Nat}
    (hx : labelAt s.busy a = some x) : x.ofMonitor := by
  rcases labelAt_mem hx with ⟨r, hr, hlo, hhi, rfl⟩
  cases hpart : r.kmFlags.partOfMonitor with
  | true => simp [Label.ofMonitor, Reg.label, hpart]
  | false =>
    have hz := (hs.sound.whole.busy_ok r hr).payload hpart
    have hlow := hz.lower
    have hupp := hz.upper
    have hmon := (hs.monitor a (by omega)).2 (by omega)
    rwa [monitorAt, hx, any_some] at hmon

theorem AllMonitor.realAt (hs : AllMonitor g s) : RealAt s.busy := by
  intro a x hx hpay
  rw [hs.monitor_of_mapped hx] at hpay
  cases hpay

/-! ## Runs -/

theorem servedSystem_settled (hs : Reach (servedSystem g) s) : Settled g s := by
  refine Reach.inv ?_ ?_ hs
  · rintro s ⟨p, overcommitMemory, h, s0, hinit, hidt⟩
    obtain ⟨hall, hlt⟩ := kmInitGuestIdt_allMonitor hinit hidt
    exact hall.settled hlt
  rintro s ⟨h, op⟩ s' hs ⟨⟨hpay, hcall⟩, hserved⟩
  exact hs.kept (op.call_kept hs.sound hpay hserved hcall)

/-- Runs in which the host has the memory that calls need that map into busy regions. -/
def gluedSystem (g : Geometry) : System MmapState (Host × MmapOp) :=
  (servedSystem g).restrict fun _ a _ => a.2.MapsIntoBusy → ∀ n, a.1.ok n .calloc

theorem gluedSystem_real (hs : Reach (gluedSystem g) s) : Settled g s ∧ RealAt s.busy := by
  refine Reach.inv (I := fun s => Settled g s ∧ RealAt s.busy) ?_ ?_ hs
  · rintro s ⟨p, overcommitMemory, h, s0, hinit, hidt⟩
    obtain ⟨hall, hlt⟩ := kmInitGuestIdt_allMonitor hinit hidt
    exact ⟨hall.settled hlt, hall.realAt⟩
  rintro s ⟨h, op⟩ s' ⟨hs, hreal⟩ ⟨⟨⟨hpay, hcall⟩, hserved⟩, hmem⟩
  have hk := op.call_kept hs.sound hpay hserved hcall
  exact ⟨hs.kept hk, hk.real hmem hreal⟩

end

end KontainMonitor.Mmap
