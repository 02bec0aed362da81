import KontainMonitor.Mmap.Payload

/-!
# Requests — what the payload's calls accept while it runs

In every run of requests that are served, the roof over the payload's mappings makes two inferences
of the code right: that a gap behind a mapping is a free region, and that a range without gaps up to
the next region is mapped.
-/

namespace KontainMonitor.Mmap

open Intervals Mem Option Transition

section

variable {g : Geometry} {s : MmapState} {addr size : Nat}

/-! ## The donor of a growing mapping -/

/-- The assertion of `km_mremap_grow`, for a request that passes the checks before it. -/
def DonorAsserted (g : Geometry) (s : MmapState) (oldAddr oldSize size : Nat) : Prop :=
  ∀ p, kmMmapFindAddress s.busy oldAddr = some p → ¬ p.reg.fin < u64 (oldAddr + oldSize) →
    p.reg.ofMonitor = false → oldSize < size →
    p.reg.fin = u64 (oldAddr + oldSize) → p.roomAfter (size - oldSize) →
    (∃ d, kmMmapFindAddress s.free p.reg.fin = some d ∧ d.reg.start = p.reg.fin ∧
      size - oldSize ≤ d.reg.size) ∧
    mremapGrowInPlace g s p oldAddr (size - oldSize) ≠ none

/-- The roof is mapped, and a mapping of the payload ends below it. -/
theorem Settled.below_roof (hs : Settled g s) : ∃ roof, roof < guestMemTopVa ∧ Mapped s.busy roof ∧
      ∀ r ∈ s.busy, r.ofMonitor = false → r.stop ≤ roof := by
  rcases hs.roof with ⟨roof, hlt, hroof⟩
  refine ⟨roof, hlt, ?_, fun r hr hpay => ?_⟩
  · have hmon := (hroof roof hlt).2 le_rfl
    by_contra hno
    rw [monitorAt, labelAt_eq_none.2 hno] at hmon
    cases hmon
  -- the last address of the mapping is not the monitor's
  have hz := (hs.sound.whole.busy_ok r hr).payload (Reg.payload_part hpay)
  have hupp := hz.upper
  have hpos := hz.nonempty
  have hlast : r.start ≤ r.stop - 1 ∧ r.stop - 1 < r.stop := by
    simp only [Reg.stop]
    omega
  have hlabel := labelAt_of_mem hs.sound.whole.busy_sorted hr hlast.1 hlast.2
  by_contra hgt
  have hmon := (hroof (r.stop - 1) (by omega)).2 (by omega)
  rw [monitorAt, hlabel, any_some, show r.label.ofMonitor = false from hpay] at hmon
  cases hmon

theorem Settled.donorAsserted (hs : Settled g s) {oldAddr oldSize : Nat} :
    DonorAsserted g s oldAddr oldSize size := by
  intro p hfind _ hpay hmore _ hroom
  have hp := (kmMmapFindAddress_spec hfind).1
  have hwhole : Whole g s p.toList := hp ▸ hs.sound.whole
  have hpart := Reg.payload_part hpay
  have hfin := Reg.fin_eq hwhole.mem_ok.no_wrap
  rcases hs.below_roof with ⟨roof, hlt, hbusy, hbelow⟩
  have habove := hbelow p.reg (by simp [← hp, Pos.toList]) hpay
  rcases donor_exists hwhole hpart (by omega) hroom hlt habove (hp.symm ▸ hbusy) with
    ⟨d, hd, hstart, hneed⟩
  refine ⟨⟨d, hd, hstart.trans hfin.symm, hneed⟩, ?_⟩
  simp only [mremapGrowInPlace, hd, do_some, kmAssert_pos hneed]
  exact some_ne_none _

/-- In every run of requests that are served, a mapping that has room to grow has a donor. -/
theorem mremap_donor_found (g : Geometry) {s : MmapState} (hs : Reach (servedSystem g) s)
    (oldAddr oldSize size : Nat) : DonorAsserted g s oldAddr oldSize size :=
  (servedSystem_settled hs).donorAsserted

end

def refusingHost : Host :=
  { kindHost with
    ok := fun _ c => match c with
      | .mmap .. => false
      | _ => true }

def booted : MmapState := evaluate (kmInitGuestIdt geo512 kindHost started)

theorem booted_init : (payloadSystem geo512).init booted :=
  ⟨onePage, false, kindHost, started, eq_eval, eq_eval⟩

def mapTwoPages : MmapOp :=
  .mmap 0 0x2000 (protRead ||| protWrite) (mapPrivate ||| mapAnonymous) (-1) 0

def unmapUpperPage : MmapOp := .munmap 0 0 0x7fffdfd000 0x1000

/-- Nearly 2^64 bytes: `tbrk` moves up by two pages for them. -/
def mapNearlyAll : MmapOp :=
  .mmap 0 (2 ^ 64 - 0x2000) (protRead ||| protWrite) (mapShared ||| mapAnonymous) (-1) 0

def twoPages : MmapState := evaluate (mapTwoPages.call geo512 kindHost booted)

def lowerPage : MmapState := evaluate (unmapUpperPage.call geo512 kindHost twoPages)

def swallowed : MmapState := evaluate (mapNearlyAll.call geo512 refusingHost lowerPage)

theorem twoPages_reach : Reach (servedSystem geo512) twoPages := by
  have hsized : WellSized geo512 booted (roundup 0x2000 kmPageSize) :=
    ⟨⟨by decide, .inr ⟨by decide +kernel, by decide +kernel⟩⟩, .inr (by decide +kernel)⟩
  exact .step (a := (kindHost, mapTwoPages)) (.init booted_init)
    ⟨⟨trivial, eq_eval⟩, fun _ => hsized⟩

theorem lowerPage_reach : Reach (servedSystem geo512) lowerPage :=
  Reach.step (a := (kindHost, unmapUpperPage)) twoPages_reach
    ⟨⟨trivial, eq_eval⟩, trivial⟩

/-- The huge region that could not be made shared goes to the free list and takes the free page
below it along: its end is below that page, modulo 2^64, and the page is lost. -/
theorem swallowed_donor : Reach (payloadSystem geo512) swallowed ∧
      kmGuestMremap geo512 kindHost swallowed 0x7fffdfc000 0x1000 0x2000 0 = none ∧
      ¬ DonorAsserted geo512 swallowed 0x7fffdfc000 0x1000 0x2000 := by
  have hreach : Reach (payloadSystem geo512) swallowed :=
    Reach.step (a := (refusingHost, mapNearlyAll)) lowerPage_reach.of_restrict
      ⟨trivial, eq_eval⟩
  have hfind : ∃ p, kmMmapFindAddress swallowed.busy 0x7fffdfc000 = some p ∧
      ¬ p.reg.fin < u64 (0x7fffdfc000 + 0x1000) ∧ p.reg.ofMonitor = false ∧
      p.reg.fin = u64 (0x7fffdfc000 + 0x1000) ∧ p.roomAfter (0x2000 - 0x1000) ∧
      kmMmapFindAddress swallowed.free p.reg.fin = none := by
    refine ⟨evaluate (kmMmapFindAddress swallowed.busy 0x7fffdfc000),
      eq_eval, ?_⟩
    decide +kernel
  refine ⟨hreach, by decide +kernel, fun hdonor => ?_⟩
  rcases hfind with ⟨p, hp, h1, h2, h3, h4, hnone⟩
  rcases (hdonor p hp h1 h2 (by decide) h3 h4).1 with ⟨d, hd, -⟩
  rw [hnone] at hd
  cases hd

/-- After the page above it was unmapped, a page has a donor. -/
theorem mremap_donor_found_page : DonorAsserted geo512 lowerPage 0x7fffdfc000 0x1000 0x2000 ∧
      (kmGuestMremap geo512 kindHost lowerPage 0x7fffdfc000 0x1000 0x2000 0).map Prod.snd =
        some 0x7fffdfc000 :=
  ⟨mremap_donor_found geo512 lowerPage_reach 0x7fffdfc000 0x1000 0x2000, by decide +kernel⟩

/-! ## Ranges that are mapped -/

def Host.Grants (h : Host) : Prop := ∀ n c, h.ok n c

/-- A fixed mapping of anonymous memory or of an open file. -/
structure FixedRequest (h : Host) (flags : BitVec 32) (fd : Int) : Prop where
  fixed : flags &&& mapFixed = mapFixed
  replace : flags &&& mapFixedNoreplace = 0
  file : flags &&& mapAnonymous = mapAnonymous ∨ (0 ≤ fd ∧ (h.kmFsG2hFd fd).isSome)

/-- The range check is exact, and so are the errors of the calls that rest on it, where the host
refuses nothing by itself. -/
structure ChecksExactly (g : Geometry) (s : MmapState) (addr size : Nat) : Prop where
  check : kmMmapBusyCheckContiguous s.busy addr size ↔ PayloadMapped s.busy addr size
  mprotect : s.mem.brk ≤ addr → ∀ h : Host, h.Grants → ∀ prot : BitVec 32,
    prot &&& ~~~(protRead ||| protWrite ||| protExec ||| protGrowsdown ||| protGrowsup) = 0 →
    ((kmGuestMprotect g h s addr size prot).map Prod.snd = some (negErrno enomem) ↔
      ¬ PayloadMapped s.busy addr size)
  madvise : s.mem.brk ≤ addr → ∀ h : Host, h.Grants → ∀ advise : Nat,
    (advise = madvDontneed ∨ advise = madvHugepage ∨ advise = madvWillneed) →
    ((kmGuestMadvise g h s addr size advise).map Prod.snd = some (negErrno enomem) ↔
      ¬ PayloadMapped s.busy addr size)
  msync : s.mem.brk ≤ addr → ∀ h : Host, h.Grants → ∀ flag : BitVec 32,
    ((kmGuestMsync g h s addr size flag).2 = negErrno enomem ↔ ¬ PayloadMapped s.busy addr size)
  fixed : s.mem.brk ≤ addr → ∀ h : Host, h.Grants → ∀ (prot flags : BitVec 32) (fd offset : Int),
    FixedRequest h flags fd → offset % (kmPageSize : Int) = 0 →
    ((kmGuestMmap g h s addr size prot flags fd offset).map Prod.snd = some (negErrno einval) ↔
      ¬ PayloadMapped s.busy addr size)

section

variable {g : Geometry} {h : Host} {s : MmapState} {addr size : Nat}
variable {prot flags : BitVec 32} {fd : Int}
variable {offset : Int}

/-- Below 2^64 the check is exact. -/
theorem Settled.check_iff (hs : Settled g s) (hwrap : addr + size < 2 ^ 64) (hpos : 0 < size) :
    kmMmapBusyCheckContiguous s.busy addr size ↔ PayloadMapped s.busy addr size := by
  have hwhole := hs.sound.whole
  have hl : ∀ r ∈ s.busy, r.stop < 2 ^ 64 := fun r hr => (hwhole.busy_ok r hr).no_wrap
  have htop := guestMemTopVa_lt
  constructor
  · intro hcheck a hlo hhi
    -- the region of the roof is above the payload
    rcases hs.below_roof with ⟨roof, hlt, ⟨m, hm, hmlo, hmhi⟩, hbelow⟩
    have hown : m.ofMonitor := by
      by_contra hno
      have := hbelow m hm (Bool.not_eq_true _ ▸ hno)
      omega
    have habove : ∀ r ∈ s.busy, r.ofMonitor = false → r.stop ≤ m.start ∧ r.stop < m.stop := by
      intro r hr hpay
      have hle := hbelow r hr hpay
      have hne : r ≠ m := by
        rintro rfl
        rw [hown] at hpay
        cases hpay
      rcases hwhole.busy_sorted.apart hr hm hne with hord | hord
      · omega
      have := r.start_le_stop
      omega
    rcases hwhole.check_mapped hwrap hcheck ⟨m, hm, hown, habove⟩ hlo hhi with ⟨r, hr, hra, har⟩
    have hlabel := labelAt_of_mem hwhole.busy_sorted hr hra har
    exact ⟨r, hr, hra, har, hwhole.check_payload hwrap hcheck hlo hhi hlabel⟩
  intro hmapped
  have hle := hmapped.lt_top hwhole hpos
  rcases hs.roof with ⟨roof, hlt, hroof⟩
  have hpayload : ∀ a, addr ≤ a → a < addr + size → monitorAt s.busy a = false := by
    intro a hlo hhi
    rcases hmapped a hlo hhi with ⟨r, hr, hra, har, hpay⟩
    rw [monitorAt, labelAt_of_mem hwhole.busy_sorted hr hra har]
    exact hpay
  have haddr : addr < roof := by
    by_contra hge
    have := (hroof addr (by omega)).2 (by omega)
    rw [hpayload addr le_rfl (by omega)] at this
    cases this
  refine checkContiguousFrom_complete hwrap hpos hwhole.busy_sorted hl ?_ (.inl rfl) ?_ ?_
  · -- a region of the monitor that starts before the end of the range would be in it or below it
    intro r hr hmon hstart
    by_contra hstop
    have hok := hwhole.busy_ok r hr
    cases hpart : r.kmFlags.partOfMonitor with
    | true =>
      have := hok.monitor hpart
      omega
    | false =>
      have hz := hok.payload hpart
      have hnonempty := hz.nonempty
      have hmem : r.start < r.stop := by
        simp only [Reg.stop]
        omega
      have hlabel := labelAt_of_mem hwhole.busy_sorted hr le_rfl hmem
      have hat : monitorAt s.busy r.start := by
        rw [monitorAt, hlabel]
        exact hmon
      have hge := (hroof r.start (by omega)).1 hat
      rw [hpayload r.start (by omega) hstart] at hat
      cases hat
  · intro a hlo _ hhi
    rcases hmapped a hlo hhi with ⟨r, hr, hra, har, -⟩
    exact ⟨r, hr, hra, har⟩
  intro r hr hstart
  exact ((hwhole.busy_ok r hr).zone_of_lt le_rfl (by omega)).2.nonempty

/-- No range that reaches 2^64 is mapped. -/
theorem not_payloadMapped_of_wrap (hs : Whole g s s.busy) (hpos : 0 < size)
    (hwrap : 2 ^ 64 ≤ addr + size) : ¬ PayloadMapped s.busy addr size := by
  intro hm
  have h1 := hm.lt_top hs hpos
  have h2 := guestMemTopVa_lt
  omega

/-! ### The calls that rest on the check -/

/-- A range that wraps and ends below `brk` is not checked, but then the kernel refuses it. -/
theorem kmGuestMprotect_checked (hh : h.Grants) (hs : Sound g s s.busy)
    (haddr : addr % kmPageSize = 0) (hsize : size % kmPageSize = 0) (hlt : size < 2 ^ 64)
    (hpos : 0 < size) (hbrk : s.mem.brk ≤ addr)
    (hwrap : 2 ^ 64 ≤ addr + size → ¬ kmMmapBusyCheckContiguous s.busy addr size)
    (hprot : prot &&& ~~~(protRead ||| protWrite ||| protExec ||| protGrowsdown ||| protGrowsup) = 0) :
    (kmGuestMprotect g h s addr size prot).map Prod.snd =
      some (if kmMmapBusyCheckContiguous s.busy addr size then 0 else negErrno enomem) := by
  have hround := roundup_of_page hlt hsize
  rw [kmGuestMprotect, if_neg (not_not.2 hprot), hround, rounddown_of_page haddr, if_neg (by omega),
    kmGuestMprotectNolock]
  split
  · rename_i hlow
    have hge : 2 ^ 64 ≤ addr + size := by
      by_contra hno
      simp only [u64, Nat.mod_eq_of_lt (Nat.not_le.1 hno)] at hlow
      omega
    dsimp only
    rw [if_pos hge, if_neg (hwrap hge), map_some]
  cases hcheck : kmMmapBusyCheckContiguous s.busy addr size with
  | false => rfl
  | true =>
    rcases rangeApply_total h prot false .mprotect haddr hsize hs with ⟨s', rc, hr, -, hrc⟩
    rcases hrc with rfl | ⟨-, n, hno⟩
    · simp [hr]
    rw [hh n] at hno
    cases hno

theorem kmGuestMadvise_checked {advise : Nat} (hh : h.Grants) (haddr : addr % kmPageSize = 0)
    (hsize : size % kmPageSize = 0) (hlt : size < 2 ^ 64) (hpos : 0 < size)
    (hfit : kmMmapBusyCheckContiguous s.busy addr size → size ≤ maxRange)
    (hadvise : advise = madvDontneed ∨ advise = madvHugepage ∨ advise = madvWillneed) :
    (kmGuestMadvise g h s addr size advise).map Prod.snd =
      some (if kmMmapBusyCheckContiguous s.busy addr size then 0 else negErrno enomem) := by
  have hround := roundup_of_page hlt hsize
  rw [kmGuestMadvise, if_neg (by tauto), hround, rounddown_of_page haddr, if_neg (by omega),
    kmGuestMadviseNolock, kmAssert_pos hadvise]
  cases hcheck : kmMmapBusyCheckContiguous s.busy addr size with
  | false => rfl
  | true => simp [Host.answer, wellFormedCall, hh _ _, hfit hcheck]

theorem kmGuestMsync_checked {flag : BitVec 32} (hh : h.Grants) (haddr : addr % kmPageSize = 0)
    (hfit : kmMmapBusyCheckContiguous s.busy addr size → size ≤ maxRange) :
    (kmGuestMsync g h s addr size flag).2 =
      if kmMmapBusyCheckContiguous s.busy addr size then 0 else negErrno enomem := by
  rw [kmGuestMsync, rounddown_of_page haddr, if_neg (by simp), kmGuestMsyncNolock]
  cases hcheck : kmMmapBusyCheckContiguous s.busy addr size with
  | false => rfl
  | true => simp [Host.answer, wellFormedCall, hh _ _, hfit hcheck]

/-- A fixed request passes the checks of its parameters. -/
theorem FixedRequest.nolock (g : Geometry) (s : MmapState) (prot : BitVec 32) (offset : Int)
    (size : Nat) (hf : FixedRequest h flags fd) (haddr : addr ≠ 0) :
    kmGuestMmap g h s addr size prot flags fd offset =
      if ¬ kmMmapBusyCheckContiguous s.busy addr (roundup size kmPageSize) then
        some (s, negErrno einval)
      else mapIntoBusy g h s addr (roundup size kmPageSize) prot flags (requestFd flags fd)
        (h.hostfd (requestFd flags fd)) offset := by
  have hfixed := hf.fixed
  have hcheck : mmapCheckParams addr flags fd = 0 := by
    have hne : ¬ (flags &&& mapFixed ≠ 0 ∧ addr = 0) := fun hc => haddr hc.2
    have hfile : ¬ (flags &&& mapAnonymous = 0 ∧ fd < 0) := by
      rintro ⟨h0, hneg⟩
      rcases hf.file with ha | ⟨hpos, -⟩
      · rw [h0] at ha
        exact absurd ha (by decide)
      · omega
    rw [mmapCheckParams, if_neg (not_not.2 hf.replace), if_neg hne, if_neg hfile]
  have hfd : (if 0 ≤ requestFd flags fd then h.kmFsG2hFd (requestFd flags fd) else some 0) =
      some ((h.kmFsG2hFd (requestFd flags fd)).getD 0) ∨ ¬ 0 ≤ requestFd flags fd := by
    by_cases hanon : flags &&& mapAnonymous = mapAnonymous
    · right
      rw [requestFd, if_pos hanon]
      decide
    left
    rcases hf.file with ha | ⟨hpos, hsome⟩
    · exact absurd ha hanon
    rcases isSome_iff_exists.1 hsome with ⟨n, hn⟩
    rw [requestFd, if_neg hanon, if_pos hpos, hn, getD_some]
  simp only [kmGuestMmap, kmGuestMmapImpl, hcheck, kmGuestMmapNolock, hfixed, if_true, ne_eq,
    not_true_eq_false, if_false, requestFd_eq, Host.hostfd]
  rcases hfd with hfd | hneg
  · rw [hfd]
    rfl
  simp only [hneg, if_false]
  rfl

/-- A range that is mapped is not refused. -/
theorem mapIntoBusy_not_einval {hostfd : Int} (hh : h.Grants) (hs : Sound g s s.busy)
    (haddr : addr % kmPageSize = 0) (hsize : size % kmPageSize = 0) (hpos : 0 < size)
    (hoffset : offset % (kmPageSize : Int) = 0) (htop : addr ≤ guestMemTopVa) :
    (mapIntoBusy g h s addr size prot flags fd hostfd offset).map Prod.snd ≠
      some (negErrno einval) := by
  have hgva : addr ≠ negErrno einval := by
    have : guestMemTopVa < negErrno einval := by decide
    omega
  intro hr
  rcases map_eq_some_iff.1 hr with ⟨⟨s', ret⟩, hr, hret⟩
  cases mapIntoBusy_end hr with
  | @refused kma hkma hno =>
    have hkpage := (kmGvaToKma_page hkma).2 haddr
    simp [Host.answer, mapCall, wellFormedCall, hh _ _, hkpage, hoffset,
      Nat.pos_iff_ne_zero.1 hpos] at hno
  | stuck hkma hok _ hpass hrc =>
    exact absurd (pass_ends (fun n => hh n _) hs haddr hsize hpass) hrc
  | done => exact hgva hret

theorem kmGuestMmap_checked (hh : h.Grants) (hs : Sound g s s.busy) (hf : FixedRequest h flags fd)
    (hoffset : offset % (kmPageSize : Int) = 0) (haddr : addr % kmPageSize = 0)
    (hsize : size % kmPageSize = 0) (hlt : size < 2 ^ 64) (hpos : 0 < size) (hne : addr ≠ 0)
    (htop : kmMmapBusyCheckContiguous s.busy addr size → addr ≤ guestMemTopVa) :
    (kmGuestMmap g h s addr size prot flags fd offset).map Prod.snd = some (negErrno einval) ↔
      ¬ kmMmapBusyCheckContiguous s.busy addr size := by
  rw [hf.nolock g s prot offset size hne, roundup_of_page hlt hsize]
  by_cases hcheck : kmMmapBusyCheckContiguous s.busy addr size
  · rw [if_neg (not_not.2 hcheck)]
    constructor
    · intro hr
      exact absurd hr (mapIntoBusy_not_einval hh hs haddr hsize hpos hoffset (htop hcheck))
    · exact fun hno => absurd hcheck hno
  rw [if_pos hcheck]
  exact ⟨fun _ => hcheck, fun _ => rfl⟩

/-! ### All ranges -/

/-- The ranges for which the 64-bit sum does no harm: those that end below 2^64, and those whose
end, modulo 2^64, is not 0 and lies below every region at or above the range that is not the
monitor's. -/
def RangeOk (s : MmapState) (addr size : Nat) : Prop :=
  addr + size < 2 ^ 64 ∨ ∀ r ∈ s.busy, addr ≤ r.stop →
    2 ^ 64 < addr + size ∧ (addr + size ≤ 2 ^ 64 + r.start ∨ r.ofMonitor)

/-- All that the calls need of the check. -/
theorem Settled.checksExactly (hs : Settled g s) (haddr : addr % kmPageSize = 0)
    (hsize : size % kmPageSize = 0) (hlt : size < 2 ^ 64) (hpos : 0 < size)
    (hcheck : kmMmapBusyCheckContiguous s.busy addr size ↔ PayloadMapped s.busy addr size) :
    ChecksExactly g s addr size := by
  have hwrap : 2 ^ 64 ≤ addr + size → ¬ kmMmapBusyCheckContiguous s.busy addr size :=
    fun hge hc => not_payloadMapped_of_wrap hs.sound.whole hpos hge (hcheck.1 hc)
  have hfit : kmMmapBusyCheckContiguous s.busy addr size → size ≤ maxRange := by
    intro hc
    have htop := (hcheck.1 hc).lt_top hs.sound.whole hpos
    have hmax : guestMemTopVa ≤ maxRange := by decide
    omega
  have hno : (if kmMmapBusyCheckContiguous s.busy addr size then 0 else negErrno enomem) =
      negErrno enomem ↔ ¬ PayloadMapped s.busy addr size := by
    rw [← hcheck]
    by_cases hc : kmMmapBusyCheckContiguous s.busy addr size
    · rw [if_pos hc]
      exact ⟨fun h0 => absurd h0 (by decide), fun hno => absurd hc hno⟩
    rw [if_neg hc]
    exact ⟨fun _ => hc, fun _ => rfl⟩
  have hsome : some (if kmMmapBusyCheckContiguous s.busy addr size then 0
      else negErrno enomem) = some (negErrno enomem) ↔ ¬ PayloadMapped s.busy addr size :=
    (some_inj).trans hno
  refine ⟨hcheck, ?_, ?_, ?_, ?_⟩
  · intro hle h hh prot hprot
    rw [kmGuestMprotect_checked hh hs.sound haddr hsize hlt hpos hle hwrap hprot]
    exact hsome
  · intro _ h hh advise hadvise
    rw [kmGuestMadvise_checked hh haddr hsize hlt hpos hfit hadvise]
    exact hsome
  · intro _ h hh flag
    rw [kmGuestMsync_checked hh haddr hfit]
    exact hno
  intro hle h hh prot flags fd offset hf hoffset
  have hstart : 0 < guestMemStartVa := by decide
  have hlo := hs.sound.mem.brk_lo
  rw [kmGuestMmap_checked hh hs.sound hf hoffset haddr hsize hlt hpos (by omega), hcheck]
  intro hc
  have := (hcheck.1 hc).lt_top hs.sound.whole hpos
  omega

/-- In every run of requests that are served, the check of a range and the errors of the calls that
rest on it are exact if and only if the 64-bit sum does no harm to the range. -/
theorem range_check_exact_iff (g : Geometry) {s : MmapState} (hs : Reach (servedSystem g) s)
    (addr size : Nat) (haddr : addr % kmPageSize = 0) (hlt : addr < 2 ^ 64)
    (hsize : size % kmPageSize = 0) (hpos : 0 < size) (hsizelt : size < 2 ^ 64) :
    ChecksExactly g s addr size ↔ RangeOk s addr size := by
  have hset := servedSystem_settled hs
  have hwhole := hset.sound.whole
  have hl : ∀ r ∈ s.busy, r.stop < 2 ^ 64 := fun r hr => (hwhole.busy_ok r hr).no_wrap
  rcases lt_or_ge (addr + size) (2 ^ 64) with hwrap | hwrap
  · -- no sum wraps
    refine ⟨fun _ => .inl hwrap, fun _ => ?_⟩
    exact hset.checksExactly haddr hsize hsizelt hpos (hset.check_iff hwrap hpos)
  have hend : u64 (addr + size) = addr + size - 2 ^ 64 := by
    simp only [u64]
    omega
  have hnot := not_payloadMapped_of_wrap hwhole hpos hwrap
  have hlow : u64 (addr + size) < addr := by omega
  have hwrapped := checkContiguousFrom_wrap hwhole.busy_sorted hl hlow
  rw [hend] at hwrapped
  constructor
  · intro hexact
    refine .inr fun r hr hle => ?_
    have hno : ¬ kmMmapBusyCheckContiguous s.busy addr size := fun hc => hnot (hexact.check.1 hc)
    rw [kmMmapBusyCheckContiguous, hwrapped] at hno
    by_contra hbad
    refine hno ⟨r, hr, hle, ?_⟩
    rcases lt_or_ge (2 ^ 64) (addr + size) with hgt | heq
    · rw [not_and, not_or] at hbad
      obtain ⟨h1, h2⟩ := hbad hgt
      exact .inr ⟨by omega, Bool.not_eq_true _ ▸ h2⟩
    · exact .inl (by omega)
  rintro (hlow | hbelow)
  · omega
  refine hset.checksExactly haddr hsize hsizelt hpos ⟨fun hc => ?_, ?_⟩
  · rw [kmMmapBusyCheckContiguous, hwrapped] at hc
    clear hwrapped
    rcases hc with ⟨r, hr, hle, hcase⟩
    obtain ⟨hgt, hcase'⟩ := hbelow r hr hle
    rcases hcase with hzero | ⟨hstart, hpay⟩
    · omega
    rcases hcase' with hcase' | hmon
    · omega
    rw [hmon] at hpay
    cases hpay
  · exact fun hm => absurd hm hnot

end

/-- The range that starts behind a mapping, wraps and ends in it is accepted, and `mprotect` of it
succeeds. -/
theorem wrapping_range_accepted : Reach (servedSystem geo512) twoPages ∧
      kmMmapBusyCheckContiguous twoPages.busy 0x7fffdfe000 (2 ^ 64 - 0x1000) ∧
      ¬ PayloadMapped twoPages.busy 0x7fffdfe000 (2 ^ 64 - 0x1000) ∧
      (kmGuestMprotect geo512 kindHost twoPages 0x7fffdfe000 (2 ^ 64 - 0x1000)
        protNone).map Prod.snd = some 0 := by
  have hwhole := (servedSystem_settled twoPages_reach).sound.whole
  exact ⟨twoPages_reach, by decide +kernel,
    not_payloadMapped_of_wrap hwhole (by decide) (by decide), by decide +kernel⟩

/-- The range of a mapping. -/
theorem range_check_exact_iff_two :
    RangeOk twoPages 0x7fffdfc000 0x2000 ∧ ChecksExactly geo512 twoPages 0x7fffdfc000 0x2000 := by
  have hrange : RangeOk twoPages 0x7fffdfc000 0x2000 := .inl (by decide)
  exact ⟨hrange, (range_check_exact_iff geo512 twoPages_reach 0x7fffdfc000 0x2000 (by decide)
    (by decide) (by decide) (by decide) (by decide)).2 hrange⟩

end KontainMonitor.Mmap
