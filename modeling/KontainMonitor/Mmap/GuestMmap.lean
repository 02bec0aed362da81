import KontainMonitor.Mmap.Requests

/-!
# GuestMmap — what `km_guest_mmap` promises

A fixed request puts its mapping over busy regions, which are glued into one region first; any other
request takes pages that were not busy.  Both are described by what happens to the label of each page
(`Relabelled`, `NewMapping`), and so is what a request that fails leaves behind.
-/

namespace KontainMonitor.Mmap

open Intervals Mem Option Transition

/-! ## Fixed mappings -/

structure FixedAccepted (g : Geometry) (h : Host) (s : MmapState) (gva size : Nat)
    (prot flags : BitVec 32) (fd offset : Int) : Prop where
  request : FixedRequest h flags fd
  no_wrap : gva + roundup size kmPageSize < 2 ^ 64
  check : kmMmapBusyCheckContiguous s.busy gva (roundup size kmPageSize)
  host : ∃ kma, kmGvaToKma g s.mem gva = some kma ∧
    h.answer s.mem (mapCall kma (roundup size kmPageSize) prot flags
      (h.hostfd (requestFd flags fd)) offset)

/-- The pass over the busy regions comes to its end, with exactly one region over the range. -/
def OneRegion (g : Geometry) (h : Host) (s : MmapState) (gva size : Nat) (prot flags : BitVec 32)
    (hostfd offset : Int) : Prop :=
  ∃ kma s1, kmGvaToKma g s.mem gva = some kma ∧
    kmMmapBusyRangeApply g h (s.call (mapCall kma size prot flags hostfd offset))
      (rangeReg gva size prot (hostfd < 0)) .regionCleanConcat = some (s1, 0) ∧
    ∃! r, r ∈ s1.busy ∧ r.start = gva ∧ r.size = size

section

variable {g : Geometry} {h : Host} {s s' : MmapState} {gva size : Nat} {prot flags : BitVec 32}
  {fd offset : Int}

theorem FixedRequest.anonymous (hf : FixedRequest h flags fd) :
    decide (h.hostfd (requestFd flags fd) < 0) = decide (flags &&& mapAnonymous = mapAnonymous) := by
  rw [decide_eq_decide, Host.hostfd, requestFd]
  by_cases hanon : flags &&& mapAnonymous = mapAnonymous
  · simp [hanon]
  have hpos : 0 ≤ fd := (hf.file.resolve_left hanon).1
  rw [if_neg hanon, if_pos hpos]
  constructor
  · intro hneg
    omega
  · exact fun ha => absurd ha hanon

/-- The regions of a list without overlaps are told apart by their extents. -/
theorem Holed.region_unique {l : List Reg} {r q : Reg} (hs : Whole g s l) (hr : r ∈ l) (hq : q ∈ l)
    (hpos : 0 < r.size) (hstart : q.start = r.start) (hsize : q.size = r.size) : q = r := by
  by_contra hne
  have hstop : q.stop = r.stop := by rw [Reg.stop, Reg.stop, hstart, hsize]
  have hlt : r.start < r.stop := by
    simp only [Reg.stop]
    omega
  rcases hs.busy_sorted.apart hq hr hne with hle | hle <;> omega

/-- In every run in which the calls that map into busy regions get their memory, an accepted fixed
request finds its range glued into one region, and returns its address, if and only if the regions
of the range agree on whether they are clean. -/
theorem fixed_mmap_glued_iff (g : Geometry) {s : MmapState} (hs : Reach (gluedSystem g) s) (h : Host)
    (hmem : ∀ n, h.ok n .calloc) (gva size : Nat) (prot flags : BitVec 32) (fd offset : Int)
    (hreq : FixedAccepted g h s gva size prot flags fd offset) :
    (OneRegion g h s gva (roundup size kmPageSize) prot flags (h.hostfd (requestFd flags fd)) offset ∧
      ∃ s', kmGuestMmap g h s gva size prot flags fd offset = some (s', gva)) ↔
    UniformClean s.busy gva (roundup size kmPageSize) prot
      (flags &&& mapAnonymous = mapAnonymous) := by
  obtain ⟨hset, hrealAt⟩ := gluedSystem_real hs
  have hreal := hset.sound.whole.real hrealAt
  obtain ⟨hf, hwrap, hcheck, kma, hkma, hok⟩ := hreq
  -- what the host has checked
  have hform : kma % kmPageSize = 0 ∧ roundup size kmPageSize ≠ 0 := by
    simp only [mapCall, Host.answer, wellFormedCall, Bool.and_eq_true, decide_eq_true_eq] at hok
    exact ⟨hok.1.1, hok.1.2.1⟩
  have hpos : 0 < roundup size kmPageSize := pos_of_ne_zero hform.2
  have hgva : gva % kmPageSize = 0 := (kmGvaToKma_page hkma).1 hform.1
  have hmapped := (hset.check_iff hwrap hpos).1 hcheck
  have hne : gva ≠ 0 := by
    rintro rfl
    rcases hmapped 0 le_rfl (by omega) with ⟨r, hr, hlo, hhi, -⟩
    have htbrk := hset.sound.whole.tbrk_le_of_mapped ⟨r, hr, hlo, hhi⟩
    have hbreaks := hset.sound.whole.breaks.tbrk_lo
    omega
  have hcall := hset.sound.call (mapCall kma (roundup size kmPageSize) prot flags
    (h.hostfd (requestFd flags fd)) offset)
  rcases rangeApply_total h prot (decide (h.hostfd (requestFd flags fd) < 0))
    .regionCleanConcat hgva (roundup_page size) hcall with ⟨s1, rc, hpass, hs1, -⟩
  have hrc : rc = 0 := pass_ends hmem hset.sound hgva (roundup_page size) hpass
  subst hrc
  have hiff := busyRangeApply_one_region_iff hgva (roundup_page size) hwrap hpos hcall.whole hreal
    hmapped hpass
  have hiff' : (∃ r ∈ s1.busy, r.start = gva ∧ r.size = roundup size kmPageSize) ↔
      UniformClean s.busy gva (roundup size kmPageSize) prot
        (flags &&& mapAnonymous = mapAnonymous) := by
    rw [← hf.anonymous]
    exact hiff
  rw [hf.nolock g s prot offset size hne, if_neg (not_not.2 hcheck), ← hiff']
  constructor
  · rintro ⟨⟨kma', s2, hkma', hpass', r, ⟨hr, hstart, hsize⟩, -⟩, -⟩
    rw [hkma, Option.some.injEq] at hkma'
    subst hkma'
    rw [hpass, some_mk_inj] at hpass'
    obtain ⟨rfl, -⟩ := hpass'
    exact ⟨r, hr, hstart, hsize⟩
  rintro ⟨r, hr, hstart, hsize⟩
  have huniform := hiff.1 ⟨r, hr, hstart, hsize⟩
  have hdone : ∃ s' clean, mapIntoBusy g h s gva (roundup size kmPageSize) prot flags
      (requestFd flags fd) (h.hostfd (requestFd flags fd)) offset = some (s', gva) ∧
      Relabelled s s' gva (roundup size kmPageSize)
        (mapLabel h prot flags (requestFd flags fd) clean) :=
    (mapIntoBusy_passed hset.sound hkma hok hgva (roundup_page size) hwrap hpos hreal hmapped
      hpass).1 huniform
  rcases hdone with ⟨s', clean, hdone, -⟩
  refine ⟨⟨kma, s1, hkma, hpass, r, ⟨hr, hstart, hsize⟩, ?_⟩, s', hdone⟩
  rintro q ⟨hq, hqstart, hqsize⟩
  exact hs1.whole.region_unique hr hq (by omega) (by omega) (by omega)

end

def mapTwoNone : MmapOp := .mmap 0 0x2000 protNone (mapPrivate ||| mapAnonymous) (-1) 0

def openLowerPage : MmapOp := .mprotect 0x7fffdfc000 0x1000 (protRead ||| protWrite)

def twoNone : MmapState := evaluate (mapTwoNone.call geo512 kindHost booted)

def halfOpen : MmapState := evaluate (openLowerPage.call geo512 kindHost twoNone)

theorem twoNone_reach : Reach (gluedSystem geo512) twoNone := by
  have hsized : WellSized geo512 booted (roundup 0x2000 kmPageSize) :=
    ⟨⟨by decide, .inr ⟨by decide +kernel, by decide +kernel⟩⟩, .inr (by decide +kernel)⟩
  exact .step (a := (kindHost, mapTwoNone)) (.init booted_init)
    ⟨⟨⟨trivial, eq_eval⟩, fun _ => hsized⟩, fun _ _ => rfl⟩

theorem halfOpen_reach : Reach (gluedSystem geo512) halfOpen :=
  Reach.step (a := (kindHost, openLowerPage)) twoNone_reach
    ⟨⟨⟨trivial, eq_eval⟩, trivial⟩, fun _ _ => rfl⟩

/-- One page is clean and the other is not: the monitor aborts on a fixed request over both. -/
theorem halfOpen_fixed_aborts : Reach (gluedSystem geo512) halfOpen ∧
      FixedAccepted geo512 kindHost halfOpen 0x7fffdfc000 0x2000 protNone
        (mapPrivate ||| mapAnonymous ||| mapFixed) (-1) 0 ∧
      kmGuestMmap geo512 kindHost halfOpen 0x7fffdfc000 0x2000 protNone
        (mapPrivate ||| mapAnonymous ||| mapFixed) (-1) 0 = none := by
  refine ⟨halfOpen_reach, ⟨⟨by decide, by decide, .inl (by decide)⟩, by decide, by decide +kernel,
    evaluate (kmGvaToKma geo512 halfOpen.mem 0x7fffdfc000),
    eq_eval, by decide +kernel⟩, by decide +kernel⟩

/-- A request that opens both pages makes the other one clean too, and glues the two regions. -/
theorem fixed_mmap_glued_iff_two :
    (halfOpen.busy.filter fun r => 0x7fffdfc000 ≤ r.start ∧ r.stop ≤ 0x7fffdfe000).length = 2 ∧
    ∃ s', kmGuestMmap geo512 kindHost halfOpen 0x7fffdfc000 0x2000 (protRead ||| protWrite)
      (mapPrivate ||| mapAnonymous ||| mapFixed) (-1) 0 = some (s', 0x7fffdfc000) := by
  have hreq : FixedAccepted geo512 kindHost halfOpen 0x7fffdfc000 0x2000 (protRead ||| protWrite)
      (mapPrivate ||| mapAnonymous ||| mapFixed) (-1) 0 :=
    ⟨⟨by decide, by decide, .inl (by decide)⟩, by decide, by decide +kernel,
      evaluate (kmGvaToKma geo512 halfOpen.mem 0x7fffdfc000),
      eq_eval, by decide +kernel⟩
  refine ⟨by decide +kernel, ?_⟩
  refine ((fixed_mmap_glued_iff geo512 halfOpen_reach kindHost (fun _ => rfl) 0x7fffdfc000
    0x2000 (protRead ||| protWrite) (mapPrivate ||| mapAnonymous ||| mapFixed) (-1) 0 hreq).2 ?_).2
  have huniform : ∀ r ∈ halfOpen.busy, ∀ q ∈ halfOpen.busy,
      r.start < 0x7fffdfc000 + 0x2000 → 0x7fffdfc000 < r.stop →
      q.start < 0x7fffdfc000 + 0x2000 → 0x7fffdfc000 < q.stop →
      r.label.cleanAfter (protRead ||| protWrite) true =
        q.label.cleanAfter (protRead ||| protWrite) true := by
    decide +kernel
  exact huniform

/-! ## New mappings -/

section

variable {g : Geometry} {h : Host} {s s' : MmapState} {gva size ret : Nat} {prot flags : BitVec 32}
  {fd hostfd offset : Int} {x : Label}

def mapRequest (g : Geometry) (h : Host) (s : MmapState) (gva size : Nat) (prot flags : BitVec 32)
    (fd offset : Int) : Option (MmapState × Nat) :=
  if flags &&& mapFixed = mapFixed then
    mapIntoBusy g h s gva size prot flags (requestFd flags fd) (h.hostfd (requestFd flags fd)) offset
  else
    (kmMmapAddRegion g h s size prot flags (h.hostfd (requestFd flags fd)) .guest).bind fun r =>
      if isErrno r.2 ∨ requestFd flags fd < 0 then some r
      else mapIntoBusy g h r.1 r.2 size prot flags (requestFd flags fd)
        (h.hostfd (requestFd flags fd)) offset

/-- A request fails early, or maps into busy regions or into memory that it takes. -/
theorem kmGuestMmapNolock_cases (g : Geometry) (h : Host) (s : MmapState) (gva size : Nat)
    (prot flags : BitVec 32) (fd offset : Int) : (∃ e, isErrno e ∧
      kmGuestMmapNolock g h s gva size prot flags fd offset .guest = some (s, e)) ∨
    ((flags &&& mapFixed = mapFixed → kmMmapBusyCheckContiguous s.busy gva size) ∧
      kmGuestMmapNolock g h s gva size prot flags fd offset .guest =
        mapRequest g h s gva size prot flags fd offset) := by
  simp only [kmGuestMmapNolock, requestFd_eq, mapRequest]
  by_cases hbad : 0 ≤ requestFd flags fd ∧ h.kmFsG2hFd (requestFd flags fd) = none
  · refine .inl ⟨negErrno ebadf, by decide, ?_⟩
    simp [hbad.1, hbad.2]
  -- the fd of the host
  have hfd : (if 0 ≤ requestFd flags fd then h.kmFsG2hFd (requestFd flags fd) else some 0) =
      some (if 0 ≤ requestFd flags fd then (h.kmFsG2hFd (requestFd flags fd)).getD 0 else 0) := by
    by_cases hpos : 0 ≤ requestFd flags fd
    · rcases ne_none_iff_exists'.1 fun hnone => hbad ⟨hpos, hnone⟩ with ⟨n, hn⟩
      rw [if_pos hpos, if_pos hpos, hn, getD_some]
    · rw [if_neg hpos, if_neg hpos]
  have hhost : (if 0 ≤ requestFd flags fd then
      ((if 0 ≤ requestFd flags fd then (h.kmFsG2hFd (requestFd flags fd)).getD 0 else 0 : Nat) : Int)
      else -1) = h.hostfd (requestFd flags fd) := by
    by_cases hpos : 0 ≤ requestFd flags fd
    · rw [if_pos hpos, if_pos hpos, Host.hostfd, if_pos hpos]
    · rw [if_neg hpos, Host.hostfd, if_neg hpos]
  rw [hfd]
  simp only [hhost]
  by_cases hfixed : flags &&& mapFixed = mapFixed
  · by_cases hbusy : kmMmapBusyCheckContiguous s.busy gva size
    · refine .inr ⟨fun _ => hbusy, ?_⟩
      rw [if_pos hfixed, if_neg (not_not.2 hbusy), if_pos hfixed]
      rfl
    refine .inl ⟨negErrno einval, by decide, ?_⟩
    rw [if_pos hfixed, if_pos hbusy]
  refine .inr ⟨fun hno => absurd hno hfixed, ?_⟩
  rw [if_neg hfixed, if_neg hfixed]
  rfl

theorem kmGuestMmap_cases (g : Geometry) (h : Host) (s : MmapState) (addr size : Nat)
    (prot flags : BitVec 32) (fd offset : Int) :
    (∃ e, isErrno e ∧ kmGuestMmap g h s addr size prot flags fd offset = some (s, e)) ∨
    ((flags &&& mapFixed = mapFixed →
        kmMmapBusyCheckContiguous s.busy addr (roundup size kmPageSize)) ∧
      kmGuestMmap g h s addr size prot flags fd offset =
        mapRequest g h s addr (roundup size kmPageSize) prot flags fd offset) := by
  rw [kmGuestMmap, kmGuestMmapImpl]
  rcases mmapCheckParams_errno addr flags fd with hcheck | herr
  · simp only [hcheck, ne_eq, not_true_eq_false, if_false]
    exact kmGuestMmapNolock_cases g h s addr (roundup size kmPageSize) prot flags fd offset
  refine .inl ⟨_, herr, ?_⟩
  rw [if_pos]
  intro hzero
  rw [hzero] at herr
  exact absurd herr (by decide)

theorem NewMapping.payloadMapped (hn : NewMapping s s' gva size x) (hx : x.ofMonitor = false) :
    PayloadMapped s'.busy gva size := by
  intro a hlo hhi
  have hlabel := hn.labels a
  rw [if_pos ⟨hlo, hhi⟩] at hlabel
  rcases labelAt_mem hlabel with ⟨r, hr, hra, har, rfl⟩
  exact ⟨r, hr, hra, har, hx⟩

/-- The pages of a new mapping have one label, so they are all clean or all not. -/
theorem NewMapping.uniform {anonymous : Bool} (hn : NewMapping s s' gva size x)
    (hpos : 0 < size) (hs' : Whole g s' s'.busy) : UniformClean s'.busy gva size prot anonymous := by
  have hone : ∀ r ∈ s'.busy, r.start < gva + size → gva < r.stop → r.label = x := by
    intro r hr hlo hhi
    have hupper := hn.upper
    have hlt := ((hs'.busy_ok r hr).zone_of_lt le_rfl (by omega)).2.start_lt_stop
    have hself := labelAt_of_mem hs'.busy_sorted hr (le_max_left r.start gva) (by omega)
    rw [hn.labels, if_pos ⟨le_max_right _ _, by omega⟩, Option.some.injEq] at hself
    exact hself.symm
  intro r hr q hq hr1 hr2 hq1 hq2
  rw [hone r hr hr1 hr2, hone q hq hq1 hq2]

/-- How mapping into busy regions of one history ends. -/
theorem mapIntoBusy_outcome (h : Host) (prot flags : BitVec 32) (fd hostfd offset : Int)
    (hs : Sound g s s.busy) (hgva : gva % kmPageSize = 0) (hsize : size % kmPageSize = 0)
    (hwrap : gva + size < 2 ^ 64) (hpos : 0 < size) (hreal : RealAt s.busy)
    (hmapped : PayloadMapped s.busy gva size)
    (huniform : UniformClean s.busy gva size prot (hostfd < 0)) :
    ∃ s' ret, mapIntoBusy g h s gva size prot flags fd hostfd offset = some (s', ret) ∧
      (isErrno ret ∨
        (ret = gva ∧ ∃ clean, Relabelled s s' gva size (mapLabel h prot flags fd clean))) := by
  rcases kmGvaToKma_mapped hs hpos hmapped with ⟨kma, hkma⟩
  cases hok : h.answer s.mem (mapCall kma size prot flags hostfd offset) with
  | false => exact ⟨_, _, mapIntoBusy_refused hkma hok, .inl (h.isErrno_failure _ _)⟩
  | true =>
    have hcall := hs.call (mapCall kma size prot flags hostfd offset)
    rcases rangeApply_total h prot (decide (hostfd < 0)) .regionCleanConcat hgva hsize
      hcall with ⟨s1, rc, hpass, -, hrc⟩
    rcases hrc with rfl | ⟨rfl, -⟩
    · rcases (mapIntoBusy_passed hs hkma hok hgva hsize hwrap hpos (hs.whole.real hreal) hmapped
        hpass).1 huniform with ⟨s', clean, hdone, hlabels⟩
      exact ⟨s', gva, hdone, .inr ⟨rfl, clean, hlabels⟩⟩
    · exact ⟨s1, _, mapIntoBusy_stuck hkma hok (by decide) hpass, .inl (by decide)⟩

/-- What the payload can count on with an address: the range is not empty, in the top zone, and was
not busy; now it has the protection and the sharing asked for. -/
structure Placed (s s' : MmapState) (gva size : Nat) (prot flags : BitVec 32) : Prop where
  nonempty : 0 < size
  lower : s'.mem.tbrk ≤ gva
  upper : gva + size ≤ guestMemTopVa
  hole : ∀ a, gva ≤ a → a < gva + size → ¬ Mapped s.busy a
  busy : ∀ a, gva ≤ a → a < gva + size → ∃ x, labelAt s'.busy a = some x ∧ x.protection = prot ∧
    x.flags &&& (mapPrivate ||| mapShared) = flags &&& (mapPrivate ||| mapShared)

theorem Label.cleaned_protection (y : Label) : y.cleaned.protection = y.protection := by
  simp only [Label.cleaned]
  split <;> rfl

theorem NewMapping.placed (hn : NewMapping s s' gva size (newLabel prot flags .guest))
    (hpos : 0 < size) : Placed s s' gva size prot flags := by
  refine ⟨hpos, hn.lower, hn.upper, fun a hlo hhi => labelAt_eq_none.1 (hn.hole a hlo hhi),
    fun a hlo hhi => ⟨newLabel prot flags .guest, ?_, Label.cleaned_protection _, ?_⟩⟩
  · rw [hn.labels, if_pos ⟨hlo, hhi⟩]
  · rw [newLabel_flags]

theorem sharing_not_fixed (flags : BitVec 32) :
    (flags &&& ~~~mapFixed) &&& (mapPrivate ||| mapShared) =
      flags &&& (mapPrivate ||| mapShared) := by
  have hmask : ~~~mapFixed &&& (mapPrivate ||| mapShared) = mapPrivate ||| mapShared := by decide
  rw [BitVec.and_assoc, hmask]

/-- A file is mapped into the new mapping. -/
theorem Placed.relabelled {s1 : MmapState} {clean : Bool} (hp : Placed s s1 gva size prot flags)
    (htbrk : s'.mem.tbrk = s1.mem.tbrk)
    (hr : Relabelled s1 s' gva size (mapLabel h prot flags fd clean)) :
    Placed s s' gva size prot flags := by
  refine ⟨hp.nonempty, htbrk ▸ hp.lower, hp.upper, hp.hole, fun a hlo hhi =>
    ⟨mapLabel h prot flags fd clean, ?_, rfl, sharing_not_fixed flags⟩⟩
  rw [hr, if_pos ⟨hlo, hhi⟩]

theorem mapIntoBusy_tbrk (hpage : size % kmPageSize = 0) (hs : Sound g s s.busy)
    (hlabels : ∀ a, Mapped s.busy a ↔ Mapped s'.busy a)
    (hr : mapIntoBusy g h s gva size prot flags fd hostfd offset = some (s', ret)) :
    s'.mem.tbrk = s.mem.tbrk :=
  (hs.whole.determined (mapIntoBusy_inv hs.whole hpage hr) hlabels).1

/-- In every run in which the calls that map into busy regions get their memory, a request for
memory anywhere that is served returns an errno or a new mapping. -/
theorem mmap_anywhere_placed (g : Geometry) {s : MmapState} (hs : Reach (gluedSystem g) s) (h : Host)
    (addr size : Nat) (prot flags : BitVec 32) (fd offset : Int)
    (hfixed : flags &&& mapFixed ≠ mapFixed) (hsized : WellSized g s (roundup size kmPageSize)) :
    ∃ s' ret, kmGuestMmap g h s addr size prot flags fd offset = some (s', ret) ∧
      (isErrno ret ∨ Placed s s' ret (roundup size kmPageSize) prot flags) := by
  obtain ⟨hset, hreal⟩ := gluedSystem_real hs
  rcases kmGuestMmap_cases g h s addr size prot flags fd offset with ⟨e, herr, heq⟩ | ⟨-, heq⟩
  · exact ⟨s, e, heq, .inl herr⟩
  rw [heq, mapRequest, if_neg hfixed]
  rcases kmMmapAddRegion_guest h prot flags (h.hostfd (requestFd flags fd)) hset.sound hsized
    (roundup_page size) with ⟨s1, gva, hadd, hs1, hres⟩
  rw [hadd, bind_some]
  rcases hres with ⟨herr, -⟩ | hnew
  · exact ⟨s1, gva, if_pos (.inl herr), .inl herr⟩
  have hplaced := hnew.placed hsized.pos
  by_cases hfile : isErrno gva ∨ requestFd flags fd < 0
  · exact ⟨s1, gva, if_pos hfile, .inr hplaced⟩
  rw [if_neg hfile]
  -- the file goes into pages that all have the label of the new mapping
  have hreal1 : RealAt s1.busy := by
    refine Relabelled.real hnew.labels hreal ?_
    rw [newLabel_flags]
    exact hfixed
  have hwrap : gva + roundup size kmPageSize < 2 ^ 64 := by
    have h1 := hnew.upper
    have h2 := guestMemTopVa_lt
    omega
  rcases mapIntoBusy_outcome h prot flags (requestFd flags fd) (h.hostfd (requestFd flags fd))
    offset hs1 hnew.page (roundup_page size) hwrap hsized.pos hreal1
    (hnew.payloadMapped (newLabel_ofMonitor prot flags)) (hnew.uniform hsized.pos hs1.whole) with
    ⟨s', ret, hr, hend⟩
  refine ⟨s', ret, hr, hend.imp_right ?_⟩
  rintro ⟨rfl, clean, hlabels⟩
  refine hplaced.relabelled (mapIntoBusy_tbrk (roundup_page size) hs1 (fun a => ?_) hr) hlabels
  rw [← not_iff_not, ← labelAt_eq_none, ← labelAt_eq_none, hlabels a]
  by_cases hin : ret ≤ a ∧ a < ret + roundup size kmPageSize
  · simp [hnew.labels, hin]
  · rw [if_neg hin]

end

/-- The length 0 is not refused, and the monitor aborts. -/
theorem mmap_nothing_aborts : Reach (gluedSystem geo512) booted ∧
      mmapCheckParams 0 (mapPrivate ||| mapAnonymous) (-1) = 0 ∧
      kmGuestMmap geo512 kindHost booted 0 0 (protRead ||| protWrite)
        (mapPrivate ||| mapAnonymous) (-1) 0 = none :=
  ⟨Reach.init booted_init, by decide, by decide +kernel⟩

theorem booted_sized : WellSized geo512 booted 0x2000 :=
  ⟨⟨by decide, .inr ⟨by decide +kernel, by decide +kernel⟩⟩, .inr (by decide +kernel)⟩

/-- Two pages for the payload. -/
theorem mmap_anywhere_placed_two :
    ∃ s' ret, kmGuestMmap geo512 kindHost booted 0 0x2000 (protRead ||| protWrite)
        (mapPrivate ||| mapAnonymous) (-1) 0 = some (s', ret) ∧ (isErrno ret ∨
        Placed booted s' ret 0x2000 (protRead ||| protWrite) (mapPrivate ||| mapAnonymous)) := by
  have hround : roundup 0x2000 kmPageSize = 0x2000 := by decide
  rcases mmap_anywhere_placed geo512 (Reach.init booted_init) kindHost 0 0x2000
    (protRead ||| protWrite) (mapPrivate ||| mapAnonymous) (-1) 0 (by decide)
    (hround.symm ▸ booted_sized) with ⟨s', ret, hr, hend⟩
  rw [hround] at hend
  exact ⟨s', ret, hr, hend⟩

/-! ## Requests that fail -/

/-- The mapped pages with their attributes, the free pages and `tbrk` are the same. -/
structure Unchanged (s s' : MmapState) : Prop where
  view : s'.view = s.view
  free : ∀ a, Mapped s'.free a ↔ Mapped s.free a
  tbrk : s'.mem.tbrk = s.mem.tbrk

/-- Where the code undoes what it has done: `tbrk` moves in the right direction, no pass over busy
regions runs out of memory, and the host maps the file into the memory taken for it. -/
structure Undoable (g : Geometry) (h : Host) (s : MmapState) (size : Nat) (prot flags : BitVec 32)
    (fd offset : Int) : Prop where
  sized : flags &&& mapFixed ≠ mapFixed → WellSized g s (roundup size kmPageSize)
  memory : MapsIntoBusy flags fd → ∀ n, h.ok n .calloc
  file : flags &&& mapFixed ≠ mapFixed → 0 ≤ requestFd flags fd →
    offset % (kmPageSize : Int) = 0 ∧ ∀ n kma, h.ok n (mapCall kma (roundup size kmPageSize) prot
      flags (h.hostfd (requestFd flags fd)) offset)

section

variable {g : Geometry} {h : Host} {s s' : MmapState} {gva size ret : Nat} {prot flags : BitVec 32}
  {fd hostfd offset : Int}

theorem Unchanged.refl (s : MmapState) : Unchanged s s := ⟨rfl, fun _ => Iff.rfl, rfl⟩

/-- The free pages and `tbrk` follow from the busy list. -/
theorem Unchanged.of_busy (hs : Whole g s s.busy) (hs' : Whole g s' s'.busy)
    (hbusy : s'.busy = s.busy) : Unchanged s s' := by
  obtain ⟨htbrk, hfree⟩ := hs.determined hs' fun a => by rw [hbusy]
  refine ⟨?_, hfree, htbrk⟩
  funext a
  rw [MmapState.view, MmapState.view, hbusy]

/-- Mapping into busy regions fails only because the host refuses, if there is memory. -/
theorem mapIntoBusy_errno (hmem : ∀ n, h.ok n .calloc) (hs : Sound g s s.busy)
    (hpage : size % kmPageSize = 0) (hret : isErrno ret)
    (hr : mapIntoBusy g h s gva size prot flags fd hostfd offset = some (s', ret)) :
    ∃ kma, kmGvaToKma g s.mem gva = some kma ∧
      h.answer s.mem (mapCall kma size prot flags hostfd offset) = false ∧
      s' = s.call (mapCall kma size prot flags hostfd offset) := by
  cases mapIntoBusy_end hr with
  | refused hkma hno => exact ⟨_, hkma, hno, rfl⟩
  | stuck hkma hok hgva hpass hrc => exact absurd (pass_ends hmem hs hgva hpage hpass) hrc
  | done hkma hok hgva hpass hlist hstart hsize hreg hkm =>
    rw [isErrno_of_le (le_of_lt (kmGvaToKma_lt_top hkma))] at hret
    cases hret

/-- In every run of requests that are served, a request for which `Undoable` holds and that returns
an errno has changed nothing. -/
theorem mmap_failure_unchanged (g : Geometry) {s : MmapState} (hs : Reach (servedSystem g) s)
    (h : Host) (addr size : Nat) (prot flags : BitVec 32) (fd offset : Int)
    (hundo : Undoable g h s size prot flags fd offset) (s' : MmapState) (ret : Nat)
    (hr : kmGuestMmap g h s addr size prot flags fd offset = some (s', ret))
    (hret : isErrno ret) : Unchanged s s' := by
  have hsound := (servedSystem_settled hs).sound
  cases kmGuestMmapImpl_end hr with
  | refused he => exact .refl s
  | into hfixed hcheck hm =>
    rcases mapIntoBusy_errno (hundo.memory (.inl hfixed)) hsound (roundup_page size) hret hm with
      ⟨kma, -, -, rfl⟩
    exact ⟨rfl, fun _ => Iff.rfl, rfl⟩
  | taken hfixed hadd hend =>
    rcases kmMmapAddRegion_took hsound (hundo.sized hfixed) (roundup_page size) hadd with
      ⟨hs1, ⟨-, hbusy⟩ | hnew⟩
    · exact .of_busy hsound.whole hs1.whole hbusy
    -- the address of a new mapping is no errno
    have hupper := hnew.upper
    rw [isErrno_of_le (by omega)] at hret
    cases hret
  | @filled s1 gva _ _ hfixed hadd hok hfd hm =>
    have hsized := hundo.sized hfixed
    obtain ⟨hs1, hnew, -⟩ := kmMmapAddRegion_new hsound hsized (roundup_page size) hok hadd
    rcases mapIntoBusy_errno (hundo.memory (mapsIntoBusy_of_fd hfd)) hs1 (roundup_page size) hret hm
      with ⟨kma, hkma, hno, -⟩
    -- the host does not refuse
    obtain ⟨hoffset, hgrants⟩ := hundo.file hfixed hfd
    have hkpage := (kmGvaToKma_page hkma).2 hnew.page
    have hne := Nat.pos_iff_ne_zero.1 hsized.pos
    have hform : wellFormedCall (mapCall kma (roundup size kmPageSize) prot flags
        (h.hostfd (requestFd flags fd)) offset) := by
      simp only [mapCall, wellFormedCall, decide_eq_true_eq]
      exact ⟨hkpage, hne, hoffset⟩
    rw [Host.answer, hform, hgrants] at hno
    cases hno

end

def filingHost : Host :=
  { kindHost with
    kmFsG2hFd := fun fd => if fd = 3 then some 3 else none
    kmGuestfdName := fun fd => if fd = 3 then some "/data" else none
    realpath := some
    kmGuestfdName_neg := fun fd hneg => if_neg (by omega) }

/-- A bad offset is refused by the host only after the page for the mapping was taken, and the page
stays busy. -/
theorem mmap_bad_offset_leaks : Reach (servedSystem geo512) booted ∧
      ∃ s', kmGuestMmap geo512 filingHost booted 0 0x1000 protRead mapPrivate 3 1 =
          some (s', negErrno einval) ∧
        isErrno (negErrno einval) ∧ booted.view 0x7fffdfd000 = none ∧
        s'.view 0x7fffdfd000 ≠ none ∧ s'.mem.tbrk ≠ booted.mem.tbrk := by
  have hret : (kmGuestMmap geo512 filingHost booted 0 0x1000 protRead mapPrivate 3 1).map
      Prod.snd = some (negErrno einval) := by decide +kernel
  rcases map_eq_some_iff.1 hret with ⟨⟨s', ret⟩, hr, rfl⟩
  have hs' : s' =
      (evaluate (kmGuestMmap geo512 filingHost booted 0 0x1000 protRead mapPrivate 3 1)).1 := by
    simp [hr, evaluate]
  refine ⟨.init booted_init, s', hr, by decide, by decide +kernel, ?_, ?_⟩
  · rw [hs']
    decide +kernel
  rw [hs']
  decide +kernel

/-- A page that the host does not make shared. -/
theorem mmap_failure_unchanged_shared :
    ∃ s' ret, kmGuestMmap geo512 refusingHost booted 0 0x1000 protRead
        (mapShared ||| mapAnonymous) (-1) 0 = some (s', ret) ∧
      isErrno ret ∧ Unchanged booted s' := by
  have hsized : WellSized geo512 booted (roundup 0x1000 kmPageSize) :=
    ⟨⟨by decide, .inr ⟨by decide +kernel, by decide +kernel⟩⟩, .inr (by decide +kernel)⟩
  have hundo : Undoable geo512 refusingHost booted 0x1000 protRead (mapShared ||| mapAnonymous)
      (-1) 0 :=
    ⟨fun _ => hsized, fun _ _ => rfl, fun _ hneg => absurd hneg (by decide)⟩
  have hret : ((kmGuestMmap geo512 refusingHost booted 0 0x1000 protRead
      (mapShared ||| mapAnonymous) (-1) 0).map fun r => isErrno r.2) = some true := by
    decide +kernel
  rcases map_eq_some_iff.1 hret with ⟨⟨s', ret⟩, hr, herr⟩
  exact ⟨s', ret, hr, herr, mmap_failure_unchanged geo512 (.init booted_init) refusingHost 0
    0x1000 protRead (mapShared ||| mapAnonymous) (-1) 0 hundo s' ret hr herr⟩

end KontainMonitor.Mmap
