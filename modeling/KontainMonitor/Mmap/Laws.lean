import KontainMonitor.Mmap.Contents

/-!
# Laws — properties of labels and bytes that the calls keep

A `PageLaw` is a property of a byte and the label of its page that survives being freed, being
dropped while nobody uses it, and a change of protection.  Such a property is kept by `brk`, `munmap`
and `mprotect`.  For `mmap` and `mremap` it also has to hold of the bytes of the new mapping.
-/

namespace KontainMonitor.Mmap

open Mem Intervals

structure PageLaw (P : Nat → Option Label → Cell → Prop) : Prop where
  free : ∀ a c c', P a none c → Tame c c' → P a none c'
  released : ∀ a x c c', x.ofMonitor = false → P a (some x) c → Released x c c' → P a none c'
  treated : ∀ a x c prot, x.ofMonitor = false → P a (some x) c →
    P a (some ({ x with protection := prot } : Label).cleaned)
      (({ x with protection := prot } : Label).treated c)

section

variable {g : Geometry} {h : Host} {s s' : MmapState} {size ret : Nat}
variable {P Q : Nat → Option Label → Cell → Prop} {m : HostMem}
variable {addr oldAddr : Nat} {prot flags : BitVec 32} {file : FileData} {p : Pos}
variable {m' : HostMem} {vcpu oldSize src rc : Nat} {hostfd : Int} {s1 : MmapState}

theorem PageLaw.munmap (hP : PageLaw P) (mreg : Reg) : PageRule .moveToFree mreg P :=
  ⟨fun _ => hP.free, fun _ a x c c' _ _ => hP.released a x c c', fun hact => absurd rfl hact⟩

theorem PageLaw.mprotect (hP : PageLaw P) (mreg : Reg) : PageRule .mprotect mreg P :=
  ⟨fun hact => (by cases hact), fun hact => (by cases hact),
    fun _ a x c _ _ => hP.treated a x c mreg.protection⟩

theorem mapped_of_labelAt {busy : List Reg} {a : Nat} {x : Label} (hx : labelAt busy a = some x) :
    Mapped busy a := by
  rcases labelAt_mem hx with ⟨r, hr, hlo, hhi, -⟩
  exact ⟨r, hr, hlo, hhi⟩

/-- Bytes that no mapping has may change. -/
theorem Pages.settles (hm : Pages g P s.busy m)
    (hfree : ∀ a c c', P a none c → Tame c c' → P a none c') (hsettle : Settles g s.busy m m') :
    Pages g P s.busy m' := by
  intro a ha
  obtain ⟨htame, hkeep⟩ := hsettle a ha
  have hold := hm a ha
  cases hx : labelAt s.busy a with
  | none =>
    rw [hx] at hold
    exact hfree a _ _ hold htame
  | some x =>
    rw [hkeep (mapped_of_labelAt hx), ← hx]
    exact hold

/-! ## Calls that make no mapping -/

theorem pages_of_brk {arg : Nat} {mem : MemState} (hP : PageLaw P) (hs : Sound g s s.busy)
    (harg : arg = 0 ∨ guestMemStartVa ≤ arg) (hr : kmMemBrk g h.alloc s.mem arg = some (mem, ret))
    (file : FileData) (hm : Pages g P s.busy m) :
    ∃ m', HostRun h file s.mem.hostCalls m mem.hostCalls m' ∧ Pages g P s.busy m' := by
  obtain ⟨m', hrun, hcells⟩ := kmMemBrk_cells hs.mem harg hr h file m
  exact ⟨m', hrun, hm.settles hP.free fun a ha => ⟨(hcells a ha).1, fun hbusy =>
    (hcells a ha).2 (hs.whole.tbrk_le_of_mapped hbusy)⟩⟩

section

variable (hh : h.Steady)
include hh

theorem pages_of_munmapNolock (hP : PageRule .moveToFree (rangeReg addr size protNone false) P)
    (hs : Sound g s s.busy) (haddr : addr % kmPageSize = 0) (hsize : size % kmPageSize = 0)
    (hr : kmGuestMunmapNolock g h s addr size = some (s', ret)) (file : FileData)
    (hm : Pages g P s.busy m) : ∃ m', HostRuns h file s m s' m' ∧ Pages g P s'.busy m' :=
  busyRangeApply_keeps hh hP (fun _ => rfl) haddr hsize hs hr file m hm

section

variable (hP : PageLaw P) (hs : Sound g s s.busy)
include hP hs

theorem pages_of_munmap {stackTop : Nat}
    (hr : kmGuestMunmap g h s vcpu stackTop addr size = some (s', ret)) (file : FileData)
    (hm : Pages g P s.busy m) : ∃ m', HostRuns h file s m s' m' ∧ Pages g P s'.busy m' := by
  rcases kmGuestMunmap_cases hr with rfl | ⟨haddr, rfl | hmun⟩
  · exact ⟨m, .refl _ _ _ _, hm⟩
  · exact ⟨m, .refl _ _ _ _, hm⟩
  · exact pages_of_munmapNolock hh (hP.munmap _) hs haddr (roundup_page size) hmun file hm

theorem pages_of_delayedMunmap (hr : kmDelayedMunmap g h s vcpu = some s') (file : FileData)
    (hm : Pages g P s.busy m) : ∃ m', HostRuns h file s m s' m' ∧ Pages g P s'.busy m' := by
  rcases kmDelayedMunmap_cases hr with rfl | ⟨s1, rc, hmun, rfl⟩
  · exact ⟨m, .refl _ _ _ _, hm⟩
  obtain ⟨hbase, hsize⟩ := hs.whole.mapself vcpu
  exact pages_of_munmapNolock hh (hP.munmap _) hs hbase hsize hmun file hm

theorem pages_of_mprotect
    (hwrap : addr + roundup size kmPageSize < 2 ^ 64 ∨ ∀ a x c prot, P a x c → P a x (c.protect prot))
    (hr : kmGuestMprotect g h s addr size prot = some (s', ret)) (file : FileData)
    (hm : Pages g P s.busy m) : ∃ m', HostRuns h file s m s' m' ∧ Pages g P s'.busy m' := by
  rcases kmGuestMprotect_cases hr with rfl | ⟨hlow, rfl⟩ | ⟨haddr, rc, hwalk⟩
  · exact ⟨m, .refl _ _ _ _, hm⟩
  · -- memory below `brk`
    rcases hwrap with hwrap | hany
    · rw [u64, Nat.mod_eq_of_lt hwrap] at hlow
      obtain ⟨m', hrun, hcells⟩ := mprotect_low_cells (protectionAdjust prot) hs.mem hlow.1 h file m
      exact ⟨m', hrun, hm.settles hP.free fun a ha => ⟨(hcells a ha).1, fun hbusy =>
        (hcells a ha).2 (hs.whole.tbrk_le_of_mapped hbusy)⟩⟩
    -- a range that wraps is protected somewhere
    refine ⟨_, .call trivial, fun a ha => ?_⟩
    split
    · simp only [HostMem.exec]
      split
      · exact hany a _ _ _ (hm a ha)
      · exact hm a ha
    · exact hm a ha
  have hact : Action.mprotect ≠ .moveToFree := by decide
  exact busyRangeApply_keeps hh (hP.mprotect _) (fun hno => absurd hno hact) haddr
    (roundup_page size) hs hwalk file m hm

end

/-! ## New mappings -/

/-- Pages that change their label: `P` before the change implies `Q` after it. -/
def Relabels (P Q : Nat → Option Label → Cell → Prop) (lo hi : Nat) (old new : Option Label)
    (change : Nat → Cell → Cell → Prop) : Prop :=
  ∀ a c c', lo ≤ a → a < hi → P a old c → change a c c' → Q a new c'

/-- A property for the state before and one for the state after a new region. -/
theorem pages_of_addRegion (hfree : ∀ a c c', P a none c → Tame c c' → P a none c')
    (hout : ∀ a x c, ¬ (ret ≤ a ∧ a < ret + size) → P a x c → Q a x c)
    (hfresh : Relabels P Q ret (ret + size) none (some (newLabel prot flags .guest))
      fun a => Renewed file prot flags hostfd (a - ret))
    (hs : Sound g s s.busy) (hsized : WellSized g s size) (hpage : size % kmPageSize = 0)
    (hr : kmMmapAddRegion g h s size prot flags hostfd .guest = some (s', ret))
    (hm : Pages g P s.busy m) : ∃ m', HostRuns h file s m s' m' ∧
      ((isErrno ret ∧ Pages g P s'.busy m') ∨ (isErrno ret = false ∧ Pages g Q s'.busy m')) := by
  obtain ⟨m', hrun, hres⟩ := kmMmapAddRegion_cells hh hs hsized hpage hr file m
  refine ⟨m', hrun, ?_⟩
  rcases hres with ⟨herr, hbusy, hsettle⟩ | ⟨hok, hcells⟩
  · left
    rw [hbusy]
    exact ⟨herr, hm.settles hfree hsettle⟩
  right
  obtain ⟨-, hnew, -⟩ := kmMmapAddRegion_new hs hsized hpage hok hr
  refine ⟨hok, fun a ha => ?_⟩
  have hold := hm a ha
  rw [hnew.labels]
  split
  next hin =>
    rw [hnew.hole a hin.1 hin.2] at hold
    exact hfresh a _ _ hin.1 hin.2 hold (hcells.inside a hin.1 hin.2)
  rename_i hno
  obtain ⟨htame, hkeep⟩ := hcells.outside a ha hno
  refine hout a _ _ hno ?_
  cases hx : labelAt s.busy a with
  | none =>
    rw [hx] at hold
    exact hfree a _ _ hold htame
  | some x =>
    rw [hkeep (mapped_of_labelAt hx), ← hx]
    exact hold

/-- A property for the state before and one for the state after a mapping into busy regions. -/
theorem pages_of_mapIntoBusy {gva : Nat} {fd offset : Int} (hmem : ∀ n, h.ok n .calloc)
    (hout : ∀ a x c, ¬ (gva ≤ a ∧ a < gva + size) → P a x c → Q a x c)
    (hin : ∀ x : Label, x.ofMonitor = false → Relabels P Q gva (gva + size) (some x)
      (some (mapLabel h prot flags fd (x.cleanAfter prot (hostfd < 0))))
      fun a _ c' => c' = mappedCell file prot flags hostfd offset (a - gva))
    (hs : Sound g s s.busy) (hpage : size % kmPageSize = 0) (hreal : RealAt s.busy)
    (hmapped : gva + size < 2 ^ 64 → PayloadMapped s.busy gva size)
    (hr : mapIntoBusy g h s gva size prot flags fd hostfd offset = some (s', ret))
    (hm : Pages g P s.busy m) : ∃ m', HostRuns h file s m s' m' ∧
      ((isErrno ret ∧ Pages g P s'.busy m') ∨
        (ret = gva ∧ gva + size ≤ guestMemTopVa ∧ Pages g Q s'.busy m')) := by
  obtain ⟨m', hrun, hres⟩ := mapIntoBusy_cells hh hmem hs hpage hreal hmapped hr file m
  refine ⟨m', hrun, ?_⟩
  rcases hres with ⟨herr, hbusy, rfl⟩ | ⟨hret, hcells⟩
  · left
    rw [hbusy]
    exact ⟨herr, hm⟩
  right
  refine ⟨hret, hcells.upper, fun a ha => ?_⟩
  obtain ⟨clean, hlabels, hclean⟩ := hcells.labels
  have hold := hm a ha
  rw [hcells.cells a ha, hlabels a]
  split
  next hrange =>
    have htop := guestMemTopVa_lt
    have hupp := hcells.upper
    rcases hmapped (by omega) a hrange.1 hrange.2 with ⟨r, hrmem, hlo, hhi, hpay⟩
    have hx := labelAt_of_mem hs.whole.busy_sorted hrmem hlo hhi
    rw [hx] at hold
    rw [← hclean a r.label hrange.1 hrange.2 hx]
    exact hin r.label hpay a _ _ hrange.1 hrange.2 hold rfl
  next hrange =>
    exact hout a _ _ hrange hold

/-- A property for the state before and one for the state after a region grows. -/
theorem pages_of_growInPlace {needed : Nat} (hs : Sound g s s.busy) (hp : p.toList = s.busy)
    (hpay : p.reg.ofMonitor = false) (hroom : HasRoom p needed)
    (hout : ∀ a x c, ¬ (p.reg.start ≤ a ∧ a < p.reg.stop + needed) → P a x c → Q a x c)
    (hold : Relabels P Q p.reg.start p.reg.stop (some p.reg.label) (some p.reg.label.cleaned)
      fun _ c c' => c' = p.reg.label.treated c)
    (hnew : Relabels P Q p.reg.stop (p.reg.stop + needed) none (some p.reg.label.cleaned)
      fun _ c c' => c' = p.reg.label.treated (if p.reg.kmFlags.clean then c.dontneed else c))
    (hr : mremapGrowInPlace g s p oldAddr needed = some (s', ret)) (file : FileData)
    (hm : Pages g P s.busy m) : ∃ m', HostRuns h file s m s' m' ∧ Pages g Q s'.busy m' := by
  have hwhole : Whole g s p.toList := hp ▸ hs.whole
  have hpart := Reg.payload_part hpay
  obtain ⟨m', hrun, hcells⟩ := mremapGrowInPlace_cells hh hwhole hs.mem hpay hroom hr file m
  obtain ⟨-, -, hlabels⟩ := mremapGrowInPlace_labelAt hwhole hpart hroom hr
  refine ⟨m', hrun, fun a ha => ?_⟩
  have hbefore := hm a ha
  rw [← hp] at hbefore
  rw [hlabels a, hcells a ha]
  split
  next hin =>
    by_cases hlt : a < p.reg.stop
    · rw [labelAt_of_mem hwhole.busy_sorted (by simp [Pos.toList]) hin.1 hlt] at hbefore
      rw [if_neg (by omega)]
      exact hold a _ _ hin.1 hlt hbefore rfl
    rw [labelAt_eq_none.2 (hwhole.not_mapped_behind hroom.room a (by omega) (by omega))] at hbefore
    have hcell := hnew a _ _ (not_lt.1 hlt) hin.2 hbefore rfl
    simpa only [not_lt.1 hlt, true_and] using hcell
  next hno =>
    exact hout a _ _ hno hbefore

end

/-! ## Moves -/

/-- What moving a mapping does: a new region, a copy and an `munmap`. -/
structure Moving (g : Geometry) (h : Host) (s s1 s' : MmapState) (p : Pos)
    (oldAddr oldSize size ret rc : Nat) : Prop where
  sound : Sound g s1 s1.busy
  add : kmMmapAddRegion g h s size p.reg.protection p.reg.flags (-1) .guest = some (s1, ret)
  new : NewMapping s s1 ret size (newLabel p.reg.protection p.reg.flags .guest)
  munmap : kmGuestMunmapNolock g h
    (s1.call (.memcpy (kmaOf g ret) (kmaOf g oldAddr) oldSize)) oldAddr oldSize = some (s', rc)
  lower : s1.mem.tbrk ≤ oldAddr
  upper : oldAddr + oldSize ≤ p.reg.stop
  top : p.reg.stop ≤ guestMemTopVa

/-- Anonymous memory anywhere. -/
theorem kmGuestMmapNolock_anywhere (hfixed : flags &&& mapFixed ≠ mapFixed)
    (hr : kmGuestMmapNolock g h s 0 size prot flags (-1) 0 .guest = some (s', ret)) :
    kmMmapAddRegion g h s size prot flags (-1) .guest = some (s', ret) := by
  have hfd : (if flags &&& mapAnonymous = mapAnonymous then (-1 : Int) else -1) = -1 := ite_self _
  have hneg : ¬ (0 : Int) ≤ -1 := by decide
  simp only [kmGuestMmapNolock, hfd, if_neg hneg, if_neg hfixed, do_eq_some] at hr
  rcases hr with ⟨⟨s1, gva⟩, hadd, hr⟩
  rw [if_pos (.inr (by decide))] at hr
  cases hr
  exact hadd

theorem Remaps.moving (hp : Remaps s p oldAddr oldSize) (hs : Sound g s s.busy)
    (hreal : RealAt s.busy) (hsize : size % kmPageSize = 0) (hsized : WellSized g s size)
    (hless : oldSize < size)
    (hr : kmGuestMmapNolock g h s 0 size p.reg.protection p.reg.flags (-1) 0 .guest = some (s1, ret))
    (hok : isErrno ret = false) (hsrc : kmGvaToKma g s1.mem oldAddr = some src)
    (hmun : kmGuestMunmapNolock g h
      (s1.call (.memcpy ((kmGvaToKma g s1.mem ret).getD 0) src oldSize)) oldAddr oldSize =
        some (s', rc)) : Moving g h s s1 s' p oldAddr oldSize size ret rc := by
  have hpmem : p.reg ∈ s.busy := by simp [← hp.list, Pos.toList]
  have hz := (hs.whole.busy_ok p.reg hpmem).payload (Reg.payload_part hp.payload)
  have hfixed := hs.whole.not_fixed hreal hpmem hp.payload
  have hs1 := ((kmGuestMmapNolock_end hr).kept hs (fun _ => hsized) hsize).sound
  have hadd := kmGuestMmapNolock_anywhere hfixed hr
  obtain ⟨-, hnew, -⟩ := kmMmapAddRegion_new hs hsized hsize hok hadd
  have hupp := hnew.upper
  have hlow := hnew.lower
  have hconsts := layout_consts
  have hpupp := hz.upper
  have hplow := hp.upper
  have hfits := hp.fits
  have hupper : oldAddr + oldSize ≤ p.reg.stop := by
    rw [u64] at hfits
    omega
  -- the old mapping is still there
  have hbusy : Mapped s1.busy oldAddr := by
    have hlabel := labelAt_of_mem hs.whole.busy_sorted hpmem hp.lower hp.upper
    have hout : ¬ (ret ≤ oldAddr ∧ oldAddr < ret + size) := by
      rintro ⟨h1, h2⟩
      rw [hnew.hole oldAddr h1 h2] at hlabel
      cases hlabel
    refine mapped_of_labelAt (x := p.reg.label) ?_
    rw [hnew.labels, if_neg hout]
    exact hlabel
  have hlower := hs1.whole.tbrk_le_of_mapped hbusy
  have hdst : kmGvaToKma g s1.mem ret = some (kmaOf g ret) :=
    kmGvaToKma_zone hs1.mem hlow (by omega)
  have hsrc' : kmGvaToKma g s1.mem oldAddr = some (kmaOf g oldAddr) :=
    kmGvaToKma_zone hs1.mem hlower (by omega)
  rw [hsrc', Option.some.injEq] at hsrc
  rw [hdst, Option.getD_some, ← hsrc] at hmun
  exact ⟨hs1, hadd, hnew, hmun, hlower, hupper, hpupp⟩

/-- The copy of a move. -/
theorem memcpy_cells {dst len : Nat} (hdst : g.guestVaOffset < dst) (hsrc : g.guestVaOffset < src)
    (file : FileData) (m : HostMem) :
    ∀ a, Zone g a → m.exec file (.memcpy (kmaOf g dst) (kmaOf g src) len) (kmaOf g a) =
      if dst ≤ a ∧ a < dst + len then
        { m (kmaOf g a) with byte := (m (kmaOf g (src + (a - dst)))).byte }
      else m (kmaOf g a) := by
  intro a ha
  simp only [HostMem.exec]
  rw [ite_kmaOf ha.1 hdst]
  split
  next hin =>
    have hshift : kmaOf g src + (kmaOf g a - kmaOf g dst) = kmaOf g (src + (a - dst)) := by
      rw [kmaOf_sub hdst hin.1]
      simp only [kmaOf]
      omega
    rw [hshift]
  · rfl

/-- The three parts of a move. -/
theorem Moving.parts (hmove : Moving g h s s1 s' p oldAddr oldSize size ret rc) (hh : h.Steady)
    (hs : Sound g s s.busy) (haddr : oldAddr % kmPageSize = 0) (hold : oldSize % kmPageSize = 0)
    (hsize : size % kmPageSize = 0) (hsized : WellSized g s size)
    (hrun : HostRun h file s.mem.hostCalls m s'.mem.hostCalls m') :
    ∃ m1, HostRun h file s.mem.hostCalls m s1.mem.hostCalls m1 ∧
      m1.Permits (.memcpy (kmaOf g ret) (kmaOf g oldAddr) oldSize) ∧
      HostRun h file (HostCall.memcpy (kmaOf g ret) (kmaOf g oldAddr) oldSize :: s1.mem.hostCalls)
        (m1.exec file (.memcpy (kmaOf g ret) (kmaOf g oldAddr) oldSize)) s'.mem.hostCalls m' := by
  obtain ⟨m1, ⟨cs, hcs, -, -⟩, -⟩ := kmMmapAddRegion_cells hh hs hsized hsize hmove.add file m
  have hcall := hmove.sound.call (.memcpy (kmaOf g ret) (kmaOf g oldAddr) oldSize)
  have hany : PageLaw fun _ _ _ => True := ⟨by simp, by simp, by simp⟩
  obtain ⟨m2, ⟨ds, hds, -, -⟩, -⟩ := pages_of_munmapNolock hh (hany.munmap _) hcall haddr hold
    hmove.munmap file (m := m) (fun _ _ => trivial)
  have hlog : s'.mem.hostCalls =
      ds ++ ([HostCall.memcpy (kmaOf g ret) (kmaOf g oldAddr) oldSize] ++ s1.mem.hostCalls) := hds
  rw [hlog] at hrun ⊢
  have hlog' : ds ++ ([HostCall.memcpy (kmaOf g ret) (kmaOf g oldAddr) oldSize] ++ s1.mem.hostCalls) =
      (ds ++ [HostCall.memcpy (kmaOf g ret) (kmaOf g oldAddr) oldSize]) ++ (cs ++ s.mem.hostCalls) := by
    rw [hcs, List.append_assoc]
  rw [hlog'] at hrun
  obtain ⟨n1, hrun1, hrest⟩ := hrun.split
  rw [← hcs, List.append_assoc] at hrest
  obtain ⟨n2, hrun2, hrun3⟩ := hrest.split
  refine ⟨n1, hcs ▸ hrun1, ?_⟩
  obtain ⟨es, hes, rfl, hpermit⟩ := hrun2
  obtain rfl := List.append_cancel_right hes
  exact ⟨hpermit.2, hrun3⟩

end

end KontainMonitor.Mmap
