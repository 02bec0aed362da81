import KontainMonitor.Mmap.World

/-!
# Tracked — properties that know what was written

The calls give memory to the payload and take it back in the same ways, whatever is said about a
byte.  Here is a property of a label and a byte that also depends on whether the payload has written
the byte, and on what it wrote.  A call keeps it if each of these ways does.
-/

namespace KontainMonitor.Mmap

open Mem Intervals Transition

/-- The property of every byte, with what was written. -/
abbrev Tracked (g : Geometry) (P : Bool → UInt8 → Option Label → Cell → Prop) (w : Nat → Bool)
    (v : Nat → UInt8) : List Reg → HostMem → Prop :=
  Pages g fun a => P (w a) (v a)

/-- What was not mapped was not written. -/
def Unwritten (busy : List Reg) (w : Nat → Bool) : Prop :=
  ∀ a, labelAt busy a = none → w a = false

def Covers (P : Bool → UInt8 → Option Label → Cell → Prop) (h : Host) (file : FileData)
    (prot flags : BitVec 32) (fd offset : Int) (x : Label) : Prop :=
  ∀ b v c k, P b v (some x) c → P false v (some (mapLabel h prot flags (requestFd flags fd)
      (x.cleanAfter prot (h.hostfd (requestFd flags fd) < 0))))
    (mappedCell file prot flags (h.hostfd (requestFd flags fd)) offset k)

/-- The bytes of a new mapping: those of a new region, and those of pages that it covers. -/
structure NewLaw (P : Bool → UInt8 → Option Label → Cell → Prop) (h : Host) (file : FileData)
    (busy : List Reg) (gva size : Nat) (prot flags : BitVec 32) (fd offset : Int) : Prop where
  fresh : ∀ b v c c' k, P b v none c →
    Renewed file prot flags (h.hostfd (requestFd flags fd)) k c c' →
    P false v (some (newLabel prot flags .guest)) c'
  anew : Covers P h file prot flags fd offset (newLabel prot flags .guest)
  covers : flags &&& mapFixed = mapFixed → ∀ r ∈ busy, r.ofMonitor = false → r.start < gva + size →
    gva < r.stop → Covers P h file prot flags fd offset r.label

/-- The bytes of a mapping that grows or moves.  In place, only some do. -/
structure MoveLaw (may : Label → Prop) (P : Bool → UInt8 → Option Label → Cell → Prop) : Prop where
  law : ∀ b v, PageLaw fun _ => P b v
  fresh : ∀ b v x c, x.ofMonitor = false → P b v (some x) c → ∀ b v c c' file k, P b v none c →
    Renewed file x.protection x.flags (-1) k c c' →
    P false v (some (newLabel x.protection x.flags .guest)) c'
  grown : ∀ b v x c, x.ofMonitor = false → may x → P b v (some x) c → ∀ b v c, P b v none c →
    P false v (some x.cleaned) (x.treated (if x.kmFlags.clean then c.dontneed else c))
  copied : ∀ b v x c, x.ofMonitor = false → x.protection ≠ protNone → P b v (some x) c → ∀ u c',
    P false u (some (newLabel x.protection x.flags .guest)) c' →
    P b v (some (newLabel x.protection x.flags .guest)) { c' with byte := c.byte }

section

variable {g : Geometry} {h : Host} {s s' s1 : MmapState} {size ret : Nat} {m m' : HostMem}
variable {P : Bool → UInt8 → Option Label → Cell → Prop} {w : Nat → Bool} {v : Nat → UInt8}
variable {addr a oldSize oldAddr gva rc : Nat} {prot flags : BitVec 32} {file : FileData} {p : Pos}
variable {hostfd fd offset : Int} {may : Label → Prop}

theorem PageLaw.tracked (hP : ∀ b v, PageLaw fun _ => P b v) (w : Nat → Bool) (v : Nat → UInt8) :
    PageLaw fun a => P (w a) (v a) :=
  ⟨fun a => (hP (w a) (v a)).free a, fun a => (hP (w a) (v a)).released a,
    fun a => (hP (w a) (v a)).treated a⟩

theorem writtenIn_unwritten (s : MmapState) (w : Nat → Bool) : Unwritten s.busy (writtenIn s w) := by
  intro a ha
  rw [writtenIn, ha, Option.isSome_none, Bool.and_false]

theorem calmSystem_unwritten {v : World} (hv : Reach (calmSystem g) v) :
    Unwritten v.mm.busy v.written := by
  refine Reach.inv (I := fun v : World => Unwritten v.mm.busy v.written) ?_ ?_ hv
  · intro v hv a _
    exact hv.2.2 a
  rintro v i v' hw ⟨hstep, -⟩
  cases i with
  | call h file op =>
    rw [hstep.2.2]
    exact writtenIn_unwritten _ _
  | write a u =>
    obtain ⟨⟨x, hx, -⟩, rfl⟩ := hstep
    intro b hb
    have hne : b ≠ a := by
      rintro rfl
      cases hx.symm.trans hb
    simp only [World.write]
    rw [Function.update_of_ne hne]
    exact hw b hb

/-! ## Requests -/

theorem hostfd_neg (hfd : fd < 0) : h.hostfd fd < 0 := by
  rw [Host.hostfd, if_neg (not_le.2 hfd)]
  decide

/-- A new region, with the protection that the host has for it. -/
theorem tracked_of_addRegion (hh : h.Steady) (hP : ∀ b v, PageLaw fun _ => P b v)
    (hw : Unwritten s.busy w) (hfresh : ∀ b v c c' k, P b v none c →
      Renewed file prot flags hostfd k c c' → P false v (some (newLabel prot flags .guest)) c')
    (hs : Sound g s s.busy) (hsized : WellSized g s size) (hpage : size % kmPageSize = 0)
    (hr : kmMmapAddRegion g h s size prot flags hostfd .guest = some (s', ret))
    (hm : Tracked g P w v s.busy m) : ∃ m', HostRuns h file s m s' m' ∧
      Tracked g P w v s'.busy m' ∧ (isErrno ret = false → ∀ a, Zone g a → ret ≤ a → a < ret + size →
        (m' (kmaOf g a)).prot = protectionAdjust prot) := by
  -- carry along that nothing is written where nothing is mapped
  have hm0 : Pages g (fun a x c => P (w a) (v a) x c ∧ (x = none → w a = false)) s.busy m :=
    fun a ha => ⟨hm a ha, hw a⟩
  have hout : ∀ a x c, ¬ (ret ≤ a ∧ a < ret + size) → P (w a) (v a) x c ∧ (x = none → w a = false) →
      P (w a) (v a) x c ∧ (ret ≤ a → a < ret + size → c.prot = protectionAdjust prot) :=
    fun a x c hno hc => ⟨hc.1, fun h1 h2 => absurd ⟨h1, h2⟩ hno⟩
  obtain ⟨m', hrun, hres⟩ := pages_of_addRegion hh
    (fun a c c' hc htame => ⟨(hP _ _).free a c c' hc.1 htame, hc.2⟩) hout
    (fun a c c' _ _ hc hren => by
      refine ⟨?_, fun _ _ => ?_⟩
      · rw [hc.2 rfl]
        exact hfresh _ _ c c' _ hc.1 hren
      obtain ⟨c1, -, rfl⟩ := hren
      exact Label.treated_prot _ _) hs hsized hpage hr hm0
  refine ⟨m', hrun, ?_⟩
  rcases hres with ⟨herr, hm'⟩ | ⟨-, hm'⟩
  · refine ⟨fun a ha => (hm' a ha).1, fun hok => ?_⟩
    rw [herr] at hok
    cases hok
  · exact ⟨fun a ha => (hm' a ha).1, fun _ a ha => (hm' a ha).2⟩

/-- Outside of a new mapping nothing has to be forgotten. -/
theorem freshly_out (hout : ¬ (addr ≤ a ∧ a < addr + size)) :
    freshly w addr size a = w a := if_neg hout

theorem tracked_of_request (hh : h.Steady) (hP : ∀ b v, PageLaw fun _ => P b v)
    (hnew : NewLaw P h file s.busy gva size prot flags fd offset)
    (hmem : MapsIntoBusy flags fd → ∀ n, h.ok n .calloc) (hw : Unwritten s.busy w)
    (hs : Settled g s) (hreal : RealAt s.busy)
    (hsized : flags &&& mapFixed ≠ mapFixed → WellSized g s size) (hpage : size % kmPageSize = 0)
    (hr : RequestEnd g h s gva size prot flags fd offset .guest s' ret)
    (hm : Tracked g P w v s.busy m) : ∃ m', HostRuns h file s m s' m' ∧
      Tracked g P (if isErrno ret then w else freshly w ret size) v s'.busy m' := by
  have hinto : ∀ {s s' : MmapState} {gva1 ret : Nat} {m : HostMem}, Sound g s s.busy →
      RealAt s.busy → MapsIntoBusy flags fd →
      (gva1 + size < 2 ^ 64 → PayloadMapped s.busy gva1 size) →
      (∀ a x, gva1 ≤ a → a < gva1 + size → labelAt s.busy a = some x → x.ofMonitor = false →
        Covers P h file prot flags fd offset x) →
      mapIntoBusy g h s gva1 size prot flags (requestFd flags fd) (h.hostfd (requestFd flags fd))
        offset = some (s', ret) → Tracked g P w v s.busy m →
      ∃ m', HostRuns h file s m s' m' ∧
        Tracked g P (if isErrno ret then w else freshly w ret size) v s'.busy m' := by
    intro s s' gva1 ret m hs hreal hbusy hpay hcovers hr hm
    have hm0 : Pages g (fun a x c => P (w a) (v a) x c ∧ x = labelAt s.busy a) s.busy m :=
      fun a ha => ⟨hm a ha, rfl⟩
    have hout : ∀ a x c, ¬ (gva1 ≤ a ∧ a < gva1 + size) → P (w a) (v a) x c ∧ x = labelAt s.busy a →
        P (freshly w gva1 size a) (v a) x c := by
      intro a x c hno hc
      rw [freshly_out hno]
      exact hc.1
    obtain ⟨m', hrun, hres⟩ := pages_of_mapIntoBusy hh (hmem hbusy) hout
      (fun x hpay a c _ hlo hhi hc hcell => by
        rw [hcell, freshly, if_pos ⟨hlo, hhi⟩]
        exact hcovers a x hlo hhi hc.2.symm hpay _ _ c _ hc.1) hs hpage hreal hpay hr hm0
    refine ⟨m', hrun, ?_⟩
    rcases hres with ⟨herr, hm'⟩ | ⟨rfl, htop, hm'⟩
    · rw [if_pos herr]
      exact fun a ha => (hm' a ha).1
    rw [if_neg (by rw [isErrno_of_le (by omega)]; decide)]
    exact hm'
  cases hr with
  | refused he =>
    rw [if_pos he]
    exact ⟨m, HostRun.refl _ _ _ _, hm⟩
  | into hfixed hcheck hmap =>
    refine hinto hs.sound hreal (.inl hfixed) (hs.mappedBelow hcheck) ?_ hmap hm
    intro a x hlo hhi hx hpay
    rcases labelAt_mem hx with ⟨r, hrmem, hrlo, hrhi, rfl⟩
    exact hnew.covers hfixed r hrmem hpay (by omega) (by omega)
  | taken hfixed hadd hend =>
    obtain ⟨m1, hrun1, hm1, -⟩ := tracked_of_addRegion hh hP hw hnew.fresh hs.sound (hsized hfixed)
      hpage hadd hm
    refine ⟨m1, hrun1, ?_⟩
    split
    · exact hm1
    -- the new pages were not mapped, so not written
    rename_i hok
    obtain ⟨-, hadded, -⟩ := kmMmapAddRegion_new hs.sound (hsized hfixed) hpage (by simpa using hok)
      hadd
    have hsame : freshly w ret size = w := by
      funext a
      rw [freshly]
      split
      next hin =>
        exact (hw a (hadded.hole a hin.1 hin.2)).symm
      · rfl
    rw [hsame]
    exact hm1
  | @filled s1 _ gva1 _ hfixed hadd hok hfd hmap =>
    -- the file goes into the new region
    obtain ⟨m1, hrun1, hm1, -⟩ := tracked_of_addRegion hh hP hw hnew.fresh hs.sound (hsized hfixed)
      hpage hadd hm
    have hkept : Kept g True s s1 := kept_of_addRegion hs.sound hfixed (hsized hfixed) hpage hadd
    obtain ⟨-, hadded, -⟩ := kmMmapAddRegion_new hs.sound (hsized hfixed) hpage hok hadd
    obtain ⟨m', hrun, hm'⟩ := hinto hkept.sound (hkept.real trivial hreal) (mapsIntoBusy_of_fd hfd)
      (fun _ => hadded.payloadMapped (newLabel_ofMonitor prot flags)) (fun a x hlo hhi hx _ => by
        rw [hadded.labels, if_pos ⟨hlo, hhi⟩, Option.some.injEq] at hx
        exact hx ▸ hnew.anew) hmap hm1
    exact ⟨m', hrun1.trans hrun, hm'⟩

/-! ## mremap -/

theorem movedTo_same (hle : size ≤ oldSize) : movedTo w addr oldSize addr size = w := by
  funext a
  rw [movedTo]
  split
  · rw [if_pos (by omega), show addr + (a - addr) = a by omega]
  · rfl

/-- What was in a mapping that grows stays where it is. -/
theorem movedTo_below {stop : Nat} (hstop : stop = addr + oldSize) (hlt : a < stop) :
    movedTo w addr oldSize addr size a = w a := by
  rw [movedTo]
  split
  · rw [if_pos (by omega), show addr + (a - addr) = a by omega]
  · rfl

theorem Remaps.mem {n : Nat} (hp : Remaps s p oldAddr n) : p.reg ∈ s.busy := by
  simp [← hp.list, Pos.toList]

/-- The page that is remapped. -/
theorem Remaps.tracked {n : Nat} (hp : Remaps s p oldAddr n) (hs : Sound g s s.busy)
    (hm : Tracked g P w v s.busy m) :
    P (w oldAddr) (v oldAddr) (some p.reg.label) (m (kmaOf g oldAddr)) := by
  have hold := hm oldAddr (hs.zone_of_mem hp.mem hp.payload hp.lower hp.upper)
  rwa [labelAt_of_mem hs.whole.busy_sorted hp.mem hp.lower hp.upper] at hold

theorem tracked_of_grown (hh : h.Steady) (hP : MoveLaw may P) (hs : Sound g s s.busy)
    (hp : Remaps s p oldAddr oldSize) (hmay : may p.reg.label) (hless : oldSize < size)
    (hstop : p.reg.stop = oldAddr + oldSize) (hroom : HasRoom p (size - oldSize))
    (hr : mremapGrowInPlace g s p oldAddr (size - oldSize) = some (s', ret))
    (hm : Tracked g P w v s.busy m) : ∃ m', HostRuns h file s m s' m' ∧
      Tracked g P (movedTo w oldAddr oldSize oldAddr size) v s'.busy m' := by
  have hlower := hp.lower
  refine pages_of_growInPlace hh hs hp.list hp.payload hroom ?_ ?_ ?_ hr file hm
  · intro a x c hout hc
    rw [movedTo, if_neg (by omega)]
    exact hc
  · rintro a c _ hlo hhi hc rfl
    rw [movedTo_below hstop hhi]
    exact (hP.law _ _).treated a p.reg.label c p.reg.protection hp.payload hc
  rintro a c _ hlo hhi hc rfl
  have hfresh : movedTo w oldAddr oldSize oldAddr size a = false := by
    rw [movedTo, if_pos (by omega), if_neg (by omega)]
  rw [hfresh]
  exact hP.grown _ _ p.reg.label _ hp.payload hmay (hp.tracked hs hm) _ _ c hc

/-- The old mapping is not where the new one is. -/
theorem Moving.apart (hmove : Moving g h s s1 s' p oldAddr oldSize size ret rc)
    (hp : Remaps s p oldAddr oldSize) (hs : Sound g s s.busy) (hlo : oldAddr ≤ a)
    (hhi : a < oldAddr + oldSize) :
    ¬ (ret ≤ a ∧ a < ret + size) ∧ labelAt s.busy a = some p.reg.label ∧ Zone g a := by
  have hlower := hp.lower
  have hupper := hmove.upper
  have hlabel := labelAt_of_mem hs.whole.busy_sorted hp.mem (a := a) (by omega) (by omega)
  refine ⟨?_, hlabel, hs.zone_of_mem hp.mem hp.payload (by omega) (by omega)⟩
  rintro ⟨h1, h2⟩
  rw [hmove.new.hole a h1 h2] at hlabel
  cases hlabel

/-- The copy takes along what was written. -/
theorem Moving.tracked_copy (hP : MoveLaw may P) (file : FileData)
    (hmove : Moving g h s s1 s' p oldAddr oldSize size ret rc) (hp : Remaps s p oldAddr oldSize)
    (hs : Sound g s s.busy) (hw : Unwritten s.busy w) (hless : oldSize < size)
    (hpermit : m.Permits (.memcpy (kmaOf g ret) (kmaOf g oldAddr) oldSize))
    (hprot : ∀ a, Zone g a → ret ≤ a → a < ret + size →
      (m (kmaOf g a)).prot = protectionAdjust p.reg.protection)
    (hm : Tracked g P w v s1.busy m) : ∃ u : Nat → UInt8,
      Tracked g P (movedTo w oldAddr oldSize ret size) u s1.busy
        (m.exec file (.memcpy (kmaOf g ret) (kmaOf g oldAddr) oldSize)) := by
  have htbrk := hmove.sound.mem.tbrk_lo
  have hretlow := hmove.new.lower
  have hlow := hmove.lower
  refine ⟨fun a => if ret ≤ a ∧ a < ret + oldSize then v (oldAddr + (a - ret)) else v a,
    fun a ha => ?_⟩
  have hc : P (w a) (v a) (labelAt s1.busy a) (m (kmaOf g a)) := hm a ha
  rw [memcpy_cells (by omega) (by omega) file m a ha]
  dsimp only
  split
  next hin =>
    -- the byte it is copied from
    obtain ⟨hout, hlabel, hzone⟩ := hmove.apart hp hs (a := oldAddr + (a - ret)) (by omega) (by omega)
    have hsrc := hm (oldAddr + (a - ret)) hzone
    rw [hmove.new.labels, if_neg hout, hlabel] at hsrc
    -- the host lets the monitor write to the new mapping, so the old one is not `PROT_NONE`
    have hnone : p.reg.protection ≠ protNone := by
      intro hnone
      have hwrite := (hpermit (a - ret) (by omega)).2
      have hshift : kmaOf g ret + (a - ret) = kmaOf g a := by
        simp only [kmaOf]
        omega
      rw [hshift, hprot a ha hin.1 (by omega), hnone] at hwrite
      exact hwrite (by decide)
    have hnew : ret ≤ a ∧ a < ret + size := ⟨hin.1, by omega⟩
    rw [hw a (hmove.new.hole a hnew.1 hnew.2), hmove.new.labels, if_pos hnew] at hc
    rw [movedTo, if_pos hnew, if_pos hin.2, hmove.new.labels, if_pos hnew]
    exact hP.copied _ _ p.reg.label _ hp.payload hnone hsrc _ _ hc
  rename_i hout
  have hmoved : movedTo w oldAddr oldSize ret size a = w a := by
    rw [movedTo]
    split
    next hin =>
      rw [if_neg (by omega), hw a (hmove.new.hole a hin.1 hin.2)]
    · rfl
  rw [hmoved]
  exact hc

def MmapOp.Grows (may : Label → Prop) (s : MmapState) : MmapOp → Prop
  | .mremap oldAddr oldSize size _ => roundup oldSize kmPageSize < roundup size kmPageSize →
      ∀ r ∈ s.busy, r.start ≤ oldAddr → oldAddr < r.stop →
        GrowsInPlace s.busy r oldAddr (roundup oldSize kmPageSize) (roundup size kmPageSize) →
        may r.label
  | _ => True

theorem MmapOp.grows_any (op : MmapOp) : op.Grows (fun _ => True) s := by
  cases op with
  | mremap oldAddr oldSize size flags => exact fun _ _ _ _ _ _ => trivial
  | _ => trivial

/-- In place, what was written keeps its value. -/
theorem tracked_of_mremap (hh : h.Steady) (hP : MoveLaw may P) (hw : Unwritten s.busy w)
    (hs : Sound g s s.busy) (hreal : RealAt s.busy)
    (hsized : roundup oldSize kmPageSize < roundup size kmPageSize →
      WellSized g s (roundup size kmPageSize))
    (hgrows : (MmapOp.mremap oldAddr oldSize size flags).Grows may s)
    (hr : kmGuestMremap g h s oldAddr oldSize size flags = some (s', ret))
    (hrun : HostRuns h file s m s' m') (hm : Tracked g P w v s.busy m) :
    ∃ u : Nat → UInt8, (ret = oldAddr ∨ isErrno ret → u = v ∧ ∀ a, w a → (if isErrno ret then w else
          movedTo w oldAddr (roundup oldSize kmPageSize) ret (roundup size kmPageSize)) a) ∧
      Tracked g P (if isErrno ret then w else
        movedTo w oldAddr (roundup oldSize kmPageSize) ret (roundup size kmPageSize)) u s'.busy m' := by
  have hadds : ∀ {p : Pos} {s1 : MmapState} {e : Nat},
      Remaps s p oldAddr (roundup oldSize kmPageSize) →
      roundup oldSize kmPageSize < roundup size kmPageSize →
      kmMmapAddRegion g h s (roundup size kmPageSize) p.reg.protection p.reg.flags (-1) .guest =
        some (s1, e) → ∃ m1, HostRuns h file s m s1 m1 ∧ Tracked g P w v s1.busy m1 ∧
        (isErrno e = false → ∀ a, Zone g a → e ≤ a → a < e + roundup size kmPageSize →
          (m1 (kmaOf g a)).prot = protectionAdjust p.reg.protection) := by
    intro p s1 e hp hless hadd
    exact tracked_of_addRegion hh hP.law hw
      (fun b v c c' k => hP.fresh _ _ p.reg.label _ hp.payload (hp.tracked hs hm) b v c c' file k) hs
      (hsized hless) (roundup_page size) hadd hm
  cases kmGuestMremap_end hs.whole hr with
  | refused he =>
    rw [if_pos he, (HostRun.refl h file _ m).unique hrun]
    exact ⟨v, fun _ => ⟨rfl, fun _ => id⟩, hm⟩
  | same heq =>
    rw [movedTo_same (le_of_eq heq.symm), ite_self, (HostRun.refl h file _ m).unique hrun]
    exact ⟨v, fun _ => ⟨rfl, fun _ => id⟩, hm⟩
  | @grown p _ hp hless hstop hroom hgrow =>
    have hzone := hs.zone_of_mem hp.mem hp.payload hp.lower hp.upper
    have hmay := hgrows hless p.reg hp.mem hp.lower hp.upper
      (growsInPlace_of_gap hs.whole hp hstop hroom.room)
    obtain ⟨m1, hrun1, hm1⟩ := tracked_of_grown hh hP hs hp hmay hless hstop hroom hgrow hm
    rw [if_neg (by rw [isErrno_of_le (le_of_lt hzone.2)]; decide), hrun1.unique hrun]
    refine ⟨v, fun _ => ⟨rfl, fun a ha => ?_⟩, hm1⟩
    rw [movedTo]
    split
    next hin =>
      split
      · rwa [Nat.add_sub_cancel' hin.1]
      -- nothing was mapped where the region grows
      rename_i hnew
      have hwhole : Whole g s p.toList := hp.list ▸ hs.whole
      have hnone := labelAt_eq_none.2 (hwhole.not_mapped_behind hroom.room a (by omega) (by omega))
      rw [hp.list] at hnone
      rw [hw a hnone] at ha
      cases ha
    · exact ha
  | @full p _ _ hp hless hfull he =>
    have hfixed := hs.whole.not_fixed hreal hp.mem hp.payload
    obtain ⟨m1, hrun1, hm1, -⟩ := hadds hp hless (kmGuestMmapNolock_anywhere hfixed hfull)
    rw [if_pos (by decide), hrun1.unique hrun]
    exact ⟨v, fun _ => ⟨rfl, fun _ => id⟩, hm1⟩
  | @moved p s1 _ _ src rc hp hless hroom hnew hok hsrc hmun hrc =>
    have hmove := hp.moving hs hreal (roundup_page size) (hsized hless) hless hnew hok hsrc hmun
    obtain ⟨m1, hrun1, hpermit, hrest⟩ := hmove.parts hh hs hp.page (roundup_page oldSize)
      (roundup_page size) (hsized hless) hrun
    obtain ⟨m2, hrun2, hm2, hprot⟩ := hadds hp hless hmove.add
    obtain rfl := hrun1.unique hrun2
    obtain ⟨u, hcopy⟩ := hmove.tracked_copy hP file hp hs hw hless hpermit (hprot hok) hm2
    obtain ⟨m3, hrun3, hm3⟩ := pages_of_munmapNolock hh ((PageLaw.tracked hP.law _ u).munmap _)
      (hmove.sound.call _) hp.page (roundup_page oldSize) hmove.munmap file hcopy
    refine ⟨u, ?_, ?_⟩
    · rintro (rfl | he)
      · have hlabel := labelAt_of_mem hs.whole.busy_sorted hp.mem hp.lower hp.upper
        rw [hmove.new.hole _ le_rfl (by omega)] at hlabel
        cases hlabel
      rw [hok] at he
      cases he
    rw [if_neg (by simp [hok]), hrun3.unique hrest]
    exact hm3
  | @shrunk p _ rc hp hless hfrom hlen hmun =>
    obtain ⟨m1, hrun1, hm1⟩ := pages_of_munmapNolock hh ((PageLaw.tracked hP.law w v).munmap _) hs
      hfrom hlen hmun file hm
    rw [hrun1.unique hrun]
    by_cases herr : isErrno rc
    · rw [if_pos herr, if_pos (by decide)]
      exact ⟨v, fun _ => ⟨rfl, fun _ => id⟩, hm1⟩
    rw [if_neg herr, movedTo_same (le_of_lt hless), ite_self]
    exact ⟨v, fun _ => ⟨rfl, fun _ => id⟩, hm1⟩

/-! ## Calls -/

def MmapOp.InPlace (g : Geometry) (h : Host) (s : MmapState) : MmapOp → Prop
  | .mprotect _ _ _ => True
  | .mremap oldAddr oldSize size flags => ∀ s' ret,
      kmGuestMremap g h s oldAddr oldSize size flags = some (s', ret) →
        ret = oldAddr ∨ isErrno ret
  | _ => False

def MmapOp.Makes (P : Bool → UInt8 → Option Label → Cell → Prop) (h : Host) (file : FileData)
    (s : MmapState) : MmapOp → Prop
  | .mmap gva size prot flags fd offset =>
    NewLaw P h file s.busy gva (roundup size kmPageSize) prot flags fd offset
  | .mmapSimple size => NewLaw P h file s.busy 0 (roundup size kmPageSize) (protRead ||| protWrite)
      (mapPrivate ||| mapAnonymous) (-1) 0
  | _ => True

/-- The step of a call. -/
theorem MmapOp.tracked {op : MmapOp} (hP : MoveLaw may P) (hh : h.Steady) (hpay : op.OfPayload)
    (hserved : op.Served g s) (hmem : op.MapsIntoBusy → ∀ n, h.ok n .calloc)
    (hwrap : op.Straight ∨ ∀ b v x c prot, P b v x c → P b v x (c.protect prot))
    (hgrows : op.Grows may s) (hmakes : op.Makes P h file s) (hw : Unwritten s.busy w)
    (hs : Settled g s) (hreal : RealAt s.busy) (hr : op.call g h s = some s')
    (hrun : HostRuns h file s m s' m') (hm : Tracked g P w v s.busy m) :
    ∃ u : Nat → UInt8, (op.InPlace g h s → u = v ∧ ∀ a, w a → op.written g h s w a) ∧
      Tracked g P (op.written g h s w) u s'.busy m' := by
  have hplain : op.Plain → op.written g h s w = w → ∃ u : Nat → UInt8, (op.InPlace g h s →
        u = v ∧ ∀ a, w a → op.written g h s w a) ∧
      Tracked g P (op.written g h s w) u s'.busy m' := by
    intro hplain hsame
    obtain ⟨m1, hrun1, hm1⟩ := pages_of_plain hplain hh (PageLaw.tracked hP.law w v) hs.sound hserved
      (hwrap.imp_right fun hany a => hany (w a) (v a)) hr file hm
    rw [hsame, hrun1.unique hrun]
    exact ⟨v, fun _ => ⟨rfl, fun _ => id⟩, hm1⟩
  cases op with
  | brk | munmap | delayedMunmap | mprotect => exact hplain trivial rfl
  | mmapSimple size =>
    obtain ⟨ret, hcall⟩ := map_fst_eq_some.1 hr
    obtain ⟨m1, hrun1, hm1⟩ := tracked_of_request hh hP.law hmakes
      (fun hbusy => absurd hbusy (by unfold Mmap.MapsIntoBusy; decide)) hw hs hreal (fun _ => hserved)
      (roundup_page size) (kmGuestMmapImpl_end hcall) hm
    refine ⟨v, fun hno => hno.elim, ?_⟩
    simp only [MmapOp.written, hcall]
    rw [hrun1.unique hrun]
    exact hm1
  | mmapSimpleMonitor size => exact hpay.elim
  | mmap gva size prot flags fd offset =>
    obtain ⟨ret, hcall⟩ := map_fst_eq_some.1 hr
    obtain ⟨m1, hrun1, hm1⟩ := tracked_of_request hh hP.law hmakes hmem hw hs hreal hserved
      (roundup_page size) (kmGuestMmapImpl_end hcall) hm
    refine ⟨v, fun hno => hno.elim, ?_⟩
    simp only [MmapOp.written, hcall]
    rw [hrun1.unique hrun]
    exact hm1
  | mremap oldAddr oldSize size flags =>
    obtain ⟨⟨s1, ret⟩, hcall, rfl⟩ := Option.map_eq_some_iff.1 hr
    obtain ⟨u, hsame, hu⟩ := tracked_of_mremap hh hP hw hs.sound hreal hserved hgrows hcall hrun hm
    simp only [MmapOp.written, hcall]
    exact ⟨u, fun hplace => hsame (hplace s1 ret hcall), hu⟩

end

end KontainMonitor.Mmap
