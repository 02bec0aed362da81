import KontainMonitor.Mmap.Addresses

/-!
# Delayed — a thread that unmaps its own stack

`km_guest_munmap` only notes a range with the caller's stack in it, one for each vcpu, and
`km_delayed_munmap` unmaps the range when the thread exits, whatever is mapped there by then.
The calls of all vcpus come in any order.  Two ghosts are kept for each vcpu: the addresses that it
asked to unmap and that are still mapped since, and the addresses that were mapped again after it
asked.
-/

namespace KontainMonitor.Mmap

open Function Intervals Mem Option Transition

/-! ## What stays mapped -/

/-- No range is noted or forgotten, and what is outside of `P` stays mapped. -/
structure Leaves (P : Nat → Prop) (s s' : MmapState) : Prop where
  mapself : s'.mapself = s.mapself
  mapped : ∀ a, ¬ P a → Mapped s.busy a → Mapped s'.busy a

variable {l : List Reg} {a addr gva : Nat} {prot flags : BitVec 32} {fd offset : Int}

section

variable {g : Geometry} {h : Host} {s s' : MmapState} {reg : Reg} {size ret : Nat}
  {P Q : Nat → Prop}
variable {hostfd : Int}
variable {p : Pos} {oldAddr : Nat}

theorem Leaves.refl (P : Nat → Prop) (s : MmapState) : Leaves P s s := ⟨rfl, fun _ _ ha => ha⟩

theorem Leaves.trans {s1 s2 s3 : MmapState} (h1 : Leaves P s1 s2) (h2 : Leaves P s2 s3) :
    Leaves P s1 s3 :=
  ⟨h2.mapself.trans h1.mapself, fun a hP ha => h2.mapped a hP (h1.mapped a hP ha)⟩

theorem Leaves.weaken (hl : Leaves P s s') (hPQ : ∀ a, P a → Q a) : Leaves Q s s' :=
  ⟨hl.mapself, fun a hQ ha => hl.mapped a (fun hP => hQ (hPQ a hP)) ha⟩

theorem Leaves.call (P : Nat → Prop) (s : MmapState) (c : HostCall) : Leaves P s (s.call c) :=
  ⟨rfl, fun _ _ ha => ha⟩

theorem labelAt_ne_none : labelAt l a ≠ none ↔ Mapped l a := by
  rw [Ne, labelAt_eq_none, not_not]

theorem settleFree_mapself (hr : settleFree g h s p = some s') : s'.mapself = s.mapself := by
  simp only [settleFree] at hr
  split at hr
  · simp only [do_eq_some, return_eq_some] at hr
    rcases hr with ⟨-, -, rfl⟩
    rfl
  cases hr
  rfl

theorem kmMmapInsertFree_mapself (hr : kmMmapInsertFree g h s reg = some s') :
    s'.mapself = s.mapself := by
  simp only [kmMmapInsertFree, kmMmapInsert, do_eq_some, return_eq_some] at hr
  rcases hr with ⟨-, ⟨q, -, rfl⟩, hr⟩
  exact (settleFree_mapself hr).trans (kmMmapMprotectRegion_logged g s _).quiet.mapself

theorem kmMmapMoveToFree_mapself (hr : kmMmapMoveToFree g h s reg = some s') :
    s'.mapself = s.mapself := by
  simp only [kmMmapMoveToFree] at hr
  split at hr
  · exact (kmMmapInsertFree_mapself hr :)
  · exact kmMmapInsertFree_mapself hr

theorem kmMmapInsertBusy_mapself (hr : kmMmapInsertBusy g s reg = some s') :
    s'.mapself = s.mapself := by
  simp only [kmMmapInsertBusy, kmMmapInsert, do_eq_some, return_eq_some] at hr
  rcases hr with ⟨-, ⟨q, -, rfl⟩, rfl⟩
  exact (kmMmapMprotectRegion_logged g s _).quiet.mapself

theorem takeRegion_mapself {t : Taken} (ht : takeRegion g h s size = some t) :
    t.state.mapself = s.mapself := by
  simp only [takeRegion] at ht
  split at ht
  · split at ht
    · split at ht
      · cases ht
        rfl
      cases ht
      rfl
    simp only [do_eq_some, return_eq_some] at ht
    rcases ht with ⟨-, -, rfl⟩
    rfl
  split at ht
  · simp only [do_eq_some] at ht
    rcases ht with ⟨⟨mem, r⟩, -, ht⟩
    split at ht
    · cases ht
      rfl
    cases ht
    rfl
  cases ht
  rfl

theorem kmMmapChangeRegionSharing_mapself (g : Geometry) (h : Host) (s : MmapState) (reg : Reg)
    (existing desired : BitVec 32) (hostfd : Int) :
    (kmMmapChangeRegionSharing g h s reg existing desired hostfd).1.mapself = s.mapself := by
  simp only [kmMmapChangeRegionSharing]
  split <;> rfl

theorem kmMmapAddRegion_mapself {type : AllocationType}
    (hr : kmMmapAddRegion g h s size prot flags hostfd type = some (s', ret)) :
    s'.mapself = s.mapself := by
  simp only [kmMmapAddRegion, do_eq_some] at hr
  rcases hr with ⟨t, ht, hr⟩
  have hself := takeRegion_mapself ht
  cases t with
  | error s1 e =>
    cases hr
    exact hself
  | region s1 reg existing =>
    have hshare := kmMmapChangeRegionSharing_mapself g h s1 (reg.relabelled prot flags type) existing
      flags hostfd
    simp only at hr
    split at hr
    next hchange =>
      simp only [do_eq_some, return_eq_some, Prod.mk.injEq] at hr
      rcases hr with ⟨s3, hins, rfl, -⟩
      rw [hchange] at hshare
      exact ((kmMmapInsertFree_mapself hins).trans hshare).trans hself
    rename_i hchange
    simp only [do_eq_some, return_eq_some, Prod.mk.injEq] at hr
    rcases hr with ⟨s3, hins, rfl, -⟩
    rw [hchange] at hshare
    exact ((kmMmapInsertBusy_mapself hins).trans hshare).trans hself

/-! ## Walks -/

/-- What a walk leaves mapped: all that is outside of the range, and all if it does not unmap. -/
theorem leaves_walkRule (action : Action) (mreg : Reg) (s : MmapState) :
    WalkRule g h action mreg fun st l => st.mapself = s.mapself ∧
      ∀ a, ¬ (action = .moveToFree ∧ mreg.start ≤ a ∧ a < mreg.fin) → Mapped s.busy a →
        labelAt l a ≠ none where
  busy _ _ _ hi := hi
  calloc _ _ hi := hi
  cut st xs r ys c _ _ _ hlo hhi hi := by
    refine ⟨hi.1, fun a hout ha => ?_⟩
    rw [labelAt_append, labelAt_splitAt hlo hhi, ← labelAt_append]
    exact hi.2 a hout ha
  freed st xs r ys st' hact hw hr hlo hhi hi hfree := by
    refine ⟨(kmMmapMoveToFree_mapself hfree).trans hi.1, fun a hout ha => ?_⟩
    rw [labelAt_remove hw.busy_sorted, if_neg]
    · exact hi.2 a hout ha
    intro hin
    exact hout ⟨hact, le_trans hlo hin.1, lt_of_lt_of_le hin.2 hhi⟩
  merged st left r right hact hw hr hlo hhi hi := by
    obtain ⟨hq, hext⟩ := action.treat_spec mreg r
    have hnew : Whole g st
        (Pos.toList { left := left, reg := (action.treat g mreg st r).2, right := right }) :=
      hw.relabel hext
    refine ⟨hq.mapself.trans hi.1, fun a hout ha => ?_⟩
    rw [labelAt_concat hnew, Pos.toList, labelAt_relabel hw.busy_sorted hext]
    split
    · exact some_ne_none _
    · exact hi.2 a hout ha

theorem leaves_of_walk {action : Action} {clean : Bool} {rc : Nat} (haddr : addr % kmPageSize = 0)
    (hsize : size % kmPageSize = 0) (hs : Whole g s s.busy)
    (hr : kmMmapBusyRangeApply g h s (rangeReg addr size prot clean) action = some (s', rc)) :
    Leaves (fun a => action = .moveToFree ∧ addr ≤ a ∧ a < u64 (addr + size)) s s' := by
  obtain ⟨hself, hkeep⟩ := kmMmapBusyRangeApply_rule hr (leaves_walkRule action _ s) haddr hsize hs
    ⟨rfl, fun a _ ha => labelAt_ne_none.2 ha⟩
  exact ⟨hself, fun a hout ha => labelAt_ne_none.1 (hkeep a hout ha)⟩

theorem leaves_of_munmapNolock (hs : Whole g s s.busy) (haddr : addr % kmPageSize = 0)
    (hsize : size % kmPageSize = 0) (hwrap : addr + size < 2 ^ 64)
    (hr : kmGuestMunmapNolock g h s addr size = some (s', ret)) :
    Leaves (fun a => addr ≤ a ∧ a < addr + size) s s' := by
  refine (leaves_of_walk haddr hsize hs hr).weaken fun a hin => ?_
  rw [u64, Nat.mod_eq_of_lt hwrap] at hin
  exact hin.2

/-! ## New mappings -/

theorem leaves_of_addRegion (hs : Sound g s s.busy) (hsized : WellSized g s size)
    (hpage : size % kmPageSize = 0)
    (hr : kmMmapAddRegion g h s size prot flags hostfd .guest = some (s', ret)) :
    Leaves (fun _ => False) s s' ∧
      (isErrno ret = false → ∀ a, ret ≤ a → a < ret + size → ¬ Mapped s.busy a) := by
  obtain ⟨-, hres⟩ := kmMmapAddRegion_took hs hsized hpage hr
  refine ⟨⟨kmMmapAddRegion_mapself hr, fun a _ ha => ?_⟩, fun hret a hlo hhi => ?_⟩
  · rcases hres with ⟨-, hbusy⟩ | hnew
    · exact hbusy ▸ ha
    rw [← labelAt_ne_none, hnew.labels]
    split
    · exact some_ne_none _
    · exact labelAt_ne_none.2 ha
  rcases hres with ⟨herr, -⟩ | hnew
  · rw [herr] at hret
    cases hret
  · exact labelAt_eq_none.1 (hnew.hole a hlo hhi)

theorem leaves_of_mapIntoBusy (hs : Sound g s s.busy) (hpage : size % kmPageSize = 0)
    (hr : mapIntoBusy g h s gva size prot flags fd hostfd offset = some (s', ret)) :
    Leaves (fun _ => False) s s' ∧ (isErrno ret = false → ret = gva) := by
  cases mapIntoBusy_end hr with
  | refused hkma hno =>
    refine ⟨.call _ s _, fun hret => ?_⟩
    rw [Host.isErrno_failure] at hret
    cases hret
  | @stuck kma rc s1 hkma hok hgva hpass hrc =>
    have hcall := hs.call (mapCall kma size prot flags hostfd offset)
    have hwalk := (leaves_of_walk hgva hpage hcall.whole hpass).weaken
      (Q := fun _ => False) fun a hin => by cases hin.1
    refine ⟨(Leaves.call _ s _).trans hwalk, fun hret => ?_⟩
    -- the walk fails only for want of memory
    rcases rangeApply_total h prot (hostfd < 0) .regionCleanConcat hgva hpage hcall with
      ⟨t, e, ht, -, hor⟩
    have heq := hpass.symm.trans ht
    rw [some_mk_inj] at heq
    rcases hor with h0 | ⟨he, -⟩
    · exact absurd (heq.2.trans h0) hrc
    rw [heq.2, he] at hret
    exact absurd hret (by decide)
  | @done kma s1 p reg hkma hok hgva hpass hlist hstart hsize hreg hkm =>
    have hcall := hs.call (mapCall kma size prot flags hostfd offset)
    have hwalk := (leaves_of_walk hgva hpage hcall.whole hpass).weaken
      (Q := fun _ => False) fun a hin => by cases hin.1
    have hs1 := (sound_of_walk hgva hpage hcall hpass).whole
    rw [← hlist] at hs1
    have hext := hreg.sameExtent hstart hsize hkm
    have hnew : Whole g s1 (Pos.toList { p with reg := reg }) := hs1.relabel hext
    refine ⟨(Leaves.call _ s _).trans (hwalk.trans ⟨rfl, fun a _ ha => ?_⟩), fun _ => rfl⟩
    rw [← labelAt_ne_none]
    simp only
    rw [labelAt_concat hnew, Pos.toList, labelAt_relabel hs1.busy_sorted hext]
    split
    · exact some_ne_none _
    rw [← hlist] at ha
    exact labelAt_ne_none.2 ha

/-- A new mapping unmaps nothing, and takes what was not mapped unless its place is given. -/
theorem RequestEnd.leaves (hr : RequestEnd g h s gva size prot flags fd offset .guest s' ret)
    (hs : Sound g s s.busy) (hsized : flags &&& mapFixed ≠ mapFixed → WellSized g s size)
    (hpage : size % kmPageSize = 0) : Leaves (fun _ => False) s s' ∧ (isErrno ret = false →
      (flags &&& mapFixed = mapFixed ∧ kmMmapBusyCheckContiguous s.busy gva size ∧
        ret = gva) ∨ ∀ a, ret ≤ a → a < ret + size → ¬ Mapped s.busy a) := by
  cases hr with
  | refused he =>
    refine ⟨.refl _ _, fun hret => ?_⟩
    rw [he] at hret
    cases hret
  | into hfixed hcheck hm =>
    obtain ⟨hleaves, hret⟩ := leaves_of_mapIntoBusy hs hpage hm
    exact ⟨hleaves, fun hne => .inl ⟨hfixed, hcheck, hret hne⟩⟩
  | taken hfixed hadd hend =>
    obtain ⟨hleaves, hhole⟩ := leaves_of_addRegion hs (hsized hfixed) hpage hadd
    exact ⟨hleaves, fun hne => .inr (hhole hne)⟩
  | @filled s1 _ _ _ hfixed hadd hok hfd hm =>
    obtain ⟨hleaves, hhole⟩ := leaves_of_addRegion hs (hsized hfixed) hpage hadd
    have hs1 : Kept g True s s1 := kept_of_addRegion hs hfixed (hsized hfixed) hpage hadd
    obtain ⟨hleaves', hret⟩ := leaves_of_mapIntoBusy hs1.sound hpage hm
    refine ⟨hleaves.trans hleaves', fun hne => .inr ?_⟩
    rw [hret hne]
    exact hhole hok

/-! ## Moves -/

/-- The larger place of a mapping that moves: address 0 is never a place that is given. -/
theorem leaves_of_anywhere (hs : Sound g s s.busy) (hsized : WellSized g s size)
    (hpage : size % kmPageSize = 0) (hlt : size < 2 ^ 64)
    (hr : kmGuestMmapNolock g h s 0 size prot flags (-1) 0 .guest = some (s', ret)) :
    Leaves (fun _ => False) s s' ∧ (isErrno ret = false →
      ∀ a, ret ≤ a → a < ret + size → ¬ Mapped s.busy a) := by
  obtain ⟨hleaves, hret⟩ := (kmGuestMmapNolock_end hr).leaves hs (fun _ => hsized) hpage
  refine ⟨hleaves, fun hne => (hret hne).resolve_left ?_⟩
  rintro ⟨-, hcheck, -⟩
  rw [not_contiguous_zero hs hsized.pos hlt] at hcheck
  cases hcheck

theorem leaves_of_growInPlace {needed : Nat} (hs : Whole g s p.toList) (hp : p.toList = s.busy)
    (hpay : p.reg.ofMonitor = false) (hroom : HasRoom p needed)
    (hr : mremapGrowInPlace g s p oldAddr needed = some (s', ret)) : Leaves (fun _ => False) s s' ∧
      ∀ a, p.reg.stop ≤ a → a < p.reg.stop + needed → ¬ Mapped s.busy a := by
  have hpart := Reg.payload_part hpay
  obtain ⟨-, hlogged, hlabels⟩ := mremapGrowInPlace_labelAt hs hpart hroom hr
  refine ⟨⟨hlogged.quiet.mapself, fun a _ ha => ?_⟩, fun a hlo hhi => ?_⟩
  · rw [← labelAt_ne_none, hlabels, hp]
    split
    · exact some_ne_none _
    · exact labelAt_ne_none.2 ha
  rw [← hp]
  exact hs.not_mapped_behind hroom.room a hlo hhi

/-- What `mremap` maps: the part behind the old mapping, or the place it moves to. -/
def remapped (oldAddr oldSize size ret a : Nat) : Prop :=
  if ret = oldAddr then oldAddr + oldSize ≤ a ∧ a < oldAddr + size else ret ≤ a ∧ a < ret + size

instance (oldAddr oldSize size ret a : Nat) : Decidable (remapped oldAddr oldSize size ret a) :=
  by unfold remapped; infer_instance

theorem leaves_of_mremap {oldSize : Nat} (hs : Sound g s s.busy)
    (hsized : roundup oldSize kmPageSize < roundup size kmPageSize →
      WellSized g s (roundup size kmPageSize))
    (hwrap : oldAddr + roundup oldSize kmPageSize < 2 ^ 64)
    (hr : kmGuestMremap g h s oldAddr oldSize size flags = some (s', ret)) :
    Leaves (fun a => oldAddr ≤ a ∧ a < oldAddr + roundup oldSize kmPageSize) s s' ∧
      (isErrno ret = false → ∀ a,
        remapped oldAddr (roundup oldSize kmPageSize) (roundup size kmPageSize) ret a →
          ¬ Mapped s.busy a) := by
  cases kmGuestMremap_end hs.whole hr with
  | refused he =>
    refine ⟨.refl _ _, fun hret => ?_⟩
    rw [he] at hret
    cases hret
  | same heq =>
    refine ⟨.refl _ _, fun _ a hin => ?_⟩
    rw [remapped, if_pos rfl] at hin
    omega
  | grown hp hless hstop hroom hm =>
    have hwhole : Whole g s _ := hp.list ▸ hs.whole
    obtain ⟨hleaves, hhole⟩ := leaves_of_growInPlace hwhole hp.list hp.payload hroom hm
    refine ⟨hleaves.weaken fun _ hf => hf.elim, fun _ a hin => ?_⟩
    rw [remapped, if_pos rfl] at hin
    exact hhole a (by omega) (by omega)
  | full hp hless hm he =>
    refine ⟨(leaves_of_anywhere hs (hsized hless) (roundup_page size) (roundup_lt size) hm).1.weaken
      fun _ hf => hf.elim, fun hret => ?_⟩
    exact absurd hret (by decide)
  | @moved p s1 _ _ src rc hp hless hroom hm hok hsrc hmun hrc =>
    obtain ⟨hleaves, hhole⟩ := leaves_of_anywhere hs (hsized hless) (roundup_page size)
      (roundup_lt size) hm
    rcases mmapNolock_anywhere_returns h p.reg.protection p.reg.flags hs (hsized hless)
      (roundup_page size) (roundup_lt size) with ⟨t, r, hm', hs1, -⟩
    cases hm.symm.trans hm'
    have hcall := hs1.call
      (.memcpy ((kmGvaToKma g s1.mem ret).getD 0) src (roundup oldSize kmPageSize))
    have hcut := leaves_of_munmapNolock hcall.whole hp.page (roundup_page oldSize) hwrap hmun
    refine ⟨(hleaves.weaken fun _ hf => hf.elim).trans ((Leaves.call _ s1 _).trans hcut),
      fun hret a hin => ?_⟩
    -- the old mapping is there, and the new one is in a hole
    have hne : ret ≠ oldAddr := by
      intro heq
      refine hhole hret oldAddr (by omega) (by omega) ⟨p.reg, ?_, hp.lower, hp.upper⟩
      simp [← hp.list, Pos.toList]
    rw [remapped, if_neg hne] at hin
    exact hhole hret a hin.1 hin.2
  | shrunk hp hless hfrom hlen hmun =>
    have hfit : u64 (oldAddr + roundup size kmPageSize) = oldAddr + roundup size kmPageSize :=
      Nat.mod_eq_of_lt (by omega)
    rw [hfit] at hmun hfrom
    refine ⟨(leaves_of_munmapNolock hs.whole hfrom hlen (by omega) hmun).weaken
      fun a hin => ⟨by omega, by omega⟩, fun hret a hin => ?_⟩
    split at hin
    next herr =>
      rw [if_pos herr] at hret
      exact absurd hret (by decide)
    rw [remapped, if_pos rfl] at hin
    omega

end

/-! ## The system -/

def payloadAt (l : List Reg) (a : Nat) : Bool := (labelAt l a).any fun x => !x.ofMonitor

/-- The state with what the vcpus asked for.  `asked v a`: vcpu `v` asked to unmap `a`, which has
been mapped ever since.  `again v a`: `a` was mapped after vcpu `v` last asked to unmap it. -/
structure Duties where
  mm : MmapState
  asked : Nat → Nat → Bool
  again : Nat → Nat → Bool

def MmapOp.asks : MmapOp → Nat → Nat → Bool
  | .munmap vcpu _ addr size, v, a =>
    vcpu = v && mumapCheckParams addr (roundup size kmPageSize) = 0 &&
      addr ≤ a && a < addr + roundup size kmPageSize
  | _, _, _ => false

def MmapOp.maps (g : Geometry) (h : Host) (s : MmapState) : MmapOp → Nat → Bool
  | .mmapSimple size, a => (kmGuestMmapSimple g h s size).any fun r =>
    !isErrno r.2 && r.2 ≤ a && a < r.2 + roundup size kmPageSize
  | .mmap gva size prot flags fd offset, a =>
    (kmGuestMmap g h s gva size prot flags fd offset).any fun r =>
      !isErrno r.2 && r.2 ≤ a && a < r.2 + roundup size kmPageSize
  | .mremap oldAddr oldSize size flags, a =>
    (kmGuestMremap g h s oldAddr oldSize size flags).any fun r =>
      !isErrno r.2 &&
        remapped oldAddr (roundup oldSize kmPageSize) (roundup size kmPageSize) r.2 a
  | _, _ => false

def Duties.next (g : Geometry) (h : Host) (w : Duties) (op : MmapOp) (s' : MmapState) : Duties where
  mm := s'
  asked v a := (op.asks v a || w.asked v a) && payloadAt s'.busy a
  again v a := !op.asks v a && (op.maps g h w.mm a || w.again v a)

/-- The payload's calls, of all vcpus in any order. -/
def dutySystem (g : Geometry) : System Duties (Host × MmapOp) where
  init w := (payloadSystem g).init w.mm ∧ (∀ v a, w.asked v a = false) ∧ ∀ v a, w.again v a = false
  step w a w' := ∃ s', (payloadSystem g).step w.mm a s' ∧ w' = w.next g a.1 a.2 s'

/-- The range has nothing in common with the ranges that are noted. -/
def Clear (s : MmapState) (addr size : Nat) : Prop :=
  ∀ u, addr + size ≤ (s.mapself u).base ∨ (s.mapself u).base + (s.mapself u).size ≤ addr

/-- A thread unmaps its own stack once, the range is all mapped, nobody else touches it, and the
host has memory to unmap. -/
def MmapOp.Careful (h : Host) (s : MmapState) : MmapOp → Prop
  | .munmap vcpu stackTop addr size => mumapCheckParams addr (roundup size kmPageSize) = 0 →
      addr + roundup size kmPageSize < 2 ^ 64 ∧ Clear s addr (roundup size kmPageSize) ∧
      if addr ≤ stackTop ∧ stackTop < addr + roundup size kmPageSize then
        (s.mapself vcpu).size = 0 ∧ PayloadMapped s.busy addr (roundup size kmPageSize)
      else ∀ n, h.ok n .calloc
  | .delayedMunmap _ => ∀ n, h.ok n .calloc
  | .mmap gva size _ flags _ _ => flags &&& mapFixed = mapFixed →
      Clear s gva (roundup size kmPageSize)
  | .mremap oldAddr oldSize _ _ => oldAddr + roundup oldSize kmPageSize < 2 ^ 64 ∧
      Clear s oldAddr (roundup oldSize kmPageSize)
  | _ => True

def carefulSystem (g : Geometry) : System Duties (Host × MmapOp) :=
  (dutySystem g).restrict fun w a _ => a.2.Served g w.mm ∧ a.2.Careful a.1 w.mm

/-- The addresses that `km_delayed_munmap` will unmap. -/
def Noted (s : MmapState) (v a : Nat) : Prop :=
  (s.mapself v).base ≤ a ∧ a < (s.mapself v).base + (s.mapself v).size

structure Dutiful (g : Geometry) (w : Duties) : Prop where
  settled : Settled g w.mm
  unused : ∀ v, (w.mm.mapself v).size = 0 → (w.mm.mapself v).base = 0
  no_wrap : ∀ v, (w.mm.mapself v).base + (w.mm.mapself v).size < 2 ^ 64
  covered : ∀ v a, Noted w.mm v a → payloadAt w.mm.busy a
  apart : ∀ u v a, Noted w.mm u a → Noted w.mm v a → u = v
  old : ∀ v a, Noted w.mm v a → w.again v a = false
  noted : ∀ v a, w.asked v a → Noted w.mm v a

section

variable {g : Geometry} {h : Host} {s s' : MmapState} {w : Duties} {size ret : Nat}
variable {v vcpu : Nat} {mem : Prop} {op : MmapOp}
variable {stackTop : Nat}

theorem payloadAt_iff : payloadAt l a ↔ Mapped l a ∧ monitorAt l a = false := by
  rw [← labelAt_ne_none, payloadAt, monitorAt]
  cases labelAt l a with
  | none => simp
  | some x => simp

theorem PayloadMapped.payloadAt (hsorted : Apart 0 l) (hm : PayloadMapped l addr size)
    (hlo : addr ≤ a) (hhi : a < addr + size) : payloadAt l a := by
  rcases hm a hlo hhi with ⟨r, hr, hra, har, hpay⟩
  have hlabel : r.label.ofMonitor = false := hpay
  rw [Mmap.payloadAt, labelAt_of_mem hsorted hr hra har, any_some, hlabel]
  rfl

theorem Clear.not_noted (hc : Clear s addr size) (hlo : addr ≤ a) (hhi : a < addr + size) :
    ¬ Noted s v a := by
  rintro ⟨hbase, hstop⟩
  rcases hc v with hc | hc
  · omega
  · omega

theorem Kept.payloadAt (hk : Kept g mem s s') (hmapped : Mapped s.busy a → Mapped s'.busy a)
    (ha : payloadAt s.busy a) : payloadAt s'.busy a := by
  rw [payloadAt_iff] at ha ⊢
  exact ⟨hmapped ha.1, (hk.monitor a).trans ha.2⟩

/-! ## Steps -/

/-- A call that notes nothing, unmaps nothing that is noted and maps only what is not.  What it is
asked to unmap is unmapped. -/
theorem Dutiful.leaves {P : Nat → Prop} (hw : Dutiful g w) (hk : Kept g mem w.mm s')
    (hl : Leaves P w.mm s') (hP : ∀ v a, Noted w.mm v a → ¬ P a)
    (hasks : ∀ v a, op.asks v a → payloadAt s'.busy a = false)
    (hmaps : ∀ v a, Noted w.mm v a → op.maps g h w.mm a = false) :
    Dutiful g (w.next g h op s') := by
  have hnoted : ∀ v a, Noted s' v a ↔ Noted w.mm v a := by
    intro v a
    rw [Noted, Noted, hl.mapself]
  refine ⟨hw.settled.kept hk, ?_, ?_, fun v a hn => ?_, fun u v a hu hv => ?_, fun v a hn => ?_,
    fun v a ha => ?_⟩
  · simp only [Duties.next, hl.mapself]
    exact hw.unused
  · simp only [Duties.next, hl.mapself]
    exact hw.no_wrap
  · have hn := (hnoted v a).1 hn
    exact hk.payloadAt (hl.mapped a (hP v a hn)) (hw.covered v a hn)
  · exact hw.apart u v a ((hnoted u a).1 hu) ((hnoted v a).1 hv)
  · have hn := (hnoted v a).1 hn
    simp [Duties.next, hmaps v a hn, hw.old v a hn]
  simp only [Duties.next, Bool.or_eq_true, Bool.and_eq_true] at ha
  rcases ha with ⟨hask | hold, hthere⟩
  · rw [hasks v a hask] at hthere
    cases hthere
  · exact (hnoted v a).2 (hw.noted v a hold)

/-- A call that sets what is noted for one vcpu: it was asked to unmap that, and what the vcpu asked
for and is still there is noted. -/
theorem Dutiful.note {m : MapSelf} (hw : Dutiful g w) (hk : Kept g mem w.mm s')
    (hself : s'.mapself = update w.mm.mapself vcpu m) (hzero : m.size = 0 → m.base = 0)
    (hwrap : m.base + m.size < 2 ^ 64)
    (hnew : ∀ a, m.base ≤ a → a < m.base + m.size → payloadAt s'.busy a ∧
      op.asks vcpu a ∧ ∀ u, ¬ Noted w.mm u a)
    (hkeep : ∀ u a, u ≠ vcpu → Noted w.mm u a → payloadAt s'.busy a)
    (hmaps : ∀ a, op.maps g h w.mm a = false)
    (hduty : ∀ a, op.asks vcpu a ∨ w.asked vcpu a → payloadAt s'.busy a →
      m.base ≤ a ∧ a < m.base + m.size) (hasks : ∀ u a, u ≠ vcpu → op.asks u a = false) :
    Dutiful g (w.next g h op s') := by
  have hone : s'.mapself vcpu = m := by rw [hself, update_self]
  have hother : ∀ u, u ≠ vcpu → s'.mapself u = w.mm.mapself u := by
    intro u hu
    rw [hself, update_of_ne hu]
  have hthis : ∀ a, Noted s' vcpu a ↔ m.base ≤ a ∧ a < m.base + m.size := by
    intro a
    rw [Noted, hone]
  have hrest : ∀ u a, u ≠ vcpu → (Noted s' u a ↔ Noted w.mm u a) := by
    intro u a hu
    rw [Noted, Noted, hother u hu]
  refine ⟨hw.settled.kept hk, fun u => ?_, fun u => ?_, fun u a hn => ?_, fun u v a hnu hnv => ?_,
    fun u a hn => ?_, fun u a ha => ?_⟩
  · by_cases hu : u = vcpu
    · subst hu
      simpa only [Duties.next, hone] using hzero
    · simpa only [Duties.next, hother u hu] using hw.unused u
  · by_cases hu : u = vcpu
    · subst hu
      simpa only [Duties.next, hone] using hwrap
    · simpa only [Duties.next, hother u hu] using hw.no_wrap u
  · by_cases hu : u = vcpu
    · subst hu
      obtain ⟨hlo, hhi⟩ := (hthis a).1 hn
      exact (hnew a hlo hhi).1
    · exact hkeep u a hu ((hrest u a hu).1 hn)
  · -- the new range has nothing in common with the old ones
    have hnone : Noted s' vcpu a → ∀ u, ¬ Noted w.mm u a := fun hn =>
      (hnew a ((hthis a).1 hn).1 ((hthis a).1 hn).2).2.2
    by_cases hu : u = vcpu
    · by_cases hv : v = vcpu
      · rw [hu, hv]
      · exact absurd ((hrest v a hv).1 hnv) (hnone (hu ▸ hnu) v)
    by_cases hv : v = vcpu
    · exact absurd ((hrest u a hu).1 hnu) (hnone (hv ▸ hnv) u)
    · exact hw.apart u v a ((hrest u a hu).1 hnu) ((hrest v a hv).1 hnv)
  · by_cases hu : u = vcpu
    · subst hu
      obtain ⟨hlo, hhi⟩ := (hthis a).1 hn
      simp [Duties.next, (hnew a hlo hhi).2.1]
    · simp [Duties.next, hmaps, hw.old u a ((hrest u a hu).1 hn)]
  simp only [Duties.next, Bool.or_eq_true, Bool.and_eq_true] at ha
  by_cases hu : u = vcpu
  · subst hu
    exact (hthis a).2 (hduty a ha.1 ha.2)
  rw [hasks u a hu] at ha
  exact (hrest u a hu).2 (hw.noted u a (ha.1.resolve_left Bool.false_ne_true))

/-- What a successful unmapping leaves of the range. -/
theorem munmapNolock_gone (hs : Whole g s s.busy) (haddr : addr % kmPageSize = 0)
    (hsize : size % kmPageSize = 0) (hwrap : addr + size < 2 ^ 64)
    (hr : kmGuestMunmapNolock g h s addr size = some (s', 0)) (hlo : addr ≤ a)
    (hhi : a < addr + size) : payloadAt s'.busy a = false := by
  have hview := congrFun (kmGuestMunmapNolock_view hs haddr hsize hwrap hr) a
  simp only [MmapState.view, withoutRange] at hview
  rw [payloadAt]
  cases hx : labelAt s'.busy a with
  | none => rfl
  | some x =>
    -- what is still there is the monitor's
    rw [hx] at hview
    cases hy : labelAt s.busy a with
    | none =>
      rw [hy] at hview
      cases hview
    | some y =>
      simp only [hy, map_some, bind_some] at hview
      split at hview
      · cases hview
      rename_i hmon
      rw [Option.some.injEq] at hview
      simp only [hlo, hhi, true_and, Bool.not_eq_false, ← hview, Label.view_ofMonitor] at hmon
      simp [hmon]

theorem munmapNolock_succeeds (hs : Sound g s s.busy) (haddr : addr % kmPageSize = 0)
    (hsize : size % kmPageSize = 0) (hmem : ∀ n, h.ok n .calloc) :
    ∃ s', kmGuestMunmapNolock g h s addr size = some (s', 0) := by
  rcases rangeApply_total h protNone false .moveToFree haddr hsize hs with
    ⟨s', rc, hr, -, rfl | ⟨-, n, hno⟩⟩
  · exact ⟨s', hr⟩
  rw [hmem n] at hno
  cases hno

theorem MmapOp.asks_munmap (hask : (MmapOp.munmap vcpu stackTop addr size).asks v a) :
    vcpu = v ∧ mumapCheckParams addr (roundup size kmPageSize) = 0 ∧ addr ≤ a ∧
      a < addr + roundup size kmPageSize := by
  simp only [MmapOp.asks, Bool.and_eq_true, decide_eq_true_eq] at hask
  exact ⟨hask.1.1.1, hask.1.1.2, hask.1.2, hask.2⟩

/-- How a careful `munmap` ends. -/
theorem munmap_careful (hw : Dutiful g w)
    (hcare : (MmapOp.munmap vcpu stackTop addr size).Careful h w.mm) :
    ∃ s' ret, kmGuestMunmap g h w.mm vcpu stackTop addr size = some (s', ret) ∧
      Dutiful g (w.next g h (.munmap vcpu stackTop addr size) s') := by
  have hsound := hw.settled.sound
  have hmaps : ∀ a, (MmapOp.munmap vcpu stackTop addr size).maps g h w.mm a = false := fun _ => rfl
  by_cases hcheck : mumapCheckParams addr (roundup size kmPageSize) = 0
  · obtain ⟨hwrap, hclear, hown⟩ := hcare hcheck
    have haddr := mumapCheckParams_page hcheck
    have hfit : u64 (addr + roundup size kmPageSize) = addr + roundup size kmPageSize :=
      Nat.mod_eq_of_lt hwrap
    by_cases hstack : addr ≤ stackTop ∧ stackTop < addr + roundup size kmPageSize
    · -- the range is noted
      rw [if_pos hstack] at hown
      have hbase := hw.unused vcpu hown.1
      let v' : MapSelf := { base := addr, size := roundup size kmPageSize }
      let s1 : MmapState := { w.mm with mapself := update w.mm.mapself vcpu v' }
      have hr : kmGuestMunmap g h w.mm vcpu stackTop addr size = some (s1, 0) := by
        simp only [kmGuestMunmap, hcheck, ne_eq, not_true_eq_false, if_false, hfit, if_pos hstack,
          kmAssert_pos (And.intro hbase hown.1)]
        rfl
      refine ⟨s1, 0, hr, hw.note (kept_of_munmap hsound hr : Kept g True _ _) rfl (fun h0 => ?_) hwrap
        (fun a hlo hhi => ⟨?_, ?_, fun u => hclear.not_noted hlo hhi⟩)
        (fun u a _ hn => hw.covered u a hn) hmaps (fun a ha _ => ?_) fun u a hu => ?_⟩
      · change roundup size kmPageSize = 0 at h0
        omega
      · exact hown.2.payloadAt hsound.whole.busy_sorted hlo hhi
      · simpa [MmapOp.asks, hcheck] using And.intro hlo hhi
      · rcases ha with hask | hold
        · exact (MmapOp.asks_munmap hask).2.2
        -- nothing was noted before
        have hn := hw.noted vcpu a hold
        rw [Noted, hown.1] at hn
        omega
      · simp [MmapOp.asks, Ne.symm hu]
    -- the range is unmapped
    rw [if_neg hstack] at hown
    rcases munmapNolock_succeeds hsound haddr (roundup_page size) hown with ⟨s1, hmun⟩
    have hr : kmGuestMunmap g h w.mm vcpu stackTop addr size = some (s1, 0) := by
      simp only [kmGuestMunmap, hcheck, ne_eq, not_true_eq_false, if_false, hfit, if_neg hstack]
      exact hmun
    refine ⟨s1, 0, hr, hw.leaves (kept_of_munmap hsound hr : Kept g True _ _)
      (leaves_of_munmapNolock hsound.whole haddr (roundup_page size) hwrap hmun)
      (fun v a hn hin => hclear.not_noted hin.1 hin.2 hn) (fun v a hask => ?_) fun _ a _ => hmaps a⟩
    obtain ⟨-, -, hlo, hhi⟩ := MmapOp.asks_munmap hask
    exact munmapNolock_gone hsound.whole haddr (roundup_page size) hwrap hmun hlo hhi
  have hr : kmGuestMunmap g h w.mm vcpu stackTop addr size =
      some (w.mm, mumapCheckParams addr (roundup size kmPageSize)) := by
    simp only [kmGuestMunmap, ne_eq, hcheck, not_false_eq_true, if_true]
  refine ⟨w.mm, _, hr, hw.leaves (.refl hsound : Kept g True _ _) (.refl (fun _ => False) _)
    (fun _ _ _ hf => hf) (fun v a hask => ?_) fun _ a _ => hmaps a⟩
  exact absurd (MmapOp.asks_munmap hask).2.1 hcheck

/-- A thread exits. -/
theorem delayedMunmap_careful (hw : Dutiful g w)
    (hcare : (MmapOp.delayedMunmap vcpu).Careful h w.mm) :
    ∃ s', kmDelayedMunmap g h w.mm vcpu = some s' ∧ Dutiful g (w.next g h (.delayedMunmap vcpu) s') ∧
      (s'.mapself vcpu).size = 0 ∧
      ∀ a, ¬ Noted w.mm vcpu a → payloadAt w.mm.busy a → payloadAt s'.busy a := by
  have hsound := hw.settled.sound
  have hmaps : ∀ a, (MmapOp.delayedMunmap vcpu).maps g h w.mm a = false := fun _ => rfl
  have hasks : ∀ v a, (MmapOp.delayedMunmap vcpu).asks v a = false := fun _ _ => rfl
  by_cases hpos : 0 < (w.mm.mapself vcpu).size
  · obtain ⟨hbase, hsize⟩ := hsound.whole.mapself vcpu
    have hwrap := hw.no_wrap vcpu
    rcases munmapNolock_succeeds hsound hbase hsize hcare with ⟨s1, hmun⟩
    let s2 : MmapState := { s1 with mapself := update s1.mapself vcpu { base := 0, size := 0 } }
    have hr : kmDelayedMunmap g h w.mm vcpu = some s2 := by
      simp only [kmDelayedMunmap, if_pos hpos, hmun, do_some]
      rfl
    have hk : Kept g True w.mm s2 := kept_of_delayedMunmap hsound hr
    have hleaves := leaves_of_munmapNolock hsound.whole hbase hsize hwrap hmun
    have hself : s2.mapself = update w.mm.mapself vcpu { base := 0, size := 0 } :=
      congrArg (fun f => update f vcpu _) hleaves.mapself
    have hkeep : ∀ a, ¬ Noted w.mm vcpu a → payloadAt w.mm.busy a →
        payloadAt s2.busy a := fun a hout ha => hk.payloadAt (hleaves.mapped a hout) ha
    refine ⟨s2, hr, hw.note hk hself (fun _ => rfl) (by decide)
      (fun a hlo hhi => absurd hhi (by simp)) (fun u a hu hn => ?_) hmaps (fun a ha hthere => ?_)
      fun u a _ => hasks u a, ?_, hkeep⟩
    · exact hkeep a (fun hv => hu (hw.apart u vcpu a hn hv)) (hw.covered u a hn)
    · -- what this vcpu asked for is gone
      rw [hasks] at ha
      have hn := hw.noted vcpu a (ha.resolve_left Bool.false_ne_true)
      have hgone := munmapNolock_gone hsound.whole hbase hsize hwrap hmun hn.1 hn.2
      exact absurd hthere (by rw [hgone]; decide)
    · rw [hself, update_self]
  have hr : kmDelayedMunmap g h w.mm vcpu = some w.mm := by rw [kmDelayedMunmap, if_neg hpos]
  refine ⟨w.mm, hr, hw.leaves (.refl hsound : Kept g True _ _) (.refl (fun _ => False) _)
    (fun _ _ _ hf => hf) (fun v a hask => ?_) fun _ a _ => hmaps a, by omega, fun _ _ ha => ha⟩
  rw [hasks] at hask
  cases hask

theorem leaves_of_mprotect (hs : Sound g s s.busy)
    (hr : kmGuestMprotect g h s addr size prot = some (s', ret)) :
    Leaves (fun _ => False) s s' := by
  rcases kmGuestMprotect_cases hr with rfl | ⟨-, rfl⟩ | ⟨haddr, rc, hm⟩
  · exact .refl _ _
  · exact .call _ _ _
  · exact (leaves_of_walk haddr (roundup_page size) hs.whole hm).weaken fun a hin => by cases hin.1

/-- A new mapping does not touch what is noted. -/
theorem mmap_not_noted (hw : Dutiful g w)
    (hsized : flags &&& mapFixed ≠ mapFixed → WellSized g w.mm (roundup size kmPageSize))
    (hcare : flags &&& mapFixed = mapFixed → Clear w.mm gva (roundup size kmPageSize))
    (hr : kmGuestMmapImpl g h w.mm gva size prot flags fd offset .guest = some (s', ret))
    (hn : Noted w.mm v a) :
    (!isErrno ret && decide (ret ≤ a) && decide (a < ret + roundup size kmPageSize)) = false := by
  by_contra hin
  simp only [Bool.not_eq_false, Bool.and_eq_true, Bool.not_eq_true', decide_eq_true_eq] at hin
  obtain ⟨⟨hret, hlo⟩, hhi⟩ := hin
  rcases ((kmGuestMmapImpl_end hr).leaves hw.settled.sound hsized (roundup_page size)).2 hret with
    ⟨hfixed, -, rfl⟩ | hhole
  · exact (hcare hfixed).not_noted hlo hhi hn
  · exact hhole a hlo hhi (payloadAt_iff.1 (hw.covered v a hn)).1

/-- The step. -/
theorem Dutiful.step (hw : Dutiful g w) (hpay : op.OfPayload) (hserved : op.Served g w.mm)
    (hcare : op.Careful h w.mm) (hr : op.call g h w.mm = some s') :
    Dutiful g (w.next g h op s') := by
  have hsound := hw.settled.sound
  have hk := MmapOp.call_kept hsound hpay hserved hr
  -- most calls ask for nothing and unmap nothing
  have hstill : Leaves (fun _ => False) w.mm s' → (∀ v a, op.asks v a = false) →
      (∀ v a, Noted w.mm v a → op.maps g h w.mm a = false) → Dutiful g (w.next g h op s') := by
    intro hl hasks hmaps
    refine hw.leaves hk hl (fun _ _ _ hf => hf) (fun v a hask => ?_) hmaps
    rw [hasks] at hask
    cases hask
  cases op with
  | brk arg =>
    obtain ⟨⟨m, ret⟩, hm, rfl⟩ := map_eq_some_iff.1 hr
    exact hstill ⟨rfl, fun _ _ ha => ha⟩ (fun _ _ => rfl) fun _ _ _ => rfl
  | mmapSimple size =>
    obtain ⟨ret, hm⟩ := map_fst_eq_some.1 hr
    refine hstill ((kmGuestMmapImpl_end hm).leaves hsound (fun _ => hserved) (roundup_page _)).1
      (fun _ _ => rfl) fun v a hn => ?_
    rw [MmapOp.maps, hm, any_some]
    exact mmap_not_noted hw (fun _ => hserved) (fun hfixed => absurd hfixed (by decide)) hm hn
  | mmapSimpleMonitor size => cases hpay
  | mmap gva size prot flags fd offset =>
    obtain ⟨ret, hm⟩ := map_fst_eq_some.1 hr
    refine hstill ((kmGuestMmapImpl_end hm).leaves hsound hserved (roundup_page _)).1
      (fun _ _ => rfl) fun v a hn => ?_
    rw [MmapOp.maps, hm, any_some]
    exact mmap_not_noted hw hserved hcare hm hn
  | munmap vcpu stackTop addr size =>
    rcases munmap_careful hw hcare with ⟨s1, ret, hm, hnext⟩
    simp only [MmapOp.call, hm, map_some, Option.some.injEq] at hr
    exact hr ▸ hnext
  | delayedMunmap vcpu =>
    rcases delayedMunmap_careful hw hcare with ⟨s1, hm, hnext, -⟩
    simp only [MmapOp.call, hm, Option.some.injEq] at hr
    exact hr ▸ hnext
  | mprotect addr size prot =>
    obtain ⟨ret, hm⟩ := map_fst_eq_some.1 hr
    exact hstill (leaves_of_mprotect hsound hm) (fun _ _ => rfl) fun _ _ _ => rfl
  | mremap oldAddr oldSize size flags =>
    obtain ⟨ret, hm⟩ := map_fst_eq_some.1 hr
    obtain ⟨hleaves, hhole⟩ := leaves_of_mremap hsound hserved hcare.1 hm
    refine hw.leaves hk hleaves (fun v a hn hin => hcare.2.not_noted hin.1 hin.2 hn)
      (fun v a hask => Bool.noConfusion hask) fun v a hn => ?_
    rw [MmapOp.maps, hm, any_some]
    by_contra hin
    simp only [Bool.not_eq_false, Bool.and_eq_true, Bool.not_eq_true', decide_eq_true_eq] at hin
    exact hhole hin.1 a hin.2 (payloadAt_iff.1 (hw.covered v a hn)).1

/-! ## Start-up -/

theorem kmGuestMmapSimpleMonitor_mapself
    (hr : kmGuestMmapSimpleMonitor g h s size = some (s', ret)) : s'.mapself = s.mapself :=
  kmMmapAddRegion_mapself (kmGuestMmapSimpleMonitor_add hr)

theorem kmMmapInit_mapself {p : MonitorPages} {overcommitMemory : Bool}
    (hr : kmMmapInit g p overcommitMemory = some s) (v : Nat) :
    s.mapself v = { base := 0, size := 0 } := by
  simp only [kmMmapInit, bind_eq_bind, bind_eq_some_iff] at hr
  rcases hr with ⟨m, -, s1, hs1, s2, hs2, hr⟩
  rw [kmMmapInsertBusy_mapself hr, kmMmapInsertBusy_mapself hs2]
  split at hs1
  · cases hs1
    rfl
  simp only [bind_eq_some_iff] at hs1
  rcases hs1 with ⟨s0, hs0, hs1⟩
  rw [kmMmapInsertBusy_mapself hs1, kmMmapInsertBusy_mapself hs0]

/-- Nothing is noted at the start. -/
theorem payloadSystem_mapself (hs : (payloadSystem g).init s) (v : Nat) :
    s.mapself v = { base := 0, size := 0 } := by
  rcases hs with ⟨p, overcommit, h₀, s0, hinit, hidt⟩
  simp only [kmInitGuestIdt, do_eq_some, return_eq_some] at hidt
  rcases hidt with ⟨⟨s1, gdtBase⟩, hgdt, -, -, ⟨s2, idtBase⟩, hidt, -, -, rfl⟩
  rw [kmGuestMmapSimpleMonitor_mapself hidt, kmGuestMmapSimpleMonitor_mapself hgdt]
  exact kmMmapInit_mapself hinit v

/-! ## Runs -/

theorem carefulSystem_dutiful (hw : Reach (carefulSystem g) w) : Dutiful g w := by
  refine Reach.inv ?_ ?_ hw
  · rintro w0 ⟨hinit, hasked, hagain⟩
    have hself := payloadSystem_mapself hinit
    have hnone : ∀ v a, ¬ Noted w0.mm v a := by
      intro v a hn
      simp only [Noted, hself] at hn
      omega
    refine ⟨servedSystem_settled (Reach.init hinit), fun v _ => by rw [hself],
      fun v => by rw [hself]; decide, fun v a hn => absurd hn (hnone v a),
      fun u v a hn => absurd hn (hnone u a), fun v a hn => absurd hn (hnone v a), fun v a ha => ?_⟩
    rw [hasked] at ha
    cases ha
  rintro w0 ⟨h, op⟩ w1 hw0 ⟨⟨s', ⟨hpay, hr⟩, rfl⟩, hserved, hcare⟩
  exact hw0.step hpay hserved hcare hr

/-- In every run of careful calls, `km_guest_munmap` does not abort, and when a thread exits all
that it asked to unmap is unmapped, and no page that was mapped again. -/
theorem munmap_duties (g : Geometry) {w : Duties} (hw : Reach (carefulSystem g) w) (h : Host) :
    (∀ vcpu stackTop addr size, (MmapOp.munmap vcpu stackTop addr size).Careful h w.mm →
      kmGuestMunmap g h w.mm vcpu stackTop addr size ≠ none) ∧
    ∀ vcpu, (MmapOp.delayedMunmap vcpu).Careful h w.mm →
      ∃ s', kmDelayedMunmap g h w.mm vcpu = some s' ∧
        (∀ a, (w.next g h (.delayedMunmap vcpu) s').asked vcpu a = false) ∧
        ∀ a, payloadAt w.mm.busy a → payloadAt s'.busy a = false → w.again vcpu a = false := by
  have hduty := carefulSystem_dutiful hw
  refine ⟨fun vcpu stackTop addr size hcare => ?_, fun vcpu hcare => ?_⟩
  · rcases munmap_careful hduty hcare with ⟨s', ret, hr, -⟩
    rw [hr]
    exact some_ne_none _
  rcases delayedMunmap_careful hduty hcare with ⟨s', hr, hnext, hnone, hkeep⟩
  refine ⟨s', hr, fun a => ?_, fun a hthere hgone => ?_⟩
  · by_contra hask
    obtain ⟨hlo, hhi⟩ := hnext.noted vcpu a (by simpa using hask)
    simp only [Duties.next, hnone] at hlo hhi
    omega
  -- only what is noted is removed
  by_contra hagain
  have hout : ¬ Noted w.mm vcpu a := fun hn => hagain (hduty.old vcpu a hn)
  rw [hkeep a hout hthere] at hgone
  cases hgone

end

/-! ## Two threads -/

def bootedDuties : Duties := { mm := booted, asked := fun _ _ => false, again := fun _ _ => false }

def unmapOwnStack : MmapOp := .munmap 1 0x7fffdfd800 0x7fffdfc000 0x2000

def mapOverStack : MmapOp :=
  .mmap 0x7fffdfc000 0x1000 (protRead ||| protWrite) (mapPrivate ||| mapAnonymous ||| mapFixed) (-1) 0

def stackNoted : MmapState := evaluate (unmapOwnStack.call geo512 kindHost twoPages)

def stackMappedOver : MmapState := evaluate (mapOverStack.call geo512 kindHost stackNoted)

def twoPagesDuties : Duties := bootedDuties.next geo512 kindHost mapTwoPages twoPages

def notedDuties : Duties := twoPagesDuties.next geo512 kindHost unmapOwnStack stackNoted

theorem twoPagesDuties_reach : Reach (carefulSystem geo512) twoPagesDuties := by
  have hfixed : ¬ (mapPrivate ||| mapAnonymous) &&& mapFixed = mapFixed := by decide
  have hcall : mapTwoPages.call geo512 kindHost booted = some twoPages :=
    eq_eval
  have hround : roundup 0x2000 kmPageSize = 0x2000 := by decide
  have hserved : mapTwoPages.Served geo512 booted := by
    intro _
    rw [hround]
    exact booted_sized
  have hstart : Reach (carefulSystem geo512) bootedDuties :=
    Reach.init ⟨booted_init, fun _ _ => rfl, fun _ _ => rfl⟩
  exact Reach.step (a := (kindHost, mapTwoPages)) hstart
    ⟨⟨twoPages, ⟨trivial, hcall⟩, rfl⟩, hserved, fun hf => absurd hf hfixed⟩

theorem twoPages_mapself (v : Nat) : twoPages.mapself v = { base := 0, size := 0 } := by
  have hr : mapTwoPages.call geo512 kindHost booted = some twoPages :=
    eq_eval
  simp only [mapTwoPages, MmapOp.call, map_eq_some_iff] at hr
  rcases hr with ⟨⟨s1, ret⟩, hm, rfl⟩
  have hbooted : Reach (servedSystem geo512) booted := Reach.init booted_init
  have hround : roundup 0x2000 kmPageSize = 0x2000 := by decide
  have hleaves := ((kmGuestMmapImpl_end hm).leaves (servedSystem_settled hbooted).sound
    (fun _ => by rw [hround]; exact booted_sized) (roundup_page _)).1
  exact (congrFun hleaves.mapself v).trans (payloadSystem_mapself booted_init v)

theorem unmapOwnStack_careful : unmapOwnStack.Careful kindHost twoPages := by
  have hreg : ∃ r ∈ twoPages.busy, r.start ≤ 0x7fffdfc000 ∧ 0x7fffdfe000 ≤ r.stop ∧
      r.ofMonitor = false := by decide +kernel
  have hround : roundup 0x2000 kmPageSize = 0x2000 := by decide
  intro _
  rw [hround, if_pos (by decide)]
  refine ⟨by decide, fun u => .inr ?_, ?_, fun a hlo hhi => ?_⟩
  · rw [twoPages_mapself]
    exact Nat.zero_le _
  · rw [twoPages_mapself]
  rcases hreg with ⟨r, hr, hstart, hstop, hpay⟩
  exact ⟨r, hr, by omega, by omega, hpay⟩

theorem notedDuties_reach : Reach (carefulSystem geo512) notedDuties :=
  Reach.step (a := (kindHost, unmapOwnStack)) twoPagesDuties_reach
    ⟨⟨stackNoted, ⟨trivial, eq_eval⟩, rfl⟩, trivial, unmapOwnStack_careful⟩

/-- The thread exits, and its stack is gone. -/
theorem munmap_duties_exit :
    kmGuestMunmap geo512 kindHost twoPages 1 0x7fffdfd800 0x7fffdfc000 0x2000 ≠ none ∧
      ∃ s', kmDelayedMunmap geo512 kindHost stackNoted 1 = some s' ∧
        (∀ a, (notedDuties.next geo512 kindHost (.delayedMunmap 1) s').asked 1 a = false) ∧
        ∀ a, payloadAt stackNoted.busy a → payloadAt s'.busy a = false →
          notedDuties.again 1 a = false :=
  ⟨(munmap_duties geo512 twoPagesDuties_reach kindHost).1 1 _ _ _ unmapOwnStack_careful,
    (munmap_duties geo512 notedDuties_reach kindHost).2 1 fun _ => rfl⟩

/-- A thread that unmaps its stack twice ends the monitor; a page mapped again where the stack was
is gone when the thread exits. -/
theorem own_stack_unmapped_twice : Reach (dutySystem geo512) notedDuties ∧
      kmGuestMunmap geo512 kindHost notedDuties.mm 1 0x7fffdfd800 0x7fffdfc000 0x2000 = none ∧
      ∃ w s', Reach (dutySystem geo512) w ∧
        kmDelayedMunmap geo512 kindHost w.mm 1 = some s' ∧
        w.again 1 0x7fffdfc000 ∧ payloadAt w.mm.busy 0x7fffdfc000 ∧
        payloadAt s'.busy 0x7fffdfc000 = false := by
  have hreach := Reach.of_restrict notedDuties_reach
  have hover : Reach (dutySystem geo512)
      (notedDuties.next geo512 kindHost mapOverStack stackMappedOver) :=
    Reach.step (a := (kindHost, mapOverStack)) hreach
      ⟨stackMappedOver, ⟨trivial, eq_eval⟩, rfl⟩
  refine ⟨hreach, by decide +kernel, _, evaluate (kmDelayedMunmap geo512 kindHost stackMappedOver
    1), hover, eq_eval, ?_, ?_, ?_⟩
  · decide +kernel
  · decide +kernel
  · decide +kernel

end KontainMonitor.Mmap
