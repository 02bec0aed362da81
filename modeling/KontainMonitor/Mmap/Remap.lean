import KontainMonitor.Mmap.Written

/-!
# Remap — what `mremap` does to memory

`mremap` grows a mapping in place, moves it or cuts it.  Whatever it does, the payload expects its
bytes to stay, the new pages to be like the old ones, and all other mappings to be left alone.
-/

namespace KontainMonitor.Mmap

open Intervals Label Mem Transition

variable {file : FileData} {m' : HostMem}

section

variable {g : Geometry} {h : Host} {s s' : MmapState} {size ret : Nat} {m : HostMem}
variable {prot : BitVec 32} {rc a : Nat} {p : Pos}
variable {flags : BitVec 32} {n : Nat} {s1 : MmapState}

/-! ## Labels and host mappings agree in every run -/

/-- A shared mapping does not grow in place: what it would get is private memory. -/
def MmapOp.GrowsPrivate (s : MmapState) : MmapOp → Prop
  | .mremap oldAddr oldSize size _ => roundup oldSize kmPageSize < roundup size kmPageSize →
      ∀ r ∈ s.busy, r.start ≤ oldAddr → oldAddr < r.stop →
        GrowsInPlace s.busy r oldAddr (roundup oldSize kmPageSize) (roundup size kmPageSize) →
        r.flags &&& mapShared = 0
  | _ => True

def Input.Even (v : World) : Input → Prop
  | .call _ _ op => op.Straight ∧ op.GrowsPrivate v.mm
  | .write _ _ => True

def evenSystem (g : Geometry) : System World Input :=
  (calmSystem g).restrict fun v i _ => i.Even v

/-- A region that is not shared gets private memory. -/
theorem Agrees.grown {x : Label} {c : Cell} (hpay : x.ofMonitor = false)
    (hflags : x.flags &&& mapShared = 0) (hc : c.shared = false) :
    Agrees (some x.cleaned) (x.treated c) := by
  refine .of_eq ?_ ?_ ?_
  · rw [cleaned_ofMonitor]
    exact hpay
  · rw [treated_shared, cleaned_flags, hc, hflags]
    decide
  · rw [treated_prot, cleaned_protection, protectionAdjust_idem]

theorem agrees_move : MoveLaw (fun x => x.flags &&& mapShared = 0) fun _ _ => Agrees where
  law _ _ := agrees_law
  fresh _ _ _ _ _ _ _ _ _ _ _ _ hc hren := hren.agrees hc
  grown _ _ _ _ hpay hflags _ _ _ _ hc := .grown hpay hflags (by
    rw [apply_ite Cell.shared, Cell.dontneed_shared, ite_self]
    exact hc.private_of_none)
  copied _ _ _ _ _ _ _ _ _ hc := ⟨hc.unshared, hc.shared, hc.prot⟩

theorem agrees_new {busy : List Reg} {gva : Nat} {fd offset : Int} :
    NewLaw (fun _ _ => Agrees) h file busy gva size prot flags fd offset where
  fresh _ _ _ _ _ hc hren := hren.agrees hc
  anew _ _ _ k _ := mappedCell_agrees h file prot flags _ _ offset k _
  covers _ _ _ _ _ _ _ _ _ k _ := mappedCell_agrees h file prot flags _ _ offset k _

/-- The step of a call. -/
theorem MmapOp.agrees {op : MmapOp} {w : Nat → Bool} (hh : h.Steady) (hpay : op.OfPayload)
    (heven : op.Straight ∧ op.GrowsPrivate s) (hserved : op.Served g s)
    (hmem : op.MapsIntoBusy → ∀ n, h.ok n .calloc) (hw : Unwritten s.busy w)
    (hs : Settled g s) (hreal : RealAt s.busy) (hr : op.call g h s = some s')
    (hrun : HostRuns h file s m s' m') (hm : Pages g (fun _ => Agrees) s.busy m) :
    Pages g (fun _ => Agrees) s'.busy m' := by
  have hgrows : op.Grows (fun x => x.flags &&& mapShared = 0) s := by
    cases op with
    | mremap oldAddr oldSize size flags => exact heven.2
    | _ => trivial
  have hmakes : op.Makes (fun _ _ => Agrees) h file s := by
    cases op with
    | mmap | mmapSimple => exact agrees_new
    | _ => trivial
  have hm0 : Tracked g (fun _ _ => Agrees) w (fun _ => 0) s.busy m := hm
  obtain ⟨u, -, hm'⟩ := op.tracked agrees_move hh hpay hserved hmem (.inl heven.1) hgrows hmakes hw
    hs hreal hr hrun hm0
  exact hm'

theorem evenSystem_agrees {v : World} (hv : Reach (evenSystem g) v) :
    Pages g (fun _ => Agrees) v.mm.busy v.mem := by
  have hboth : Reach (calmSystem g) v ∧ Pages g (fun _ => Agrees) v.mm.busy v.mem := by
    refine Reach.inv (I := fun v : World => Reach (calmSystem g) v ∧
      Pages g (fun _ => Agrees) v.mm.busy v.mem) ?_ ?_ hv
    · rintro v hv
      refine ⟨Reach.init hv, ?_⟩
      obtain ⟨⟨p, overcommitMemory, h, s0, hs0, hidt⟩, hmem, -⟩ := hv
      have hall := (kmInitGuestIdt_allMonitor hs0 hidt).1
      intro a ha
      obtain ⟨hshared, -⟩ := hmem a ha
      refine ⟨fun hs => ?_, fun y hy hpay => ?_, fun y hy hpay => ?_⟩
      · rw [hshared] at hs
        cases hs
      · rw [hall.monitor_of_mapped hy] at hpay
        cases hpay
      rw [hall.monitor_of_mapped hy] at hpay
      cases hpay
    rintro v i v' ⟨hreach, hm⟩ ⟨hstep, heven⟩
    refine ⟨Reach.step hreach hstep, ?_⟩
    obtain ⟨hset, hreal⟩ := gluedSystem_real (calmSystem_glued hreach)
    obtain ⟨hstep, hcalm⟩ := hstep
    cases i with
    | call h file op =>
      obtain ⟨⟨hpay, hcall⟩, hrun, -⟩ := hstep
      exact op.agrees hcalm.2.2 hpay heven hcalm.1 hcalm.2.1 (calmSystem_unwritten hreach) hset hreal
        hcall hrun hm
    | write a u =>
      obtain ⟨⟨x, hx, hpay, -⟩, rfl⟩ := hstep
      exact pages_of_write hset.sound hx hpay (fun _ _ _ _ hP => hP)
        (fun c hc => ⟨hc.unshared, hc.shared, hc.prot⟩) hm
  exact hboth.2

/-! ## Cutting -/

/-- A range is not mapped any more; everything else is as before. -/
structure Cut (g : Geometry) (s s' : MmapState) (m m' : HostMem) (addr size : Nat) : Prop where
  inside : ∀ a x, addr ≤ a → a < addr + size → labelAt s.busy a = some x → x.ofMonitor = false →
    labelAt s'.busy a = none
  outside : ∀ a, ¬ (addr ≤ a ∧ a < addr + size) → labelAt s'.busy a = labelAt s.busy a
  cells : ∀ a, Zone g a → ¬ (addr ≤ a ∧ a < addr + size) → Mapped s.busy a →
    m' (kmaOf g a) = m (kmaOf g a)

theorem munmapNolock_cut {addr : Nat} (hh : h.Steady) (hs : Sound g s s.busy)
    (haddr : addr % kmPageSize = 0) (hsize : size % kmPageSize = 0) (hwrap : addr + size < 2 ^ 64)
    (hr : kmGuestMunmapNolock g h s addr size = some (s', rc)) (hrc : isErrno rc = false)
    (file : FileData) (m : HostMem) :
    ∃ m', HostRuns h file s m s' m' ∧ Cut g s s' m m' addr size := by
  obtain rfl : rc = 0 := by
    rcases rangeApply_total h protNone false .moveToFree haddr hsize hs with ⟨t, e, ht, -, hor⟩
    have heq : some (s', rc) = some (t, e) := hr.symm.trans ht
    rw [some_mk_inj] at heq
    rcases hor with rfl | ⟨rfl, -⟩
    · exact heq.2
    rw [heq.2] at hrc
    exact absurd hrc (by decide)
  have hlabels := kmMmapBusyRangeApply_labelAt hr haddr hsize hwrap hs.whole nofun
  have hout : ∀ a, ¬ (addr ≤ a ∧ a < addr + size) → labelAt s'.busy a = labelAt s.busy a :=
    fun a hno => (hlabels a).trans (Action.pages_outside hno)
  -- what is still mapped outside of the range was not touched
  have hrule : PageRule .moveToFree (rangeReg addr size protNone false) fun a x c =>
      ¬ (addr ≤ a ∧ a < addr + size) → x ≠ none → c = m (kmaOf g a) :=
    ⟨fun _ _ _ _ _ _ _ hno => absurd rfl hno, fun _ _ _ _ _ _ _ _ _ _ _ hno => absurd rfl hno,
      fun hact => absurd rfl hact⟩
  obtain ⟨m', hrun, hm'⟩ := pages_of_munmapNolock hh hrule hs haddr hsize hr file
    (fun _ _ _ _ => rfl)
  refine ⟨m', hrun, ?_, hout, fun a ha hno hmapped => hm' a ha hno ?_⟩
  · intro a x hlo hhi hx hpay
    rw [hlabels a]
    exact Action.pages_inside hx (show (rangeReg addr size protNone false).start ≤ a from hlo) hhi hpay
  rw [hout a hno]
  exact fun hnone => labelAt_eq_none.1 hnone hmapped

/-! ## The contract -/

/-- What the payload expects of a `mremap` that returns `ret`. -/
structure Remapped (g : Geometry) (s s' : MmapState) (m m' : HostMem) (r : Reg)
    (oldAddr oldSize ret size : Nat) : Prop where
  bytes : ∀ k, k < oldSize → k < size →
    (m' (kmaOf g (ret + k))).byte = (m (kmaOf g (oldAddr + k))).byte
  labels : ∀ a, ret ≤ a → a < ret + size → ∃ y, labelAt s'.busy a = some y ∧ y.ofMonitor = false ∧
    y.protection = r.protection ∧
    y.flags &&& (mapPrivate ||| mapShared) = r.flags &&& (mapPrivate ||| mapShared)
  kind : ∀ a, ret ≤ a → a < ret + size →
    ((m' (kmaOf g a)).shared ↔ r.flags &&& mapShared ≠ 0) ∧
    protectionAdjust (m' (kmaOf g a)).prot = protectionAdjust r.protection
  freed : ∀ a, oldAddr ≤ a → a < oldAddr + oldSize → ¬ (ret ≤ a ∧ a < ret + size) →
    ¬ Mapped s'.busy a
  others : ∀ a, ¬ (oldAddr ≤ a ∧ a < oldAddr + oldSize) → ¬ (ret ≤ a ∧ a < ret + size) →
    labelAt s'.busy a = labelAt s.busy a ∧
    ∀ x, labelAt s.busy a = some x → x.ofMonitor = false →
      (m' (kmaOf g a)).byte = (m (kmaOf g a)).byte ∧
      (m' (kmaOf g a)).shared = (m (kmaOf g a)).shared ∧
      protectionAdjust (m' (kmaOf g a)).prot = protectionAdjust (m (kmaOf g a)).prot

/-- A mapping that grows in place is private, and no region that would be dropped; one that has to be
moved can be written to. -/
structure Movable (s : MmapState) (r : Reg) (oldAddr oldSize size : Nat) : Prop where
  in_place : oldSize < size → GrowsInPlace s.busy r oldAddr oldSize size →
    r.flags &&& mapShared = 0 ∧ ¬ r.label.Dirty
  moved : oldSize < size → ¬ GrowsInPlace s.busy r oldAddr oldSize size → writable r.protection

variable {r : Reg} {oldAddr oldSize : Nat}

structure OldRange (s : MmapState) (r : Reg) (oldAddr oldSize : Nat) : Prop where
  mem : r ∈ s.busy
  payload : r.ofMonitor = false
  lower : r.start ≤ oldAddr
  upper : oldAddr + oldSize ≤ r.stop

theorem OldRange.label (hr : OldRange s r oldAddr oldSize) (hs : Sound g s s.busy)
    (hlo : oldAddr ≤ a) (hhi : a < oldAddr + oldSize) :
    labelAt s.busy a = some r.label ∧ Zone g a := by
  have hlower := hr.lower
  have hupper := hr.upper
  exact ⟨labelAt_of_mem hs.whole.busy_sorted hr.mem (by omega) (by omega),
    hs.zone_of_mem hr.mem hr.payload (by omega) (by omega)⟩

/-- The region that the monitor finds is the one of the mapping. -/
theorem Remaps.reg_eq (hp : Remaps s p oldAddr n) (hs : Sound g s s.busy)
    (hr : OldRange s r oldAddr oldSize) (hpos : 0 < oldSize) : p.reg = r := by
  by_contra hne
  have hpmem := hp.mem
  have h1 := hp.lower
  have h2 := hp.upper
  have h3 := hr.lower
  have h4 := hr.upper
  rcases hs.whole.busy_sorted.apart hpmem hr.mem hne with hle | hle <;> omega

section

variable (hs : Sound g s s.busy) (hr : OldRange s r oldAddr oldSize)
include hs hr

/-- Nothing is to be done. -/
theorem remapped_same (hm : Pages g (fun _ => Agrees) s.busy m) :
    Remapped g s s m m r oldAddr oldSize oldAddr oldSize := by
  refine ⟨fun _ _ _ => rfl, fun a hlo hhi => ?_, fun a hlo hhi => ?_, fun a h1 h2 hno => ?_,
    fun _ _ _ => ⟨rfl, fun _ _ _ => ⟨rfl, rfl, rfl⟩⟩⟩
  · exact ⟨r.label, (hr.label hs hlo hhi).1, hr.payload, rfl, rfl⟩
  · obtain ⟨hlabel, hzone⟩ := hr.label hs hlo hhi
    have hagrees := hm a hzone
    rw [hlabel] at hagrees
    exact ⟨hagrees.shared_iff hr.payload, hagrees.prot r.label rfl hr.payload⟩
  · exact absurd ⟨h1, h2⟩ hno

/-- The mapping is cut. -/
theorem remapped_shrunk (hless : size < oldSize) (hm : Pages g (fun _ => Agrees) s.busy m)
    (hcut : Cut g s s' m m' (oldAddr + size) (oldSize - size)) :
    Remapped g s s' m m' r oldAddr oldSize oldAddr size := by
  have hkept : ∀ a, oldAddr ≤ a → a < oldAddr + size → labelAt s'.busy a = some r.label ∧
      m' (kmaOf g a) = m (kmaOf g a) ∧ Zone g a := by
    intro a hlo hhi
    obtain ⟨hlabel, hzone⟩ := hr.label hs hlo (by omega)
    refine ⟨?_, hcut.cells a hzone (by omega) (mapped_of_labelAt hlabel), hzone⟩
    rw [hcut.outside a (by omega)]
    exact hlabel
  refine ⟨fun k _ hk => ?_, fun a hlo hhi => ?_, fun a hlo hhi => ?_, fun a h1 h2 hno => ?_,
    fun a h1 h2 => ⟨hcut.outside a (by omega), fun x hx hpay => ?_⟩⟩
  · rw [(hkept (oldAddr + k) (by omega) (by omega)).2.1]
  · exact ⟨r.label, (hkept a hlo hhi).1, hr.payload, rfl, rfl⟩
  · obtain ⟨-, hcell, hzone⟩ := hkept a hlo hhi
    have hagrees := hm a hzone
    rw [(hr.label hs hlo (by omega)).1] at hagrees
    rw [hcell]
    exact ⟨hagrees.shared_iff hr.payload, hagrees.prot r.label rfl hr.payload⟩
  · rw [← labelAt_eq_none]
    exact hcut.inside a r.label (by omega) (by omega) (hr.label hs h1 h2).1 hr.payload
  rcases labelAt_mem hx with ⟨q, hq, hlo, hhi, rfl⟩
  rw [hcut.cells a (hs.zone_of_mem hq hpay hlo hhi) (by omega) ⟨q, hq, hlo, hhi⟩]
  exact ⟨rfl, rfl, rfl⟩

end

/-- The region grows. -/
theorem remapped_grown (hh : h.Steady) (hs : Sound g s s.busy) (hp : Remaps s p oldAddr oldSize)
    (hless : oldSize < size) (hstop : p.reg.stop = oldAddr + oldSize)
    (hroom : HasRoom p (size - oldSize))
    (hflags : p.reg.flags &&& mapShared = 0) (hclean : ¬ p.reg.label.Dirty)
    (hgrow : mremapGrowInPlace g s p oldAddr (size - oldSize) = some (s', ret))
    (hm : Pages g (fun _ => Agrees) s.busy m) : ∃ m', HostRuns h file s m s' m' ∧
      Remapped g s s' m m' p.reg oldAddr oldSize oldAddr size := by
  have hpmem := hp.mem
  have hwhole : Whole g s p.toList := hp.list ▸ hs.whole
  have hlower := hp.lower
  obtain ⟨m', hrun, hcells⟩ := mremapGrowInPlace_cells hh hwhole hs.mem hp.payload hroom hgrow file m
  obtain ⟨-, -, hlabels⟩ := mremapGrowInPlace_labelAt hwhole
    (Reg.payload_part hp.payload) hroom hgrow
  rw [hp.list] at hlabels
  -- the region as it was
  have hold : ∀ a, p.reg.start ≤ a → a < p.reg.stop → labelAt s.busy a = some p.reg.label ∧
      Zone g a ∧ m' (kmaOf g a) = p.reg.label.treated (m (kmaOf g a)) := by
    intro a hlo hhi
    have hzone := hs.zone_of_mem hpmem hp.payload hlo hhi
    refine ⟨labelAt_of_mem hs.whole.busy_sorted hpmem hlo hhi, hzone, ?_⟩
    rw [hcells a hzone, if_pos (by omega), if_neg (by omega)]
  have hagree : ∀ a, p.reg.start ≤ a → a < p.reg.stop →
      Agrees (some p.reg.label) (m (kmaOf g a)) := by
    intro a hlo hhi
    obtain ⟨hlabel, hzone, -⟩ := hold a hlo hhi
    have hagrees := hm a hzone
    rwa [hlabel] at hagrees
  refine ⟨m', hrun, ?_, ?_, ?_, ?_, ?_⟩
  · intro k hk _
    rw [(hold (oldAddr + k) (by omega) (by omega)).2.2, treated_byte (.inl hclean)]
  · intro a hlo hhi
    refine ⟨p.reg.label, ?_, hp.payload, rfl, rfl⟩
    rw [hlabels a, if_pos (by omega), cleaned_of_not_dirty hclean]
  · intro a hlo hhi
    by_cases hlt : a < p.reg.stop
    · rw [(hold a (by omega) hlt).2.2, treated_shared, treated_prot,
        protectionAdjust_idem]
      exact ⟨(hagree a (by omega) hlt).shared_iff hp.payload, rfl⟩
    -- pages that were free are private
    have hnone := labelAt_eq_none.2 (hwhole.not_mapped_behind hroom.room a (by omega) (by omega))
    rw [hp.list] at hnone
    have hzone : Zone g a := by
      have hz := (hs.whole.busy_ok p.reg hpmem).payload (Reg.payload_part hp.payload)
      have hgrown := mremapGrowInPlace_inv hwhole (Reg.payload_part hp.payload) hroom hgrow
      have hmapped : Mapped s'.busy a := by
        refine mapped_of_labelAt (x := p.reg.label.cleaned) ?_
        rw [hlabels a, if_pos (by omega)]
      have hlow := hz.lower
      have htbrk := hs.mem.tbrk_lo
      refine ⟨by omega, ?_⟩
      rcases hmapped with ⟨q, hq, hqlo, hqhi⟩
      have hqlabel := labelAt_of_mem hgrown.busy_sorted hq hqlo hqhi
      rw [hlabels a, if_pos (by omega), Option.some.injEq] at hqlabel
      have hqpay : q.ofMonitor = false := by
        have hmon := congrArg Label.ofMonitor hqlabel
        rw [cleaned_ofMonitor] at hmon
        exact hmon.symm.trans hp.payload
      have hqz := (hgrown.busy_ok q hq).payload (Reg.payload_part hqpay)
      have := hqz.upper
      omega
    have hagrees := hm a hzone
    rw [hnone] at hagrees
    rw [hcells a hzone, if_pos (by omega), treated_shared, treated_prot,
      protectionAdjust_idem, apply_ite Cell.shared, Cell.dontneed_shared, ite_self,
      hagrees.private_of_none, hflags]
    exact ⟨by decide, rfl⟩
  · intro a h1 h2 hno
    omega
  intro a h1 h2
  by_cases hin : p.reg.start ≤ a ∧ a < p.reg.stop + (size - oldSize)
  · -- the part of the region in front of the range
    have hlt : a < p.reg.stop := by omega
    obtain ⟨hlabel, -, hcell⟩ := hold a hin.1 hlt
    refine ⟨?_, fun x _ _ => ?_⟩
    · rw [hlabels a, if_pos hin, cleaned_of_not_dirty hclean, hlabel]
    rw [hcell, treated_byte (.inl hclean), treated_shared, treated_prot,
      protectionAdjust_idem]
    exact ⟨rfl, rfl, ((hagree a hin.1 hlt).prot p.reg.label rfl hp.payload).symm⟩
  refine ⟨by rw [hlabels a, if_neg hin], fun x hx hpay => ?_⟩
  rcases labelAt_mem hx with ⟨q, hq, hlo, hhi, rfl⟩
  rw [hcells a (hs.zone_of_mem hq hpay hlo hhi), if_neg hin]
  exact ⟨rfl, rfl, rfl⟩

/-! ### Moving -/

theorem kmaOf_add {k : Nat} (ha : g.guestVaOffset < a) : kmaOf g a + k = kmaOf g (a + k) := by
  simp only [kmaOf]
  omega

theorem writable_adjust (hw : writable prot) : writable (protectionAdjust prot) := by
  rw [protectionAdjust]
  split
  next hbit =>
    rw [writable, BitVec.and_comm, BitVec.and_or_distrib_left, BitVec.and_comm protWrite prot, hbit]
    decide
  · exact hw

/-- Memory whose protection is the one of a writable region can be read. -/
theorem readable_of_agrees {prot' : BitVec 32} (hw : writable prot)
    (heq : protectionAdjust prot' = protectionAdjust prot) : readable prot' := by
  have hmask : (protRead ||| protWrite ||| protExec) &&& protWrite = protWrite := by decide
  by_contra hno
  rw [readable, not_not] at hno
  have hbit : prot' &&& protWrite = 0 := by
    calc prot' &&& protWrite = prot' &&& (protRead ||| protWrite ||| protExec) &&& protWrite := by
          rw [BitVec.and_assoc, hmask]
      _ = 0 := by rw [hno]; decide
  have hplain : protectionAdjust prot' = prot' := by
    refine if_neg fun hset => ?_
    rw [hbit] at hset
    exact absurd hset (by decide)
  have hwrite := writable_adjust hw
  rw [← heq, hplain] at hwrite
  exact hwrite hbit

theorem remapped_moved (hh : h.Steady) (hs : Sound g s s.busy) (hp : Remaps s p oldAddr oldSize)
    (hmove : Moving g h s s1 s' p oldAddr oldSize size ret rc) (hless : oldSize < size)
    (hold : oldSize % kmPageSize = 0) (hsize : size % kmPageSize = 0) (hsized : WellSized g s size)
    (hok : isErrno ret = false) (hrc : isErrno rc = false) (hw : writable p.reg.protection)
    (hm : Pages g (fun _ => Agrees) s.busy m) : ∃ m', HostRuns h file s m s' m' ∧
      Remapped g s s' m m' p.reg oldAddr oldSize ret size := by
  have hconsts := layout_consts
  have htbrk := hmove.sound.mem.tbrk_lo
  have hlow := hmove.lower
  have hretlow := hmove.new.lower
  have hrettop := hmove.new.upper
  have holdtop := hmove.upper
  have hptop := hmove.top
  -- the new region
  obtain ⟨m1, hrun1, hres⟩ := kmMmapAddRegion_cells hh hs hsized hsize hmove.add file m
  have hcells : NewCells g file s.busy m m1 ret size p.reg.protection p.reg.flags (-1) := by
    rcases hres with ⟨he, -⟩ | ⟨-, hcells⟩
    · rw [hok] at he
      cases he
    · exact hcells
  have hkeep : ∀ a, Zone g a → Mapped s.busy a → m1 (kmaOf g a) = m (kmaOf g a) := by
    intro a ha hmapped
    refine (hcells.outside a ha ?_).2 hmapped
    rintro ⟨h1, h2⟩
    exact labelAt_eq_none.1 (hmove.new.hole a h1 h2) hmapped
  have hnewprot : ∀ a, ret ≤ a → a < ret + size →
      (m1 (kmaOf g a)).prot = protectionAdjust p.reg.protection := by
    intro a h1 h2
    obtain ⟨c, -, hc⟩ := hcells.inside a h1 h2
    rw [hc]
    exact treated_prot _ _
  -- the copy is permitted
  have hpermit : m1.Permits (.memcpy (kmaOf g ret) (kmaOf g oldAddr) oldSize) := by
    intro k hk
    rw [kmaOf_add (by omega), kmaOf_add (by omega)]
    obtain ⟨-, hlabel, hzone⟩ := hmove.apart hp hs (a := oldAddr + k) (by omega) (by omega)
    have hagrees := hm (oldAddr + k) hzone
    rw [hlabel] at hagrees
    refine ⟨?_, ?_⟩
    · rw [hkeep _ hzone (mapped_of_labelAt hlabel)]
      exact readable_of_agrees hw (hagrees.prot p.reg.label rfl hp.payload)
    rw [hnewprot (ret + k) (by omega) (by omega)]
    exact writable_adjust hw
  have hcopy : ∀ a, Zone g a →
      m1.exec file (.memcpy (kmaOf g ret) (kmaOf g oldAddr) oldSize) (kmaOf g a) =
        if ret ≤ a ∧ a < ret + oldSize then
          { m1 (kmaOf g a) with byte := (m1 (kmaOf g (oldAddr + (a - ret)))).byte }
        else m1 (kmaOf g a) := memcpy_cells (by omega) (by omega) file m1
  have hrun2 : HostRun h file s1.mem.hostCalls m1
      (HostCall.memcpy (kmaOf g ret) (kmaOf g oldAddr) oldSize :: s1.mem.hostCalls)
      (m1.exec file (.memcpy (kmaOf g ret) (kmaOf g oldAddr) oldSize)) := .call hpermit
  -- the old range goes
  obtain ⟨m', hrun3, hcut⟩ := munmapNolock_cut hh (hmove.sound.call _) hp.page hold (by omega)
    hmove.munmap hrc file (m1.exec file (.memcpy (kmaOf g ret) (kmaOf g oldAddr) oldSize))
  have hlabels : ∀ a, ¬ (oldAddr ≤ a ∧ a < oldAddr + oldSize) →
      labelAt s'.busy a = labelAt s1.busy a := hcut.outside
  have hapart : ∀ a, ret ≤ a → a < ret + size → ¬ (oldAddr ≤ a ∧ a < oldAddr + oldSize) :=
    fun a h1 h2 hin => (hmove.apart hp hs hin.1 hin.2).1 ⟨h1, h2⟩
  have hnewlabel : ∀ a, ret ≤ a → a < ret + size →
      labelAt s1.busy a = some (newLabel p.reg.protection p.reg.flags .guest) := by
    intro a h1 h2
    rw [hmove.new.labels, if_pos ⟨h1, h2⟩]
  have hnewzone : ∀ a, ret ≤ a → a < ret + size → Zone g a := fun a h1 h2 => ⟨by omega, by omega⟩
  have hnewcell : ∀ a, ret ≤ a → a < ret + size → m' (kmaOf g a) =
      m1.exec file (.memcpy (kmaOf g ret) (kmaOf g oldAddr) oldSize) (kmaOf g a) :=
    fun a h1 h2 => hcut.cells a (hnewzone a h1 h2) (hapart a h1 h2)
      (mapped_of_labelAt (hnewlabel a h1 h2))
  refine ⟨m', (hrun1.trans hrun2).trans hrun3, ?_, ?_, ?_, ?_, ?_⟩
  · intro k hk _
    obtain ⟨-, hlabel, hzone⟩ := hmove.apart hp hs (a := oldAddr + k) (by omega) (by omega)
    rw [hnewcell (ret + k) (by omega) (by omega), hcopy _ (hnewzone _ (by omega) (by omega)),
      if_pos (by omega), Nat.add_sub_cancel_left, hkeep _ hzone (mapped_of_labelAt hlabel)]
  · intro a h1 h2
    refine ⟨newLabel p.reg.protection p.reg.flags .guest, ?_, newLabel_ofMonitor _ _, ?_, ?_⟩
    · rw [hlabels a (hapart a h1 h2)]
      exact hnewlabel a h1 h2
    · rw [newLabel, cleaned_protection]
    · rw [newLabel_flags]
  · intro a h1 h2
    have hagrees := hm a (hnewzone a h1 h2)
    rw [hmove.new.hole a h1 h2] at hagrees
    have hshared := (hcells.inside a h1 h2).shared_iff hagrees.private_of_none
    have hprot := hnewprot a h1 h2
    rw [hnewcell a h1 h2, hcopy a (hnewzone a h1 h2)]
    split
    · exact ⟨hshared, (congrArg protectionAdjust hprot).trans (protectionAdjust_idem _)⟩
    · exact ⟨hshared, (congrArg protectionAdjust hprot).trans (protectionAdjust_idem _)⟩
  · intro a h1 h2 _
    obtain ⟨hout, hlabel, -⟩ := hmove.apart hp hs h1 h2
    have hlabel1 : labelAt s1.busy a = some p.reg.label := by
      rw [hmove.new.labels, if_neg hout]
      exact hlabel
    rw [← labelAt_eq_none]
    exact hcut.inside a p.reg.label h1 h2 hlabel1 hp.payload
  intro a h1 h2
  have hlabel1 : labelAt s1.busy a = labelAt s.busy a := by rw [hmove.new.labels, if_neg h2]
  refine ⟨(hlabels a h1).trans hlabel1, fun x hx hpay => ?_⟩
  have hzone : Zone g a := by
    rcases labelAt_mem hx with ⟨q, hq, hlo, hhi, rfl⟩
    exact hs.zone_of_mem hq hpay hlo hhi
  rw [hcut.cells a hzone h1 (mapped_of_labelAt (hlabel1.trans hx)), hcopy a hzone,
    if_neg (by omega), hkeep a hzone (mapped_of_labelAt hx)]
  exact ⟨rfl, rfl, rfl⟩

theorem le_roundup (hn : n + kmPageSize ≤ 2 ^ 64) : n ≤ roundup n kmPageSize := by
  simp only [roundup, u64, kmPageSize_eq] at hn ⊢
  omega

/-- In every run in which no `mprotect` range wraps and no shared mapping grows in place, a `mremap`
that returns an address does what the payload expects, and the monitor's copy is permitted. -/
theorem mremap_keeps_memory (g : Geometry) {v : World} (hv : Reach (evenSystem g) v) (h : Host)
    (file : FileData) (oldAddr oldSize size : Nat) (flags : BitVec 32) (r : Reg)
    (hcalm : (Input.call h file (.mremap oldAddr oldSize size flags)).Calm g v)
    (hrange : OldRange v.mm r oldAddr oldSize)
    (hmovable : Movable v.mm r oldAddr (roundup oldSize kmPageSize) (roundup size kmPageSize))
    (hwrap : size + kmPageSize ≤ 2 ^ 64) (s' : MmapState) (ret : Nat)
    (hr : kmGuestMremap g h v.mm oldAddr oldSize size flags = some (s', ret))
    (hok : isErrno ret = false) :
    size ≤ roundup size kmPageSize ∧ oldSize ≤ roundup oldSize kmPageSize ∧
      ∃ m', HostRun h file v.mm.mem.hostCalls v.mem s'.mem.hostCalls m' ∧
        Remapped g v.mm s' v.mem m' r oldAddr (roundup oldSize kmPageSize) ret
          (roundup size kmPageSize) := by
  obtain ⟨hset, hreal⟩ := gluedSystem_real (calmSystem_glued hv.of_restrict)
  have hm := evenSystem_agrees hv
  have hs := hset.sound
  obtain ⟨hserved, -, hh⟩ := hcalm
  have hz := (hs.whole.busy_ok r hrange.mem).payload (Reg.payload_part hrange.payload)
  have hconsts := layout_consts
  have hupp := hz.upper
  have holdupp := hrange.upper
  refine ⟨le_roundup hwrap, le_roundup (by omega), ?_⟩
  by_cases herr : oldAddr % kmPageSize ≠ 0 ∨ oldSize = 0 ∨ size = 0 ∨ flags &&& ~~~mremapMaymove ≠ 0
  · -- a bad request returns no address
    rw [kmGuestMremap, if_pos herr] at hr
    cases hr
    exact absurd hok (by decide)
  rw [not_or, not_not, not_or, not_or] at herr
  have holdpos : 0 < roundup oldSize kmPageSize :=
    lt_of_lt_of_le (pos_of_ne_zero herr.2.1) (le_roundup (by omega))
  -- the range ends with a page
  have hrange' : OldRange v.mm r oldAddr (roundup oldSize kmPageSize) := by
    refine ⟨hrange.mem, hrange.payload, hrange.lower, ?_⟩
    have hstart := hz.start_page
    have hsize := hz.size_page
    have haddr := herr.1
    rw [kmPageSize_eq] at hstart hsize haddr
    simp only [roundup, u64, kmPageSize_eq, Reg.stop] at hupp holdupp ⊢
    omega
  cases kmGuestMremap_end hs.whole hr with
  | refused he =>
    rw [hok] at he
    cases he
  | same heq =>
    refine ⟨v.mem, .refl _ _ _ _, ?_⟩
    rw [← heq]
    exact remapped_same hs hrange' hm
  | @grown p _ hp hless hstop hroom hgrow =>
    obtain rfl := hp.reg_eq hs hrange' holdpos
    obtain ⟨hflags, hclean⟩ := hmovable.in_place hless
      (growsInPlace_of_gap hs.whole hp hstop hroom.room)
    exact remapped_grown hh hs hp hless hstop hroom hflags hclean hgrow hm
  | full hp hless hfull he => exact absurd hok (by decide)
  | @moved p s1 _ _ src rc hp hless hroom hnew hok' hsrc hmun hrc =>
    obtain rfl := hp.reg_eq hs hrange' holdpos
    have hmove := hp.moving hs hreal (roundup_page size) (hserved hless) hless hnew hok' hsrc hmun
    have hw := hmovable.moved hless fun hgrows => hroom (hset.gap_of_growsInPlace hp hgrows)
    exact remapped_moved hh hs hp hmove hless (roundup_page oldSize) (roundup_page size)
      (hserved hless) hok' hrc hw hm
  | @shrunk p _ rc hp hless hfrom hlen hmun =>
    have hrc : isErrno rc = false := by
      by_contra hno
      rw [if_pos (by simpa using hno)] at hok
      exact absurd hok (by decide)
    rw [if_neg (by simp [hrc])]
    have hupper' := hrange'.upper
    have hend : u64 (oldAddr + roundup size kmPageSize) = oldAddr + roundup size kmPageSize :=
      Nat.mod_eq_of_lt (by omega)
    rw [hend] at hfrom hmun
    obtain ⟨m', hrun, hcut⟩ := munmapNolock_cut hh hs hfrom hlen (by omega) hmun hrc file v.mem
    exact ⟨m', hrun, remapped_shrunk hs hrange' hless hm hcut⟩

end

/-! ### A page that cannot be written to -/

def mapReadOnly : MmapOp := .mmap 0 0x1000 protRead (mapPrivate ||| mapAnonymous) (-1) 0

def readOnlyPage : World := evaluate (bootedWorld.after geo512 kindHost noFiles mapReadOnly)

def readOnlyMoved : MmapState × Nat :=
  evaluate (kmGuestMremap geo512 kindHost readOnlyPage.mm 0x7fffdfd000 0x1000 0x2000
    mremapMaymove)

/-- A run with a copy passes through a state that permits the copy. -/
theorem HostRun.permits {h : Host} {log cs ds : List HostCall} {c : HostCall} {m : HostMem}
    (hrun : HostRun h file log m (ds ++ c :: cs ++ log) m') :
    (replay h file log.length cs m).Permits c := by
  obtain ⟨es, hes, -, hpermit⟩ := hrun
  obtain rfl : ds ++ c :: cs = es := List.append_cancel_right hes
  exact ((permitted_append _ _ _).1 hpermit).1.2

/-- The new mapping has the protection of the old one before the monitor copies to it: the copy
faults. -/
theorem readOnlyMoved_faults : Reach (evenSystem geo512) readOnlyPage ∧
      kmGuestMremap geo512 kindHost readOnlyPage.mm 0x7fffdfd000 0x1000 0x2000 mremapMaymove =
        some readOnlyMoved ∧ isErrno readOnlyMoved.2 = false ∧
      ∀ m', ¬ HostRun kindHost noFiles readOnlyPage.mm.mem.hostCalls readOnlyPage.mem
        readOnlyMoved.1.mem.hostCalls m' := by
  have hserved : mapReadOnly.Served geo512 booted := fun _ =>
    ⟨⟨by decide, .inr ⟨by decide +kernel, by decide +kernel⟩⟩, .inr (by decide +kernel)⟩
  refine ⟨?_, eq_eval, by decide +kernel, fun m' hrun => ?_⟩
  · exact .step (.init bootedWorld_init)
      ⟨⟨World.after_step kindHost mapReadOnly trivial eq_eval, hserved, fun _ _ => rfl,
        kindHost_steady⟩, trivial, trivial⟩
  have hlog : readOnlyMoved.1.mem.hostCalls = [.mprotect 0x7fffdfd000 0x1000 protNone, .calloc] ++
        .memcpy 0x7fffdfb000 0x7fffdfd000 0x1000 ::
          [.madvise 0x7fffdfb000 0x2000 madvDontneed, .mprotect 0x7fffdfb000 0x2000 protRead, .calloc] ++
        readOnlyPage.mm.mem.hostCalls := by decide +kernel
  rw [hlog] at hrun
  have hwrite := (hrun.permits 0 (by decide)).2
  rw [writable] at hwrite
  exact hwrite (by decide +kernel)

def privateMoved : MmapState × Nat :=
  evaluate (kmGuestMremap geo512 kindHost privateWritten.mm 0x7fffdfd000 0x1000 0x2000
    mremapMaymove)

/-- A page that was written is moved. -/
theorem mremap_keeps_memory_moved : privateMoved.2 = 0x7fffdfb000 ∧
      ∃ m', HostRun kindHost noFiles privateWritten.mm.mem.hostCalls privateWritten.mem
          privateMoved.1.mem.hostCalls m' ∧
        (m' (kmaOf geo512 0x7fffdfb000)).byte = 7 ∧ ¬ Mapped privateMoved.1.busy 0x7fffdfd000 := by
  have hret : privateMoved.2 = 0x7fffdfb000 := by decide +kernel
  have hround : roundup 0x1000 kmPageSize = 0x1000 ∧ roundup 0x2000 kmPageSize = 0x2000 := by decide
  have hmap : Reach (evenSystem geo512) privatePage :=
    Reach.step (.init bootedWorld_init)
      ⟨⟨World.after_step kindHost mapPrivatePage trivial eq_eval,
        booted_page_served mapPrivatePage (.inr rfl) (by decide +kernel), fun _ _ => rfl,
        kindHost_steady⟩, trivial, trivial⟩
  have hwrite : Reach (evenSystem geo512) privateWritten :=
    .step hmap ⟨⟨World.write_step 0x7fffdfd000 7, trivial⟩, trivial⟩
  have hcalm : (Input.call kindHost noFiles (.mremap 0x7fffdfd000 0x1000 0x2000
      mremapMaymove)).Calm geo512 privateWritten :=
    ⟨fun _ => ⟨⟨by decide, .inr ⟨by decide +kernel, by decide +kernel⟩⟩, .inr (by decide +kernel)⟩,
      fun _ _ => rfl, kindHost_steady⟩
  obtain ⟨r, hr, hrange⟩ : ∃ r ∈ privateWritten.mm.busy, r.ofMonitor = false ∧
      r.start = 0x7fffdfd000 ∧ r.stop = 0x7fffdfe000 ∧ r.protection = protRead ||| protWrite := by
    decide +kernel
  obtain ⟨hpay, hstart, hstop, hprot⟩ := hrange
  have hbehind : ∃ q ∈ privateWritten.mm.busy, q.start = 0x7fffdfe000 ∧ 0x7fffdfe000 < q.stop := by
    decide +kernel
  have hmovable : Movable privateWritten.mm r 0x7fffdfd000 (roundup 0x1000 kmPageSize)
      (roundup 0x2000 kmPageSize) := by
    refine ⟨fun _ hgrows => ?_, fun _ _ => ?_⟩
    · rcases hbehind with ⟨q, hq, hqstart, hqstop⟩
      have := hgrows.2 q hq (by omega)
      rw [hround.1, hround.2] at this
      omega
    rw [hprot]
    unfold writable
    decide
  have hcall : kmGuestMremap geo512 kindHost privateWritten.mm 0x7fffdfd000 0x1000 0x2000
      mremapMaymove = some privateMoved := eq_eval
  obtain ⟨-, -, m', hrun, hkept⟩ := mremap_keeps_memory geo512 hwrite kindHost noFiles
    0x7fffdfd000 0x1000 0x2000 mremapMaymove r hcalm
    ⟨hr, hpay, le_of_eq hstart, le_of_eq hstop.symm⟩ hmovable (by decide) privateMoved.1 privateMoved.2
    hcall (by decide +kernel)
  rw [hround.1, hround.2, hret] at hkept
  refine ⟨hret, m', hrun, ?_, hkept.freed 0x7fffdfd000 (by decide) (by decide) (by decide)⟩
  exact (hkept.bytes 0 (by decide) (by decide)).trans (by decide +kernel)

end KontainMonitor.Mmap
