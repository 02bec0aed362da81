import KontainMonitor.Mmap.Tracked

/-!
# Zeroing — anonymous memory is zero until the payload writes it

Pages are zeroed late: a region that is not `clean` is dropped by `MADV_DONTNEED` when it first gets
a protection other than `PROT_NONE`.  That works for private anonymous memory only, so memory that is
not in use must never be shared, and shared memory has to be zero from the start.
-/

namespace KontainMonitor.Mmap

open Function Intervals Label Mem Transition

/-! ## A byte of anonymous memory -/

/-- What is known of a byte: it is zero if it was not written, provided that its region is clean. -/
structure Zeroed (written : Bool) (x : Option Label) (c : Cell) : Prop where
  base : c.base = 0
  unshared : c.shared → ∃ y, x = some y ∧ y.ofMonitor = false ∧ y.flags &&& mapShared ≠ 0
  anonymous : ∀ y, x = some y → y.ofMonitor = false →
    y.filename = none ∧ y.flags &&& mapAnonymous = mapAnonymous
  clean : ∀ y, x = some y → y.ofMonitor = false → y.protection ≠ protNone → y.kmFlags.clean
  zero : ∀ y, x = some y → y.ofMonitor = false → y.kmFlags.clean ∨ c.shared →
    written = false → c.byte = 0

variable {file : FileData} {prot flags : BitVec 32} {hostfd fd : Int}

section

variable {written : Bool} {c c' : Cell} {x y : Label}

theorem Zeroed.of_none (hbase : c.base = 0) (hshared : c.shared = false) : Zeroed written none c := by
  refine ⟨hbase, fun hs => ?_, ?_, ?_, ?_⟩
  · rw [hshared] at hs
    cases hs
  all_goals
    intro y hy
    cases hy

theorem Zeroed.private_of_none (h : Zeroed written none c) : c.shared = false := by
  by_contra hc
  rcases h.unshared (by simpa using hc) with ⟨y, hy, -⟩
  cases hy

theorem Tame.base_zero (h : Tame c c') (hc : c.base = 0) : c'.base = 0 :=
  h.base.elim (fun heq => heq.trans hc) id

theorem Cell.dontneed_base (c : Cell) : c.dontneed.base = c.base := by
  rw [Cell.dontneed, apply_ite Cell.base, ite_self]

theorem Label.treated_base (x : Label) (c : Cell) : (x.treated c).base = c.base := by
  rw [Label.treated, Label.wiped, apply_ite Cell.base, Cell.dontneed_base, ite_self]
  rfl

/-- A region that is not clean is dropped when it gets a protection. -/
theorem Label.treated_dirty (hx : x.Dirty) (hc : c.shared = false) : (x.treated c).byte = c.base := by
  have hprivate : (c.protect (protectionAdjust x.protection)).shared ≠ true := by
    rw [show (c.protect (protectionAdjust x.protection)).shared = c.shared from rfl, hc]
    decide
  rw [Label.treated, Label.wiped, if_pos hx, Cell.dontneed, if_neg hprivate]
  rfl

/-- Shared memory keeps what it has, and so does a region that is not dropped. -/
theorem Label.treated_byte (h : ¬ x.Dirty ∨ c.shared) : (x.treated c).byte = c.byte := by
  rw [Label.treated, Label.wiped]
  split
  next hx =>
    have hshared : (c.protect (protectionAdjust x.protection)).shared :=
      h.resolve_left (not_not.2 hx)
    rw [Cell.dontneed, if_pos hshared]
    rfl
  · rfl

theorem Label.cleaned_filename (x : Label) : x.cleaned.filename = x.filename := by
  simp only [Label.cleaned]
  split <;> rfl

theorem Label.cleaned_dirty (hx : x.Dirty) : x.cleaned.kmFlags.clean := by
  have hcleaned : x.cleaned = { x with kmFlags := { x.kmFlags with clean := true } } := if_pos hx
  rw [hcleaned]

theorem Label.cleaned_of_not_dirty (hx : ¬ x.Dirty) : x.cleaned = x := if_neg hx

/-- A region of anonymous memory gets its protection. -/
theorem Zeroed.treated (hpay : y.ofMonitor = false) (hbase : c.base = 0)
    (hunshared : c.shared → y.flags &&& mapShared ≠ 0)
    (hanon : y.filename = none ∧ y.flags &&& mapAnonymous = mapAnonymous)
    (hzero : y.kmFlags.clean ∨ c.shared → written = false → c.byte = 0) :
    Zeroed written (some y.cleaned) (y.treated c) := by
  refine ⟨?_, ?_, ?_, ?_, ?_⟩
  · rw [treated_base]
    exact hbase
  · rw [treated_shared]
    intro hs
    refine ⟨y.cleaned, rfl, ?_, ?_⟩
    · rw [cleaned_ofMonitor]
      exact hpay
    rw [cleaned_flags]
    exact hunshared hs
  all_goals
    intro z hz hzpay
    rw [Option.some.injEq] at hz
    subst hz
  · rw [cleaned_filename, cleaned_flags]
    exact hanon
  · intro hprot
    rw [cleaned_protection] at hprot
    by_cases hdirty : y.Dirty
    · exact cleaned_dirty hdirty
    rw [cleaned_of_not_dirty hdirty]
    by_contra hno
    exact hdirty ⟨hprot, by simpa using hno, hanon.1⟩
  rw [treated_shared]
  intro hclean hw
  cases hs : c.shared with
  | true =>
    rw [treated_byte (.inr hs)]
    exact hzero (.inr hs) hw
  | false =>
    by_cases hdirty : y.Dirty
    · rw [treated_dirty hdirty hs]
      exact hbase
    rw [cleaned_of_not_dirty hdirty, hs] at hclean
    rw [treated_byte (.inl hdirty)]
    exact hzero (.inl (hclean.resolve_right (by decide))) hw

/-- The same for a region that had a protection before. -/
theorem Zeroed.retreated (h : Zeroed written (some x) c) (hpay : x.ofMonitor = false)
    (prot : BitVec 32) : Zeroed written (some ({ x with protection := prot } : Label).cleaned)
      (({ x with protection := prot } : Label).treated c) := by
  have hflags : c.shared → x.flags &&& mapShared ≠ 0 := by
    intro hs
    rcases h.unshared hs with ⟨y, hy, -, hflags⟩
    cases hy
    exact hflags
  exact .treated hpay h.base hflags (h.anonymous x rfl hpay) (h.zero x rfl hpay)

/-- The host's protection does not matter. -/
theorem Zeroed.protect {x : Option Label} (h : Zeroed written x c) (prot : BitVec 32) :
    Zeroed written x (c.protect prot) :=
  ⟨h.base, h.unshared, h.anonymous, h.clean, h.zero⟩

theorem zeroed_law (written : Bool) : PageLaw fun _ => Zeroed written where
  free _ c c' h htame := by
    refine .of_none (htame.base_zero h.base) ?_
    by_contra hc
    have hs := htame.shared (by simpa using hc)
    rw [h.private_of_none] at hs
    cases hs
  released _ x c c' hpay h hrel := by
    refine .of_none (hrel.base_zero h.base) ?_
    by_contra hc
    rcases h.unshared (hrel.shared (by simpa using hc)) with ⟨y, hy, -, hflags⟩
    cases hy
    exact hc (hrel.unshared (.inl hflags))
  treated _ _ _ prot hpay h := h.retreated hpay prot

/-- Anonymous memory of a new region. -/
theorem Renewed.zeroed {k : Nat} (h : Renewed file prot flags hostfd k c c')
    (hanon : flags &&& mapAnonymous = mapAnonymous) {w : Bool} (hc : Zeroed w none c) :
    Zeroed written (some (newLabel prot flags .guest)) c' := by
  obtain ⟨c1, hc1, rfl⟩ := h
  have hlabel : newLabel prot flags .guest = (rawLabel prot flags).cleaned := rfl
  rw [hlabel]
  rcases hc1 with rfl | ⟨-, htame⟩
  · -- the host has made new pages
    have hzero : mapContent file (mapFixed ||| flags) hostfd k = 0 :=
      if_pos ((fixed_flags flags).2.2.trans hanon)
    rw [hzero]
    refine .treated rfl rfl (fun hs => ?_) ⟨rfl, hanon⟩ (fun _ _ => rfl)
    simp only [Cell.mapped, (fixed_flags flags).2.1, decide_eq_true_eq] at hs
    exact hs
  have hprivate : c1.shared ≠ true := by
    intro hs
    have hshared := htame.shared hs
    rw [hc.private_of_none] at hshared
    cases hshared
  refine .treated rfl (htame.base_zero hc.base) (fun hs => absurd hs hprivate) ⟨rfl, hanon⟩ ?_
  rintro (hclean | hs)
  · cases hclean
  · exact absurd hs hprivate

/-- Anonymous memory that is mapped into busy regions. -/
theorem mappedCell_zeroed (h : Host) (file : FileData) (offset : Int) (k : Nat)
    (hanon : flags &&& mapAnonymous = mapAnonymous) (hfd : fd < 0) (hhost : hostfd < 0)
    (hname : x.filename = none) :
    Zeroed written (some (mapLabel h prot flags fd (x.cleanAfter prot (hostfd < 0))))
      (mappedCell file prot flags hostfd offset k) := by
  have hzero : mapContent file (mapFixed ||| flags) hostfd (offset + (k : Int)) = 0 :=
    if_pos ((fixed_flags flags).2.2.trans hanon)
  have hmask : ~~~mapFixed &&& mapAnonymous = mapAnonymous := by decide
  rw [mappedCell, hzero]
  refine ⟨rfl, fun hs => ⟨_, rfl, rfl, ?_⟩, ?_, ?_, fun _ _ _ _ _ => rfl⟩
  · simp only [Cell.mapped, (fixed_flags flags).2.1, decide_eq_true_eq] at hs
    simpa only [mapLabel, mapShared_not_fixed] using hs
  all_goals
    intro z hz _
    cases hz
  · refine ⟨?_, ?_⟩
    · simp only [mapLabel, h.kmGuestfdName_neg fd hfd]
      rfl
    simp only [mapLabel, BitVec.and_assoc, hmask]
    exact hanon
  intro hprot
  have hprot' : prot ≠ protNone := hprot
  simp [mapLabel, Label.cleanAfter, hprot', hname, hhost]

end

/-! ## Calls -/

section

variable {g : Geometry} {h : Host} {s : MmapState} {busy : List Reg} {gva size : Nat} {offset : Int}
variable {w : Nat → Bool} {a : Nat} {v : World} {x : Label} {b : Bool} {c : Cell}

/-- Pages that a region of anonymous memory gets when it grows. -/
theorem Zeroed.grown (hpay : x.ofMonitor = false)
    (hanon : x.filename = none ∧ x.flags &&& mapAnonymous = mapAnonymous) (hz : Zeroed b none c) :
    Zeroed false (some x.cleaned) (x.treated (if x.kmFlags.clean then c.dontneed else c)) := by
  have hprivate := hz.private_of_none
  have hdrop : (if x.kmFlags.clean then c.dontneed else c).shared = false := by
    rw [apply_ite Cell.shared, Cell.dontneed_shared, ite_self]
    exact hprivate
  have hbase : (if x.kmFlags.clean then c.dontneed else c).base = 0 := by
    rw [apply_ite Cell.base, Cell.dontneed_base, ite_self]
    exact hz.base
  refine .treated hpay hbase (fun hs => ?_) hanon ?_
  · rw [hdrop] at hs
    cases hs
  rintro (hclean | hs) -
  · rw [if_pos hclean, Cell.dontneed, if_neg (by rw [hprivate]; decide)]
    exact hz.base
  rw [hdrop] at hs
  cases hs

theorem zeroed_move : MoveLaw (fun _ => True) fun b _ => Zeroed b where
  law b _ := zeroed_law b
  fresh _ _ x _ hpay hx _ _ _ _ _ _ hz hren := hren.zeroed (hx.anonymous x rfl hpay).2 hz
  grown _ _ x _ hpay _ hx _ _ _ hz := hz.grown hpay (hx.anonymous x rfl hpay)
  copied _ _ x _ hpay hnone hx _ _ hz := ⟨hz.base, hz.unshared, hz.anonymous, hz.clean,
    fun _ _ _ _ hw => hx.zero x rfl hpay (.inl (hx.clean x rfl hpay hnone)) hw⟩

theorem zeroed_covers (hanon : flags &&& mapAnonymous = mapAnonymous) (hpay : x.ofMonitor = false) :
    Covers (fun b _ => Zeroed b) h file prot flags fd offset x := by
  intro b v c k hz
  have hfd : requestFd flags fd < 0 := by
    rw [requestFd, if_pos hanon]
    decide
  exact mappedCell_zeroed h file offset k hanon hfd (hostfd_neg hfd) (hz.anonymous x rfl hpay).1

theorem zeroed_new (hanon : flags &&& mapAnonymous = mapAnonymous) :
    NewLaw (fun b _ => Zeroed b) h file busy gva size prot flags fd offset where
  fresh _ _ _ _ _ hz hren := hren.zeroed hanon hz
  anew := zeroed_covers hanon (newLabel_ofMonitor prot flags)
  covers _ _ _ hpay _ _ := zeroed_covers hanon hpay

/-! ## Runs -/

def MmapOp.Anonymous : MmapOp → Prop
  | .mmap _ _ _ flags _ _ => flags &&& mapAnonymous = mapAnonymous
  | _ => True

def Input.Anonymous : Input → Prop
  | .call _ _ op => op.Anonymous
  | .write _ _ => True

def anonymousSystem (g : Geometry) : System World Input :=
  (worldSystem g).restrict fun _ i _ => i.Anonymous

def calmAnonymousSystem (g : Geometry) : System World Input :=
  (calmSystem g).restrict fun _ i _ => i.Anonymous

theorem MmapOp.Anonymous.makes {op : MmapOp} (hanon : op.Anonymous) :
    op.Makes (fun b _ => Zeroed b) h file s := by
  cases op with
  | mmap gva size prot flags fd offset => exact zeroed_new hanon
  | mmapSimple size => exact zeroed_new (by decide)
  | _ => trivial

/-- Only what is mapped matters. -/
theorem Zeroed.in_use {c : Cell} (hz : Zeroed (w a) (labelAt s.busy a) c) :
    Zeroed (writtenIn s w a) (labelAt s.busy a) c := by
  refine ⟨hz.base, hz.unshared, hz.anonymous, hz.clean, fun y hy hpay hclean hw => ?_⟩
  rw [writtenIn, hy, Option.isSome_some, Bool.and_true] at hw
  exact hz.zero y hy hpay hclean hw

/-- Nothing of the payload is mapped at first. -/
theorem zeroed_init (hv : (worldSystem g).init v) :
    Pages g (fun a => Zeroed (v.written a)) v.mm.busy v.mem := by
  obtain ⟨⟨p, overcommitMemory, h, s0, hs0, hidt⟩, hmem, -⟩ := hv
  have hall := (kmInitGuestIdt_allMonitor hs0 hidt).1
  intro a ha
  obtain ⟨hshared, hbase⟩ := hmem a ha
  refine ⟨hbase, fun hs => ?_, ?_, ?_, ?_⟩
  · rw [hshared] at hs
    cases hs
  all_goals
    intro y hy hpay
    rw [hall.monitor_of_mapped hy] at hpay
    cases hpay

theorem calmAnonymousSystem_zeroed (hv : Reach (calmAnonymousSystem g) v) :
    Pages g (fun a => Zeroed (v.written a)) v.mm.busy v.mem := by
  have hboth : Reach (calmSystem g) v ∧ Pages g (fun a => Zeroed (v.written a)) v.mm.busy v.mem := by
    refine Reach.inv (I := fun v : World => Reach (calmSystem g) v ∧
      Pages g (fun a => Zeroed (v.written a)) v.mm.busy v.mem) ?_ ?_ hv
    · intro v hv
      exact ⟨Reach.init hv, zeroed_init hv⟩
    rintro v i v' ⟨hreach, hm⟩ ⟨hstep, hanon⟩
    refine ⟨Reach.step hreach hstep, ?_⟩
    obtain ⟨hset, hreal⟩ := gluedSystem_real (calmSystem_glued hreach)
    obtain ⟨hstep, hcalm⟩ := hstep
    cases i with
    | call h file op =>
      obtain ⟨⟨hpay, hcall⟩, hrun, hwritten⟩ := hstep
      rw [hwritten]
      have hm0 : Tracked g (fun b _ => Zeroed b) v.written (fun _ => 0) v.mm.busy v.mem := hm
      obtain ⟨u, -, hm'⟩ := op.tracked zeroed_move hcalm.2.2 hpay hcalm.1 hcalm.2.1
        (.inr fun _ _ _ _ prot hz => hz.protect prot) op.grows_any hanon.makes
        (calmSystem_unwritten hreach) hset hreal hcall hrun hm0
      exact fun b hb => (hm' b hb).in_use
    | write a u =>
      obtain ⟨⟨x, hx, hpay, -⟩, rfl⟩ := hstep
      refine pages_of_write hset.sound hx hpay ?_ ?_ hm
      · intro b y c hne hz
        simp only [World.write]
        rw [update_of_ne hne]
        exact hz
      intro c hz
      refine ⟨hz.base, hz.unshared, hz.anonymous, hz.clean, fun _ _ _ _ hw => ?_⟩
      -- this byte is written now
      simp only [World.write, update_self] at hw
      cases hw
  exact hboth.2

/-- In every run of a payload that uses anonymous memory and whose requests are served, a byte of a
mapping that can be read is zero until the payload writes it. -/
theorem anonymous_memory_zero (g : Geometry) {v : World} (hv : Reach (calmAnonymousSystem g) v)
    (a : Nat) (x : Label) (hx : labelAt v.mm.busy a = some x) (hpay : x.ofMonitor = false)
    (hread : readable x.protection) (hw : v.written a = false) : (v.mem (kmaOf g a)).byte = 0 := by
  obtain ⟨hset, -⟩ := gluedSystem_real (calmSystem_glued hv.of_restrict)
  rcases labelAt_mem hx with ⟨r, hr, hlo, hhi, rfl⟩
  have hz := calmAnonymousSystem_zeroed hv a (hset.sound.zone_of_mem hr hpay hlo hhi)
  rw [hx] at hz
  have hnone : r.label.protection ≠ protNone := by
    intro hnone
    rw [readable, hnone] at hread
    exact hread (by decide)
  exact hz.zero r.label rfl hpay (.inl (hz.clean r.label rfl hpay hnone)) hw

end

/-! ### Memory that was shared -/

def noFiles : FileData := fun _ _ => 0

def bootedWorld : World :=
  { mm := booted
    mem := fun _ => { byte := 0, base := 0, shared := false, prot := protNone }
    written := fun _ => false }

theorem bootedWorld_init : (worldSystem geo512).init bootedWorld :=
  ⟨booted_init, fun _ _ => ⟨rfl, rfl⟩, fun _ => rfl⟩

/-- A host that has no room for another mapping when memory is given back to it. -/
def fullHost : Host := { kindHost with ok := fun _ c => match c with
  | .mmap _ _ prot _ _ _ => prot ≠ protNone
  | _ => true }

def mapSharedPage : MmapOp :=
  .mmap 0 0x1000 (protRead ||| protWrite) (mapShared ||| mapAnonymous) (-1) 0

def mapPrivatePage : MmapOp :=
  .mmap 0 0x1000 (protRead ||| protWrite) (mapPrivate ||| mapAnonymous) (-1) 0

def unmapPage : MmapOp := .munmap 0 0 0x7fffdfd000 0x1000

def sharedPage : World := evaluate (bootedWorld.after geo512 kindHost noFiles mapSharedPage)

def sharedWritten : World := sharedPage.write geo512 0x7fffdfd000 7

def sharedGone : World := evaluate (sharedWritten.after geo512 fullHost noFiles unmapPage)

def sharedLeaked : World := evaluate (sharedGone.after geo512 kindHost noFiles mapPrivatePage)

theorem mapSharedPage_anonymous : mapSharedPage.Anonymous :=
  show (mapShared ||| mapAnonymous) &&& mapAnonymous = mapAnonymous by decide

theorem mapPrivatePage_anonymous : mapPrivatePage.Anonymous :=
  show (mapPrivate ||| mapAnonymous) &&& mapAnonymous = mapAnonymous by decide

theorem booted_page_served {s : MmapState} (op : MmapOp)
    (hop : op = mapSharedPage ∨ op = mapPrivatePage) (ht : s.mem.tbrk = 0x7fffdfe000) :
    op.Served geo512 s := by
  have hsized : WellSized geo512 s (roundup 0x1000 kmPageSize) := by
    refine ⟨⟨by decide, .inr ⟨?_, ?_⟩⟩, .inr ?_⟩ <;> rw [ht] <;> decide
  rcases hop with rfl | rfl
  · exact fun _ => hsized
  · exact fun _ => hsized

/-- A shared page is unmapped while the host cannot make it private again, which is only warned
about.  The page is then given out as private memory: `MADV_DONTNEED` does not drop shared memory,
and what was in it can be read. -/
theorem sharedLeaked_not_zero : Reach (anonymousSystem geo512) sharedLeaked ∧
      (∃ x, labelAt sharedLeaked.mm.busy 0x7fffdfd000 = some x ∧ x.ofMonitor = false ∧
        x.protection = protRead ||| protWrite ∧ x.flags &&& mapShared = 0) ∧
      sharedLeaked.written 0x7fffdfd000 = false ∧
      (sharedLeaked.mem (kmaOf geo512 0x7fffdfd000)).byte = 7 := by
  have hmap : Reach (anonymousSystem geo512) sharedPage :=
    Reach.step (.init bootedWorld_init)
      ⟨World.after_step kindHost mapSharedPage trivial eq_eval,
        mapSharedPage_anonymous⟩
  have hwrite : Reach (anonymousSystem geo512) sharedWritten :=
    .step hmap ⟨World.write_step 0x7fffdfd000 7, trivial⟩
  have hgone : Reach (anonymousSystem geo512) sharedGone :=
    Reach.step hwrite ⟨World.after_step fullHost unmapPage trivial eq_eval,
        trivial⟩
  have hleak : Reach (anonymousSystem geo512) sharedLeaked :=
    Reach.step hgone ⟨World.after_step kindHost mapPrivatePage trivial eq_eval,
        mapPrivatePage_anonymous⟩
  refine ⟨hleak, ⟨evaluate (labelAt sharedLeaked.mm.busy 0x7fffdfd000),
    eq_eval, by decide +kernel, by decide +kernel, by decide +kernel⟩,
    by decide +kernel, by decide +kernel⟩

def sharedDropped : World := evaluate (sharedWritten.after geo512 kindHost noFiles unmapPage)

def pageAgain : World := evaluate (sharedDropped.after geo512 kindHost noFiles mapPrivatePage)

theorem kindHost_steady : kindHost.Steady :=
  ⟨fun _ _ _ _ => rfl, fun _ _ _ _ => rfl, fun _ _ _ _ _ _ => rfl⟩

/-- With a host that refuses nothing the page is zero. -/
theorem anonymous_memory_zero_again : sharedWritten.mem (kmaOf geo512 0x7fffdfd000) ≠
        sharedPage.mem (kmaOf geo512 0x7fffdfd000) ∧
      (pageAgain.mem (kmaOf geo512 0x7fffdfd000)).byte = 0 := by
  refine ⟨by decide +kernel, ?_⟩
  have hmap : Reach (calmAnonymousSystem geo512) sharedPage :=
    Reach.step (.init bootedWorld_init)
      ⟨⟨World.after_step kindHost mapSharedPage trivial eq_eval,
        booted_page_served mapSharedPage (.inl rfl) (by decide +kernel), fun _ _ => rfl,
        kindHost_steady⟩, mapSharedPage_anonymous⟩
  have hwrite : Reach (calmAnonymousSystem geo512) sharedWritten :=
    .step hmap ⟨⟨World.write_step 0x7fffdfd000 7, trivial⟩, trivial⟩
  have hdrop : Reach (calmAnonymousSystem geo512) sharedDropped :=
    Reach.step hwrite ⟨⟨World.after_step kindHost unmapPage trivial eq_eval,
        trivial, fun _ _ => rfl, kindHost_steady⟩, trivial⟩
  have hagain : Reach (calmAnonymousSystem geo512) pageAgain :=
    Reach.step hdrop ⟨⟨World.after_step kindHost mapPrivatePage trivial eq_eval,
        booted_page_served mapPrivatePage (.inr rfl) (by decide +kernel), fun _ _ => rfl,
        kindHost_steady⟩, mapPrivatePage_anonymous⟩
  exact anonymous_memory_zero geo512 hagain 0x7fffdfd000
    (evaluate (labelAt pageAgain.mm.busy 0x7fffdfd000)) eq_eval
    (by decide +kernel) (by unfold readable; decide +kernel) (by decide +kernel)

end KontainMonitor.Mmap
