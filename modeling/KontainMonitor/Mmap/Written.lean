import KontainMonitor.Mmap.Zeroing

/-!
# Written — bytes that the payload has written stay

`km_reg_make_clean` drops the pages of a region that is not clean and has no file name.  A page with
data must not be in such a region: a region gets clean before the payload can write to it, unless it
is a mapping of a file, and that one has a name.
-/

namespace KontainMonitor.Mmap

open Intervals Label Mem Transition

/-! ## A byte with data -/

/-- `km_reg_make_clean` does not drop the region, whatever its protection will be. -/
def Label.Safe (x : Label) : Prop := x.kmFlags.clean ∨ x.filename ≠ none

instance (x : Label) : Decidable x.Safe := inferInstanceAs (Decidable (_ ∨ _))

/-- A region that can be written to, or was, is safe; what was written is `v`. -/
structure Guarded (written : Bool) (v : UInt8) (x : Option Label) (c : Cell) : Prop where
  safe : ∀ y, x = some y → y.ofMonitor = false → y.protection ≠ protNone ∨ written → y.Safe
  byte : ∀ y, x = some y → y.ofMonitor = false → written → c.byte = v

variable {prot flags : BitVec 32}

section

variable {written : Bool} {v : UInt8} {c c' : Cell} {x : Label}

theorem Guarded.of_none : Guarded written v none c :=
  ⟨fun y hy => (by cases hy), fun y hy => (by cases hy)⟩

/-- A region in which nothing is written. -/
theorem Guarded.unwritten (hsafe : x.protection ≠ protNone → x.Safe) :
    Guarded false v (some x) c := by
  refine ⟨?_, ?_⟩
  · rintro y hy - (hprot | hw)
    · cases hy
      exact hsafe hprot
    · cases hw
  intro y _ _ hw
  cases hw

theorem Label.Safe.not_dirty (hx : x.Safe) : ¬ x.Dirty := by
  rintro ⟨-, hclean, hname⟩
  rcases hx with hx | hx
  · rw [hclean] at hx
    cases hx
  · exact hx hname

/-- A region that gets its protection is safe then, if the payload can use it at all. -/
theorem Label.cleaned_safe (hprot : x.protection ≠ protNone) : x.cleaned.Safe := by
  by_cases hdirty : x.Dirty
  · exact .inl (cleaned_dirty hdirty)
  rw [cleaned_of_not_dirty hdirty]
  by_contra hsafe
  rw [Label.Safe, not_or, not_not, Bool.not_eq_true] at hsafe
  exact hdirty ⟨hprot, hsafe.1, hsafe.2⟩

/-- A page with data keeps it when its protection is changed. -/
theorem Guarded.treated (h : Guarded written v (some x) c) (hpay : x.ofMonitor = false)
    (prot : BitVec 32) : Guarded written v (some ({ x with protection := prot } : Label).cleaned)
      (({ x with protection := prot } : Label).treated c) := by
  have hwritten : written → ({ x with protection := prot } : Label).Safe :=
    fun hw => h.safe x rfl hpay (.inr hw)
  refine ⟨?_, ?_⟩
  · rintro y hy - hor
    rw [Option.some.injEq] at hy
    subst hy
    rcases hor with hprot | hw
    · rw [cleaned_protection] at hprot
      exact cleaned_safe hprot
    rw [cleaned_of_not_dirty (hwritten hw).not_dirty]
    exact hwritten hw
  rintro y - - hw
  rw [treated_byte (.inl (hwritten hw).not_dirty)]
  exact h.byte x rfl hpay hw

theorem guarded_law (written : Bool) (v : UInt8) : PageLaw fun _ => Guarded written v where
  free _ _ _ _ _ := .of_none
  released _ _ _ _ _ _ _ := .of_none
  treated _ _ _ prot hpay h := h.treated hpay prot

theorem newLabel_safe (hprot : (newLabel prot flags .guest).protection ≠ protNone) :
    (newLabel prot flags .guest).Safe := by
  rw [newLabel, cleaned_protection] at hprot
  exact cleaned_safe hprot

end

/-! ## Calls -/

section

variable {g : Geometry} {h : Host} {s : MmapState} {gva size : Nat} {fd offset : Int}
variable {w : Nat → Bool} {file : FileData} {x : Label}

/-- A fixed mapping leaves a region that can be used and is not clean only with a file name: it is
of a file whose name is known, or of anonymous memory over memory without a file name. -/
def MmapOp.KeepsClean (h : Host) (s : MmapState) : MmapOp → Prop
  | .mmap gva size prot flags fd _ => flags &&& mapFixed = mapFixed → prot ≠ protNone →
      (h.kmGuestfdName (requestFd flags fd)).bind h.realpath = none →
      ∀ r ∈ s.busy, r.ofMonitor = false → r.start < gva + roundup size kmPageSize → gva < r.stop →
        r.kmFlags.clean ∨ (requestFd flags fd < 0 ∧ r.filename = none)
  | _ => True

theorem guarded_move : MoveLaw (fun _ => True) Guarded where
  law := guarded_law
  fresh _ _ _ _ _ _ _ _ _ _ _ _ _ _ := .unwritten newLabel_safe
  grown _ _ _ _ _ _ _ _ _ _ _ := .unwritten fun hprot => Label.cleaned_safe (by
    rwa [Label.cleaned_protection] at hprot)
  copied _ _ x _ hpay hnone hx _ _ _ := by
    refine ⟨fun y hy _ _ => ?_, fun _ _ _ hw => hx.byte x rfl hpay hw⟩
    rw [Option.some.injEq] at hy
    subst hy
    refine newLabel_safe ?_
    rw [newLabel, cleaned_protection]
    exact hnone

/-- A mapping over a page; the label there says whether the new region is clean. -/
theorem guarded_covers (hclean : prot ≠ protNone →
      (h.kmGuestfdName (requestFd flags fd)).bind h.realpath = none →
      x.kmFlags.clean ∨ (requestFd flags fd < 0 ∧ x.filename = none)) :
    Covers Guarded h file prot flags fd offset x := by
  intro b v c k _
  refine .unwritten fun hprot => ?_
  have hprot' : prot ≠ protNone := hprot
  by_cases hname : (h.kmGuestfdName (requestFd flags fd)).bind h.realpath = none
  · left
    rcases hclean hprot' hname with hx | ⟨hfd, hnone⟩
    · simp [mapLabel, Label.cleanAfter, hx]
    · simp [mapLabel, Label.cleanAfter, hostfd_neg hfd, hnone, hprot']
  · exact .inr hname

theorem guarded_new (hclean : flags &&& mapFixed = mapFixed → prot ≠ protNone →
      (h.kmGuestfdName (requestFd flags fd)).bind h.realpath = none →
      ∀ r ∈ s.busy, r.ofMonitor = false → r.start < gva + size → gva < r.stop →
        r.kmFlags.clean ∨ (requestFd flags fd < 0 ∧ r.filename = none)) :
    NewLaw Guarded h file s.busy gva size prot flags fd offset where
  fresh _ _ _ _ _ _ _ := .unwritten newLabel_safe
  anew := guarded_covers fun hprot _ => .inl (Label.cleaned_dirty ⟨hprot, rfl, rfl⟩)
  covers hfixed r hr hpay hlo hhi :=
    guarded_covers fun hprot hname => hclean hfixed hprot hname r hr hpay hlo hhi

theorem MmapOp.KeepsClean.makes {op : MmapOp} (hclean : op.KeepsClean h s) :
    op.Makes Guarded h file s := by
  cases op with
  | mmap gva size prot flags fd offset => exact guarded_new hclean
  | mmapSimple size =>
    have hnofix : (mapPrivate ||| mapAnonymous) &&& mapFixed ≠ mapFixed := by decide
    exact guarded_new fun hfixed => absurd hfixed hnofix
  | _ => trivial

/-! ## Runs -/

def Input.KeepsClean (w : World) : Input → Prop
  | .call h _ op => op.KeepsClean h w.mm
  | .write _ _ => True

/-- Runs in which no fixed mapping leaves memory that can be used and is not clean. -/
def cleanSystem (g : Geometry) : System World Input :=
  (calmSystem g).restrict fun w i _ => i.KeepsClean w

theorem Guarded.in_use {a : Nat} {b : UInt8} {c : Cell} (hz : Guarded (w a) b (labelAt s.busy a) c) :
    Guarded (writtenIn s w a) c.byte (labelAt s.busy a) c := by
  refine ⟨fun y hy hpay hor => hz.safe y hy hpay (hor.imp_right fun hw => ?_), fun _ _ _ _ => rfl⟩
  rw [writtenIn, Bool.and_eq_true] at hw
  exact hw.1

/-- What holds in every state of such a run. -/
theorem cleanSystem_guards {v : World} (hv : Reach (cleanSystem g) v) :
    Tracked g Guarded v.written (fun a => (v.mem (kmaOf g a)).byte) v.mm.busy v.mem := by
  have hboth : Reach (calmSystem g) v ∧
      Tracked g Guarded v.written (fun a => (v.mem (kmaOf g a)).byte) v.mm.busy v.mem := by
    refine Reach.inv (I := fun v : World => Reach (calmSystem g) v ∧
      Tracked g Guarded v.written (fun a => (v.mem (kmaOf g a)).byte) v.mm.busy v.mem) ?_ ?_ hv
    · intro v hv
      refine ⟨Reach.init hv, ?_⟩
      obtain ⟨⟨p, overcommitMemory, h, s0, hs0, hidt⟩, -⟩ := hv
      have hall := (kmInitGuestIdt_allMonitor hs0 hidt).1
      refine fun a _ => ⟨fun y hy hpay _ => ?_, fun _ _ _ _ => rfl⟩
      rw [hall.monitor_of_mapped hy] at hpay
      cases hpay
    rintro v i v' ⟨hreach, hm⟩ ⟨hstep, hclean⟩
    refine ⟨.step hreach hstep, ?_⟩
    obtain ⟨hset, hreal⟩ := gluedSystem_real (calmSystem_glued hreach)
    obtain ⟨hstep, hcalm⟩ := hstep
    cases i with
    | call h file op =>
      obtain ⟨⟨hpay, hcall⟩, hrun, hwritten⟩ := hstep
      obtain ⟨u, -, hm'⟩ := op.tracked guarded_move hcalm.2.2 hpay hcalm.1 hcalm.2.1
        (.inr fun _ _ _ _ _ hz => ⟨hz.safe, hz.byte⟩) op.grows_any hclean.makes
        (calmSystem_unwritten hreach) hset hreal hcall hrun hm
      rw [hwritten]
      exact fun b hb => (hm' b hb).in_use
    | write a u =>
      obtain ⟨⟨x, hx, hpay, hwritable⟩, rfl⟩ := hstep
      have hnone : x.protection ≠ protNone := by
        intro hnone
        rw [writable, hnone] at hwritable
        exact hwritable (by decide)
      intro b hb
      refine ⟨fun y hy hypay hor => ?_, fun _ _ _ _ => rfl⟩
      by_cases heq : b = a
      · -- a page that can be written to is safe already
        subst heq
        have hxy : some y = some x := hy.symm.trans hx
        cases hxy
        exact (hm b hb).safe x hx hpay (.inl hnone)
      simp only [World.write] at hor
      rw [Function.update_of_ne heq] at hor
      exact (hm b hb).safe y hy hypay hor
  exact hboth.2

/-- In every run in which no fixed mapping leaves memory that can be used and is not clean, the
regions of written bytes will not be dropped, and `mprotect` and `mremap` in place keep the value of
every written byte that is still mapped. -/
theorem written_bytes_kept (g : Geometry) {v : World} (hv : Reach (cleanSystem g) v) (a : Nat)
    (x : Label) (hx : labelAt v.mm.busy a = some x) (hpay : x.ofMonitor = false)
    (hw : v.written a) :
    x.Safe ∧ ∀ h file op v', op.InPlace g h v.mm → (cleanSystem g).step v (.call h file op) v' →
      Mapped v'.mm.busy a → (v'.mem (kmaOf g a)).byte = (v.mem (kmaOf g a)).byte := by
  have hcalmv : Reach (calmSystem g) v := hv.of_restrict
  obtain ⟨hset, hreal⟩ := gluedSystem_real (calmSystem_glued hcalmv)
  have hguards := cleanSystem_guards hv
  have hzone : Zone g a := by
    rcases labelAt_mem hx with ⟨r, hr, hlo, hhi, rfl⟩
    exact hset.sound.zone_of_mem hr hpay hlo hhi
  refine ⟨(hguards a hzone).safe x hx hpay (.inr hw), ?_⟩
  rintro h file op v' hplace ⟨⟨⟨⟨hop, hcall⟩, hrun, hwritten⟩, hcalm⟩, hclean⟩ hmapped
  -- the page still belongs to the payload
  obtain ⟨y, hy, hypay⟩ : ∃ y, labelAt v'.mm.busy a = some y ∧ y.ofMonitor = false := by
    have hmon := (op.call_kept hset.sound hop hcalm.1 hcall).monitor a
    rw [monitorAt, monitorAt, hx, Option.any_some, hpay] at hmon
    rcases Option.ne_none_iff_exists'.1 fun hnone => labelAt_eq_none.1 hnone hmapped with ⟨y, hy⟩
    rw [hy, Option.any_some] at hmon
    exact ⟨y, hy, hmon⟩
  obtain ⟨u, hsame, hm'⟩ := op.tracked guarded_move hcalm.2.2 hop hcalm.1 hcalm.2.1
    (.inr fun _ _ _ _ _ hz => ⟨hz.safe, hz.byte⟩) op.grows_any hclean.makes
    (calmSystem_unwritten hcalmv) hset hreal hcall hrun hguards
  obtain ⟨rfl, hstill⟩ := hsame hplace
  exact (hm' a hzone).byte y hy hypay (hstill a hw)

end

/-! ### A file mapping that was covered -/

def mapFileNone : MmapOp := .mmap 0 0x1000 protNone mapPrivate 3 0

def coverPage : MmapOp :=
  .mmap 0x7fffdfd000 0x1000 (protRead ||| protWrite) (mapPrivate ||| mapAnonymous ||| mapFixed) (-1) 0

def protectPage : MmapOp := .mprotect 0x7fffdfd000 0x1000 protRead

def fileNone : World := evaluate (bootedWorld.after geo512 filingHost noFiles mapFileNone)

def covered : World := evaluate (fileNone.after geo512 filingHost noFiles coverPage)

def coveredWritten : World := covered.write geo512 0x7fffdfd000 7

def coveredLost : World := evaluate (coveredWritten.after geo512 filingHost noFiles protectPage)

theorem filingHost_steady : filingHost.Steady :=
  ⟨fun _ _ _ _ => rfl, fun _ _ _ _ => rfl, fun _ _ _ _ _ _ => rfl⟩

/-- The region of the file is not clean, and `km_reg_make_clean` leaves it alone because of its
name.  It loses the name, and a later `mprotect` drops what was written. -/
theorem coveredLost_data : Reach (calmSystem geo512) coveredWritten ∧
      (calmSystem geo512).step coveredWritten (.call filingHost noFiles protectPage) coveredLost ∧
      coveredWritten.written 0x7fffdfd000 ∧
      (∃ x, labelAt coveredLost.mm.busy 0x7fffdfd000 = some x ∧ x.ofMonitor = false) ∧
      (coveredWritten.mem (kmaOf geo512 0x7fffdfd000)).byte = 7 ∧
      (coveredLost.mem (kmaOf geo512 0x7fffdfd000)).byte = 0 := by
  have hnofix : (mapPrivate ||| mapAnonymous ||| mapFixed) &&& mapFixed = mapFixed := by decide
  have hserved : mapFileNone.Served geo512 booted := fun _ =>
    ⟨⟨by decide, .inr ⟨by decide +kernel, by decide +kernel⟩⟩, .inr (by decide +kernel)⟩
  have hfile : Reach (calmSystem geo512) fileNone :=
    Reach.step (.init bootedWorld_init)
      ⟨World.after_step filingHost mapFileNone trivial eq_eval, hserved, fun _ _ => rfl,
        filingHost_steady⟩
  have hcover : Reach (calmSystem geo512) covered :=
    Reach.step hfile ⟨World.after_step filingHost coverPage trivial eq_eval,
      fun hno => absurd hnofix hno, fun _ _ => rfl, filingHost_steady⟩
  have hwrite : Reach (calmSystem geo512) coveredWritten :=
    .step hcover ⟨World.write_step 0x7fffdfd000 7, trivial⟩
  refine ⟨hwrite, ⟨World.after_step filingHost protectPage trivial eq_eval, trivial,
      fun _ _ => rfl, filingHost_steady⟩,
    by decide +kernel, ?_, by decide +kernel, by decide +kernel⟩
  exact ⟨evaluate (labelAt coveredLost.mm.busy 0x7fffdfd000),
    eq_eval, by decide +kernel⟩

def privatePage : World := evaluate (bootedWorld.after geo512 kindHost noFiles mapPrivatePage)

def privateWritten : World := privatePage.write geo512 0x7fffdfd000 7

def privateProtected : World := evaluate (privateWritten.after geo512 kindHost noFiles protectPage)

/-- A page of anonymous memory is written and then protected. -/
theorem written_bytes_kept_page :
    (privateProtected.mem (kmaOf geo512 0x7fffdfd000)).byte = 7 := by
  have hnofix : (mapPrivate ||| mapAnonymous) &&& mapFixed ≠ mapFixed := by decide
  have hmap : Reach (cleanSystem geo512) privatePage :=
    Reach.step (.init bootedWorld_init)
      ⟨⟨World.after_step kindHost mapPrivatePage trivial eq_eval,
        booted_page_served mapPrivatePage (.inr rfl) (by decide +kernel), fun _ _ => rfl,
        kindHost_steady⟩, fun hfixed => absurd hfixed hnofix⟩
  have hwrite : Reach (cleanSystem geo512) privateWritten :=
    .step hmap ⟨⟨World.write_step 0x7fffdfd000 7, trivial⟩, trivial⟩
  have hkept := (written_bytes_kept geo512 hwrite 0x7fffdfd000
    (evaluate (labelAt privateWritten.mm.busy 0x7fffdfd000)) eq_eval
    (by decide +kernel) (by decide +kernel)).2 kindHost noFiles protectPage privateProtected
    trivial ⟨⟨World.after_step kindHost protectPage trivial eq_eval, trivial, fun _ _ => rfl,
      kindHost_steady⟩, trivial⟩
    (mapped_of_labelAt (x := evaluate (labelAt privateProtected.mm.busy 0x7fffdfd000))
      eq_eval)
  rw [hkept]
  decide +kernel

end KontainMonitor.Mmap
