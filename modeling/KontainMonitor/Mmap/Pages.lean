import KontainMonitor.Mmap.Runs

/-!
# Pages — the busy list as a map from addresses

`labelAt` reads a list of regions as a map from addresses to what the monitor knows about the page
there.  Cutting and merging regions do not change the map; what the walk over a range does to it is
`Action.pages`, and `kmMmapBusyRangeApply_pages` is the law, for any number and arrangement of
regions.
-/

namespace KontainMonitor.Mmap

open KontainMonitor.Mmap.Action Intervals List Mem Option Reg

/-! ## Labels -/

/-- What `ok_to_concat` compares of two regions. -/
structure Label where
  flags : BitVec 32
  protection : BitVec 32
  kmFlags : KmFlags
  filename : Option String
  deriving DecidableEq, Repr

def Reg.label (r : Reg) : Label :=
  { flags := r.flags, protection := r.protection, kmFlags := r.kmFlags, filename := r.filename }

def Label.ofMonitor (x : Label) : Bool := x.kmFlags.monitor || x.kmFlags.partOfMonitor

/-- What `km_reg_make_clean` does to the label of a region. -/
def Label.cleaned (x : Label) : Label :=
  if x.protection ≠ protNone ∧ x.kmFlags.clean = false ∧ x.filename = none then
    { x with kmFlags := { x.kmFlags with clean := true } }
  else x

theorem Label.cleaned_cleaned (x : Label) : x.cleaned.cleaned = x.cleaned := by
  simp only [Label.cleaned]
  split <;> simp_all

/-- What the walk makes of a page of the payload; `none` if it is not mapped any more. -/
def Action.relabel (action : Action) (mreg : Reg) (x : Label) : Option Label :=
  match action with
  | .moveToFree => none
  | .mprotect => some { x with protection := mreg.protection }.cleaned
  | .regionCleanConcat =>
    let y := { x with protection := mreg.protection, flags := BitVec.allOnes 32 }
    let z := if mreg.kmFlags.clean then y.cleaned else y
    some { z with filename := none }

def Action.pages (action : Action) (mreg : Reg) (old : Nat → Option Label) (a : Nat) : Option Label :=
  (old a).bind fun x =>
    if mreg.start ≤ a ∧ a < mreg.stop ∧ x.ofMonitor = false then action.relabel mreg x else some x

variable {a : Nat} {y : Label} {l : List Reg} {r : Reg} {rm : Bool} {p : Pos} {s s' : MmapState}
variable {xs ys : List Reg} {m : Reg}

theorem Action.pages_none {action : Action} {mreg : Reg} {old : Nat → Option Label}
    (h : old a = none) : action.pages mreg old a = old a := by
  simp [Action.pages, h]

theorem Action.pages_outside {action : Action} {mreg : Reg} {old : Nat → Option Label}
    (h : ¬ (mreg.start ≤ a ∧ a < mreg.stop)) : action.pages mreg old a = old a := by
  have hno : ∀ x : Label, ¬ (mreg.start ≤ a ∧ a < mreg.stop ∧ x.ofMonitor = false) :=
    fun x hx => h ⟨hx.1, hx.2.1⟩
  simp only [Action.pages, hno, if_false]
  cases old a <;> rfl

theorem Action.pages_monitor {action : Action} {mreg : Reg} {old : Nat → Option Label} {x : Label}
    (h : old a = some x) (hx : x.ofMonitor) : action.pages mreg old a = old a := by
  simp [Action.pages, h, hx]

theorem Action.pages_inside {action : Action} {mreg : Reg} {old : Nat → Option Label} {x : Label}
    (h : old a = some x) (hlo : mreg.start ≤ a) (hhi : a < mreg.stop) (hx : x.ofMonitor = false) :
    action.pages mreg old a = action.relabel mreg x := by
  simp [Action.pages, h, hlo, hhi, hx]

/-- Changing the protection a second time changes nothing. -/
theorem Action.relabel_mprotect {mreg : Reg} {x : Label}
    (h : Action.mprotect.relabel mreg x = some y) : Action.mprotect.relabel mreg y = some y := by
  simp only [Action.relabel, Option.some.injEq] at h ⊢
  subst h
  have hprot : ({ x with protection := mreg.protection } : Label).cleaned.protection =
      mreg.protection := by
    simp only [Label.cleaned]
    split <;> rfl
  have hself : ∀ z : Label, z.protection = mreg.protection →
      { z with protection := mreg.protection } = z := by
    rintro ⟨f, p, k, n⟩ rfl
    rfl
  rw [hself _ hprot, Label.cleaned_cleaned]

/-! ## Maps -/

abbrev regAt (l : List Reg) (a : Nat) : Option Reg := lookup Reg.start Reg.stop l a

/-- What the list says about the page at an address. -/
def labelAt (l : List Reg) (a : Nat) : Option Label := (regAt l a).map Reg.label

@[simp] theorem labelAt_nil (a : Nat) : labelAt [] a = none := rfl

theorem labelAt_cons (r : Reg) (l : List Reg) (a : Nat) :
    labelAt (r :: l) a = if r.start ≤ a ∧ a < r.stop then some r.label else labelAt l a := by
  simp only [labelAt, regAt, lookup_cons]
  split <;> rfl

theorem labelAt_append (l m : List Reg) (a : Nat) :
    labelAt (l ++ m) a = (labelAt l a).or (labelAt m a) := by
  simp only [labelAt, regAt, lookup_append]
  cases lookup Reg.start Reg.stop l a <;> rfl

theorem labelAt_eq_none : labelAt l a = none ↔ ¬ Mapped l a := by
  simp [labelAt, regAt, lookup_eq_none]

theorem labelAt_below (h : ∀ r ∈ l, a < r.start) : labelAt l a = none :=
  labelAt_eq_none.2 (not_covers_of_lt h)

theorem labelAt_above (h : ∀ r ∈ l, r.stop ≤ a) : labelAt l a = none :=
  labelAt_eq_none.2 (not_covers_of_le h)

theorem labelAt_mem {x : Label} (h : labelAt l a = some x) :
    ∃ r ∈ l, r.start ≤ a ∧ a < r.stop ∧ r.label = x := by
  simp only [labelAt, map_eq_some_iff] at h
  rcases h with ⟨r, hr, rfl⟩
  obtain ⟨hmem, hlo, hhi⟩ := lookup_mem hr
  exact ⟨r, hmem, hlo, hhi, rfl⟩

theorem labelAt_of_mem {d : Nat} (h : Apart d l) (hr : r ∈ l) (hlo : r.start ≤ a)
    (hhi : a < r.stop) : labelAt l a = some r.label := by
  rw [labelAt, regAt, h.lookup_eq hr hlo hhi, map_some]

/-- Exchanging a segment for one with the same map. -/
theorem labelAt_replace (xs ys : List Reg) {ms ms' : List Reg} (h : labelAt ms' a = labelAt ms a) :
    labelAt (xs ++ ms' ++ ys) a = labelAt (xs ++ ms ++ ys) a := by
  simp only [labelAt_append, h]

/-! ## Cutting and merging -/

theorem label_splitAt (r : Reg) (c : Nat) :
    (r.splitAt c).1.label = r.label ∧ (r.splitAt c).2.label = r.label := ⟨rfl, rfl⟩

theorem splitAt_bounds {c : Nat} (hlo : r.start < c) (hhi : c < r.stop) :
    (r.splitAt c).1.start = r.start ∧ (r.splitAt c).1.stop = c ∧ (r.splitAt c).2.start = c ∧
      (r.splitAt c).2.stop = r.stop := by
  simp only [Reg.splitAt, Reg.stop] at hhi ⊢
  refine ⟨trivial, ?_, trivial, ?_⟩ <;> omega

theorem labelAt_splitAt {c : Nat} (hlo : r.start < c) (hhi : c < r.stop) (l : List Reg) (a : Nat) :
    labelAt ((r.splitAt c).1 :: (r.splitAt c).2 :: l) a = labelAt (r :: l) a := by
  obtain ⟨h1, h2, h3, h4⟩ := splitAt_bounds hlo hhi
  rw [labelAt_cons, labelAt_cons, labelAt_cons, (label_splitAt r c).1, (label_splitAt r c).2]
  by_cases hin : r.start ≤ a ∧ a < r.stop
  · rw [if_pos hin]
    by_cases hc : a < c
    · rw [if_pos (by omega)]
    · rw [if_neg (by omega), if_pos (by omega)]
  · rw [if_neg (by omega), if_neg (by omega), if_neg hin]

/-- A region of a list has its pages for itself. -/
theorem labelAt_remove (hsorted : Apart 0 (xs ++ r :: ys)) (a : Nat) : labelAt (xs ++ ys) a =
      if r.start ≤ a ∧ a < r.stop then none else labelAt (xs ++ r :: ys) a := by
  split
  next hin =>
    rw [labelAt_eq_none]
    rw [append_cons] at hsorted
    exact hsorted.not_covers_rest (by simpa using hin)
  next hout =>
    rw [labelAt_append, labelAt_append, labelAt_cons, if_neg hout]

theorem labelAt_relabel {r' : Reg} (hsorted : Apart 0 (xs ++ r :: ys)) (hext : SameExtent r r')
    (a : Nat) : labelAt (xs ++ r' :: ys) a =
      if r.start ≤ a ∧ a < r.stop then some r'.label else labelAt (xs ++ r :: ys) a := by
  have hrest := labelAt_remove hsorted a
  rw [labelAt_append, labelAt_cons, hext.start, hext.stop]
  split
  next hin =>
    rw [if_pos hin, labelAt_append, or_eq_none_iff] at hrest
    rw [hrest.1, none_or]
  next hout =>
    rw [labelAt_append, labelAt_cons, if_neg hout]

theorem okToConcat_label {l : Reg} (h : okToConcat rm l r) :
    l.fin = r.start ∧ l.label = r.label := by
  simp only [okToConcat] at h
  split at h
  · cases h
  split at h
  · cases h
  rename_i hname
  rw [decide_eq_true_eq] at h
  rw [not_not] at hname
  exact ⟨h.1, by simp [Reg.label, hname, h.2.1, h.2.2.1, h.2.2.2]⟩

/-- Two regions that touch and have the same label read like one. -/
theorem labelAt_glue {l : Reg} (htouch : l.stop = r.start) (hlabel : l.label = r.label)
    (hstart : m.start = l.start) (hsize : m.size = l.size + r.size) (hm : m.label = r.label)
    (a : Nat) : labelAt [m] a = labelAt [l, r] a := by
  have hstop := Reg.stop_glued htouch hstart hsize
  have hl := l.start_le_stop
  have hr := r.start_le_stop
  rw [labelAt_cons, labelAt_cons, labelAt_cons, labelAt_nil, hm, hlabel]
  by_cases hin : m.start ≤ a ∧ a < m.stop
  · rw [if_pos hin]
    by_cases hc : a < r.start
    · rw [if_pos (by omega)]
    · rw [if_neg (by omega), if_pos (by omega)]
  · rw [if_neg hin, if_neg (by omega), if_neg (by omega)]

theorem labelAt_concatLeft (hwrap : ∀ r ∈ p.toList, r.stop < 2 ^ 64) (a : Nat) :
    labelAt (concatLeft rm p).toList a = labelAt p.toList a := by
  obtain ⟨left, reg, right⟩ := p
  cases left with
  | nil => rfl
  | cons l ls =>
    simp only [concatLeft]
    split
    next hok =>
      obtain ⟨htouch, hlabel⟩ := okToConcat_label hok
      rw [fin_eq (hwrap l (by simp [Pos.toList]))] at htouch
      have hsize := u64_sizes htouch (hwrap reg (by simp [Pos.toList]))
      have hglue := labelAt_glue (m := { reg with start := l.start, size := u64 (reg.size + l.size) })
        htouch hlabel rfl (by rw [add_comm, hsize]) rfl a
      have := labelAt_replace ls.reverse right hglue
      simpa [Pos.toList] using this
    · rfl

theorem labelAt_concatRight (hwrap : ∀ r ∈ p.toList, r.stop < 2 ^ 64) (a : Nat) :
    labelAt (concatRight rm p).toList a = labelAt p.toList a := by
  obtain ⟨left, reg, right⟩ := p
  cases right with
  | nil => rfl
  | cons r rs =>
    simp only [concatRight]
    split
    next hok =>
      obtain ⟨htouch, hlabel⟩ := okToConcat_label hok
      rw [fin_eq (hwrap reg (by simp [Pos.toList]))] at htouch
      have hglue := labelAt_glue (m := { reg with size := u64 (reg.size + r.size) })
        htouch hlabel rfl (u64_sizes htouch (hwrap r (by simp [Pos.toList]))) hlabel a
      have := labelAt_replace left.reverse rs hglue
      simpa [Pos.toList] using this
    · rfl

theorem labelAt_concat {g : Geometry} {lo hi : Nat} (hp : Holed g s p.toList lo hi) (a : Nat) :
    labelAt (kmMmapConcat rm p).toList a = labelAt p.toList a := by
  rw [kmMmapConcat, labelAt_concatRight fun r hr => ((concatLeft_inv hp).busy_ok r hr).no_wrap]
  exact labelAt_concatLeft (fun r hr => (hp.busy_ok r hr).no_wrap) a

/-! ## The label of a region that is changed -/

theorem kmRegMakeClean_label (g : Geometry) (s : MmapState) (reg : Reg) :
    (kmRegMakeClean g s reg).2.label = reg.label.cleaned := by
  by_cases h : reg.protection ≠ protNone ∧ reg.kmFlags.clean = false ∧ reg.filename = none
  · have hlabel : reg.label.cleaned =
        { reg.label with kmFlags := { reg.kmFlags with clean := true } } := if_pos h
    rw [kmRegMakeClean, if_pos h, hlabel]
    rfl
  have hlabel : reg.label.cleaned = reg.label := if_neg h
  rw [kmRegMakeClean, if_neg h, hlabel]

theorem kmMmapMprotectRegion_label (g : Geometry) (s : MmapState) (reg : Reg) :
    (kmMmapMprotectRegion g s reg).2.label = reg.label.cleaned := by
  simp only [kmMmapMprotectRegion]
  exact kmRegMakeClean_label _ _ _

theorem kmMmapRegionClean_label (g : Geometry) (s : MmapState) (mreg reg : Reg)
    (hprot : reg.protection = mreg.protection) :
    Action.regionCleanConcat.relabel mreg reg.label = some (kmMmapRegionClean g s mreg reg).2.label := by
  have hclean := kmRegMakeClean_label g s { reg with flags := BitVec.allOnes 32 }
  simp only [Action.relabel, kmMmapRegionClean, Option.some.injEq]
  split
  · simp only [Reg.label, ← hprot] at hclean ⊢
    rw [← hclean]
  · simp only [Reg.label, hprot]

theorem Action.treat_label {action : Action} (hact : action ≠ .moveToFree) (g : Geometry)
    (s : MmapState) (mreg reg : Reg) :
    action.relabel mreg reg.label = some (action.treat g mreg s reg).2.label := by
  cases action with
  | mprotect =>
    exact congrArg some
      (kmMmapMprotectRegion_label g s { reg with protection := mreg.protection }).symm
  | regionCleanConcat =>
    exact kmMmapRegionClean_label g s mreg { reg with protection := mreg.protection } rfl
  | moveToFree => exact absurd rfl hact

/-- The owner of a page does not change. -/
theorem Action.relabel_ofMonitor {action : Action} {mreg : Reg} {x : Label}
    (h : action.relabel mreg x = some y) : y.ofMonitor = x.ofMonitor := by
  have hclean : ∀ z : Label, z.cleaned.ofMonitor = z.ofMonitor := by
    intro z
    simp only [Label.cleaned]
    split <;> rfl
  cases action with
  | mprotect =>
    simp only [Action.relabel, Option.some.injEq] at h
    rw [← h, hclean]
    rfl
  | regionCleanConcat =>
    simp only [Action.relabel, Option.some.injEq] at h
    rw [← h]
    simp only [Label.ofMonitor]
    split
    · exact hclean _
    · rfl
  | moveToFree => cases h

/-! ## The walk -/

/-- A region of the payload does not have the fake flags that `km_mmap_region_clean_concat` leaves. -/
def Reg.Real (r : Reg) : Prop := r.ofMonitor = false → r.flags ≠ BitVec.allOnes 32

/-- A point of the walk over the range of `mreg`: below `c` the map is what the walk makes of it,
from `c` on the old one.  A relabelled region is glued to the next one only if that has the fake
flags too, and no region has them to begin with. -/
structure Walked (action : Action) (mreg : Reg) (old : Nat → Option Label) (left right : List Reg)
    (c : Nat) : Prop where
  before : ∀ r ∈ left, r.stop ≤ c
  after : ∀ r ∈ right, c ≤ r.start
  done : ∀ a, a < c → labelAt left.reverse a = action.pages mreg old a
  rest : ∀ a, c ≤ a → labelAt right a = old a
  real : action = .regionCleanConcat → ∀ r ∈ right, r.Real

section Walk

variable {action : Action} {mreg reg : Reg} {old : Nat → Option Label} {left right : List Reg}
  {c : Nat}

/-- The whole map at a point of the walk. -/
theorem Walked.labelAt (hw : Walked action mreg old left right c) (a : Nat) :
    labelAt (left.reverse ++ right) a = if a < c then action.pages mreg old a else old a := by
  rw [labelAt_append]
  split
  next hlt =>
    have hright : Mmap.labelAt right a = none :=
      labelAt_below fun r hr => lt_of_lt_of_le hlt (hw.after r hr)
    rw [hright, or_none, hw.done a hlt]
  rename_i hge
  have hleft : Mmap.labelAt left.reverse a = none :=
    labelAt_above fun r hr => le_trans (hw.before r (mem_reverse.1 hr)) (not_lt.1 hge)
  rw [hleft, none_or, hw.rest a (not_lt.1 hge)]

/-- The walk passes the segment `ms`, and leaves `ms'` in its place. -/
theorem Walked.advance (ms ms' : List Reg) {c' : Nat}
    (hw : Walked action mreg old left (ms ++ right) c) (hc : c ≤ c')
    (hms : ∀ r ∈ ms, r.stop ≤ c') (hms' : ∀ r ∈ ms', c ≤ r.start ∧ r.stop ≤ c')
    (hright : ∀ r ∈ right, c' ≤ r.start)
    (hlabel : ∀ a, c ≤ a → a < c' → Mmap.labelAt ms' a = action.pages mreg old a) :
    Walked action mreg old (ms'.reverse ++ left) right c' where
  before r hr := by
    rcases mem_append.1 hr with hr | hr
    · exact (hms' r (mem_reverse.1 hr)).2
    · exact le_trans (hw.before r hr) hc
  after := hright
  done a ha := by
    rw [reverse_append, reverse_reverse, labelAt_append]
    rcases lt_or_ge a c with hlt | hge
    · have hnone : Mmap.labelAt ms' a = none :=
        labelAt_below fun r hr => lt_of_lt_of_le hlt (hms' r hr).1
      rw [hnone, or_none, hw.done a hlt]
    have hnone : Mmap.labelAt left.reverse a = none :=
      labelAt_above fun r hr => le_trans (hw.before r (mem_reverse.1 hr)) hge
    rw [hnone, none_or, hlabel a hge ha]
  rest a ha := by
    have hnone : Mmap.labelAt ms a = none := labelAt_above fun r hr => le_trans (hms r hr) ha
    have := hw.rest a (le_trans hc ha)
    rwa [labelAt_append, hnone, none_or] at this
  real ha r hr := hw.real ha r (mem_append_right _ hr)

section

variable (hw : Walked action mreg old left (reg :: right) c)
include hw

/-- Up to the end of the next region the old map is that region. -/
theorem Walked.old_eq (hright : ∀ r ∈ right, reg.stop ≤ r.start) (hlo : c ≤ a) (hhi : a < reg.stop) :
    Mmap.labelAt [reg] a = old a := by
  have hnone : Mmap.labelAt right a = none :=
    labelAt_below fun r hr => lt_of_lt_of_le hhi (hright r hr)
  have hrest := hw.rest a hlo
  rw [labelAt_cons, hnone] at hrest
  rw [labelAt_cons, labelAt_nil, hrest]

theorem Walked.skip (hright : ∀ r ∈ right, reg.stop ≤ r.start)
    (hkeep : ∀ a, reg.start ≤ a → a < reg.stop → action.pages mreg old a = old a) :
    Walked action mreg old (reg :: left) right reg.stop := by
  have hc := hw.after reg (.head _)
  have hstop := reg.start_le_stop
  refine .advance [reg] [reg] hw (by omega) ?_ ?_ hright ?_
  · simp
  · simpa using hc
  intro a hlo hhi
  have hold := hw.old_eq hright hlo hhi
  rw [hold]
  by_cases hin : reg.start ≤ a
  · exact (hkeep a hin hhi).symm
  -- nothing is mapped between the regions
  refine (pages_none ?_).symm
  rw [← hold, labelAt_cons, if_neg (fun h => hin h.1), labelAt_nil]

/-- The next region is cut in two. -/
theorem Walked.cut {cut : Nat} (hlo : reg.start < cut) (hhi : cut < reg.stop) :
    Walked action mreg old left ((reg.splitAt cut).1 :: (reg.splitAt cut).2 :: right) c := by
  have hc := hw.after reg (.head _)
  obtain ⟨h1, -, h3, -⟩ := splitAt_bounds hlo hhi
  refine ⟨hw.before, ?_, hw.done, ?_, ?_⟩
  · intro r hr
    rcases mem_cons.1 hr with rfl | hr
    · omega
    rcases mem_cons.1 hr with rfl | hr
    · omega
    · exact hw.after r (.tail _ hr)
  · intro a ha
    rw [labelAt_splitAt hlo hhi]
    exact hw.rest a ha
  intro ha r hr
  have hreg := hw.real ha reg (.head _)
  rcases mem_cons.1 hr with rfl | hr
  · exact hreg
  rcases mem_cons.1 hr with rfl | hr
  · exact hreg
  · exact hw.real ha r (.tail _ hr)

end

/-- The last two regions passed are merged. -/
theorem Walked.glue {l : Reg} (hw : Walked action mreg old (r :: l :: left) right c)
    (htouch : l.stop = r.start) (hlabel : l.label = r.label) (hstart : m.start = l.start)
    (hsize : m.size = l.size + r.size) (hm : m.label = r.label) :
    Walked action mreg old (m :: left) right c where
  before q hq := by
    rcases mem_cons.1 hq with rfl | hq
    · exact (Reg.stop_glued htouch hstart hsize).trans_le (hw.before r (.head _))
    · exact hw.before q (by simp [hq])
  after := hw.after
  done a ha := by
    have hglue := labelAt_replace left.reverse [] (labelAt_glue htouch hlabel hstart hsize hm a)
    have hdone := hw.done a ha
    simp only [reverse_cons, append_assoc, singleton_append, append_nil]
      at hglue hdone ⊢
    rw [hglue, hdone]
  rest := hw.rest
  real := hw.real

/-- The region just passed is merged with its neighbours; a neighbour it swallows needs no change. -/
theorem Walked.concat (hw : Walked action mreg old (reg :: left) right c)
    (hwrap : ∀ r ∈ left ++ reg :: right, r.stop < 2 ^ 64) (hsorted : Apart 0 right)
    (hkeep : ∀ r ∈ right, r.label = reg.label → ∀ a, old a = some r.label →
      action.pages mreg old a = old a) :
    let p := kmMmapConcat rm { left := left, reg := reg, right := right }
    ∃ c', c ≤ c' ∧ Walked action mreg old (p.reg :: p.left) p.right c' := by
  -- first the left neighbour
  have hleft : ∃ m : Reg, ∃ ls, Mmap.concatLeft rm { left := left, reg := reg, right := right } =
      { left := ls, reg := m, right := right } ∧ Walked action mreg old (m :: ls) right c ∧
        m.stop = reg.stop ∧ m.label = reg.label := by
    cases left with
    | nil => exact ⟨reg, [], rfl, hw, rfl, rfl⟩
    | cons l ls =>
      simp only [Mmap.concatLeft]
      split
      next hok =>
        obtain ⟨htouch, hlabel⟩ := okToConcat_label hok
        rw [fin_eq (hwrap l (by simp))] at htouch
        have hsize := u64_sizes htouch (hwrap reg (by simp))
        rw [add_comm] at hsize
        refine ⟨_, _, rfl, hw.glue htouch hlabel rfl (hsize.trans (add_comm _ _)) rfl, ?_, rfl⟩
        simp only [Reg.stop, hsize] at htouch ⊢
        omega
      · exact ⟨reg, l :: ls, rfl, hw, rfl, rfl⟩
  rcases hleft with ⟨m, ls, hm, hwm, hstop, hlab⟩
  simp only [kmMmapConcat, hm]
  -- then the right one
  cases right with
  | nil => exact ⟨c, le_refl c, hwm⟩
  | cons r rs =>
    simp only [concatRight]
    split
    next hok =>
      obtain ⟨htouch, hlabel⟩ := okToConcat_label hok
      rw [fin_eq (hstop ▸ hwrap reg (by simp))] at htouch
      have hsize := u64_sizes htouch (hwrap r (by simp))
      have hrs := (sorted_cons.1 hsorted).1
      have hpass := hwm.skip hrs fun a hlo hhi => by
        refine hkeep r (.head _) (hlabel ▸ hlab) a ?_
        rw [← hwm.old_eq hrs (le_trans (hwm.after r (.head _)) hlo) hhi, labelAt_cons,
          if_pos ⟨hlo, hhi⟩]
      refine ⟨r.stop, ?_, hpass.glue htouch hlabel rfl hsize hlabel⟩
      exact le_trans (hwm.after r (.head _)) r.start_le_stop
    · exact ⟨c, le_refl c, hwm⟩

/-- The next region, inside of the range, is exchanged for what the action makes of it. -/
theorem Walked.exchange (ms' : List Reg) (hw : Walked action mreg old left (reg :: right) c)
    (hright : ∀ r ∈ right, reg.stop ≤ r.start) (hmon : reg.ofMonitor = false)
    (hlo : mreg.start ≤ reg.start) (hhi : reg.stop ≤ mreg.stop)
    (hms' : ∀ r ∈ ms', r.start = reg.start ∧ r.stop = reg.stop)
    (hlabel : ∀ a, reg.start ≤ a → a < reg.stop →
      Mmap.labelAt ms' a = action.relabel mreg reg.label) :
    Walked action mreg old (ms'.reverse ++ left) right reg.stop := by
  have hc := hw.after reg (.head _)
  have hstop := reg.start_le_stop
  refine .advance [reg] ms' hw (by omega) (by simp) ?_ hright ?_
  · intro r hr
    obtain ⟨h1, h2⟩ := hms' r hr
    exact ⟨h1 ▸ hc, le_of_eq h2⟩
  intro a ha ha'
  have hold := hw.old_eq hright ha ha'
  by_cases hin : reg.start ≤ a
  · rw [labelAt_cons, if_pos ⟨hin, ha'⟩] at hold
    have hpay : reg.label.ofMonitor = false := hmon
    rw [hlabel a hin ha', Action.pages, ← hold, bind_some, if_pos ⟨by omega, by omega, hpay⟩]
  rw [labelAt_cons, if_neg (fun h => hin h.1), labelAt_nil] at hold
  rw [pages_none hold.symm, ← hold]
  exact labelAt_below fun r hr => by
    have := (hms' r hr).1
    omega

/-- The region that `km_mmap_region_clean_concat` leaves has the fake flags. -/
theorem Action.relabel_clean_flags {x : Label}
    (h : Action.regionCleanConcat.relabel mreg x = some y) : y.flags = BitVec.allOnes 32 := by
  simp only [Action.relabel, Option.some.injEq] at h
  subst h
  simp only [Label.cleaned]
  split
  · split <;> rfl
  · rfl

/-- The next region is relabelled and merged. -/
theorem Walked.relabel {reg' : Reg} (hw : Walked action mreg old left (reg :: right) c)
    (hsorted : Apart 0 (reg :: right)) (hwrap : ∀ r ∈ left ++ reg :: right, r.stop < 2 ^ 64)
    (hmon : reg.ofMonitor = false) (hlo : mreg.start ≤ reg.start) (hhi : reg.stop ≤ mreg.stop)
    (hext : SameExtent reg reg') (hlabel : action.relabel mreg reg.label = some reg'.label) :
    let p := kmMmapConcat rm { left := left, reg := reg', right := right }
    ∃ c', reg.stop ≤ c' ∧ Walked action mreg old (p.reg :: p.left) p.right c' := by
  obtain ⟨hright, hsorted'⟩ := sorted_cons.1 hsorted
  have hnew : Walked action mreg old (reg' :: left) right reg.stop := by
    refine .exchange [reg'] hw hright hmon hlo hhi ?_ ?_
    · simp [hext.start, hext.stop]
    intro a h1 h2
    rw [labelAt_cons, if_pos (by rw [hext.start, hext.stop]; exact ⟨h1, h2⟩), hlabel]
  have hwrap' : ∀ r ∈ left ++ reg' :: right, r.stop < 2 ^ 64 := by
    simp only [forall_mem_append, forall_mem_cons] at hwrap ⊢
    exact ⟨hwrap.1, hext.stop ▸ hwrap.2.1, hwrap.2.2⟩
  refine hnew.concat hwrap' hsorted' fun r hr hsame a ha => ?_
  cases action with
  | moveToFree => cases hlabel
  | mprotect =>
    -- the neighbour has the requested protection already
    have hfix := relabel_mprotect hlabel
    rw [← hsame] at hfix
    simp only [Action.pages, ha, bind_some]
    split
    · exact hfix
    · rfl
  | regionCleanConcat =>
    have hfake := relabel_clean_flags hlabel
    rw [← hsame] at hfake
    have hpay : r.label.ofMonitor = false := by
      rw [hsame, relabel_ofMonitor hlabel]
      exact hmon
    exact absurd hfake (hnew.real rfl r hr hpay)

/-- What is known about the map at a point of the walk, or at its end; a walk that fails leaves it
as it is from some address on. -/
def WalkPages (action : Action) (mreg : Reg) (old : Nat → Option Label) :
    Walk ⊕ (MmapState × Nat) → Prop
  | .inl w => ∃ c, Walked action mreg old w.left w.right c
  | .inr (s, rc) => ∃ c, (rc = 0 → ∀ a, c ≤ a → action.pages mreg old a = old a) ∧
      ∀ a, Mmap.labelAt s.busy a = if a < c then action.pages mreg old a else old a

variable {g : Geometry} {h : Host} {w : Walk} {x : Walk ⊕ (MmapState × Nat)}
variable {last : Bool}

theorem walkPages_ite (hw : Walked action mreg old w.left w.right c)
    (hlast : last → mreg.stop ≤ c) :
    WalkPages action mreg old (if last then .inr (w.done, 0) else .inl w) := by
  cases last with
  | true =>
    have hc := hlast rfl
    exact ⟨c, fun _ a ha => pages_outside (by omega), hw.labelAt⟩
  | false => exact ⟨c, hw⟩

theorem applyAction_pages (hwhole : Whole g w.state (w.left.reverse ++ reg :: right))
    (hw : Walked action mreg old w.left (reg :: right) c) (hmon : reg.ofMonitor = false)
    (hlo : mreg.start ≤ reg.start) (hhi : reg.stop ≤ mreg.stop)
    (hlast : last → mreg.stop ≤ reg.stop)
    (hx : applyAction g h action mreg w reg right last = some x) : WalkPages action mreg old x := by
  have hsorted := (sorted_append.1 hwhole.busy_sorted).2.1
  have hwrap : ∀ r ∈ w.left ++ reg :: right, r.stop < 2 ^ 64 := fun r hr =>
    (hwhole.busy_ok r (by simpa using hr)).no_wrap
  simp only [applyAction, kmAssert_bind_eq_some] at hx
  obtain ⟨-, hx⟩ := hx
  cases action with
  | moveToFree =>
    simp only [do_eq_some, return_eq_some] at hx
    rcases hx with ⟨s1, -, rfl⟩
    have hgone := Walked.exchange [] hw (sorted_cons.1 hsorted).1 hmon hlo hhi (by simp)
      (fun a _ _ => rfl)
    exact walkPages_ite hgone hlast
  | mprotect =>
    cases hx
    obtain ⟨-, hext'⟩ := kmMmapMprotectRegion_spec
      { reg with protection := mreg.protection }
    have hlabel := kmMmapMprotectRegion_label g w.state { reg with protection := mreg.protection }
    rcases hw.relabel hsorted hwrap hmon hlo hhi
      ⟨hext'.start, hext'.size, hext'.partOfMonitor⟩ (congrArg some hlabel.symm) with ⟨c', hc, hw'⟩
    exact walkPages_ite hw' fun hl => le_trans (hlast hl) hc
  | regionCleanConcat =>
    cases hx
    obtain ⟨-, hext'⟩ := kmMmapRegionClean_spec mreg
      { reg with protection := mreg.protection }
    have hlabel := kmMmapRegionClean_label g w.state mreg { reg with protection := mreg.protection } rfl
    rcases hw.relabel hsorted hwrap hmon hlo hhi
      ⟨hext'.start, hext'.size, hext'.partOfMonitor⟩ hlabel with ⟨c', hc, hw'⟩
    exact walkPages_ite hw' fun hl => le_trans (hlast hl) hc

/-- One round of the walk. -/
theorem rangeStep_pages (hwrap : mreg.stop < 2 ^ 64) (hpage : mreg.fin % kmPageSize = 0)
    (hwhole : Whole g w.state w.list) (hw : Walked action mreg old w.left w.right c)
    (hx : rangeStep g h action mreg w = some x) : WalkPages action mreg old x := by
  obtain ⟨st, left, right⟩ := w
  cases right with
  | nil =>
    cases hx
    exact ⟨c, fun _ a ha => pages_none (hw.rest a ha).symm, hw.labelAt⟩
  | cons reg right =>
    have hright := (sorted_cons.1 (sorted_append.1 hwhole.busy_sorted).2.1).1
    have hc := hw.after reg (.head _)
    have hreg := fin_eq hwhole.mem_ok.no_wrap
    have hrange := fin_eq hwrap
    cases rangeStep_cons hx with
    | before hle => exact ⟨_, hw.skip hright fun a _ ha => pages_outside (by omega)⟩
    | behind hle =>
      -- the rest of the list is behind the range
      refine ⟨c, fun _ a ha => ?_, hw.labelAt⟩
      by_cases hin : reg.start ≤ a
      · exact pages_outside (by omega)
      refine pages_none ?_
      rw [← hw.rest a ha]
      refine labelAt_below fun r hr => ?_
      have hstop := reg.start_le_stop
      rcases mem_cons.1 hr with rfl | hr
      · omega
      have := hright r hr
      omega
    | monitor hmon hlo hhi =>
      refine ⟨_, hw.skip hright fun a hlo hhi => ?_⟩
      have hold := hw.old_eq hright (le_trans hc hlo) hhi
      rw [labelAt_cons, if_pos ⟨hlo, hhi⟩] at hold
      exact pages_monitor hold.symm hmon
    | noMem hok => exact ⟨c, fun hrc => absurd hrc (by decide), hw.labelAt⟩
    | cutStart hmon hlo hhi =>
      rw [hreg] at hhi
      obtain ⟨-, h2, h3, h4⟩ := splitAt_bounds hlo hhi
      refine ⟨_, (hw.cut hlo hhi).skip ?_ fun a _ ha => pages_outside (by omega)⟩
      intro r hr
      rcases mem_cons.1 hr with rfl | hr
      · omega
      have := hright r hr
      omega
    | cutEnd hmon hlo hin hhi hx =>
      rw [hreg] at hhi
      have hcall := hwhole.quiet (.call st .calloc)
      have hcut := hcall.cut (payload_part hmon) hpage hin hhi
      obtain ⟨h1, h2, -, -⟩ := splitAt_bounds hin hhi
      have hfront : (reg.splitAt mreg.fin).1.ofMonitor = false := hmon
      have hlo' : mreg.start ≤ (reg.splitAt mreg.fin).1.start := by omega
      have hhi' : (reg.splitAt mreg.fin).1.stop ≤ mreg.stop := by omega
      have hlast : mreg.stop ≤ (reg.splitAt mreg.fin).1.stop := by omega
      exact applyAction_pages
        (w := { state := st.call .calloc, left := left, right := reg :: right })
        hcut (hw.cut hin hhi) hfront hlo' hhi' (fun _ => hlast) hx
    | inside hmon hlo hlt hhi hx =>
      have hhi' : reg.stop ≤ mreg.stop := by omega
      exact applyAction_pages
        hwhole hw hmon hlo hhi' (fun hfalse => by cases hfalse) hx

end Walk

/-! ## The whole walk -/

/-- The walk over a page-aligned range changes the map as its action says, or, if it runs out of
memory, up to some address only. -/
theorem kmMmapBusyRangeApply_pages {g : Geometry} {h : Host} {action : Action} {mreg : Reg}
    {rc : Nat} (hstart : mreg.start % kmPageSize = 0) (hsize : mreg.size % kmPageSize = 0)
    (hwrap : mreg.stop < 2 ^ 64) (hs : Whole g s s.busy)
    (hreal : action = .regionCleanConcat → ∀ r ∈ s.busy, r.Real)
    (hr : kmMmapBusyRangeApply g h s mreg action = some (s', rc)) :
    ∃ c, (rc = 0 → ∀ a, c ≤ a → action.pages mreg (labelAt s.busy) a = labelAt s.busy a) ∧
      ∀ a, labelAt s'.busy a =
        if a < c then action.pages mreg (labelAt s.busy) a else labelAt s.busy a := by
  have hfin := fin_page hstart hsize
  have hinit : Walked action mreg (labelAt s.busy) [] s.busy 0 :=
    ⟨by simp, by simp, by simp, fun _ _ => rfl, hreal⟩
  refine Loop.run_inv
    (I := fun w => Whole g w.state w.list ∧ WalkPages action mreg (labelAt s.busy) (.inl w))
    (Q := fun r => WalkPages action mreg (labelAt s.busy) (.inr r)) ?_ ?_ ⟨?_, 0, hinit⟩ hr
  · rintro w w' ⟨hw, c, hc⟩ hx
    exact ⟨rangeStep_inv hstart hfin hw hx, rangeStep_pages hwrap hfin hw hc hx⟩
  · rintro w r ⟨hw, c, hc⟩ hx
    exact rangeStep_pages hwrap hfin hw hc hx
  · exact hs

/-- The case of a walk that ends well. -/
theorem kmMmapBusyRangeApply_labelAt {g : Geometry} {h : Host} {action : Action} {mreg : Reg}
    (hr : kmMmapBusyRangeApply g h s mreg action = some (s', 0))
    (hstart : mreg.start % kmPageSize = 0) (hsize : mreg.size % kmPageSize = 0)
    (hwrap : mreg.stop < 2 ^ 64) (hs : Whole g s s.busy)
    (hreal : action = .regionCleanConcat → ∀ r ∈ s.busy, r.Real) (a : Nat) :
    labelAt s'.busy a = action.pages mreg (labelAt s.busy) a := by
  rcases kmMmapBusyRangeApply_pages hstart hsize hwrap hs hreal hr with ⟨c, hrest, hlabel⟩
  rw [hlabel a]
  split
  · rfl
  next hge =>
    exact (hrest rfl a (not_lt.1 hge)).symm

end KontainMonitor.Mmap
