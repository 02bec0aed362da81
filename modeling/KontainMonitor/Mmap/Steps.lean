import KontainMonitor.Mmap.Tiling

/-!
# Steps — the functions on the lists keep the tiling

One lemma for each function of `km_mmap.c` below the calls: what it finds, and that it takes a
tiling to a tiling.  The walk `kmMmapBusyRangeApply` is the loop: `rangeStep_inv` is its step,
`kmMmapBusyRangeApply_inv` the run.
-/

namespace KontainMonitor.Mmap

open Intervals List Mem Reg

variable {g : Geometry} {h : Host} {s s' : MmapState} {busy : List Reg} {lo hi : Nat}
variable {p q : Pos} {left l right : List Reg} {r reg mreg : Reg} {rm last : Bool} {tbrk : Nat}
variable {w : Walk} {action : Action} {x : Walk ⊕ (MmapState × Nat)}
variable {I : MmapState → List Reg → Prop}
variable {free : List Reg} {size rc : Nat} {st : MmapState}

/-! ## Finding -/

theorem findPos_spec {p : Reg → Bool} (hq : findPos p left l = some q) :
    q.toList = left.reverse ++ l ∧ p q.reg := by
  induction l generalizing left with
  | nil => simp [findPos] at hq
  | cons r right ih =>
    simp only [findPos] at hq
    split at hq
    next hp =>
      cases hq
      exact ⟨rfl, hp⟩
    obtain ⟨h1, h2⟩ := ih hq
    exact ⟨by simpa using h1, h2⟩

theorem kmMmapFindFree_spec (hq : kmMmapFindFree free size = some q) :
    q.toList = free ∧ size ≤ q.reg.size := by
  have := findPos_spec hq
  simpa using this

theorem findPos_none {p : Reg → Bool} (hq : findPos p left l = none) (hr : r ∈ l) :
    p r = false := by
  induction l generalizing left with
  | nil => cases hr
  | cons q right ih =>
    simp only [findPos] at hq
    split at hq
    · cases hq
    rename_i hp
    rcases mem_cons.1 hr with rfl | hr
    · exact Bool.not_eq_true _ ▸ hp
    · exact ih hq hr

theorem kmMmapFindFree_none (hq : kmMmapFindFree free size = none) :
    ¬ ∃ r ∈ free, size ≤ r.size := by
  rintro ⟨r, hr, hle⟩
  have := findPos_none hq hr
  simp only [decide_eq_false_iff_not] at this
  exact this hle

theorem kmMmapFindAddress_spec {address : Nat} (hq : kmMmapFindAddress l address = some q) :
    q.toList = l ∧ q.reg.start ≤ address ∧ address < q.reg.fin := by
  simp only [kmMmapFindAddress, Option.filter_eq_some_iff, decide_eq_true_eq] at hq
  obtain ⟨h1, h2⟩ := findPos_spec hq.1
  exact ⟨by simpa using h1, hq.2, by simpa using h2⟩

theorem kmFindRegNolock_spec {gva : Nat} (hq : kmFindRegNolock busy gva = some q) :
    q.toList = busy ∧ q.reg.start ≤ gva ∧ gva < q.reg.fin := by
  have := findPos_spec hq
  simpa using this

/-- The place that `km_mmap_insert` finds is after everything that ends before the region, and
before the rest. -/
theorem insertPos_spec (hleft : ∀ x ∈ left, x.fin ≤ reg.start)
    (hq : insertPos reg left l = some q) :
    q.left.reverse ++ q.right = left.reverse ++ l ∧ q.reg = reg ∧
      (∀ x ∈ q.left, x.fin ≤ reg.start) ∧ ∀ y ∈ q.right.head?, reg.fin ≤ y.start := by
  induction l generalizing left with
  | nil =>
    simp only [insertPos, Option.some.injEq] at hq
    subst hq
    exact ⟨rfl, rfl, hleft, by simp⟩
  | cons r right ih =>
    simp only [insertPos] at hq
    split at hq
    · simp only [kmAssert_bind_eq_some, Option.pure_def, Option.some.injEq] at hq
      obtain ⟨hle, rfl⟩ := hq
      exact ⟨rfl, rfl, hleft, by simpa using hle⟩
    simp only [kmAssert_bind_eq_some] at hq
    obtain ⟨⟨-, hle⟩, hq⟩ := hq
    have hleft' : ∀ x ∈ r :: left, x.fin ≤ reg.start := by
      intro x hx
      rcases mem_cons.1 hx with rfl | hx
      · exact hle
      · exact hleft x hx
    obtain ⟨h1, h2, h3, h4⟩ := ih hleft' hq
    exact ⟨by simpa using h1, h2, h3, h4⟩

/-- The same on a sorted list of regions that do not wrap. -/
theorem insertPos_apart {d : Nat} (hq : insertPos reg [] l = some q) (hsorted : Apart d l)
    (hwrap : ∀ r ∈ l, r.stop < 2 ^ 64) (hreg : reg.stop < 2 ^ 64) :
    q.left.reverse ++ q.right = l ∧ q.reg = reg ∧ (∀ x ∈ q.left, x.stop ≤ reg.start) ∧
      ∀ y ∈ q.right, reg.stop ≤ y.start := by
  obtain ⟨h1, h2, h3, h4⟩ := insertPos_spec (by simp) hq
  rw [reverse_nil, nil_append] at h1
  rw [fin_eq hreg] at h4
  refine ⟨h1, h2, ?_, ?_⟩
  · intro x hx
    have := h3 x hx
    rwa [fin_eq (hwrap x (by simp [← h1, hx]))] at this
  rw [← h1] at hsorted
  have hright := (sorted_append.1 hsorted).2.1
  intro y hy
  cases hr : q.right with
  | nil =>
    rw [hr] at hy
    cases hy
  | cons z zs =>
    rw [hr] at hy h4 hright
    have hz : reg.stop ≤ z.start := h4 z (by simp)
    rcases mem_cons.1 hy with rfl | hy
    · exact hz
    have hzy := (sorted_cons.1 hright).1 y hy
    simp only [Reg.stop] at hz hzy ⊢
    omega

/-! ## Merging busy regions -/

theorem okToConcat_spec {l : Reg} (hok : okToConcat rm l r) :
    l.fin = r.start ∧ l.kmFlags = r.kmFlags := by
  simp only [okToConcat] at hok
  split at hok
  · cases hok
  split at hok
  · cases hok
  simp only [decide_eq_true_eq] at hok
  exact ⟨hok.1, hok.2.2.2⟩

/-- The sum of the sizes of two regions that touch does not wrap. -/
theorem u64_sizes {l : Reg} (htouch : l.stop = r.start) (hwrap : r.stop < 2 ^ 64) :
    u64 (l.size + r.size) = l.size + r.size := by
  refine Nat.mod_eq_of_lt ?_
  simp only [Reg.stop] at htouch hwrap
  omega

section

variable (hp : Holed g s p.toList lo hi)
include hp

theorem concatLeft_inv : Holed g s (concatLeft rm p).toList lo hi := by
  obtain ⟨left, reg, right⟩ := p
  cases left with
  | nil => exact hp
  | cons l ls =>
    simp only [concatLeft]
    split
    next hok =>
      obtain ⟨htouch, hflags⟩ := okToConcat_spec hok
      simp only [Pos.toList, reverse_cons, append_assoc, singleton_append] at hp ⊢
      rw [fin_eq hp.mem_ok.no_wrap] at htouch
      have hsize := u64_sizes htouch (hp.busy_ok reg (by simp)).no_wrap
      exact hp.glue htouch rfl (by rw [add_comm, hsize]) (by rw [hflags]) rfl
    · exact hp

theorem concatRight_inv : Holed g s (concatRight rm p).toList lo hi := by
  obtain ⟨left, reg, right⟩ := p
  cases right with
  | nil => exact hp
  | cons r rs =>
    simp only [concatRight]
    split
    next hok =>
      obtain ⟨htouch, hflags⟩ := okToConcat_spec hok
      rw [fin_eq hp.mem_ok.no_wrap] at htouch
      have hsize := u64_sizes htouch (hp.busy_ok r (by simp [Pos.toList])).no_wrap
      exact hp.glue htouch rfl hsize rfl (by rw [hflags])
    · exact hp

theorem kmMmapConcat_inv : Holed g s (kmMmapConcat rm p).toList lo hi :=
  concatRight_inv (concatLeft_inv hp)

end

/-! ## Protection -/

theorem kmRegMakeClean_spec (reg : Reg) : Quiet s (kmRegMakeClean g s reg).1 ∧
    SameExtent reg (kmRegMakeClean g s reg).2 := by
  simp only [kmRegMakeClean]
  split
  · exact ⟨.call _ _, ⟨rfl, rfl, rfl⟩⟩
  · exact ⟨.refl _, ⟨rfl, rfl, rfl⟩⟩

theorem kmMmapMprotectRegion_spec (reg : Reg) : Quiet s (kmMmapMprotectRegion g s reg).1 ∧
    SameExtent reg (kmMmapMprotectRegion g s reg).2 := by
  simp only [kmMmapMprotectRegion]
  split
  · exact kmRegMakeClean_spec reg
  have hc := kmRegMakeClean_spec (g := g) (s := s.call (.mprotect
    (kmGvaToKmaNocheck g s.mem reg.start) reg.size (protectionAdjust reg.protection))) reg
  exact ⟨(Quiet.call _ _).trans hc.1, hc.2⟩

/-- A region without access is not cleaned. -/
theorem kmMmapMprotectRegion_none (hnone : reg.protection = protNone) :
    (kmMmapMprotectRegion g s reg).2 = reg := by
  simp only [kmMmapMprotectRegion, kmRegMakeClean, hnone, ne_eq, not_true_eq_false, false_and,
    if_false]

theorem kmMmapInsert_spec (hr : kmMmapInsert g s reg l = some (s', q)) :
    Quiet s s' ∧ SameExtent reg q.reg ∧ (reg.protection = protNone → q.reg = reg) ∧
      ∃ p, insertPos reg [] l = some p ∧ q.left = p.left ∧ q.right = p.right := by
  simp only [kmMmapInsert, do_eq_some, return_eq_some, Prod.mk.injEq] at hr
  rcases hr with ⟨p, hp, rfl, rfl⟩
  obtain ⟨hq, hext⟩ := kmMmapMprotectRegion_spec reg
  exact ⟨hq, hext, kmMmapMprotectRegion_none, p, hp, rfl, rfl⟩

theorem kmMmapInsertBusy_inv (hs : Holed g s s.busy reg.start reg.stop)
    (hreg : BusyOk s.mem.tbrk reg) (hr : kmMmapInsertBusy g s reg = some s') :
    Whole g s' s'.busy := by
  simp only [kmMmapInsertBusy, do_eq_some, return_eq_some] at hr
  rcases hr with ⟨⟨s1, q⟩, hins, rfl⟩
  obtain ⟨hq, hext, -, p, hp, hl, hr⟩ := kmMmapInsert_spec hins
  obtain ⟨hlist, -, hbefore, hafter⟩ := insertPos_apart hp hs.busy_sorted
    (fun r hr => (hs.busy_ok r hr).no_wrap) hreg.no_wrap
  rw [← hlist] at hs
  have hfilled := hs.fill hreg (by simpa using hbefore) hafter
  have hnew : Whole g s1 q.toList := by
    rw [Pos.toList, hl, hr]
    exact (hfilled.relabel hext).quiet hq
  exact { kmMmapConcat_inv hnew with }

/-! ## Freeing -/

/-- A region on its way into the free list: blank, in order, but maybe touching its neighbours. -/
structure FreePos (tbrk : Nat) (p : Pos) : Prop where
  left_ok : ∀ x ∈ p.left, FreeOk tbrk x
  right_ok : ∀ y ∈ p.right, FreeOk tbrk y
  zone : InZone tbrk p.reg
  blank : Blank p.reg
  sorted : Apart 1 (p.left.reverse ++ p.right)
  before : ∀ x ∈ p.left, x.stop ≤ p.reg.start
  after : ∀ y ∈ p.right, p.reg.stop ≤ y.start

/-- Blank regions are glued if and only if they touch. -/
theorem okToConcat_blank {l : Reg} (hl : Blank l) (hr : Blank r) (hwrap : l.stop < 2 ^ 64) :
    okToConcat false l r ↔ l.stop = r.start := by
  simp [okToConcat, hl.filename, hr.filename, hl.protection, hr.protection, hl.flags, hr.flags,
    hl.kmFlags, hr.kmFlags, fin_eq hwrap]

/-- After looking left, no free region on the left touches. -/
theorem concatLeft_free (hp : FreePos tbrk p) : FreePos tbrk (concatLeft false p) ∧
      (∀ x ∈ (concatLeft false p).left, x.stop + 1 ≤ (concatLeft false p).reg.start) ∧
      ∀ a, Mapped (concatLeft false p).toList a ↔ Mapped p.toList a := by
  obtain ⟨left, reg, right⟩ := p
  cases left with
  | nil => exact ⟨hp, by simp [concatLeft], fun a => Iff.rfl⟩
  | cons l ls =>
    have hlok := hp.left_ok l (by simp)
    have hiff := okToConcat_blank hlok.blank hp.blank hlok.zone.no_wrap
    have hls : ∀ x ∈ ls, x.stop + 1 ≤ l.start := by
      have hsorted := (sorted_append.1 hp.sorted).1
      simp only [reverse_cons] at hsorted
      intro x hx
      exact (sorted_append.1 hsorted).2.2 x (by simpa using hx) l (by simp)
    simp only [concatLeft]
    split
    next hok =>
      have htouch := hiff.1 hok
      let m : Reg := { reg with start := l.start, size := u64 (reg.size + l.size) }
      have hsize : m.size = l.size + reg.size := by
        rw [← u64_sizes htouch hp.zone.no_wrap, add_comm]
      have hstop : m.stop = reg.stop := Reg.stop_glued htouch rfl hsize
      refine ⟨⟨fun x hx => hp.left_ok x (by simp [hx]), hp.right_ok, ?_, ?_, ?_, ?_, ?_⟩, hls, ?_⟩
      · exact hlok.zone.glue hp.zone rfl hsize hstop
      · exact ⟨hp.blank.flags, hp.blank.protection, hp.blank.kmFlags, hp.blank.filename⟩
      · have hsorted := hp.sorted
        simp only [reverse_cons] at hsorted
        exact hsorted.drop_middle
      · exact fun x hx => Nat.le_of_succ_le (hls x hx)
      · exact fun y hy => le_of_eq_of_le hstop (hp.after y hy)
      intro a
      have hglue : Mapped [m] a ↔ Mapped [l, reg] a :=
        covers_glue htouch rfl hstop l.start_le_stop reg.start_le_stop
      have hc : Mapped (ls.reverse ++ [m] ++ right) a ↔ Mapped (ls.reverse ++ [l, reg] ++ right) a :=
        covers_replace hglue
      simpa [Pos.toList, m] using hc
    rename_i hno
    have hle := hp.before l (by simp)
    have hne : l.stop ≠ reg.start := fun heq => hno (hiff.2 heq)
    refine ⟨hp, ?_, fun a => Iff.rfl⟩
    intro x hx
    have h1 : l.start ≤ l.stop := Nat.le_add_right _ _
    rcases mem_cons.1 hx with rfl | hx
    · simp only at hle ⊢
      omega
    have := hls x hx
    simp only at hle ⊢
    omega

/-- After looking right, no free region on the right touches. -/
theorem concatRight_free (hp : FreePos tbrk p) : FreePos tbrk (concatRight false p) ∧
      (concatRight false p).left = p.left ∧ (concatRight false p).reg.start = p.reg.start ∧
      (∀ y ∈ (concatRight false p).right, (concatRight false p).reg.stop + 1 ≤ y.start) ∧
      ∀ a, Mapped (concatRight false p).toList a ↔ Mapped p.toList a := by
  obtain ⟨left, reg, right⟩ := p
  cases right with
  | nil => exact ⟨hp, rfl, rfl, by simp [concatRight], fun a => Iff.rfl⟩
  | cons r rs =>
    have hrok := hp.right_ok r (by simp)
    have hiff := okToConcat_blank hp.blank hrok.blank hp.zone.no_wrap
    have hrs : ∀ y ∈ rs, r.stop + 1 ≤ y.start := (sorted_cons.1 (sorted_append.1 hp.sorted).2.1).1
    simp only [concatRight]
    split
    next hok =>
      have htouch := hiff.1 hok
      let m : Reg := { reg with size := u64 (reg.size + r.size) }
      have hsize : m.size = reg.size + r.size := u64_sizes htouch hrok.zone.no_wrap
      have hstop : m.stop = r.stop := Reg.stop_glued htouch rfl hsize
      refine ⟨⟨hp.left_ok, fun y hy => hp.right_ok y (by simp [hy]), ?_, ?_, ?_, hp.before, ?_⟩,
        rfl, rfl, ?_, ?_⟩
      · exact hp.zone.glue hrok.zone rfl hsize hstop
      · exact ⟨hp.blank.flags, hp.blank.protection, hp.blank.kmFlags, hp.blank.filename⟩
      · have hsorted := hp.sorted
        simp only at hsorted
        rw [append_cons] at hsorted
        exact hsorted.drop_middle
      · exact fun y hy => le_of_eq_of_le hstop (Nat.le_of_succ_le (hrs y hy))
      · exact fun y hy => le_of_eq_of_le (congrArg (· + 1) hstop) (hrs y hy)
      intro a
      have hglue : Mapped [m] a ↔ Mapped [reg, r] a :=
        covers_glue htouch rfl hstop reg.start_le_stop r.start_le_stop
      have hc : Mapped (left.reverse ++ [m] ++ rs) a ↔ Mapped (left.reverse ++ [reg, r] ++ rs) a :=
        covers_replace hglue
      simpa [Pos.toList, m] using hc
    rename_i hno
    have hle := hp.after r (by simp)
    have hne : reg.stop ≠ r.start := fun heq => hno (hiff.2 heq)
    refine ⟨hp, rfl, rfl, ?_, fun a => Iff.rfl⟩
    intro y hy
    have h1 : r.start ≤ r.stop := Nat.le_add_right _ _
    rcases mem_cons.1 hy with rfl | hy
    · simp only at hle ⊢
      omega
    have := hrs y hy
    simp only at hle ⊢
    omega

theorem kmMmapConcat_free (hp : FreePos tbrk p) :
    FreePos tbrk (kmMmapConcat false p) ∧ Apart 1 (kmMmapConcat false p).toList ∧
      ∀ a, Mapped (kmMmapConcat false p).toList a ↔ Mapped p.toList a := by
  obtain ⟨h1, hleft, hc1⟩ := concatLeft_free hp
  obtain ⟨h2, hl, hst, hright, hc2⟩ := concatRight_free h1
  refine ⟨h2, h2.sorted.insert ?_ hright, fun a => (hc2 a).trans (hc1 a)⟩
  intro x hx
  exact le_of_le_of_eq (hleft x (hl ▸ mem_reverse.1 hx)) hst.symm

/-- The free list with a new region in it, before `tbrk` is looked at. -/
theorem insertFree_list (hs : Holed g s busy reg.start reg.stop) (hz : InZone s.mem.tbrk reg)
    (hblank : Blank reg) (hp : insertPos reg [] s.free = some p) :
    p.reg = reg ∧ FreePos s.mem.tbrk p ∧
      ∀ a, Mapped p.toList a ↔ Mapped s.free a ∨ (reg.start ≤ a ∧ a < reg.stop) := by
  obtain ⟨hlist, hreg, hbefore, hafter⟩ := insertPos_apart hp hs.free_sorted
    (fun r hr => (hs.free_ok r hr).zone.no_wrap) hz.no_wrap
  subst hreg
  refine ⟨rfl, ⟨?_, ?_, hz, hblank, hlist ▸ hs.free_sorted, hbefore, hafter⟩, ?_⟩
  · exact fun x hx => hs.free_ok x (by simp [← hlist, hx])
  · exact fun y hy => hs.free_ok y (by simp [← hlist, hy])
  intro a
  rw [← hlist]
  simp only [Pos.toList, covers_append, covers_cons]
  tauto

/-- The free list has no hole any more; where its new region reaches down to `tbrk`, `tbrk` moves
up over it. -/
theorem settleFree_inv (hs : Holed g s busy lo hi) (hp : FreePos s.mem.tbrk p)
    (hsorted : Apart 1 p.toList)
    (hcover : ∀ a, Mapped p.toList a ↔ Mapped s.free a ∨ (lo ≤ a ∧ a < hi))
    (hr : settleFree g h s p = some s') : Whole g s' busy ∧ s'.busy = s.busy := by
  have htiled : ∀ a, s.mem.tbrk ≤ a → a < guestMemTopVa → (Mapped busy a ↔ ¬ Mapped p.toList a) := by
    intro a hlo hhi
    rw [hs.tiled a hlo hhi, hcover]
    exact not_or.symm
  have hzone := hp.zone
  have hwrap := hzone.no_wrap
  simp only [settleFree] at hr
  split at hr
  next hlow =>
    simp only [do_eq_some, return_eq_some] at hr
    rcases hr with ⟨⟨m, ret⟩, hm, rfl⟩
    rw [fin_eq hwrap] at hm
    have hle : s.mem.tbrk ≤ p.reg.stop := le_of_eq_of_le hlow.symm p.reg.start_le_stop
    obtain ⟨hbreaks, htbrk⟩ := kmMemTbrk_up hs.breaks hle hzone.upper hm
    -- nothing is free below the lowest region, and nothing busy in it
    have hleft : p.left = [] := by
      rw [eq_nil_iff_forall_not_mem]
      intro x hx
      have h1 := hp.before x hx
      have h2 := (hp.left_ok x hx).above
      have h3 := x.start_le_stop
      omega
    have hright : ∀ y ∈ p.right, p.reg.stop + 1 ≤ y.start := by
      simp only [Pos.toList, hleft, reverse_nil, nil_append] at hsorted
      exact (sorted_cons.1 hsorted).1
    have hbusy : ∀ r ∈ busy, r.kmFlags.partOfMonitor = false → p.reg.stop ≤ r.start := by
      intro r hr hpart
      have hrz := (hs.busy_ok r hr).payload hpart
      by_contra hlt
      have h1 := hrz.lower
      have h2 := hrz.nonempty
      have h3 := hrz.upper
      have hself : r.start < r.stop := by
        simp only [Reg.stop]
        omega
      have hm := (htiled r.start h1 (lt_of_lt_of_le hself h3)).1 ⟨r, hr, le_rfl, hself⟩
      exact hm ⟨p.reg, by simp [Pos.toList], by omega, by omega⟩
    refine ⟨{ hs with
      breaks := hbreaks
      tbrk_page := ?_
      free_sorted := hp.sorted
      busy_ok := fun r hr => ?_
      free_ok := fun r hr => ?_
      tiled := fun a hlo hhi => ?_
      hole := fun a _ hhi => absurd hhi (Nat.not_lt_zero _) }, rfl⟩
    · have h1 := hzone.start_page
      have h2 := hzone.size_page
      simp only [htbrk, Reg.stop]
      rw [Nat.add_mod, h1, h2]
      rfl
    · simp only [htbrk]
      exact (hs.busy_ok r hr).mono (hbusy r hr)
    · simp only [hleft, reverse_nil, nil_append] at hr
      obtain ⟨hz, -, hblank⟩ := hp.right_ok r hr
      have := hright r hr
      simp only [htbrk]
      exact ⟨{ hz with lower := by omega }, by omega, hblank⟩
    simp only [htbrk] at hlo
    simp only [htiled a (le_trans hle hlo) hhi, hleft, Pos.toList, reverse_nil,
      nil_append, covers_cons]
    constructor
    · intro hn
      exact ⟨fun hm => hn (.inr hm), by omega⟩
    rintro ⟨hn, -⟩ (hm | hm)
    · omega
    · exact hn hm
  rename_i hlow
  cases hr
  refine ⟨{ hs with
    free_sorted := hsorted
    free_ok := fun r hr => ?_
    tiled := fun a hlo hhi => ?_
    hole := fun a _ hhi => absurd hhi (Nat.not_lt_zero _) }, rfl⟩
  · have hlo := hzone.lower
    simp only [Pos.toList, mem_append, mem_reverse, mem_cons] at hr
    rcases hr with hr | rfl | hr
    · exact hp.left_ok r hr
    · exact ⟨hzone, lt_of_le_of_ne hlo (Ne.symm hlow), hp.blank⟩
    · exact hp.right_ok r hr
  rw [htiled a hlo hhi]
  simp

theorem Reg.blank_cleared (hpayload : reg.ofMonitor = false) : Blank reg.cleared := by
  simp only [Reg.ofMonitor, Bool.or_eq_false_iff] at hpayload
  exact ⟨rfl, rfl, by simp [Reg.cleared, KmFlags.none, hpayload], rfl⟩

section

variable (hs : Holed g s busy reg.start reg.stop) (hz : InZone s.mem.tbrk reg)
  (hpayload : reg.ofMonitor = false)
include hs hz hpayload

/-- A hole is given to the free list. -/
theorem kmMmapInsertFree_inv (hr : kmMmapInsertFree g h s reg = some s') :
    Whole g s' busy ∧ s'.busy = s.busy := by
  simp only [kmMmapInsertFree, do_eq_some] at hr
  rcases hr with ⟨⟨s1, q⟩, hins, hr⟩
  obtain ⟨hquiet, -, hnone, p, hp, hl, hright⟩ := kmMmapInsert_spec hins
  have hz' : InZone s.mem.tbrk reg.cleared := hz.sized rfl rfl
  have hs' : Holed g s busy reg.cleared.start reg.cleared.stop := hs
  obtain ⟨hreg, hpos, hcover⟩ := insertFree_list hs' hz' (blank_cleared hpayload) hp
  have hq : q = p := by
    obtain ⟨ql, qr, qs⟩ := q
    obtain ⟨pl, pr, ps⟩ := p
    simp only at hl hright hreg hnone
    rw [hl, hright, hnone rfl, hreg]
  subst hq
  have hs1 := hs.quiet hquiet
  have ht := hquiet.mem.tbrk
  rw [hs1.running] at hr
  obtain ⟨hq, hsorted, hcover'⟩ := kmMmapConcat_free hpos
  obtain ⟨hwhole, hbusy⟩ := settleFree_inv hs1 (ht ▸ hq) hsorted
    (fun a => by rw [hcover', hcover, hquiet.free]; rfl) hr
  exact ⟨hwhole, hbusy.trans hquiet.busy⟩

theorem kmMmapMoveToFree_inv (hr : kmMmapMoveToFree g h s reg = some s') : Whole g s' busy := by
  simp only [kmMmapMoveToFree] at hr
  split at hr
  · -- the flags of the region play no part
    split at hr
    · exact (kmMmapInsertFree_inv (hs.quiet (.call s _))
        (hz.sized rfl rfl) hpayload hr).1
    · exact (kmMmapInsertFree_inv (hs.quiet (.call s _)) hz hpayload hr).1
  · exact (kmMmapInsertFree_inv hs hz hpayload hr).1

end

/-! ## The walk over a range -/

def Walk.list (w : Walk) : List Reg := w.left.reverse ++ w.right

theorem Walk.done_ok (hw : Whole g w.state w.list) : Whole g w.done w.done.busy := { hw with }

theorem Reg.payload_part (hr : r.ofMonitor = false) : r.kmFlags.partOfMonitor = false := by
  simp only [Reg.ofMonitor, Bool.or_eq_false_iff] at hr
  exact hr.2

theorem kmMmapRegionClean_spec (mreg reg : Reg) : Quiet s (kmMmapRegionClean g s mreg reg).1 ∧
    SameExtent reg (kmMmapRegionClean g s mreg reg).2 := by
  simp only [kmMmapRegionClean]
  split
  · obtain ⟨hq, hext⟩ := kmRegMakeClean_spec
      { reg with flags := BitVec.allOnes 32 }
    exact ⟨hq, ⟨hext.start, hext.size, hext.partOfMonitor⟩⟩
  · exact ⟨.refl _, ⟨rfl, rfl, rfl⟩⟩

/-- What one round of the walk does with the next region. -/
inductive RangeStep (g : Geometry) (h : Host) (action : Action) (mreg : Reg) (st : MmapState)
    (left : List Reg) (reg : Reg) (right : List Reg) : Walk ⊕ (MmapState × Nat) → Prop
  | before (hle : reg.fin ≤ mreg.start) :
      RangeStep g h action mreg st left reg right
        (.inl { state := st, left := reg :: left, right := right })
  | behind (hle : mreg.fin ≤ reg.start) :
      RangeStep g h action mreg st left reg right
        (.inr (Walk.done { state := st, left := left, right := reg :: right }, 0))
  | monitor (hmon : reg.ofMonitor) (hlo : mreg.start < reg.fin) (hhi : reg.start < mreg.fin) :
      RangeStep g h action mreg st left reg right
        (.inl { state := st, left := reg :: left, right := right })
  | noMem (hok : h.answer st.mem .calloc = false) :
      RangeStep g h action mreg st left reg right
        (.inr (Walk.done { state := st.call .calloc, left := left, right := reg :: right },
          negErrno enomem))
  | cutStart (hmon : reg.ofMonitor = false) (hlo : reg.start < mreg.start)
      (hhi : mreg.start < reg.fin) :
      RangeStep g h action mreg st left reg right
        (.inl
          { state := st.call .calloc
            left := (reg.splitAt mreg.start).1 :: left
            right := (reg.splitAt mreg.start).2 :: right })
  | cutEnd {x : Walk ⊕ (MmapState × Nat)} (hmon : reg.ofMonitor = false)
      (hlo : mreg.start ≤ reg.start) (hin : reg.start < mreg.fin) (hhi : mreg.fin < reg.fin)
      (hx : applyAction g h action mreg
        { state := st.call .calloc, left := left, right := reg :: right }
        (reg.splitAt mreg.fin).1 ((reg.splitAt mreg.fin).2 :: right) true = some x) :
      RangeStep g h action mreg st left reg right x
  | inside {x : Walk ⊕ (MmapState × Nat)} (hmon : reg.ofMonitor = false)
      (hlo : mreg.start ≤ reg.start) (hlt : mreg.start < reg.fin) (hhi : reg.fin ≤ mreg.fin)
      (hx : applyAction g h action mreg { state := st, left := left, right := reg :: right }
        reg right false = some x) :
      RangeStep g h action mreg st left reg right x

theorem rangeStep_cons
    (hx : rangeStep g h action mreg { state := st, left := left, right := reg :: right } = some x) :
    RangeStep g h action mreg st left reg right x := by
  simp only [rangeStep] at hx
  split at hx
  next hbefore =>
    cases hx
    exact .before hbefore
  rename_i hbefore
  split at hx
  next hbehind =>
    cases hx
    exact .behind hbehind
  rename_i hbehind
  split at hx
  next hmon =>
    cases hx
    exact .monitor hmon (not_le.1 hbefore) (not_le.1 hbehind)
  rename_i hmon
  rw [Bool.not_eq_true] at hmon
  split at hx
  next hlow =>
    split at hx
    · cases hx
      exact .cutStart hmon hlow (not_le.1 hbefore)
    next hok =>
      cases hx
      exact .noMem (Bool.not_eq_true _ ▸ hok)
  rename_i hlow
  split at hx
  next hhigh =>
    split at hx
    · exact .cutEnd hmon (not_lt.1 hlow) (not_le.1 hbehind) hhigh hx
    next hok =>
      cases hx
      exact .noMem (Bool.not_eq_true _ ▸ hok)
  next hhigh =>
    exact .inside hmon (not_lt.1 hlow) (not_le.1 hbefore) (not_lt.1 hhigh) hx

/-! ## What a walk keeps -/

def WalkHolds (I : MmapState → List Reg → Prop) : Walk ⊕ (MmapState × Nat) → Prop
  | .inl w => I w.state w.list
  | .inr (s, _) => I s s.busy

/-- What an action that keeps the region busy makes of it, before it is merged. -/
def Action.treat (g : Geometry) (action : Action) (mreg : Reg) (s : MmapState) (reg : Reg) :
    MmapState × Reg :=
  match action with
  | .mprotect => kmMmapMprotectRegion g s { reg with protection := mreg.protection }
  | .regionCleanConcat => kmMmapRegionClean g s mreg { reg with protection := mreg.protection }
  | .moveToFree => (s, reg)

theorem Action.treat_spec (action : Action) (mreg reg : Reg) :
    Quiet s (action.treat g mreg s reg).1 ∧ SameExtent reg (action.treat g mreg s reg).2 := by
  cases action with
  | mprotect =>
    obtain ⟨hq, hext⟩ := kmMmapMprotectRegion_spec
      { reg with protection := mreg.protection }
    exact ⟨hq, hext.start, hext.size, hext.partOfMonitor⟩
  | regionCleanConcat =>
    obtain ⟨hq, hext⟩ := kmMmapRegionClean_spec mreg
      { reg with protection := mreg.protection }
    exact ⟨hq, hext.start, hext.size, hext.partOfMonitor⟩
  | moveToFree => exact ⟨.refl s, rfl, rfl, rfl⟩

/-- A property that a walk keeps: host calls for memory, cuts, and the action on one region keep it,
and it does not look at the busy list from before the walk. -/
structure WalkRule (g : Geometry) (h : Host) (action : Action) (mreg : Reg)
    (I : MmapState → List Reg → Prop) : Prop where
  busy : ∀ s l b, I s l → I { s with busy := b } l
  calloc : ∀ s l, I s l → I (s.call .calloc) l
  cut : ∀ s xs r ys c, (c = mreg.start ∨ c = mreg.fin) → Whole g s (xs ++ r :: ys) →
    r.ofMonitor = false → r.start < c → c < r.stop → I s (xs ++ r :: ys) →
    I s (xs ++ (r.splitAt c).1 :: (r.splitAt c).2 :: ys)
  freed : ∀ s xs r ys s', action = .moveToFree → Whole g s (xs ++ r :: ys) → r.ofMonitor = false →
    mreg.start ≤ r.start → r.stop ≤ mreg.fin → I s (xs ++ r :: ys) →
    kmMmapMoveToFree g h s { r with protection := mreg.protection } = some s' → I s' (xs ++ ys)
  merged : ∀ s left r right, action ≠ .moveToFree → Whole g s (left.reverse ++ r :: right) →
    r.ofMonitor = false → mreg.start ≤ r.start → r.stop ≤ mreg.fin →
    I s (left.reverse ++ r :: right) →
    I (action.treat g mreg s r).1 (kmMmapConcat (action.treat g mreg s r).1.recoveryMode
      { left := left, reg := (action.treat g mreg s r).2, right := right }).toList

theorem walkHolds_ite (hbusy : ∀ s l b, I s l → I { s with busy := b } l) (hstate : w.state = st)
    (hlist : w.list = l) (hi : I st l) :
    WalkHolds I (if last then .inr (w.done, 0) else .inl w) := by
  subst hstate hlist
  cases last with
  | true => exact hbusy _ _ _ hi
  | false => exact hi

theorem applyAction_rule (hI : WalkRule g h action mreg I)
    (hw : Whole g w.state (w.left.reverse ++ reg :: right)) (hreg : reg.ofMonitor = false)
    (hlo : mreg.start ≤ reg.start) (hhi : reg.stop ≤ mreg.fin)
    (hi : I w.state (w.left.reverse ++ reg :: right))
    (hx : applyAction g h action mreg w reg right last = some x) : WalkHolds I x := by
  simp only [applyAction, kmAssert_bind_eq_some] at hx
  obtain ⟨-, hx⟩ := hx
  cases action with
  | moveToFree =>
    simp only [do_eq_some, return_eq_some] at hx
    rcases hx with ⟨s1, hs1, rfl⟩
    exact walkHolds_ite hI.busy rfl rfl (hI.freed _ _ _ _ _ rfl hw hreg hlo hhi hi hs1)
  | mprotect | regionCleanConcat =>
    cases hx
    refine walkHolds_ite hI.busy rfl ?_ (hI.merged _ _ _ _ (by decide) hw hreg hlo hhi hi)
    simp [Walk.list, Pos.toList, Action.treat]

theorem rangeStep_rule (hI : WalkRule g h action mreg I) (hfin : mreg.fin % kmPageSize = 0)
    (hw : Whole g w.state w.list) (hi : I w.state w.list)
    (hx : rangeStep g h action mreg w = some x) : WalkHolds I x := by
  obtain ⟨st, left, right⟩ := w
  cases right with
  | nil =>
    cases hx
    exact hI.busy _ _ _ hi
  | cons reg right =>
    have hskip : I st (Walk.list { state := st, left := reg :: left, right := right }) := by
      simpa [Walk.list] using hi
    have hreg := fin_eq hw.mem_ok.no_wrap
    have hcall := hw.quiet (.call st .calloc)
    have hcalloc := hI.calloc _ _ hi
    cases rangeStep_cons hx with
    | before hle => exact hskip
    | behind hle => exact hI.busy _ _ _ hi
    | monitor hmon hlo hhi => exact hskip
    | noMem hok => exact hI.busy _ _ _ hcalloc
    | cutStart hmon hlo hhi =>
      have hcut := hI.cut _ _ _ _ _ (.inl rfl) hcall hmon hlo (hreg ▸ hhi) hcalloc
      simpa [WalkHolds, Walk.list] using hcut
    | cutEnd hmon hlo hin hhi hx =>
      rw [hreg] at hhi
      have hcut := hcall.cut (payload_part hmon) hfin hin hhi
      have hparts := hI.cut _ _ _ _ _ (.inr rfl) hcall hmon hin hhi hcalloc
      have hstop : (reg.splitAt mreg.fin).1.stop ≤ mreg.fin := by
        simp only [Reg.splitAt, Reg.stop]
        omega
      have hfront : (reg.splitAt mreg.fin).1.ofMonitor = false := hmon
      exact applyAction_rule hI hcut hfront hlo hstop hparts hx
    | inside hmon hlo hlt hhi hx => exact applyAction_rule hI hw hmon hlo (hreg ▸ hhi) hi hx

section

variable (hstart : mreg.start % kmPageSize = 0)
include hstart

/-- The tiling is kept. -/
theorem whole_walkRule (hfin : mreg.fin % kmPageSize = 0) : WalkRule g h action mreg (Whole g) where
  busy _ _ _ hw := { hw with }
  calloc s _ hw := hw.quiet (.call s .calloc)
  cut _ _ _ _ c hc hw hmon hlo hhi _ := by
    have hpage : c % kmPageSize = 0 := by
      rcases hc with rfl | rfl
      · exact hstart
      · exact hfin
    exact hw.cut (payload_part hmon) hpage hlo hhi
  freed _ _ r _ _ _ hw hmon _ _ _ hfree := by
    have hpart := payload_part hmon
    have hext : SameExtent r { r with protection := mreg.protection } := ⟨rfl, rfl, rfl⟩
    exact kmMmapMoveToFree_inv ((hw.relabel hext).remove hpart)
      ((hext.busyOk hw.mem_ok).payload hpart) hmon hfree
  merged s _ r _ _ hw _ _ _ _ := by
    obtain ⟨hq, hext⟩ := action.treat_spec mreg r
    exact kmMmapConcat_inv ((hw.relabel hext).quiet hq)

/-- One round of the walk: regions are only cut at the ends of the range, which are page
boundaries. -/
theorem rangeStep_inv (hfin : mreg.fin % kmPageSize = 0) (hw : Whole g w.state w.list)
    (hx : rangeStep g h action mreg w = some x) : WalkHolds (Whole g) x :=
  rangeStep_rule (whole_walkRule hstart hfin) hfin hw hw hx

theorem Reg.fin_page (hsize : mreg.size % kmPageSize = 0) : mreg.fin % kmPageSize = 0 := by
  simp only [Reg.fin, u64, kmPageSize_eq] at hstart hsize ⊢
  omega

end

section

variable (hr : kmMmapBusyRangeApply g h s mreg action = some (s', rc))
include hr

theorem kmMmapBusyRangeApply_rule (hI : WalkRule g h action mreg I)
    (hstart : mreg.start % kmPageSize = 0) (hsize : mreg.size % kmPageSize = 0)
    (hs : Whole g s s.busy) (hi : I s s.busy) : I s' s'.busy := by
  have hfin := fin_page hstart hsize
  refine Loop.run_inv (I := fun w => Whole g w.state w.list ∧ WalkHolds I (.inl w))
    (Q := fun r => WalkHolds I (.inr r)) ?_ ?_ ⟨?_, ?_⟩ hr
  · rintro w w' ⟨hw, hi⟩ hx
    exact ⟨rangeStep_inv hstart hfin hw hx, rangeStep_rule hI hfin hw hi hx⟩
  · rintro w r ⟨hw, hi⟩ hx
    exact rangeStep_rule hI hfin hw hi hx
  · exact hs
  · exact hi

theorem kmMmapBusyRangeApply_inv (hstart : mreg.start % kmPageSize = 0)
    (hsize : mreg.size % kmPageSize = 0) (hs : Whole g s s.busy) : Whole g s' s'.busy :=
  kmMmapBusyRangeApply_rule hr (whole_walkRule hstart (fin_page hstart hsize)) hstart hsize hs hs

end

end KontainMonitor.Mmap
