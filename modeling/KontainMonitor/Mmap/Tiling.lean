import KontainMonitor.Lib.Intervals
import KontainMonitor.Mem.Moves
import KontainMonitor.Mmap.Calls

/-!
# Tiling — busy and free regions cover the top zone

`Holed` says that the busy regions of the payload and the free regions cover `[tbrk, TOP)` once,
except for one interval that a function holds in its hands.  Every function on the lists is a few
of the moves below: a busy region is cut, glued or relabelled (`Holed.replace`), leaves the list
(`Holed.remove`) or enters it (`Holed.fill`); free regions are carved, and grow when something is
unmapped (`kmMmapInsertFree_inv`).
-/

namespace KontainMonitor.Mmap

open Intervals List Mem

/-- `start + size` without the wrap of `Reg.fin`. -/
def Reg.stop (r : Reg) : Nat := r.start + r.size

abbrev Mapped (l : List Reg) (a : Nat) : Prop := Covers Reg.start Reg.stop l a

abbrev Apart (d : Nat) (l : List Reg) : Prop := Sorted Reg.start Reg.stop d l

/-! ## Regions that may be on the lists -/

/-- A nonempty region of whole pages in the top zone. -/
structure InZone (tbrk : Nat) (r : Reg) : Prop where
  start_page : r.start % kmPageSize = 0
  size_page : r.size % kmPageSize = 0
  nonempty : 0 < r.size
  lower : tbrk ≤ r.start
  upper : r.stop ≤ guestMemTopVa

theorem InZone.sized {tbrk : Nat} {r q : Reg} (h : InZone tbrk r) (hstart : q.start = r.start)
    (hsize : q.size = r.size) : InZone tbrk q := by
  obtain ⟨h1, h2, h3, h4, h5⟩ := h
  rw [Reg.stop] at h5
  exact ⟨hstart ▸ h1, hsize ▸ h2, hsize ▸ h3, hstart ▸ h4, by rwa [Reg.stop, hstart, hsize]⟩

/-- Pages of the monitor are in the private area, all other busy regions in the top zone. -/
structure BusyOk (tbrk : Nat) (r : Reg) : Prop where
  no_wrap : r.stop < 2 ^ 64
  monitor : r.kmFlags.partOfMonitor → guestPrivateMemStartVa ≤ r.start
  payload : r.kmFlags.partOfMonitor = false → InZone tbrk r

/-- A region without attributes. -/
structure Blank (r : Reg) : Prop where
  flags : r.flags = 0
  protection : r.protection = protNone
  kmFlags : r.kmFlags = KmFlags.none
  filename : r.filename = none

/-- Free regions are blank, so that neighbours can always be glued. -/
structure FreeOk (tbrk : Nat) (r : Reg) : Prop where
  zone : InZone tbrk r
  above : tbrk < r.start
  blank : Blank r

theorem guestMemTopVa_lt : guestMemTopVa < guestPrivateMemStartVa ∧ guestPrivateMemStartVa < 2 ^ 64 := by
  decide

variable {r r' : Reg} {tbrk t : Nat}
variable {l m : Reg}

theorem Reg.fin_eq (h : r.stop < 2 ^ 64) : r.fin = r.stop := Nat.mod_eq_of_lt h

theorem InZone.no_wrap (h : InZone tbrk r) : r.stop < 2 ^ 64 := by
  have h1 := h.upper
  have h2 := guestMemTopVa_lt
  omega

theorem InZone.start_lt_stop (h : InZone tbrk r) : r.start < r.stop :=
  Nat.lt_add_of_pos_right h.nonempty

theorem Reg.start_le_stop (r : Reg) : r.start ≤ r.stop := Nat.le_add_right _ _

theorem Reg.stop_glued {l m r : Reg} (htouch : l.stop = r.start) (hstart : m.start = l.start)
    (hsize : m.size = l.size + r.size) : m.stop = r.stop := by
  simp only [Reg.stop] at htouch ⊢
  omega

/-- Two regions that touch make one region of whole pages. -/
theorem InZone.glue (hl : InZone tbrk l) (hr : InZone tbrk r) (hstart : m.start = l.start)
    (hsize : m.size = l.size + r.size) (hstop : m.stop = r.stop) : InZone tbrk m where
  start_page := hstart ▸ hl.start_page
  size_page := by rw [hsize, Nat.add_mod, hl.size_page, hr.size_page]; rfl
  nonempty := by
    have := hl.nonempty
    omega
  lower := hstart ▸ hl.lower
  upper := hstop ▸ hr.upper

theorem BusyOk.mono {t' : Nat} (h : BusyOk t r)
    (hlo : r.kmFlags.partOfMonitor = false → t' ≤ r.start) : BusyOk t' r where
  no_wrap := h.no_wrap
  monitor := h.monitor
  payload hp := { h.payload hp with lower := hlo hp }

theorem BusyOk.tbrk_le (h : BusyOk t r) (ht : t ≤ guestMemTopVa) : t ≤ r.start := by
  have htop := guestMemTopVa_lt
  cases hp : r.kmFlags.partOfMonitor with
  | true =>
    have := h.monitor hp
    omega
  | false => exact (h.payload hp).lower

theorem BusyOk.zone_of_lt {a : Nat} (h : BusyOk t r) (hlo : r.start ≤ a) (ha : a < guestMemTopVa) :
    r.kmFlags.partOfMonitor = false ∧ InZone t r := by
  have htop := guestMemTopVa_lt
  cases hp : r.kmFlags.partOfMonitor with
  | true =>
    have := h.monitor hp
    omega
  | false => exact ⟨rfl, h.payload hp⟩

structure SameExtent (r r' : Reg) : Prop where
  start : r'.start = r.start
  size : r'.size = r.size
  partOfMonitor : r'.kmFlags.partOfMonitor = r.kmFlags.partOfMonitor

theorem SameExtent.stop (h : SameExtent r r') : r'.stop = r.stop := by
  simp only [Reg.stop, h.start, h.size]

theorem SameExtent.busyOk (h : SameExtent r r') (hr : BusyOk t r) : BusyOk t r' where
  no_wrap := h.stop ▸ hr.no_wrap
  monitor hp := h.start ▸ hr.monitor (h.partOfMonitor ▸ hp)
  payload hp := by
    obtain ⟨h1, h2, h3, h4, h5⟩ := hr.payload (h.partOfMonitor ▸ hp)
    exact ⟨h.start ▸ h1, h.size ▸ h2, h.size ▸ h3, h.start ▸ h4, h.stop ▸ h5⟩

/-! ## The invariant -/

/-- The regions tile the top zone but for `[lo, hi)`.  The busy list is apart, because a walk keeps
it in two halves. -/
structure Holed (g : Geometry) (s : MmapState) (busy : List Reg) (lo hi : Nat) : Prop where
  breaks : BreaksOk g s.mem
  tbrk_page : s.mem.tbrk % kmPageSize = 0
  running : s.recoveryMode = false
  mapself : ∀ v, (s.mapself v).base % kmPageSize = 0 ∧ (s.mapself v).size % kmPageSize = 0
  busy_sorted : Apart 0 busy
  free_sorted : Apart 1 s.free
  busy_ok : ∀ r ∈ busy, BusyOk s.mem.tbrk r
  free_ok : ∀ r ∈ s.free, FreeOk s.mem.tbrk r
  tiled : ∀ a, s.mem.tbrk ≤ a → a < guestMemTopVa →
    (Mapped busy a ↔ ¬ Mapped s.free a ∧ ¬ (lo ≤ a ∧ a < hi))
  hole : ∀ a, lo ≤ a → a < hi → ¬ Mapped s.free a

/-- No hole. -/
abbrev Whole (g : Geometry) (s : MmapState) (busy : List Reg) : Prop := Holed g s busy 0 0

/-- Nothing that the invariant looks at has changed. -/
structure Quiet (s s' : MmapState) : Prop where
  mem : SameBrk s.mem s'.mem
  free : s'.free = s.free
  busy : s'.busy = s.busy
  recoveryMode : s'.recoveryMode = s.recoveryMode
  mapself : s'.mapself = s.mapself

theorem Quiet.refl (s : MmapState) : Quiet s s := ⟨SameBrk.refl _, rfl, rfl, rfl, rfl⟩

theorem Quiet.trans {s1 s2 s3 : MmapState} (h₁ : Quiet s1 s2) (h₂ : Quiet s2 s3) : Quiet s1 s3 :=
  ⟨h₁.mem.trans h₂.mem, h₂.free.trans h₁.free, h₂.busy.trans h₁.busy,
    h₂.recoveryMode.trans h₁.recoveryMode, h₂.mapself.trans h₁.mapself⟩

theorem Quiet.call (s : MmapState) (c : HostCall) : Quiet s (s.call c) :=
  ⟨⟨rfl, rfl⟩, rfl, rfl, rfl, rfl⟩

section Moves

variable {g : Geometry} {s s' : MmapState} {busy xs ms ms' ys : List Reg} {lo hi : Nat}
variable {n : Nat}

theorem Holed.quiet (h : Holed g s busy lo hi) (hq : Quiet s s') : Holed g s' busy lo hi := by
  obtain ⟨h1, h2, h3, h4, h5, h6, h7, h8, h9, h10⟩ := h
  obtain ⟨hm, hf, -, hr, hself⟩ := hq
  have ht := hm.tbrk
  exact ⟨h1.congr hm, ht ▸ h2, hr ▸ h3, hself ▸ h4, h5, hf ▸ h6, ht ▸ h7, hf ▸ ht ▸ h8,
    hf ▸ ht ▸ h9, hf ▸ h10⟩

theorem Holed.call (h : Whole g s s.busy) (c : HostCall) : Whole g (s.call c) (s.call c).busy :=
  h.quiet (Quiet.call s c)

/-! ## Busy regions -/

/-- Exchange a segment of the busy list for one that covers the same addresses. -/
theorem Holed.replace (h : Holed g s (xs ++ ms ++ ys) lo hi) (hsorted : Apart 0 ms')
    (hin : ∀ r ∈ ms', (∃ q ∈ ms, q.start ≤ r.start) ∧ ∃ q ∈ ms, r.stop ≤ q.stop)
    (hok : ∀ r ∈ ms', BusyOk s.mem.tbrk r) (hcover : ∀ a, Mapped ms' a ↔ Mapped ms a) :
    Holed g s (xs ++ ms' ++ ys) lo hi where
  breaks := h.breaks
  tbrk_page := h.tbrk_page
  running := h.running
  mapself := h.mapself
  busy_sorted := h.busy_sorted.replace hsorted hin
  free_sorted := h.free_sorted
  busy_ok r hr := by
    have hold : ∀ q, q ∈ xs ∨ q ∈ ys → BusyOk s.mem.tbrk q := by
      intro q hq
      apply h.busy_ok
      rcases hq with hq | hq <;> simp [hq]
    rcases mem_append.1 hr with hr | hr
    · rcases mem_append.1 hr with hr | hr
      · exact hold r (.inl hr)
      · exact hok r hr
    · exact hold r (.inr hr)
  free_ok := h.free_ok
  tiled a hlo hhi := (covers_replace (hcover a)).trans (h.tiled a hlo hhi)
  hole := h.hole

theorem Holed.mem_ok (h : Holed g s (xs ++ r :: ys) lo hi) : BusyOk s.mem.tbrk r :=
  h.busy_ok r (by simp)

/-- Attributes of a region may change. -/
theorem Holed.relabel (h : Holed g s (xs ++ r :: ys) lo hi) (hr : SameExtent r r') :
    Holed g s (xs ++ r' :: ys) lo hi := by
  have hok := hr.busyOk h.mem_ok
  rw [append_cons] at h ⊢
  refine h.replace (pairwise_singleton _ _) ?_ ?_ ?_
  · simp [hr.start, hr.stop]
  · simpa using hok
  intro a
  simp [hr.start, hr.stop]

/-- Two regions that touch become one. -/
theorem Holed.glue (h : Holed g s (xs ++ l :: r :: ys) lo hi) (htouch : l.stop = r.start)
    (hstart : m.start = l.start) (hsize : m.size = l.size + r.size)
    (hl : m.kmFlags.partOfMonitor = l.kmFlags.partOfMonitor)
    (hr : m.kmFlags.partOfMonitor = r.kmFlags.partOfMonitor) : Holed g s (xs ++ m :: ys) lo hi := by
  have hlok : BusyOk s.mem.tbrk l := h.busy_ok l (by simp)
  have hrok : BusyOk s.mem.tbrk r := h.busy_ok r (by simp)
  have hstop := Reg.stop_glued htouch hstart hsize
  have e1 : xs ++ l :: r :: ys = xs ++ [l, r] ++ ys := by simp
  have e2 : xs ++ m :: ys = xs ++ [m] ++ ys := by simp
  rw [e1] at h
  rw [e2]
  refine h.replace (pairwise_singleton _ _) ?_ ?_ ?_
  · simp [hstart, hstop]
  · intro m' hm'
    rw [mem_singleton] at hm'
    subst hm'
    exact ⟨hstop ▸ hrok.no_wrap, fun hp => hstart ▸ hlok.monitor (hl ▸ hp), fun hp =>
      (hlok.payload (hl ▸ hp)).glue (hrok.payload (hr ▸ hp)) hstart hsize hstop⟩
  intro a
  exact covers_glue htouch hstart hstop l.start_le_stop r.start_le_stop

/-- A region of the payload is cut at a page boundary. -/
theorem Holed.cut (h : Holed g s (xs ++ r :: ys) lo hi) (hpart : r.kmFlags.partOfMonitor = false)
    {c : Nat} (hc : c % kmPageSize = 0) (hlo : r.start < c) (hhi : c < r.stop) :
    Holed g s (xs ++ (r.splitAt c).1 :: (r.splitAt c).2 :: ys) lo hi := by
  have hz := h.mem_ok.payload hpart
  have hwrap := h.mem_ok.no_wrap
  obtain ⟨h1, h2, h3, h4, h5⟩ := hz
  simp only [Reg.splitAt]
  simp only [Reg.stop] at hhi hwrap h5
  rw [kmPageSize_eq] at hc h1 h2
  have e1 : ∀ p q : Reg, xs ++ p :: q :: ys = xs ++ [p, q] ++ ys := by simp
  rw [append_cons] at h
  rw [e1]
  refine h.replace ?_ ?_ ?_ ?_
  · simp only [Sorted, pairwise_cons, mem_singleton, Reg.stop]
    refine ⟨?_, by simp⟩
    rintro q rfl
    simp only
    omega
  · intro q hq
    simp only [mem_cons, not_mem_nil, or_false] at hq
    simp only [mem_singleton, exists_eq_left, Reg.stop]
    rcases hq with rfl | rfl <;> simp only <;> omega
  · intro q hq
    simp only [mem_cons, not_mem_nil, or_false] at hq
    rcases hq with rfl | rfl
    · refine ⟨?_, fun hp => absurd (hpart.symm.trans hp) (by decide), fun _ => ⟨?_, ?_, ?_, ?_, ?_⟩⟩ <;>
        simp only [Reg.stop, kmPageSize_eq] <;> omega
    refine ⟨?_, fun hp => absurd (hpart.symm.trans hp) (by decide), fun _ => ⟨?_, ?_, ?_, ?_, ?_⟩⟩ <;>
      simp only [Reg.stop, kmPageSize_eq] <;> omega
  intro a
  simp only [covers_cons, not_covers_nil, or_false, Reg.stop]
  omega

/-- A region of the payload leaves the busy list and leaves a hole. -/
theorem Holed.remove (h : Whole g s (xs ++ r :: ys)) (hpart : r.kmFlags.partOfMonitor = false) :
    Holed g s (xs ++ ys) r.start r.stop := by
  have hz := h.mem_ok.payload hpart
  have hsorted : Apart 0 (xs ++ [r] ++ ys) := by
    have := h.busy_sorted
    rwa [append_cons] at this
  have hsplit : ∀ a, Mapped (xs ++ r :: ys) a ↔ Mapped (xs ++ ys) a ∨ (r.start ≤ a ∧ a < r.stop) := by
    intro a
    simp only [covers_append, covers_cons]
    tauto
  have hout : ∀ a, Mapped (xs ++ ys) a → ¬ (r.start ≤ a ∧ a < r.stop) := by
    intro a ha hr
    exact hsorted.not_covers_rest (by simpa using hr) ha
  refine
    { h with
      busy_sorted := hsorted.drop_middle
      busy_ok := fun q hq => h.busy_ok q ?_
      tiled := fun a hlo hhi => ?_
      hole := fun a hlo hhi => ?_ }
  · rcases mem_append.1 hq with hq | hq <;> simp [hq]
  · have ht := h.tiled a hlo hhi
    rw [hsplit] at ht
    have ho := hout a
    constructor
    · intro hm
      exact ⟨(ht.1 (.inl hm)).1, ho hm⟩
    rintro ⟨hf, hr⟩
    exact (ht.2 ⟨hf, by omega⟩).resolve_right hr
  have ht := h.tiled a (le_trans hz.lower hlo) (lt_of_lt_of_le hhi hz.upper)
  exact (ht.1 ((hsplit a).2 (.inr ⟨hlo, hhi⟩))).1

/-- A region of the payload fills the hole. -/
theorem Holed.fill (h : Holed g s (xs ++ ys) r.start r.stop) (hr : BusyOk s.mem.tbrk r)
    (hx : ∀ x ∈ xs, x.stop ≤ r.start) (hy : ∀ y ∈ ys, r.stop ≤ y.start) :
    Whole g s (xs ++ r :: ys) := by
  refine
    { h with
      busy_sorted := h.busy_sorted.insert hx hy
      busy_ok := fun q hq => ?_
      tiled := fun a hlo hhi => ?_
      hole := fun a _ hhi => absurd hhi (Nat.not_lt_zero _) }
  · rcases mem_append.1 hq with hq | hq
    · exact h.busy_ok q (mem_append_left _ hq)
    rcases mem_cons.1 hq with rfl | hq
    · exact hr
    · exact h.busy_ok q (mem_append_right _ hq)
  have ht := h.tiled a hlo hhi
  have hh := h.hole a
  simp only [covers_append, covers_cons] at ht ⊢
  constructor
  · intro hm
    refine ⟨?_, by omega⟩
    by_cases hin : r.start ≤ a ∧ a < r.stop
    · exact hh hin.1 hin.2
    · exact (ht.1 (by tauto)).1
  rintro ⟨hf, -⟩
  by_cases hin : r.start ≤ a ∧ a < r.stop
  · exact .inr (.inl hin)
  have := ht.2 ⟨hf, hin⟩
  tauto

/-- A region of the payload grows into the hole behind it. -/
theorem Holed.extend (h : Holed g s (xs ++ r :: ys) r.stop (r.stop + n))
    (hpart : r.kmFlags.partOfMonitor = false) (hn : 0 < n) (hpage : n % kmPageSize = 0)
    (htop : r.stop + n ≤ guestMemTopVa) (hy : ∀ y ∈ ys, r.stop + n ≤ y.start) :
    Whole g s (xs ++ { r with size := r.size + n } :: ys) := by
  have hz := h.mem_ok.payload hpart
  let extra : Reg := { r with start := r.stop, size := n }
  have hstop_page : r.stop % kmPageSize = 0 := by
    rw [Reg.stop, Nat.add_mod, hz.start_page, hz.size_page]
    rfl
  have hextra : InZone s.mem.tbrk extra :=
    ⟨hstop_page, hpage, hn, le_trans hz.lower r.start_le_stop, htop⟩
  have hsorted := h.busy_sorted
  rw [append_cons] at h hsorted
  have hbefore : ∀ x ∈ xs ++ [r], x.stop ≤ extra.start := by
    intro x hx
    rcases mem_append.1 hx with hx | hx
    · have hxr := (sorted_append.1 (sorted_append.1 hsorted).1).2.2 x hx r (by simp)
      exact le_trans hxr r.start_le_stop
    rw [mem_singleton] at hx
    exact le_of_eq (by rw [hx])
  have hfilled := Holed.fill h
    ⟨hextra.no_wrap, fun hp => absurd (hpart.symm.trans hp) (by decide), fun _ => hextra⟩ hbefore hy
  rw [← append_cons] at hfilled
  exact hfilled.glue rfl rfl rfl rfl rfl

/-! ## Free regions -/

/-- `n` bytes are taken from the front of a free region. -/
theorem Holed.carve {rest : List Reg} (h : Whole g s busy) (hfree : s.free = xs ++ r :: ys)
    (hn : 0 < n) (hpage : n % kmPageSize = 0) (hrest : (n = r.size ∧ rest = []) ∨
      (n < r.size ∧ rest = [{ r with start := r.start + n, size := r.size - n }])) :
    Holed g { s with free := xs ++ rest ++ ys } busy r.start (r.start + n) := by
  have hr : FreeOk s.mem.tbrk r := h.free_ok r (by simp [hfree])
  obtain ⟨⟨h1, h2, h3, h4, h5⟩, habove, hblank⟩ := hr
  have hsorted : Apart 1 (xs ++ [r] ++ ys) := by
    have := h.free_sorted
    rwa [hfree, append_cons] at this
  rw [kmPageSize_eq] at hpage h1 h2
  -- what is left of the region
  have hcover : ∀ a, Mapped rest a ↔ r.start + n ≤ a ∧ a < r.stop := by
    intro a
    rcases hrest with ⟨hsz, rfl⟩ | ⟨hlt, rfl⟩
    · simp only [not_covers_nil, Reg.stop, false_iff]
      omega
    simp only [covers_cons, not_covers_nil, or_false, Reg.stop]
    omega
  have hok : ∀ q ∈ rest, FreeOk s.mem.tbrk q ∧ r.start ≤ q.start ∧ q.stop ≤ r.stop := by
    intro q hq
    rcases hrest with ⟨-, rfl⟩ | ⟨hlt, rfl⟩
    · cases hq
    rw [mem_singleton] at hq
    subst hq
    simp only [Reg.stop] at h5
    refine ⟨⟨⟨?_, ?_, ?_, ?_, ?_⟩, ?_, ⟨hblank.flags, hblank.protection, hblank.kmFlags,
      hblank.filename⟩⟩, ?_, ?_⟩ <;> simp only [Reg.stop, kmPageSize_eq] <;> omega
  have hrestsorted : Apart 1 rest := by
    rcases hrest with ⟨-, rfl⟩ | ⟨-, rfl⟩
    · exact List.Pairwise.nil
    · exact pairwise_singleton _ _
  have hmem : ∀ a, Mapped (xs ++ rest ++ ys) a ↔
      Mapped s.free a ∧ ¬ (r.start ≤ a ∧ a < r.start + n) := by
    intro a
    have hne : r.start ≤ a ∧ a < r.stop → ¬ Mapped (xs ++ ys) a := by
      intro hin
      exact hsorted.not_covers_rest (by simpa using hin)
    have hstop : r.start + n ≤ r.stop := by
      simp only [Reg.stop]
      omega
    simp only [hfree, covers_append, covers_cons, hcover] at hne ⊢
    constructor
    · rintro ((hm | hm) | hm)
      · exact ⟨.inl hm, fun hin => hne ⟨hin.1, by omega⟩ (.inl hm)⟩
      · exact ⟨.inr (.inl ⟨by omega, hm.2⟩), by omega⟩
      · exact ⟨.inr (.inr hm), fun hin => hne ⟨hin.1, by omega⟩ (.inr hm)⟩
    rintro ⟨hm | hm | hm, hout⟩
    · exact .inl (.inl hm)
    · exact .inl (.inr ⟨by omega, hm.2⟩)
    · exact .inr hm
  refine
    { h with
      free_sorted := ?_
      free_ok := fun q hq => ?_
      tiled := fun a hlo hhi => ?_
      hole := fun a hlo hhi => ?_ }
  · refine hsorted.replace hrestsorted ?_
    intro q hq
    have := (hok q hq).2
    exact ⟨⟨r, mem_singleton_self r, this.1⟩, ⟨r, mem_singleton_self r, this.2⟩⟩
  · simp only [append_assoc, mem_append] at hq
    rcases hq with hq | hq | hq
    · exact h.free_ok q (by simp [hfree, hq])
    · exact (hok q hq).1
    · exact h.free_ok q (by simp [hfree, hq])
  · have ht := h.tiled a hlo hhi
    simp only [hmem, ht]
    constructor
    · rintro ⟨hf, -⟩
      refine ⟨fun hm => hf hm.1, fun hin => hf ?_⟩
      simp only [hfree, covers_append, covers_cons, Reg.stop]
      omega
    rintro ⟨hf, hin⟩
    exact ⟨fun hm => hf ⟨hm, hin⟩, by omega⟩
  simp only [hmem]
  exact fun hm => hm.2 ⟨hlo, hhi⟩

/-- `tbrk` moves down: the new memory is a hole. -/
theorem Holed.tbrk_down {m : MemState} (h : Whole g s busy) (hm : BreaksOk g m)
    (hpage : m.tbrk % kmPageSize = 0) (hle : m.tbrk ≤ s.mem.tbrk) :
    Holed g { s with mem := m } busy m.tbrk s.mem.tbrk := by
  have htop := h.breaks.tbrk_hi
  have hbusy : ∀ a, a < s.mem.tbrk → ¬ Mapped busy a := by
    intro a ha
    exact not_covers_of_lt fun r hr => lt_of_lt_of_le ha ((h.busy_ok r hr).tbrk_le htop)
  have hfree : ∀ a, a < s.mem.tbrk → ¬ Mapped s.free a := by
    intro a ha
    exact not_covers_of_lt fun r hr => lt_trans ha (h.free_ok r hr).above
  refine
    { h with
      breaks := hm
      tbrk_page := hpage
      busy_ok := fun r hr => (h.busy_ok r hr).mono fun hp =>
        le_trans hle ((h.busy_ok r hr).payload hp).lower
      free_ok := fun r hr => ?_
      tiled := fun a hlo hhi => ?_
      hole := fun a _ hhi => hfree a hhi }
  · obtain ⟨hz, habove, hblank⟩ := h.free_ok r hr
    exact ⟨{ hz with lower := le_trans hle hz.lower }, lt_of_le_of_lt hle habove, hblank⟩
  by_cases ha : a < s.mem.tbrk
  · exact ⟨fun hb => absurd hb (hbusy a ha), fun hb => absurd ⟨hlo, ha⟩ hb.2⟩
  have ht := h.tiled a (not_lt.1 ha) hhi
  rw [ht]
  constructor
  · rintro ⟨hf, -⟩
    exact ⟨hf, fun hin => ha hin.2⟩
  rintro ⟨hf, -⟩
  exact ⟨hf, by omega⟩

end Moves

end KontainMonitor.Mmap
