import KontainMonitor.Mmap.Pages
import KontainMonitor.Mmap.Progress

/-!
# Ranges — which range a call accepts, and what it does to the pages of it

`km_mmap_busy_check_contiguous` decides in one pass whether a range is mapped by the payload; where
the range does not reach 2^64 it decides exactly that.  On a range that is accepted, `munmap` and
`mprotect` change the pages of the range and no other page.
-/

namespace KontainMonitor.Mmap

open KontainMonitor.Mmap.Action Intervals List Mem Option

/-- The payload has mapped every address of the range; the sum is not one of 64 bits. -/
def PayloadMapped (busy : List Reg) (addr size : Nat) : Prop :=
  ∀ a, addr ≤ a → a < addr + size → ∃ r ∈ busy, r.start ≤ a ∧ a < r.stop ∧ r.ofMonitor = false

/-! ## The check -/

section Check

variable {addr size last : Nat} {l : List Reg}

section

variable (hwrap : addr + size < 2 ^ 64)
include hwrap

/-- What an accepted range is: no region of the monitor is in it, and it is mapped up to the last
region of the list at least. -/
theorem checkContiguousFrom_sound (hsorted : Apart 0 l) (hl : ∀ r ∈ l, r.stop < 2 ^ 64)
    (hcheck : checkContiguousFrom addr size last l) :
    (∀ r ∈ l, r.start < addr + size → addr < r.stop → r.ofMonitor = false) ∧
      ((∃ r ∈ l, addr + size ≤ r.start) → ∀ a, addr ≤ a → last ≤ a → a < addr + size → Mapped l a) := by
  have hend : u64 (addr + size) = addr + size := Nat.mod_eq_of_lt hwrap
  induction l generalizing last with
  | nil =>
    refine ⟨by simp, ?_⟩
    rintro ⟨r, hr, -⟩
    cases hr
  | cons reg rest ih =>
    obtain ⟨hafter, hrest⟩ := sorted_cons.1 hsorted
    have hfin := Reg.fin_eq (hl reg (.head _))
    have hstop := reg.start_le_stop
    have hl' : ∀ r ∈ rest, r.stop < 2 ^ 64 := fun r hr => hl r (.tail _ hr)
    simp only [checkContiguousFrom, hend, hfin] at hcheck
    split at hcheck
    · -- before the range
      rename_i hbefore
      obtain ⟨h1, h2⟩ := ih hrest hl' hcheck
      refine ⟨?_, ?_⟩
      · intro r hr hlo hhi
        rcases mem_cons.1 hr with rfl | hr
        · omega
        · exact h1 r hr hlo hhi
      rintro ⟨r, hr, hle⟩ a ha hlast hlt
      rcases mem_cons.1 hr with rfl | hr
      · omega
      · exact covers_cons.2 (.inr (h2 ⟨r, hr, hle⟩ a ha hlast hlt))
    split at hcheck
    · -- behind the range
      rename_i hbehind
      rw [decide_eq_true_eq] at hcheck
      refine ⟨?_, fun _ a _ hlast hlt => by omega⟩
      intro r hr hlo hhi
      rcases mem_cons.1 hr with rfl | hr
      · omega
      have := hafter r hr
      omega
    rename_i hbehind
    split at hcheck
    · cases hcheck
    rename_i hgap
    simp only [not_or, not_and, not_lt, Bool.not_eq_true, ne_eq, not_not] at hgap
    obtain ⟨hnext, hfirst, hmon⟩ := hgap
    obtain ⟨h1, h2⟩ := ih hrest hl' hcheck
    refine ⟨?_, ?_⟩
    · intro r hr hlo hhi
      rcases mem_cons.1 hr with rfl | hr
      · exact hmon
      · exact h1 r hr hlo hhi
    rintro ⟨r, hr, hle⟩ a ha hlast hlt
    rcases mem_cons.1 hr with rfl | hr
    · omega
    refine covers_cons.2 ?_
    rcases lt_or_ge a reg.stop with hin | hout
    · -- no gap before this region
      have hstart : reg.start ≤ a := by
        by_cases hzero : last = 0
        · exact le_trans (hfirst hzero) ha
        have := hnext hzero
        omega
      exact .inl ⟨hstart, hin⟩
    · exact .inr (h2 ⟨r, hr, hle⟩ a ha hout hlt)

/-- A range that is mapped by the payload is accepted, if no region of the monitor ends where the
range starts. -/
theorem checkContiguousFrom_complete (hsize : 0 < size) (hsorted : Apart 0 l)
    (hl : ∀ r ∈ l, r.stop < 2 ^ 64)
    (hmon : ∀ r ∈ l, r.ofMonitor → r.start < addr + size → r.stop < addr)
    (hlast : last = 0 ∨ (addr ≤ last ∧ ∀ r ∈ l, last ≤ r.start))
    (hmapped : ∀ a, addr ≤ a → last ≤ a → a < addr + size → Mapped l a)
    (hnonempty : ∀ r ∈ l, r.start < addr + size → 0 < r.size) :
    checkContiguousFrom addr size last l := by
  have hend : u64 (addr + size) = addr + size := Nat.mod_eq_of_lt hwrap
  induction l generalizing last with
  | nil =>
    simp only [checkContiguousFrom, ne_eq, decide_not, Bool.not_eq_true', decide_eq_false_iff_not]
    rintro rfl
    exact not_covers_nil addr (hmapped addr le_rfl (Nat.zero_le _) (by omega))
  | cons reg rest ih =>
    obtain ⟨hafter, hrest⟩ := sorted_cons.1 hsorted
    have hfin := Reg.fin_eq (hl reg (.head _))
    have hstop := reg.start_le_stop
    have hl' : ∀ r ∈ rest, r.stop < 2 ^ 64 := fun r hr => hl r (.tail _ hr)
    have hmon' : ∀ r ∈ rest, r.ofMonitor → r.start < addr + size → r.stop < addr :=
      fun r hr => hmon r (.tail _ hr)
    have hne' : ∀ r ∈ rest, r.start < addr + size → 0 < r.size :=
      fun r hr => hnonempty r (.tail _ hr)
    -- what is behind this region is mapped by the rest
    have hmapped' : ∀ a, addr ≤ a → last ≤ a → reg.stop ≤ a → a < addr + size → Mapped rest a := by
      intro a h1 h2 h3 h4
      rcases covers_cons.1 (hmapped a h1 h2 h4) with hin | hin
      · omega
      · exact hin
    simp only [checkContiguousFrom, hend, hfin]
    by_cases hbefore : reg.stop < addr
    · rw [if_pos hbefore]
      refine ih hrest hl' hmon' ?_ (fun a h1 h2 h3 => hmapped' a h1 h2 (by omega) h3) hne'
      rcases hlast with hz | ⟨h1, h2⟩
      · exact .inl hz
      have := h2 reg (.head _)
      omega
    rw [if_neg hbefore]
    by_cases hbehind : addr + size ≤ reg.start
    · rw [if_pos hbehind, decide_eq_true_eq]
      by_contra hlt
      -- the first address that is missing
      have hmiss := hmapped (max addr last) (le_max_left _ _) (le_max_right _ _) (by omega)
      refine not_covers_of_lt (fun r hr => ?_) hmiss
      rcases mem_cons.1 hr with rfl | hr
      · omega
      have := hafter r hr
      omega
    rw [if_neg hbehind]
    have hpay : reg.ofMonitor = false := by
      by_contra hm
      exact hbefore (hmon reg (.head _) (Bool.not_eq_false _ ▸ hm) (by omega))
    have hsz := hnonempty reg (.head _) (by omega)
    have hlt : reg.start < reg.stop := by
      simp only [Reg.stop]
      omega
    -- the region starts where the mapped part ends
    have hstart : (last ≠ 0 → last = reg.start) ∧ (last = 0 → reg.start ≤ addr) := by
      refine ⟨fun hz => ?_, fun hz => ?_⟩
      · rcases hlast with h0 | ⟨h1, h2⟩
        · exact absurd h0 hz
        by_contra hne
        have hle := h2 reg (.head _)
        refine not_covers_of_lt (fun r hr => ?_) (hmapped last h1 le_rfl (by omega))
        rcases mem_cons.1 hr with rfl | hr
        · omega
        have := hafter r hr
        omega
      by_contra hne
      refine not_covers_of_lt (fun r hr => ?_)
        (hmapped addr le_rfl (by omega) (by omega))
      rcases mem_cons.1 hr with rfl | hr
      · omega
      have := hafter r hr
      omega
    have hgap : ¬ ((last ≠ 0 ∧ last ≠ reg.start) ∨ (last = 0 ∧ addr < reg.start) ∨
        reg.ofMonitor) := by
      rintro (⟨h1, h2⟩ | ⟨h1, h2⟩ | h1)
      · exact h2 (hstart.1 h1)
      · have := hstart.2 h1
        omega
      rw [hpay] at h1
      cases h1
    rw [if_neg hgap]
    refine ih hrest hl' hmon' (.inr ⟨not_lt.1 hbefore, hafter⟩) ?_ hne'
    intro a h1 h2 h3
    refine hmapped' a h1 ?_ h2 h3
    by_cases hz : last = 0
    · omega
    have := hstart.1 hz
    omega

/-- An accepted range starts in a region of the payload, or where one ends. -/
theorem checkContiguousFrom_first (hsize : 0 < size) (hl : ∀ r ∈ l, r.stop < 2 ^ 64)
    (hcheck : checkContiguousFrom addr size 0 l) :
    ∃ r ∈ l, r.start ≤ addr ∧ addr ≤ r.stop ∧ r.ofMonitor = false := by
  have hend : u64 (addr + size) = addr + size := Nat.mod_eq_of_lt hwrap
  induction l with
  | nil => simp [checkContiguousFrom] at hcheck
  | cons reg rest ih =>
    have hfin := Reg.fin_eq (hl reg (.head _))
    simp only [checkContiguousFrom, hend, hfin] at hcheck
    split at hcheck
    · rcases ih (fun r hr => hl r (.tail _ hr)) hcheck with ⟨r, hr, hfirst⟩
      exact ⟨r, mem_cons_of_mem _ hr, hfirst⟩
    rename_i hbefore
    split at hcheck
    · rw [decide_eq_true_eq] at hcheck
      omega
    split at hcheck
    · cases hcheck
    next hgap =>
      simp only [not_or, not_and, not_lt, Bool.not_eq_true] at hgap
      exact ⟨reg, (.head _), hgap.2.1 trivial, by omega, hgap.2.2⟩

end

/-- Once a region was accepted that ends behind the end of the range, modulo 2^64, the rest is not
looked at. -/
theorem checkContiguousFrom_rest (hend : u64 (addr + size) ≤ last) (hne : last ≠ 0) (hlo : addr ≤ last)
    (hl : ∀ r ∈ l, r.stop < 2 ^ 64 ∧ last ≤ r.start) :
    checkContiguousFrom addr size last l := by
  cases l with
  | nil => simpa [checkContiguousFrom] using hne
  | cons reg rest =>
    obtain ⟨hwrap, hstart⟩ := hl reg (.head _)
    have hstop := reg.start_le_stop
    rw [checkContiguousFrom, Reg.fin_eq hwrap, if_neg (by omega), if_pos (by omega)]
    simpa using hend

/-- What is accepted of the ranges that reach 2^64: those that end there, and those whose end,
modulo 2^64, is behind the start of the first region not ending before the range. -/
theorem checkContiguousFrom_wrap (hsorted : Apart 0 l) (hl : ∀ r ∈ l, r.stop < 2 ^ 64)
    (hlt : u64 (addr + size) < addr) : checkContiguousFrom addr size 0 l ↔ ∃ r ∈ l, addr ≤ r.stop ∧
        (u64 (addr + size) = 0 ∨ (r.start < u64 (addr + size) ∧ r.ofMonitor = false)) := by
  induction l with
  | nil => simp [checkContiguousFrom]
  | cons reg rest ih =>
    obtain ⟨hafter, hrest⟩ := sorted_cons.1 hsorted
    have hwrap := hl reg (.head _)
    have hl' : ∀ r ∈ rest, r.stop < 2 ^ 64 := fun r hr => hl r (.tail _ hr)
    rw [checkContiguousFrom, Reg.fin_eq hwrap]
    by_cases hbefore : reg.stop < addr
    · rw [if_pos hbefore, ih hrest hl']
      constructor
      · rintro ⟨r, hr, hcase⟩
        exact ⟨r, mem_cons_of_mem _ hr, hcase⟩
      rintro ⟨r, hr, hle, hcase⟩
      rcases mem_cons.1 hr with rfl | hr
      · omega
      · exact ⟨r, hr, hle, hcase⟩
    -- later regions start behind the end
    have hlater : ∀ r ∈ rest, u64 (addr + size) ≤ r.start := by
      intro r hr
      have := hafter r hr
      omega
    rw [if_neg hbefore]
    by_cases hbehind : u64 (addr + size) ≤ reg.start
    · rw [if_pos hbehind, decide_eq_true_eq, Nat.le_zero]
      constructor
      · exact fun hzero => ⟨reg, (.head _), by omega, .inl hzero⟩
      rintro ⟨r, hr, -, hzero | ⟨hstart, -⟩⟩
      · exact hzero
      rcases mem_cons.1 hr with rfl | hr
      · omega
      have := hlater r hr
      omega
    rw [if_neg hbehind]
    cases hmon : reg.ofMonitor with
    | true =>
      rw [if_pos (.inr (.inr rfl))]
      constructor
      · intro hfalse
        cases hfalse
      rintro ⟨r, hr, -, hzero | ⟨hstart, hpay⟩⟩
      · omega
      rcases mem_cons.1 hr with rfl | hr
      · rw [hmon] at hpay
        cases hpay
      have := hlater r hr
      omega
    | false =>
      have hgap : ¬ ((0 ≠ 0 ∧ 0 ≠ reg.start) ∨ (0 = 0 ∧ addr < reg.start) ∨ false) := by
        rintro (⟨h1, -⟩ | ⟨-, h2⟩ | h3)
        · exact h1 rfl
        · omega
        · cases h3
      rw [if_neg hgap]
      constructor
      · exact fun _ => ⟨reg, (.head _), by omega, .inr ⟨by omega, hmon⟩⟩
      intro _
      exact checkContiguousFrom_rest (by omega) (by omega) (by omega)
        fun r hr => ⟨hl' r hr, hafter r hr⟩

end Check

section

variable {g : Geometry} {h : Host} {s s' : MmapState} {addr size rc : Nat} {prot : BitVec 32}
variable {a n : Nat}

section

variable (hs : Whole g s s.busy)
include hs

theorem PayloadMapped.lt_top (hm : PayloadMapped s.busy addr size) (hpos : 0 < size) :
    addr + size ≤ guestMemTopVa := by
  rcases hm (addr + size - 1) (by omega) (by omega) with ⟨r, hr, -, hhi, hpay⟩
  have := ((hs.busy_ok r hr).payload (Reg.payload_part hpay)).upper
  omega

def MonitorAbove (busy : List Reg) : Prop :=
  ∃ m ∈ busy, m.ofMonitor ∧
    ∀ r ∈ busy, r.ofMonitor = false → r.stop ≤ m.start ∧ r.stop < m.stop

section

variable (hwrap : addr + size < 2 ^ 64) (hcheck : kmMmapBusyCheckContiguous s.busy addr size)
include hwrap hcheck

/-- No page of the monitor is in an accepted range. -/
theorem Holed.check_payload {x : Label} (hlo : addr ≤ a) (hhi : a < addr + size)
    (hx : labelAt s.busy a = some x) : x.ofMonitor = false := by
  rcases labelAt_mem hx with ⟨r, hr, hra, har, rfl⟩
  exact (checkContiguousFrom_sound hwrap hs.busy_sorted (fun r hr => (hs.busy_ok r hr).no_wrap)
    hcheck).1 r hr (by omega) (by omega)

theorem Holed.check_mapped (hmon : MonitorAbove s.busy)
    (hlo : addr ≤ a) (hhi : a < addr + size) : Mapped s.busy a := by
  have hl : ∀ r ∈ s.busy, r.stop < 2 ^ 64 := fun r hr => (hs.busy_ok r hr).no_wrap
  rcases hmon with ⟨m, hm, hown, habove⟩
  rcases checkContiguousFrom_first hwrap (by omega) hl hcheck with ⟨r, hr, hrlo, hrhi, hpay⟩
  obtain ⟨hstart, hstop⟩ := habove r hr hpay
  obtain ⟨hclear, hcover⟩ := checkContiguousFrom_sound hwrap hs.busy_sorted hl hcheck
  refine hcover ⟨m, hm, ?_⟩ a hlo (Nat.zero_le _) hhi
  by_contra hlt
  have hno := hclear m hm (by omega) (by omega)
  rw [hown] at hno
  cases hno

end

/-- The pages of the monitor in the private area are such a region. -/
theorem Holed.above_payload {m : Reg} (hm : m ∈ s.busy) (hpart : m.kmFlags.partOfMonitor) {r : Reg}
    (hr : r ∈ s.busy) (hpay : r.ofMonitor = false) : r.stop ≤ m.start ∧ r.stop < m.stop := by
  have htop := guestMemTopVa_lt
  have hmlo := (hs.busy_ok m hm).monitor hpart
  have hmstop := m.start_le_stop
  have hupp := ((hs.busy_ok r hr).payload (Reg.payload_part hpay)).upper
  omega

end

/-! ## Pages -/

structure PageView where
  protection : BitVec 32
  flags : BitVec 32
  filename : Option String
  monitor : Bool
  partOfMonitor : Bool
  deriving DecidableEq, Repr

def PageView.ofMonitor (v : PageView) : Bool := v.monitor || v.partOfMonitor

def Label.view (x : Label) : PageView :=
  { protection := x.protection
    flags := x.flags
    filename := x.filename
    monitor := x.kmFlags.monitor
    partOfMonitor := x.kmFlags.partOfMonitor }

def MmapState.view (s : MmapState) (a : Nat) : Option PageView := (labelAt s.busy a).map Label.view

def withoutRange (view : Nat → Option PageView) (addr size a : Nat) : Option PageView :=
  (view a).bind fun v =>
    if addr ≤ a ∧ a < addr + size ∧ v.ofMonitor = false then none else some v

def withProtection (view : Nat → Option PageView) (addr size : Nat) (prot : BitVec 32) (a : Nat) :
    Option PageView :=
  (view a).map fun v => if addr ≤ a ∧ a < addr + size then { v with protection := prot } else v

theorem Label.view_ofMonitor (x : Label) : x.view.ofMonitor = x.ofMonitor := rfl

theorem Label.view_cleaned (x : Label) : x.cleaned.view = x.view := by
  simp only [Label.cleaned]
  split <;> rfl

section

variable (hs : Whole g s s.busy) (haddr : addr % kmPageSize = 0) (hsize : size % kmPageSize = 0)
  (hwrap : addr + size < 2 ^ 64)
include hs haddr hsize hwrap

theorem kmGuestMunmapNolock_view (hr : kmGuestMunmapNolock g h s addr size = some (s', 0)) :
    s'.view = withoutRange s.view addr size := by
  funext a
  have hlabel := kmMmapBusyRangeApply_labelAt hr haddr hsize hwrap hs (by simp) a
  simp only [MmapState.view, withoutRange, hlabel]
  cases hx : labelAt s.busy a with
  | none =>
    rw [pages_none hx, hx]
    rfl
  | some x =>
    by_cases hin : addr ≤ a ∧ a < addr + size ∧ x.ofMonitor = false
    · rw [pages_inside hx (show (rangeReg addr size protNone false).start ≤ a from hin.1)
        hin.2.1 hin.2.2, map_some, bind_some, Label.view_ofMonitor, if_pos hin]
      rfl
    have hkeep : Action.moveToFree.pages (rangeReg addr size protNone false) (labelAt s.busy) a =
        labelAt s.busy a := by
      cases hmon : x.ofMonitor with
      | true => exact pages_monitor hx hmon
      | false => exact pages_outside fun hr => hin ⟨hr.1, hr.2, hmon⟩
    rw [hkeep, hx, map_some, bind_some, Label.view_ofMonitor, if_neg hin]

theorem kmGuestMprotectNolock_view (hbrk : s.mem.brk < addr + size)
    (hr : kmGuestMprotectNolock g h s addr size prot = some (s', 0)) :
    kmMmapBusyCheckContiguous s.busy addr size ∧
      s'.view = withProtection s.view addr size prot := by
  have hend : u64 (addr + size) = addr + size := Nat.mod_eq_of_lt hwrap
  rw [kmGuestMprotectNolock, hend, if_neg (by omega)] at hr
  split at hr
  · cases hr
  rename_i hcheck
  rw [not_not] at hcheck
  refine ⟨hcheck, ?_⟩
  simp only [do_eq_some, return_eq_some, Prod.mk.injEq] at hr
  rcases hr with ⟨⟨s1, rc⟩, hwalk, rfl, hrc⟩
  obtain rfl : rc = 0 := by
    by_contra hne
    rw [if_pos hne] at hrc
    exact absurd hrc (by decide)
  funext a
  have hlabel := kmMmapBusyRangeApply_labelAt hwalk haddr hsize hwrap hs (by simp) a
  simp only [MmapState.view, withProtection, hlabel]
  cases hx : labelAt s.busy a with
  | none =>
    rw [pages_none hx, hx]
    rfl
  | some x =>
    by_cases hin : addr ≤ a ∧ a < addr + size
    · have hpay := hs.check_payload hwrap hcheck hin.1 hin.2 hx
      rw [pages_inside hx (show (rangeReg addr size prot false).start ≤ a from hin.1)
        hin.2 hpay]
      simp only [Action.relabel, map_some, Label.view_cleaned, if_pos hin]
      rfl
    rw [pages_outside hin, hx]
    rw [map_some, map_some, if_neg hin]

end

/-! ## The calls -/

theorem roundup_of_page (hn : n < 2 ^ 64) (hpage : n % kmPageSize = 0) :
    roundup n kmPageSize = n := by
  simp only [roundup, u64]
  rw [kmPageSize_eq] at hpage ⊢
  omega

theorem rounddown_of_page (hpage : n % kmPageSize = 0) : rounddown n kmPageSize = n := by
  simp only [rounddown]
  rw [kmPageSize_eq] at hpage ⊢
  omega

/-- An `munmap` of pages that are not on the stack of the caller. -/
theorem kmGuestMunmap_eq {vcpu stackTop : Nat} (haddr : addr % kmPageSize = 0)
    (hsize : size % kmPageSize = 0) (hpos : 0 < size) (hwrap : addr + size < 2 ^ 64)
    (hstack : ¬ (addr ≤ stackTop ∧ stackTop < addr + size)) :
    kmGuestMunmap g h s vcpu stackTop addr size = kmGuestMunmapNolock g h s addr size := by
  have hend : u64 (addr + size) = addr + size := Nat.mod_eq_of_lt hwrap
  have hround := roundup_of_page (by omega) hsize
  have hcheck : mumapCheckParams addr size = 0 := by
    rw [mumapCheckParams, roundup_of_page (by omega) haddr, if_neg (by omega)]
  rw [kmGuestMunmap, hround, hcheck, hend]
  simp [hstack]

theorem kmGuestMprotect_eq (haddr : addr % kmPageSize = 0) (hsize : size % kmPageSize = 0)
    (hwrap : addr + size < 2 ^ 64) (hr : kmGuestMprotect g h s addr size prot = some (s', 0)) :
    0 < size ∧ kmGuestMprotectNolock g h s addr size prot = some (s', 0) := by
  rw [kmGuestMprotect, roundup_of_page (by omega) hsize, rounddown_of_page haddr] at hr
  split at hr
  · cases hr
  split at hr
  · cases hr
  next hne =>
    rw [not_or] at hne
    exact ⟨pos_of_ne_zero hne.2, hr⟩

/-- What `munmap` and `mprotect` of whole pages above `brk` do to the map of the busy list.  An
`munmap` fails only for want of memory; an `mprotect` that succeeds finds every page mapped, because
the monitor's pages are always in the list. -/
theorem munmap_mprotect_exact (g : Geometry) (h : Host) (s : MmapState)
    (vcpu stackTop addr size : Nat) (prot : BitVec 32) (hs : Whole g s s.busy)
    (haddr : addr % kmPageSize = 0) (hsize : size % kmPageSize = 0) (hwrap : addr + size < 2 ^ 64)
    (hbrk : s.mem.brk ≤ addr) : (0 < size → ¬ (addr ≤ stackTop ∧ stackTop < addr + size) →
      (∀ s', kmGuestMunmap g h s vcpu stackTop addr size = some (s', 0) →
        s'.view = withoutRange s.view addr size) ∧ (MemInv g s.mem → (∀ n, h.ok n .calloc) →
        ∃ s', kmGuestMunmap g h s vcpu stackTop addr size = some (s', 0))) ∧
    (∀ s', kmGuestMprotect g h s addr size prot = some (s', 0) →
      s'.view = withProtection s.view addr size prot ∧ ((∃ r ∈ s.busy, r.kmFlags.partOfMonitor) →
          ∀ a, addr ≤ a → a < addr + size → s.view a ≠ none)) := by
  refine ⟨fun hpos hstack => ?_, fun s' hr => ?_⟩
  · rw [kmGuestMunmap_eq haddr hsize hpos hwrap hstack]
    refine ⟨fun s' hr => kmGuestMunmapNolock_view hs haddr hsize hwrap hr, fun hm hmem => ?_⟩
    rcases rangeApply_total h protNone false .moveToFree haddr hsize ⟨hs, hm⟩ with
      ⟨s', rc, hr, -, hrc⟩
    rcases hrc with rfl | ⟨-, n, hno⟩
    · exact ⟨s', hr⟩
    rw [hmem n] at hno
    cases hno
  obtain ⟨hpos, hr⟩ := kmGuestMprotect_eq haddr hsize hwrap hr
  obtain ⟨hcheck, hview⟩ := kmGuestMprotectNolock_view hs haddr hsize hwrap (by omega) hr
  refine ⟨hview, fun hmon a hlo hhi hnone => ?_⟩
  rw [MmapState.view, map_eq_none_iff, labelAt_eq_none] at hnone
  rcases hmon with ⟨m, hm, hpart⟩
  have hown : m.ofMonitor := by simp [Reg.ofMonitor, hpart]
  exact hnone (hs.check_mapped hwrap hcheck
    ⟨m, hm, hown, fun r hr hpay => hs.above_payload hm hpart hr hpay⟩ hlo hhi)

end

def stingyHost : Host := { kindHost with ok := fun _ c => c ≠ .calloc }

def thirdPage : Nat := 0x7fffdfd000

/-- Without memory for the right part of the region, a page in the middle stays mapped. -/
theorem munmap_without_memory : Whole geo512 mapped mapped.busy ∧ mapped.mem.brk ≤ thirdPage ∧
      (mapped.view thirdPage).map PageView.ofMonitor = some false ∧
      (kmGuestMunmap geo512 stingyHost mapped 0 0 thirdPage 0x1000).map
        (fun r => (r.2, r.1.view thirdPage)) = some (negErrno enomem, mapped.view thirdPage) :=
  ⟨mmapSystem_whole mapped_reach, by decide +kernel, by decide +kernel, by decide +kernel⟩

/-- Five pages, in a list without the pages of the monitor. -/
def unguarded : MmapState :=
  { mapped with busy := mapped.busy.filter fun r => !r.kmFlags.partOfMonitor }

/-- Without these an `mprotect` succeeds that goes past the last region. -/
theorem mprotect_past_last_region : Whole geo512 unguarded unguarded.busy ∧
      (kmGuestMprotect geo512 kindHost unguarded 0x7fffdff000 0x2000 protRead).map Prod.snd = some 0 ∧
      unguarded.view 0x7fffe00000 = none := by
  have hs := mmapSystem_whole mapped_reach
  have hmem : ∀ r, r ∈ unguarded.busy ↔ r ∈ mapped.busy ∧ r.kmFlags.partOfMonitor = false := by
    simp [unguarded]
  refine ⟨{ hs with
    busy_sorted := hs.busy_sorted.sublist List.filter_sublist
    busy_ok := fun r hr => hs.busy_ok r ((hmem r).1 hr).1
    tiled := fun a hlo hhi => (hs.tiled a hlo hhi).symm.trans ?_ |>.symm }, by decide +kernel,
    by decide +kernel⟩
  -- the pages of the monitor are not below the top
  constructor
  · rintro ⟨r, hr, hra, har⟩
    exact ⟨r, (hmem r).2 ⟨hr, ((hs.busy_ok r hr).zone_of_lt hra hhi).1⟩, hra, har⟩
  · rintro ⟨r, hr, hra⟩
    exact ⟨r, ((hmem r).1 hr).1, hra⟩

/-- A page in the middle is unmapped, and in another run made read-only. -/
theorem munmap_mprotect_exact_third :
    ∃ s1 s2, kmGuestMunmap geo512 kindHost mapped 0 0 thirdPage 0x1000 = some (s1, 0) ∧
      kmGuestMprotect geo512 kindHost mapped thirdPage 0x1000 protRead = some (s2, 0) ∧
      s1.view = withoutRange mapped.view thirdPage 0x1000 ∧
      s2.view = withProtection mapped.view thirdPage 0x1000 protRead := by
  have hexact := munmap_mprotect_exact geo512 kindHost mapped 0 0 thirdPage 0x1000 protRead
    (mmapSystem_whole mapped_reach) (by decide) (by decide) (by decide) (by decide +kernel)
  have hunmap : ((kmGuestMunmap geo512 kindHost mapped 0 0 thirdPage 0x1000).map
      Prod.snd) = some 0 := by decide +kernel
  have hprotect : ((kmGuestMprotect geo512 kindHost mapped thirdPage 0x1000 protRead).map
      Prod.snd) = some 0 := by decide +kernel
  rcases map_eq_some_iff.1 hunmap with ⟨⟨s1, rc1⟩, h₁, rfl⟩
  rcases map_eq_some_iff.1 hprotect with ⟨⟨s2, rc2⟩, h₂, rfl⟩
  exact ⟨s1, s2, h₁, h₂, (hexact.1 (by decide) (by decide)).1 s1 h₁, (hexact.2 s2 h₂).1⟩

end KontainMonitor.Mmap
