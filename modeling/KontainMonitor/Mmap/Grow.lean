import KontainMonitor.Mmap.Fresh

/-!
# Grow — `mremap` into the free region behind a mapping

`km_mremap_grow` infers from a gap between two busy regions that there is a free region right behind
the mapping.  That is so where another busy region of the top zone lies above the mapping
(`donor_exists`): the gap is in the top zone then, the tiling says that it is free, and one free region
covers it because free regions do not touch.
-/

namespace KontainMonitor.Mmap

open Intervals List Mem

/-! ## Finding a region by an address -/

theorem findPos_first {p : Reg → Bool} {left l : List Reg} {q : Pos}
    (hq : findPos p left l = some q) : ∀ x ∈ q.left, x ∈ left ∨ p x = false := by
  induction l generalizing left with
  | nil => simp [findPos] at hq
  | cons r right ih =>
    simp only [findPos] at hq
    split at hq
    · cases hq
      exact fun x hx => .inl hx
    rename_i hp
    intro x hx
    rcases ih hq x hx with hmem | hno
    · rcases mem_cons.1 hmem with rfl | hmem
      · exact .inr (Bool.not_eq_true _ ▸ hp)
      · exact .inl hmem
    · exact .inr hno

/-- The region that contains an address is found. -/
theorem kmMmapFindAddress_of_mem {d : Nat} {l : List Reg} {r : Reg} {a : Nat} (hsorted : Apart d l)
    (hwrap : ∀ q ∈ l, q.stop < 2 ^ 64) (hr : r ∈ l) (hlo : r.start ≤ a) (hhi : a < r.stop) :
    ∃ p, kmMmapFindAddress l a = some p ∧ p.reg = r := by
  have hpr : decide (¬ r.fin ≤ a) := by
    rw [Reg.fin_eq (hwrap r hr)]
    simpa using hhi
  cases hq : findPos (fun q => ¬ q.fin ≤ a) [] l with
  | none =>
    rw [findPos_none hq hr] at hpr
    cases hpr
  | some q =>
    obtain ⟨hlist, hqa⟩ := findPos_spec hq
    rw [reverse_nil, nil_append] at hlist
    have hqmem : q.reg ∈ l := by simp [← hlist, Pos.toList]
    rw [Reg.fin_eq (hwrap _ hqmem), decide_eq_true_eq, not_le] at hqa
    have heq : q.reg = r := by
      rw [← hlist] at hr hsorted
      rcases mem_append.1 hr with hleft | hrest
      · -- what stands before the region that is found ends before the address
        rcases findPos_first hq r (mem_reverse.1 hleft) with hnil | hno
        · cases hnil
        rw [hno] at hpr
        cases hpr
      rcases mem_cons.1 hrest with heq | hright
      · exact heq.symm
      have := (sorted_cons.1 (sorted_append.1 hsorted).2.1).1 r hright
      omega
    refine ⟨q, ?_, heq⟩
    rw [kmMmapFindAddress, hq]
    simp [Option.filter, heq, hlo]

section

variable {g : Geometry} {h : Host} {s s' : MmapState} {p : Pos} {needed ret : Nat}

/-! ## The donor -/

/-- Nothing is busy where a region grows. -/
theorem Holed.not_mapped_behind (hs : Whole g s p.toList) (hroom : p.roomAfter needed)
    (a : Nat) (hlo : p.reg.stop ≤ a) (hhi : a < p.reg.stop + needed) : ¬ Mapped p.toList a := by
  rintro ⟨r, hr, hra, har⟩
  rcases mem_append.1 hr with hr | hr
  · have := (sorted_append.1 hs.busy_sorted).2.2 r hr p.reg (.head _)
    have := p.reg.start_le_stop
    omega
  rcases mem_cons.1 hr with rfl | hr
  · omega
  have := hs.room_behind hroom r hr
  omega

/-- A gap behind a mapping that ends below a busy address of the top zone is one free region. -/
theorem donor_exists {roof : Nat} (hs : Whole g s p.toList)
    (hpart : p.reg.kmFlags.partOfMonitor = false) (hpos : 0 < needed)
    (hroom : p.roomAfter needed) (hroof : roof < guestMemTopVa)
    (habove : p.reg.stop ≤ roof) (hbusy : Mapped p.toList roof) :
    ∃ d, kmMmapFindAddress s.free p.reg.fin = some d ∧ d.reg.start = p.reg.stop ∧
      needed ≤ d.reg.size := by
  have hz := hs.mem_ok.payload hpart
  have hlow := hz.lower
  have hstop := p.reg.start_le_stop
  have hgapfree := hs.not_mapped_behind hroom
  -- so the gap is in the top zone
  have hnext : p.reg.stop + needed ≤ roof := by
    by_contra hlt
    exact hgapfree roof habove (not_le.1 hlt) hbusy
  have hfree : ∀ a, p.reg.stop ≤ a → a < p.reg.stop + needed → Mapped s.free a := by
    intro a hlo hhi
    by_contra hno
    exact hgapfree a hlo hhi ((hs.tiled a (by omega) (by omega)).2 ⟨hno, by omega⟩)
  have hwrap : ∀ q ∈ s.free, q.stop < 2 ^ 64 := fun q hq => (hs.free_ok q hq).zone.no_wrap
  rcases hfree p.reg.stop le_rfl (by omega) with ⟨r, hr, hlo, hhi⟩
  rcases kmMmapFindAddress_of_mem hs.free_sorted hwrap hr hlo hhi with ⟨d, hd, rfl⟩
  have hstart := donor_start hs hpart (kmMmapFindAddress_spec hd).1 hlo hhi
  refine ⟨d, ?_, hstart, ?_⟩
  · rw [Reg.fin_eq hs.mem_ok.no_wrap]
    exact hd
  -- a second free region would touch the first one
  by_contra hshort
  have hend : d.reg.stop < p.reg.stop + needed := by
    simp only [Reg.stop] at hstart ⊢
    omega
  rcases hfree d.reg.stop (by omega) hend with ⟨q, hq, hqlo, hqhi⟩
  have hne : d.reg ≠ q := by
    rintro rfl
    omega
  rcases hs.free_sorted.apart hr hq hne with hle | hle
  · omega
  have := q.start_le_stop
  omega

/-! ## Growing in place -/

/-- The region that grows gets the label of a region that is made clean; nothing else changes. -/
theorem mremapGrowInPlace_labelAt {oldAddr : Nat} (hs : Whole g s p.toList)
    (hpart : p.reg.kmFlags.partOfMonitor = false) (hroom : HasRoom p needed)
    (hr : mremapGrowInPlace g s p oldAddr needed = some (s', ret)) :
    ret = oldAddr ∧ Logged s { s' with free := s.free, busy := s.busy } ∧ ∀ a, labelAt s'.busy a =
        if p.reg.start ≤ a ∧ a < p.reg.stop + needed then some p.reg.label.cleaned
        else labelAt p.toList a := by
  simp only [mremapGrowInPlace, do_eq_some] at hr
  rcases hr with ⟨d, hfind, ⟨⟩, hneed, hr⟩
  rw [kmAssert_eq_some] at hneed
  have hgrown := hs.grown hpart hroom hfind hneed
  cases hr
  have hclean : Logged s (if p.reg.kmFlags.clean then
      (kmRegMakeClean g s (rangeReg d.reg.start needed protWrite false)).1 else s) := by
    split
    · exact kmRegMakeClean_logged g s _
    · exact .refl s
  generalize (if p.reg.kmFlags.clean then
    (kmRegMakeClean g s (rangeReg d.reg.start needed protWrite false)).1 else s) = s1 at hclean ⊢
  have hlogged := hclean.trans
    (kmMmapMprotectRegion_logged g s1 { p.reg with size := p.reg.size + needed })
  obtain ⟨-, hext⟩ := kmMmapMprotectRegion_spec
    { p.reg with size := p.reg.size + needed }
  have hlabel := kmMmapMprotectRegion_label g s1 { p.reg with size := p.reg.size + needed }
  generalize kmMmapMprotectRegion g s1 { p.reg with size := p.reg.size + needed } = r
    at hlogged hext hlabel ⊢
  refine ⟨rfl, ?_, fun a => ?_⟩
  · rcases hlogged with ⟨cs, hcs⟩
    exact ⟨cs, by rw [hcs]⟩
  have hstop : r.2.stop = p.reg.stop + needed := by
    rw [hext.stop]
    simp only [Reg.stop]
    omega
  have hstart : r.2.start = p.reg.start := hext.start
  have hlab : r.2.label = p.reg.label.cleaned := hlabel
  have hrelabel := hgrown.relabel hext
  have hnew : Whole g _ (Pos.toList { p with reg := r.2 }) := hrelabel
  have hconcat : labelAt (kmMmapConcat r.1.recoveryMode { p with reg := r.2 }).toList a =
      labelAt (Pos.toList { p with reg := r.2 }) a := labelAt_concat hnew a
  rw [hconcat, Pos.toList, Pos.toList, labelAt_append, labelAt_append, labelAt_cons, labelAt_cons,
    hstart, hstop, hlab]
  by_cases hin : p.reg.start ≤ a ∧ a < p.reg.stop + needed
  · rw [if_pos hin, if_pos hin, labelAt_above, Option.none_or]
    intro x hx
    have := (sorted_append.1 hs.busy_sorted).2.2 x hx p.reg (.head _)
    omega
  · rw [if_neg hin, if_neg hin, if_neg (by omega)]

end

end KontainMonitor.Mmap
