import KontainMonitor.Mmap.Grow
import KontainMonitor.Mmap.Ranges

/-!
# Glue — mapping into regions that are busy already

`MAP_FIXED` and file mappings change the host mapping under busy regions, and then make one region of
the regions in the range: the walk gives them all the same fake flags and merges what it can.
Whether one region comes out of it depends on the one attribute that the walk does not set, the
`km_mmap_clean` bit.
-/

namespace KontainMonitor.Mmap

open KontainMonitor.Mmap.Action Intervals List Mem Option Reg

/-! ## Merging -/

variable {r : Reg} {rm : Bool}
variable {l : Reg}

theorem okToConcat_of_label (hlabel : l.label = r.label) (htouch : l.fin = r.start) :
    okToConcat false l r := by
  simp only [Reg.label, Label.mk.injEq] at hlabel
  simp [okToConcat, hlabel, htouch]

/-- A region with the fake flags is not merged with a real one. -/
theorem okToConcat_real {x : Label} (rm : Bool) (hfake : x.flags = BitVec.allOnes 32)
    (hpay : x.ofMonitor = false) : (l.label = x → r.Real → okToConcat rm l r = false) ∧
      (r.label = x → l.Real → okToConcat rm l r = false) := by
  constructor
  · rintro rfl hr
    by_contra hok
    obtain ⟨-, hlabel⟩ := okToConcat_label (Bool.not_eq_false _ ▸ hok)
    have hmon : r.label.ofMonitor = false := hlabel ▸ hpay
    have hflags : r.label.flags = BitVec.allOnes 32 := hlabel ▸ hfake
    exact hr hmon hflags
  rintro rfl hl
  by_contra hok
  obtain ⟨-, hlabel⟩ := okToConcat_label (Bool.not_eq_false _ ▸ hok)
  have hmon : l.label.ofMonitor = false := hlabel.symm ▸ hpay
  have hflags : l.label.flags = BitVec.allOnes 32 := hlabel.symm ▸ hfake
  exact hl hmon hflags

theorem concatRight_of_real {p : Pos} {x : Label} (hfake : x.flags = BitVec.allOnes 32)
    (hpay : x.ofMonitor = false) (hreg : p.reg.label = x) (hright : ∀ r ∈ p.right, r.Real) :
    concatRight rm p = p := by
  obtain ⟨left, reg, right⟩ := p
  cases right with
  | nil => rfl
  | cons r rs =>
    have hno := (okToConcat_real rm hfake hpay).1 hreg (hright r (.head _))
    simp [concatRight, hno]

theorem concatLeft_of_real {p : Pos} {x : Label} (hfake : x.flags = BitVec.allOnes 32)
    (hpay : x.ofMonitor = false) (hreg : p.reg.label = x) (hleft : ∀ r ∈ p.left, r.Real) :
    concatLeft rm p = p := by
  obtain ⟨left, reg, right⟩ := p
  cases left with
  | nil => rfl
  | cons l ls =>
    have hno := (okToConcat_real rm hfake hpay).2 hreg (hleft l (.head _))
    simp [concatLeft, hno]

/-! ## The pass -/

/-- A point of the pass over a range that is mapped and whose pieces all get the label `x`: the
pieces that were passed are one region. -/
structure Gluing (mreg : Reg) (x : Label) (left right : List Reg) : Prop where
  real : ∀ r ∈ right, r.Real
  labels : ∀ r ∈ right, r.ofMonitor = false → r.start < mreg.stop → mreg.start < r.stop →
    Action.regionCleanConcat.relabel mreg r.label = some x
  rest : ∀ a, mreg.start ≤ a → a < mreg.stop → (∀ r ∈ left, r.stop ≤ a) →
    ∃ r ∈ right, r.start ≤ a ∧ a < r.stop ∧ r.ofMonitor = false
  passed : (∀ r ∈ left, r.stop ≤ mreg.start ∧ r.Real) ∨
    ∃ m ls, left = m :: ls ∧ m.start = mreg.start ∧ mreg.start < m.stop ∧ m.stop ≤ mreg.stop ∧
      m.label = x ∧ ∀ r ∈ ls, r.stop ≤ mreg.start ∧ r.Real

section

variable {g : Geometry} {h : Host} {s s' : MmapState} {mreg : Reg} {x : Label}
  {left right : List Reg} {reg : Reg}
variable {reg' : Reg} {w : Walk} {y : Walk ⊕ (MmapState × Nat)} {a : Nat}

/-- At the end of the range the pass has made one region. -/
theorem Gluing.finished (hg : Gluing mreg x left right) (hpos : mreg.start < mreg.stop)
    (hbehind : ∀ r ∈ right, mreg.stop ≤ r.start) :
    ∃ r ∈ left.reverse ++ right, r.start = mreg.start ∧ r.stop = mreg.stop ∧ r.label = x := by
  have hnone : ∀ a, mreg.start ≤ a → a < mreg.stop → ¬ ∀ r ∈ left, r.stop ≤ a := by
    intro a hlo hhi hall
    rcases hg.rest a hlo hhi hall with ⟨r, hr, hra, -, -⟩
    have := hbehind r hr
    omega
  rcases hg.passed with hall | ⟨m, ls, rfl, hstart, hlo, hhi, hlabel, hls⟩
  · exact absurd (fun r hr => (hall r hr).1) (hnone mreg.start le_rfl hpos)
  refine ⟨m, by simp, hstart, ?_, hlabel⟩
  by_contra hne
  refine hnone m.stop (by omega) (by omega) fun r hr => ?_
  rcases mem_cons.1 hr with rfl | hr
  · exact le_rfl
  have := (hls r hr).1
  omega

section

variable (hg : Gluing mreg x left (reg :: right))
include hg

/-- The next piece of the range starts where the pass is. -/
theorem Gluing.next_start (hsorted : Apart 0 (left.reverse ++ reg :: right))
    (hlo : mreg.start ≤ reg.start) (hhi : reg.start < mreg.stop) (hpos : reg.start < reg.stop) :
    (∀ r ∈ left, r.stop ≤ mreg.start ∧ r.Real) ∧ reg.start = mreg.start ∨
    ∃ m ls, left = m :: ls ∧ m.start = mreg.start ∧ m.stop = reg.start ∧ m.label = x ∧
      ∀ r ∈ ls, r.stop ≤ mreg.start ∧ r.Real := by
  have hright := (sorted_cons.1 (sorted_append.1 hsorted).2.1).1
  -- the address up to which the range is passed is in the next region
  have hstart : ∀ c, mreg.start ≤ c → c ≤ reg.start → (∀ r ∈ left, r.stop ≤ c) → reg.start = c := by
    intro c hc hle hall
    rcases hg.rest c hc (by omega) hall with ⟨r, hr, hrc, -, -⟩
    rcases mem_cons.1 hr with rfl | hr
    · omega
    have := hright r hr
    omega
  rcases hg.passed with hall | ⟨m, ls, rfl, hms, hmlo, hmhi, hlabel, hls⟩
  · exact .inl ⟨hall, hstart mreg.start le_rfl hlo fun r hr => (hall r hr).1⟩
  have hle := (sorted_append.1 hsorted).2.2 m (by simp) reg (.head _)
  refine .inr ⟨m, ls, rfl, hms, ?_, hlabel, hls⟩
  refine (hstart m.stop (by omega) (by omega) fun r hr => ?_).symm
  rcases mem_cons.1 hr with rfl | hr
  · exact le_rfl
  have := (hls r hr).1
  omega

/-- A piece is passed. -/
theorem Gluing.pass (hwhole : Whole g s (left.reverse ++ reg :: right))
    (hreg : reg.ofMonitor = false) (hlo : mreg.start ≤ reg.start) (hhi : reg.stop ≤ mreg.stop)
    (hfake : x.flags = BitVec.allOnes 32) (hpay : x.ofMonitor = false) (hext : SameExtent reg reg')
    (hlabel : reg'.label = x) :
    let p := kmMmapConcat false { left := left, reg := reg', right := right }
    p.right = right ∧ p.reg.stop = reg.stop ∧ Gluing mreg x (p.reg :: p.left) right := by
  have hsorted := hwhole.busy_sorted
  have hz := hwhole.mem_ok.payload (payload_part hreg)
  have hpos : reg.start < reg.stop := by
    have := hz.nonempty
    simp only [Reg.stop]
    omega
  have hreal : ∀ r ∈ right, r.Real := fun r hr => hg.real r (.tail _ hr)
  -- what is behind the piece
  have hrest : ∀ a, mreg.start ≤ a → a < mreg.stop → reg.stop ≤ a → (∀ r ∈ left, r.stop ≤ a) →
      ∃ r ∈ right, r.start ≤ a ∧ a < r.stop ∧ r.ofMonitor = false := by
    intro a h1 h2 h3 hall
    rcases hg.rest a h1 h2 hall with ⟨r, hr, hra, har, hmon⟩
    rcases mem_cons.1 hr with rfl | hr
    · omega
    · exact ⟨r, hr, hra, har, hmon⟩
  have hlabels : ∀ r ∈ right, r.ofMonitor = false → r.start < mreg.stop → mreg.start < r.stop →
      Action.regionCleanConcat.relabel mreg r.label = some x :=
    fun r hr => hg.labels r (.tail _ hr)
  rcases hg.next_start hsorted hlo (by omega) hpos with
    ⟨hall, hstart⟩ | ⟨m, ls, rfl, hms, hmstop, hmlabel, hls⟩
  · -- the first piece: its left neighbour is real
    have hleft : concatLeft false { left := left, reg := reg', right := right } =
        { left := left, reg := reg', right := right } :=
      concatLeft_of_real hfake hpay hlabel fun r hr => (hall r hr).2
    have hcat : kmMmapConcat false { left := left, reg := reg', right := right } =
        { left := left, reg := reg', right := right } := by
      rw [kmMmapConcat, hleft]
      exact concatRight_of_real hfake hpay hlabel hreal
    rw [hcat]
    refine ⟨rfl, hext.stop, hreal, hlabels, fun a h1 h2 hpassed => ?_, .inr ⟨reg', left, rfl, ?_⟩⟩
    · have hstop := hpassed reg' (.head _)
      rw [hext.stop] at hstop
      exact hrest a h1 h2 hstop fun r hr => hpassed r (.tail _ hr)
    rw [hext.start, hext.stop]
    exact ⟨hstart, by omega, hhi, hlabel, hall⟩
  -- a later piece: it is merged with what was passed
  have hmwrap : m.stop < 2 ^ 64 := (hwhole.busy_ok m (by simp)).no_wrap
  have htouch : m.fin = reg'.start := by rw [fin_eq hmwrap, hmstop, hext.start]
  have hok : okToConcat false m reg' := okToConcat_of_label (hmlabel.trans hlabel.symm) htouch
  let new : Reg := { reg' with start := m.start, size := u64 (reg'.size + m.size) }
  have hnewstop : new.stop = reg.stop := by
    have h2 := hext.size
    have hsize := u64_sizes (fin_eq hmwrap ▸ htouch) (hext.stop ▸ (hwhole.busy_ok reg (by simp)).no_wrap)
    rw [add_comm] at hsize
    simp only [Reg.stop, new, hsize] at hmstop ⊢
    omega
  have hcat : kmMmapConcat false { left := m :: ls, reg := reg', right := right } =
      { left := ls, reg := new, right := right } := by
    rw [kmMmapConcat]
    have hleft : concatLeft false { left := m :: ls, reg := reg', right := right } =
        { left := ls, reg := new, right := right } := by
      simp [concatLeft, hok, new]
    rw [hleft]
    exact concatRight_of_real hfake hpay hlabel
      hreal
  rw [hcat]
  refine ⟨rfl, hnewstop, hreal, hlabels, fun a h1 h2 hpassed => ?_,
    .inr ⟨new, ls, rfl, hms, ?_, ?_, hlabel, hls⟩⟩
  · have hstop := hpassed new (.head _)
    rw [hnewstop] at hstop
    refine hrest a h1 h2 hstop fun r hr => ?_
    rcases mem_cons.1 hr with rfl | hr
    · omega
    · exact hpassed r (.tail _ hr)
  · rw [hnewstop]
    omega
  rw [hnewstop]
  exact hhi

/-- A region before the range is passed. -/
theorem Gluing.skip (hleft : ∀ r ∈ left, r.stop ≤ reg.start) (hle : reg.stop ≤ mreg.start) :
    Gluing mreg x (reg :: left) right := by
  have hstop := reg.start_le_stop
  refine ⟨fun r hr => hg.real r (.tail _ hr),
    fun r hr => hg.labels r (.tail _ hr), fun a h1 h2 hall => ?_, .inl ?_⟩
  · rcases hg.rest a h1 h2 fun r hr => hall r (.tail _ hr) with
      ⟨r, hr, hra, har, hmon⟩
    rcases mem_cons.1 hr with rfl | hr
    · omega
    · exact ⟨r, hr, hra, har, hmon⟩
  intro r hr
  rcases mem_cons.1 hr with rfl | hr
  · exact ⟨hle, hg.real r (.head _)⟩
  rcases hg.passed with hall | ⟨m, ls, rfl, hms, hmlo, -, -, -⟩
  · exact hall r hr
  -- what was passed of the range is not before it
  have := hleft m (.head _)
  omega

/-- The next region is cut in two. -/
theorem Gluing.cut {c : Nat} (hlo : reg.start < c) (hhi : c < reg.stop) :
    Gluing mreg x left ((reg.splitAt c).1 :: (reg.splitAt c).2 :: right) := by
  obtain ⟨h1, h2, h3, h4⟩ := splitAt_bounds hlo hhi
  have hreal := hg.real reg (.head _)
  have hlabels := hg.labels reg (.head _)
  refine ⟨fun r hr => ?_, fun r hr => ?_, fun a ha1 ha2 hpassed => ?_, hg.passed⟩
  · rcases mem_cons.1 hr with rfl | hr
    · exact hreal
    rcases mem_cons.1 hr with rfl | hr
    · exact hreal
    · exact hg.real r (.tail _ hr)
  · rcases mem_cons.1 hr with rfl | hr
    · exact fun hpay hs hlt => hlabels hpay (by omega) (by omega)
    rcases mem_cons.1 hr with rfl | hr
    · exact fun hpay hs hlt => hlabels hpay (by omega) (by omega)
    · exact hg.labels r (.tail _ hr)
  rcases hg.rest a ha1 ha2 hpassed with ⟨r, hr, hra, har, hpay⟩
  rcases mem_cons.1 hr with rfl | hr
  · rcases lt_or_ge a c with hac | hac
    · exact ⟨_, (.head _), by omega, by omega, hpay⟩
    · exact ⟨_, mem_cons_of_mem _ (.head _), by omega, by omega, hpay⟩
  · exact ⟨r, mem_cons_of_mem _ (.tail _ hr), hra, har, hpay⟩

/-- No region of the monitor is in the range. -/
theorem Gluing.not_monitor (hwhole : Whole g s (left.reverse ++ reg :: right))
    (hmon : reg.ofMonitor) (hlo : mreg.start < reg.stop) (hhi : reg.start < mreg.stop)
    (hpos : mreg.start < mreg.stop) : False := by
  have hright := (sorted_cons.1 (sorted_append.1 hwhole.busy_sorted).2.1).1
  have hleft := (sorted_append.1 hwhole.busy_sorted).2.2
  have hall : ∀ r ∈ left, r.stop ≤ max mreg.start reg.start := by
    intro r hr
    have := hleft r (mem_reverse.2 hr) reg (.head _)
    omega
  rcases hg.rest (max mreg.start reg.start) (le_max_left _ _) (by omega) hall with
    ⟨r, hr, hra, har, hpay⟩
  have hrok : BusyOk s.mem.tbrk r := hwhole.busy_ok r (mem_append_right _ hr)
  have hrtop := (hrok.payload (payload_part hpay)).upper
  -- the region is in the top zone, so it is not empty
  have hnonempty := (hwhole.mem_ok.zone_of_lt le_rfl (by omega)).2.nonempty
  rcases mem_cons.1 hr with rfl | hr
  · rw [hmon] at hpay
    cases hpay
  have hafter := hright r hr
  simp only [Reg.stop] at hafter hlo
  omega

end

def GluePass (mreg : Reg) (x : Label) : Walk ⊕ (MmapState × Nat) → Prop
  | .inl w => Gluing mreg x w.left w.right
  | .inr (s, rc) => rc = 0 →
      ∃ r ∈ s.busy, r.start = mreg.start ∧ r.stop = mreg.stop ∧ r.label = x

theorem applyAction_glue {last : Bool} (hg : Gluing mreg x w.left (reg :: right))
    (hwhole : Whole g w.state (w.left.reverse ++ reg :: right)) (hreg : reg.ofMonitor = false)
    (hlo : mreg.start ≤ reg.start) (hhi : reg.stop ≤ mreg.stop) (hpos : mreg.start < mreg.stop)
    (hlt : mreg.start < reg.stop) (hlast : last → ∀ r ∈ right, mreg.stop ≤ r.start)
    (hy : applyAction g h .regionCleanConcat mreg w reg right last = some y) :
    GluePass mreg x y := by
  have hz := hwhole.mem_ok.payload (payload_part hreg)
  have hstart : reg.start < mreg.stop := by
    have := hz.nonempty
    simp only [Reg.stop] at hhi ⊢
    omega
  have hrelabel := hg.labels reg (.head _) hreg hstart hlt
  have hfake := relabel_clean_flags hrelabel
  have hpay : x.ofMonitor = false := (relabel_ofMonitor hrelabel).trans hreg
  simp only [applyAction, kmAssert_bind_eq_some] at hy
  obtain ⟨-, hy⟩ := hy
  cases hy
  obtain ⟨hq, hext⟩ := Action.regionCleanConcat.treat_spec mreg reg
  have hlabel : (Action.regionCleanConcat.treat g mreg w.state reg).2.label = x := by
    have hact : Action.regionCleanConcat ≠ .moveToFree := by decide
    have htreat := treat_label hact g w.state mreg reg
    rw [hrelabel, some.injEq] at htreat
    exact htreat.symm
  simp only [Action.treat] at hq hext hlabel
  have hrun := (hwhole.quiet hq).running
  obtain ⟨hright, hstop, hnew⟩ := hg.pass hwhole hreg hlo hhi hfake hpay hext hlabel
  simp only [hrun]
  generalize kmMmapConcat false _ = p at hright hstop hnew ⊢
  obtain ⟨pl, pr, ps⟩ := p
  simp only at hright hstop hnew ⊢
  subst hright
  cases last with
  | false => exact hnew
  | true =>
    intro _
    rcases hnew.finished hpos (hlast rfl) with ⟨r, hr, hcase⟩
    exact ⟨r, hr, hcase⟩

/-- One round of the pass. -/
theorem rangeStep_glue (hwrap : mreg.stop < 2 ^ 64) (hpage : mreg.fin % kmPageSize = 0)
    (hpos : mreg.start < mreg.stop) (hwhole : Whole g w.state w.list)
    (hg : Gluing mreg x w.left w.right) (hy : rangeStep g h .regionCleanConcat mreg w = some y) :
    GluePass mreg x y := by
  obtain ⟨st, left, right⟩ := w
  have hfin := fin_eq hwrap
  cases right with
  | nil =>
    cases hy
    intro _
    exact hg.finished hpos (by simp)
  | cons reg right =>
    have hsorted : Apart 0 (left.reverse ++ reg :: right) := hwhole.busy_sorted
    have hreg := fin_eq hwhole.mem_ok.no_wrap
    have hright := (sorted_cons.1 (sorted_append.1 hsorted).2.1).1
    have hleft' : ∀ r ∈ left, r.stop ≤ reg.start := fun r hr =>
      (sorted_append.1 hsorted).2.2 r (mem_reverse.2 hr) reg (.head _)
    have hstop := reg.start_le_stop
    cases rangeStep_cons hy with
    | before hle => exact hg.skip hleft' (hreg ▸ hle)
    | behind hle =>
      intro _
      refine hg.finished hpos fun r hr => ?_
      rcases mem_cons.1 hr with rfl | hr
      · omega
      have := hright r hr
      omega
    | monitor hmon hlo hhi => exact (hg.not_monitor hwhole hmon (hreg ▸ hlo) (hfin ▸ hhi) hpos).elim
    | noMem hok =>
      intro h0
      exact absurd h0 (by decide)
    | cutStart hmon hlo hhi =>
      rw [hreg] at hhi
      obtain ⟨h1, h2, -, -⟩ := splitAt_bounds hlo hhi
      exact (hg.cut hlo hhi).skip (fun r hr => h1 ▸ hleft' r hr) (le_of_eq h2)
    | cutEnd hmon hlo hin hhi hx =>
      rw [hreg] at hhi
      have hcall := hwhole.quiet (.call st .calloc)
      have hcut := hcall.cut (payload_part hmon) hpage hin hhi
      obtain ⟨h1, h2, h3, h4⟩ := splitAt_bounds hin hhi
      have hfront : (reg.splitAt mreg.fin).1.ofMonitor = false := hmon
      refine applyAction_glue
        (w := { state := st.call .calloc, left := left, right := reg :: right })
        (hg.cut hin hhi) hcut hfront (by omega) (by omega) hpos (by omega) (fun _ r hr => ?_) hx
      rcases mem_cons.1 hr with rfl | hr
      · omega
      have := hright r hr
      omega
    | inside hmon hlo hlt hhi hx =>
      rw [hreg] at hlt hhi
      rw [hfin] at hhi
      exact applyAction_glue
        hg hwhole hmon hlo hhi hpos hlt (fun hfalse => by cases hfalse) hx

/-- The pass over a mapped range whose pieces all get the same label makes one region of them,
unless it runs out of memory. -/
theorem busyRangeApply_glue (hstart : mreg.start % kmPageSize = 0)
    (hsize : mreg.size % kmPageSize = 0) (hwrap : mreg.stop < 2 ^ 64) (hpos : mreg.start < mreg.stop)
    (hs : Whole g s s.busy) (hreal : ∀ r ∈ s.busy, r.Real)
    (hmapped : PayloadMapped s.busy mreg.start mreg.size)
    (hlabels : ∀ r ∈ s.busy, r.ofMonitor = false → r.start < mreg.stop → mreg.start < r.stop →
      Action.regionCleanConcat.relabel mreg r.label = some x)
    (hr : kmMmapBusyRangeApply g h s mreg .regionCleanConcat = some (s', 0)) :
    ∃ r ∈ s'.busy, r.start = mreg.start ∧ r.stop = mreg.stop ∧ r.label = x := by
  have hfin := fin_page hstart hsize
  have hinit : Gluing mreg x [] s.busy :=
    ⟨hreal, hlabels, fun a hlo hhi _ => hmapped a hlo hhi, .inl (by simp)⟩
  have hend : GluePass mreg x (.inr (s', 0)) := by
    refine Loop.run_inv (I := fun w => Whole g w.state w.list ∧ GluePass mreg x (.inl w))
      (Q := fun r => GluePass mreg x (.inr r)) ?_ ?_ ⟨?_, ?_⟩ hr
    · rintro w w' ⟨hw, hg⟩ hx
      exact ⟨rangeStep_inv hstart hfin hw hx, rangeStep_glue hwrap hfin hpos hw hg hx⟩
    · rintro w r ⟨hw, hg⟩ hx
      exact rangeStep_glue hwrap hfin hpos hw hg hx
    · exact hs
    · exact hinit
  exact hend rfl

/-! ## One region or several -/

def Label.cleanAfter (prot : BitVec 32) (anonymous : Bool) (x : Label) : Bool :=
  x.kmFlags.clean || (anonymous && prot ≠ protNone && x.filename = none)

def gluedLabel (prot : BitVec 32) (clean : Bool) : Label :=
  { flags := BitVec.allOnes 32
    protection := prot
    kmFlags := { KmFlags.none with clean := clean }
    filename := none }

def UniformClean (busy : List Reg) (addr size : Nat) (prot : BitVec 32) (anonymous : Bool) : Prop :=
  ∀ r ∈ busy, ∀ q ∈ busy, r.start < addr + size → addr < r.stop → q.start < addr + size →
    addr < q.stop → r.label.cleanAfter prot anonymous = q.label.cleanAfter prot anonymous

theorem relabel_glued {y : Label} {addr size : Nat} {prot : BitVec 32} {anonymous : Bool}
    (hy : y.ofMonitor = false) :
    Action.regionCleanConcat.relabel (rangeReg addr size prot anonymous) y =
      some (gluedLabel prot (y.cleanAfter prot anonymous)) := by
  obtain ⟨flags, protection, ⟨monitor, clean, partOfMonitor⟩, filename⟩ := y
  simp only [Label.ofMonitor, Bool.or_eq_false_iff] at hy
  obtain ⟨rfl, rfl⟩ := hy
  simp only [Action.relabel, rangeReg, gluedLabel, Label.cleanAfter, Label.cleaned, KmFlags.none]
  cases anonymous <;> cases clean <;> by_cases hp : prot = protNone <;> cases filename <;> simp [hp]

variable {addr size : Nat} {prot : BitVec 32} {anonymous : Bool}

/-- The pass over a mapped range leaves one region exactly if the pieces end up with the same
`km_mmap_clean` bit. -/
theorem busyRangeApply_one_region_iff (haddr : addr % kmPageSize = 0)
    (hsize : size % kmPageSize = 0) (hwrap : addr + size < 2 ^ 64) (hpos : 0 < size)
    (hs : Whole g s s.busy) (hreal : ∀ r ∈ s.busy, r.Real)
    (hmapped : PayloadMapped s.busy addr size)
    (hr : kmMmapBusyRangeApply g h s (rangeReg addr size prot anonymous) .regionCleanConcat =
      some (s', 0)) : (∃ r ∈ s'.busy, r.start = addr ∧ r.size = size) ↔
      UniformClean s.busy addr size prot anonymous := by
  -- the regions in the range are the payload's
  have hpayload : ∀ r ∈ s.busy, r.start < addr + size → addr < r.stop → r.start < r.stop →
      ∃ a, addr ≤ a ∧ a < addr + size ∧ labelAt s.busy a = some r.label ∧ r.ofMonitor = false := by
    intro r hr hlo hhi hne
    rcases hmapped (max addr r.start) (le_max_left _ _) (by omega) with ⟨q, hq, hqa, haq, hpay⟩
    have hlabel := labelAt_of_mem hs.busy_sorted hr (le_max_right addr r.start) (by omega)
    have hself := labelAt_of_mem hs.busy_sorted hq hqa haq
    refine ⟨max addr r.start, le_max_left _ _, by omega, hlabel, ?_⟩
    rw [hlabel, some.injEq] at hself
    have : r.label.ofMonitor = q.label.ofMonitor := by rw [hself]
    exact this.trans hpay
  have hnonempty : ∀ r ∈ s.busy, r.start < addr + size → r.start < r.stop := by
    intro r hr hlo
    have htop := hmapped.lt_top hs hpos
    have := ((hs.busy_ok r hr).zone_of_lt le_rfl (by omega)).2.nonempty
    simp only [Reg.stop]
    omega
  constructor
  · rintro ⟨m, hm, hms, hmsize⟩ r hrmem q hqmem hr1 hr2 hq1 hq2
    have hs' := kmMmapBusyRangeApply_inv hr haddr hsize hs
    -- every page of the range has the label of the one region
    have hone : ∀ p ∈ s.busy, p.start < addr + size → addr < p.stop →
        gluedLabel prot (p.label.cleanAfter prot anonymous) = m.label := by
      intro p hp hp1 hp2
      rcases hpayload p hp hp1 hp2 (hnonempty p hp hp1) with ⟨a, ha1, ha2, hlabel, hpay⟩
      have hnew := labelAt_of_mem hs'.busy_sorted hm (by omega)
        (by simp only [Reg.stop]; omega : a < m.stop)
      have hlaw := kmMmapBusyRangeApply_labelAt hr haddr hsize hwrap hs (fun _ => hreal) a
      have hin : a < (rangeReg addr size prot anonymous).stop := ha2
      have hpay' : p.label.ofMonitor = false := hpay
      rw [hnew, pages_inside hlabel
        (show (rangeReg addr size prot anonymous).start ≤ a from ha1) hin hpay,
        relabel_glued hpay', some.injEq] at hlaw
      exact hlaw.symm
    have heq := (hone r hrmem hr1 hr2).trans (hone q hqmem hq1 hq2).symm
    simp only [gluedLabel, Label.mk.injEq, KmFlags.mk.injEq] at heq
    exact heq.2.2.1.2.1
  intro huniform
  rcases hmapped addr le_rfl (by omega) with ⟨q, hq, hqlo, hqhi, hqpay⟩
  have hstart' : (rangeReg addr size prot anonymous).start % kmPageSize = 0 := haddr
  have hsize' : (rangeReg addr size prot anonymous).size % kmPageSize = 0 := hsize
  have hwrap' : (rangeReg addr size prot anonymous).stop < 2 ^ 64 := hwrap
  have hpos' : (rangeReg addr size prot anonymous).start <
      (rangeReg addr size prot anonymous).stop := by
    simp only [Reg.stop, rangeReg]
    omega
  have hlabels : ∀ r ∈ s.busy, r.ofMonitor = false →
      r.start < (rangeReg addr size prot anonymous).stop →
      (rangeReg addr size prot anonymous).start < r.stop →
      Action.regionCleanConcat.relabel (rangeReg addr size prot anonymous) r.label =
        some (gluedLabel prot (q.label.cleanAfter prot anonymous)) := by
    intro r hrmem hpay hr1 hr2
    have hpay' : r.label.ofMonitor = false := hpay
    rw [relabel_glued hpay', huniform r hrmem q hq hr1 hr2 (by omega) hqhi]
  rcases busyRangeApply_glue hstart' hsize' hwrap' hpos' hs hreal hmapped hlabels hr with
    ⟨m, hm, hms, hmstop, -⟩
  have hmstart : m.start = addr := hms
  have hmstop' : m.stop = addr + size := hmstop
  refine ⟨m, hm, hmstart, ?_⟩
  simp only [Reg.stop] at hmstop'
  omega

/-! ## The whole of it -/

/-- The region that contains an address is found. -/
theorem kmFindRegNolock_of_mem {l : List Reg} (hsorted : Apart 0 l)
    (hwrap : ∀ q ∈ l, q.stop < 2 ^ 64) (hr : r ∈ l) (hlo : r.start ≤ a) (hhi : a < r.stop) :
    ∃ p, kmFindRegNolock l a = some p ∧ p.reg = r := by
  cases hq : kmFindRegNolock l a with
  | none =>
    have hno := findPos_none hq hr
    rw [fin_eq (hwrap r hr)] at hno
    simp only [decide_eq_false_iff_not] at hno
    exact absurd ⟨hlo, hhi⟩ hno
  | some p =>
    obtain ⟨hlist, hplo, hphi⟩ := kmFindRegNolock_spec hq
    have hpmem : p.reg ∈ l := by simp [← hlist, Pos.toList]
    rw [fin_eq (hwrap _ hpmem)] at hphi
    refine ⟨p, rfl, ?_⟩
    by_contra hne
    rcases hsorted.apart hpmem hr hne with hle | hle <;> omega

/-- The pages of the payload have an address in the monitor. -/
theorem kmGvaToKma_mapped (hs : Sound g s s.busy) (hpos : 0 < size)
    (hmapped : PayloadMapped s.busy addr size) : ∃ kma, kmGvaToKma g s.mem addr = some kma := by
  rcases hmapped addr le_rfl (by omega) with ⟨r, hr, hlo, hhi, hpay⟩
  have hz := (hs.whole.busy_ok r hr).payload (payload_part hpay)
  have hlow := hz.lower
  have hupp := hz.upper
  exact ⟨_, kmGvaToKma_guestAddr hs.mem (.inr ⟨by omega, by omega⟩)⟩

def mapLabel (h : Host) (prot flags : BitVec 32) (fd : Int) (clean : Bool) : Label :=
  { flags := flags &&& ~~~mapFixed
    protection := prot
    kmFlags := { KmFlags.none with clean := clean }
    filename := (h.kmGuestfdName fd).bind h.realpath }

/-- `[gva, gva + size)` has a new label; no other page has. -/
def Relabelled (s s' : MmapState) (gva size : Nat) (x : Label) : Prop :=
  ∀ a, labelAt s'.busy a = if gva ≤ a ∧ a < gva + size then some x else labelAt s.busy a

variable {flags : BitVec 32} {fd hostfd offset : Int}
variable {kma rc : Nat} {action : Action} {clean : Bool}

theorem mapIntoBusy_refused (hkma : kmGvaToKma g s.mem addr = some kma)
    (hno : h.answer s.mem (mapCall kma size prot flags hostfd offset) = false) :
    mapIntoBusy g h s addr size prot flags fd hostfd offset =
      some (s.call (mapCall kma size prot flags hostfd offset),
        h.failure s.mem (mapCall kma size prot flags hostfd offset)) := by
  simp only [mapCall] at hno ⊢
  simp [mapIntoBusy, hkma, hno]

/-- The pass runs out of memory. -/
theorem mapIntoBusy_stuck {s1 : MmapState} (hkma : kmGvaToKma g s.mem addr = some kma)
    (hok : h.answer s.mem (mapCall kma size prot flags hostfd offset)) (hrc : rc ≠ 0)
    (hpass : kmMmapBusyRangeApply g h (s.call (mapCall kma size prot flags hostfd offset))
      (rangeReg addr size prot (hostfd < 0)) .regionCleanConcat = some (s1, rc)) :
    mapIntoBusy g h s addr size prot flags fd hostfd offset = some (s1, rc) := by
  simp only [mapCall] at hok hpass
  simp [mapIntoBusy, hkma, hok, hpass, hrc]

/-- The one region gets its attributes. -/
theorem relabelled_of_region {p : Pos} (hs : Whole g s s.busy) (hp : p.toList = s.busy)
    (hext : SameExtent p.reg reg') (hstart : p.reg.start = addr) (hsize : p.reg.size = size)
    (a : Nat) : labelAt (kmMmapConcat rm { p with reg := reg' }).toList a =
      if addr ≤ a ∧ a < addr + size then some reg'.label else labelAt s.busy a := by
  have hwhole : Whole g s p.toList := hp ▸ hs
  have hnew : Whole g s (Pos.toList { p with reg := reg' }) := hwhole.relabel hext
  have hrstart : reg'.start = addr := hext.start.trans hstart
  have hrstop : reg'.stop = addr + size := by rw [hext.stop, Reg.stop, hstart, hsize]
  have hstop : p.reg.stop = addr + size := by rw [Reg.stop, hstart, hsize]
  rw [labelAt_concat hnew, ← hp, Pos.toList, Pos.toList, labelAt_append, labelAt_append,
    labelAt_cons, labelAt_cons, hrstart, hrstop, hstart, hstop]
  by_cases hin : addr ≤ a ∧ a < addr + size
  · rw [if_pos hin, if_pos hin, labelAt_above, none_or]
    intro r hr
    have := (sorted_append.1 hwhole.busy_sorted).2.2 r hr p.reg (.head _)
    omega
  · rw [if_neg hin, if_neg hin, if_neg hin]

/-- After the pass: the one region gets its attributes; if there is none, the monitor aborts. -/
theorem mapIntoBusy_passed {s1 : MmapState} (hs : Sound g s s.busy)
    (hkma : kmGvaToKma g s.mem addr = some kma)
    (hok : h.answer s.mem (mapCall kma size prot flags hostfd offset))
    (haddr : addr % kmPageSize = 0) (hsize : size % kmPageSize = 0) (hwrap : addr + size < 2 ^ 64)
    (hpos : 0 < size) (hreal : ∀ r ∈ s.busy, r.Real) (hmapped : PayloadMapped s.busy addr size)
    (hpass : kmMmapBusyRangeApply g h (s.call (mapCall kma size prot flags hostfd offset))
      (rangeReg addr size prot (hostfd < 0)) .regionCleanConcat = some (s1, 0)) :
    (UniformClean s.busy addr size prot (hostfd < 0) →
      ∃ s' clean, mapIntoBusy g h s addr size prot flags fd hostfd offset = some (s', addr) ∧
        Relabelled s s' addr size (mapLabel h prot flags fd clean)) ∧
    (¬ UniformClean s.busy addr size prot (hostfd < 0) →
      mapIntoBusy g h s addr size prot flags fd hostfd offset = none) := by
  have hcall := hs.call (mapCall kma size prot flags hostfd offset)
  have hs1 := kmMmapBusyRangeApply_inv hpass haddr hsize hcall.whole
  have hwrap1 : ∀ r ∈ s1.busy, r.stop < 2 ^ 64 := fun r hr => (hs1.busy_ok r hr).no_wrap
  have hiff := busyRangeApply_one_region_iff haddr hsize hwrap hpos hcall.whole hreal hmapped hpass
  have hpages := kmMmapBusyRangeApply_labelAt hpass haddr hsize hwrap hcall.whole fun _ => hreal
  have hlaw : ∀ a, labelAt s1.busy a =
      Action.regionCleanConcat.pages (rangeReg addr size prot (decide (hostfd < 0)))
        (labelAt s.busy) a := hpages
  simp only [mapCall] at hok hpass
  simp only [mapIntoBusy, hkma, bind_eq_bind, bind_some, if_neg (not_not.2 hok), hpass,
    ne_eq, not_true_eq_false, if_false]
  constructor
  · intro huniform
    rcases hiff.2 huniform with ⟨r, hr, hstart, hrsize⟩
    have hstop : addr < r.stop := by
      simp only [Reg.stop]
      omega
    rcases kmFindRegNolock_of_mem hs1.busy_sorted hwrap1 hr (le_of_eq hstart) hstop with ⟨p, hp, rfl⟩
    have hlist := (kmFindRegNolock_spec hp).1
    -- the label of the region is that of the page at its start
    rcases hmapped addr le_rfl (by omega) with ⟨q, hq, hqlo, hqhi, hqpay⟩
    have hqpay' : q.label.ofMonitor = false := hqpay
    have hlabel : p.reg.label =
        gluedLabel prot (q.label.cleanAfter prot (decide (hostfd < 0))) := by
      have hat := hlaw addr
      have hin : addr < (rangeReg addr size prot (decide (hostfd < 0))).stop := by
        simp only [Reg.stop, rangeReg]
        omega
      rw [labelAt_of_mem hs1.busy_sorted hr (le_of_eq hstart) hstop,
        pages_inside (labelAt_of_mem hs.whole.busy_sorted hq hqlo hqhi)
          (show (rangeReg addr size prot (decide (hostfd < 0))).start ≤ addr from le_rfl) hin hqpay',
        relabel_glued hqpay', some.injEq] at hat
      exact hat
    rw [hp, bind_some, kmAssert_pos ⟨hstart, hrsize⟩, bind_some]
    refine ⟨_, q.label.cleanAfter prot (decide (hostfd < 0)), rfl, fun a => ?_⟩
    simp only
    rw [relabelled_of_region hs1 hlist (by split <;> exact ⟨rfl, rfl, rfl⟩) hstart hrsize]
    have hkm : p.reg.kmFlags =
        { KmFlags.none with clean := q.label.cleanAfter prot (decide (hostfd < 0)) } :=
      congrArg Label.kmFlags hlabel
    by_cases hin : addr ≤ a ∧ a < addr + size
    · rw [if_pos hin, if_pos hin]
      cases hname : h.kmGuestfdName fd with
      | none | some => simp [Reg.label, mapLabel, hname, hkm]
    have hout : Action.regionCleanConcat.pages (rangeReg addr size prot (decide (hostfd < 0)))
        (labelAt s.busy) a = labelAt s.busy a := pages_outside hin
    rw [if_neg hin, if_neg hin, hlaw a]
    exact hout
  intro hno
  cases hp : kmFindRegNolock s1.busy addr with
  | none => rfl
  | some p =>
    have hfalse : ¬ (p.reg.start = addr ∧ p.reg.size = size) := by
      rintro ⟨h1, h2⟩
      have hlist := (kmFindRegNolock_spec hp).1
      exact hno (hiff.1 ⟨p.reg, by simp [← hlist, Pos.toList], h1, h2⟩)
    simp [kmAssert, hfalse]

/-- Only a lack of memory for the cuts keeps a pass from coming to its end. -/
theorem pass_result {c : HostCall} {s1 : MmapState} (hs : Sound g s s.busy)
    (haddr : addr % kmPageSize = 0) (hsize : size % kmPageSize = 0)
    (hpass : kmMmapBusyRangeApply g h (s.call c) (rangeReg addr size prot clean) action =
      some (s1, rc)) : rc = 0 ∨ (rc = negErrno enomem ∧ ∃ n, h.ok n .calloc = false) := by
  rcases rangeApply_total h prot clean action haddr hsize (hs.call c) with ⟨s2, rc2, hpass2, -, hrc⟩
  rw [hpass, some.injEq, Prod.mk.injEq] at hpass2
  rw [hpass2.2]
  exact hrc

theorem pass_ends {c : HostCall} {s1 : MmapState} (hmem : ∀ n, h.ok n .calloc)
    (hs : Sound g s s.busy) (haddr : addr % kmPageSize = 0) (hsize : size % kmPageSize = 0)
    (hpass : kmMmapBusyRangeApply g h (s.call c) (rangeReg addr size prot clean) action =
      some (s1, rc)) : rc = 0 := by
  rcases pass_result hs haddr hsize hpass with h0 | ⟨-, n, hno⟩
  · exact h0
  rw [hmem n] at hno
  cases hno

section Mapped

variable {c : HostCall} {s1 : MmapState} {p : Pos} {reg : Reg}

section

variable (hs : Sound g s s.busy) (haddr : addr % kmPageSize = 0) (hsize : size % kmPageSize = 0)
  (hreal : ∀ r ∈ s.busy, r.Real)
  (hpass : kmMmapBusyRangeApply g h (s.call c) (rangeReg addr size prot (hostfd < 0))
    .regionCleanConcat = some (s1, 0))
  (hlist : p.toList = s1.busy) (hstart : p.reg.start = addr) (hpsize : p.reg.size = size)
include hs haddr hsize hreal hpass hlist hstart hpsize

/-- The labels after a request was mapped into the one region that the pass left. -/
theorem labelAt_mapped (hreg : Mapping h addr size prot flags fd offset reg)
    (hkm : reg.kmFlags = p.reg.kmFlags) (a : Nat) :
    labelAt (kmMmapConcat rm { p with reg := reg }).toList a =
      if addr ≤ a ∧ a < addr + size then some reg.label else labelAt s.busy a := by
  have hcall := hs.call c
  have hs1 := kmMmapBusyRangeApply_inv hpass haddr hsize hcall.whole
  have hwrap : addr + size < 2 ^ 64 := by
    have := (hs1.busy_ok p.reg (by simp [← hlist, Pos.toList])).no_wrap
    rwa [Reg.stop, hstart, hpsize] at this
  have hpages := kmMmapBusyRangeApply_labelAt hpass haddr hsize hwrap hcall.whole fun _ => hreal
  have hext : SameExtent p.reg reg :=
    ⟨hreg.start.trans hstart.symm, hreg.size.trans hpsize.symm, by rw [hkm]⟩
  rw [relabelled_of_region hs1 hlist hext hstart hpsize]
  split
  · rfl
  rename_i hout
  have hsame : Action.regionCleanConcat.pages (rangeReg addr size prot (decide (hostfd < 0)))
      (labelAt s.busy) a = labelAt s.busy a := pages_outside hout
  exact (hpages a).trans hsame

/-- The one region is clean if what was there is clean after the pass. -/
theorem mapped_clean {y : Label} (hlo : addr ≤ a) (hhi : a < addr + size)
    (hy : labelAt s.busy a = some y) (hpay : y.ofMonitor = false) :
    p.reg.label = gluedLabel prot (y.cleanAfter prot (hostfd < 0)) := by
  have hcall := hs.call c
  have hs1 := kmMmapBusyRangeApply_inv hpass haddr hsize hcall.whole
  have hmem : p.reg ∈ s1.busy := by simp [← hlist, Pos.toList]
  have hwrap : addr + size < 2 ^ 64 := by
    have := (hs1.busy_ok p.reg hmem).no_wrap
    rwa [Reg.stop, hstart, hpsize] at this
  have hpages := kmMmapBusyRangeApply_labelAt hpass haddr hsize hwrap hcall.whole (fun _ => hreal) a
  have hstop : a < p.reg.stop := by rwa [Reg.stop, hstart, hpsize]
  have hin : Action.regionCleanConcat.pages (rangeReg addr size prot (decide (hostfd < 0)))
      (labelAt s.busy) a = _ := pages_inside hy
    (show (rangeReg addr size prot (decide (hostfd < 0))).start ≤ a from hlo)
    (show a < (rangeReg addr size prot (decide (hostfd < 0))).stop from hhi) hpay
  have hall := hpages.trans hin
  rw [labelAt_of_mem hs1.busy_sorted hmem (hstart ▸ hlo) hstop, relabel_glued hpay,
    some.injEq] at hall
  exact hall

end

end Mapped

/-! ## Fake flags -/

/-- The flags of a page of the payload do not have `MAP_FIXED`, which the fake flags have. -/
def RealAt (l : List Reg) : Prop :=
  ∀ a x, labelAt l a = some x → x.ofMonitor = false → x.flags &&& mapFixed ≠ mapFixed

theorem Holed.not_fixed (hs : Whole g s s.busy) (hreal : RealAt s.busy) (hr : reg ∈ s.busy)
    (hpay : reg.ofMonitor = false) : reg.flags &&& mapFixed ≠ mapFixed := by
  have hz := (hs.busy_ok reg hr).payload (payload_part hpay)
  exact hreal reg.start reg.label
    (labelAt_of_mem hs.busy_sorted hr le_rfl hz.start_lt_stop) hpay

theorem Holed.real (hs : Whole g s s.busy) (hreal : RealAt s.busy) : ∀ r ∈ s.busy, r.Real := by
  intro r hr hpay hfake
  have hflags := hs.not_fixed hreal hr hpay
  rw [hfake] at hflags
  exact hflags (by decide)

/-- Pages that get a label with such flags, and no other page. -/
theorem Relabelled.real {gva : Nat} (hr : Relabelled s s' gva size x) (hreal : RealAt s.busy)
    (hx : x.flags &&& mapFixed ≠ mapFixed) : RealAt s'.busy := by
  intro a y hy hpay
  rw [hr a] at hy
  by_cases hin : gva ≤ a ∧ a < gva + size
  · rw [if_pos hin, some.injEq] at hy
    exact hy ▸ hx
  rw [if_neg hin] at hy
  exact hreal a y hy hpay

theorem flags_not_fixed (flags : BitVec 32) : (flags &&& ~~~mapFixed) &&& mapFixed ≠ mapFixed := by
  intro heq
  have hbit := congrArg (fun b : BitVec 32 => b.getLsbD 4) heq
  simp [mapFixed] at hbit

theorem Label.cleaned_flags (y : Label) : y.cleaned.flags = y.flags := by
  simp only [Label.cleaned]
  split <;> rfl

/-- Unmapping and changing protections leave the flags of the pages. -/
theorem realAt_walkRule (g : Geometry) (h : Host) (action : Action) (mreg : Reg)
    (hact : action ≠ .regionCleanConcat) : WalkRule g h action mreg fun _ l => RealAt l where
  busy _ _ _ hi := hi
  calloc _ _ hi := hi
  cut s xs r ys c _ _ _ hlo hhi hi a y hy := by
    refine hi a y ?_
    rw [labelAt_append] at hy ⊢
    rw [labelAt_splitAt hlo hhi] at hy
    exact hy
  freed s xs r ys s' _ hw _ _ _ hi _ a y hy := by
    refine hi a y ?_
    rcases labelAt_mem hy with ⟨q, hq, hlo, hhi, rfl⟩
    refine labelAt_of_mem hw.busy_sorted ?_ hlo hhi
    rcases mem_append.1 hq with hq | hq <;> simp [hq]
  merged s left r right hfree hw hr _ _ hi a y hy hpay := by
    obtain ⟨hq, hext⟩ := action.treat_spec mreg r
    have hnew : Whole g s
        (Pos.toList { left := left, reg := (action.treat g mreg s r).2, right := right }) :=
      hw.relabel hext
    rw [labelAt_concat hnew] at hy
    rcases labelAt_mem hy with ⟨q, hq, hlo, hhi, rfl⟩
    have hold : ∀ q ∈ left.reverse ++ r :: right, q.start ≤ a → a < q.stop →
        q.label.ofMonitor = false → q.label.flags &&& mapFixed ≠ mapFixed := by
      intro q hq hlo hhi hmon
      exact hi a q.label (labelAt_of_mem hw.busy_sorted hq hlo hhi) hmon
    rcases mem_append.1 hq with hq | hq
    · exact hold q (mem_append_left _ hq) hlo hhi hpay
    rcases mem_cons.1 hq with rfl | hq
    · -- the region that is treated keeps its flags
      have hlabel := treat_label hfree g s mreg r
      cases action with
      | mprotect =>
        simp only [Action.relabel, some.injEq] at hlabel
        simp only at hlo hhi ⊢
        rw [← hlabel, Label.cleaned_flags]
        rw [hext.start] at hlo
        rw [hext.stop] at hhi
        exact hold r (by simp) hlo hhi hr
      | regionCleanConcat => exact absurd rfl hact
      | moveToFree => exact absurd rfl hfree
    · exact hold q (mem_append_right _ (.tail _ hq)) hlo hhi hpay

theorem realAt_of_walk (hact : action ≠ .regionCleanConcat) (haddr : addr % kmPageSize = 0)
    (hsize : size % kmPageSize = 0) (hs : Whole g s s.busy) (hreal : RealAt s.busy)
    (hr : kmMmapBusyRangeApply g h s (rangeReg addr size prot clean) action = some (s', rc)) :
    RealAt s'.busy :=
  kmMmapBusyRangeApply_rule hr (realAt_walkRule g h action _ hact) haddr hsize hs hreal

/-- A mapping into busy regions that comes to its end leaves no fake flags behind. -/
theorem realAt_of_mapIntoBusy {ret : Nat} (hmem : ∀ n, h.ok n .calloc) (hs : Sound g s s.busy)
    (hsize : size % kmPageSize = 0) (hreal : RealAt s.busy)
    (hr : mapIntoBusy g h s addr size prot flags fd hostfd offset = some (s', ret)) :
    RealAt s'.busy := by
  cases mapIntoBusy_end hr with
  | refused hkma hno => exact hreal
  | stuck hkma hok haddr hpass hrc => exact absurd (pass_ends hmem hs haddr hsize hpass) hrc
  | done hkma hok haddr hpass hlist hstart hpsize hreg hkm =>
    intro a y hy hpay
    simp only at hy
    rw [labelAt_mapped hs haddr hsize (hs.whole.real hreal) hpass hlist hstart hpsize hreg hkm] at hy
    by_cases hin : addr ≤ a ∧ a < addr + size
    · rw [if_pos hin, some.injEq] at hy
      have hflags : y.flags = flags &&& ~~~mapFixed := by
        rw [← hy]
        exact hreg.flags
      rw [hflags]
      exact flags_not_fixed flags
    rw [if_neg hin] at hy
    exact hreal a y hy hpay

end

end KontainMonitor.Mmap
