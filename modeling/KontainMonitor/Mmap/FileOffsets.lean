import KontainMonitor.Mmap.GuestMmap

/-!
# FileOffsets — where the pages of a mapped file come from

Beside the lists of regions, a run carries an `Origin`: for each address the file and the offset that
it was mapped from.  Regions of files are cut and merged.  A cut keeps the offset of every page; a
merge does not, since `km_mmap_concat` keeps the offset of the region it works on, whatever it absorbs
on the left or on the right.  `MmapOp.KeepsFiles` describes the calls that merge no region of a file.
-/

namespace KontainMonitor.Mmap

open Intervals List Mem Transition

/-! ## Origins -/

/-- The file and the offset that an address was mapped from. -/
abbrev Origin := Nat → Option (String × Int)

/-- What a region says about an address in it. -/
def Reg.origin (r : Reg) (a : Nat) : Option (String × Int) :=
  r.filename.map fun f => (f, r.offset + ((a - r.start : Nat) : Int))

/-- The regions of files tell the truth about their pages. -/
def FilesRight (o : Origin) (l : List Reg) : Prop :=
  ∀ r ∈ l, r.ofMonitor = false → r.filename ≠ none →
    ∀ a, r.start ≤ a → a < r.stop → o a = r.origin a

def Origin.mapped (o : Origin) (gva size : Nat) (file : Option String) (offset : Int) : Origin :=
  fun a => if gva ≤ a ∧ a < gva + size then
      file.map fun f => (f, offset + ((a - gva : Nat) : Int))
    else o a

/-- A mapping that has moved or grown: what was not in it before is not mapped from a file. -/
def Origin.remapped (o : Origin) (oldAddr oldSize gva size : Nat) : Origin :=
  fun a => if (gva ≤ a ∧ a < gva + size) ∧ ¬ (oldAddr ≤ a ∧ a < oldAddr + oldSize) then none else o a

def requestFile (h : Host) (flags : BitVec 32) (fd : Int) : Option String :=
  (h.kmGuestfdName (requestFd flags fd)).bind h.realpath

def MmapOp.origin (g : Geometry) (h : Host) (s : MmapState) (o : Origin) : MmapOp → Origin
  | .mmap gva size prot flags fd offset =>
    match kmGuestMmap g h s gva size prot flags fd offset with
    | some (_, ret) => if isErrno ret then o
        else o.mapped ret (roundup size kmPageSize) (requestFile h flags fd) offset
    | none => o
  | .mmapSimple size =>
    match kmGuestMmapSimple g h s size with
    | some (_, ret) => if isErrno ret then o else o.mapped ret (roundup size kmPageSize) none 0
    | none => o
  | .mremap oldAddr oldSize size flags =>
    match kmGuestMremap g h s oldAddr oldSize size flags with
    | some (_, ret) => if isErrno ret then o
        else o.remapped oldAddr (roundup oldSize kmPageSize) ret (roundup size kmPageSize)
    | none => o
  | _ => o

/-- Runs of requests that are served, with the origins of the pages. -/
def originSystem (g : Geometry) : System (MmapState × Origin) (Host × MmapOp) where
  init x := (servedSystem g).init x.1 ∧ x.2 = fun _ => none
  step x a x' := (servedSystem g).step x.1 a x'.1 ∧ x'.2 = a.2.origin g a.1 x.1 x.2

/-! ## Calls that merge no region of a file -/

def Reg.Meets (r mreg : Reg) : Prop := r.start < mreg.fin ∧ mreg.start < r.stop

instance (r mreg : Reg) : Decidable (r.Meets mreg) := inferInstanceAs (Decidable (_ ∧ _))

/-- A region of a file that meets the range will be the only one with its file and flags that has
the protection of the range, and has it nowhere outside the range. -/
def Lone (mreg : Reg) (l : List Reg) : Prop :=
  ∀ r ∈ l, r.ofMonitor = false → r.filename ≠ none → r.Meets mreg →
    (r.protection = mreg.protection → mreg.start ≤ r.start ∧ r.stop ≤ mreg.fin) ∧
    ∀ q ∈ l, q.ofMonitor = false → q.filename = r.filename → q.flags = r.flags →
      (q.protection = mreg.protection ∨ q.Meets mreg) → q = r

/-- Regions of the same file with the same flags and protection are all replaced by the mapping. -/
def NoTwin (busy : List Reg) (gva size : Nat) (prot flags : BitVec 32) (file : Option String) : Prop :=
  ∀ r ∈ busy, r.ofMonitor = false → r.filename ≠ none → r.filename = file →
    r.flags = flags &&& ~~~mapFixed → r.protection = prot →
    flags &&& mapFixed = mapFixed ∧ gva ≤ r.start ∧ r.stop ≤ gva + size

def MmapOp.KeepsFiles (h : Host) (s : MmapState) : MmapOp → Prop
  | .mmap gva size prot flags fd _ =>
    NoTwin s.busy gva (roundup size kmPageSize) prot flags (requestFile h flags fd)
  | .mprotect addr size prot => Lone (rangeReg addr (roundup size kmPageSize) prot false) s.busy
  | .mremap oldAddr oldSize size _ => roundup oldSize kmPageSize < roundup size kmPageSize →
      ∀ r ∈ s.busy, r.start ≤ oldAddr → oldAddr < r.stop → r.filename = none
  | _ => True

/-- Runs of calls that merge no region of a file. -/
def keepingSystem (g : Geometry) : System (MmapState × Origin) (Host × MmapOp) :=
  (originSystem g).restrict fun x a _ => a.2.KeepsFiles a.1 x.1

/-! ## Pieces -/

/-- A part of a region, with the same attributes. -/
structure Piece (r q : Reg) : Prop where
  ofMonitor : q.ofMonitor = r.ofMonitor
  filename : q.filename = r.filename
  flags : q.flags = r.flags
  protection : q.protection = r.protection
  lower : r.start ≤ q.start
  upper : q.stop ≤ r.stop
  offset : q.filename ≠ none → q.offset = r.offset + ((q.start - r.start : Nat) : Int)

def PiecesOf (old l : List Reg) : Prop :=
  ∀ q ∈ l, q.ofMonitor = false → q.filename ≠ none → ∃ r ∈ old, Piece r q

section

variable {g : Geometry} {h : Host} {s s' : MmapState} {o : Origin} {old l : List Reg} {r q : Reg}
variable {c : Nat} {xs ys : List Reg}

theorem Piece.refl (r : Reg) : Piece r r :=
  ⟨rfl, rfl, rfl, rfl, le_rfl, le_rfl, fun _ => by simp⟩

theorem Piece.trans {p : Reg} (h1 : Piece p r) (h2 : Piece r q) : Piece p q := by
  refine ⟨h2.ofMonitor.trans h1.ofMonitor, h2.filename.trans h1.filename, h2.flags.trans h1.flags,
    h2.protection.trans h1.protection, le_trans h1.lower h2.lower, le_trans h2.upper h1.upper,
    fun hname => ?_⟩
  have hlow1 := h1.lower
  have hlow2 := h2.lower
  rw [h2.offset hname, h1.offset (h2.filename ▸ hname)]
  omega

theorem Piece.origin (hp : Piece r q) (hname : q.filename ≠ none) {a : Nat} (ha : q.start ≤ a) :
    q.origin a = r.origin a := by
  have hlow := hp.lower
  have hsum : r.offset + ((q.start - r.start : Nat) : Int) + ((a - q.start : Nat) : Int) =
      r.offset + ((a - r.start : Nat) : Int) := by
    omega
  rw [Reg.origin, Reg.origin, hp.filename, hp.offset hname, hsum]

/-- A cut makes two pieces. -/
theorem Reg.splitAt_pieces (hlo : r.start < c) (hhi : c < r.stop) :
    Piece r (r.splitAt c).1 ∧ Piece r (r.splitAt c).2 := by
  simp only [Reg.stop] at hhi
  refine ⟨⟨rfl, rfl, rfl, rfl, le_rfl, ?_, fun _ => by simp [Reg.splitAt]⟩,
    ⟨rfl, rfl, rfl, rfl, le_of_lt hlo, ?_, fun hname => ?_⟩⟩
  · simp only [Reg.splitAt, Reg.stop]
    omega
  · simp only [Reg.splitAt, Reg.stop]
    omega
  have hname' : r.filename ≠ none := hname
  simp [Reg.splitAt, hname']

theorem PiecesOf.refl (l : List Reg) : PiecesOf l l := fun q hq _ _ => ⟨q, hq, Piece.refl q⟩

theorem PiecesOf.of_mem (hp : PiecesOf old l) {m : List Reg}
    (hm : ∀ q ∈ m, q.ofMonitor = false → q.filename ≠ none → q ∈ l) : PiecesOf old m :=
  fun q hq hpay hname => hp q (hm q hq hpay hname) hpay hname

theorem PiecesOf.cut (hp : PiecesOf old (xs ++ r :: ys)) (hlo : r.start < c) (hhi : c < r.stop) :
    PiecesOf old (xs ++ (r.splitAt c).1 :: (r.splitAt c).2 :: ys) := by
  obtain ⟨h1, h2⟩ := Reg.splitAt_pieces hlo hhi
  have hpiece : ∀ q, Piece r q → q.ofMonitor = false → q.filename ≠ none → ∃ r' ∈ old, Piece r' q := by
    intro q hq hpay hname
    rcases hp r (by simp) (hq.ofMonitor ▸ hpay) (hq.filename ▸ hname) with ⟨r', hr', hpr⟩
    exact ⟨r', hr', hpr.trans hq⟩
  intro q hq hpay hname
  simp only [mem_append, mem_cons] at hq
  rcases hq with hq | rfl | rfl | hq
  · exact hp q (by simp [hq]) hpay hname
  · exact hpiece _ h1 hpay hname
  · exact hpiece _ h2 hpay hname
  · exact hp q (by simp [hq]) hpay hname

theorem FilesRight.pieces (hf : FilesRight o old) (hp : PiecesOf old l) : FilesRight o l := by
  intro q hq hpay hname a hlo hhi
  rcases hp q hq hpay hname with ⟨r, hr, hpiece⟩
  have hlow := hpiece.lower
  have hupp := hpiece.upper
  rw [hpiece.origin hname hlo]
  exact hf r hr (hpiece.ofMonitor ▸ hpay) (hpiece.filename ▸ hname) a (by omega) (by omega)

/-! ## Walks -/

/-- Unmapping, and gluing regions together, leaves pieces of the regions of files. -/
theorem piecesOf_walkRule (g : Geometry) (h : Host) (action : Action) (mreg : Reg)
    (hact : action ≠ .mprotect) (old : List Reg) :
    WalkRule g h action mreg fun _ l => PiecesOf old l where
  busy _ _ _ hi := hi
  calloc _ _ hi := hi
  cut _ _ _ _ _ _ _ _ hlo hhi hi := hi.cut hlo hhi
  freed s xs r ys s' _ _ _ _ _ hi _ := hi.of_mem fun q hq _ _ => by
    rcases List.mem_append.1 hq with hq | hq <;> simp [hq]
  merged s left r right hfree _ _ _ _ hi := by
    cases action with
    | mprotect => exact absurd rfl hact
    | moveToFree => exact absurd rfl hfree
    | regionCleanConcat =>
      have hnone : (Action.regionCleanConcat.treat g mreg s r).2.filename = none := rfl
      refine hi.of_mem fun q hq _ hname => ?_
      rcases kmMmapConcat_mem hq with hmem | ⟨hsame, -⟩
      · simp only [Pos.toList, mem_append, mem_cons] at hmem
        rcases hmem with hmem | rfl | hmem
        · simp [hmem]
        · exact absurd hnone hname
        · simp [hmem]
      · exact absurd (hsame.trans hnone) hname

theorem piecesOf_walk {action : Action} {addr size : Nat} {prot : BitVec 32} {clean : Bool} {rc : Nat}
    (hact : action ≠ .mprotect) (haddr : addr % kmPageSize = 0) (hsize : size % kmPageSize = 0)
    (hs : Whole g s s.busy)
    (hr : kmMmapBusyRangeApply g h s (rangeReg addr size prot clean) action = some (s', rc)) :
    PiecesOf s.busy s'.busy :=
  kmMmapBusyRangeApply_rule hr (piecesOf_walkRule g h action _ hact s.busy) haddr hsize hs
    (.refl s.busy)

/-- What `mprotect` makes of a region. -/
theorem treat_mprotect_same (g : Geometry) (s : MmapState) (mreg r : Reg) :
    (Action.mprotect.treat g mreg s r).2.filename = r.filename ∧
      (Action.mprotect.treat g mreg s r).2.flags = r.flags ∧
      (Action.mprotect.treat g mreg s r).2.protection = mreg.protection ∧
      (Action.mprotect.treat g mreg s r).2.offset = r.offset ∧
      (Action.mprotect.treat g mreg s r).2.ofMonitor = r.ofMonitor := by
  simp only [Action.treat, kmMmapMprotectRegion, kmRegMakeClean]
  split <;> exact ⟨rfl, rfl, rfl, rfl, rfl⟩

theorem Holed.ne_of_apart (hs : Whole g s (xs ++ r :: ys)) (hr : r.start < r.stop)
    (hq : q ∈ xs ∨ q ∈ ys) : q ≠ r := by
  rintro rfl
  obtain ⟨-, hright, hleft⟩ := sorted_append.1 hs.busy_sorted
  rcases hq with hq | hq
  · have := hleft q hq q (.head _)
    omega
  have := (sorted_cons.1 hright).1 q hq
  omega

/-- A cut at an end of the range leaves the regions of files alone. -/
theorem Lone.cut {mreg : Reg} (hl : Lone mreg (xs ++ r :: ys)) (hs : Whole g s (xs ++ r :: ys))
    (hc : c = mreg.start ∨ c = mreg.fin) (hlo : r.start < c) (hhi : c < r.stop) :
    Lone mreg (xs ++ (r.splitAt c).1 :: (r.splitAt c).2 :: ys) := by
  obtain ⟨h1, h2⟩ := Reg.splitAt_pieces hlo hhi
  have hstop1 : (r.splitAt c).1.stop = c := by
    simp only [Reg.splitAt, Reg.stop]
    omega
  have hstart2 : (r.splitAt c).2.start = c := rfl
  have hmeets : ∀ q, Piece r q → q.Meets mreg → r.Meets mreg := by
    intro q hq hm
    exact ⟨lt_of_le_of_lt hq.lower hm.1, lt_of_lt_of_le hm.2 hq.upper⟩
  have hrmem : r ∈ xs ++ r :: ys := by simp
  have hne : ∀ q, q ∈ xs ∨ q ∈ ys → q ≠ r := fun q hq => hs.ne_of_apart (by omega) hq
  -- a region that sticks out of the range has another protection
  have hother : r.ofMonitor = false → r.filename ≠ none → r.Meets mreg →
      r.protection ≠ mreg.protection := by
    intro hpay hname hm hprot
    have hin := (hl r hrmem hpay hname hm).1 hprot
    rcases hc with rfl | rfl <;> omega
  -- only one of the two parts is in the range
  have hone : ∀ x q, (x = (r.splitAt c).1 ∨ x = (r.splitAt c).2) → x.Meets mreg →
      (q = (r.splitAt c).1 ∨ q = (r.splitAt c).2) → q.Meets mreg → q = x := by
    intro x q hx hxm hq hqm
    simp only [Reg.Meets] at hxm hqm
    rcases hx with rfl | rfl <;> rcases hq with rfl | rfl
    · rfl
    · rcases hc with rfl | rfl <;> omega
    · rcases hc with rfl | rfl <;> omega
    · rfl
  have hold : ∀ q, q ∈ xs ∨ q ∈ ys → q ∈ xs ++ r :: ys := by
    intro q hq
    rcases hq with hq | hq <;> simp [hq]
  have hparts : ∀ q, (q = (r.splitAt c).1 ∨ q = (r.splitAt c).2) → Piece r q := by
    rintro q (rfl | rfl)
    · exact h1
    · exact h2
  have hsplit : ∀ q, q ∈ xs ++ (r.splitAt c).1 :: (r.splitAt c).2 :: ys →
      (q ∈ xs ∨ q ∈ ys) ∨ (q = (r.splitAt c).1 ∨ q = (r.splitAt c).2) := by
    intro q hq
    simp only [mem_append, mem_cons] at hq
    tauto
  intro x hx hpay hname hm
  rcases hsplit x hx with hx | hx
  · -- an old region: no part of the one that was cut is like it
    obtain ⟨hin, halone⟩ := hl x (hold x hx) hpay hname hm
    refine ⟨hin, fun q hq hqpay hqname hqflags hqhot => ?_⟩
    rcases hsplit q hq with hq | hq
    · exact halone q (hold q hq) hqpay hqname hqflags hqhot
    have hpiece := hparts q hq
    have heq := halone r hrmem (hpiece.ofMonitor ▸ hqpay) (hpiece.filename ▸ hqname)
      (hpiece.flags ▸ hqflags) (hqhot.imp (hpiece.protection ▸ ·) (hmeets q hpiece))
    exact absurd heq.symm (hne x hx)
  have hpiece := hparts x hx
  have hpay' : r.ofMonitor = false := hpiece.ofMonitor ▸ hpay
  have hname' : r.filename ≠ none := hpiece.filename ▸ hname
  have hprot := hother hpay' hname' (hmeets x hpiece hm)
  refine ⟨fun hsame => absurd (hpiece.protection ▸ hsame) hprot,
    fun q hq hqpay hqname hqflags hqhot => ?_⟩
  rcases hsplit q hq with hq | hq
  · have heq := (hl r hrmem hpay' hname' (hmeets x hpiece hm)).2 q (hold q hq) hqpay
      (hqname.trans hpiece.filename) (hqflags.trans hpiece.flags) hqhot
    exact absurd heq (hne q hq)
  rcases hqhot with hqprot | hqm
  · exact absurd ((hparts q hq).protection ▸ hqprot) hprot
  · exact hone x q hx hm hq hqm

/-- The region that is treated finds nothing to merge with, if it is one of a file. -/
theorem lone_walkRule (g : Geometry) (h : Host) (mreg : Reg) (o : Origin) :
    WalkRule g h .mprotect mreg fun _ l => FilesRight o l ∧ Lone mreg l where
  busy _ _ _ hi := hi
  calloc _ _ hi := hi
  cut s xs r ys c hc hw hr hlo hhi hi :=
    ⟨hi.1.pieces ((PiecesOf.refl _).cut hlo hhi), hi.2.cut hw hc hlo hhi⟩
  freed s xs r ys s' hact := by cases hact
  merged s left r right _ hw hr hlo hhi hi := by
    obtain ⟨hfiles, hlone⟩ := hi
    obtain ⟨hname, hflags, hprot, hoffset, hown⟩ := treat_mprotect_same g s mreg r
    obtain ⟨-, hext⟩ := Action.mprotect.treat_spec mreg r
    generalize (Action.mprotect.treat g mreg s r).2 = r' at hname hflags hprot hoffset hown hext ⊢
    have hz := hw.mem_ok.payload (Reg.payload_part hr)
    have hlt := hz.start_lt_stop
    have hmeets : r.Meets mreg := ⟨by omega, by omega⟩
    have hrmem : r ∈ left.reverse ++ r :: right := by simp
    have hne : ∀ n, n ∈ left ∨ n ∈ right → n ≠ r := by
      intro n hn
      exact hw.ne_of_apart hlt (hn.imp_left mem_reverse.2)
    have hold : ∀ n, n ∈ left ∨ n ∈ right → n ∈ left.reverse ++ r :: right := by
      intro n hn
      rcases hn with hn | hn <;> simp [hn]
    -- a neighbour with the same attributes would be a second region with that file
    have hclash : r.filename ≠ none → ∀ n, n ∈ left ∨ n ∈ right → n.label ≠ r'.label := by
      intro hrname n hn hlabel
      have hnname : n.filename = r'.filename := congrArg Label.filename hlabel
      have hnflags : n.flags = r'.flags := congrArg Label.flags hlabel
      have hnprot : n.protection = r'.protection := congrArg Label.protection hlabel
      have hnown : n.ofMonitor = r'.ofMonitor := congrArg Label.ofMonitor hlabel
      have heq := (hlone r hrmem hr hrname hmeets).2 n (hold n hn) (hnown.trans (hown.trans hr))
        (hnname.trans hname) (hnflags.trans hflags) (.inl (hnprot.trans hprot))
      exact hne n hn heq
    have hnone : ∀ {rm : Bool} {a b : Reg}, a.label ≠ b.label → okToConcat rm a b = false := by
      intro rm a b hlabel
      by_contra hok
      exact hlabel (okToConcat_label (Bool.not_eq_false _ ▸ hok)).2
    have hmem : ∀ q ∈ (kmMmapConcat (Action.mprotect.treat g mreg s r).1.recoveryMode
        { left := left, reg := r', right := right }).toList,
        q.ofMonitor = false → q.filename ≠ none → q ∈ left.reverse ++ r' :: right := by
      intro q hq hpay hqname
      refine kmMmapConcat_filed (fun _ hr' => ⟨fun n hn => ?_, fun n hn => ?_⟩) hq hpay hqname
      · exact hnone (hclash (hname ▸ hr') n (.inl hn))
      · exact hnone (hclash (hname ▸ hr') n (.inr hn)).symm
    have hsplit : ∀ q, q ∈ left.reverse ++ r' :: right → (q ∈ left ∨ q ∈ right) ∨ q = r' := by
      intro q hq
      simp only [mem_append, mem_reverse, mem_cons] at hq
      tauto
    refine ⟨fun q hq hpay hqname a ha1 ha2 => ?_, fun x hx hpay hxname hm => ?_⟩
    · rcases hsplit q (hmem q hq hpay hqname) with hq | rfl
      · exact hfiles q (hold q hq) hpay hqname a ha1 ha2
      rw [hext.start] at ha1
      rw [hext.stop] at ha2
      rw [hfiles r hrmem hr (hname ▸ hqname) a ha1 ha2, Reg.origin, Reg.origin, hname, hoffset,
        hext.start]
    rcases hsplit x (hmem x hx hpay hxname) with hxold | rfl
    · obtain ⟨hin, halone⟩ := hlone x (hold x hxold) hpay hxname hm
      refine ⟨hin, fun q hq hqpay hqname hqflags hqhot => ?_⟩
      rcases hsplit q (hmem q hq hqpay (hqname ▸ hxname)) with hq | rfl
      · exact halone q (hold q hq) hqpay hqname hqflags hqhot
      have heq := halone r hrmem hr (hname ▸ hqname) (hflags ▸ hqflags) (.inr hmeets)
      exact absurd heq.symm (hne x hxold)
    refine ⟨fun _ => ⟨by rw [hext.start]; exact hlo, by rw [hext.stop]; exact hhi⟩,
      fun q hq hqpay hqname hqflags hqhot => ?_⟩
    rcases hsplit q (hmem q hq hqpay (hqname ▸ hxname)) with hq | rfl
    · have heq := (hlone r hrmem hr (hname ▸ hxname) hmeets).2 q (hold q hq) hqpay
        (hqname.trans hname) (hqflags.trans hflags) hqhot
      exact absurd heq (hne q hq)
    · rfl

end

end KontainMonitor.Mmap
