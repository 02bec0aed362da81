import KontainMonitor.Mmap.Pages
import KontainMonitor.Mmap.Progress

/-!
# Fresh — new mappings

`km_mmap_add_region` takes memory from the free list or from below `tbrk`, and puts a region over it
into the busy list.  For a size that `WellSized` describes it never aborts: it maps pages that were
not busy and nothing else, or returns an error and the map of the busy list is as before.  `tbrk` and
the free pages need no account of their own, they follow from the busy list (`Holed.determined`).
-/

namespace KontainMonitor.Mmap

open Intervals List Mem Option

/-! ## The tiling is determined by the busy list -/

section

variable {g : Geometry} {h : Host} {s s' : MmapState} {busy busy' : List Reg} {size : Nat}
variable {rm : Bool} {p : Pos} {r reg : Reg}
variable {a : Nat} {hostfd : Int} {prot : BitVec 32} {xs ys : List Reg}

/-- If there is a top zone at all, it starts with a busy region. -/
theorem Holed.busy_at_tbrk (hs : Whole g s busy) (hlt : s.mem.tbrk < guestMemTopVa) :
    Mapped busy s.mem.tbrk := by
  refine (hs.tiled _ le_rfl hlt).2 ⟨not_covers_of_lt fun r hr => (hs.free_ok r hr).above, ?_⟩
  omega

theorem Holed.tbrk_le_of_mapped (hs : Whole g s busy) (ha : Mapped busy a) : s.mem.tbrk ≤ a := by
  rcases ha with ⟨r, hr, hlo, -⟩
  exact le_trans ((hs.busy_ok r hr).tbrk_le hs.breaks.tbrk_hi) hlo

/-- Where two busy lists map the same addresses, the top zones start at the same address and have the
same free pages. -/
theorem Holed.determined (hs : Whole g s busy) (hs' : Whole g s' busy')
    (hsame : ∀ a, Mapped busy a ↔ Mapped busy' a) :
    s'.mem.tbrk = s.mem.tbrk ∧ ∀ a, Mapped s'.free a ↔ Mapped s.free a := by
  have htop := hs.breaks.tbrk_hi
  have htop' := hs'.breaks.tbrk_hi
  have hle : s.mem.tbrk ≤ s'.mem.tbrk := by
    rcases lt_or_ge s'.mem.tbrk guestMemTopVa with hlt | hge
    · exact hs.tbrk_le_of_mapped ((hsame _).2 (hs'.busy_at_tbrk hlt))
    · omega
  have hge : s'.mem.tbrk ≤ s.mem.tbrk := by
    rcases lt_or_ge s.mem.tbrk guestMemTopVa with hlt | hge
    · exact hs'.tbrk_le_of_mapped ((hsame _).1 (hs.busy_at_tbrk hlt))
    · omega
  have htbrk : s'.mem.tbrk = s.mem.tbrk := le_antisymm hge hle
  have hfree : ∀ {t : MmapState} {l : List Reg}, Whole g t l → ∀ a, Mapped t.free a ↔
      t.mem.tbrk ≤ a ∧ a < guestMemTopVa ∧ ¬ Mapped l a := by
    intro t l ht a
    constructor
    · rintro ⟨r, hr, hlo, hhi⟩
      have hz := (ht.free_ok r hr).zone
      have hlow := hz.lower
      have hupp := hz.upper
      refine ⟨by omega, by omega, fun hm => ?_⟩
      exact ((ht.tiled a (by omega) (by omega)).1 hm).1 ⟨r, hr, hlo, hhi⟩
    rintro ⟨hlo, hhi, hm⟩
    by_contra hno
    exact hm ((ht.tiled a hlo hhi).2 ⟨hno, by omega⟩)
  refine ⟨htbrk, fun a => ?_⟩
  rw [hfree hs, hfree hs', htbrk, hsame a]

/-! ## Room -/

/-- A request that `km_mmap_add_region` serves or refuses. -/
structure WellSized (g : Geometry) (s : MmapState) (size : Nat) : Prop extends Sized s size where
  room : (∃ r ∈ s.free, size ≤ r.size) ∨ size + g.guestVaOffset ≠ s.mem.tbrk

/-- Without a free region `tbrk` is asked to move down, and not to the start of the top zone. -/
theorem WellSized.wanted (hsized : WellSized g s size) (hs : Sound g s s.busy)
    (hnone : kmMmapFindFree s.free size = none) :
    u64 (s.mem.tbrk + 2 ^ 64 - size) ≠ 0 ∧ (u64 (s.mem.tbrk + 2 ^ 64 - size) ≤ guestMemTopVa →
        size < s.mem.tbrk ∧ u64 (s.mem.tbrk + 2 ^ 64 - size) = s.mem.tbrk - size) ∧
      u64 (s.mem.tbrk + 2 ^ 64 - size) ≠ g.guestVaOffset := by
  have hfits := hsized.fits.resolve_left (kmMmapFindFree_none hnone)
  have hroom := hsized.room.resolve_left (kmMmapFindFree_none hnone)
  have htop := hs.whole.breaks.tbrk_hi
  obtain ⟨hne, hdown⟩ := wanted_tbrk hfits.1 hfits.2 htop
  refine ⟨hne, hdown, fun heq => ?_⟩
  have hlow := hs.whole.breaks.tbrk_lo
  have := hdown (by omega)
  omega

/-- An argument other than the start of the top zone is served or refused. -/
theorem kmMemTbrk_served {m : MemState} {arg : Nat} (host : Int → AllocOutcome) (hm : MemInv g m)
    (hne : arg ≠ 0) (hoff : arg ≠ g.guestVaOffset) :
    ∃ m' r, kmMemTbrk g host m arg = some (m', r) ∧ MemInv g m' ∧
      ((r = arg ∧ m'.tbrk = arg) ∨ r = negErrno enomem) := by
  rcases lt_or_ge g.guestVaOffset arg with hlt | hge
  · rcases kmMemTbrk_spec host hm (.inr hlt) with ⟨m', r, hr, hm', -, -, hres⟩
    refine ⟨m', r, hr, hm', ?_⟩
    rcases hres with ⟨h0, -⟩ | hok | ⟨herr, -⟩
    · exact absurd h0 hne
    · exact .inl hok
    · exact .inr herr
  rw [kmMemTbrk, if_neg hne, if_pos (.inr (by omega))]
  exact ⟨m, _, rfl, hm, .inr rfl⟩

/-- What was taken, without what `TakenOk` says about the tiling. -/
def Took (g : Geometry) (s : MmapState) (size : Nat) : Taken → Prop
  | .error s' e => e = negErrno enomem ∧ s'.busy = s.busy ∧ MemInv g s'.mem
  | .region s' reg _ => reg.size = size ∧ s'.busy = s.busy ∧ MemInv g s'.mem ∧
      (s.free = [] → reg.stop = s.mem.tbrk)

theorem takeRegion_total (h : Host) (hs : Sound g s s.busy) (hsized : WellSized g s size)
    (hpage : size % kmPageSize = 0) : ∃ t, takeRegion g h s size = some t ∧ Took g s size t := by
  have hmem : MemInv g (s.call .calloc).mem := (Logged.call s _).memInv hs.mem
  simp only [takeRegion]
  split
  next p hfind =>
    obtain ⟨-, hle⟩ := kmMmapFindFree_spec hfind
    have hnonempty : s.free ≠ [] := by
      intro hnil
      rw [hnil] at hfind
      cases hfind
    split
    · split
      · exact ⟨_, rfl, rfl, rfl, hmem, fun hnil => absurd hnil hnonempty⟩
      · exact ⟨_, rfl, rfl, rfl, hmem⟩
    next hless =>
      rw [kmAssert_pos (by omega)]
      exact ⟨_, rfl, le_antisymm (not_lt.1 hless) hle, rfl, hs.mem, fun hnil => absurd hnil hnonempty⟩
  rename_i hnone
  obtain ⟨hne, hdown, hoff⟩ := hsized.wanted hs hnone
  split
  · rcases kmMemTbrk_served h.alloc hmem hne hoff with ⟨m, r, hr, hm, hres⟩
    rw [show (s.call .calloc).mem.tbrk = s.mem.tbrk from rfl, hr]
    by_cases hret : r ≠ u64 (s.mem.tbrk + 2 ^ 64 - size)
    · simp only [do_some, if_pos hret]
      refine ⟨_, rfl, ?_, rfl, hm⟩
      rcases hres with ⟨hok, -⟩ | herr
      · exact absurd hok hret
      · exact herr
    simp only [do_some, if_neg hret]
    refine ⟨_, rfl, rfl, rfl, hm, fun _ => ?_⟩
    rw [ne_eq, not_not] at hret
    have hlow : r ≤ guestMemTopVa := by
      rcases hres with ⟨-, htbrk⟩ | herr
      · rw [hret, ← htbrk]
        exact hm.tbrk_hi
      -- the error is no multiple of the page size
      have hpg' := hs.whole.tbrk_page
      have : negErrno enomem = 2 ^ 64 - 12 := rfl
      rw [kmPageSize_eq] at hpage hpg'
      simp only [u64] at hret
      omega
    simp only [Reg.stop, rangeReg]
    omega
  · exact ⟨_, rfl, rfl, rfl, hmem⟩

/-! ## A region in the hole -/

theorem concatLeft_alone (hl : ∀ n ∈ p.left, okToConcat rm n p.reg = false) :
    concatLeft rm p = p := by
  simp only [concatLeft]
  split
  · rfl
  next n ls hleft =>
    rw [hl n (by simp [hleft])]
    rfl

theorem concatRight_alone (hr : ∀ n ∈ p.right, okToConcat rm p.reg n = false) :
    concatRight rm p = p := by
  simp only [concatRight]
  split
  · rfl
  next n rs hright =>
    rw [hr n (by simp [hright])]
    rfl

theorem concatLeft_mem (hr : r ∈ (concatLeft rm p).toList) :
    r ∈ p.toList ∨ (r.filename = p.reg.filename ∧ r.kmFlags = p.reg.kmFlags) := by
  simp only [concatLeft] at hr
  split at hr
  · exact .inl hr
  rename_i n ls hleft
  split at hr
  · simp only [Pos.toList, mem_append, mem_reverse, mem_cons] at hr
    rcases hr with hr | rfl | hr
    · exact .inl (by simp [Pos.toList, hleft, hr])
    · exact .inr ⟨rfl, rfl⟩
    · exact .inl (by simp [Pos.toList, hr])
  · exact .inl hr

theorem concatRight_mem (hr : r ∈ (concatRight rm p).toList) :
    r ∈ p.toList ∨ (r.filename = p.reg.filename ∧ r.kmFlags = p.reg.kmFlags) := by
  simp only [concatRight] at hr
  split at hr
  · exact .inl hr
  rename_i n rs hright
  split at hr
  · simp only [Pos.toList, mem_append, mem_reverse, mem_cons] at hr
    rcases hr with hr | rfl | hr
    · exact .inl (by simp [Pos.toList, hr])
    · exact .inr ⟨rfl, rfl⟩
    · exact .inl (by simp [Pos.toList, hright, hr])
  · exact .inl hr

theorem concatLeft_reg (rm : Bool) (p : Pos) : (concatLeft rm p).reg.filename = p.reg.filename ∧
    (concatLeft rm p).reg.kmFlags = p.reg.kmFlags := by
  simp only [concatLeft]
  split
  · exact ⟨rfl, rfl⟩
  · split <;> exact ⟨rfl, rfl⟩

/-- What a merge adds to a list has the file name and the owner of the region that is merged. -/
theorem kmMmapConcat_mem (hr : r ∈ (kmMmapConcat rm p).toList) :
    r ∈ p.toList ∨ (r.filename = p.reg.filename ∧ r.kmFlags = p.reg.kmFlags) := by
  rcases concatRight_mem hr with hleft | ⟨hname, hkm⟩
  · exact concatLeft_mem hleft
  obtain ⟨hname', hkm'⟩ := concatLeft_reg rm p
  exact .inr ⟨hname.trans hname', hkm.trans hkm'⟩

/-- Where a region with a file has no neighbour to merge with, a merge makes no region with a file. -/
theorem kmMmapConcat_filed (hp : p.reg.ofMonitor = false → p.reg.filename ≠ none →
      (∀ n ∈ p.left, okToConcat rm n p.reg = false) ∧ ∀ n ∈ p.right, okToConcat rm p.reg n = false)
    (hr : r ∈ (kmMmapConcat rm p).toList) (hpay : r.ofMonitor = false) (hname : r.filename ≠ none) :
    r ∈ p.toList := by
  rcases kmMmapConcat_mem hr with hmem | ⟨hsame, hkm⟩
  · exact hmem
  -- the region itself has a file, so nothing was merged
  obtain ⟨hleft, hright⟩ := hp (by rwa [Reg.ofMonitor, ← hkm]) (hsame ▸ hname)
  rwa [kmMmapConcat, concatLeft_alone hleft, concatRight_alone hright] at hr

/-- A region that fits the hole has a place in the busy list. -/
theorem kmMmapInsertBusy_total (hs : Holed g s s.busy reg.start reg.stop)
    (hz : InZone s.mem.tbrk reg) (hpart : reg.kmFlags.partOfMonitor = false)
    (hname : reg.filename = none) :
    ∃ s', kmMmapInsertBusy g s reg = some s' ∧ Logged s { s' with busy := s.busy } ∧
      (∀ a, labelAt s'.busy a =
        if reg.start ≤ a ∧ a < reg.stop then some reg.label.cleaned else labelAt s.busy a) ∧
      ∀ r ∈ s'.busy, r.filename ≠ none → r ∈ s.busy := by
  have htop := guestMemTopVa_lt
  have hupp := hz.upper
  have hplace : ∃ q, insertPos reg [] s.busy = some q := by
    refine insertPos_total [] hz.no_wrap hz.nonempty fun r hr => ⟨(hs.busy_ok r hr).no_wrap, ?_⟩
    have hok := hs.busy_ok r hr
    cases hp : r.kmFlags.partOfMonitor with
    | true =>
      have := hok.monitor hp
      exact .inr (by omega)
    | false => exact (hs.apart_busy hz hr hp).imp_left fun hle => ⟨(hok.payload hp).nonempty, hle⟩
  rcases hplace with ⟨q, hq⟩
  obtain ⟨hlist, hreg, hbefore, hafter⟩ := insertPos_apart hq hs.busy_sorted
    (fun r hr => (hs.busy_ok r hr).no_wrap) hz.no_wrap
  obtain ⟨hquiet, hext⟩ := kmMmapMprotectRegion_spec reg
  have hlabel := kmMmapMprotectRegion_label g s reg
  have hlogged := kmMmapMprotectRegion_logged g s reg
  -- the list with the new region in it, before it is merged
  have hok : BusyOk s.mem.tbrk reg :=
    ⟨hz.no_wrap, fun hp => absurd (hpart.symm.trans hp) (by decide), fun _ => hz⟩
  have hfilled : Whole g s (q.left.reverse ++ reg :: q.right) :=
    (hlist.symm ▸ hs).fill hok (by simpa using hbefore) hafter
  let new : Pos := { q with reg := (kmMmapMprotectRegion g s reg).2 }
  have hnew : Whole g (kmMmapMprotectRegion g s reg).1 new.toList :=
    (hfilled.relabel hext).quiet hquiet
  refine ⟨{ (kmMmapMprotectRegion g s reg).1 with
      busy := (kmMmapConcat (kmMmapMprotectRegion g s reg).1.recoveryMode new).toList },
    ?_, ?_, ?_, ?_⟩
  · simp [kmMmapInsertBusy, kmMmapInsert, hq, new]
  · rcases hlogged with ⟨cs, hcs⟩
    exact ⟨cs, by rw [hcs]⟩
  · intro a
    simp only
    rw [labelAt_concat hnew, Pos.toList, labelAt_append, labelAt_cons, hext.start, hext.stop, hlabel,
      ← hlist, labelAt_append]
    by_cases hin : reg.start ≤ a ∧ a < reg.stop
    · rw [if_pos hin, if_pos hin, labelAt_above, none_or]
      intro r hr
      have := hbefore r (mem_reverse.1 hr)
      omega
    · rw [if_neg hin, if_neg hin]
  intro r hr hfile
  have hnone : new.reg.filename = none := by
    have hcleaned : reg.label.cleaned.filename = reg.filename := by
      simp only [Label.cleaned]
      split <;> rfl
    exact (congrArg Label.filename hlabel).trans (hcleaned.trans hname)
  rcases kmMmapConcat_mem hr with hmem | ⟨hsame, -⟩
  · simp only [Pos.toList, mem_append, mem_cons] at hmem
    rw [← hlist, mem_append]
    rcases hmem with hmem | rfl | hmem
    · exact .inl hmem
    · exact absurd hnone hfile
    · exact .inr hmem
  · exact absurd (hsame.trans hnone) hfile

/-! ## New mappings -/

def newLabel (prot flags : BitVec 32) (type : AllocationType) : Label :=
  ({ flags := flags
     protection := prot
     kmFlags := { KmFlags.none with monitor := type = .monitor }
     filename := none } : Label).cleaned

/-- `[gva, gva + size)` was not busy and is now, with the given label; nothing else has changed. -/
structure NewMapping (s s' : MmapState) (gva size : Nat) (x : Label) : Prop where
  page : gva % kmPageSize = 0
  lower : s'.mem.tbrk ≤ gva
  upper : gva + size ≤ guestMemTopVa
  hole : ∀ a, gva ≤ a → a < gva + size → labelAt s.busy a = none
  labels : ∀ a, labelAt s'.busy a =
    if gva ≤ a ∧ a < gva + size then some x else labelAt s.busy a
  files : ∀ r ∈ s'.busy, r.filename ≠ none → r ∈ s.busy

theorem isErrno_negErrno {e : Nat} (h : 0 < e ∧ e < 4096) : isErrno (negErrno e) := by
  have hlt : 2 ^ 64 - 4096 < 2 ^ 64 - e := by omega
  exact decide_eq_true hlt

theorem Host.isErrno_failure (h : Host) (m : MemState) (c : HostCall) :
    isErrno (h.failure m c) := by
  simp only [Host.failure]
  split
  · exact isErrno_negErrno (h.errno _ c).2
  · exact isErrno_negErrno (by cases c <;> grind [malformedErrno, enomem, einval])

theorem isErrno_of_le (ha : a ≤ guestMemTopVa) : isErrno a = false := by
  have hconsts := layout_consts
  simp only [isErrno, decide_eq_false_iff_not]
  omega

/-- The sharing flags are set to what they were set to before. -/
theorem sharing_flags (flags : BitVec 32) :
    (flags &&& ~~~(mapPrivate ||| mapShared)) ||| (flags &&& (mapPrivate ||| mapShared)) = flags := by
  ext i hi
  simp only [BitVec.getElem_or, BitVec.getElem_and, BitVec.getElem_not]
  cases flags[i] <;> cases mapPrivate[i] <;> cases mapShared[i] <;> rfl

theorem changeRegionSharing_region {existing flags : BitVec 32} {res : Except Nat Reg}
    (hr : kmMmapChangeRegionSharing g h s reg existing flags hostfd = (s', res))
    (hflags : reg.flags = flags) :
    Logged s s' ∧ (res = .ok reg ∨ ∃ e, res = .error e ∧ isErrno e) := by
  subst hflags
  simp only [kmMmapChangeRegionSharing] at hr
  split at hr
  · cases hr
    refine ⟨.call s _, ?_⟩
    split
    · left
      rw [sharing_flags]
    · exact .inr ⟨_, rfl, h.isErrno_failure _ _⟩
  cases hr
  exact ⟨.refl s, .inl rfl⟩

theorem Logged.hole (hl : Logged s s') (hz : InZone s.mem.tbrk reg)
    (hs : Holed g s s.busy reg.start reg.stop) :
    Holed g s' s'.busy reg.start reg.stop ∧ InZone s'.mem.tbrk reg := by
  rw [hl.quiet.busy]
  exact ⟨hs.quiet hl.quiet, hl.quiet.mem.tbrk.symm ▸ hz⟩

/-- The second half of `km_mmap_add_region`, after the sharing is settled. -/
theorem newMapping_of_hole (hs : Holed g s s.busy reg.start reg.stop) (hm : MemInv g s.mem)
    (hz : InZone s.mem.tbrk reg) (hpart : reg.kmFlags.partOfMonitor = false)
    (hname : reg.filename = none) : ∃ s', kmMmapInsertBusy g s reg = some s' ∧ Sound g s' s'.busy ∧
      NewMapping s s' reg.start reg.size reg.label.cleaned := by
  rcases kmMmapInsertBusy_total hs hz hpart hname with ⟨s', hr, hlogged, hlabels, hfiles⟩
  have hok : BusyOk s.mem.tbrk reg :=
    ⟨hz.no_wrap, fun hp => absurd (hpart.symm.trans hp) (by decide), fun _ => hz⟩
  have hmem : MemInv g s'.mem := hlogged.memInv hm
  have htbrk : s'.mem.tbrk = s.mem.tbrk := hlogged.quiet.mem.tbrk
  refine ⟨s', hr, ⟨kmMmapInsertBusy_inv hs hok hr, hmem⟩, hz.start_page,
    le_of_eq_of_le htbrk hz.lower, hz.upper, fun a hlo hhi => ?_, hlabels,
    hfiles⟩
  rw [labelAt_eq_none]
  intro hmapped
  have hlow := hz.lower
  have hupp := hz.upper
  have hstop : a < reg.stop := hhi
  exact ((hs.tiled a (by omega) (by omega)).1 hmapped).2 ⟨hlo, hstop⟩

theorem NewMapping.of_busy {s0 : MmapState} {gva : Nat} {x : Label} (hn : NewMapping s s' gva size x)
    (hbusy : s.busy = s0.busy) : NewMapping s0 s' gva size x :=
  ⟨hn.page, hn.lower, hn.upper, hbusy ▸ hn.hole, hbusy ▸ hn.labels, hbusy ▸ hn.files⟩

/-- `km_mmap_add_region`; a region that the monitor asks for and cannot share goes to the free list
with its owner's mark on it, which is the case that is left open here. -/
theorem kmMmapAddRegion_cases (h : Host) (prot flags : BitVec 32) (hostfd : Int)
    (type : AllocationType) (hs : Sound g s s.busy) (hsized : WellSized g s size)
    (hpage : size % kmPageSize = 0) :
    (∃ s' ret, kmMmapAddRegion g h s size prot flags hostfd type = some (s', ret) ∧
      Sound g s' s'.busy ∧ ((isErrno ret ∧ s'.busy = s.busy) ∨
        (NewMapping s s' ret size (newLabel prot flags type) ∧
          (s.free = [] → ret + size = s.mem.tbrk)))) ∨ (type = .monitor ∧ ∀ s' ret,
      kmMmapAddRegion g h s size prot flags hostfd type = some (s', ret) → isErrno ret) := by
  rcases takeRegion_total h hs hsized hpage with ⟨t, ht, htook⟩
  have hok := takeRegion_inv hs.whole hsized.toSized hpage ht
  rw [kmMmapAddRegion, ht]
  cases t with
  | error s1 e =>
    obtain ⟨rfl, hbusy, hmem⟩ := htook
    exact .inl ⟨s1, _, rfl, ⟨hok, hmem⟩, .inl ⟨by decide, hbusy⟩⟩
  | region s1 reg existing =>
    obtain ⟨rfl, hbusy, hmem, htop⟩ := htook
    obtain ⟨hhole, hz⟩ := hok
    let reg' := reg.relabelled prot flags type
    have hz' : InZone s1.mem.tbrk reg' := hz.sized rfl rfl
    cases hchange : kmMmapChangeRegionSharing g h s1 reg' existing flags hostfd with
    | mk s2 res =>
      obtain ⟨hlogged, hres⟩ := changeRegionSharing_region hchange rfl
      obtain ⟨hhole2, hz2⟩ := hlogged.hole hz' hhole
      have hmem2 := hlogged.memInv hmem
      have hbusy2 : s2.busy = s.busy := hlogged.quiet.busy.trans hbusy
      simp only [bind_eq_bind, bind_some]
      rw [hchange]
      rcases hres with rfl | ⟨e, rfl, herr⟩
      · left
        rcases newMapping_of_hole hhole2 hmem2 hz2 rfl rfl with ⟨s3, hins, hs3, hnew⟩
        refine ⟨s3, reg'.start, ?_, hs3, .inr ⟨hnew.of_busy hbusy2, htop⟩⟩
        simp only [hins, bind_some, Option.pure_def]
      -- the memory goes back to where it came from
      cases type with
      | guest =>
        left
        rcases kmMmapInsertFree_total hhole2 hmem2 hz2 rfl with ⟨s3, hins, hs3, hbusy3⟩
        refine ⟨s3, e, ?_, hbusy3.symm ▸ hs3, .inl ⟨herr, hbusy3.trans hbusy2⟩⟩
        have hins' : kmMmapInsertFree g h s2 (reg.relabelled prot flags .guest) = some s3 := hins
        simp only [hins', bind_some, Option.pure_def]
      | monitor =>
        right
        refine ⟨rfl, fun s' ret hr => ?_⟩
        simp only [bind_eq_some_iff, Option.pure_def, some.injEq, Prod.mk.injEq] at hr
        rcases hr with ⟨-, -, -, rfl⟩
        exact herr

/-- What the payload gets. -/
theorem kmMmapAddRegion_guest (h : Host) (prot flags : BitVec 32) (hostfd : Int)
    (hs : Sound g s s.busy) (hsized : WellSized g s size) (hpage : size % kmPageSize = 0) :
    ∃ s' ret, kmMmapAddRegion g h s size prot flags hostfd .guest = some (s', ret) ∧
      Sound g s' s'.busy ∧ ((isErrno ret ∧ s'.busy = s.busy) ∨
        NewMapping s s' ret size (newLabel prot flags .guest)) := by
  rcases kmMmapAddRegion_cases h prot flags hostfd .guest hs hsized hpage with
    ⟨s', ret, hr, hs', hres⟩ | ⟨hno, -⟩
  · exact ⟨s', ret, hr, hs', hres.imp_right And.left⟩
  · cases hno

section

variable (hs : Sound g s s.busy) (hsized : WellSized g s size) (hpage : size % kmPageSize = 0)
include hs hsized hpage

theorem kmMmapAddRegion_took {flags : BitVec 32} {ret : Nat}
    (hr : kmMmapAddRegion g h s size prot flags hostfd .guest = some (s', ret)) :
    Sound g s' s'.busy ∧ ((isErrno ret ∧ s'.busy = s.busy) ∨
      NewMapping s s' ret size (newLabel prot flags .guest)) := by
  rcases kmMmapAddRegion_guest h prot flags hostfd hs hsized hpage with ⟨s1, r, hr1, hres⟩
  cases hr.symm.trans hr1
  exact hres

/-- What the monitor gets, if it gets something. -/
theorem kmMmapAddRegion_new {flags : BitVec 32} {type : AllocationType} {ret : Nat}
    (hret : isErrno ret = false)
    (hr : kmMmapAddRegion g h s size prot flags hostfd type = some (s', ret)) :
    Sound g s' s'.busy ∧ NewMapping s s' ret size (newLabel prot flags type) ∧
      (s.free = [] → ret + size = s.mem.tbrk) := by
  rcases kmMmapAddRegion_cases h prot flags hostfd type hs hsized hpage with
    ⟨s1, r, hr1, hs1, hres⟩ | ⟨-, hno⟩
  · rw [hr, some.injEq, Prod.mk.injEq] at hr1
    obtain ⟨rfl, rfl⟩ := hr1
    rcases hres with ⟨herr, -⟩ | hnew
    · rw [hret] at herr
      cases herr
    · exact ⟨hs1, hnew⟩
  rw [hno s' ret hr] at hret
  cases hret

end

/-! ## The pages of the monitor -/

def monitorAt (l : List Reg) (a : Nat) : Bool := (labelAt l a).any Label.ofMonitor

theorem monitorAt_append (l m : List Reg) (a : Nat) :
    monitorAt (l ++ m) a = ((labelAt l a).or (labelAt m a)).any Label.ofMonitor := by
  rw [monitorAt, labelAt_append]

/-- The attributes of a region change, but not its owner. -/
theorem monitorAt_relabel {r' : Reg} (hext : SameExtent r r') (hsame : r'.ofMonitor = r.ofMonitor)
    (a : Nat) : monitorAt (xs ++ r' :: ys) a = monitorAt (xs ++ r :: ys) a := by
  simp only [monitorAt_append, labelAt_cons, hext.start, hext.stop]
  cases labelAt xs a with
  | some x => rfl
  | none =>
    by_cases hin : r.start ≤ a ∧ a < r.stop
    · have hlabel : r'.label.ofMonitor = r.label.ofMonitor := hsame
      simp [hin, hlabel]
    · simp [hin]

theorem monitorAt_remove (hsorted : Apart 0 (xs ++ r :: ys)) (hr : r.ofMonitor = false) (a : Nat) :
    monitorAt (xs ++ ys) a = monitorAt (xs ++ r :: ys) a := by
  rw [monitorAt, monitorAt, labelAt_remove hsorted]
  split
  next hin =>
    have hself := labelAt_of_mem hsorted (by simp : r ∈ xs ++ r :: ys) hin.1 hin.2
    have hpay : r.label.ofMonitor = false := hr
    rw [hself]
    simp [hpay]
  · rfl

theorem monitorAt_concat (hp : Whole g s p.toList) (a : Nat) :
    monitorAt (kmMmapConcat rm p).toList a = monitorAt p.toList a := by
  rw [monitorAt, monitorAt, labelAt_concat hp]

/-- A walk over a range does not touch the monitor's pages. -/
theorem monitorAt_walkRule (g : Geometry) (h : Host) (action : Action) (mreg : Reg)
    (old : Nat → Bool) : WalkRule g h action mreg fun _ l => ∀ a, monitorAt l a = old a where
  busy _ _ _ hi := hi
  calloc _ _ hi := hi
  cut s xs r ys c _ _ _ hlo hhi hi a := by
    rw [← hi a, monitorAt_append, monitorAt_append, labelAt_splitAt hlo hhi]
  freed s xs r ys s' _ hw hr _ _ hi _ a := by rw [monitorAt_remove hw.busy_sorted hr, hi a]
  merged s left r right hact hw hr _ _ hi a := by
    obtain ⟨hq, hext⟩ := action.treat_spec mreg r
    have hsame : (action.treat g mreg s r).2.ofMonitor = r.ofMonitor :=
      Action.relabel_ofMonitor (Action.treat_label hact g s mreg r)
    have hnew : Whole g s
        (Pos.toList { left := left, reg := (action.treat g mreg s r).2, right := right }) :=
      hw.relabel hext
    rw [monitorAt_concat hnew, Pos.toList, monitorAt_relabel hext hsame, hi a]

theorem monitorAt_walk {action : Action} {addr : Nat} {clean : Bool} {rc : Nat}
    (haddr : addr % kmPageSize = 0) (hsize : size % kmPageSize = 0) (hs : Whole g s s.busy)
    (hr : kmMmapBusyRangeApply g h s (rangeReg addr size prot clean) action = some (s', rc))
    (a : Nat) : monitorAt s'.busy a = monitorAt s.busy a := by
  exact kmMmapBusyRangeApply_rule hr (monitorAt_walkRule g h action _ (monitorAt s.busy)) haddr
    hsize hs (fun _ => rfl) a

end

end KontainMonitor.Mmap
