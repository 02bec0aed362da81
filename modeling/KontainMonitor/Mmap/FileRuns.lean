import KontainMonitor.Mmap.FileOffsets

/-!
# FileRuns — runs that keep the offsets of files

One lemma per call: what it does to the regions of files agrees with what it does to the origins.
-/

namespace KontainMonitor.Mmap

open Intervals List Mem Transition Option

section

variable {g : Geometry} {h : Host} {s s' : MmapState} {o : Origin} {l : List Reg}
variable {size oldAddr oldSize : Nat}

/-! ## The calls -/

section

variable (hs : Sound g s s.busy)
include hs

theorem filesRight_of_munmap {vcpu stackTop addr ret : Nat} (hfiles : FilesRight o s.busy)
    (hr : kmGuestMunmap g h s vcpu stackTop addr size = some (s', ret)) : FilesRight o s'.busy := by
  rcases kmGuestMunmap_cases hr with rfl | ⟨haddr, rfl | hm⟩
  · exact hfiles
  · exact hfiles
  · exact hfiles.pieces (piecesOf_walk (by decide) haddr (roundup_page size) hs.whole hm)

theorem filesRight_of_delayedMunmap {vcpu : Nat} (hfiles : FilesRight o s.busy)
    (hr : kmDelayedMunmap g h s vcpu = some s') : FilesRight o s'.busy := by
  rcases kmDelayedMunmap_cases hr with rfl | ⟨s1, rc, hm, rfl⟩
  · exact hfiles
  have hpieces : PiecesOf s.busy s1.busy := piecesOf_walk (by decide) (hs.whole.mapself vcpu).1
    (hs.whole.mapself vcpu).2 hs.whole hm
  exact hfiles.pieces hpieces

theorem filesRight_of_mprotect {addr ret : Nat} {prot : BitVec 32}
    (hlone : Lone (rangeReg addr (roundup size kmPageSize) prot false) s.busy)
    (hfiles : FilesRight o s.busy) (hr : kmGuestMprotect g h s addr size prot = some (s', ret)) :
    FilesRight o s'.busy := by
  rcases kmGuestMprotect_cases hr with rfl | ⟨-, rfl⟩ | ⟨haddr, rc, hm⟩
  · exact hfiles
  · exact hfiles
  exact (kmMmapBusyRangeApply_rule hm (lone_walkRule g h _ o) haddr (roundup_page size) hs.whole
    ⟨hfiles, hlone⟩).1

/-- Every region that could be merged with a mapping of `file` lies in the mapping's range. -/
def TwinsInside (busy : List Reg) (gva size : Nat) (prot flags : BitVec 32)
    (file : Option String) : Prop :=
  ∀ r ∈ busy, r.ofMonitor = false → r.filename ≠ none → r.filename = file →
    r.flags = flags &&& ~~~mapFixed → r.protection = prot → gva ≤ r.start ∧ r.stop ≤ gva + size

theorem filesRight_of_mapIntoBusy {gva ret : Nat} {prot flags : BitVec 32}
    {fd hostfd offset : Int} (hpage : size % kmPageSize = 0)
    (htwin : TwinsInside s.busy gva size prot flags ((h.kmGuestfdName fd).bind h.realpath))
    (hfiles : FilesRight o s.busy)
    (hr : mapIntoBusy g h s gva size prot flags fd hostfd offset = some (s', ret)) :
    FilesRight (if isErrno ret then o
      else o.mapped ret size ((h.kmGuestfdName fd).bind h.realpath) offset) s'.busy := by
  cases mapIntoBusy_end hr with
  | refused hkma hno =>
    rw [if_pos (h.isErrno_failure _ _)]
    exact hfiles
  | @stuck kma rc s1 hkma hok hgva hpass hrc =>
    have hcall := hs.call (mapCall kma size prot flags hostfd offset)
    have hact : Action.regionCleanConcat ≠ .mprotect := by decide
    have hpieces := piecesOf_walk hact hgva hpage hcall.whole hpass
    rcases pass_result hs hgva hpage hpass with h0 | ⟨hnomem, -⟩
    · exact absurd h0 hrc
    rw [hnomem, if_pos (by decide)]
    exact hfiles.pieces hpieces
  | @done kma s1 p reg hkma hok haddr hpass hlist hstart hsize hreg hkm =>
    have hgva : isErrno gva = false := isErrno_of_le (le_of_lt (kmGvaToKma_lt_top hkma))
    have hcall := hs.call (mapCall kma size prot flags hostfd offset)
    have hs1 := sound_of_walk haddr hpage hcall hpass
    have hact : Action.regionCleanConcat ≠ .mprotect := by decide
    have hwalk := piecesOf_walk hact haddr hpage hcall.whole hpass
    have hpieces : PiecesOf s.busy s1.busy := hwalk
    rw [if_neg (by rw [hgva]; decide)]
    have hwhole : Whole g s1 (p.left.reverse ++ p.reg :: p.right) := by
      have := hs1.whole
      rwa [← hlist] at this
    have hstop : p.reg.stop = gva + size := by rw [Reg.stop, hstart, hsize]
    have hmem : ∀ n, n ∈ p.left ∨ n ∈ p.right → n ∈ s1.busy := by
      intro n hn
      rw [← hlist, Pos.toList]
      rcases hn with hn | hn <;> simp [hn]
    have hapart : ∀ n, n ∈ p.left ∨ n ∈ p.right → n.stop ≤ gva ∨ gva + size ≤ n.start := by
      intro n hn
      obtain ⟨-, hright, hleft⟩ := sorted_append.1 hwhole.busy_sorted
      rcases hn with hn | hn
      · have := hleft n (mem_reverse.2 hn) p.reg (.head _)
        omega
      have := (sorted_cons.1 hright).1 n hn
      omega
    obtain ⟨hrstart, hrsize, hrflags, hrprot, hrname, hroffset⟩ := hreg
    have hrstop : reg.stop = gva + size := by rw [Reg.stop, hrstart, hrsize]
    -- a neighbour with the same attributes would be a twin outside of the range
    have hclash : reg.ofMonitor = false → reg.filename ≠ none →
        ∀ n, n ∈ p.left ∨ n ∈ p.right → n.label ≠ reg.label := by
      intro hpay hname n hn hlabel
      have hnown : n.ofMonitor = reg.ofMonitor := congrArg Label.ofMonitor hlabel
      have hnname : n.filename = reg.filename := congrArg Label.filename hlabel
      have hnflags : n.flags = reg.flags := congrArg Label.flags hlabel
      have hnprot : n.protection = reg.protection := congrArg Label.protection hlabel
      have hnpay := hnown.trans hpay
      rcases hpieces n (hmem n hn) hnpay (hnname ▸ hname) with ⟨r, hr, hpiece⟩
      obtain ⟨hlo, hhi⟩ := htwin r hr (hpiece.ofMonitor ▸ hnpay) (hpiece.filename ▸ hnname ▸ hname)
        (hpiece.filename.symm.trans (hnname.trans hrname))
        (hpiece.flags.symm.trans (hnflags.trans hrflags))
        (hpiece.protection.symm.trans (hnprot.trans hrprot))
      have hz := (hs1.whole.busy_ok n (hmem n hn)).payload (Reg.payload_part hnpay)
      have hlt := hz.start_lt_stop
      have hlow := hpiece.lower
      have hupp := hpiece.upper
      rcases hapart n hn with hle | hle <;> omega
    have hnone : ∀ {rm : Bool} {a b : Reg}, a.label ≠ b.label → okToConcat rm a b = false := by
      intro rm a b hlabel
      by_contra hno
      exact hlabel (okToConcat_label (Bool.not_eq_false _ ▸ hno)).2
    intro q hq hpay hname a hlo hhi
    have hqmem : q ∈ Pos.toList { p with reg := reg } := by
      refine kmMmapConcat_filed (fun hpay' hname' => ⟨fun n hn => ?_, fun n hn => ?_⟩) hq hpay hname
      · exact hnone (hclash hpay' hname' n (.inl hn))
      · exact hnone (hclash hpay' hname' n (.inr hn)).symm
    have hcases : (q ∈ p.left ∨ q ∈ p.right) ∨ q = reg := by
      simp only [Pos.toList, mem_append, mem_reverse, mem_cons] at hqmem
      tauto
    rcases hcases with hold | rfl
    · have hout : ¬ (gva ≤ a ∧ a < gva + size) := by rcases hapart q hold with hle | hle <;> omega
      rw [Origin.mapped, if_neg hout]
      exact hfiles.pieces hpieces q (hmem q hold) hpay hname a hlo hhi
    · rw [Origin.mapped, if_pos (by omega), Reg.origin, hrname, hroffset hname, hrstart]

/-- A request of the payload, after its parameters are checked. -/
theorem filesRight_of_request {gva ret : Nat} {prot flags : BitVec 32} {fd offset : Int}
    (hsized : flags &&& mapFixed ≠ mapFixed → WellSized g s size) (hpage : size % kmPageSize = 0)
    (htwin : NoTwin s.busy gva size prot flags (requestFile h flags fd))
    (hfiles : FilesRight o s.busy)
    (hr : RequestEnd g h s gva size prot flags fd offset .guest s' ret) :
    FilesRight (if isErrno ret then o else o.mapped ret size (requestFile h flags fd) offset)
      s'.busy := by
  -- a region of a file was there before
  have hadds : ∀ {s1 : MmapState} {gva1 : Nat} (hfixed : flags &&& mapFixed ≠ mapFixed),
      kmMmapAddRegion g h s size prot flags (h.hostfd (requestFd flags fd)) .guest =
        some (s1, gva1) →
      Sound g s1 s1.busy ∧ FilesRight o s1.busy ∧ ∀ r ∈ s1.busy, r.filename ≠ none → r ∈ s.busy := by
    intro s1 gva1 hfixed hadd
    obtain ⟨hs1, hres⟩ := kmMmapAddRegion_took hs (hsized hfixed) hpage hadd
    have hold : ∀ r ∈ s1.busy, r.filename ≠ none → r ∈ s.busy := by
      rcases hres with ⟨-, hbusy⟩ | hnew
      · exact fun r hr _ => hbusy ▸ hr
      · exact hnew.files
    exact ⟨hs1, hfiles.pieces ((PiecesOf.refl _).of_mem fun q hq _ hname => hold q hq hname), hold⟩
  cases hr with
  | refused he =>
    rw [if_pos he]
    exact hfiles
  | into hfixed hcheck hm =>
    refine filesRight_of_mapIntoBusy hs hpage (fun r hrm h1 h2 h3 h4 h5 => ?_) hfiles hm
    exact (htwin r hrm h1 h2 h3 h4 h5).2
  | taken hfixed hadd hend =>
    obtain ⟨-, hfiles1, hold⟩ := hadds hfixed hadd
    by_cases herr : isErrno ret
    · rw [if_pos herr]
      exact hfiles1
    rw [if_neg herr]
    obtain ⟨-, hnew, -⟩ := kmMmapAddRegion_new hs (hsized hfixed) hpage (by simpa using herr) hadd
    -- the new pages were not busy
    intro q hq hpay hname a hlo hhi
    have hlabel := labelAt_of_mem hs.whole.busy_sorted (hold q hq hname) hlo hhi
    have hout : ¬ (ret ≤ a ∧ a < ret + size) := by
      rintro ⟨h1, h2⟩
      rw [hnew.hole a h1 h2] at hlabel
      cases hlabel
    rw [Origin.mapped, if_neg hout]
    exact hfiles1 q hq hpay hname a hlo hhi
  | filled hfixed hadd hok hfd hm =>
    obtain ⟨hs1, hfiles1, hold⟩ := hadds hfixed hadd
    refine filesRight_of_mapIntoBusy hs1 hpage (fun r hrm h1 h2 h3 h4 h5 => ?_) hfiles1 hm
    exact absurd (htwin r (hold r hrm h2) h1 h2 h3 h4 h5).1 hfixed

end

/-- No region of a file has a page that a mapping of no file was put over. -/
theorem FilesRight.remapped {gva : Nat}
    (hfiles : FilesRight (o.mapped gva size none 0) l) :
    FilesRight (o.remapped oldAddr oldSize gva size) l := by
  intro q hq hpay hname a hlo hhi
  have horigin := hfiles q hq hpay hname a hlo hhi
  rw [Origin.mapped] at horigin
  by_cases hin : gva ≤ a ∧ a < gva + size
  · rw [if_pos hin, map_none, Reg.origin] at horigin
    rcases Option.ne_none_iff_exists'.1 hname with ⟨f, hf⟩
    rw [hf] at horigin
    cases horigin
  rw [if_neg hin] at horigin
  rw [Origin.remapped, if_neg (fun hc => hin hc.1)]
  exact horigin

theorem filesRight_of_growInPlace {p : Pos} {needed ret : Nat}
    (hs : Sound g s s.busy) (hp : p.toList = s.busy) (hpay : p.reg.ofMonitor = false)
    (hname : p.reg.filename = none) (hroom : HasRoom p needed) (hstart : p.reg.start ≤ oldAddr)
    (hstop : p.reg.stop = oldAddr + oldSize) (hfiles : FilesRight o s.busy)
    (hr : mremapGrowInPlace g s p oldAddr needed = some (s', ret)) :
    FilesRight (o.remapped oldAddr oldSize ret (oldSize + needed)) s'.busy := by
  have hpart := Reg.payload_part hpay
  have hwhole : Whole g s p.toList := hp ▸ hs.whole
  have hwhole' := mremapGrowInPlace_inv hwhole hpart hroom hr
  obtain ⟨rfl, -, hlabels⟩ := mremapGrowInPlace_labelAt hwhole hpart hroom hr
  have hold : ∀ q ∈ s'.busy, q.filename ≠ none → q ∈ s.busy := by
    intro q hq hqname
    simp only [mremapGrowInPlace, do_eq_some] at hr
    rcases hr with ⟨d, -, -, -, hr⟩
    cases hr
    simp only at hq
    have hnone : ∀ (s1 : MmapState) (n : Nat),
        (kmMmapMprotectRegion g s1 { p.reg with size := n }).2.filename = none := by
      intro s1 n
      have hlabel := kmMmapMprotectRegion_label g s1 { p.reg with size := n }
      refine (congrArg Label.filename hlabel).trans ?_
      simp only [Label.cleaned, Reg.label, hname]
      split <;> rfl
    rcases kmMmapConcat_mem hq with hmem | ⟨hsame, -⟩
    · simp only [Pos.toList, mem_append, mem_cons] at hmem
      rw [← hp, Pos.toList]
      rcases hmem with hmem | rfl | hmem
      · simp [hmem]
      · exact absurd (hnone _ _) hqname
      · simp [hmem]
    · exact absurd (hsame.trans (hnone _ _)) hqname
  intro q hq hqpay hqname a hlo hhi
  rw [Origin.remapped, if_neg]
  · exact hfiles q (hold q hq hqname) hqpay hqname a hlo hhi
  -- the pages that were added have no file
  rintro ⟨⟨h1, h2⟩, h3⟩
  have hlabel := labelAt_of_mem hwhole'.busy_sorted hq hlo hhi
  rw [hlabels, if_pos (by omega), some.injEq] at hlabel
  have hqnone : q.filename = p.reg.label.cleaned.filename := (congrArg Label.filename hlabel).symm
  refine hqname (hqnone.trans ?_)
  simp only [Label.cleaned, Reg.label, hname]
  split <;> rfl

/-- Moving a mapping makes an anonymous one. -/
theorem filesRight_of_move {p : Pos} {ret : Nat} (hs : Sound g s s.busy)
    (hsize : size % kmPageSize = 0) (hsized : WellSized g s size) (hfiles : FilesRight o s.busy)
    (hr : kmGuestMmapNolock g h s 0 size p.reg.protection p.reg.flags (-1) 0 .guest = some (s', ret)) :
    Sound g s' s'.busy ∧
      FilesRight (if isErrno ret then o else o.mapped ret size none 0) s'.busy := by
  have hfd : requestFile h p.reg.flags (-1) = none := by
    have hneg : requestFd p.reg.flags (-1) < 0 := by
      rw [requestFd]
      split <;> decide
    rw [requestFile, h.kmGuestfdName_neg _ hneg]
    rfl
  have htwin : NoTwin s.busy 0 size p.reg.protection p.reg.flags
      (requestFile h p.reg.flags (-1)) := by
    intro r _ _ hrname hsame
    exact absurd (hsame.trans hfd) hrname
  have hmoved := filesRight_of_request hs (fun _ => hsized) hsize htwin hfiles
    (kmGuestMmapNolock_end hr)
  rw [hfd] at hmoved
  exact ⟨((kmGuestMmapNolock_end hr).kept hs (fun _ => hsized) hsize).sound, hmoved⟩

/-- Pages that were in the mapping before keep their origin. -/
theorem Origin.remapped_same (hle : size ≤ oldSize) :
    o.remapped oldAddr oldSize oldAddr size = o := by
  funext a
  rw [Origin.remapped, if_neg]
  rintro ⟨⟨h1, h2⟩, h3⟩
  omega

theorem filesRight_of_mremap {ret : Nat} {flags : BitVec 32}
    (hs : Sound g s s.busy) (hsized : roundup oldSize kmPageSize < roundup size kmPageSize →
      WellSized g s (roundup size kmPageSize))
    (hname : roundup oldSize kmPageSize < roundup size kmPageSize →
      ∀ r ∈ s.busy, r.start ≤ oldAddr → oldAddr < r.stop → r.filename = none)
    (hfiles : FilesRight o s.busy)
    (hr : kmGuestMremap g h s oldAddr oldSize size flags = some (s', ret)) :
    FilesRight (if isErrno ret then o
      else o.remapped oldAddr (roundup oldSize kmPageSize) ret (roundup size kmPageSize)) s'.busy := by
  cases kmGuestMremap_end hs.whole hr with
  | refused he =>
    rw [if_pos he]
    exact hfiles
  | same heq =>
    rw [Origin.remapped_same (le_of_eq heq.symm), ite_self]
    exact hfiles
  | @grown p _ hp hless hstop hroom hm =>
    have hpmem : p.reg ∈ s.busy := by simp [← hp.list, Pos.toList]
    have hz := (hs.whole.busy_ok p.reg hpmem).payload (Reg.payload_part hp.payload)
    have hupp := hz.upper
    have hgrown := filesRight_of_growInPlace hs hp.list hp.payload
      (hname hless p.reg hpmem hp.lower hp.upper) hroom hp.lower hstop hfiles hm
    rw [if_neg (by rw [isErrno_of_le (by omega)]; decide)]
    rwa [Nat.add_sub_cancel' (le_of_lt hless)] at hgrown
  | full hp hless hm he =>
    obtain ⟨-, hmoved⟩ := filesRight_of_move hs (roundup_page size) (hsized hless) hfiles hm
    rw [if_pos he] at hmoved
    rw [if_pos (by decide)]
    exact hmoved
  | @moved p s1 _ _ src _ hp hless hroom hm hok hsrc hmun hrc =>
    obtain ⟨hs1, hmoved⟩ := filesRight_of_move hs (roundup_page size) (hsized hless) hfiles hm
    have hnoerr : ¬ isErrno ret := by simp [hok]
    rw [if_neg hnoerr] at hmoved ⊢
    have hlogged := Logged.call s1
      (.memcpy ((kmGvaToKma g s1.mem ret).getD 0) src (roundup oldSize kmPageSize))
    have hcall : Sound g _ (s1.call
        (.memcpy ((kmGvaToKma g s1.mem ret).getD 0) src (roundup oldSize kmPageSize))).busy :=
      hs1.logged hlogged
    have hpieces := piecesOf_walk (by decide) hp.page (roundup_page oldSize) hcall.whole hmun
    have hmoved2 : FilesRight (o.mapped ret (roundup size kmPageSize) none 0) s'.busy :=
      hmoved.pieces hpieces
    exact hmoved2.remapped
  | @shrunk p _ rc hp hless hfrom hlen hmun =>
    -- the end is unmapped
    have hfiles1 := hfiles.pieces (piecesOf_walk (by decide) hfrom hlen hs.whole hmun)
    by_cases herr : isErrno rc
    · rw [if_pos herr, if_pos (by decide)]
      exact hfiles1
    rw [if_neg herr, Origin.remapped_same (le_of_lt hless), ite_self]
    exact hfiles1

/-! ## Runs -/

/-- The step. -/
theorem MmapOp.filesRight {op : MmapOp} (hs : Sound g s s.busy) (hpay : op.OfPayload)
    (hserved : op.Served g s) (hkeeps : op.KeepsFiles h s) (hfiles : FilesRight o s.busy)
    (hr : op.call g h s = some s') : FilesRight (op.origin g h s o) s'.busy := by
  cases op with
  | brk arg =>
    simp only [MmapOp.call, map_eq_some_iff] at hr
    rcases hr with ⟨⟨m, ret⟩, -, rfl⟩
    exact hfiles
  | mmapSimple size =>
    obtain ⟨ret, hm⟩ := map_fst_eq_some.1 hr
    have hfd : requestFile h (mapPrivate ||| mapAnonymous) (-1) = none := by
      have hneg : requestFd (mapPrivate ||| mapAnonymous) (-1) < 0 := by decide
      rw [requestFile, h.kmGuestfdName_neg _ hneg]
      rfl
    have htwin : NoTwin s.busy 0 (roundup size kmPageSize) (protRead ||| protWrite)
        (mapPrivate ||| mapAnonymous) (requestFile h (mapPrivate ||| mapAnonymous) (-1)) := by
      intro r _ _ hrname hsame
      exact absurd (hsame.trans hfd) hrname
    have hmapped := filesRight_of_request hs (fun _ => hserved) (roundup_page size) htwin
      hfiles (kmGuestMmapImpl_end hm)
    rw [hfd] at hmapped
    simp only [MmapOp.origin, hm]
    exact hmapped
  | mmapSimpleMonitor size => cases hpay
  | mmap gva size prot flags fd offset =>
    obtain ⟨ret, hm⟩ := map_fst_eq_some.1 hr
    simp only [MmapOp.origin, hm]
    exact filesRight_of_request hs hserved (roundup_page size) hkeeps hfiles (kmGuestMmapImpl_end hm)
  | munmap vcpu stackTop addr size =>
    obtain ⟨ret, hm⟩ := map_fst_eq_some.1 hr
    exact filesRight_of_munmap hs hfiles hm
  | delayedMunmap vcpu => exact filesRight_of_delayedMunmap hs hfiles hr
  | mprotect addr size prot =>
    obtain ⟨ret, hm⟩ := map_fst_eq_some.1 hr
    exact filesRight_of_mprotect hs hkeeps hfiles hm
  | mremap oldAddr oldSize size flags =>
    obtain ⟨ret, hm⟩ := map_fst_eq_some.1 hr
    simp only [MmapOp.origin, hm]
    exact filesRight_of_mremap hs hserved hkeeps hfiles hm

/-- In every run of calls that are served and merge no region of a file, the regions of files tell
the truth about their pages. -/
theorem file_offsets_right (g : Geometry) {x : MmapState × Origin} (hx : Reach (keepingSystem g) x) :
    FilesRight x.2 x.1.busy := by
  suffices hinv : Settled g x.1 ∧ FilesRight x.2 x.1.busy from hinv.2
  refine Reach.inv (I := fun x => Settled g x.1 ∧ FilesRight x.2 x.1.busy) ?_ ?_ hx
  · rintro ⟨s, o⟩ ⟨⟨p, overcommitMemory, h, s0, hinit, hidt⟩, -⟩
    obtain ⟨hall, hlt⟩ := kmInitGuestIdt_allMonitor hinit hidt
    refine ⟨hall.settled hlt, fun r hr hpay => ?_⟩
    -- there is no page of the payload yet
    have hz := (hall.sound.whole.busy_ok r hr).payload (Reg.payload_part hpay)
    have hmon := hall.monitor_of_mapped
      (labelAt_of_mem hall.sound.whole.busy_sorted hr le_rfl hz.start_lt_stop)
    rw [show r.label.ofMonitor = false from hpay] at hmon
    cases hmon
  rintro ⟨s, o⟩ ⟨h, op⟩ ⟨s', o'⟩ ⟨hs, hfiles⟩ ⟨⟨⟨⟨hpay, hcall⟩, hserved⟩, horigin⟩, hkeeps⟩
  refine ⟨hs.kept (op.call_kept hs.sound hpay hserved hcall), ?_⟩
  rw [show o' = op.origin g h s o from horigin]
  exact op.filesRight hs.sound hpay hserved hkeeps hfiles hcall

end

def mapFirstPage : MmapOp := .mmap 0 0x1000 protRead mapPrivate 3 0

def mapMiddle : MmapOp := .mmap 0 0x2000 protRead mapPrivate 3 0x3000

def closeLower : MmapOp := .mprotect 0x7fffdfc000 0x1000 protNone

/-- One call on the file system's host, with the origins. -/
def filed (op : MmapOp) (x : MmapState × Origin) : Option (MmapState × Origin) :=
  (op.call geo512 filingHost x.1).map fun s => (s, op.origin geo512 filingHost x.1 x.2)

theorem filed_step (op : MmapOp) {x x' : MmapState × Origin} (hpay : op.OfPayload)
    (hserved : op.Served geo512 x.1) (hx : filed op x = some x') :
    (originSystem geo512).step x (filingHost, op) x' := by
  simp only [filed, map_eq_some_iff] at hx
  rcases hx with ⟨s, hs, rfl⟩
  exact ⟨⟨⟨hpay, hs⟩, hserved⟩, rfl⟩

def mappedOnce : MmapState × Origin := evaluate (filed mapFirstPage (booted, fun _ => none))

def mappedTwice : MmapState × Origin := evaluate (filed mapFirstPage mappedOnce)

/-- The first page of a file is mapped twice.  The second mapping comes to lie right below the
first, and the two are merged: the upper page is now said to be the second of the file. -/
theorem mappedTwice_wrong :
    Reach (originSystem geo512) mappedTwice ∧ mappedTwice.2 0x7fffdfd000 = some ("/data", 0) ∧
      ∃ r ∈ mappedTwice.1.busy, r.ofMonitor = false ∧ r.start ≤ 0x7fffdfd000 ∧
        0x7fffdfd000 < r.stop ∧ r.origin 0x7fffdfd000 = some ("/data", 0x1000) := by
  have hsized : ∀ s, s.mem.tbrk = 0x7fffdfe000 ∨ s.mem.tbrk = 0x7fffdfd000 →
      MmapOp.Served geo512 s mapFirstPage := by
    intro s ht _
    refine ⟨⟨by decide, .inr ⟨?_, ?_⟩⟩, .inr ?_⟩ <;> rcases ht with ht | ht <;> rw [ht] <;> decide
  have hinit : (originSystem geo512).init (booted, fun _ => none) := ⟨booted_init, rfl⟩
  have hone : Reach (originSystem geo512) mappedOnce :=
    Reach.step (Reach.init hinit)
      (filed_step mapFirstPage trivial (hsized booted (.inl (by decide +kernel)))
        eq_eval)
  have htwo : Reach (originSystem geo512) mappedTwice :=
    Reach.step hone
      (filed_step mapFirstPage trivial (hsized mappedOnce.1 (.inr (by decide +kernel)))
        eq_eval)
  exact ⟨htwo, by decide +kernel, by decide +kernel⟩

def middle : MmapState × Origin := evaluate (filed mapMiddle (booted, fun _ => none))

def middleCut : MmapState × Origin := evaluate (filed closeLower middle)

/-- A mapping of a file that was cut by `mprotect`. -/
theorem file_offsets_right_cut : FilesRight middleCut.2 middleCut.1.busy ∧
      (middleCut.1.busy.filter fun r => r.filename = some "/data").map (fun r => (r.start, r.offset)) =
        [(0x7fffdfc000, 0x3000), (0x7fffdfd000, 0x4000)] := by
  have hserved : MmapOp.Served geo512 booted mapMiddle := fun _ =>
    ⟨⟨by decide, .inr ⟨by decide +kernel, by decide +kernel⟩⟩, .inr (by decide +kernel)⟩
  have htwin : ∀ r ∈ booted.busy, r.filename ≠ some "/data" := by decide +kernel
  have hinit : (keepingSystem geo512).init (booted, fun _ => none) := ⟨booted_init, rfl⟩
  have hone : Reach (keepingSystem geo512) middle :=
    Reach.step (.init hinit) ⟨filed_step mapMiddle trivial hserved eq_eval,
      fun r hr _ _ hname => absurd hname (htwin r hr)⟩
  have hlone : Lone (rangeReg 0x7fffdfc000 (roundup 0x1000 kmPageSize) protNone false)
      middle.1.busy := by
    unfold Lone
    decide +kernel
  have htwo : Reach (keepingSystem geo512) middleCut :=
    Reach.step hone ⟨filed_step closeLower trivial trivial eq_eval, hlone⟩
  exact ⟨file_offsets_right geo512 htwo, by decide +kernel⟩

end KontainMonitor.Mmap
