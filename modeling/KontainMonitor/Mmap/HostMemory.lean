import KontainMonitor.Mem.Plugs
import KontainMonitor.Mmap.GuestMmap

/-!
# HostMemory — what guest memory holds

The monitor never writes to guest memory itself, except for one copy in `mremap`: all it does is to
ask the host for mappings.  The calls are in a log, so what memory holds after a request is what
replaying the new part of the log over the memory before it gives.  What a request does to a byte
depends on the label of its page.
-/

namespace KontainMonitor.Mmap

open Intervals List Mem

/-! ## Memory -/

/-- A byte of the monitor's address space and its mapping.  `base` is what a private mapping has
again after `MADV_DONTNEED`. -/
structure Cell where
  byte : UInt8
  base : UInt8
  shared : Bool
  prot : BitVec 32
  deriving DecidableEq, Repr

abbrev HostMem := Nat → Cell

/-- What the open files of the monitor hold, by host fd and offset. -/
abbrev FileData := Int → Int → UInt8

def Cell.protect (c : Cell) (prot : BitVec 32) : Cell := { c with prot := prot }

/-- `MADV_DONTNEED` drops the pages of a private mapping. -/
def Cell.dontneed (c : Cell) : Cell := if c.shared then c else { c with byte := c.base }

/-- A byte of a new mapping. -/
def Cell.mapped (content : UInt8) (flags prot : BitVec 32) : Cell :=
  { byte := content, base := content, shared := flags &&& mapShared ≠ 0, prot := prot }

/-- Anonymous memory is zero, other memory is what the file has. -/
def mapContent (file : FileData) (flags : BitVec 32) (fd offset : Int) : UInt8 :=
  if flags &&& mapAnonymous = mapAnonymous then 0 else file fd offset

def HostMem.exec (file : FileData) (m : HostMem) : HostCall → HostMem
  | .mmap addr len prot flags fd offset => fun x =>
    if addr ≤ x ∧ x < addr + len then
      Cell.mapped (mapContent file flags fd (offset + ((x - addr : Nat) : Int))) flags prot
    else m x
  | .munmap addr len => fun x =>
    if addr ≤ x ∧ x < addr + len then Cell.mapped 0 mapPrivate protNone else m x
  | .mprotect addr len prot => fun x =>
    if addr ≤ x ∧ x < addr + len then (m x).protect prot else m x
  | .madvise addr len advice => fun x =>
    if (addr ≤ x ∧ x < addr + len) ∧ advice = madvDontneed then (m x).dontneed else m x
  | .memcpy dst src len => fun x =>
    if dst ≤ x ∧ x < dst + len then { m x with byte := (m (src + (x - dst))).byte } else m x
  | _ => m

/-- Whether the host does what it is asked to.  The memory of a slot is mapped without `MAP_FIXED`,
and that answer is not one of `ok`: a slot without memory is not used. -/
def Host.carriesOut (h : Host) (n : Nat) : HostCall → Bool
  | .mmap addr len prot flags fd offset =>
    flags &&& mapFixed ≠ mapFixed ∨ (wellFormedCall (.mmap addr len prot flags fd offset) ∧
      h.ok n (.mmap addr len prot flags fd offset))
  | .mprotect addr len prot =>
    wellFormedCall (.mprotect addr len prot) ∧ h.ok n (.mprotect addr len prot)
  | .madvise addr len advice =>
    wellFormedCall (.madvise addr len advice) ∧ h.ok n (.madvise addr len advice)
  | _ => true

/-- The memory after the calls `cs`, the most recent one first, of which the earliest one is the
`n`-th of the monitor. -/
def replay (h : Host) (file : FileData) (n : Nat) : List HostCall → HostMem → HostMem
  | [], m => m
  | c :: cs, m =>
    if h.carriesOut (n + cs.length) c then HostMem.exec file (replay h file n cs m) c
    else replay h file n cs m

/-! ## Copies -/

def readable (prot : BitVec 32) : Prop := prot &&& (protRead ||| protWrite ||| protExec) ≠ 0

def writable (prot : BitVec 32) : Prop := prot &&& protWrite ≠ 0

/-- The monitor may do a copy if the host lets it read the source and write the target. -/
def HostMem.Permits (m : HostMem) : HostCall → Prop
  | .memcpy dst src len => ∀ k, k < len → readable (m (src + k)).prot ∧ writable (m (dst + k)).prot
  | _ => True

/-- Every copy among the calls `cs` is allowed when it is made. -/
def Permitted (h : Host) (file : FileData) (n : Nat) : List HostCall → HostMem → Prop
  | [], _ => True
  | c :: cs, m => Permitted h file n cs m ∧ (replay h file n cs m).Permits c

/-- Between two logs the memory went from `m` to `m'`; a copy that is not allowed ends the monitor. -/
def HostRun (h : Host) (file : FileData) (log : List HostCall) (m : HostMem) (log' : List HostCall)
    (m' : HostMem) : Prop :=
  ∃ cs, log' = cs ++ log ∧ m' = replay h file log.length cs m ∧ Permitted h file log.length cs m

abbrev HostRuns (h : Host) (file : FileData) (s : MmapState) (m : HostMem) (s' : MmapState)
    (m' : HostMem) : Prop :=
  HostRun h file s.mem.hostCalls m s'.mem.hostCalls m'

variable {c : HostCall}

section

variable {h : Host} {file : FileData} {log log' log'' : List HostCall} {m m' m'' : HostMem}
variable {cs : List HostCall}

theorem replay_append (n : Nat) (cs ds : List HostCall) :
    replay h file n (ds ++ cs) m = replay h file (n + cs.length) ds (replay h file n cs m) := by
  induction ds with
  | nil => rfl
  | cons d ds ih =>
    have hlen : n + (ds ++ cs).length = n + cs.length + ds.length := by
      rw [length_append]
      omega
    rw [cons_append, replay, replay, ih, hlen]

theorem permitted_append (n : Nat) (cs ds : List HostCall) :
    Permitted h file n (ds ++ cs) m ↔ Permitted h file n cs m ∧
      Permitted h file (n + cs.length) ds (replay h file n cs m) := by
  induction ds with
  | nil => simp [Permitted]
  | cons d ds ih => rw [cons_append, Permitted, Permitted, ih, replay_append, and_assoc]

theorem HostRun.refl (h : Host) (file : FileData) (log : List HostCall) (m : HostMem) :
    HostRun h file log m log m :=
  ⟨[], rfl, rfl, trivial⟩

theorem HostRun.trans (h₁ : HostRun h file log m log' m') (h₂ : HostRun h file log' m' log'' m'') :
    HostRun h file log m log'' m'' := by
  obtain ⟨cs, hlog', hm', hcs⟩ := h₁
  obtain ⟨ds, hlog'', hm'', hds⟩ := h₂
  have hlen : log'.length = log.length + cs.length := by
    rw [hlog', length_append, add_comm]
  rw [hlen, hm'] at hm'' hds
  exact ⟨ds ++ cs, by rw [hlog'', hlog', append_assoc], by rw [hm'', replay_append],
    (permitted_append _ _ _).2 ⟨hcs, hds⟩⟩

/-- One call. -/
theorem HostRun.call (hc : m.Permits c) :
    HostRun h file log m (c :: log) (if h.carriesOut log.length c then m.exec file c else m) :=
  ⟨[c], rfl, rfl, trivial, hc⟩

/-- The logs determine what memory holds. -/
theorem HostRun.unique (h₁ : HostRun h file log m log' m') (h₂ : HostRun h file log m log' m'') :
    m'' = m' := by
  obtain ⟨cs, hcs, rfl, -⟩ := h₁
  obtain ⟨ds, hds, rfl, -⟩ := h₂
  rw [append_cancel_right (hds.symm.trans hcs)]

/-- A run goes through every log on its way. -/
theorem HostRun.split {ds : List HostCall} (hrun : HostRun h file log m (ds ++ (cs ++ log)) m'') :
    ∃ m', HostRun h file log m (cs ++ log) m' ∧ HostRun h file (cs ++ log) m' (ds ++ (cs ++ log)) m'' := by
  obtain ⟨es, hlog, rfl, hes⟩ := hrun
  obtain rfl : es = ds ++ cs := by
    rw [← append_assoc] at hlog
    exact (append_cancel_right hlog).symm
  have hlen : (cs ++ log).length = log.length + cs.length := by
    rw [length_append, add_comm]
  rw [permitted_append] at hes
  refine ⟨replay h file log.length cs m, ⟨cs, rfl, rfl, hes.1⟩, ds, rfl, ?_, ?_⟩
  · rw [hlen, replay_append]
  rw [hlen]
  exact hes.2

def newCalls (log log' : List HostCall) : List HostCall := log'.take (log'.length - log.length)

def HostCall.copies : HostCall → Bool
  | .memcpy _ _ _ => true
  | _ => false

theorem permitted_of_no_copy {n : Nat} (hcs : ∀ c ∈ cs, HostCall.copies c = false) :
    Permitted h file n cs m := by
  induction cs with
  | nil => trivial
  | cons c cs ih =>
    refine ⟨ih fun d hd => hcs d (.tail _ hd), ?_⟩
    have hc := hcs c (.head _)
    cases c with
    | memcpy dst src len => cases hc
    | _ => trivial

end

/-! ## Guest addresses -/

def kmaOf (g : Geometry) (a : Nat) : Nat := g.kmUserMemBase + (a - g.guestVaOffset)

def Zone (g : Geometry) (a : Nat) : Prop := g.guestVaOffset < a ∧ a < guestMemTopVa

section

variable {g : Geometry} {a lo size : Nat}

theorem kmaOf_range (ha : g.guestVaOffset < a) (hlo : g.guestVaOffset < lo) :
    (kmaOf g lo ≤ kmaOf g a ∧ kmaOf g a < kmaOf g lo + size) ↔ lo ≤ a ∧ a < lo + size := by
  simp only [kmaOf]
  omega

theorem ite_kmaOf {α : Type} (ha : g.guestVaOffset < a) (hlo : g.guestVaOffset < lo) (x y : α) :
    (if kmaOf g lo ≤ kmaOf g a ∧ kmaOf g a < kmaOf g lo + size then x else y) =
      if lo ≤ a ∧ a < lo + size then x else y :=
  if_congr (kmaOf_range ha hlo) rfl rfl

theorem kmaOf_sub (hlo : g.guestVaOffset < lo) (hle : lo ≤ a) : kmaOf g a - kmaOf g lo = a - lo := by
  simp only [kmaOf]
  omega

theorem kmGvaToKmaNocheck_zone (mem : MemState) (ha : Zone g a) :
    kmGvaToKmaNocheck g mem a = kmaOf g a := by
  have hconsts := layout_consts
  obtain ⟨hlo, hhi⟩ := ha
  have hno1 : ¬ kmVdsoGva mem a := by
    simp only [kmVdsoGva]
    omega
  have hno2 : ¬ kmGuestmemGva mem a := by
    simp only [kmGuestmemGva]
    omega
  rw [kmGvaToKmaNocheck, if_neg hno1, if_neg hno2, gvaToGpaNocheck, if_pos hlo, kmaOf]

theorem kmGvaToKma_zone {mem : MemState} (hm : MemInv g mem) (hlo : mem.tbrk ≤ a)
    (hhi : a < guestMemTopVa) : kmGvaToKma g mem a = some (kmaOf g a) := by
  have hoff : g.guestVaOffset < a := lt_of_lt_of_le hm.tbrk_lo hlo
  rw [kmGvaToKma_guestAddr hm (.inr ⟨hlo, hhi⟩), gvaToGpaNocheck, if_pos hoff, kmaOf]

end

/-! ## Slots -/

/-- What may happen to a byte that no mapping has: it never becomes shared, and only zeroes come up
from below. -/
structure Tame (c c' : Cell) : Prop where
  shared : c'.shared → c.shared
  base : c'.base = c.base ∨ c'.base = 0

theorem Tame.refl (c : Cell) : Tame c c := ⟨id, .inl rfl⟩

theorem Tame.trans {c1 c2 c3 : Cell} (h₁ : Tame c1 c2) (h₂ : Tame c2 c3) : Tame c1 c3 := by
  refine ⟨fun hs => h₁.shared (h₂.shared hs), ?_⟩
  rcases h₂.base with h | h
  · rw [h]
    exact h₁.base
  · exact .inr h

theorem Tame.protect (c : Cell) (prot : BitVec 32) : Tame c (c.protect prot) := ⟨id, .inl rfl⟩

theorem Tame.mapped (c : Cell) {flags : BitVec 32} (prot : BitVec 32) (hflags : flags &&& mapShared = 0) :
    Tame c (Cell.mapped 0 flags prot) :=
  ⟨fun hs => by simp [Cell.mapped, hflags] at hs, .inr rfl⟩

section

variable {g : Geometry} {mem mem' : MemState} {S : Int → Prop} {lim : Nat}

/-- The calls of a plugging only touch what is below the limit, and leave private zeroes there. -/
theorem plugCall_exec (h : Host) (file : FileData) (m : HostMem) (n : Nat) (hc : PlugCall S lim c) :
    m.Permits c ∧ (∀ x, Tame (m x) ((if h.carriesOut n c then m.exec file c else m) x)) ∧
      ∀ x, lim ≤ x → (if h.carriesOut n c then m.exec file c else m) x = m x := by
  cases c with
  | mmap addr len prot flags fd offset =>
    obtain ⟨-, -, hshared, hanon, hlim⟩ := hc
    refine ⟨trivial, fun x => ?_, fun x hx => ?_⟩
    · split
      · simp only [HostMem.exec, mapContent, if_pos hanon]
        split
        · exact .mapped _ _ hshared
        · exact .refl _
      · exact .refl _
    split
    · simp only [HostMem.exec]
      rw [if_neg (by omega)]
    · rfl
  | munmap addr len =>
    simp only [PlugCall] at hc
    refine ⟨trivial, fun x => ?_, fun x hx => ?_⟩
    · split
      · simp only [HostMem.exec]
        split
        · exact .mapped _ _ (by decide)
        · exact .refl _
      · exact .refl _
    split
    · simp only [HostMem.exec]
      rw [if_neg (by omega)]
    · rfl
  | mprotect addr len prot =>
    simp only [PlugCall] at hc
    refine ⟨trivial, fun x => ?_, fun x hx => ?_⟩
    · split
      · simp only [HostMem.exec]
        split
        · exact .protect _ _
        · exact .refl _
      · exact .refl _
    split
    · simp only [HostMem.exec]
      rw [if_neg (by omega)]
    · rfl
  | setUserMemoryRegion reg =>
    refine ⟨trivial, fun x => ?_, fun x _ => ?_⟩
    · split <;> exact .refl _
    · split <;> rfl
  | madvise | msync | memcpy | calloc => exact hc.elim

theorem plugging_cells (hp : Plugging g S lim mem mem') (h : Host) (file : FileData) (m : HostMem) :
    ∃ m', HostRun h file mem.hostCalls m mem'.hostCalls m' ∧ (∀ x, Tame (m x) (m' x)) ∧
      ∀ x, g.kmUserMemBase + lim ≤ x → m' x = m x := by
  obtain ⟨cs, hcs, hall⟩ := hp.calls
  rw [hcs]
  clear hcs
  induction cs with
  | nil => exact ⟨m, .refl _ _ _ _, fun x => .refl _, fun _ _ => rfl⟩
  | cons c cs ih =>
    obtain ⟨m1, hrun, htame, hsame⟩ := ih fun d hd => hall d (.tail _ hd)
    obtain ⟨hok, htame', hsame'⟩ := plugCall_exec h file m1
      (cs ++ mem.hostCalls).length (hall c (.head _))
    exact ⟨_, hrun.trans (.call hok), fun x => (htame x).trans (htame' x),
      fun x hx => (hsame' x hx).trans (hsame x hx)⟩

end

/-! ## Regions -/

/-- A host that lets the monitor change the protection of guest memory, drop pages of it, and make
it private without access. -/
structure Host.Steady (h : Host) : Prop where
  mprotect : ∀ n addr len prot, h.ok n (.mprotect addr len prot)
  madvise : ∀ n addr len advice, h.ok n (.madvise addr len advice)
  unshare : ∀ n addr len flags, flags &&& mapShared = 0 →
    flags &&& mapAnonymous = mapAnonymous → h.ok n (.mmap addr len protNone flags (-1) 0)

/-- Pages of a label are dropped when they get a protection. -/
def Label.Dirty (x : Label) : Prop :=
  x.protection ≠ protNone ∧ x.kmFlags.clean = false ∧ x.filename = none

instance (x : Label) : Decidable x.Dirty := inferInstanceAs (Decidable (_ ∧ _))

/-- `km_reg_make_clean` on a byte of a region with label `x`. -/
def Label.wiped (x : Label) (c : Cell) : Cell := if x.Dirty then c.dontneed else c

/-- `km_mmap_mprotect_region` on a byte of a region with label `x`. -/
def Label.treated (x : Label) (c : Cell) : Cell := x.wiped (c.protect (protectionAdjust x.protection))

theorem Tame.wiped (x : Label) (c : Cell) : Tame c (x.wiped c) := by
  simp only [Label.wiped, Cell.dontneed]
  split
  · split
    · exact .refl c
    · exact ⟨id, .inl rfl⟩
  · exact .refl c

section

variable {g : Geometry} {h : Host} {s s' : MmapState} {reg : Reg} {t : Nat}
variable {busy : List Reg}
variable {alloc : Int → AllocOutcome} {arg r : Nat}

theorem InZone.zone (hz : InZone t reg) (hlo : g.guestVaOffset < t) : Zone g reg.start := by
  have h1 := hz.lower
  have h2 := hz.upper
  have h3 := hz.start_lt_stop
  exact ⟨by omega, by omega⟩

theorem InZone.size_le (hz : InZone t reg) : reg.size ≤ maxRange := by
  have hconsts := layout_consts
  have hmax : maxRange = 140737488355328 := by decide
  have h1 := hz.upper
  simp only [Reg.stop] at h1
  omega

theorem kmRegMakeClean_cells (hh : h.Steady) (hz : InZone t reg) (hlo : g.guestVaOffset < t)
    (s : MmapState) (file : FileData) (m : HostMem) :
    ∃ m', HostRun h file s.mem.hostCalls m (kmRegMakeClean g s reg).1.mem.hostCalls m' ∧
      ∀ a, Zone g a → m' (kmaOf g a) =
        if reg.start ≤ a ∧ a < reg.stop then reg.label.wiped (m (kmaOf g a)) else m (kmaOf g a) := by
  simp only [kmRegMakeClean]
  split
  next hdirty =>
    have hdirty' : reg.label.Dirty := hdirty
    have hstart := hz.zone hlo
    rw [kmGvaToKmaNocheck_zone s.mem hstart]
    refine ⟨_, .call trivial, fun a ha => ?_⟩
    have hdone : h.carriesOut s.mem.hostCalls.length
        (.madvise (kmaOf g reg.start) reg.size madvDontneed) := by
      simp [Host.carriesOut, wellFormedCall, hh.madvise, hz.size_le]
    rw [if_pos hdone]
    simp only [HostMem.exec, kmaOf_range ha.1 hstart.1, and_true, Label.wiped, if_pos hdirty',
      Reg.stop]
  next hclean =>
    have hclean' : ¬ reg.label.Dirty := hclean
    refine ⟨m, .refl _ _ _ _, fun a _ => ?_⟩
    simp only [Label.wiped, if_neg hclean', ite_self]

theorem kmMmapMprotectRegion_cells (hh : h.Steady) (hpart : reg.kmFlags.partOfMonitor = false)
    (hz : InZone t reg) (hlo : g.guestVaOffset < t) (s : MmapState) (file : FileData) (m : HostMem) :
    ∃ m', HostRun h file s.mem.hostCalls m (kmMmapMprotectRegion g s reg).1.mem.hostCalls m' ∧
      ∀ a, Zone g a → m' (kmaOf g a) =
        if reg.start ≤ a ∧ a < reg.stop then reg.label.treated (m (kmaOf g a))
        else m (kmaOf g a) := by
  have hstart := hz.zone hlo
  have hnocheck := kmGvaToKmaNocheck_zone s.mem hstart
  have hdone : h.carriesOut s.mem.hostCalls.length
      (.mprotect (kmaOf g reg.start) reg.size (protectionAdjust reg.protection)) := by
    simp [Host.carriesOut, wellFormedCall, hh.mprotect, hz.size_le]
  have hcall : HostRun h file s.mem.hostCalls m (s.call (.mprotect (kmaOf g reg.start) reg.size
        (protectionAdjust reg.protection))).mem.hostCalls
      (m.exec file (.mprotect (kmaOf g reg.start) reg.size (protectionAdjust reg.protection))) := by
    have hrun : HostRun h file s.mem.hostCalls m _ _ := .call (c := .mprotect
      (kmaOf g reg.start) reg.size (protectionAdjust reg.protection)) trivial
    rw [if_pos hdone] at hrun
    exact hrun
  simp only [kmMmapMprotectRegion, hpart, Bool.false_eq_true, if_false, hnocheck]
  obtain ⟨m', hrun, hcells⟩ := kmRegMakeClean_cells hh hz hlo
    (s.call (.mprotect (kmaOf g reg.start) reg.size (protectionAdjust reg.protection))) file
    (m.exec file (.mprotect (kmaOf g reg.start) reg.size (protectionAdjust reg.protection)))
  refine ⟨m', hcall.trans hrun, fun a ha => ?_⟩
  have hcell : m.exec file (.mprotect (kmaOf g reg.start) reg.size
      (protectionAdjust reg.protection)) (kmaOf g a) = if reg.start ≤ a ∧ a < reg.stop then
        (m (kmaOf g a)).protect (protectionAdjust reg.protection) else m (kmaOf g a) :=
    ite_kmaOf ha.1 hstart.1 _ _
  rw [hcells a ha, hcell]
  split
  · rfl
  · rfl

/-! ## Freeing -/

/-- Bytes that a busy region has stay as they are, others may go through `Tame` changes. -/
def Settles (g : Geometry) (busy : List Reg) (m m' : HostMem) : Prop :=
  ∀ a, Zone g a → Tame (m (kmaOf g a)) (m' (kmaOf g a)) ∧
    (Mapped busy a → m' (kmaOf g a) = m (kmaOf g a))

theorem Settles.refl (busy : List Reg) (m : HostMem) : Settles g busy m m :=
  fun _ _ => ⟨.refl _, fun _ => rfl⟩

theorem Settles.trans {m1 m2 m3 : HostMem} (h₁ : Settles g busy m1 m2) (h₂ : Settles g busy m2 m3) :
    Settles g busy m1 m3 := by
  intro a ha
  obtain ⟨ht1, hs1⟩ := h₁ a ha
  obtain ⟨ht2, hs2⟩ := h₂ a ha
  exact ⟨ht1.trans ht2, fun hb => (hs2 hb).trans (hs1 hb)⟩

/-! ### The breaks -/

/-- Moving `tbrk` changes nothing above both of its positions. -/
theorem kmMemTbrk_cells {mem mem' : MemState} (hm : MemInv g mem) (harg : arg ≠ g.guestVaOffset)
    (hr : kmMemTbrk g alloc mem arg = some (mem', r)) (h : Host) (file : FileData) (m : HostMem) :
    ∃ m', HostRun h file mem.hostCalls m mem'.hostCalls m' ∧ ∀ a, Zone g a →
      Tame (m (kmaOf g a)) (m' (kmaOf g a)) ∧
      (mem.tbrk ≤ a → mem'.tbrk ≤ a → m' (kmaOf g a) = m (kmaOf g a)) := by
  obtain ⟨m', hrun, htame, hsame⟩ := plugging_cells (kmMemTbrk_plugging hm harg hr) h file m
  refine ⟨m', hrun, fun a ha => ⟨htame _, fun hlo hlo' => hsame _ ?_⟩⟩
  simp only [kmaOf, MemState.tbrkPa]
  omega

/-- Moving `brk` changes nothing above `tbrk`. -/
theorem kmMemBrk_cells {mem mem' : MemState} (hm : MemInv g mem)
    (harg : arg = 0 ∨ guestMemStartVa ≤ arg) (hr : kmMemBrk g alloc mem arg = some (mem', r))
    (h : Host) (file : FileData) (m : HostMem) :
    ∃ m', HostRun h file mem.hostCalls m mem'.hostCalls m' ∧ ∀ a, Zone g a →
      Tame (m (kmaOf g a)) (m' (kmaOf g a)) ∧ (mem.tbrk ≤ a → m' (kmaOf g a) = m (kmaOf g a)) := by
  obtain ⟨m', hrun, htame, hsame⟩ := plugging_cells (kmMemBrk_plugging hm harg hr) h file m
  refine ⟨m', hrun, fun a ha => ⟨htame _, fun hlo => hsame _ ?_⟩⟩
  simp only [kmaOf, MemState.tbrkPa]
  omega

theorem settleFree_cells {p : Pos} (hm : MemInv g s.mem) (hz : InZone s.mem.tbrk p.reg)
    (hr : settleFree g h s p = some s') (file : FileData) (m : HostMem) :
    ∃ m', HostRuns h file s m s' m' ∧ ∀ a, Zone g a → Tame (m (kmaOf g a)) (m' (kmaOf g a)) ∧
      (s'.mem.tbrk ≤ a → m' (kmaOf g a) = m (kmaOf g a)) := by
  simp only [settleFree] at hr
  split at hr
  · simp only [do_eq_some, return_eq_some] at hr
    rcases hr with ⟨⟨mem, r⟩, htbrk, rfl⟩
    have hlo := hm.tbrk_lo
    have hlt := hz.start_lt_stop
    rw [Reg.fin_eq hz.no_wrap] at htbrk
    have hbreaks : BreaksOk g s.mem := hm.breaks
    obtain ⟨-, hup⟩ := kmMemTbrk_up hbreaks (by omega) hz.upper htbrk
    obtain ⟨m', hrun, hcells⟩ := kmMemTbrk_cells hm (by omega) htbrk h file m
    refine ⟨m', hrun, fun a ha => ⟨(hcells a ha).1, fun hle => ?_⟩⟩
    simp only at hle
    exact (hcells a ha).2 (by omega) hle
  cases hr
  exact ⟨m, .refl _ _ _ _, fun a _ => ⟨.refl _, fun _ => rfl⟩⟩

theorem kmMmapInsertFree_cells (hh : h.Steady) (hs : Holed g s busy reg.start reg.stop)
    (hm : MemInv g s.mem) (hz : InZone s.mem.tbrk reg) (hpayload : reg.ofMonitor = false)
    (hr : kmMmapInsertFree g h s reg = some s') (file : FileData) (m : HostMem) :
    ∃ m', HostRuns h file s m s' m' ∧ Settles g busy m m' := by
  have hz' : InZone s.mem.tbrk reg.cleared := hz.sized rfl rfl
  have hpart : reg.cleared.kmFlags.partOfMonitor = false := Reg.payload_part hpayload
  have hwhole := (kmMmapInsertFree_inv hs hz hpayload hr).1
  obtain ⟨p, hzone, hr⟩ := kmMmapInsertFree_settled hs hz hpayload hr
  have hlogged := kmMmapMprotectRegion_logged g s reg.cleared
  obtain ⟨m1, hrun1, hcells1⟩ := kmMmapMprotectRegion_cells hh hpart hz' hm.tbrk_lo s file m
  obtain ⟨m', hrun, hcells⟩ := settleFree_cells (hlogged.memInv hm) hzone hr file m1
  refine ⟨m', hrun1.trans hrun, fun a ha => ?_⟩
  obtain ⟨htame, hkeep⟩ := hcells a ha
  have hfirst := hcells1 a ha
  constructor
  · refine .trans ?_ htame
    rw [hfirst]
    split
    · exact (Tame.protect _ _).trans (.wiped _ _)
    · exact .refl _
  -- a busy byte is outside of the hole, and above `tbrk`
  intro hbusy
  have hout : ¬ (reg.start ≤ a ∧ a < reg.stop) := by
    have hle := hs.tiled a
    intro hin
    have hlow := hz.lower
    exact ((hle (by omega) ha.2).1 hbusy).2 hin
  rw [hkeep (hwhole.tbrk_le_of_mapped hbusy), hfirst]
  exact if_neg hout

/-- A byte of a region that is freed. -/
structure Released (x : Label) (c c' : Cell) : Prop extends Tame c c' where
  unshared : x.flags &&& mapShared ≠ 0 ∨ x.filename ≠ none → c'.shared = false

theorem unshared_flags (flags : BitVec 32) :
    (((flags &&& ~~~mapShared) ||| mapPrivate ||| mapAnonymous) ||| mapFixed) &&& mapShared = 0 ∧
      (((flags &&& ~~~mapShared) ||| mapPrivate ||| mapAnonymous) ||| mapFixed) &&& mapAnonymous =
        mapAnonymous := by
  have hmask : (mapPrivate ||| mapAnonymous ||| mapFixed) &&& mapShared = 0 := by decide
  have hanon : (mapPrivate ||| mapAnonymous ||| mapFixed) &&& mapAnonymous = mapAnonymous := by decide
  rw [BitVec.or_assoc, BitVec.or_assoc, ← BitVec.or_assoc mapPrivate]
  generalize mapPrivate ||| mapAnonymous ||| mapFixed = added at hmask hanon
  constructor
  · ext i hi
    have hbit := congrArg (fun b : BitVec 32 => b[i]) hmask
    simp only [BitVec.getElem_and, BitVec.getElem_or, BitVec.getElem_not] at hbit ⊢
    rw [← hbit]
    cases flags[i] <;> cases mapShared[i] <;> cases added[i] <;> rfl
  ext i hi
  have hbit := congrArg (fun b : BitVec 32 => b[i]) hanon
  simp only [BitVec.getElem_and, BitVec.getElem_or, BitVec.getElem_not] at hbit ⊢
  rw [← hbit]
  cases flags[i] <;> cases mapShared[i] <;> cases mapAnonymous[i] <;> cases added[i] <;> rfl

/-- Only shared memory and the memory of files is replaced; the rest stays as it is until somebody
else gets it. -/
theorem kmMmapMoveToFree_cells (hh : h.Steady) (hs : Holed g s busy reg.start reg.stop)
    (hm : MemInv g s.mem) (hz : InZone s.mem.tbrk reg) (hpayload : reg.ofMonitor = false)
    (hprot : reg.protection = protNone) (hr : kmMmapMoveToFree g h s reg = some s')
    (file : FileData) (m : HostMem) : ∃ m', HostRuns h file s m s' m' ∧ Settles g busy m m' ∧
      ∀ a, reg.start ≤ a → a < reg.stop → Released reg.label (m (kmaOf g a)) (m' (kmaOf g a)) := by
  have hlt := hz.start_lt_stop
  have hlo := hz.lower
  have hhi := hz.upper
  have hoff := hm.tbrk_lo
  have hzone : ∀ a, reg.start ≤ a → a < reg.stop → Zone g a := fun a h1 h2 => ⟨by omega, by omega⟩
  simp only [kmMmapMoveToFree] at hr
  split at hr
  next hconv =>
    have hkma := kmGvaToKma_zone hm hlo (by omega)
    have hstart := hz.zone hoff
    obtain ⟨hshared, hanon⟩ := unshared_flags reg.flags
    rw [hkma, Option.getD_some, hprot] at hr
    generalize hc : HostCall.mmap (kmaOf g reg.start) reg.size protNone
      (((reg.flags &&& ~~~mapShared) ||| mapPrivate ||| mapAnonymous) ||| mapFixed) (-1) 0 = c at hr
    have hs1 : Holed g (s.call c) busy reg.start reg.stop := hs.quiet (.call s c)
    have hm1 : MemInv g (s.call c).mem := (Logged.call s c).memInv hm
    -- the host's answer changes the flags only, and these are cleared
    have hins : ∃ reg', kmMmapInsertFree g h (s.call c) reg' = some s' ∧ reg'.start = reg.start ∧
        reg'.size = reg.size ∧ reg'.ofMonitor = false := by
      split at hr
      · exact ⟨_, hr, rfl, rfl, hpayload⟩
      · exact ⟨_, hr, rfl, rfl, hpayload⟩
    rcases hins with ⟨reg', hr', hstart', hsize', hpay'⟩
    have hstop' : reg'.stop = reg.stop := by rw [Reg.stop, Reg.stop, hstart', hsize']
    have hz' : InZone (s.call c).mem.tbrk reg' :=
      ⟨hstart' ▸ hz.start_page, hsize' ▸ hz.size_page, hsize' ▸ hz.nonempty, hstart' ▸ hlo,
        hstop' ▸ hhi⟩
    have hs1' : Holed g (s.call c) busy reg'.start reg'.stop := by
      rw [hstart', hstop']
      exact hs1
    have hdone : h.carriesOut s.mem.hostCalls.length c := by
      have hpage : kmaOf g reg.start % kmPageSize = 0 := (kmGvaToKma_page hkma).2 hz.start_page
      have hpos : reg.size ≠ 0 := Nat.pos_iff_ne_zero.1 hz.nonempty
      rw [← hc]
      simp [Host.carriesOut, wellFormedCall, hpage, hpos,
        hh.unshare _ _ _ _ hshared hanon]
    have hrun1 : HostRun h file s.mem.hostCalls m (s.call c).mem.hostCalls (m.exec file c) := by
      have hrun : HostRun h file s.mem.hostCalls m (c :: s.mem.hostCalls) _ :=
        HostRun.call (by rw [← hc]; trivial)
      rw [if_pos hdone] at hrun
      exact hrun
    have hcell : ∀ a, Zone g a → m.exec file c (kmaOf g a) =
        if reg.start ≤ a ∧ a < reg.stop then Cell.mapped 0
          (((reg.flags &&& ~~~mapShared) ||| mapPrivate ||| mapAnonymous) ||| mapFixed) protNone
        else m (kmaOf g a) := by
      intro a ha
      rw [← hc]
      simp only [HostMem.exec, mapContent, if_pos hanon]
      exact ite_kmaOf ha.1 hstart.1 _ _
    obtain ⟨m', hrun, hsettle⟩ := kmMmapInsertFree_cells hh hs1' hm1 hz' hpay' hr' file (m.exec file c)
    refine ⟨m', hrun1.trans hrun, fun a ha => ?_, fun a h1 h2 => ?_⟩
    · obtain ⟨htame, hkeep⟩ := hsettle a ha
      rw [hcell a ha] at htame hkeep
      constructor
      · refine .trans ?_ htame
        split
        · exact .mapped _ _ hshared
        · exact .refl _
      intro hbusy
      rw [hkeep hbusy, if_neg]
      intro hin
      exact ((hs.tiled a (by omega) ha.2).1 hbusy).2 hin
    have ha := hzone a h1 h2
    obtain ⟨htame, -⟩ := hsettle a ha
    rw [hcell a ha, if_pos ⟨h1, h2⟩] at htame
    refine ⟨(Tame.mapped _ _ hshared).trans htame, fun _ => ?_⟩
    by_contra hne
    have := htame.shared (by simpa using hne)
    simp [Cell.mapped, hshared] at this
  next hkeep =>
    obtain ⟨m', hrun, hsettle⟩ := kmMmapInsertFree_cells hh hs hm hz hpayload hr file m
    exact ⟨m', hrun, hsettle, fun a h1 h2 =>
      ⟨(hsettle a (hzone a h1 h2)).1, fun hconv => absurd hconv hkeep⟩⟩

end

end KontainMonitor.Mmap
