import KontainMonitor.Mmap.Laws

/-!
# World — the monitor, its memory and a payload that writes to it

The state is the monitor's bookkeeping, the host's memory and, for every byte of the payload, whether
the payload has written it since it was mapped.  A step is a call of the payload, or a write.
-/

namespace KontainMonitor.Mmap

open Function Intervals Label Mem Transition

/-! ## The system -/

structure World where
  mm : MmapState
  mem : HostMem
  written : Nat → Bool

inductive Input
  | call (h : Host) (file : FileData) (op : MmapOp)
  | write (a : Nat) (v : UInt8)

/-- Nothing is written in a new mapping. -/
def freshly (w : Nat → Bool) (addr size : Nat) : Nat → Bool :=
  fun a => if addr ≤ a ∧ a < addr + size then false else w a

/-- A mapping that is moved or resized takes along what was written in it. -/
def movedTo (w : Nat → Bool) (oldAddr oldSize addr size : Nat) : Nat → Bool :=
  fun a => if addr ≤ a ∧ a < addr + size then
      if a < addr + oldSize then w (oldAddr + (a - addr)) else false
    else w a

def MmapOp.written (g : Geometry) (h : Host) (s : MmapState) (w : Nat → Bool) : MmapOp → Nat → Bool
  | .mmap gva size prot flags fd offset =>
    match kmGuestMmap g h s gva size prot flags fd offset with
    | some (_, ret) => if isErrno ret then w else freshly w ret (roundup size kmPageSize)
    | none => w
  | .mmapSimple size =>
    match kmGuestMmapSimple g h s size with
    | some (_, ret) => if isErrno ret then w else freshly w ret (roundup size kmPageSize)
    | none => w
  | .mremap oldAddr oldSize size flags =>
    match kmGuestMremap g h s oldAddr oldSize size flags with
    | some (_, ret) => if isErrno ret then w
        else movedTo w oldAddr (roundup oldSize kmPageSize) ret (roundup size kmPageSize)
    | none => w
  | _ => w

def writtenIn (s : MmapState) (w : Nat → Bool) : Nat → Bool :=
  fun a => w a && (labelAt s.busy a).isSome

def World.write (g : Geometry) (w : World) (a : Nat) (v : UInt8) : World :=
  { w with
    mem := update w.mem (kmaOf g a) { w.mem (kmaOf g a) with byte := v }
    written := update w.written a true }

/-- Guest memory is private and anonymous at first.  A copy that is not permitted ends the monitor,
so it is no step.  The payload writes to pages that it may write to. -/
def worldSystem (g : Geometry) : System World Input where
  init w := (payloadSystem g).init w.mm ∧
    (∀ a, Zone g a → (w.mem (kmaOf g a)).shared = false ∧ (w.mem (kmaOf g a)).base = 0) ∧
    ∀ a, w.written a = false
  step w i w' :=
    match i with
    | .call h file op => (payloadSystem g).step w.mm (h, op) w'.mm ∧
        HostRun h file w.mm.mem.hostCalls w.mem w'.mm.mem.hostCalls w'.mem ∧
        w'.written = writtenIn w'.mm (op.written g h w.mm w.written)
    | .write a v => (∃ x, labelAt w.mm.busy a = some x ∧ x.ofMonitor = false ∧
        writable x.protection) ∧ w' = w.write g a v

/-- A request is served, calls that map into busy regions get their memory, and the host refuses
nothing that the monitor takes for granted. -/
def Input.Calm (g : Geometry) (w : World) : Input → Prop
  | .call h _ op => op.Served g w.mm ∧ (op.MapsIntoBusy → ∀ n, h.ok n .calloc) ∧ h.Steady
  | .write _ _ => True

def calmSystem (g : Geometry) : System World Input :=
  (worldSystem g).restrict fun w i _ => i.Calm g w

section

variable {g : Geometry} {h : Host} {s s' : MmapState} {size ret : Nat} {w : World}
variable {P Q : Nat → Option Label → Cell → Prop} {m : HostMem}
variable {a : Nat} {file : FileData} {prot flags : BitVec 32} {c : Cell}
variable {x y : Label} {gva k oldAddr oldSize : Nat} {hostfd : Int} {c' : Cell} {p : Pos}

theorem calmSystem_glued (hw : Reach (calmSystem g) w) : Reach (gluedSystem g) w.mm := by
  refine .inv (I := fun w : World => Reach (gluedSystem g) w.mm) ?_ ?_ hw
  · intro w hw
    exact .init hw.1
  rintro w i w' hreach ⟨hstep, hcalm⟩
  cases i with
  | call h file op => exact .step hreach ⟨⟨hstep.1, hcalm.1⟩, hcalm.2.1⟩
  | write a v =>
    obtain ⟨-, rfl⟩ := hstep
    exact hreach

/-! ## Writes -/

theorem kmaOf_inj {b : Nat} (hb : Zone g b) (heq : kmaOf g a = kmaOf g b) : a = b := by
  have h2 := hb.1
  simp only [kmaOf] at heq
  omega

/-- A mapping of the payload is in the zone. -/
theorem Sound.zone_of_mem {r : Reg} (hs : Sound g s s.busy) (hr : r ∈ s.busy)
    (hpay : r.ofMonitor = false) (hlo : r.start ≤ a) (hhi : a < r.stop) : Zone g a := by
  have hz := (hs.whole.busy_ok r hr).payload (Reg.payload_part hpay)
  have hupp := hz.upper
  have hlow := hz.lower
  have htbrk := hs.mem.tbrk_lo
  exact ⟨by omega, by omega⟩

theorem pages_of_write {v : UInt8} (hs : Sound g w.mm w.mm.busy) (hx : labelAt w.mm.busy a = some x)
    (hpay : x.ofMonitor = false) (hout : ∀ b y c, b ≠ a → P b y c → Q b y c)
    (hin : ∀ c, P a (some x) c → Q a (some x) { c with byte := v })
    (hm : Pages g P w.mm.busy w.mem) : Pages g Q (w.write g a v).mm.busy (w.write g a v).mem := by
  rcases labelAt_mem hx with ⟨r, hr, hlo, hhi, rfl⟩
  have ha := hs.zone_of_mem hr hpay hlo hhi
  intro b hb
  have hold := hm b hb
  simp only [World.write]
  by_cases heq : b = a
  · subst heq
    rw [update_self, hx]
    rw [hx] at hold
    exact hin _ hold
  rw [update_of_ne fun hkma => heq (kmaOf_inj ha hkma)]
  exact hout b _ _ heq hold

/-! ## Runs on fixed inputs -/

def World.after (g : Geometry) (h : Host) (file : FileData) (op : MmapOp) (w : World) :
    Option World :=
  (op.call g h w.mm).map fun s =>
    { mm := s
      mem := replay h file w.mm.mem.hostCalls.length
        (newCalls w.mm.mem.hostCalls s.mem.hostCalls) w.mem
      written := writtenIn s (op.written g h w.mm w.written) }

theorem World.after_step (h : Host) (op : MmapOp) {w' : World} (hpay : op.OfPayload)
    (hw : w.after g h file op = some w')
    (hlog : w'.mm.mem.hostCalls =
      newCalls w.mm.mem.hostCalls w'.mm.mem.hostCalls ++ w.mm.mem.hostCalls := by decide +kernel)
    (hcopy : ∀ c ∈ newCalls w.mm.mem.hostCalls w'.mm.mem.hostCalls, HostCall.copies c = false := by
      decide +kernel) : (worldSystem g).step w (.call h file op) w' := by
  simp only [World.after, Option.map_eq_some_iff] at hw
  rcases hw with ⟨s, hs, rfl⟩
  exact ⟨⟨hpay, hs⟩, ⟨_, hlog, rfl, permitted_of_no_copy hcopy⟩, rfl⟩

theorem World.write_step (a : Nat) (v : UInt8) (hmay : (labelAt w.mm.busy a).any fun x =>
      !x.ofMonitor && x.protection &&& protWrite != 0 := by decide +kernel) :
    (worldSystem g).step w (.write a v) (w.write g a v) := by
  rcases (Option.any_eq_true _ _).1 hmay with ⟨x, hx, hw⟩
  rw [Bool.and_eq_true, Bool.not_eq_true', bne_iff_ne] at hw
  exact ⟨⟨x, hx, hw⟩, rfl⟩

/-! ## Calls that make no mapping -/

/-- `brk`, `munmap` and `mprotect`. -/
def MmapOp.Plain : MmapOp → Prop
  | .brk _ | .munmap _ _ _ _ | .delayedMunmap _ | .mprotect _ _ _ => True
  | _ => False

/-- The range of a `mprotect` does not wrap. -/
def MmapOp.Straight : MmapOp → Prop
  | .mprotect addr size _ => addr + roundup size kmPageSize < 2 ^ 64
  | _ => True

theorem pages_of_plain {op : MmapOp} (hplain : op.Plain) (hh : h.Steady) (hP : PageLaw P)
    (hs : Sound g s s.busy) (hserved : op.Served g s)
    (hwrap : op.Straight ∨ ∀ a x c prot, P a x c → P a x (c.protect prot))
    (hr : op.call g h s = some s') (file : FileData) (hm : Pages g P s.busy m) :
    ∃ m', HostRuns h file s m s' m' ∧ Pages g P s'.busy m' := by
  cases op with
  | brk arg =>
    obtain ⟨⟨mem, ret⟩, hcall, rfl⟩ := Option.map_eq_some_iff.1 hr
    exact pages_of_brk hP hs hserved hcall file hm
  | mmapSimple | mmapSimpleMonitor | mmap | mremap => exact hplain.elim
  | munmap vcpu stackTop addr size =>
    obtain ⟨ret, hcall⟩ := map_fst_eq_some.1 hr
    exact pages_of_munmap hh hP hs hcall file hm
  | delayedMunmap vcpu => exact pages_of_delayedMunmap hh hP hs hr file hm
  | mprotect addr size prot =>
    obtain ⟨ret, hcall⟩ := map_fst_eq_some.1 hr
    exact pages_of_mprotect hh hP hs hwrap hcall file hm

/-! ## New mappings -/

theorem payloadMapped_zero {busy : List Reg} (gva : Nat) : PayloadMapped busy gva 0 := by
  intro a hlo hhi
  omega

theorem Settled.mappedBelow (hs : Settled g s)
    (hcheck : kmMmapBusyCheckContiguous s.busy gva size) (hwrap : gva + size < 2 ^ 64) :
    PayloadMapped s.busy gva size := by
  rcases Nat.eq_zero_or_pos size with rfl | hpos
  · exact payloadMapped_zero gva
  · exact (hs.check_iff hwrap hpos).1 hcheck

/-! ## Labels and host mappings agree -/

/-- Only shared mappings of the payload have shared memory under them, and the host's protection is
the one in the label. -/
structure Agrees (x : Option Label) (c : Cell) : Prop where
  unshared : c.shared → ∃ y, x = some y ∧ y.ofMonitor = false ∧ y.flags &&& mapShared ≠ 0
  shared : ∀ y, x = some y → y.ofMonitor = false → y.flags &&& mapShared ≠ 0 → c.shared
  prot : ∀ y, x = some y → y.ofMonitor = false →
    protectionAdjust c.prot = protectionAdjust y.protection

theorem protectionAdjust_idem (prot : BitVec 32) :
    protectionAdjust (protectionAdjust prot) = protectionAdjust prot := by
  by_cases hw : prot &&& protWrite = protWrite
  · have hadjust : protectionAdjust prot = prot ||| protRead := if_pos hw
    rw [hadjust, protectionAdjust]
    split
    · rw [BitVec.or_assoc, BitVec.or_self]
    · rfl
  have hadjust : protectionAdjust prot = prot := if_neg hw
  rw [hadjust, hadjust]

theorem Cell.dontneed_shared (c : Cell) : c.dontneed.shared = c.shared := by
  rw [Cell.dontneed, apply_ite Cell.shared, ite_self]

theorem Cell.dontneed_prot (c : Cell) : c.dontneed.prot = c.prot := by
  rw [Cell.dontneed, apply_ite Cell.prot, ite_self]

/-- The kind and the protection of a byte of a region that was given its protection. -/
theorem Label.treated_shared (x : Label) (c : Cell) : (x.treated c).shared = c.shared := by
  rw [Label.treated, Label.wiped, apply_ite Cell.shared, Cell.dontneed_shared, ite_self]
  rfl

theorem Label.treated_prot (x : Label) (c : Cell) :
    (x.treated c).prot = protectionAdjust x.protection := by
  rw [Label.treated, Label.wiped, apply_ite Cell.prot, Cell.dontneed_prot, ite_self]
  rfl

theorem Label.cleaned_ofMonitor (x : Label) : x.cleaned.ofMonitor = x.ofMonitor := by
  simp only [Label.cleaned]
  split <;> rfl

/-- A label that says what there is. -/
theorem Agrees.of_eq (hpay : y.ofMonitor = false) (hshared : c.shared ↔ y.flags &&& mapShared ≠ 0)
    (hprot : protectionAdjust c.prot = protectionAdjust y.protection) : Agrees (some y) c := by
  refine ⟨fun hc => ⟨y, rfl, hpay, hshared.1 hc⟩, ?_, ?_⟩
  · intro z hz _ hflags
    cases hz
    exact hshared.2 hflags
  intro z hz _
  cases hz
  exact hprot

theorem Agrees.shared_iff (h : Agrees (some y) c) (hpay : y.ofMonitor = false) :
    c.shared ↔ y.flags &&& mapShared ≠ 0 := by
  refine ⟨fun hc => ?_, h.shared y rfl hpay⟩
  rcases h.unshared hc with ⟨z, hz, -, hflags⟩
  cases hz
  exact hflags

theorem Agrees.private_of_none (h : Agrees none c) : c.shared = false := by
  by_contra hc
  rcases h.unshared (by simpa using hc) with ⟨y, hy, -⟩
  cases hy

theorem Agrees.of_none (hc : c.shared = false) : Agrees none c := by
  refine ⟨fun hs => ?_, fun y hy => (by cases hy), fun y hy => (by cases hy)⟩
  rw [hc] at hs
  cases hs

theorem Agrees.treated (h : Agrees (some x) c) (hpay : x.ofMonitor = false) (prot : BitVec 32) :
    Agrees (some ({ x with protection := prot } : Label).cleaned)
      (({ x with protection := prot } : Label).treated c) := by
  refine .of_eq ?_ ?_ ?_
  · rw [cleaned_ofMonitor]
    exact hpay
  · rw [treated_shared, cleaned_flags]
    exact h.shared_iff hpay
  · rw [treated_prot, cleaned_protection, protectionAdjust_idem]

theorem agrees_law : PageLaw fun _ => Agrees where
  free _ c c' h htame := .of_none (by
    by_contra hc
    have := htame.shared (by simpa using hc)
    rw [h.private_of_none] at this
    cases this)
  released _ x c c' hpay h hrel := .of_none (by
    by_contra hc
    have hshared := (h.shared_iff hpay).1 (hrel.shared (by simpa using hc))
    exact hc (hrel.unshared (.inl hshared)))
  treated _ _ _ prot hpay h := h.treated hpay prot

/-- The kind of the bytes of a new region. -/
theorem Renewed.shared_iff (h : Renewed file prot flags hostfd k c c') (hc : c.shared = false) :
    c'.shared ↔ flags &&& mapShared ≠ 0 := by
  obtain ⟨c1, hc1, rfl⟩ := h
  rw [treated_shared]
  rcases hc1 with rfl | ⟨hflags, htame⟩
  · simp only [Cell.mapped, (fixed_flags flags).2.1, decide_eq_true_eq]
  constructor
  · intro hs
    rw [htame.shared hs] at hc
    cases hc
  · exact fun hno => absurd hflags hno

theorem Renewed.agrees (h : Renewed file prot flags hostfd k c c') (hc : Agrees none c) :
    Agrees (some (newLabel prot flags .guest)) c' := by
  refine .of_eq (newLabel_ofMonitor prot flags) ?_ ?_
  · rw [newLabel_flags]
    exact h.shared_iff hc.private_of_none
  obtain ⟨c1, -, rfl⟩ := h
  rw [treated_prot, protectionAdjust_idem, newLabel, cleaned_protection]
  rfl

theorem mapShared_not_fixed (flags : BitVec 32) :
    (flags &&& ~~~mapFixed) &&& mapShared = flags &&& mapShared := by
  have hmask : ~~~mapFixed &&& mapShared = mapShared := by decide
  rw [BitVec.and_assoc, hmask]

theorem mappedCell_agrees (h : Host) (file : FileData) (prot flags : BitVec 32)
    (fd hostfd offset : Int) (k : Nat) (clean : Bool) :
    Agrees (some (mapLabel h prot flags fd clean)) (mappedCell file prot flags hostfd offset k) := by
  refine .of_eq rfl ?_ rfl
  simp only [mappedCell, Cell.mapped, mapLabel, (fixed_flags flags).2.1, decide_eq_true_eq,
    mapShared_not_fixed]

/-! ## Growing -/

/-- The range ends where the region ends, and there is room behind it. -/
def GrowsInPlace (busy : List Reg) (r : Reg) (oldAddr oldSize size : Nat) : Prop :=
  r.stop = oldAddr + oldSize ∧ ∀ q ∈ busy, r.stop < q.stop → r.stop + (size - oldSize) ≤ q.start

instance (busy : List Reg) (r : Reg) (oldAddr oldSize size : Nat) :
    Decidable (GrowsInPlace busy r oldAddr oldSize size) :=
  inferInstanceAs (Decidable (_ ∧ ∀ q ∈ busy, _))

theorem growsInPlace_of_gap (hs : Whole g s s.busy) (hp : Remaps s p oldAddr oldSize)
    (hstop : p.reg.stop = oldAddr + oldSize) (hroom : p.roomAfter (size - oldSize)) :
    GrowsInPlace s.busy p.reg oldAddr oldSize size := by
  have hwhole : Whole g s p.toList := hp.list ▸ hs
  have hsorted := sorted_append.1 hwhole.busy_sorted
  refine ⟨hstop, fun q hq hlt => ?_⟩
  rw [← hp.list, Pos.toList] at hq
  rcases List.mem_append.1 hq with hq | hq
  · have := hsorted.2.2 q hq p.reg (.head _)
    have := p.reg.start_le_stop
    omega
  rcases List.mem_cons.1 hq with rfl | hq
  · omega
  · exact hwhole.room_behind hroom q hq

/-- A mapping of the payload has the monitor's pages behind it, so the code finds the room. -/
theorem Settled.gap_of_growsInPlace (hs : Settled g s) (hp : Remaps s p oldAddr oldSize)
    (hgrows : GrowsInPlace s.busy p.reg oldAddr oldSize size) :
    p.reg.stop = u64 (oldAddr + oldSize) ∧ p.roomAfter (size - oldSize) := by
  have hwhole : Whole g s p.toList := hp.list ▸ hs.sound.whole
  have hpmem : p.reg ∈ s.busy := by simp [← hp.list, Pos.toList]
  have hz := (hs.sound.whole.busy_ok p.reg hpmem).payload (Reg.payload_part hp.payload)
  have hconsts := layout_consts
  have hupp := hz.upper
  obtain ⟨hstop, hbehind⟩ := hgrows
  refine ⟨by rw [u64]; omega, ?_⟩
  rcases hs.below_roof with ⟨roof, hlt, ⟨r, hr, hrlo, hrhi⟩, hbelow⟩
  have hproof := hbelow p.reg hpmem hp.payload
  rw [← hp.list, Pos.toList] at hr
  have hsorted := sorted_append.1 hwhole.busy_sorted
  have hrest := sorted_cons.1 hsorted.2.1
  cases hright : p.right with
  | nil =>
    -- the region with the roof is no other than this one
    rw [hright] at hr
    rcases List.mem_append.1 hr with hr | hr
    · have := hsorted.2.2 r hr p.reg (.head _)
      have := p.reg.start_le_stop
      omega
    rw [List.mem_singleton] at hr
    subst hr
    omega
  | cons next rest =>
    have hnext : next ∈ s.busy := by simp [← hp.list, Pos.toList, hright]
    have hafter := hrest.1 next (by simp [hright])
    have hnextok := hs.sound.whole.busy_ok next hnext
    have hstops : p.reg.stop < next.stop := by
      have := next.start_le_stop
      have := guestMemTopVa_lt
      cases hpart : next.kmFlags.partOfMonitor with
      | true =>
        have := hnextok.monitor hpart
        omega
      | false =>
        have := (hnextok.payload hpart).start_lt_stop
        omega
    have hroom := hbehind next hnext hstops
    simp only [Pos.roomAfter, hright, decide_eq_true_eq, Reg.fin_eq hz.no_wrap, u64]
    have := hnextok.no_wrap
    have := next.start_le_stop
    omega

end

end KontainMonitor.Mmap
