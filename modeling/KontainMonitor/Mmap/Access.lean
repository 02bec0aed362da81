import KontainMonitor.Mmap.HostMemory
import KontainMonitor.Snapshot.Notes

/-!
# Access — `km_is_gva_accessable` (`km_mmap.c`)

Below the break the function looks for one program header of the payload's two images that covers
the range, and from the break on for one busy region.  The heap is in neither table, and a range
that leaves its region ends the monitor.  The protection of memory below the break is kept beside
the state: no table of the monitor has it after an `mprotect`.
-/

namespace KontainMonitor.Mmap

open Intervals List Mem Transition
open Snapshot (Payload Phdr PT_LOAD)

def PF_X : Nat := 1
def PF_W : Nat := 2
def PF_R : Nat := 4

/-! ## The function -/

/-- The protection that the flags of a program header stand for. -/
def rprot (phdr : Phdr) : BitVec 32 :=
  (if phdr.flags &&& PF_R ≠ 0 then protRead else 0) |||
    (if phdr.flags &&& PF_W ≠ 0 then protWrite else 0) |||
    (if phdr.flags &&& PF_X ≠ 0 then protExec else 0)

/-- The memory of a program header. -/
def phdrStart (payload : Payload) (phdr : Phdr) : Nat := u64 (phdr.vaddr + payload.loadAdjust)

def phdrStop (payload : Payload) (phdr : Phdr) : Nat :=
  u64 (phdr.vaddr + payload.loadAdjust + phdr.memsz)

/-- The range is inside of the memory of the program header, of whatever type. -/
def covers (payload : Payload) (gva size : Nat) (phdr : Phdr) : Bool :=
  ¬ (gva < phdrStart payload phdr ∨ phdrStop payload phdr < u64 (gva + size))

/-- The first program header that covers the range decides. -/
def kmIsPayloadGvaAccessable (payload : Payload) (gva size : Nat) (prot : BitVec 32) : Bool :=
  match payload.phdrs.find? (covers payload gva size) with
  | none => false
  | some phdr => ¬ (rprot phdr = 0 ∨ prot &&& rprot phdr ≠ prot)

/-- True where the source returns 1; `none` if the monitor gives up. -/
def kmIsGvaAccessable (g : Geometry) (s : MmapState) (kmGuest kmDynlinker : Payload) (gva size : Nat)
    (prot : BitVec 32) : Option Bool :=
  if kmGvaToKma g s.mem gva = none then some false
  else if gva < s.mem.brk then
    if kmIsPayloadGvaAccessable kmGuest gva size prot then some true
    else if kmIsPayloadGvaAccessable kmDynlinker gva size prot then some true
    else some false
  else
    -- must be in mmap memory
    match kmFindRegNolock s.busy gva with
    | none => some false
    | some p =>
      -- the entire requested range must be described by a single region
      if p.reg.fin < u64 (gva + size) then none
      else some (p.reg.protection &&& prot = prot)

/-! ## The address space -/

def InSegment (kmGuest kmDynlinker : Payload) (a : Nat) : Prop :=
  ∃ payload, (payload = kmGuest ∨ payload = kmDynlinker) ∧ ∃ phdr ∈ payload.phdrs,
    phdr.type = PT_LOAD ∧ phdrStart payload phdr ≤ a ∧ a < phdrStop payload phdr

/-- A machine with a payload in it.  The heap starts behind the segments; `low` is the protection
below the break. -/
structure Loaded where
  mm : MmapState
  kmGuest : Payload
  kmDynlinker : Payload
  heapStart : Nat
  low : Nat → BitVec 32
  segments : ∀ a, InSegment kmGuest kmDynlinker a → guestMemStartVa ≤ a ∧ a < heapStart

/-- The address belongs to the payload, with a protection that includes `prot`. -/
def Accessible (w : Loaded) (prot : BitVec 32) (a : Nat) : Prop :=
  ((InSegment w.kmGuest w.kmDynlinker a ∨ w.heapStart ≤ a) ∧ a < w.mm.mem.brk ∧
      w.low a &&& prot = prot) ∨
    ∃ r ∈ w.mm.busy, r.start ≤ a ∧ a < r.stop ∧ r.protection &&& prot = prot

/-- The protection below the break after a call: where the break moves pages can be read and
written, and `mprotect` sets what it is given. -/
def nextLow (g : Geometry) (h : Host) (s s' : MmapState) (op : MmapOp) (low : Nat → BitVec 32)
    (a : Nat) : BitVec 32 :=
  match op with
  | .brk _ =>
    if roundup s.mem.brk kmPageSize ≤ a ∧ a < roundup s'.mem.brk kmPageSize then
      protRead ||| protWrite
    else low a
  | .mprotect addr size prot =>
    if (kmGuestMprotect g h s addr size prot).map Prod.snd = some 0 ∧ guestMemStartVa ≤ addr ∧
        u64 (addr + roundup size kmPageSize) ≤ s.mem.brk ∧ addr ≤ a ∧
        a < addr + roundup size kmPageSize then
      prot
    else low a
  | _ => low a

def loadedSystem (g : Geometry) : System Loaded (Host × MmapOp) where
  init w := Reach (servedSystem g) w.mm ∧ w.heapStart = w.mm.mem.brk ∧
    ∀ a, InSegment w.kmGuest w.kmDynlinker a →
      ∃ payload, (payload = w.kmGuest ∨ payload = w.kmDynlinker) ∧ ∃ phdr ∈ payload.phdrs,
        phdr.type = PT_LOAD ∧ phdrStart payload phdr ≤ a ∧ a < phdrStop payload phdr ∧
          w.low a = rprot phdr
  step w a w' := ∃ s', (servedSystem g).step w.mm a s' ∧
    w' = { w with mm := s', low := nextLow g a.1 w.mm s' a.2 w.low }

/-! ## Ranges in one piece -/

/-- Below the break: the range is outside of the heap, a segment that has some of it has all of it,
and every program header that covers it lies in a segment and has the protection of the range, not
`PROT_NONE`. -/
structure OneSegment (w : Loaded) (gva size : Nat) : Prop where
  not_heap : gva < w.heapStart
  below : gva + size ≤ w.mm.mem.brk
  whole : ∀ payload, payload = w.kmGuest ∨ payload = w.kmDynlinker → ∀ phdr ∈ payload.phdrs,
    phdr.type = PT_LOAD → gva < phdrStop payload phdr → phdrStart payload phdr < gva + size →
      covers payload gva size phdr
  loaded : ∀ payload, payload = w.kmGuest ∨ payload = w.kmDynlinker → ∀ phdr ∈ payload.phdrs,
    covers payload gva size phdr → rprot phdr ≠ 0 ∧
      ∀ a, gva ≤ a → a < gva + size → InSegment w.kmGuest w.kmDynlinker a ∧ w.low a = rprot phdr

/-- From the break on: a region that has the start of the range has all of it, and the start is not
in the monitor's pages. -/
def OneRegionOnly (w : Loaded) (gva size : Nat) : Prop :=
  ∀ r ∈ w.mm.busy, r.start ≤ gva → gva < r.stop → gva + size ≤ r.stop ∧ gva < guestMemTopVa

def InOnePiece (w : Loaded) (gva size : Nat) : Prop :=
  (gva < w.mm.mem.brk → OneSegment w gva size) ∧ (w.mm.mem.brk ≤ gva → OneRegionOnly w gva size)

section

variable {g : Geometry} {w : Loaded} {gva size : Nat} {prot : BitVec 32}

theorem loadedSystem_settled (hw : Reach (loadedSystem g) w) : Settled g w.mm := by
  suffices hreach : Reach (servedSystem g) w.mm from servedSystem_settled hreach
  induction hw with
  | init h => exact h.1
  | step _ h ih =>
    rcases h with ⟨s', hstep, rfl⟩
    exact .step ih hstep

/-- Busy regions are above the break. -/
theorem Settled.brk_lt_busy (hs : Settled g w.mm) {r : Reg} (hr : r ∈ w.mm.busy) :
    w.mm.mem.brk < r.start := by
  have hok := hs.sound.whole.busy_ok r hr
  have hbreaks := hs.sound.whole.breaks
  have hconsts := layout_consts
  have htbrk : w.mm.mem.brk < w.mm.mem.tbrk := by
    have hapart := hbreaks.apart
    have hlt : w.mm.mem.brk < w.mm.mem.tbrkPa g := by
      by_contra hle
      exact absurd hapart (not_lt.2 (Nat.div_le_div_right (not_lt.1 hle)))
    rw [MemState.tbrkPa] at hlt
    omega
  have hhi := hbreaks.tbrk_hi
  cases hpart : r.kmFlags.partOfMonitor with
  | true =>
    have := hok.monitor hpart
    omega
  | false =>
    have := (hok.payload hpart).lower
    omega

theorem kmGvaToKma_low {m : MemState} {a : Nat} (hm : MemInv g m) (hlo : guestMemStartVa ≤ a)
    (hhi : a < m.brk) : kmGvaToKma g m a ≠ none := by
  rw [kmGvaToKma_guestAddr hm (.inl ⟨hlo, hhi⟩)]
  exact Option.some_ne_none _

/-- One image: the covering program headers all give the same answer. -/
theorem kmIsPayloadGvaAccessable_iff (payload : Payload) (prot : BitVec 32) {acc : BitVec 32}
    (hne : acc ≠ 0)
    (hsame : ∀ phdr ∈ payload.phdrs, covers payload gva size phdr → rprot phdr = acc) :
    kmIsPayloadGvaAccessable payload gva size prot ↔
      (∃ phdr ∈ payload.phdrs, covers payload gva size phdr) ∧ acc &&& prot = prot := by
  rw [kmIsPayloadGvaAccessable]
  cases hfind : payload.phdrs.find? (covers payload gva size) with
  | none =>
    rw [List.find?_eq_none] at hfind
    simp only [Bool.false_eq_true, false_iff]
    rintro ⟨⟨phdr, hmem, hcov⟩, -⟩
    exact hfind phdr hmem hcov
  | some phdr =>
    have hmem := mem_of_find?_eq_some hfind
    have hcov := List.find?_some hfind
    simp only [hsame phdr hmem hcov, hne, ne_eq, false_or, not_not, decide_eq_true_eq,
      BitVec.and_comm prot]
    exact ⟨fun hacc => ⟨⟨phdr, hmem, hcov⟩, hacc⟩, fun hacc => hacc.2⟩

theorem kmIsPayloadGvaAccessable_none (payload : Payload)
    (hno : ∀ phdr ∈ payload.phdrs, covers payload gva size phdr = false) :
    kmIsPayloadGvaAccessable payload gva size prot = false := by
  have hfind : payload.phdrs.find? (covers payload gva size) = none := by
    rw [List.find?_eq_none]
    intro phdr hmem
    rw [hno phdr hmem]
    exact Bool.false_ne_true
  rw [kmIsPayloadGvaAccessable, hfind]

/-- Below the break. -/
theorem kmIsGvaAccessable_low (hs : Settled g w.mm) (hsize : 1 ≤ size) (hlt : gva < w.mm.mem.brk)
    (hone : OneSegment w gva size) :
    ∃ b, kmIsGvaAccessable g w.mm w.kmGuest w.kmDynlinker gva size prot = some b ∧
      (b ↔ ∀ a, gva ≤ a → a < gva + size → Accessible w prot a) := by
  have hfree : ∀ r ∈ w.mm.busy, ¬ r.start ≤ gva := by
    intro r hr hle
    have := hs.brk_lt_busy hr
    omega
  by_cases hcov : ∃ payload, (payload = w.kmGuest ∨ payload = w.kmDynlinker) ∧
      ∃ phdr ∈ payload.phdrs, covers payload gva size phdr
  · rcases hcov with ⟨payload, hpay, phdr, hmem, hcov⟩
    obtain ⟨hne, hrange⟩ := hone.loaded payload hpay phdr hmem hcov
    obtain ⟨hseg, hlow⟩ := hrange gva le_rfl (by omega)
    rw [← hlow] at hne
    -- every program header that covers the range has the protection of its first byte
    have hsame : ∀ p, p = w.kmGuest ∨ p = w.kmDynlinker → ∀ ph ∈ p.phdrs,
        covers p gva size ph → rprot ph = w.low gva := fun p hp ph hph hc =>
      (((hone.loaded p hp ph hph hc).2 gva le_rfl (by omega)).2).symm
    have hguest := kmIsPayloadGvaAccessable_iff w.kmGuest prot hne (hsame _ (.inl rfl))
    have hdyn := kmIsPayloadGvaAccessable_iff w.kmDynlinker prot hne (hsame _ (.inr rfl))
    have hkma := kmGvaToKma_low hs.sound.mem (w.segments gva hseg).1 hlt
    have hans : (kmIsPayloadGvaAccessable w.kmGuest gva size prot ∨
        kmIsPayloadGvaAccessable w.kmDynlinker gva size prot) ↔ w.low gva &&& prot = prot := by
      rw [hguest, hdyn]
      refine ⟨fun hor => hor.elim And.right And.right, fun hprot => ?_⟩
      rcases hpay with rfl | rfl
      · exact .inl ⟨⟨phdr, hmem, hcov⟩, hprot⟩
      · exact .inr ⟨⟨phdr, hmem, hcov⟩, hprot⟩
    refine ⟨kmIsPayloadGvaAccessable w.kmGuest gva size prot ||
      kmIsPayloadGvaAccessable w.kmDynlinker gva size prot, ?_, ?_⟩
    · rw [kmIsGvaAccessable, if_neg hkma, if_pos hlt]
      cases kmIsPayloadGvaAccessable w.kmGuest gva size prot <;>
        cases kmIsPayloadGvaAccessable w.kmDynlinker gva size prot <;> rfl
    rw [Bool.or_eq_true, hans]
    refine ⟨fun hprot a hlo hhi => .inl ?_, fun hall => ?_⟩
    · obtain ⟨hsega, hlowa⟩ := hrange a hlo hhi
      have hbelow := hone.below
      exact ⟨.inl hsega, by omega, by rw [hlowa, ← hlow]; exact hprot⟩
    rcases hall gva le_rfl (by omega) with ⟨-, -, hprot⟩ | ⟨r, hr, hle, -⟩
    · exact hprot
    · exact absurd hle (hfree r hr)
  -- no program header covers the range, and its first byte is in no segment
  have hno : ∀ p, p = w.kmGuest ∨ p = w.kmDynlinker → ∀ ph ∈ p.phdrs,
      covers p gva size ph = false := by
    intro p hp ph hph
    by_contra hc
    exact hcov ⟨p, hp, ph, hph, by simpa using hc⟩
  refine ⟨false, ?_, ?_⟩
  · rw [kmIsGvaAccessable, kmIsPayloadGvaAccessable_none _ (hno _ (.inl rfl)),
      kmIsPayloadGvaAccessable_none _ (hno _ (.inr rfl))]
    simp [hlt]
  simp only [Bool.false_eq_true, false_iff]
  intro hall
  rcases hall gva le_rfl (by omega) with ⟨hseg | hheap, -⟩ | ⟨r, hr, hle, -⟩
  · rcases hseg with ⟨p, hp, ph, hph, hload, hlo, hhi⟩
    have := hone.whole p hp ph hph hload hhi (by omega)
    rw [hno p hp ph hph] at this
    cases this
  · exact absurd hone.not_heap (not_lt.2 hheap)
  · exact absurd hle (hfree r hr)

/-- From the break on. -/
theorem kmIsGvaAccessable_high (hs : Settled g w.mm) (hsize : 1 ≤ size) (hwrap : gva + size < 2 ^ 64)
    (hle : w.mm.mem.brk ≤ gva) (hone : OneRegionOnly w gva size) :
    ∃ b, kmIsGvaAccessable g w.mm w.kmGuest w.kmDynlinker gva size prot = some b ∧
      (b ↔ ∀ a, gva ≤ a → a < gva + size → Accessible w prot a) := by
  have hwhole := hs.sound.whole
  have hfin : ∀ r ∈ w.mm.busy, r.fin = r.stop := fun r hr => Reg.fin_eq (hwhole.busy_ok r hr).no_wrap
  by_cases hreg : ∃ r ∈ w.mm.busy, r.start ≤ gva ∧ gva < r.stop
  · rcases hreg with ⟨r, hr, hlo, hhi⟩
    obtain ⟨hstop, htop⟩ := hone r hr hlo hhi
    have hkma : kmGvaToKma g w.mm.mem gva ≠ none := by
      rw [kmGvaToKma_zone hs.sound.mem (hwhole.tbrk_le_of_mapped ⟨r, hr, hlo, hhi⟩) htop]
      exact Option.some_ne_none _
    rcases kmFindRegNolock_of_mem hwhole.busy_sorted (fun q hq => (hwhole.busy_ok q hq).no_wrap) hr
      hlo hhi with ⟨p, hfind, rfl⟩
    refine ⟨decide (p.reg.protection &&& prot = prot), ?_, ?_⟩
    · simp only [kmIsGvaAccessable, if_neg hkma, if_neg (not_lt.2 hle), hfind, hfin _ hr, u64,
        Nat.mod_eq_of_lt hwrap]
      rw [if_neg (not_lt.2 hstop)]
    rw [decide_eq_true_eq]
    refine ⟨fun hprot a hloa hhia => .inr ⟨p.reg, hr, by omega, by omega, hprot⟩, fun hall => ?_⟩
    rcases hall gva le_rfl (by omega) with ⟨-, hbrk, -⟩ | ⟨r', hr', hlo', hhi', hprot⟩
    · exact absurd hbrk (not_lt.2 hle)
    -- only one region has the address
    have h1 := labelAt_of_mem hwhole.busy_sorted hr hlo hhi
    have h2 := labelAt_of_mem hwhole.busy_sorted hr' hlo' hhi'
    have hsame : p.reg.protection = r'.protection :=
      congrArg Label.protection (Option.some.inj (h1.symm.trans h2))
    rw [hsame]
    exact hprot
  refine ⟨false, ?_, ?_⟩
  · have hfind : kmFindRegNolock w.mm.busy gva = none := by
      by_contra hsome
      rcases Option.ne_none_iff_exists'.1 hsome with ⟨p, hp⟩
      obtain ⟨hlist, hin⟩ := kmFindRegNolock_spec hp
      have hmem : p.reg ∈ w.mm.busy := by simp [← hlist, Pos.toList]
      rw [hfin _ hmem] at hin
      exact hreg ⟨p.reg, hmem, hin⟩
    simp only [kmIsGvaAccessable, if_neg (not_lt.2 hle), hfind, ite_self]
  simp only [Bool.false_eq_true, false_iff]
  intro hall
  rcases hall gva le_rfl (by omega) with ⟨-, hbrk, -⟩ | ⟨r, hr, hlo, hhi, -⟩
  · exact absurd hbrk (not_lt.2 hle)
  · exact hreg ⟨r, hr, hlo, hhi⟩

/-- In every reachable state: for a range in one piece the answer is right, and there is one. -/
theorem gva_accessable_exact (g : Geometry) {w : Loaded} (hw : Reach (loadedSystem g) w)
    (gva size : Nat) (prot : BitVec 32) (hsize : 1 ≤ size) (hwrap : gva + size < 2 ^ 64)
    (hone : InOnePiece w gva size) :
    ∃ b, kmIsGvaAccessable g w.mm w.kmGuest w.kmDynlinker gva size prot = some b ∧
      (b ↔ ∀ a, gva ≤ a → a < gva + size → Accessible w prot a) := by
  have hs := loadedSystem_settled hw
  rcases lt_or_ge gva w.mm.mem.brk with hlt | hge
  · exact kmIsGvaAccessable_low hs hsize hlt (hone.1 hlt)
  · exact kmIsGvaAccessable_high hs hsize hwrap hge (hone.2 hge)

end

/-! ## A small payload -/

def smallImage (phdrs : List Phdr) : Payload where
  loadAdjust := 0
  dlopen := 0
  ehdr := List.replicate 64 0
  phdrs := phdrs
  filename := []
  ehdr_length := rfl

def codePhdr : Phdr where
  type := PT_LOAD
  flags := PF_R ||| PF_X
  offset := 0
  vaddr := 0x200000
  paddr := 0x200000
  filesz := 0x1000
  memsz := 0x1000
  align := 0x1000

theorem smallImage_segment {a : Nat} (ha : InSegment (smallImage [codePhdr]) (smallImage []) a) :
    0x200000 ≤ a ∧ a < 0x201000 := by
  rcases ha with ⟨payload, rfl | rfl, phdr, hmem, -, hlo, hhi⟩
  · rw [mem_singleton.1 hmem] at hlo hhi
    exact ⟨hlo, hhi⟩
  · cases hmem

def codeLoaded : MmapState := evaluate ((MmapOp.brk 0x201000).call geo512 kindHost booted)

def heapRaised : MmapState := evaluate ((MmapOp.brk 0x203000).call geo512 kindHost codeLoaded)

def codeOnly : Loaded where
  mm := codeLoaded
  kmGuest := smallImage [codePhdr]
  kmDynlinker := smallImage []
  heapStart := 0x201000
  low := fun _ => protRead ||| protExec
  segments _ ha := smallImage_segment ha

theorem codeOnly_low (a : Nat) : codeOnly.low a = rprot codePhdr := by
  have hflags : protRead ||| protExec = rprot codePhdr := by decide
  exact hflags

def codeAndHeap : Loaded :=
  { codeOnly with
    mm := heapRaised
    low := nextLow geo512 kindHost codeLoaded heapRaised (.brk 0x203000) codeOnly.low }

theorem codeLoaded_reach : Reach (servedSystem geo512) codeLoaded := by
  have hstart : Reach (servedSystem geo512) booted := .init booted_init
  exact .step (a := (kindHost, .brk 0x201000)) hstart
    ⟨⟨trivial, eq_eval⟩, .inr (by decide)⟩

theorem codeOnly_reach : Reach (loadedSystem geo512) codeOnly := by
  refine .init ⟨codeLoaded_reach, by decide +kernel, fun a ha => ?_⟩
  rcases ha with ⟨payload, hpay | hpay, phdr, hmem, hload, hlo, hhi⟩
  · refine ⟨payload, .inl hpay, phdr, hmem, hload, hlo, hhi, ?_⟩
    rw [hpay] at hmem
    rw [mem_singleton.1 hmem]
    exact codeOnly_low a
  rw [hpay] at hmem
  cases hmem

theorem codeAndHeap_reach : Reach (loadedSystem geo512) codeAndHeap := by
  have hcall : (MmapOp.brk 0x203000).call geo512 kindHost codeLoaded = some heapRaised :=
    eq_eval
  exact .step (a := (kindHost, .brk 0x203000)) codeOnly_reach
    ⟨heapRaised, ⟨⟨trivial, hcall⟩, .inr (by decide)⟩, rfl⟩

/-- Sixteen bytes of code. -/
theorem gva_accessable_exact_code :
    ∃ b, kmIsGvaAccessable geo512 codeLoaded (smallImage [codePhdr]) (smallImage [])
        0x200000 16 protExec = some b ∧
      (b ↔ ∀ a, 0x200000 ≤ a → a < 0x200000 + 16 → Accessible codeOnly protExec a) := by
  have hbrk : codeLoaded.mem.brk = 0x201000 := by decide +kernel
  refine gva_accessable_exact geo512 codeOnly_reach 0x200000 16 protExec (by decide) (by decide)
    ⟨fun _ => ⟨by decide, ?_, ?_, ?_⟩, fun hge => ?_⟩
  · change 0x200000 + 16 ≤ codeLoaded.mem.brk
    rw [hbrk]
    decide
  · rintro payload (rfl | rfl) phdr hmem - - -
    · rw [mem_singleton.1 hmem]
      decide
    · cases hmem
  · rintro payload (rfl | rfl) phdr hmem -
    · rw [mem_singleton.1 hmem]
      refine ⟨by decide, fun a hlo hhi => ⟨⟨_, .inl rfl, codePhdr, mem_singleton.2 rfl, rfl,
        hlo, ?_⟩, codeOnly_low a⟩⟩
      exact lt_of_lt_of_le hhi (by decide)
    · cases hmem
  change codeLoaded.mem.brk ≤ 0x200000 at hge
  rw [hbrk] at hge
  exact absurd hge (by decide)

/-! ## Heap, and two regions -/

def readUpperPage : MmapOp := .mprotect 0x7fffdfd000 0x1000 protRead

def upperReadOnly : MmapState := evaluate (readUpperPage.call geo512 kindHost twoPages)

def twoRegions : Loaded where
  mm := upperReadOnly
  kmGuest := smallImage []
  kmDynlinker := smallImage []
  heapStart := guestMemStartVa
  low := fun _ => 0
  segments a ha := by
    rcases ha with ⟨payload, rfl | rfl, phdr, hmem, -⟩ <;> cases hmem

theorem twoRegions_reach : Reach (loadedSystem geo512) twoRegions := by
  have hmm : Reach (servedSystem geo512) upperReadOnly :=
    Reach.step (a := (kindHost, readUpperPage)) twoPages_reach
      ⟨⟨trivial, eq_eval⟩, trivial⟩
  refine .init ⟨hmm, by decide +kernel, fun a ha => ?_⟩
  rcases ha with ⟨payload, rfl | rfl, phdr, hmem, -⟩ <;> cases hmem

/-- A byte of the heap is not found, and two pages that can be read end the monitor. -/
theorem heap_not_accessable : (Reach (loadedSystem geo512) codeAndHeap ∧
      kmIsGvaAccessable geo512 heapRaised (smallImage [codePhdr]) (smallImage []) 0x202000 1
        protRead = some false ∧ Accessible codeAndHeap protRead 0x202000) ∧
    Reach (loadedSystem geo512) twoRegions ∧
      kmIsGvaAccessable geo512 upperReadOnly (smallImage []) (smallImage []) 0x7fffdfc000 0x2000
        protRead = none ∧
      ∀ a, 0x7fffdfc000 ≤ a → a < 0x7fffdfc000 + 0x2000 → Accessible twoRegions protRead a := by
  refine ⟨⟨codeAndHeap_reach, by decide +kernel, .inl ⟨.inr (by decide), ?_, ?_⟩⟩,
    twoRegions_reach, by decide +kernel, fun a hlo hhi => .inr ?_⟩
  · decide +kernel
  · decide +kernel
  have hregs : (∃ r ∈ upperReadOnly.busy, r.start ≤ 0x7fffdfc000 ∧ 0x7fffdfd000 ≤ r.stop ∧
        r.protection &&& protRead = protRead) ∧
      ∃ r ∈ upperReadOnly.busy, r.start ≤ 0x7fffdfd000 ∧ 0x7fffdfe000 ≤ r.stop ∧
        r.protection &&& protRead = protRead := by decide +kernel
  rcases hregs with ⟨⟨r, hr, hstart, hstop, hprot⟩, r', hr', hstart', hstop', hprot'⟩
  rcases lt_or_ge a 0x7fffdfd000 with hlt | hge
  · exact ⟨r, hr, by omega, by omega, hprot⟩
  · exact ⟨r', hr', by omega, by omega, hprot'⟩

end KontainMonitor.Mmap
