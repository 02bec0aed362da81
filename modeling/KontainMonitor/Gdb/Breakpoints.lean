import Mathlib.Logic.Function.Basic
import Mathlib.Data.List.Basic

/-!
# Breakpoints — software breakpoints under the debugger's reads and writes (`gdb_kvm_x86_64.c`)

A breakpoint is an `int3` in the guest's memory; the byte that was there is kept in the list of
breakpoints.  `m` shows the kept bytes in place of the `int3`s; `M` writes to the memory and does not
look at the list, and before that to twice as many bytes of the stack as it has taken.
-/

namespace KontainMonitor.Gdb

open Function List Option

def int3 : BitVec 8 := 0xcc

structure Breakpoint where
  addr : Nat
  len : Nat
  savedInsn : BitVec 8
  refcount : Nat

/-- The guest's memory and the list `sw_breakpoints`. -/
structure Debuggee where
  mem : Nat → BitVec 8
  bps : List Breakpoint

section

variable (s : Debuggee) (addr len : Nat)

/-- `bp_list_find`; a breakpoint of another length is found too. -/
def bpListFind (bps : List Breakpoint) : Option Breakpoint := bps.find? fun bp => bp.addr == addr

def bpListRemove : List Breakpoint → List Breakpoint
  | [] => []
  | bp :: bps =>
    if bp.addr = addr then
      if 0 < bp.refcount - 1 then { bp with refcount := bp.refcount - 1 } :: bps else bps
    else bp :: bpListRemove bps

/-- `km_gdb_add_breakpoint`, which inserts only what `bp_list_find` does not find. -/
def kmGdbAddBreakpoint : Debuggee :=
  match bpListFind addr s.bps with
  | some _ => s
  | none => ⟨update s.mem addr int3, ⟨addr, len, s.mem addr, 1⟩ :: s.bps⟩

/-- `km_gdb_remove_breakpoint`; `none` is the failed assertion that the `int3` is in place. -/
def kmGdbRemoveBreakpoint : Option Debuggee :=
  match bpListFind addr s.bps with
  | none => some s
  | some bp =>
    if s.mem addr = int3 then some ⟨update s.mem addr bp.savedInsn, bpListRemove addr s.bps⟩ else none

def kmGdbRemoveAllBreakpoints : Option Debuggee :=
  s.bps.foldlM (fun s bp => kmGdbRemoveBreakpoint s bp.addr) s

/-- What `km_guest_mem2hex` has for an address. -/
def Debuggee.shown (a : Nat) : BitVec 8 := ((bpListFind a s.bps).map (·.savedInsn)).getD (s.mem a)

/-- The bytes of which `km_guest_mem2hex` gives the hexadecimal. -/
def kmGuestMem2hex : List (BitVec 8) := (List.range len).map fun i => s.shown (addr + i)

def written (bytes : List (BitVec 8)) (mem : Nat → BitVec 8) (a : Nat) : BitVec 8 :=
  if addr ≤ a then bytes[a - addr]?.getD (mem a) else mem a

end

-- how many bytes of the stack can be written from the start of an array on without harm
variable (room : Nat → Nat)

/-- `km_guest_hex2mem` converts the bytes in `mbuf[bufcount / 2]`, where `hex2mem` stores
`bufcount`; `none`: the stack is smashed. -/
def kmGuestHex2mem (addr : Nat) (bytes : List (BitVec 8)) (mem : Nat → BitVec 8) :
    Option (Nat → BitVec 8) :=
  if room (bytes.length / 2) < bytes.length then none else some (written addr bytes mem)

/-- The packets `Z0`, `z0`, `m` and `M`, and the end of the session. -/
inductive Packet
  | set (addr len : Nat)
  | remove (addr : Nat)
  | removeAll
  | read (addr len : Nat)
  | write (addr : Nat) (bytes : List (BitVec 8))

def handle (s : Debuggee) : Packet → Option Debuggee
  | .set addr len => some (kmGdbAddBreakpoint s addr len)
  | .remove addr => kmGdbRemoveBreakpoint s addr
  | .removeAll => kmGdbRemoveAllBreakpoints s
  | .read _ _ => some s
  | .write addr bytes => (kmGuestHex2mem room addr bytes s.mem).map fun mem => { s with mem := mem }

def Packet.plain (mem : Nat → BitVec 8) : Packet → Nat → BitVec 8
  | .write addr bytes => written addr bytes mem
  | _ => mem

/-- What is read now is what a memory without breakpoints has, and so is what is left when all
breakpoints are removed now. -/
def Transparent (s : Debuggee) (plain : Nat → BitVec 8) : Prop :=
  (∀ addr len, kmGuestMem2hex s addr len = (List.range len).map fun i => plain (addr + i)) ∧
    kmGdbRemoveAllBreakpoints s = some ⟨plain, []⟩

def TransparentRun (s : Debuggee) (plain : Nat → BitVec 8) (ps : List Packet) : Prop :=
  Transparent s plain ∧
    match ps with
    | [] => True
    | p :: ps => ∃ s', handle room s p = some s' ∧ TransparentRun s' (p.plain plain) ps

/-- A write leaves the breakpoints alone, unless both the saved byte and the one that is written are
`int3`s themselves. -/
def Debuggee.Spared (s : Debuggee) (addr : Nat) (bytes : List (BitVec 8)) : Prop :=
  ∀ bp ∈ s.bps, addr ≤ bp.addr → bp.addr < addr + bytes.length →
    bp.savedInsn = int3 ∧ bytes[bp.addr - addr]? = some int3

/-- A write has its room on the stack, and spares the breakpoints. -/
def Packet.Spares (s : Debuggee) : Packet → Prop
  | .write addr bytes => bytes.length ≤ room (bytes.length / 2) ∧ s.Spared addr bytes
  | _ => True

def SparingRun (s : Debuggee) : List Packet → Prop
  | [] => True
  | p :: ps => p.Spares room s ∧ ∀ s', handle room s p = some s' → SparingRun s' ps

/-! ## The list -/

/-- A list that `Z0` and `z0` build: an address is there once. -/
def Listed (bps : List Breakpoint) : Prop :=
  bps.Pairwise (fun bp bp' => bp.addr ≠ bp'.addr) ∧ ∀ bp ∈ bps, bp.refcount = 1

variable {s s' : Debuggee} {mem plain : Nat → BitVec 8} {bps : List Breakpoint}
variable {bp bp' : Breakpoint} {addr a : Nat}

theorem listed_cons :
    Listed (bp :: bps) ↔ (∀ bp' ∈ bps, bp.addr ≠ bp'.addr) ∧ bp.refcount = 1 ∧ Listed bps := by
  simp only [Listed, pairwise_cons, forall_mem_cons]
  tauto

theorem bpListFind_none (h : ∀ bp ∈ bps, bp.addr ≠ a) : bpListFind a bps = none :=
  List.find?_eq_none.2 fun bp hbp => by simpa using h bp hbp

theorem bpListFind_some (h : bpListFind a bps = some bp) : bp ∈ bps ∧ bp.addr = a :=
  ⟨mem_of_find?_eq_some h, by simpa using List.find?_some h⟩

theorem bpListFind_cons_ne (h : bp.addr ≠ a) : bpListFind a (bp :: bps) = bpListFind a bps :=
  List.find?_cons_of_neg (by simpa using h)

theorem bpListFind_cons_self : bpListFind bp.addr (bp :: bps) = some bp :=
  List.find?_cons_of_pos (by simp)

/-- What a removal leaves in the list. -/
theorem bpListRemove_spec (addr : Nat) (hl : Listed bps) :
    (bpListRemove addr bps).Sublist bps ∧ (∀ bp ∈ bpListRemove addr bps, bp.addr ≠ addr) ∧
      ∀ a, a ≠ addr → bpListFind a (bpListRemove addr bps) = bpListFind a bps := by
  induction bps with
  | nil => exact ⟨List.Sublist.refl _, nofun, fun _ _ => rfl⟩
  | cons bp bps ih =>
    rcases listed_cons.1 hl with ⟨hne, hone, hl⟩
    unfold bpListRemove
    split
    · rename_i heq
      rw [hone, if_neg (by decide)]
      exact ⟨sublist_cons_self .., fun bp' hbp' => heq ▸ (hne bp' hbp').symm,
        fun a ha => (bpListFind_cons_ne (heq ▸ ha.symm)).symm⟩
    rename_i heq
    rcases ih hl with ⟨hsub, hout, hfind⟩
    refine ⟨hsub.cons_cons bp, fun bp' hbp' => ?_, fun a ha => ?_⟩
    · rcases mem_cons.1 hbp' with rfl | hbp'
      · exact heq
      · exact hout bp' hbp'
    by_cases hbp : bp.addr = a
    · rw [← hbp, bpListFind_cons_self, bpListFind_cons_self]
    · rw [bpListFind_cons_ne hbp, bpListFind_cons_ne hbp, hfind a ha]

def Planted (s : Debuggee) : Prop := ∀ bp ∈ s.bps, s.mem bp.addr = int3

theorem shown_removed (mem : Nat → BitVec 8) (hl : Listed bps) (hfind : bpListFind addr bps = some bp) :
    Debuggee.shown ⟨update mem addr bp.savedInsn, bpListRemove addr bps⟩ =
      Debuggee.shown ⟨mem, bps⟩ := by
  rcases bpListRemove_spec addr hl with ⟨-, hout, hsame⟩
  funext a
  by_cases ha : a = addr
  · subst ha
    simp [Debuggee.shown, hfind, bpListFind_none hout]
  · simp [Debuggee.shown, hsame a ha, update_of_ne ha]

theorem removeAll_iff (hl : Listed bps) :
    bps.foldlM (fun s bp => kmGdbRemoveBreakpoint s bp.addr) ⟨mem, bps⟩ = some s' ↔
      Planted ⟨mem, bps⟩ ∧ s' = ⟨Debuggee.shown ⟨mem, bps⟩, []⟩ := by
  induction bps generalizing mem with
  | nil => exact ⟨fun h => ⟨nofun, (some.inj h).symm⟩, fun h => congrArg some h.2.symm⟩
  | cons bp bps ih =>
    have hshown := shown_removed mem hl bpListFind_cons_self
    rcases listed_cons.1 hl with ⟨hne, hone, hl⟩
    have hlist : bpListRemove bp.addr (bp :: bps) = bps := by
      rw [bpListRemove, if_pos rfl, hone, if_neg (by decide)]
    have hrest := @ih (update mem bp.addr bp.savedInsn) hl
    rw [hlist] at hshown
    rw [foldlM_cons, kmGdbRemoveBreakpoint, bpListFind_cons_self]
    by_cases hint : mem bp.addr = int3
    · simp only [hint, if_true, hlist, bind_eq_bind, bind_some, hrest, hshown, Planted,
        forall_mem_cons, true_and]
      refine and_congr_left fun _ => forall₂_congr fun bp' hbp' => ?_
      rw [update_of_ne (hne bp' hbp').symm]
    simp only [hint, if_false]
    exact ⟨nofun, fun h => absurd (h.1 bp (.head _)) hint⟩

/-! ## Packets -/

theorem transparent_iff (hl : Listed s.bps) : Transparent s plain ↔ s.shown = plain ∧ Planted s := by
  rw [Transparent, kmGdbRemoveAllBreakpoints, removeAll_iff hl]
  constructor
  · rintro ⟨-, hplanted, heq⟩
    exact ⟨(congrArg Debuggee.mem heq).symm, hplanted⟩
  rintro ⟨rfl, hplanted⟩
  exact ⟨fun _ _ => rfl, hplanted, rfl⟩

theorem bpListFind_mem (hl : Listed bps) (hbp : bp ∈ bps) : bpListFind bp.addr bps = some bp := by
  induction bps with
  | nil => cases hbp
  | cons bp' bps ih =>
    rcases listed_cons.1 hl with ⟨hne, -, hl⟩
    rcases mem_cons.1 hbp with rfl | hbp
    · exact bpListFind_cons_self
    rw [bpListFind_cons_ne (hne bp hbp)]
    exact ih hl hbp

/-- A write keeps the breakpoints transparent exactly if it spares them. -/
theorem write_transparent_iff (hl : Listed s.bps) (hs : Planted s) (bytes : List (BitVec 8)) :
    Transparent { s with mem := written addr bytes s.mem } (written addr bytes s.shown) ↔
      s.Spared addr bytes := by
  rw [transparent_iff (s := { s with mem := written addr bytes s.mem }) hl]
  constructor
  · rintro ⟨hshown, hplanted⟩ bp hbp hlo hhi
    have hat := congrFun hshown bp.addr
    have hin := hplanted bp hbp
    have hbyte := List.getElem?_eq_getElem (l := bytes) (i := bp.addr - addr) (by omega)
    simp only [Debuggee.shown, bpListFind_mem hl hbp, written, if_pos hlo, hbyte,
      map_some, getD_some] at hat hin
    rw [hbyte, hat, hin]
    exact ⟨rfl, rfl⟩
  intro h
  have hspare : ∀ bp ∈ s.bps, ∀ mem : Nat → BitVec 8, (bp.savedInsn = int3 → mem bp.addr = int3) →
      written addr bytes mem bp.addr = mem bp.addr := by
    intro bp hbp mem hmem
    unfold written
    split
    · rename_i hlo
      by_cases hhi : bp.addr < addr + bytes.length
      · rcases h bp hbp hlo hhi with ⟨hsaved, hbyte⟩
        rw [hbyte, hmem hsaved]
        rfl
      rw [List.getElem?_eq_none (by omega)]
      rfl
    · rfl
  refine ⟨funext fun a => ?_, fun bp hbp => ?_⟩
  · cases hfind : bpListFind a s.bps with
    | none => simp [Debuggee.shown, written, hfind]
    | some bp =>
      rcases bpListFind_some hfind with ⟨hbp, rfl⟩
      rw [hspare bp hbp]
      · simp [Debuggee.shown, hfind]
      intro hsaved
      simp [Debuggee.shown, hfind, hsaved]
  rw [← hs bp hbp]
  exact hspare bp hbp s.mem fun _ => hs bp hbp

variable {room : Nat → Nat}

theorem handle_write (bytes : List (BitVec 8)) (hroom : bytes.length ≤ room (bytes.length / 2)) :
    handle room s (.write addr bytes) = some { s with mem := written addr bytes s.mem } := by
  rw [handle, kmGuestHex2mem, if_neg (Nat.not_lt.2 hroom), map_some]

theorem Packet.Spares.step {p : Packet} (h : p.Spares room s) (hl : Listed s.bps) (hs : Planted s) :
    ∃ s', handle room s p = some s' ∧ Listed s'.bps ∧ s'.shown = p.plain s.shown ∧ Planted s' := by
  cases p with
  | set addr len =>
    refine ⟨_, rfl, ?_⟩
    unfold kmGdbAddBreakpoint
    split
    · exact ⟨hl, rfl, hs⟩
    rename_i hfind
    have hne : ∀ bp ∈ s.bps, bp.addr ≠ addr := fun bp hbp => by
      simpa using List.find?_eq_none.1 hfind bp hbp
    refine ⟨listed_cons.2 ⟨fun bp hbp => (hne bp hbp).symm, rfl, hl⟩, funext fun a => ?_, ?_⟩
    · by_cases ha : addr = a
      · subst ha
        simp only [Packet.plain, Debuggee.shown, hfind]
        simp [bpListFind]
      · simp [Packet.plain, Debuggee.shown, bpListFind, ha, update_of_ne (Ne.symm ha)]
    exact forall_mem_cons.2 ⟨update_self .., fun bp hbp =>
      (update_of_ne (hne bp hbp) ..).trans (hs bp hbp)⟩
  | remove addr =>
    rw [handle, kmGdbRemoveBreakpoint]
    cases hfind : bpListFind addr s.bps with
    | none => exact ⟨s, rfl, hl, rfl, hs⟩
    | some bp =>
      rcases bpListFind_some hfind with ⟨hbp, ha⟩
      rcases bpListRemove_spec addr hl with ⟨hsub, hout, -⟩
      exact ⟨_, if_pos (ha ▸ hs bp hbp),
        ⟨hl.1.sublist hsub, fun bp' hbp' => hl.2 bp' (hsub.subset hbp')⟩, shown_removed s.mem hl hfind,
        fun bp' hbp' => (update_of_ne (hout bp' hbp') ..).trans (hs bp' (hsub.subset hbp'))⟩
  | removeAll => exact ⟨_, (removeAll_iff hl).2 ⟨hs, rfl⟩, ⟨List.Pairwise.nil, nofun⟩, rfl, nofun⟩
  | read addr len => exact ⟨s, rfl, hl, rfl, hs⟩
  | write addr bytes =>
    have hnext := (write_transparent_iff hl hs bytes).2 h.2
    exact ⟨_, handle_write bytes h.1, hl, (transparent_iff (by exact hl)).1 hnext⟩

theorem transparentRun_iff {ps : List Packet} (hl : Listed s.bps) (hs : Planted s) :
    TransparentRun room s s.shown ps ↔ SparingRun room s ps := by
  induction ps generalizing s with
  | nil => exact ⟨fun _ => trivial, fun _ => ⟨(transparent_iff hl).2 ⟨rfl, hs⟩, trivial⟩⟩
  | cons p ps ih =>
    constructor
    · rintro ⟨-, s', hp, hrun⟩
      have hspares : p.Spares room s := by
        cases p with
        | write addr bytes =>
          by_cases hroom : room (bytes.length / 2) < bytes.length
          · rw [handle, kmGuestHex2mem, if_pos hroom] at hp
            cases hp
          rw [handle_write bytes (Nat.not_lt.1 hroom)] at hp
          cases hp
          rw [TransparentRun.eq_def] at hrun
          exact ⟨Nat.not_lt.1 hroom, (write_transparent_iff hl hs bytes).1 hrun.1⟩
        | _ => trivial
      rcases hspares.step hl hs with ⟨s'', hp', hl', hshown, hs'⟩
      cases hp.symm.trans hp'
      refine ⟨hspares, fun t ht => ?_⟩
      cases hp.symm.trans ht
      exact (ih hl' hs').1 (hshown ▸ hrun)
    rintro ⟨hspares, hnext⟩
    rcases hspares.step hl hs with ⟨s', hp, hl', hshown, hs'⟩
    exact ⟨(transparent_iff hl).2 ⟨rfl, hs⟩, s', hp, hshown ▸ (ih hl' hs').2 (hnext s' hp)⟩

/-- Over any sequence of packets the breakpoints are transparent, and nothing aborts, if and only if
every write has its room on the stack and spares the breakpoints set then. -/
theorem breakpoints_transparent_iff (room : Nat → Nat) (mem : Nat → BitVec 8) (ps : List Packet) :
    TransparentRun room ⟨mem, []⟩ mem ps ↔ SparingRun room ⟨mem, []⟩ ps :=
  transparentRun_iff ⟨List.Pairwise.nil, nofun⟩ nofun

def nops : Debuggee := ⟨fun _ => 0x90, []⟩

/-- A `ret` is written over a breakpoint: the next read still shows the `nop`, and removing the
breakpoint aborts the monitor. -/
theorem write_over_breakpoint :
    ∃ s s', handle (· + 1) nops (.set 0x1000 1) = some s ∧
      handle (· + 1) s (.write 0x1000 [0xc3]) = some s' ∧ kmGuestMem2hex s' 0x1000 1 = [0x90] ∧
        handle (· + 1) s' (.remove 0x1000) = none :=
  ⟨_, _, rfl, rfl, by decide, rfl⟩

end KontainMonitor.Gdb
