import KontainMonitor.Lib.Loop
import KontainMonitor.Vcpu.Restore

/-!
# PoolRuns — the table of vcpus and the idle list over any history

`PoolBase m l` relates the table, the counters and the idle list, whose elements are `l`; it also
holds between the steps of a restore, when the table has gaps.  `PoolInv` adds that it has none.
-/

namespace KontainMonitor.Vcpus

open Finset Function List Loop Option SList Transition

variable {m m' : Machine} {l : List Nat} {p : Nat} {env : GuestEnv} {host : HostLuck}
variable {i : Nat} {f : Vcpu → Vcpu} {x : Vcpu} {v : Nat} {a : CloneArgs} {c : Cloned}
variable {slot : Nat} {prstatus : List Prstatus} {vcpus : List NtVcpu}

/-! ## Invariant -/

def Machine.links (m : Machine) (p : Nat) : Option (Option Nat) := (m.heap p).shared.link

def Machine.slots (m : Machine) : Finset Nat :=
  (Finset.range kvmMaxVcpus).filter fun i => (m.vmVcpus i).isSome

theorem mem_slots : i ∈ m.slots ↔ i < kvmMaxVcpus ∧ (m.vmVcpus i).isSome := by
  rw [Machine.slots, Finset.mem_filter, Finset.mem_range]

def Machine.InTable (m : Machine) (p : Nat) : Prop := m.vmVcpus (m.heap p).vcpuId = some p

structure PoolBase (m : Machine) (l : List Nat) : Prop where
  bound : ∀ i, (m.vmVcpus i).isSome → i < kvmMaxVcpus
  ids : ∀ i p, m.vmVcpus i = some p → p < m.allocated ∧ (m.heap p).vcpuId = i
  used : ∀ p < m.allocated, (m.heap p).state ≠ .parkedIdle → m.InTable p
  chain : Chain m.links m.idle l
  nodup : l.Nodup
  parked : ∀ p ∈ l, (m.heap p).state = .parkedIdle ∧ m.InTable p
  complete : m.exitGroup = false → ∀ i p, m.vmVcpus i = some p →
    (m.heap p).state = .parkedIdle → p ∈ l
  cnt : m.vmVcpuCnt = m.slots.card
  runCnt : m.vmVcpuRunCnt = m.vmVcpuCnt - l.length

structure PoolInv (m : Machine) (l : List Nat) : Prop extends PoolBase m l where
  contiguous : ∀ i, (m.vmVcpus i).isSome ↔ i < m.vmVcpuCnt

section

variable (h : PoolBase m l)
include h

theorem PoolBase.inTable_of (hi : m.vmVcpus i = some p) : m.InTable p := by
  rw [Machine.InTable, (h.ids i p hi).2, hi]

/-- A change to one vcpu, which may come on the idle list or go off it. -/
theorem PoolBase.update {idle : Option Nat} {run : Int} {fini : Bool} {l' : List Nat}
    (hid : x.vcpuId = (m.heap p).vcpuId)
    (hused : p < m.allocated → x.state ≠ .parkedIdle → m.InTable p)
    (hparked : p ∈ l' → x.state = .parkedIdle ∧ m.InTable p)
    (hcomplete : m.exitGroup = false → m.InTable p → x.state = .parkedIdle → p ∈ l')
    (hother : ∀ q, q ≠ p → (q ∈ l' ↔ q ∈ l))
    (hchain : Chain (Function.update m.links p x.shared.link) idle l') (hnodup : l'.Nodup)
    (hrun : run = m.vmVcpuCnt - l'.length) : PoolBase { m with
      heap := Function.update m.heap p x, idle := idle, vmVcpuRunCnt := run, finiSignalled := fini }
      l' := by
  generalize hm : ({ m with
    heap := Function.update m.heap p x, idle := idle, vmVcpuRunCnt := run, finiSignalled := fini } :
      Machine) = m'
  have hself : m'.heap p = x := hm ▸ update_self p x m.heap
  have hne : ∀ q, q ≠ p → m'.heap q = m.heap q := fun q hq => hm ▸ update_of_ne hq x m.heap
  have hids : ∀ q, (m'.heap q).vcpuId = (m.heap q).vcpuId := by
    intro q
    by_cases hq : q = p
    · rw [hq, hself, hid]
    · rw [hne q hq]
  have htable : ∀ q, m'.InTable q ↔ m.InTable q := by
    intro q
    rw [Machine.InTable, hids, ← hm]
    rfl
  have hlinks : m'.links = Function.update m.links p x.shared.link := by
    funext q
    by_cases hq : q = p
    · rw [hq, update_self, Machine.links, hself]
    · rw [update_of_ne hq, Machine.links, hne q hq, Machine.links]
  refine ⟨hm ▸ h.bound, ?_, ?_, ?_, hnodup, ?_, ?_, hm ▸ h.cnt, hm ▸ hrun⟩
  · intro i q hq
    rw [hids, ← hm]
    rw [← hm] at hq
    exact h.ids i q hq
  · intro q hq hst
    rw [← hm] at hq
    rw [htable]
    by_cases hqp : q = p
    · subst hqp
      exact hused hq (hself ▸ hst)
    · exact h.used q hq (hne q hqp ▸ hst)
  · rw [hlinks, ← hm]
    exact hchain
  · intro q hq
    rw [htable]
    by_cases hqp : q = p
    · subst hqp
      exact hself.symm ▸ hparked hq
    rw [hne q hqp]
    exact h.parked q ((hother q hqp).1 hq)
  intro hexit i q hq hst
  rw [← hm] at hexit hq
  by_cases hqp : q = p
  · subst hqp
    exact hcomplete hexit (h.inTable_of hq) (hself ▸ hst)
  · exact (hother q hqp).2 (h.complete hexit i q hq (hne q hqp ▸ hst))

/-- A change to a vcpu off the idle list. -/
theorem PoolBase.setVcpu (hp : p ∉ l) (hin : (f (m.heap p)).state ≠ .parkedIdle → m.InTable p)
    (hid : (f (m.heap p)).vcpuId = (m.heap p).vcpuId)
    (hstate : (f (m.heap p)).state = .parkedIdle → m.exitGroup) :
    PoolBase (m.setVcpu p f) l := by
  refine h.update hid (fun _ => hin) (fun hmem => absurd hmem hp) (fun hexit _ hst => ?_)
    (fun _ _ => Iff.rfl) (h.chain.congr fun q hq => ?_) h.nodup h.runCnt
  · cases (hstate hst).symm.trans hexit
  · exact update_of_ne (ne_of_mem_of_not_mem hq hp) _ _

/-- A change that keeps id, state and link. -/
theorem PoolBase.touch (hid : (f (m.heap p)).vcpuId = (m.heap p).vcpuId)
    (hstate : (f (m.heap p)).state = (m.heap p).state)
    (hshared : (f (m.heap p)).shared = (m.heap p).shared) : PoolBase (m.setVcpu p f) l := by
  refine h.update hid (fun hlt hst => h.used p hlt (hstate ▸ hst)) (fun hp => ?_)
    (fun hexit hin hst => h.complete hexit _ p hin (hstate ▸ hst)) (fun _ _ => Iff.rfl) ?_ h.nodup
    h.runCnt
  · rw [hstate]
    exact h.parked p hp
  rw [hshared]
  exact (update_eq_self p m.links).symm ▸ h.chain

/-- The invariant is not about the arguments of hypercalls. -/
theorem PoolBase.withHcargs (hcargs : Nat → Nat) : PoolBase { m with hcargs := hcargs } l :=
  ⟨h.bound, h.ids, h.used, h.chain, h.nodup, h.parked, h.complete, h.cnt, h.runCnt⟩

/-- `q` is the new thread `x`, which is in use at the number `i`. -/
def Machine.AllocatedAt (m : Machine) (x : Vcpu) (i q : Nat) : Prop :=
  q = m.allocated ∧ x.vcpuId = i ∧ i < kvmMaxVcpus ∧ x.state ≠ .parkedIdle

/-- A vcpu is allocated, and enters the table unless it is idle. -/
theorem PoolBase.alloc {table : Nat → Option Nat} {cnt : Nat} {run : Int}
    (hold : ∀ i q, m.vmVcpus i = some q → table i = some q)
    (hnew : ∀ i q, table i = some q → m.vmVcpus i = some q ∨ m.AllocatedAt x i q)
    (hused : x.state ≠ .parkedIdle → table x.vcpuId = some m.allocated)
    (hcnt : cnt = ((Finset.range kvmMaxVcpus).filter fun i => (table i).isSome).card)
    (hrun : run = cnt - l.length) : PoolBase { m with
      heap := Function.update m.heap m.allocated x, allocated := m.allocated + 1, vmVcpus := table
      vmVcpuCnt := cnt, vmVcpuRunCnt := run } l := by
  have hheap : ∀ q, q < m.allocated → Function.update m.heap m.allocated x q = m.heap q :=
    fun q hq => update_of_ne (ne_of_lt hq) _ _
  have hself : Function.update m.heap m.allocated x m.allocated = x := update_self _ _ _
  have hallocated : ∀ {q}, m.InTable q → q < m.allocated := fun hq => (h.ids _ _ hq).1
  have htable : ∀ q, m.InTable q →
      table (Function.update m.heap m.allocated x q).vcpuId = some q := by
    intro q hq
    rw [hheap q (hallocated hq)]
    exact hold _ q hq
  refine ⟨fun i hi => ?_, fun i q hq => ?_, fun q hq hst => ?_, h.chain.congr fun q hq => ?_, h.nodup,
    fun q hq => ?_, fun hexit i q hq hst => ?_, hcnt, hrun⟩
  · rcases isSome_iff_exists.1 hi with ⟨q, hq⟩
    rcases hnew i q hq with hq | ⟨-, -, hlt, -⟩
    · exact h.bound i (by rw [hq]; rfl)
    · exact hlt
  · rcases hnew i q hq with hq | ⟨rfl, hid, -⟩
    · have hlt := (h.ids i q hq).1
      exact ⟨Nat.lt_succ_of_lt hlt, (congrArg Vcpu.vcpuId (hheap q hlt)).trans (h.ids i q hq).2⟩
    · exact ⟨Nat.lt_succ_self _, (congrArg Vcpu.vcpuId hself).trans hid⟩
  · rcases Nat.lt_succ_iff_lt_or_eq.1 hq with hlt | rfl
    · exact htable q (h.used q hlt fun hidle => hst ((congrArg Vcpu.state (hheap q hlt)).trans hidle))
    show table (Function.update m.heap m.allocated x m.allocated).vcpuId = _
    rw [hself]
    exact hused fun hidle => hst ((congrArg Vcpu.state hself).trans hidle)
  · exact congrArg (fun y : Vcpu => y.shared.link) (hheap q (hallocated (h.parked q hq).2))
  · obtain ⟨hst, hin⟩ := h.parked q hq
    exact ⟨(congrArg Vcpu.state (hheap q (hallocated hin))).trans hst, htable q hin⟩
  rcases hnew i q hq with hq | ⟨rfl, -, -, hbusy⟩
  · exact h.complete hexit i q hq
      ((congrArg Vcpu.state (hheap q (h.ids i q hq).1)).symm.trans hst)
  · exact absurd ((congrArg Vcpu.state hself).symm.trans hst) hbusy

/-! ## One lemma per function -/

theorem kmVcpuPut_base (hp : p ∉ l) (hin : m.InTable p) : PoolBase (kmVcpuPut m p) (p :: l) := by
  refine h.update rfl (fun _ _ => hin) (fun _ => ⟨rfl, hin⟩) (fun _ _ _ => (.head _))
    (fun q hq => by simp [hq]) (h.chain.insert hp rfl) (nodup_cons.2 ⟨hp, h.nodup⟩) ?_
  show m.vmVcpuRunCnt - 1 = (m.vmVcpuCnt : Int) - (p :: l).length
  rw [h.runCnt, length_cons]
  omega

end

/-- A new vcpu in an empty slot; `f` is what is done to it before others see it. -/
def Machine.addVcpu (m : Machine) (slot : Nat) (x : Vcpu) : Machine :=
  { m with
    heap := Function.update m.heap m.allocated x
    allocated := m.allocated + 1
    vmVcpus := Function.update m.vmVcpus slot (some m.allocated)
    vmVcpuCnt := m.vmVcpuCnt + 1
    vmVcpuRunCnt := m.vmVcpuRunCnt + 1 }

theorem addVcpu_slots (hslot : slot < kvmMaxVcpus) :
    (m.addVcpu slot x).slots = insert slot m.slots := by
  ext i
  rw [mem_insert, mem_slots, mem_slots]
  by_cases hi : i = slot
  · simp [Machine.addVcpu, hi, hslot]
  · simp [Machine.addVcpu, hi]

theorem addVcpu_base (h : PoolBase m l) (hslot : slot < kvmMaxVcpus) (hfree : m.vmVcpus slot = none)
    (hid : x.vcpuId = slot) (hstate : x.state ≠ .parkedIdle) : PoolBase (m.addVcpu slot x) l := by
  refine h.alloc (fun i q hq => ?_) (fun i q hq => ?_) (fun _ => ?_) ?_ ?_
  · have hne : i ≠ slot := by
      rintro rfl
      cases hfree.symm.trans hq
    rw [update_of_ne hne, hq]
  · by_cases hi : i = slot
    · rw [hi, update_self, Option.some.injEq] at hq
      exact .inr ⟨hq.symm, hid.trans hi.symm, hi ▸ hslot, hstate⟩
    · exact .inl ((update_of_ne hi _ _).symm.trans hq)
  · rw [hid, update_self]
  · refine Eq.trans ?_ (congrArg Finset.card (addVcpu_slots (m := m) (x := x) hslot)).symm
    rw [card_insert_of_notMem, ← h.cnt]
    simp [mem_slots, hfree]
  rw [h.runCnt]
  omega

/-- What `km_vcpu_get` did: nothing, an idle vcpu taken off the list, or a new one. -/
theorem kmVcpuGet_spec (host : HostLuck) (h : PoolInv m l) : ∃ m' r, kmVcpuGet m host = some (m', r) ∧
    ((r = none ∧ PoolInv m' l ∧ (m.exitGroup ∨ (m.vmVcpuCnt = kvmMaxVcpus ∧ l = []) ∨
        host.calloc = false ∨ host.vcpuInit = false)) ∨
      ∃ p l', r = some p ∧ PoolInv m' l' ∧ p ∉ l' ∧ m'.InTable p ∧
        (m'.heap p).state = .starting ∧ m'.exitGroup = false ∧
        ((l = p :: l' ∧ (m.heap p).state = .parkedIdle) ∨ (l = [] ∧ l' = [] ∧ m.allocated ≤ p))) := by
  simp only [kmVcpuGet]
  split
  next hexit =>
    exact ⟨m, none, rfl, .inl ⟨rfl, h, .inl hexit⟩⟩
  rename_i hexit
  have hexit : m.exitGroup = false := by simpa using hexit
  split
  · -- the head of the idle list
    rename_i p hidle
    have hchain := h.chain
    rw [hidle] at hchain
    rcases hchain.uncons with ⟨r, rest, rfl, hlink, hrest⟩
    obtain ⟨hst, hin⟩ := h.parked p (.head _)
    have hp : p ∉ rest := (nodup_cons.1 h.nodup).1
    have hlink' : (m.heap p).shared.link = some r := hlink
    simp only [hlink', hst, if_true]
    have hpop : PoolBase ({ m with idle := r, vmVcpuRunCnt := m.vmVcpuRunCnt + 1 }.setVcpu p
        fun x => { x with state := .starting }) rest := by
      refine h.update rfl (fun _ _ => hin) (fun hmem => absurd hmem hp) (fun _ _ => nofun)
        (fun q hq => by simp [hq]) (hrest.congr fun q hq => ?_) (nodup_cons.1 h.nodup).2 ?_
      · exact update_of_ne (ne_of_mem_of_not_mem hq hp) _ _
      show m.vmVcpuRunCnt + 1 = (m.vmVcpuCnt : Int) - rest.length
      rw [h.runCnt, length_cons]
      omega
    refine ⟨_, _, rfl, .inr ⟨p, rest, rfl, ⟨hpop, h.contiguous⟩, hp, ?_, ?_, hexit,
      .inl ⟨rfl, hst⟩⟩⟩
    · show m.vmVcpus (Function.update m.heap p _ p).vcpuId = some p
      rw [update_self]
      exact hin
    · simp [Machine.setVcpu]
  rename_i hidle
  have hchain := h.chain
  rw [hidle] at hchain
  have hnil : l = [] := hchain.eq_nil
  split
  next hfull =>
    exact ⟨m, none, rfl, .inl ⟨rfl, h, .inr (.inl ⟨hfull, hnil⟩)⟩⟩
  rename_i hfull
  split
  next hcalloc =>
    exact ⟨m, none, rfl, .inl ⟨rfl, h, .inr (.inr (.inl (by simpa using hcalloc)))⟩⟩
  -- a new vcpu, in the first empty slot
  have hfree : m.vmVcpus m.vmVcpuCnt = none := by
    rcases hslot : m.vmVcpus m.vmVcpuCnt with _ | q
    · rfl
    have hlt := (h.contiguous m.vmVcpuCnt).1 (by rw [hslot]; rfl)
    exact absurd hlt (lt_irrefl _)
  have hlt : m.vmVcpuCnt < kvmMaxVcpus := by
    have hle : m.slots.card ≤ kvmMaxVcpus :=
      (card_filter_le _ _).trans (card_range _).le
    have hcnt := h.cnt
    omega
  split
  · -- the vcpu is allocated but never enters the table
    rename_i hinit
    refine ⟨_, none, rfl, .inl ⟨rfl, ?_, .inr (.inr (.inr (by simpa using hinit)))⟩⟩
    exact ⟨h.alloc (fun _ _ hq => hq) (fun _ _ hq => .inl hq) (fun hst => absurd rfl hst) h.cnt
      h.runCnt, h.contiguous⟩
  have hadd := addVcpu_base h.toPoolBase (x := { Vcpu.calloc with
    vcpuId := m.vmVcpuCnt, state := .starting }) hlt hfree rfl (by simp)
  have heq : ∀ n : Machine, n = m.addVcpu m.vmVcpuCnt { Vcpu.calloc with
      vcpuId := m.vmVcpuCnt, state := .starting } → PoolInv n l := by
    rintro n rfl
    refine ⟨hadd, fun i => ?_⟩
    show (Function.update m.vmVcpus m.vmVcpuCnt (some m.allocated) i).isSome ↔ i < m.vmVcpuCnt + 1
    by_cases hi : i = m.vmVcpuCnt
    · simp [hi]
    rw [update_of_ne hi, h.contiguous i]
    omega
  refine ⟨_, _, rfl, .inr ⟨m.allocated, l, rfl, heq _ ?_, ?_, ?_, ?_, hexit,
    .inr ⟨hnil, hnil, le_rfl⟩⟩⟩
  · simp [Machine.addVcpu, Machine.alloc, Machine.setVcpu]
  · simp [hnil]
  · simp [Machine.InTable, Machine.alloc, Machine.setVcpu]
  · simp [Machine.alloc, Machine.setVcpu]

/-! ## Steps -/

theorem PoolBase.of_starting (h : PoolBase m l) (hp : p < m.allocated)
    (hst : (m.heap p).state ≠ .parkedIdle) : p ∉ l ∧ m.InTable p :=
  ⟨fun hin => hst (h.parked p hin).1, h.used p hp hst⟩

theorem inUse_iff : m.inUse p ↔ p < m.allocated ∧ (m.heap p).state ≠ .parkedIdle ∧
    (m.heap p).state ≠ .starting := by
  simp [Machine.inUse, and_assoc]

theorem PoolInv.setVcpu (h : PoolInv m l) (hp : p ∉ l) (hin : m.InTable p)
    (hid : (f (m.heap p)).vcpuId = (m.heap p).vcpuId)
    (hstate : (f (m.heap p)).state ≠ .parkedIdle) : PoolInv (m.setVcpu p f) l :=
  ⟨h.toPoolBase.setVcpu hp (fun _ => hin) hid fun hst => absurd hst hstate, h.contiguous⟩

theorem PoolInv.touch (h : PoolInv m l) (hid : (f (m.heap p)).vcpuId = (m.heap p).vcpuId)
    (hstate : (f (m.heap p)).state = (m.heap p).state)
    (hshared : (f (m.heap p)).shared = (m.heap p).shared) : PoolInv (m.setVcpu p f) l :=
  ⟨h.toPoolBase.touch hid hstate hshared, h.contiguous⟩

theorem inTable_setVcpu (hin : m.InTable p) (hid : (f (m.heap p)).vcpuId = (m.heap p).vcpuId) :
    (m.setVcpu p f).InTable p := by
  rw [Machine.InTable, show ((m.setVcpu p f).heap p).vcpuId = (m.heap p).vcpuId by
    simp [Machine.setVcpu, hid]]
  exact hin

/-- Starting a thread changes the state of its vcpu, and never to idle. -/
theorem kmRunVcpuThread_spec (m : Machine) (p : Nat) (host : HostLuck) :
    ∃ f : Vcpu → Vcpu, (kmRunVcpuThread m p host).1 = m.setVcpu p f ∧
      ∀ x, (f x).vcpuId = x.vcpuId ∧ (f x).state ≠ .parkedIdle ∧ (f x).thr = x.thr := by
  simp only [kmRunVcpuThread]
  split
  · split
    · exact ⟨fun x => { x with state := .hypercall, vcpuThread := true }, rfl,
        fun x => ⟨rfl, by simp, rfl⟩⟩
    · exact ⟨fun x => { x with state := .starting }, rfl, fun x => ⟨rfl, by simp, rfl⟩⟩
  · exact ⟨fun x => { x with state := .hypercall }, rfl, fun x => ⟨rfl, by simp, rfl⟩⟩

theorem kmRunVcpuThread_inv (host : HostLuck) (h : PoolInv m l) (hp : p ∉ l) (hin : m.InTable p) :
    PoolInv (kmRunVcpuThread m p host).1 l ∧ (kmRunVcpuThread m p host).1.InTable p := by
  rcases kmRunVcpuThread_spec m p host with ⟨f, heq, hf⟩
  rw [heq]
  exact ⟨h.setVcpu hp hin (hf _).1 (hf _).2.1, inTable_setVcpu hin (hf _).1⟩

theorem kmVcpuPut_inv (h : PoolInv m l) (hp : p ∉ l) (hin : m.InTable p) :
    PoolInv (kmVcpuPut m p) (p :: l) :=
  ⟨kmVcpuPut_base h.toPoolBase hp hin, h.contiguous⟩

/-- The vcpu that `km_clone` took, ready to run. -/
def CloneArgs.filled (a : CloneArgs) (env : GuestEnv) (m : Machine) (v p : Nat) : Machine :=
  (m.setVcpu p a.fill).setVcpu p
    (kmVcpuCloneToRun env ((m.setVcpu p a.fill).heap v).regs (a.childStack - a.childStack % 8))

inductive CloneEnd (env : GuestEnv) (m : Machine) (v : Nat) (a : CloneArgs) (host : HostLuck) :
    Cloned → Prop
  | refused : CloneEnd env m v a host ⟨m, -einval, none, []⟩
  | noVcpu {m1 : Machine} (hget : kmVcpuGet m host = some (m1, none)) :
      CloneEnd env m v a host ⟨m1, -eagain, none, []⟩
  | ran {m1 : Machine} {p : Nat} (hget : kmVcpuGet m host = some (m1, some p)) (ok : Bool)
      (result : Int) : CloneEnd env m v a host
        ⟨if ok then (kmRunVcpuThread (a.filled env m1 v p) p host).1
          else kmVcpuPut (kmRunVcpuThread (a.filled env m1 v p) p host).1 p,
        result, some p, cloneTidWrites env a (a.filled env m1 v p) p⟩

theorem kmClone_end (hr : kmClone env m v a host = some c) : CloneEnd env m v a host c := by
  simp only [kmClone] at hr
  split at hr
  · cases hr
  split at hr
  · cases hr
    exact .refused
  obtain ⟨⟨m1, r⟩, hget, hr⟩ := bind_eq_some_iff.1 hr
  cases r with
  | none =>
    cases hr
    exact .noVcpu hget
  | some p =>
    have hran := @CloneEnd.ran env m v a host m1 p hget
    simp only [CloneArgs.filled] at hr hran
    split at hr
    next m2 hrun =>
      cases hr
      rw [hrun] at hran
      exact hran false _
    next m2 hrun =>
      cases hr
      rw [hrun] at hran
      exact hran true _

theorem kmClone_inv (h : PoolInv m l) (hr : kmClone env m v a host = some c) :
    ∃ l', PoolInv c.machine l' := by
  cases kmClone_end hr with
  | refused => exact ⟨l, h⟩
  | noVcpu hget =>
    rcases kmVcpuGet_spec host h with ⟨m1, r, hget', ⟨-, h1, -⟩ | ⟨p, l', rfl, -⟩⟩
    · cases hget'.symm.trans hget
      exact ⟨l, h1⟩
    · cases hget'.symm.trans hget
  | @ran m1 p hget ok _ =>
    rcases kmVcpuGet_spec host h with ⟨_, _, hget', ⟨rfl, -⟩ | ⟨_, l', rfl, h1, hp, hin, hst, -⟩⟩
    · cases hget'.symm.trans hget
    cases hget'.symm.trans hget
    -- the new vcpu is filled in, then its thread is started
    have hfill : PoolInv (m1.setVcpu p a.fill) l' :=
      h1.setVcpu hp hin rfl (by simp [CloneArgs.fill, hst])
    have hin' : (m1.setVcpu p a.fill).InTable p := inTable_setVcpu hin rfl
    have hst' : ((m1.setVcpu p a.fill).heap p).state ≠ .parkedIdle := by
      simp [Machine.setVcpu, CloneArgs.fill, hst]
    have hrun : PoolInv (a.filled env m1 v p) l' := hfill.setVcpu hp hin' rfl hst'
    have hrun' := kmRunVcpuThread_inv host hrun hp (inTable_setVcpu hin' rfl)
    cases ok with
    | false => exact ⟨p :: l', kmVcpuPut_inv hrun'.1 hp hrun'.2⟩
    | true => exact ⟨l', hrun'.1⟩

theorem kmVcpuStopped_inv (h : PoolInv m l) (hp : p ∉ l) (hin : m.InTable p) :
    PoolInv (kmVcpuStopped m p) (p :: l) := by
  have hexit : ∀ x : Vcpu, (kmExit x).vcpuId = x.vcpuId ∧ (kmExit x).state = x.state ∧
      (kmExit x).shared = x.shared := by
    intro x
    simp only [kmExit]
    split <;> exact ⟨rfl, rfl, rfl⟩
  obtain ⟨hid, hst, hshared⟩ := hexit (m.heap p)
  have hput := kmVcpuPut_inv (h.touch hid hst hshared) hp (inTable_setVcpu hin hid)
  exact hput.touch rfl rfl rfl

theorem stoppedWake_inv (h : PoolInv m l) (hr : stoppedWake m p = some m') : PoolInv m' l := by
  simp only [stoppedWake] at hr
  split at hr
  · cases hr
  split at hr
  · cases hr
  have hwoken : PoolInv (m.setVcpu p fun x => { x with parked := false }) l := h.touch rfl rfl rfl
  split at hr
  next hexit =>
    cases hr
    by_cases hp : p ∈ l
    · exact hwoken.touch rfl (hwoken.parked p hp).1.symm rfl
    exact ⟨hwoken.toPoolBase.setVcpu hp (fun hst => absurd rfl hst) rfl fun _ => hexit,
      hwoken.contiguous⟩
  cases hr
  exact hwoken

theorem poolStep_inv {op : PoolOp} (h : PoolInv m l) (hr : poolStep env m op = some m') :
    ∃ l', PoolInv m' l' := by
  cases op with
  | get host =>
    rcases kmVcpuGet_spec host h with ⟨m1, r, hget, hcase⟩
    simp only [poolStep, hget, map_some, Option.some.injEq] at hr
    subst hr
    rcases hcase with ⟨-, h1, -⟩ | ⟨p, l', -, h1, -⟩
    · exact ⟨l, h1⟩
    · exact ⟨l', h1⟩
  | start p host =>
    rcases ite_none_right_eq_some.1 hr with ⟨hstart, ⟨⟩⟩
    obtain ⟨hp, hin⟩ := h.of_starting hstart.1 (by simp [hstart.2])
    exact ⟨l, (kmRunVcpuThread_inv host h hp hin).1⟩
  | clone v a host =>
    rcases ite_none_right_eq_some.1 hr with ⟨-, hr⟩
    rcases map_eq_some_iff.1 hr with ⟨c, hc, rfl⟩
    exact kmClone_inv h hc
  | stopped p =>
    rcases ite_none_right_eq_some.1 hr with ⟨huse, ⟨⟩⟩
    have huse' := inUse_iff.1 huse.1
    obtain ⟨hp, hin⟩ := h.of_starting huse'.1 huse'.2.1
    exact ⟨p :: l, kmVcpuStopped_inv h hp hin⟩
  | wake p => exact ⟨l, stoppedWake_inv h hr⟩
  | act p f =>
    rcases ite_none_right_eq_some.1 hr with ⟨-, ⟨⟩⟩
    exact ⟨l, h.touch rfl rfl rfl⟩
  | execute p e =>
    rcases ite_none_right_eq_some.1 hr with ⟨-, ⟨⟩⟩
    exact ⟨l, (h.touch rfl rfl rfl).toPoolBase.withHcargs _, h.contiguous⟩
  | setState p state =>
    rcases ite_none_right_eq_some.1 hr with ⟨huse, ⟨⟩⟩
    have huse' := inUse_iff.1 huse.1
    obtain ⟨hp, hin⟩ := h.of_starting huse'.1 huse'.2.1
    exact ⟨l, h.setVcpu hp hin rfl huse.2.1⟩
  | exitGroup =>
    cases hr
    refine ⟨l, ⟨⟨h.bound, h.ids, h.used, h.chain, h.nodup, h.parked, ?_, h.cnt, h.runCnt⟩,
      h.contiguous⟩⟩
    intro hexit
    cases hexit

/-! ## Start-up -/

variable {hcargsGva : Nat → Nat}

theorem init_base : PoolBase Machine.init [] where
  bound i hi := by cases hi
  ids i p hi := by cases hi
  used p hp := absurd hp (Nat.not_lt_zero p)
  chain := .nil
  nodup := nodup_nil
  parked p hp := by cases hp
  complete _ i p hi := by cases hi
  cnt := by
    have hempty : Machine.init.slots = ∅ := by
      ext i
      simp [mem_slots, Machine.init]
    rw [hempty]
    rfl
  runCnt := rfl

/-- A restored vcpu is a new one in an empty slot. -/
theorem kmVcpuRestore_spec {tid : Int} (hr : kmVcpuRestore hcargsGva m tid host = (m', some p)) :
    ∃ (slot : Nat) (x : Vcpu), tid = slot + 1 ∧ slot < kvmMaxVcpus ∧ m.vmVcpus slot = none ∧
      x.vcpuId = slot ∧ x.state = .starting ∧ p = m.allocated ∧ m' = m.addVcpu slot x := by
  simp only [kmVcpuRestore] at hr
  split at hr
  · cases hr
  rename_i hrange
  split at hr
  · cases hr
  rename_i hfree
  split at hr
  · cases hr
  rw [Prod.mk.injEq, Option.some.injEq] at hr
  obtain ⟨rfl, rfl⟩ := hr
  refine ⟨(tid - 1).toNat, kvmVcpuInitSregs hcargsGva { Vcpu.calloc with
    vcpuId := (tid - 1).toNat, state := .starting }, by omega, by omega, by simpa using hfree, rfl,
    rfl, rfl, ?_⟩
  simp [Machine.addVcpu, Machine.alloc, Machine.setVcpu]

/-- Between the notes of a snapshot: some slots are taken, and nothing is idle. -/
structure Restoring (m : Machine) : Prop extends PoolBase m [] where
  running : m.exitGroup = false

theorem Restoring.setVcpu (h : Restoring m) (hin : m.InTable p)
    (hid : (f (m.heap p)).vcpuId = (m.heap p).vcpuId)
    (hstate : (f (m.heap p)).state = (m.heap p).state) : Restoring (m.setVcpu p f) := by
  have hbusy : (m.heap p).state ≠ .parkedIdle := by
    intro hst
    exact absurd (h.complete h.running _ p hin hst) (by simp)
  refine ⟨h.toPoolBase.setVcpu (by simp) (fun _ => hin) hid fun hst => ?_, h.running⟩
  exact absurd (hstate.symm.trans hst) hbusy

theorem kmSsRecoverPrstatus_restoring {n : Prstatus} (h : Restoring m)
    (hr : kmSsRecoverPrstatus hcargsGva host m n = some m') : Restoring m' := by
  simp only [kmSsRecoverPrstatus] at hr
  split at hr
  · cases hr
  rename_i m1 p hrestore
  cases hr
  rcases kmVcpuRestore_spec hrestore with ⟨slot, x, -, hslot, hfree, hid, hst, rfl, rfl⟩
  have hadd : Restoring (m.addVcpu slot x) :=
    ⟨addVcpu_base h.toPoolBase hslot hfree hid (by simp [hst]), h.running⟩
  refine hadd.setVcpu ?_ rfl rfl
  simp [Machine.InTable, Machine.addVcpu, hid]

theorem kmSsRecoverVcpuInfo_restoring {n : NtVcpu} (h : Restoring m)
    (hr : kmSsRecoverVcpuInfo host m n = some m') : Restoring m' := by
  simp only [kmSsRecoverVcpuInfo] at hr
  split at hr
  · cases hr
  rename_i p hp
  cases hr
  have hset : Restoring (m.setVcpu p (n.fill (host.restoreFpstate n.vcpuId))) :=
    h.setVcpu (h.inTable_of hp) rfl rfl
  exact ⟨hset.toPoolBase.withHcargs _, hset.running⟩

theorem kmSsRecoverVcpus_restoring (h : Restoring m)
    (hr : kmSsRecoverVcpus hcargsGva host m prstatus vcpus = some m') : Restoring m' := by
  simp only [kmSsRecoverVcpus, do_eq_some] at hr
  rcases hr with ⟨m1, h1, h2⟩
  have hm1 : Restoring m1 :=
    foldlM_inv (I := fun _ => Restoring)
      (fun _ _ _ _ _ _ hs hr => kmSsRecoverPrstatus_restoring hs hr) h h1
  exact foldlM_inv (I := fun _ => Restoring)
    (fun _ _ _ _ _ _ hs hr => kmSsRecoverVcpuInfo_restoring hs hr) hm1 h2

/-- The last slot that is taken. -/
theorem topVcpu_spec (m : Machine) (n : Nat) :
    (topVcpu m n = -1 ∧ ∀ i < n, (m.vmVcpus i).isSome = false) ∨
      ∃ k < n, topVcpu m n = k ∧ (m.vmVcpus k).isSome ∧
        ∀ i < n, k < i → (m.vmVcpus i).isSome = false := by
  induction n with
  | zero => exact .inl ⟨rfl, fun i hi => absurd hi (Nat.not_lt_zero i)⟩
  | succ n ih =>
    have hstep : topVcpu m (n + 1) = if (m.vmVcpus n).isSome then (n : Int) else topVcpu m n := by
      simp [topVcpu, range_succ]
    rw [hstep]
    by_cases hn : (m.vmVcpus n).isSome
    · rw [if_pos hn]
      exact .inr ⟨n, by omega, rfl, hn, fun i hi hlt => by omega⟩
    rw [if_neg hn]
    have hn' : (m.vmVcpus n).isSome = false := by simpa using hn
    rcases ih with ⟨htop, hnone⟩ | ⟨k, hk, htop, hsome, hlast⟩
    · refine .inl ⟨htop, fun i hi => ?_⟩
      rcases Nat.lt_succ_iff_lt_or_eq.1 hi with hlt | rfl
      · exact hnone i hlt
      · exact hn'
    refine .inr ⟨k, by omega, htop, hsome, fun i hi hlt => ?_⟩
    rcases Nat.lt_succ_iff_lt_or_eq.1 hi with hlt' | rfl
    · exact hlast i hlt' hlt
    · exact hn'

structure Filling (m0 : Machine) (i : Nat) (m : Machine) : Prop where
  base : ∃ l, PoolBase m l
  below : ∀ j < i, (m.vmVcpus j).isSome
  above : ∀ j, i ≤ j → (m.vmVcpus j).isSome = (m0.vmVcpus j).isSome

theorem fillGap_filling {m0 : Machine} (h : Filling m0 i m)
    (hr : fillGap hcargsGva host m i = some m') : Filling m0 (i + 1) m' := by
  rcases h.base with ⟨l, hbase⟩
  simp only [fillGap] at hr
  split at hr
  next hsome =>
    cases hr
    refine ⟨h.base, fun j hj => ?_, fun j hj => h.above j (by omega)⟩
    rcases Nat.lt_succ_iff_lt_or_eq.1 hj with hlt | rfl
    · exact h.below j hlt
    · exact hsome
  split at hr
  · cases hr
  rename_i m1 p hrestore
  cases hr
  rcases kmVcpuRestore_spec hrestore with ⟨slot, x, htid, hslot, hfree, hid, hst, rfl, rfl⟩
  have hi : slot = i := by omega
  subst hi
  -- the slot is written twice
  have htwice : { m.addVcpu slot x with
      vmVcpus := update (m.addVcpu slot x).vmVcpus slot (some m.allocated) } =
      m.addVcpu slot x := by
    simp [Machine.addVcpu]
  rw [htwice]
  have hadd := addVcpu_base hbase hslot hfree hid (by simp [hst])
  have hin : (m.addVcpu slot x).InTable m.allocated := by
    simp [Machine.InTable, Machine.addVcpu, hid]
  have hnew : m.allocated ∉ l := fun hmem =>
    absurd (hbase.ids _ _ (hbase.parked _ hmem).2).1 (lt_irrefl _)
  have htable : ∀ j, ((kmVcpuPut (m.addVcpu slot x) m.allocated).vmVcpus j).isSome =
      if j = slot then true else (m.vmVcpus j).isSome := by
    intro j
    show (update m.vmVcpus slot (some m.allocated) j).isSome = _
    by_cases hj : j = slot
    · simp [hj]
    · simp [hj]
  refine ⟨⟨_, kmVcpuPut_base hadd hnew hin⟩, fun j hj => ?_, fun j hj => ?_⟩
  · rw [htable]
    split
    · rfl
    · exact h.below j (by omega)
  rw [htable, if_neg (by omega)]
  exact h.above j (by omega)

theorem kmSnapshotRestore_inv
    (hr : kmSnapshotRestore hcargsGva host Machine.init prstatus vcpus = some m) :
    ∃ l, PoolInv m l := by
  simp only [kmSnapshotRestore, do_eq_some] at hr
  rcases hr with ⟨m0, hrecover, hfill⟩
  have h0 := kmSsRecoverVcpus_restoring ⟨init_base, rfl⟩ hrecover
  have hstart : Filling m0 0 m0 :=
    ⟨⟨[], h0.toPoolBase⟩, fun j hj => absurd hj (Nat.not_lt_zero j), fun _ _ => rfl⟩
  have hend : Filling m0 (topVcpu m0 kvmMaxVcpus).toNat m := by
    have hloop := foldlM_inv (I := fun done m => Filling m0 done.length m)
      (fun done a rest s s' heq hs hstep => ?_) hstart hfill
    · simpa using hloop
    -- the loop variable counts the rounds
    have ha : a = done.length := (range_split heq).1
    subst ha
    rw [length_append, length_singleton]
    exact fillGap_filling hs hstep
  rcases hend.base with ⟨l, hbase⟩
  -- every slot up to the last one is taken, and none after it
  have hslots : ∃ k, ∀ j, (m.vmVcpus j).isSome ↔ j < k := by
    have hbound0 : ∀ j, (m0.vmVcpus j).isSome → j < kvmMaxVcpus := h0.bound
    rcases topVcpu_spec m0 kvmMaxVcpus with ⟨htop, hnone⟩ | ⟨k, hk, htop, hsome, hlast⟩
    · refine ⟨0, fun j => ⟨fun hj => ?_, fun hj => absurd hj (Nat.not_lt_zero j)⟩⟩
      rw [hend.above j (by omega)] at hj
      rw [hnone j (hbound0 j hj)] at hj
      cases hj
    rw [htop, Int.toNat_natCast] at hend
    refine ⟨k + 1, fun j => ⟨fun hj => ?_, fun hj => ?_⟩⟩
    · by_contra hge
      rw [hend.above j (by omega)] at hj
      rw [hlast j (hbound0 j hj) (by omega)] at hj
      cases hj
    rcases Nat.lt_succ_iff_lt_or_eq.1 hj with hlt | rfl
    · exact hend.below j hlt
    · rw [hend.above j (Nat.le_refl j), hsome]
  rcases hslots with ⟨k, hk⟩
  have hcnt : m.vmVcpuCnt = k := by
    have hrange : m.slots = Finset.range k := by
      ext j
      rw [mem_slots, Finset.mem_range, ← hk j]
      exact ⟨fun hj => hj.2, fun hj => ⟨hbase.bound j hj, hj⟩⟩
    rw [hbase.cnt, hrange, card_range]
  exact ⟨l, hbase, fun i => by rw [hcnt]; exact hk i⟩

/-! ## Any history -/

/-- A machine starts empty or from a snapshot. -/
def poolSystem (env : GuestEnv) : System Machine PoolOp where
  init m := m = Machine.init ∨ ∃ host prstatus vcpus,
    kmSnapshotRestore env.hcargsGva host Machine.init prstatus vcpus = some m
  step m op m' := poolStep env m op = some m'

theorem reach_poolInv (h : Reach (poolSystem env) m) : ∃ l, PoolInv m l := by
  refine h.inv (I := fun m => ∃ l, PoolInv m l) ?_ ?_
  · rintro m (rfl | ⟨host, prstatus, vcpus, hr⟩)
    · exact ⟨[], init_base, fun i => by simp [Machine.init]⟩
    · exact kmSnapshotRestore_inv hr
  rintro m op m' ⟨l, hl⟩ hr
  exact poolStep_inv hl hr

def Machine.busySlots (m : Machine) (l : List Nat) : Finset Nat :=
  (Finset.range m.vmVcpuCnt).filter fun i => ∀ p ∈ l, m.vmVcpus i ≠ some p

/-- The counter is the number of vcpus off the idle list. -/
theorem PoolInv.busySlots_card (h : PoolInv m l) : ((m.busySlots l).card : Int) = m.vmVcpuRunCnt := by
  -- the slots of the idle vcpus
  have hidle : (l.toFinset.image fun p => (m.heap p).vcpuId).card = l.length := by
    rw [card_image_of_injOn, toFinset_card_of_nodup h.nodup]
    intro p hp q hq heq
    have hp' := (h.parked p (mem_toFinset.1 hp)).2
    have hq' := (h.parked q (mem_toFinset.1 hq)).2
    simp only [Machine.InTable] at hp' hq' heq
    rw [heq, hq', Option.some.injEq] at hp'
    exact hp'.symm
  have hsplit : m.busySlots l = Finset.range m.vmVcpuCnt \
      l.toFinset.image fun p => (m.heap p).vcpuId := by
    ext i
    rw [Machine.busySlots, Finset.mem_filter, Finset.mem_sdiff, Finset.mem_image]
    refine and_congr_right fun hi => ⟨?_, ?_⟩
    · rintro hbusy ⟨p, hp, rfl⟩
      exact hbusy p (mem_toFinset.1 hp) (h.parked p (mem_toFinset.1 hp)).2
    intro hbusy p hp heq
    exact hbusy ⟨p, mem_toFinset.2 hp, (h.ids i p heq).2⟩
  have hsub : (l.toFinset.image fun p => (m.heap p).vcpuId) ⊆ Finset.range m.vmVcpuCnt := by
    intro i hi
    rcases mem_image.1 hi with ⟨p, hp, rfl⟩
    have hin : m.vmVcpus (m.heap p).vcpuId = some p := (h.parked p (mem_toFinset.1 hp)).2
    exact Finset.mem_range.2 ((h.contiguous _).1 (by rw [hin]; rfl))
  have hle : l.length ≤ m.vmVcpuCnt := by
    have hcard := card_le_card hsub
    rwa [hidle, card_range] at hcard
  rw [hsplit, card_sdiff_of_subset hsub, hidle, card_range, h.runCnt]
  omega

structure PoolOk (m : Machine) (l : List Nat) : Prop where
  table : ∀ i, (m.vmVcpus i).isSome ↔ i < m.vmVcpuCnt
  ids : ∀ i p, m.vmVcpus i = some p → (m.heap p).vcpuId = i
  /-- The idle list is `l`: it ends, and has nothing twice. -/
  idle : Chain m.links m.idle l
  once : l.Nodup
  parked : ∀ p ∈ l, m.InTable p ∧ (m.heap p).state = .parkedIdle
  /-- Only `exit_group` marks vcpus off the list as parked. -/
  unlisted : ∀ i p, m.vmVcpus i = some p → (m.heap p).state = .parkedIdle → p ∉ l →
    m.exitGroup
  running : m.vmVcpuRunCnt = (m.busySlots l).card

structure GetOk (m : Machine) (l : List Nat) (host : HostLuck) : Prop where
  returns : ∃ m' r, kmVcpuGet m host = some (m', r)
  /-- It hands out an idle vcpu or one that nobody had. -/
  unused : ∀ m' p, kmVcpuGet m host = some (m', some p) →
    (p ∈ l ∨ m.allocated ≤ p) ∧ (m'.heap p).state = .starting
  fails : ∀ m', kmVcpuGet m host = some (m', none) →
    m.exitGroup ∨ (m.vmVcpuCnt = kvmMaxVcpus ∧ l = []) ∨ host.calloc = false ∨
      host.vcpuInit = false

/-- After any history, the table has no gaps, the idle list holds parked vcpus once each and, until
`exit_group`, all of them, and `km_vcpu_get` hands out no vcpu in use. -/
theorem vcpu_pool_consistent (h : Reach (poolSystem env) m) :
    ∃ l, PoolOk m l ∧ ∀ host, GetOk m l host := by
  rcases reach_poolInv h with ⟨l, hl⟩
  refine ⟨l, ⟨hl.contiguous, fun i p hi => (hl.ids i p hi).2, hl.chain, hl.nodup,
    fun p hp => (hl.parked p hp).symm, ?_, hl.busySlots_card.symm⟩, fun host => ?_⟩
  · intro i p hi hst hp
    by_contra hexit
    exact hp (hl.complete (by simpa using hexit) i p hi hst)
  rcases kmVcpuGet_spec host hl with ⟨m1, r, hget, hcase⟩
  refine ⟨⟨m1, r, hget⟩, ?_, ?_⟩
  · intro m' p hr
    rw [hget, some_mk_inj] at hr
    obtain ⟨rfl, rfl⟩ := hr
    rcases hcase with ⟨hnone, -⟩ | ⟨q, l', hq, -, -, -, hst, -, hfrom⟩
    · cases hnone
    rw [Option.some.injEq] at hq
    subst hq
    refine ⟨?_, hst⟩
    rcases hfrom with ⟨rfl, -⟩ | ⟨-, -, hnew⟩
    · exact .inl (.head _)
    · exact .inr hnew
  intro m' hr
  rw [hget, some_mk_inj] at hr
  obtain ⟨rfl, rfl⟩ := hr
  rcases hcase with ⟨-, -, hwhy⟩ | ⟨q, l', hq, -⟩
  · exact hwhy
  · cases hq

/-! ## After `exit_group` -/

def plainEnv : GuestEnv := ⟨fun _ => true, fun _ => 0, 56⟩

def lucky : HostLuck := ⟨true, true, true, fun _ => true⟩

def plainClone : CloneArgs := ⟨cloneThread, 4096, 0, 0, 0⟩

/-- A thread exits, its vcpu is reused, and `exit_group` comes before its thread wakes up. -/
def reuseThenExit : List PoolOp :=
  [.get lucky, .start 0 lucky, .clone 0 plainClone lucky, .stopped 1, .clone 0 plainClone lucky,
    .exitGroup, .wake 1]

def afterExit : Machine := evaluate (runCalls (poolStep plainEnv) Machine.init reuseThenExit)

theorem afterExit_reach : Reach (poolSystem plainEnv) afterExit :=
  Reach.runCalls (fun _ _ _ h => h) (.init (.inl rfl)) eq_eval

/-- A vcpu is parked but not on the idle list, which is empty. -/
theorem parked_off_idle_list : Reach (poolSystem plainEnv) afterExit ∧
    afterExit.vmVcpus 1 = some 1 ∧ (afterExit.heap 1).state = .parkedIdle ∧
    afterExit.idle = none ∧ afterExit.vmVcpuRunCnt = 2 :=
  ⟨afterExit_reach, by decide +kernel, by decide +kernel, by decide +kernel, by decide +kernel⟩

theorem vcpu_pool_consistent_after_exit :
    ∃ l, PoolOk afterExit l ∧ ∀ host, GetOk afterExit l host :=
  vcpu_pool_consistent afterExit_reach

/-! ## Threads by their ids -/

/-- The read is inside of the table, and an id that passes the check is one more than its slot. -/
theorem kmVcpuFetchByTid_slot (hi : i + 1 < kvmMaxVcpus) :
    kmVcpuFetchByTid m (i + 1 : Nat) =
      some ((m.vmVcpus i).filter fun p => (m.heap p).state ≠ .parkedIdle) := by
  have hread : m.vcpuAt ((i + 1 : Nat) - 1) = some (m.vmVcpus i) := by
    rw [Machine.vcpuAt, if_pos (by omega)]
    congr 2
    omega
  rw [kmVcpuFetchByTid, if_pos (by omega), hread]
  cases hp : m.vmVcpus i with
  | none => rfl
  | some p => by_cases hst : (m.heap p).state = .parkedIdle <;> simp [Option.filter, hst]

/-- An id that fails the check. -/
theorem kmVcpuFetchByTid_outside {t : Int} (ht : ¬ (0 < t ∧ t < kvmMaxVcpus)) :
    kmVcpuFetchByTid m t = some none := by
  rw [kmVcpuFetchByTid, if_neg ht]
  rfl

/-- A vcpu that a thread has or is about to get. -/
def Machine.live (m : Machine) (p : Nat) : Prop :=
  p < m.allocated ∧ (m.heap p).state ≠ .parkedIdle

/-- `km_vcpu_fetch_by_tid` is the inverse of `km_vcpu_get_tid`. -/
structure FetchOk (m : Machine) : Prop where
  fetched : ∀ p, m.live p → kmVcpuFetchByTid m (kmVcpuGetTid m p) = some (some p)
  null : ∀ t : Int, (∀ p, m.live p → t ≠ kmVcpuGetTid m p) → kmVcpuFetchByTid m t = some none

/-- The check is off by one: the thread in the last slot cannot be found by its id, all others can. -/
theorem fetch_by_tid_iff (h : Reach (poolSystem env) m) :
    FetchOk m ↔ ∀ p, m.vmVcpus (kvmMaxVcpus - 1) = some p → (m.heap p).state = .parkedIdle := by
  rcases reach_poolInv h with ⟨l, hl⟩
  constructor
  · intro hok p hp
    by_contra hst
    have hid := hl.ids _ p hp
    have hnull : kmVcpuFetchByTid m (kmVcpuGetTid m p) = some none := by
      apply kmVcpuFetchByTid_outside
      rw [kmVcpuGetTid, hid.2]
      decide
    rw [hok.fetched p ⟨hid.1, hst⟩] at hnull
    cases hnull
  intro hlast
  refine ⟨fun p hp => ?_, fun t ht => ?_⟩
  · have hin : m.vmVcpus (m.heap p).vcpuId = some p := hl.used p hp.1 hp.2
    have hlt : (m.heap p).vcpuId + 1 < kvmMaxVcpus := by
      have hbound := hl.bound _ (by rw [hin]; rfl)
      by_contra hge
      have heq : (m.heap p).vcpuId = kvmMaxVcpus - 1 := by omega
      exact hp.2 (hlast p (heq ▸ hin))
    rw [kmVcpuGetTid, kmVcpuFetchByTid_slot hlt, hin]
    simp [hp.2]
  by_cases hrange : 0 < t ∧ t < kvmMaxVcpus
  · obtain ⟨i, rfl⟩ : ∃ i : Nat, t = (i + 1 : Nat) := ⟨(t - 1).toNat, by omega⟩
    rw [kmVcpuFetchByTid_slot (by omega)]
    -- a live vcpu in this slot would have the id
    cases hp : m.vmVcpus i with
    | none => rfl
    | some p =>
      have hid := hl.ids i p hp
      have hst : (m.heap p).state = .parkedIdle := by
        by_contra hst
        exact ht p ⟨hid.1, hst⟩ (by rw [kmVcpuGetTid, hid.2])
      simp [hst]
  · exact kmVcpuFetchByTid_outside hrange

def fullPool : Machine :=
  evaluate (runCalls (poolStep plainEnv) Machine.init ([.get lucky, .start 0 lucky] ++
    List.replicate 287 (.clone 0 plainClone lucky)))

/-- Its last thread runs, under an id that `km_vcpu_fetch_by_tid` does not know. -/
theorem last_thread_not_fetched : Reach (poolSystem plainEnv) fullPool ∧
    fullPool.live 287 ∧ kmVcpuGetTid fullPool 287 = 288 ∧
    kmVcpuFetchByTid fullPool 288 = some none :=
  ⟨.runCalls (fun _ _ _ h => h) (.init (.inl rfl)) eq_eval,
    ⟨by decide +kernel, by decide +kernel⟩, by decide +kernel, by decide +kernel⟩

theorem fetch_by_tid_after_exit : FetchOk afterExit := by
  refine (fetch_by_tid_iff afterExit_reach).2 fun p hp => ?_
  have hnone : afterExit.vmVcpus (kvmMaxVcpus - 1) = none := by decide +kernel
  rw [hnone] at hp
  cases hp

end KontainMonitor.Vcpus
