import KontainMonitor.Vcpu.PoolRuns

/-!
# Threads — a thread after snapshot and restore

The two kinds of notes are written by two loops and read back by two others; what connects them is
the id.  `Machine.thread m i` is the vcpu with id `i`, if a thread uses it.  `recovered` is what the
two notes make of a thread: everything but its signal mask and its pending signals, and its floating
point state if the driver refuses to save or restore it.
-/

namespace KontainMonitor.Vcpus

open Function List Loop SList Transition

variable {m m' : Machine} {l : List Nat} {p : Nat} {env : GuestEnv} {host : HostLuck}
variable {hcargsGva : Nat → Nat} {fpFormat : FpFormat} {saved : Nat → Bool}
variable {x : Vcpu} {i : Nat} {m0 : Machine}
variable {j : Nat} {xs : List Vcpu}

/-! ## Vcpus by id -/

def Machine.lookup (m : Machine) (i : Nat) : Option Vcpu := (m.vmVcpus i).map m.heap

def Machine.thread (m : Machine) (i : Nat) : Option Vcpu :=
  (m.lookup i).filter fun x => x.state ≠ .parkedIdle

def freshVcpu (hcargsGva : Nat → Nat) (i : Nat) : Vcpu :=
  kvmVcpuInitSregs hcargsGva { Vcpu.calloc with vcpuId := i, state := .starting }

/-- The threads whose notes were read, each as some function made it. -/
def Recovered (f : Vcpu → Vcpu) (done : List Vcpu) (m : Machine) : Prop :=
  (∀ x ∈ done, m.lookup x.vcpuId = some (f x)) ∧
    ∀ i, (∀ x ∈ done, x.vcpuId ≠ i) → m.lookup i = none

/-- What the first pass makes of a thread. -/
def recoveredRegs (hcargsGva : Nat → Nat) (x : Vcpu) : Vcpu :=
  (kmMakeDumpPrstatus x).fill (freshVcpu hcargsGva x.vcpuId)

/-- What both passes make of a thread of `m`. -/
def recovered (hcargsGva : Nat → Nat) (fpFormat : FpFormat) (saved : Nat → Bool) (host : HostLuck)
    (m : Machine) (x : Vcpu) : Vcpu :=
  (kmCoreDumpVcpu fpFormat (saved x.vcpuId) m x).fill (host.restoreFpstate x.vcpuId)
    (recoveredRegs hcargsGva x)

/-- The vcpus that the dump visits are those in use, in the order of their ids. -/
theorem applyAll_spec (h : PoolInv m l) : ∀ n i, i + n = kvmMaxVcpus → (∀ p, p ∈ applyAll m n i ↔
      ∃ j, i ≤ j ∧ m.vmVcpus j = some p ∧ (m.heap p).state ≠ .parkedIdle) ∧
    (applyAll m n i).Pairwise fun p q => (m.heap p).vcpuId < (m.heap q).vcpuId := by
  intro n
  induction n with
  | zero =>
    intro i hi
    refine ⟨fun p => ⟨fun hp => (by cases hp), ?_⟩, List.Pairwise.nil⟩
    rintro ⟨j, hj, hp, -⟩
    have hlt := h.bound j (by rw [hp]; rfl)
    omega
  | succ n ih =>
    intro i hi
    obtain ⟨hmem, hpair⟩ := ih (i + 1) (by omega)
    simp only [applyAll]
    split
    · -- the table ends here
      rename_i hnone
      refine ⟨fun p => ⟨fun hp => (by cases hp), ?_⟩, List.Pairwise.nil⟩
      rintro ⟨j, hj, hp, -⟩
      have hnot : ¬ i < m.vmVcpuCnt := fun hlt => by
        have hsome := (h.contiguous i).2 hlt
        rw [hnone] at hsome
        cases hsome
      have hlt := (h.contiguous j).1 (by rw [hp]; rfl)
      omega
    rename_i q hq
    have hsplit : ∀ p, (∃ j, i ≤ j ∧ m.vmVcpus j = some p ∧ (m.heap p).state ≠ .parkedIdle) ↔
        (p = q ∧ (m.heap q).state ≠ .parkedIdle) ∨ p ∈ applyAll m n (i + 1) := by
      intro p
      rw [hmem]
      constructor
      · rintro ⟨j, hj, hp, hst⟩
        rcases Nat.lt_or_ge i j with hlt | hge
        · exact .inr ⟨j, hlt, hp, hst⟩
        have hji : j = i := by omega
        rw [hji, hq, Option.some.injEq] at hp
        subst hp
        exact .inl ⟨rfl, hst⟩
      rintro (⟨rfl, hst⟩ | ⟨j, hj, hp, hst⟩)
      · exact ⟨i, Nat.le_refl i, hq, hst⟩
      · exact ⟨j, by omega, hp, hst⟩
    split
    next hst =>
      refine ⟨fun p => ?_, pairwise_cons.2 ⟨fun p hp => ?_, hpair⟩⟩
      · rw [hsplit, mem_cons]
        exact or_congr_left ⟨fun heq => ⟨heq, hst⟩, fun heq => heq.1⟩
      rcases (hmem p).1 hp with ⟨j, hj, hp', -⟩
      rw [(h.ids i q hq).2, (h.ids j p hp').2]
      omega
    next hst =>
      refine ⟨fun p => ?_, hpair⟩
      rw [hsplit]
      exact ⟨.inr, fun hor => hor.resolve_left fun heq => hst heq.2⟩

theorem mem_kmVcpuApplyAll (h : PoolInv m l) : p ∈ kmVcpuApplyAll m ↔
    ∃ j, m.vmVcpus j = some p ∧ (m.heap p).state ≠ .parkedIdle := by
  rw [kmVcpuApplyAll, (applyAll_spec h kvmMaxVcpus 0 (Nat.zero_add _)).1 p]
  simp

/-- A thread in hypercall 7, which is to be made again. -/
def inHypercall : Executed :=
  ⟨{ Regs.zero with rip := 0x401000, rsp := 0x7fffdfd000, rax := 5 }, { Sregs.zero with fs := 0x602000 },
    [1, 2, 3], 7, 1, 0x7fffdfcf00⟩

def threeThreads : Machine :=
  evaluate (runCalls (poolStep plainEnv) Machine.init [.get lucky, .start 0 lucky,
    .clone 0 plainClone lucky, .clone 0 plainClone lucky, .stopped 1, .execute 2 inHypercall])

/-- Until `exit_group` the slots of the vcpus that are visited are the busy ones. -/
theorem applyAll_slots (h : PoolInv m l) (hexit : m.exitGroup = false) :
    ((kmVcpuApplyAll m).map fun p => (m.heap p).vcpuId).toFinset = m.busySlots l := by
  ext i
  rw [mem_toFinset, mem_map, Machine.busySlots, Finset.mem_filter, Finset.mem_range, ← h.contiguous]
  constructor
  · rintro ⟨p, hp, rfl⟩
    rcases (mem_kmVcpuApplyAll h).1 hp with ⟨j, hj, hst⟩
    rw [(h.ids j p hj).2, hj]
    refine ⟨rfl, fun q hq heq => hst ?_⟩
    cases heq
    exact (h.parked p hq).1
  · rintro ⟨hsome, hbusy⟩
    rcases Option.isSome_iff_exists.1 hsome with ⟨p, hp⟩
    have hst : (m.heap p).state ≠ .parkedIdle := fun hst => hbusy p (h.complete hexit i p hp hst) hp
    exact ⟨p, (mem_kmVcpuApplyAll h).2 ⟨i, hp, hst⟩, (h.ids i p hp).2⟩

/-- In every reachable pool, `km_vcpu_apply_all` visits the vcpus in use once each, in the order of
their thread ids, and until `exit_group` as many as are counted as running. -/
theorem apply_all_visits_live (h : Reach (poolSystem env) m) :
    (∀ p, p ∈ kmVcpuApplyAll m ↔ m.live p) ∧
      (kmVcpuApplyAll m).Pairwise (fun p q => kmVcpuGetTid m p < kmVcpuGetTid m q) ∧
      (m.exitGroup = false → (kmVcpuApplyAll m).length = m.vmVcpuRunCnt) := by
  rcases reach_poolInv h with ⟨l, hl⟩
  have hsorted := (applyAll_spec hl kvmMaxVcpus 0 (Nat.zero_add _)).2
  refine ⟨fun p => ?_, hsorted.imp Nat.succ_lt_succ, fun hexit => ?_⟩
  · rw [mem_kmVcpuApplyAll hl]
    constructor
    · rintro ⟨j, hj, hst⟩
      exact ⟨(hl.ids j p hj).1, hst⟩
    · exact fun hlive => ⟨_, hl.used p hlive.1 hlive.2, hlive.2⟩
  have hnodup : ((kmVcpuApplyAll m).map fun p => (m.heap p).vcpuId).Nodup :=
    pairwise_map.2 (hsorted.imp Nat.ne_of_lt)
  rw [← hl.busySlots_card, ← applyAll_slots hl hexit, toFinset_card_of_nodup hnodup, length_map]

theorem apply_all_visits_live_three :
    (kmVcpuApplyAll threeThreads).length = threeThreads.vmVcpuRunCnt := by
  have hreach : Reach (poolSystem plainEnv) threeThreads :=
    .runCalls (fun _ _ _ h => h) (.init (.inl rfl)) eq_eval
  exact (apply_all_visits_live hreach).2.2 (by decide +kernel)

end KontainMonitor.Vcpus
