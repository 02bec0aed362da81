import KontainMonitor.Vcpu.HandlerMasks

/-!
# Unblockable — `SIGKILL` and `SIGSTOP` in the masks of a run

Nothing that writes a mask takes the two signals out: `km_rt_sigprocmask` and `km_rt_sigsuspend` copy
the set of the payload, handlers add the `sa_mask` that the payload gave, and `km_rt_sigreturn` copies
the mask of a frame that the payload can edit.  The masks stay free of the two signals in the runs
in which none of these sets has them.
-/

namespace KontainMonitor.Vcpus

open Function Signal Transition

variable {env : FrameEnv} {g g' : Guest} {p : Nat} {info : SigInfo} {act : SigAction}
variable {a : SigSet}
variable {signo : Nat} {set : SigSet}

/-! ## Sets without the two signals -/

def Spares (set : SigSet) : Prop := ∀ signo ∈ [sigKill, sigStop], kmSigismember set signo = false

instance (set : SigSet) : Decidable (Spares set) := inferInstanceAs (Decidable (∀ _ ∈ _, _))

theorem Spares.or {b : SigSet} (ha : Spares a) (hb : Spares b) : Spares (a ||| b) := by
  intro signo hsigno
  rw [kmSigismember_or, ha signo hsigno, hb signo hsigno, Bool.or_false]

theorem one_le_of_mem (h : signo ∈ [sigKill, sigStop]) : 1 ≤ signo := by
  rcases List.mem_pair.1 h with rfl | rfl <;> decide

theorem Spares.addset {added : Nat} (ha : Spares a) (hne : added ∉ [sigKill, sigStop]) :
    Spares (kmSigaddset a added) := by
  intro signo hsigno
  by_cases hadded : 1 ≤ added ∧ added < nSig
  · rw [kmSigismember_kmSigaddset (one_le_of_mem hsigno) hadded.1 hadded.2, ha signo hsigno]
    exact beq_false_of_ne fun heq => hne (heq ▸ hsigno)
  rw [kmSigaddset, if_neg hadded]
  exact ha signo hsigno

theorem Spares.delset (ha : Spares a) (removed : Nat) : Spares (kmSigdelset a removed) := by
  intro signo hsigno
  have hmem := ha signo hsigno
  rw [kmSigdelset]
  split
  · rw [kmSigismember_eq] at hmem ⊢
    rw [BitVec.getLsbD_and, hmem, Bool.false_and]
  · exact hmem

/-- A loop of `km_rt_sigprocmask` changes the mask only at members of the set. -/
theorem Spares.foldl {change : SigSet → Nat → SigSet}
    (hchange : ∀ mask signo, Spares mask → kmSigismember set signo →
      Spares (change mask signo)) : ∀ {l : List Nat} {mask : SigSet}, Spares mask →
      Spares (l.foldl (fun mask signo =>
        if kmSigismember set signo then change mask signo else mask) mask) := by
  intro l
  induction l with
  | nil =>
    intro mask hmask
    exact hmask
  | cons signo l ih =>
    intro mask hmask
    rw [List.foldl_cons]
    split
    case isTrue hmem => exact ih (hchange mask signo hmask hmem)
    case isFalse => exact ih hmask

theorem Spares.sigprocmask {mask mask' : SigSet} {how : How} (hmask : Spares mask)
    (hset : how = .unblock ∨ Spares set) (h : sigprocmaskMask mask how set = some mask') :
    Spares mask' := by
  cases how with
  | block =>
    cases h
    refine .foldl (fun mask signo hmask hmem => hmask.addset fun hsigno => ?_) hmask
    rw [hset.resolve_left (by decide) signo hsigno] at hmem
    cases hmem
  | unblock =>
    cases h
    exact .foldl (fun mask signo hmask _ => hmask.delset signo) hmask
  | setmask =>
    cases h
    exact hset.resolve_left (by decide)
  | other => cases h

/-! ## Runs -/

/-- What the payload can do to the masks, and between: write its registers and its
memory.  `deliver` is the end of a turn of `km_vcpu_run` that dequeued a signal. -/
inductive MaskOp
  | sigprocmask (p : Nat) (how : How) (set : SigSet)
  | sigsuspend (p : Nat) (set : SigSet)
  | sigaction (signo : Nat) (act : SigAction)
  | deliver (p : Nat) (info : SigInfo)
  | sigreturn (p : Nat)
  | run (p : Nat) (regs : Regs) (frames : Nat → SignalFrame)

/-- `none` ends the run: a signal terminates the payload, or has a number outside the table. -/
def MaskOp.step (env : FrameEnv) (g : Guest) : MaskOp → Option Guest
  | sigprocmask p how set => some (kmRtSigprocmask g p how set).1
  | sigsuspend p set => some (sigsuspendMasks g p set)
  | sigaction signo act => some (kmRtSigaction g signo act).1
  | deliver p info =>
    if 1 ≤ info.signo ∧ info.signo < nSig then
      match kmDeliverSignal env g p info with
      | .ignored => some (kmRtSigsuspendRevert g p)
      | .terminates _ => none
      | .handler g => some (kmRtSigsuspendRevert g p)
    else none
  | sigreturn p => some (kmRtSigreturn env g p)
  | run p regs frames =>
    some ({ g with frames := frames }.setVcpu p fun x => { x with regs := regs })

/-- Runs from a payload that has not set any mask or action yet. -/
def maskSystem (env : FrameEnv) : System Guest MaskOp where
  init g := (∀ p, (g.vcpu p).thr = ThreadFields.zero) ∧ ∀ i, g.sigactions i = ⟨sigDfl, 0, 0, 0⟩
  step g a g' := a.step env g = some g'

/-- The sets that the payload passes, or leaves in a frame that it returns from, have neither
signal. -/
def MaskOp.Sparing (env : FrameEnv) (g : Guest) : MaskOp → Prop
  | sigprocmask _ how set => how = .unblock ∨ Spares set
  | sigsuspend _ set => Spares set
  | sigaction _ act => Spares act.saMask
  | sigreturn p => Spares (g.frames (returnFrameGva env (g.vcpu p).regs.rsp)).ucSigmask
  | _ => True

/-- The masks and the actions have neither signal, and neither signal has a handler. -/
structure Unblocked (g : Guest) : Prop where
  masks : ∀ p, Spares (g.vcpu p).thr.sigmask ∧ Spares (g.vcpu p).thr.savedSigmask
  actions : ∀ i, Spares (g.sigactions i).saMask
  defaults : ∀ signo ∈ [sigKill, sigStop], (g.sigactions (kmSigindex signo)).handler = sigDfl

section

variable (h : Unblocked g)
include h

theorem Unblocked.frames (frames : Nat → SignalFrame) : Unblocked { g with frames := frames } :=
  ⟨h.masks, h.actions, h.defaults⟩

theorem Unblocked.setVcpu {f : Vcpu → Vcpu}
    (hf : Spares (f (g.vcpu p)).thr.sigmask ∧ Spares (f (g.vcpu p)).thr.savedSigmask) :
    Unblocked (g.setVcpu p f) := by
  refine ⟨fun q => ?_, h.actions, h.defaults⟩
  by_cases hq : q = p
  · rw [hq, Guest.vcpu_setVcpu]
    exact hf
  rw [Guest.vcpu_setVcpu_of_ne hq]
  exact h.masks q

theorem Unblocked.update {i : Nat} (hact : Spares act.saMask)
    (hdfl : act.handler = sigDfl ∨ ∀ signo ∈ [sigKill, sigStop], kmSigindex signo ≠ i) :
    Unblocked { g with sigactions := update g.sigactions i act } := by
  refine ⟨h.masks, fun j => ?_, fun signo hsigno => ?_⟩
  · by_cases hj : j = i
    · simpa only [hj, update_self] using hact
    · simpa only [update_of_ne hj] using h.actions j
  by_cases hj : kmSigindex signo = i
  · rcases hdfl with hdfl | hne
    · simpa only [hj, update_self] using hdfl
    · exact absurd hj (hne signo hsigno)
  · simpa only [update_of_ne hj] using h.defaults signo hsigno

theorem Unblocked.revert : Unblocked (kmRtSigsuspendRevert g p) := by
  refine h.setVcpu ?_
  split
  · exact ⟨(h.masks p).2, (h.masks p).2⟩
  · exact h.masks p

/-- A handler adds the signals of its action and its own signal, which is neither of the two. -/
theorem Unblocked.deliver (h' : kmDeliverSignal env g p info = .handler g') : Unblocked g' := by
  simp only [kmDeliverSignal] at h'
  split at h'
  · cases h'
  split at h'
  · split at h' <;> cases h'
  case isFalse hdfl =>
    have hne : info.signo ∉ [sigKill, sigStop] := fun hmem => hdfl (h.defaults _ hmem)
    have hentered : Unblocked
        (doGuestHandler env g p info (g.sigactions (kmSigindex info.signo))) := by
      refine (h.frames _).setVcpu ⟨.addset ?_ hne, (h.masks p).2⟩
      split
      · exact (h.masks p).1.or (h.actions _)
      · exact (h.masks p).1
    split at h'
    · cases h'
      exact hentered.update (h.actions (kmSigindex info.signo)) (.inl rfl)
    cases h'
    exact hentered

end

/-- `km_rt_sigaction` refuses the two signals, and no other signal has their places in the table. -/
theorem kmSigindex_ne {k : Nat} (hrange : ¬ (signo < 1 ∨ nSig ≤ signo))
    (hcatch : ¬ kmSigismember noCatchSignals signo) (hk : k ∈ [sigKill, sigStop]) :
    kmSigindex k ≠ kmSigindex signo := by
  intro heq
  have hsame : k = signo := by
    have := one_le_of_mem hk
    simp only [kmSigindex] at heq
    omega
  subst hsame
  rcases List.mem_pair.1 hk with rfl | rfl <;> exact hcatch (by decide)

theorem Unblocked.step {a : MaskOp} (h : Unblocked g) (hstep : a.step env g = some g')
    (hspare : a.Sparing env g) : Unblocked g' := by
  cases a with
  | sigprocmask p how set =>
    cases hstep
    rw [kmRtSigprocmask]
    split
    case h_1 mask hmask => exact h.setVcpu ⟨(h.masks p).1.sigprocmask hspare hmask, (h.masks p).2⟩
    case h_2 => exact h
  | sigsuspend p set =>
    cases hstep
    exact h.setVcpu ⟨hspare, (h.masks p).1⟩
  | sigaction signo act =>
    cases hstep
    rw [kmRtSigaction]
    split
    · exact h
    case isFalse hrange =>
      split
      · exact h
      case isFalse hcatch => exact h.update hspare (.inr fun k hk => kmSigindex_ne hrange hcatch hk)
  | deliver p info =>
    simp only [MaskOp.step] at hstep
    split at hstep
    · split at hstep
      · cases hstep
        exact h.revert
      · cases hstep
      case h_3 g1 hdeliver =>
        cases hstep
        exact (h.deliver hdeliver).revert
    · cases hstep
  | sigreturn p =>
    cases hstep
    have hleft : Unblocked (g.setVcpu p fun x =>
        { x with thr := { x.thr with sigaltstack := { x.thr.sigaltstack with flags := 0 } } }) :=
      h.setVcpu (h.masks p)
    have hrestored : ∀ {g1 : Guest} {frame : SignalFrame}, Unblocked g1 →
        Spares frame.ucSigmask → Unblocked (restoreSignalContext g1 p frame) := by
      intro g1 frame h1 hframe
      have hset := h1.setVcpu (f := fun x =>
        { x with
          regs := frame.gregs
          thr := { x.thr with sigmask := frame.ucSigmask }
          fpstate := frame.fpstate }) ⟨hframe, (h1.masks p).2⟩
      exact ⟨hset.masks, hset.actions, hset.defaults⟩
    rw [kmRtSigreturn]
    refine hrestored ?_ hspare
    split
    · exact hleft
    · exact h
  | run p regs frames =>
    cases hstep
    exact (h.frames frames).setVcpu (h.masks p)

/-- In every run in which the payload passes no set with one of the two signals, no mask has one,
and nothing holds them back. -/
theorem kill_and_stop_never_blocked (env : FrameEnv) {g : Guest}
    (h : Reach ((maskSystem env).restrict fun g a _ => a.Sparing env g) g) (p : Nat) :
    Spares (g.vcpu p).thr.sigmask ∧
      ∀ info, info.signo ∈ [sigKill, sigStop] → isBlocked (g.vcpu p).thr.sigmask info = false := by
  have hunblocked : Unblocked g := by
    refine Reach.inv (fun g hg => ?_) (fun g a g' hg hstep => ?_) h
    · refine ⟨fun p => ?_, fun i => ?_, fun signo hsigno => ?_⟩
      · rw [hg.1 p]
        decide
      · rw [hg.2 i]
        show Spares 0
        decide
      · rw [hg.2]
    · exact hg.step hstep.1 hstep.2
  have hmask := (hunblocked.masks p).1
  refine ⟨hmask, fun info hinfo => ?_⟩
  rw [isBlocked, hmask info.signo hinfo, Bool.false_and]

def freshGuest : Guest := withAction 0 ⟨sigDfl, 0, 0, 0⟩

theorem freshGuest_init : (maskSystem testEnv).init freshGuest := by
  refine ⟨fun p => ?_, fun _ => rfl⟩
  by_cases hp : p = 0
  · rw [hp]
    decide +kernel
  rw [show freshGuest.vcpu p = _ from update_of_ne hp ..]
  rfl

theorem kill_and_stop_never_blocked_setmask :
    Spares ((kmRtSigprocmask freshGuest 0 .setmask 1).1.vcpu 0).thr.sigmask :=
  (kill_and_stop_never_blocked testEnv (Reach.step (a := .sigprocmask 0 .setmask 1)
    (Reach.init freshGuest_init) ⟨rfl, .inr (by decide)⟩) 0).1

/-- `rt_sigprocmask(SIG_SETMASK)` with all signals blocks `SIGKILL`. -/
theorem sigprocmask_blocks_kill : ∃ g, Reach (maskSystem testEnv) g ∧
      isBlocked (g.vcpu 0).thr.sigmask (killInfo sigKill) :=
  ⟨_, Reach.step (a := .sigprocmask 0 .setmask (BitVec.allOnes 64)) (Reach.init freshGuest_init) rfl,
    by decide +kernel⟩

end KontainMonitor.Vcpus
