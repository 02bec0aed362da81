import KontainMonitor.Vcpu.Handlers

/-!
# HandlerMasks — the signal mask while a handler runs, and after it

A handler should run with the mask of the thread, the `sa_mask` of its action and, unless
`SA_NODEFER` is set, its own signal (`handlerMask`), and leave the mask as it was.
`do_guest_handler` adds `sa_mask` only with `SA_SIGINFO` and the signal always.  A handler that ends
`rt_sigsuspend` gets the masks the wrong way round: `km_rt_sigsuspend_revert` puts the saved mask
back before the handler runs, and the frame has the mask of the wait.
-/

namespace KontainMonitor.Vcpus

open Signal

variable {env : FrameEnv} {g : Guest} {p : Nat} {info : SigInfo} {act : SigAction}

/-! ## Sets of signals -/

theorem kmSigismember_or (a b : SigSet) (signo : Nat) :
    kmSigismember (a ||| b) signo = (kmSigismember a signo || kmSigismember b signo) := by
  simp only [kmSigismember_eq, BitVec.getLsbD_or]

/-- Sets of signals with the same signals are equal. -/
theorem sigset_ext {a b : SigSet}
    (h : ∀ signo, 1 ≤ signo → signo < nSig → kmSigismember a signo = kmSigismember b signo) :
    a = b := by
  refine BitVec.eq_of_getLsbD_eq fun i hi => ?_
  have hsigno := h (i + 1) (by omega) (by simp only [nSig]; omega)
  rwa [kmSigismember_eq, kmSigismember_eq, kmSigindex, Nat.add_sub_cancel] at hsigno

def CoveredBy (a b : SigSet) (signo : Nat) : Prop :=
  ∀ k, 1 ≤ k → k < nSig → k ≠ signo → kmSigismember a k → kmSigismember b k

/-! ## Entering and leaving a handler -/

def handlerMask (mask : SigSet) (act : SigAction) (signo : Nat) : SigSet :=
  if hasFlag act.saFlags saNodefer then mask ||| act.saMask
  else kmSigaddset (mask ||| act.saMask) signo

/-- What `km_vcpu_run` does with a signal that it has dequeued, if a handler is called. -/
def enterHandler (env : FrameEnv) (g : Guest) (p : Nat) (info : SigInfo) : Option Guest :=
  match kmDeliverSignal env g p info with
  | .handler g => some (kmRtSigsuspendRevert g p)
  | _ => none

/-- The handler that was entered in `g` has left its frame alone and returns from `g'`. -/
structure ReturnsFrom (env : FrameEnv) (g g' : Guest) (p : Nat) : Prop where
  frame : g'.frames (g.vcpu p).regs.rsp = g.frames (g.vcpu p).regs.rsp
  rsp : returnFrameGva env (g'.vcpu p).regs.rsp = (g.vcpu p).regs.rsp

theorem wrap_eq (a : Int) : (wrap a : Int) = a % 2 ^ 64 := by
  rw [wrap, Int.toNat_of_nonneg (Int.emod_nonneg _ (by decide))]

theorem wrap_wrap_add (a b : Int) : wrap (wrap a + b) = wrap (a + b) := by
  rw [wrap, wrap_eq, Int.emod_add_emod, wrap]

/-- A handler can return. -/
theorem exists_returnsFrom {a : Int} (hrsp : (g.vcpu p).regs.rsp = wrap a) :
    ∃ g', ReturnsFrom env g g' p := by
  refine ⟨g.setVcpu p fun x =>
    { x with regs := { x.regs with rsp := wrap (a + (8 - env.stackAdjustment)) } }, rfl, ?_⟩
  rw [Guest.vcpu_setVcpu, returnFrameGva, Int.add_sub_assoc, wrap_wrap_add, hrsp]
  congr 1
  omega

theorem kmRtSigsuspendRevert_sigmask : ((kmRtSigsuspendRevert g p).vcpu p).thr.sigmask =
      if (g.vcpu p).thr.inSigsuspend then (g.vcpu p).thr.savedSigmask
      else (g.vcpu p).thr.sigmask := by
  rw [kmRtSigsuspendRevert, Guest.vcpu_setVcpu]
  split <;> rfl

theorem kmRtSigsuspendRevert_rsp :
    ((kmRtSigsuspendRevert g p).vcpu p).regs.rsp = (g.vcpu p).regs.rsp := by
  rw [kmRtSigsuspendRevert, Guest.vcpu_setVcpu]
  split <;> rfl

/-- The masks of a thread around a handler. -/
theorem enterHandler_masks (env : FrameEnv) (p : Nat)
    (hact : (g.sigactions (kmSigindex info.signo)).Handled) :
    ∃ g', enterHandler env g p info = some g' ∧
      (g'.vcpu p).thr.sigmask = (if (g.vcpu p).thr.inSigsuspend then (g.vcpu p).thr.savedSigmask
        else guestHandlerMask (g.vcpu p).thr.sigmask (g.sigactions (kmSigindex info.signo))
          info.signo) ∧ (∃ g'', ReturnsFrom env g' g'' p) ∧ ∀ g'', ReturnsFrom env g' g'' p →
        ((kmRtSigreturn env g'' p).vcpu p).thr.sigmask = (g.vcpu p).thr.sigmask := by
  obtain ⟨actions, hdeliver⟩ := kmDeliverSignal_handled hact
  generalize g.sigactions (kmSigindex info.signo) = act at hdeliver ⊢
  generalize hg1 : { doGuestHandler env g p info act with sigactions := actions } = g1 at hdeliver
  have hvcpu : g1.vcpu p = (doGuestHandler env g p info act).vcpu p := by
    rw [← hg1]
    rfl
  have hrsp : ((kmRtSigsuspendRevert g1 p).vcpu p).regs.rsp = sframeGva env (g.vcpu p) act := by
    rw [kmRtSigsuspendRevert_rsp, hvcpu, doGuestHandler_vcpu]
  have hframe : (kmRtSigsuspendRevert g1 p).frames (sframeGva env (g.vcpu p) act) =
      saveSignalContext env g p info act := by
    rw [← doGuestHandler_frames, ← hg1]
    rfl
  refine ⟨kmRtSigsuspendRevert g1 p, ?_, ?_, exists_returnsFrom hrsp, fun g'' hret => ?_⟩
  · rw [enterHandler, hdeliver]
  · rw [kmRtSigsuspendRevert_sigmask, hvcpu, doGuestHandler_vcpu]
  · rw [kmRtSigreturn_sigmask, hret.rsp, hret.frame, hrsp, hframe, saveSignalContext]

/-! ## The mask of a handler -/

/-- Whether the code's mask is the right one. -/
theorem guestHandlerMask_eq_iff {mask : SigSet} {signo : Nat} (hlow : 1 ≤ signo)
    (hlt : signo < nSig) : guestHandlerMask mask act signo = handlerMask mask act signo ↔
      (hasFlag act.saFlags saSiginfo ∨ CoveredBy act.saMask mask signo) ∧
      (hasFlag act.saFlags saNodefer = false ∨ kmSigismember (mask ||| act.saMask) signo) := by
  have hcode : ∀ k, 1 ≤ k → kmSigismember (guestHandlerMask mask act signo) k =
      (kmSigismember mask k || (hasFlag act.saFlags saSiginfo && kmSigismember act.saMask k) ||
        k == signo) := by
    intro k hk
    rw [guestHandlerMask, kmSigismember_kmSigaddset hk hlow hlt]
    cases hasFlag act.saFlags saSiginfo <;> simp [kmSigismember_or]
  have hright : ∀ k, 1 ≤ k → kmSigismember (handlerMask mask act signo) k =
      (kmSigismember mask k || kmSigismember act.saMask k ||
        (!hasFlag act.saFlags saNodefer && k == signo)) := by
    intro k hk
    rw [handlerMask]
    cases hasFlag act.saFlags saNodefer
    · simp [kmSigismember_kmSigaddset hk hlow hlt, kmSigismember_or]
    · simp [kmSigismember_or]
  constructor
  · intro heq
    refine ⟨?_, ?_⟩
    · by_contra hno
      obtain ⟨hinfo, hcov⟩ := not_or.1 hno
      refine hcov fun k hk hk' hne hmem => ?_
      have hk := (hcode k hk).symm.trans ((congrArg (kmSigismember · k) heq).trans (hright k hk))
      simpa [hinfo, hmem, hne] using hk
    have hk := (hcode signo hlow).symm.trans
      ((congrArg (kmSigismember · signo) heq).trans (hright signo hlow))
    rw [kmSigismember_or]
    cases hdefer : hasFlag act.saFlags saNodefer with
    | false => exact .inl rfl
    | true => exact .inr (by simpa [hdefer] using hk)
  rintro ⟨hinfo, hdefer⟩
  refine sigset_ext fun k hk hk' => ?_
  rw [hcode k hk, hright k hk]
  by_cases hks : k = signo
  · subst hks
    rw [kmSigismember_or] at hdefer
    rcases hdefer with hdefer | hdefer
    · simp [hdefer]
    · simp [hdefer]
  rcases hinfo with hinfo | hcov
  · simp [hinfo, beq_false_of_ne hks]
  cases hmem : kmSigismember act.saMask k with
  | false => simp [beq_false_of_ne hks]
  | true => simp [hcov k hk hk' hks hmem]

/-- The mask during a handler is right exactly if the action has `SA_SIGINFO` or no further signals
in its `sa_mask`, and not `SA_NODEFER` without blocking its signal anyway; in `sigsuspend` it is the
saved mask.  The mask after the handler is always right. -/
theorem handler_mask_exact (env : FrameEnv) (g : Guest) (p : Nat) (info : SigInfo)
    (hlow : 1 ≤ info.signo) (hlt : info.signo < nSig)
    (hact : (g.sigactions (kmSigindex info.signo)).Handled) :
    let act := g.sigactions (kmSigindex info.signo)
    let mask := (g.vcpu p).thr.sigmask
    ∃ g', enterHandler env g p info = some g' ∧
      (((g'.vcpu p).thr.sigmask = handlerMask mask act info.signo ∧
          ∀ g'', ReturnsFrom env g' g'' p → ((kmRtSigreturn env g'' p).vcpu p).thr.sigmask = mask) ↔
        if (g.vcpu p).thr.inSigsuspend then
          (g.vcpu p).thr.savedSigmask = handlerMask mask act info.signo
        else (hasFlag act.saFlags saSiginfo ∨ CoveredBy act.saMask mask info.signo) ∧
          (hasFlag act.saFlags saNodefer = false ∨
            kmSigismember (mask ||| act.saMask) info.signo)) := by
  obtain ⟨g', henter, hmask, -, hreturn⟩ := enterHandler_masks env p hact
  refine ⟨g', henter, ?_⟩
  rw [hmask, and_iff_left hreturn]
  split
  · rfl
  · exact guestHandlerMask_eq_iff hlow hlt

def withAction (mask : SigSet) (act : SigAction) : Guest where
  machine := Machine.init.setVcpu 0 fun x => { x with thr := { x.thr with sigmask := mask } }
  frames _ := ⟨0, Regs.zero, 0, killInfo 0, 0, []⟩
  sigactions _ := act

def testEnv : FrameEnv := ⟨1160, 512, 976, 8, 0x8000001000, 64⟩

/-- Without `SA_SIGINFO`, with signal 12 in `sa_mask`. -/
def plainAction : SigAction := ⟨0x400000, 0, 0, 1#64 <<< 11⟩

def siginfoAction : SigAction := { plainAction with saFlags := saSiginfo }

theorem handler_mask_exact_siginfo :
    ∃ g', enterHandler testEnv (withAction 0 siginfoAction) 0 (killInfo 10) = some g' ∧
      (g'.vcpu 0).thr.sigmask = handlerMask 0 siginfoAction 10 := by
  obtain ⟨g', henter, hiff⟩ := handler_mask_exact testEnv (withAction 0 siginfoAction) 0
    (killInfo 10) (by decide) (by decide) ⟨by decide, by decide⟩
  exact ⟨g', henter, (hiff.2 ⟨.inl (by decide), .inl (by decide)⟩).1⟩

/-- Signal 12 is not blocked while the handler of signal 10 runs. -/
theorem plain_handler_ignores_sa_mask :
    ((enterHandler testEnv (withAction 0 plainAction) 0 (killInfo 10)).map fun g' =>
      (kmSigismember (handlerMask 0 plainAction 10) 12,
        kmSigismember (g'.vcpu 0).thr.sigmask 12)) = some (true, false) := by
  decide +kernel

end KontainMonitor.Vcpus
