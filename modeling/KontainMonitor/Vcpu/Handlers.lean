import KontainMonitor.Signal.Selection
import KontainMonitor.Vcpu.Pool

/-!
# Handlers — delivering signals to guest handlers (`km_signal.c`)

`do_guest_handler` saves the registers and the mask of a vcpu in a frame in guest memory and sets
the vcpu up to run the handler; `km_rt_sigreturn` reads the frame back.  Guest memory is a function
that says which frame the bytes at an address read as.
-/

namespace KontainMonitor.Vcpus

open Function Signal

/-! ## Actions -/

def sigDfl : Nat := 0
def sigIgn : Nat := 1

def saSiginfo : Nat := 0x4
def saRestorer : Nat := 0x04000000
def saOnstack : Nat := 0x08000000
def saNodefer : Nat := 0x40000000
def saResethand : Nat := 0x80000000

/-- `km_sigaction_t`. -/
structure SigAction where
  handler : Nat
  saFlags : Nat
  restorer : Nat
  saMask : SigSet
  deriving DecidableEq

def sigQuit : Nat := 3
def sigChld : Nat := 17
def sigUrg : Nat := 23
def sigWinch : Nat := 28

def noCatchSignals : SigSet := [sigKill, sigStop].foldl kmSigaddset 0

def defIgnSignals : SigSet := [sigChld, sigUrg, sigWinch].foldl kmSigaddset 0

/-! ## Frames -/

/-- `km_signal_frame_t` and the state of the driver behind it; the saved `rflags` are kept with the
other registers. -/
structure SignalFrame where
  returnAddr : Nat
  gregs : Regs
  ucSigmask : SigSet
  info : SigInfo
  hcArgsp : Nat
  fpstate : List (BitVec 8)
  deriving DecidableEq

/-- Sizes and addresses that the compiler, the runtime and the driver decide. -/
structure FrameEnv where
  frameSize : Nat
  fpstateSize : Nat
  infoOffset : Nat
  ucontextOffset : Nat
  kmSigreturn : Nat
  stackAdjustment : Nat

/-- The machine, guest memory read as frames, and `machine.sigactions`. -/
structure Guest where
  machine : Machine
  frames : Nat → SignalFrame
  sigactions : Nat → SigAction

def wrap (a : Int) : Nat := (a % 2 ^ 64).toNat

def redZone : Nat := 128

def kmOnAltstack (x : Vcpu) (sp : Nat) : Bool :=
  x.thr.sigaltstack.sp ≤ sp && sp < wrap (x.thr.sigaltstack.sp + x.thr.sigaltstack.size)

def sframeGva (env : FrameEnv) (x : Vcpu) (act : SigAction) : Nat :=
  let top :=
    if hasFlag act.saFlags saOnstack && x.thr.sigaltstack.size ≠ 0 &&
        !kmOnAltstack x x.regs.rsp then
      wrap (x.thr.sigaltstack.sp + x.thr.sigaltstack.size)
    else wrap (x.regs.rsp - redZone)
  let room := wrap (top - (env.frameSize + env.fpstateSize))
  wrap ((room - room % 16 : Nat) - 8)

def Guest.vcpu (g : Guest) (p : Nat) : Vcpu := g.machine.heap p

def Guest.setVcpu (g : Guest) (p : Nat) (f : Vcpu → Vcpu) : Guest :=
  { g with machine := g.machine.setVcpu p f }

/-- The frame of `do_guest_handler`, with what `save_signal_context` puts into it. -/
def saveSignalContext (env : FrameEnv) (g : Guest) (p : Nat) (info : SigInfo) (act : SigAction) :
    SignalFrame where
  returnAddr := if hasFlag act.saFlags saRestorer then act.restorer else env.kmSigreturn
  gregs := (g.vcpu p).regs
  ucSigmask := (g.vcpu p).thr.sigmask
  info := info
  hcArgsp := g.machine.hcargs (g.vcpu p).vcpuId
  fpstate := (g.vcpu p).fpstate

def guestHandlerMask (mask : SigSet) (act : SigAction) (signo : Nat) : SigSet :=
  kmSigaddset (if hasFlag act.saFlags saSiginfo then mask ||| act.saMask else mask) signo

def doGuestHandler (env : FrameEnv) (g : Guest) (p : Nat) (info : SigInfo) (act : SigAction) :
    Guest :=
  let sframe := sframeGva env (g.vcpu p) act
  let frame := saveSignalContext env g p info act
  { g with frames := update g.frames sframe frame }.setVcpu p fun x =>
    { x with
      thr := { x.thr with sigmask := guestHandlerMask x.thr.sigmask act info.signo }
      regs := { x.regs with
        rsp := sframe
        rip := act.handler
        rdi := info.signo
        rsi := wrap (sframe + env.infoOffset)
        rdx := wrap (sframe + env.ucontextOffset) } }

/-- What becomes of a signal. -/
inductive Delivery
  | ignored
  | terminates (core : Bool)
  | handler (g : Guest)

def kmDeliverSignal (env : FrameEnv) (g : Guest) (p : Nat) (info : SigInfo) : Delivery :=
  let act := g.sigactions (kmSigindex info.signo)
  if act.handler = sigIgn then .ignored
  else if act.handler = sigDfl then
    if kmSigismember defIgnSignals info.signo then .ignored
    else .terminates (kmSigismember perrorSignals info.signo || info.signo = sigQuit)
  else
    let g := doGuestHandler env g p info act
    if hasFlag act.saFlags saResethand then
      .handler { g with
        sigactions := update g.sigactions (kmSigindex info.signo)
          { act with handler := sigDfl, saFlags := act.saFlags &&& (2 ^ 32 - 1 - saResethand) } }
    else .handler g

/-! ## Hypercalls -/

def kmRtSigsuspendRevert (g : Guest) (p : Nat) : Guest :=
  g.setVcpu p fun x =>
    if x.thr.inSigsuspend then
      { x with thr := { x.thr with sigmask := x.thr.savedSigmask, inSigsuspend := false } }
    else x

/-- What `km_rt_sigsuspend` does to the masks of its thread before it waits. -/
def sigsuspendMasks (g : Guest) (p : Nat) (mask : SigSet) : Guest :=
  g.setVcpu p fun x =>
    { x with thr := { x.thr with
        inSigsuspend := true
        savedSigmask := x.thr.sigmask
        sigmask := mask } }

def restoreSignalContext (g : Guest) (p : Nat) (frame : SignalFrame) : Guest :=
  let g := g.setVcpu p fun x =>
    { x with
      regs := frame.gregs
      thr := { x.thr with sigmask := frame.ucSigmask }
      fpstate := frame.fpstate }
  { g with machine := { g.machine with
      hcargs := update g.machine.hcargs (g.vcpu p).vcpuId frame.hcArgsp } }

/-- The frame that `km_rt_sigreturn` reads, from the stack pointer at the hypercall. -/
def returnFrameGva (env : FrameEnv) (rsp : Nat) : Nat := wrap (rsp + env.stackAdjustment - 8)

def kmRtSigreturn (env : FrameEnv) (g : Guest) (p : Nat) : Guest :=
  let frame := g.frames (returnFrameGva env (g.vcpu p).regs.rsp)
  let leaves := kmOnAltstack (g.vcpu p) (g.vcpu p).regs.rsp &&
    !kmOnAltstack (g.vcpu p) frame.gregs.rsp
  let g := if leaves then g.setVcpu p fun x =>
      { x with thr := { x.thr with sigaltstack := { x.thr.sigaltstack with flags := 0 } } }
    else g
  restoreSignalContext g p frame

def kmSigdelset (set : SigSet) (signo : Nat) : SigSet :=
  if 1 ≤ signo ∧ signo < nSig then set &&& ~~~(1#64 <<< kmSigindex signo) else set

/-- The first argument of `rt_sigprocmask`. -/
inductive How
  | block
  | unblock
  | setmask
  | other
  deriving DecidableEq

/-- The numbers of signals, in the order of the loops of `km_rt_sigprocmask`. -/
def signos : List Nat := (List.range (nSig - 1)).map (· + 1)

/-- The mask that `km_rt_sigprocmask` leaves; `none` is `-EINVAL`. -/
def sigprocmaskMask (mask : SigSet) (how : How) (set : SigSet) : Option SigSet :=
  match how with
  | .block => some (signos.foldl
      (fun mask signo => if kmSigismember set signo then kmSigaddset mask signo else mask) mask)
  | .unblock => some (signos.foldl
      (fun mask signo => if kmSigismember set signo then kmSigdelset mask signo else mask) mask)
  | .setmask => some set
  | .other => none

def kmRtSigprocmask (g : Guest) (p : Nat) (how : How) (set : SigSet) : Guest × Int :=
  match sigprocmaskMask (g.vcpu p).thr.sigmask how set with
  | some mask => (g.setVcpu p fun x => { x with thr := { x.thr with sigmask := mask } }, 0)
  | none => (g, -einval)

def kmRtSigaction (g : Guest) (signo : Nat) (act : SigAction) : Guest × Int :=
  if signo < 1 ∨ nSig ≤ signo then (g, -einval)
  else if kmSigismember noCatchSignals signo then (g, -einval)
  else ({ g with sigactions := update g.sigactions (kmSigindex signo) act }, 0)

/-! ## Masks -/

variable {env : FrameEnv} {g : Guest} {p : Nat} {info : SigInfo} {act : SigAction}

def SigAction.Handled (act : SigAction) : Prop := act.handler ≠ sigDfl ∧ act.handler ≠ sigIgn

@[simp] theorem Guest.vcpu_setVcpu (f : Vcpu → Vcpu) : (g.setVcpu p f).vcpu p = f (g.vcpu p) :=
  update_self ..

theorem Guest.vcpu_setVcpu_of_ne {q : Nat} (hq : q ≠ p) (f : Vcpu → Vcpu) :
    (g.setVcpu p f).vcpu q = g.vcpu q :=
  update_of_ne hq ..

/-- Delivery to a handler is `do_guest_handler`, up to the action that is left. -/
theorem kmDeliverSignal_handled (hact : (g.sigactions (kmSigindex info.signo)).Handled) :
    ∃ actions, kmDeliverSignal env g p info =
      .handler { doGuestHandler env g p info (g.sigactions (kmSigindex info.signo)) with
        sigactions := actions } := by
  simp only [kmDeliverSignal, if_neg hact.2, if_neg hact.1]
  split
  · exact ⟨_, rfl⟩
  · exact ⟨_, rfl⟩

theorem doGuestHandler_vcpu : (doGuestHandler env g p info act).vcpu p = { g.vcpu p with
      thr := { (g.vcpu p).thr with
        sigmask := guestHandlerMask (g.vcpu p).thr.sigmask act info.signo }
      regs := { (g.vcpu p).regs with
        rsp := sframeGva env (g.vcpu p) act
        rip := act.handler
        rdi := info.signo
        rsi := wrap (sframeGva env (g.vcpu p) act + env.infoOffset)
        rdx := wrap (sframeGva env (g.vcpu p) act + env.ucontextOffset) } } := by
  simp only [doGuestHandler, Guest.vcpu_setVcpu]
  rfl

theorem doGuestHandler_frames :
    (doGuestHandler env g p info act).frames (sframeGva env (g.vcpu p) act) =
      saveSignalContext env g p info act :=
  update_self ..

theorem restoreSignalContext_vcpu (frame : SignalFrame) :
    (restoreSignalContext g p frame).vcpu p = { g.vcpu p with
      regs := frame.gregs
      thr := { (g.vcpu p).thr with sigmask := frame.ucSigmask }
      fpstate := frame.fpstate } := by
  have hvcpu : (restoreSignalContext g p frame).vcpu p = (g.setVcpu p fun x =>
      { x with
        regs := frame.gregs
        thr := { x.thr with sigmask := frame.ucSigmask }
        fpstate := frame.fpstate }).vcpu p := rfl
  rw [hvcpu, Guest.vcpu_setVcpu]

theorem kmRtSigreturn_sigmask : ((kmRtSigreturn env g p).vcpu p).thr.sigmask =
      (g.frames (returnFrameGva env (g.vcpu p).regs.rsp)).ucSigmask := by
  simp only [kmRtSigreturn, restoreSignalContext_vcpu]

end KontainMonitor.Vcpus
