import KontainMonitor.Vcpu.HandlerMasks

/-!
# RunLoop — the loop of a vcpu (`km_vcpu_run.c`, `km_intr.c`)

One thread in `km_vcpu_run`: it waits while a pause is requested, enters the guest, handles the exit
and delivers a signal.  A hypercall that a pause has interrupted is marked with `restart` and made
again in the next turn, before the guest is entered; signal delivery does not know of the mark.  The
guest, the hypercalls and the other threads choose the actions of a run.
-/

namespace KontainMonitor.Vcpus

open Signal Transition

def InRange (info : SigInfo) : Prop := 1 ≤ info.signo ∧ info.signo < nSig

instance (info : SigInfo) : Decidable (InRange info) := inferInstanceAs (Decidable (_ ∧ _))

def kernelInfo (signo : Nat) : SigInfo := ⟨signo, siKernel, 0⟩

/-! ## Exceptions -/

def x86IntrOf : Nat := 4
def x86IntrSs : Nat := 12

def errorIncluded : List Nat :=
  [0, 0, 0, 0, 0, 0, 0, 0, 1, 255, 1, 1, 1, 1, 1, 255] ++ List.replicate 6 0 ++
    List.replicate 10 255

def interruptSigno (enumber : Nat) : Nat :=
  match enumber with
  | 0 | 7 | 16 => sigFpe
  | 1 | 3 => sigTrap
  | 4 | 12 => 0
  | 13 | 14 => sigSegv
  | 2 | 8 | 10 => sigSys
  | _ => sigIll

/-- `km_handle_interrupt`: the registers from before the exception, which the handler in the guest
has pushed, and the signal with its `si_addr`. -/
def kmHandleInterrupt (mem : Nat → Nat) (findFaulting : Vcpu → Nat) (cr2 : Nat) (x : Vcpu) :
    Option (Vcpu × SigInfo × Nat) :=
  let enumber := x.regs.rbx
  match errorIncluded[enumber]? with
  | none => none
  | some included =>
    -- never true: the entries are not signed
    if (included : Int) = -1 then none
    else
      let rsp := x.regs.rsp
      let iframe := if included ≠ 0 then rsp + 32 else rsp + 24
      let x := { x with
        regs := { x.regs with
          rax := mem rsp
          rbx := mem (rsp + 8)
          rdx := mem (rsp + 16)
          rip := mem iframe
          rsp := mem (iframe + 24) }
        sregs := { x.sregs with cs := mem (iframe + 8), ss := mem (iframe + 32) } }
      let addr := if enumber = 13 then findFaulting x else if enumber = 14 then cr2 else 0
      some (x, kernelInfo (interruptSigno enumber), addr)

theorem interruptSigno_inRange (enumber : Nat) : InRange (kernelInfo (interruptSigno enumber)) ↔
      enumber ≠ x86IntrOf ∧ enumber ≠ x86IntrSs := by
  unfold interruptSigno
  split <;> simp_all [InRange, kernelInfo, x86IntrOf, x86IntrSs, nSig, sigFpe, sigTrap, sigSegv,
    sigSys, sigIll]

/-! ## The loop -/

structure IoExit where
  port : Nat
  size : Nat
  out : Bool
  deriving DecidableEq

/-- Why `KVM_RUN` returned: `efault` is a failure with `EFAULT`, `failure` any exit on which the
monitor gives up; `stepping` says that gdb steps through a range of addresses. -/
inductive Exit
  | intr
  | efault
  | io (io : IoExit)
  | debug (stepping : Bool)
  | unknown (ins : Option Nat)
  | hlt
  | failure
  deriving DecidableEq

/-- Where the thread is in the loop. -/
inductive Pc
  | pause
  | kvmRun
  | handle (exit : Exit)
  | call
  | signals
  deriving DecidableEq

inductive Event
  | kvmRun
  | hcall (hc : Nat)
  | handler (info : SigInfo)
  | post (info : SigInfo)

/-- The thread, what it uses of its `km_vcpu_t` and of `kvm_run`, and what it has done, the last
event first. -/
structure Loop where
  pc : Pc
  state : VcpuState
  restart : Bool
  hypercall : Nat
  returnsSignal : Bool
  io : IoExit
  trace : List Event

inductive HcRet
  | continue
  | stop
  | allstop
  | dofork
  deriving DecidableEq

/-- `kill_unimpl_hcall`, and which entries of `km_hcalls_table` there are. -/
structure HcallTable where
  killUnimpl : Bool
  defined : Nat → Bool

def kmHcallPortBase : Nat := 0x8000
def kmMaxHcall : Nat := 512
def eintr : Int := 4

def Loop.log (s : Loop) (e : Event) : Loop := { s with trace := e :: s.trace }

def hypercallNumber (t : HcallTable) (io : IoExit) : Except SigInfo Nat :=
  let hc := (io.port + 2 ^ 16 - kmHcallPortBase) % 2 ^ 16
  if ¬ (io.out ∧ io.size = 4 ∧ hc < kmMaxHcall) then .error (kernelInfo sigBus)
  else if t.killUnimpl && !t.defined hc then .error (kernelInfo sigSys)
  else .ok hc

/-- `hypercall` up to the function of the table; `mapped` says that the arguments can be read. -/
def hypercallStart (t : HcallTable) (s : Loop) (io : IoExit) (mapped : Bool) : Loop :=
  let start :=
    if s.restart then .ok { s with restart := false }
    else (hypercallNumber t io).map fun hc => { s with hypercall := hc }
  match start with
  | .error info => { s with pc := .signals }.log (.post info)
  | .ok s =>
    if mapped = false then { s with pc := .signals }.log (.post (kernelInfo sigSegv))
    else if t.defined s.hypercall then { s with pc := .call }.log (.hcall s.hypercall)
    else { s with pc := .signals }

def handleExit (s : Loop) : Exit → Option Loop
  | .intr => some { s with pc := .signals }
  | .efault => some ({ s with pc := .signals }.log (.post (kernelInfo sigSegv)))
  | .io _ => none
  | .debug stepping => some { s with pc := if stepping then .pause else .signals }
  | .unknown ins =>
    if ins = some 0xf4 then some ({ s with pc := .signals }.log (.post (kernelInfo sigSegv)))
    else none
  | .hlt => some ({ s with pc := .signals }.log (.post (kernelInfo sigSegv)))
  | .failure => none

def Loop.deliver (s : Loop) (info : SigInfo) : Delivery → Option Loop
  | .ignored => some s
  | .terminates _ => none
  | .handler _ => some (s.log (.handler info))

/-- `stop` is the handler of the signal that stops a vcpu, `wait` and `go` are `km_vcpu_handle_pause`,
`gdb` is `km_deliver_signal_from_gdb` while the thread waits; `call` and `ret` begin and end
`hypercall`, and `signals` is the end of a turn. -/
inductive Act
  | stop
  | wait
  | gdb (info : SigInfo) (delivery : Delivery)
  | go
  | run (exit : Exit)
  | exit
  | call (mapped : Bool)
  | ret (r : HcRet) (hcRet : Int) (returnsSignal : Bool)
  | signals (gdb : Bool) (found : Option (SigInfo × Delivery))

def Loop.step (t : HcallTable) (s : Loop) (a : Act) : Option Loop :=
  match a, s.pc with
  | .stop, _ => some (if s.state = .hypercall then { s with state := .hcallInt } else s)
  | .wait, .pause => some { s with state := .paused }
  | .gdb info delivery, .pause =>
    if s.returnsSignal then some { s with returnsSignal := false } else s.deliver info delivery
  | .go, .pause =>
    some { s with
      state := if s.state = .paused then .hypercall else s.state
      pc := if s.restart then .handle (.io s.io) else .kvmRun }
  | .run (.io io), .kvmRun =>
    some ({ s with state := .hypercall, io := io, pc := .handle (.io io) }.log .kvmRun)
  | .run exit, .kvmRun => some ({ s with state := .hypercall, pc := .handle exit }.log .kvmRun)
  | .exit, .handle exit => handleExit s exit
  | .call mapped, .handle (.io io) => some (hypercallStart t s io mapped)
  | .ret r hcRet returnsSignal, .call =>
    -- `exit_group` does not come back
    if r = .allstop then none
    else some { s with
      pc := .signals
      restart := hcRet = -eintr ∧ s.state = .hcallInt
      returnsSignal := s.returnsSignal || returnsSignal }
  | .signals gdb found, .signals =>
    let s := { s with pc := .pause }
    if s.returnsSignal then some { s with returnsSignal := gdb }
    else
      match found with
      | none => some s
      | some (info, delivery) => if gdb then some s else s.deliver info delivery
  | _, _ => none

/-- Runs of a thread that is new, or that a snapshot has brought back. -/
def loopSystem (t : HcallTable) : System Loop Act where
  init s := s.pc = .pause ∧ s.trace = []
  step s a s' := s.step t a = some s'

variable {t : HcallTable} {s s' : Loop} {a : Act}
variable {exit : Exit} {io : IoExit} {info : SigInfo}

/-! ## One step -/

/-- Nothing is marked for restart, and the next thing the thread does is to enter the guest. -/
def Loop.EntersNext (s : Loop) : Prop := s.restart = false ∧ (s.pc = .pause ∨ s.pc = .kvmRun)

def Act.SetsUp (info : SigInfo) (a : Act) : Prop :=
  ∃ g, a = .gdb info (.handler g) ∨ a = .signals false (some (info, .handler g))

/-- What a step appends to the trace, and where. -/
inductive Loop.Logs (s : Loop) (a : Act) (s' : Loop) : Prop
  | nothing (htrace : s'.trace = s.trace) (hnext : s.EntersNext → s'.EntersNext)
  | post (exit : Exit) (info : SigInfo) (hpc : s.pc = .handle exit) (hrange : InRange info)
      (htrace : s'.trace = .post info :: s.trace)
  | kvmRun (htrace : s'.trace = .kvmRun :: s.trace)
  | hcall (exit : Exit) (hc : Nat) (hpc : s.pc = .handle exit)
      (htrace : s'.trace = .hcall hc :: s.trace)
  | handler (info : SigInfo) (ha : a.SetsUp info) (hrestart : s'.restart = s.restart)
      (hpc : s'.pc = .pause) (htrace : s'.trace = .handler info :: s.trace)

theorem Loop.EntersNext.not_handle (h : s.EntersNext) : s.pc ≠ .handle exit := by
  rcases h.2 with hpc | hpc <;> rw [hpc] <;> exact Pc.noConfusion

/-- A step from any other place of the loop need not say what comes next. -/
theorem Loop.Logs.elsewhere (htrace : s'.trace = s.trace)
    (hpc : s.pc ≠ .pause ∧ s.pc ≠ .kvmRun) : s.Logs a s' :=
  .nothing htrace fun h => (h.2.elim hpc.1 hpc.2).elim

theorem hypercallNumber_error (h : hypercallNumber t io = .error info) : InRange info := by
  simp only [hypercallNumber] at h
  split at h
  · cases h
    decide
  split at h
  · cases h
    decide
  · cases h

theorem hypercallStart_logs {mapped : Bool} (hpc : s.pc = .handle (.io io)) :
    s.Logs a (hypercallStart t s io mapped) := by
  -- both ways to the number of the call leave the trace alone
  have hstart : ∀ s1 : Loop, s1.trace = s.trace → s.Logs a
      (if mapped = false then { s1 with pc := .signals }.log (.post (kernelInfo sigSegv))
        else if t.defined s1.hypercall then { s1 with pc := .call }.log (.hcall s1.hypercall)
        else { s1 with pc := .signals }) := by
    intro s1 htrace
    split
    · exact .post _ _ hpc (by decide) (congrArg _ htrace)
    split
    · exact .hcall _ _ hpc (congrArg _ htrace)
    · exact .elsewhere htrace (by rw [hpc]; exact ⟨Pc.noConfusion, Pc.noConfusion⟩)
  rw [hypercallStart]
  by_cases hrestart : s.restart
  · rw [if_pos hrestart]
    exact hstart { s with restart := false } rfl
  rw [if_neg hrestart]
  cases hnum : hypercallNumber t io with
  | error info => exact .post _ info hpc (hypercallNumber_error hnum) rfl
  | ok hc => exact hstart { s with hypercall := hc } rfl

theorem handleExit_logs (hpc : s.pc = .handle exit) (h : handleExit s exit = some s') :
    s.Logs a s' := by
  have hother : s.pc ≠ .pause ∧ s.pc ≠ .kvmRun := by
    rw [hpc]
    exact ⟨Pc.noConfusion, Pc.noConfusion⟩
  cases exit with
  | intr | debug =>
    cases h
    exact .elsewhere rfl hother
  | efault | hlt =>
    cases h
    exact .post _ _ hpc (by decide) rfl
  | io io => cases h
  | unknown ins =>
    simp only [handleExit] at h
    split at h
    · cases h
      exact .post _ _ hpc (by decide) rfl
    · cases h
  | failure => cases h

theorem deliver_logs {r : Loop} {delivery : Delivery} (htrace : r.trace = s.trace)
    (hrestart : r.restart = s.restart) (hpc : r.pc = .pause)
    (ha : ∀ g, delivery = .handler g → a.SetsUp info) (h : r.deliver info delivery = some s') :
    s.Logs a s' := by
  cases delivery with
  | ignored =>
    cases h
    exact .nothing htrace fun hnext => ⟨hrestart.trans hnext.1, .inl hpc⟩
  | terminates core => cases h
  | handler g =>
    cases h
    exact .handler info (ha g rfl) hrestart hpc (congrArg _ htrace)

theorem Loop.step_logs (h : s.step t a = some s') : s.Logs a s' := by
  unfold Loop.step at h
  split at h
  case h_1 =>
    cases h
    split
    · exact .nothing rfl id
    · exact .nothing rfl id
  case h_2 hpc =>
    cases h
    exact .nothing rfl id
  case h_3 info delivery hpc =>
    split at h
    · cases h
      exact .nothing rfl id
    refine deliver_logs rfl rfl hpc (fun g hg => ⟨g, .inl ?_⟩) h
    rw [hg]
  case h_4 hpc =>
    cases h
    refine .nothing rfl fun hnext => ⟨hnext.1, .inr ?_⟩
    simp only [hnext.1, Bool.false_eq_true, if_false]
  case h_5 =>
    cases h
    exact .kvmRun rfl
  case h_6 =>
    cases h
    exact .kvmRun rfl
  case h_7 exit hpc => exact handleExit_logs hpc h
  case h_8 mapped io hpc =>
    cases h
    exact hypercallStart_logs hpc
  case h_9 hpc =>
    split at h
    · cases h
    cases h
    exact .elsewhere rfl (by rw [hpc]; exact ⟨Pc.noConfusion, Pc.noConfusion⟩)
  case h_10 gdb found hpc =>
    have hother : s.pc ≠ .pause ∧ s.pc ≠ .kvmRun := by
      rw [hpc]
      exact ⟨Pc.noConfusion, Pc.noConfusion⟩
    simp only at h
    split at h
    · cases h
      exact .elsewhere rfl hother
    split at h
    · cases h
      exact .elsewhere rfl hother
    case h_2 info delivery =>
      split at h
      · cases h
        exact .elsewhere rfl hother
      case isFalse hgdb =>
        refine deliver_logs (r := { s with pc := .pause }) rfl rfl rfl (fun g hg => ⟨g, .inr ?_⟩) h
        rw [hg, eq_false_of_ne_true hgdb]
  case h_11 => cases h

/-! ## The signals of faults -/

/-- The signal of an exception has a number in range exactly if it is neither an overflow nor a
stack fault; those of exits always have. -/
theorem fault_signals_in_range (t : HcallTable) : (∀ mem findFaulting cr2 x x' info addr,
      kmHandleInterrupt mem findFaulting cr2 x = some (x', info, addr) →
        (InRange info ↔ x.regs.rbx ≠ x86IntrOf ∧ x.regs.rbx ≠ x86IntrSs)) ∧
    ∀ s, Reach (loopSystem t) s → ∀ info, .post info ∈ s.trace → InRange info := by
  refine ⟨fun mem findFaulting cr2 x x' info addr h => ?_, fun s h => ?_⟩
  · simp only [kmHandleInterrupt] at h
    split at h
    · cases h
    split at h
    · cases h
    cases h
    exact interruptSigno_inRange x.regs.rbx
  refine Reach.inv (S := loopSystem t)
    (I := fun s => ∀ info, .post info ∈ s.trace → InRange info) (fun s hs info hmem => ?_)
    (fun s a s' ih hstep info hmem => ?_) h
  · rw [hs.2] at hmem
    cases hmem
  cases Loop.step_logs hstep with
  | nothing htrace => exact ih info (htrace ▸ hmem)
  | post exit posted _ hrange htrace =>
    rw [htrace] at hmem
    rcases List.mem_cons.1 hmem with heq | hmem
    · cases heq
      exact hrange
    · exact ih info hmem
  | kvmRun htrace | hcall _ _ _ htrace | handler _ _ _ _ htrace =>
    rw [htrace] at hmem
    exact ih info ((List.mem_cons.1 hmem).resolve_left Event.noConfusion)

def raised (enumber : Nat) : Vcpu :=
  { Vcpu.calloc with regs := { Regs.zero with rbx := enumber } }

theorem fault_signals_in_range_divide : InRange (kernelInfo (interruptSigno 0)) :=
  ((fault_signals_in_range ⟨false, fun _ => true⟩).1 (fun _ => 0) (fun _ => 0) 0 (raised 0) _ _ 0
    rfl).2 (by decide)

/-- An overflow exception becomes signal 0. -/
theorem overflow_posts_zero : (kmHandleInterrupt (fun _ => 0) (fun _ => 0) 0 (raised x86IntrOf)).map
      (fun r => (r.2.1.signo, decide (InRange r.2.1))) = some (0, false) := by
  decide

/-! ## Handlers and hypercalls -/

/-- Between the set-up of a handler and a later hypercall the guest is entered. -/
def HandlerFirst (trace : List Event) : Prop :=
  ∀ later hc between info earlier,
    trace = later ++ .hcall hc :: (between ++ .handler info :: earlier) → .kvmRun ∈ between

/-- A handler is set up, and the guest has not been entered since. -/
def handlerPending : List Event → Bool
  | [] => false
  | .kvmRun :: _ => false
  | .handler _ :: _ => true
  | _ :: trace => handlerPending trace

theorem mem_of_handlerPending {earlier : List Event} :
    ∀ {between : List Event}, handlerPending (between ++ .handler info :: earlier) = false →
      .kvmRun ∈ between := by
  intro between
  induction between with
  | nil =>
    intro h
    cases h
  | cons e between ih =>
    intro h
    cases e with
    | kvmRun => exact .head _
    | handler => cases h
    | hcall | post => exact .tail _ (ih h)

theorem HandlerFirst.cons {e : Event} {trace : List Event} (h : HandlerFirst trace)
    (he : ∀ hc, e = .hcall hc → handlerPending trace = false) : HandlerFirst (e :: trace) := by
  intro later hc between info earlier heq
  cases later with
  | nil =>
    obtain ⟨rfl, rfl⟩ := List.cons.inj heq
    exact mem_of_handlerPending (he hc rfl)
  | cons e' later => exact h later hc between info earlier (List.cons.inj heq).2

def Act.Undisturbed (s : Loop) (a : Act) : Prop := ∀ info, a.SetsUp info → s.restart = false

structure Loop.Ordered (s : Loop) : Prop where
  first : HandlerFirst s.trace
  next : handlerPending s.trace → s.EntersNext

theorem Loop.Ordered.idle (h : s.Ordered) (hpc : s.pc = .handle exit) :
    handlerPending s.trace = false :=
  eq_false_of_ne_true fun hp => (h.next hp).not_handle hpc

theorem Loop.Ordered.step (h : s.Ordered) (hstep : s.step t a = some s')
    (hcond : a.Undisturbed s) : s'.Ordered := by
  cases Loop.step_logs hstep with
  | nothing htrace hnext => exact ⟨htrace ▸ h.first, fun hp => hnext (h.next (htrace ▸ hp))⟩
  | post exit info hpc _ htrace =>
    refine ⟨htrace ▸ h.first.cons fun hc heq => Event.noConfusion heq, fun hp => ?_⟩
    rw [htrace] at hp
    exact absurd ((h.idle hpc).symm.trans hp) Bool.false_ne_true
  | kvmRun htrace =>
    refine ⟨htrace ▸ h.first.cons fun hc heq => Event.noConfusion heq, fun hp => ?_⟩
    rw [htrace] at hp
    cases hp
  | hcall exit hc hpc htrace =>
    refine ⟨htrace ▸ h.first.cons fun _ _ => h.idle hpc, fun hp => ?_⟩
    rw [htrace] at hp
    exact absurd ((h.idle hpc).symm.trans hp) Bool.false_ne_true
  | handler info ha hrestart hpc htrace =>
    exact ⟨htrace ▸ h.first.cons fun hc heq => Event.noConfusion heq,
      fun _ => ⟨hrestart.trans (hcond info ha), .inl hpc⟩⟩

end KontainMonitor.Vcpus
