import Mathlib
import KontainMonitor.Lib.Places
import KontainMonitor.Lib.TailQueue
import KontainMonitor.Lib.Transition

/-!
# Queues — pending signals and the threads that wait for them (`km_signal.c`)

Signals wait in eight static entries, each of which is on the free list, on the list of the process
or on the list of a vcpu.  Threads in `sigsuspend` and `sigtimedwait` are on
`km_signal_wait_queue`; those in an interruptible hypercall on `km_signal_sleep_queue`.  Both queues
use the same link field of the vcpu, so they are modelled with their pointers.

Each critical section under the signal mutex is one step (`step`).  `km_post_signal` takes the mutex
up to four times; a call of it is an element of `posts`, with the section that it runs next.  Two
fields are not in the source: an entry remembers the call of `km_post_signal` that filled it, and
`handed` logs which thread dequeued the signal of which call.
-/

namespace KontainMonitor.Signal

open Function Places TailQueue

/-! ## Sets of signals -/

/-- `km_sigset_t`. -/
abbrev SigSet := BitVec 64

def nSig : Nat := 65
def sigRtmin : Nat := 34

def sigIll : Nat := 4
def sigTrap : Nat := 5
def sigAbrt : Nat := 6
def sigBus : Nat := 7
def sigFpe : Nat := 8
def sigKill : Nat := 9
def sigSegv : Nat := 11
def sigStop : Nat := 19
def sigSys : Nat := 31

def kmSigindex (signo : Nat) : Nat := signo - 1

def kmSigaddset (set : SigSet) (signo : Nat) : SigSet :=
  if 1 ≤ signo ∧ signo < nSig then set ||| 1#64 <<< kmSigindex signo else set

def kmSigismember (set : SigSet) (signo : Nat) : Bool := set &&& 1#64 <<< kmSigindex signo ≠ 0

def perrorSignals : SigSet :=
  [sigFpe, sigIll, sigSegv, sigBus, sigAbrt, sigTrap, sigSys].foldl kmSigaddset 0

def ignBlockSignals : SigSet := [sigBus, sigFpe, sigIll, sigSegv].foldl kmSigaddset 0

/-! ## Signals and their entries -/

def siUser : Int := 0
def siTkill : Int := -6
def siKernel : Int := 0x80

/-- The fields of `siginfo_t` that the monitor reads or fills in. -/
structure SigInfo where
  signo : Nat
  code : Int
  pid : Int
  deriving DecidableEq, Repr

def nSigEntry : Nat := 8

/-- An element of `signal_entries`. -/
abbrev Entry := Fin nSigEntry

/-- The contents of an entry, and the call of `km_post_signal` they come from. -/
structure Posted where
  info : SigInfo
  post : Nat

/-- The lists of entries: `machine.sigfree`, `machine.sigpending` and `sigpending` of a vcpu. -/
inductive Place (n : Nat)
  | free
  | process
  | thread (v : Fin n)
  deriving DecidableEq

def sigpri (signo : Nat) : Int := if kmSigismember perrorSignals signo then 0 else -(signo : Int)

def isBlocked (blocked : SigSet) (info : SigInfo) : Bool :=
  kmSigismember blocked info.signo &&
    (!kmSigismember ignBlockSignals info.signo || info.code ≠ siKernel)

/-! ## State -/

/-- Where a thread is: not in one of the two waiting hypercalls, or in `km_cond_wait` of one. -/
inductive Wait
  | running
  | sigsuspend
  | sigtimedwait (origmask : SigSet) (timed : Bool) (info : SigInfo)

structure Vcpu where
  sigmask : SigSet
  savedSigmask : SigSet
  inSigsuspend : Bool
  hypercallReturnsSignal : Int
  wait : Wait
  cvSignalled : Bool

/-- The next critical section of a call of `km_post_signal`. -/
inductive Stage
  | check
  | wakeup
  | enqueue
  | interrupt
  | dropped
  | done
  deriving DecidableEq

/-- A call of `km_post_signal`; a process-directed one has no target. -/
structure Post (n : Nat) where
  target : Option (Fin n)
  info : SigInfo
  stage : Stage

inductive SignalQueue
  | wait
  | sleep
  deriving DecidableEq

structure SigState (n : Nat) where
  lists : Place n → List Entry
  entries : Entry → Posted
  vcpus : Fin n → Vcpu
  links : Links SignalQueue (Fin n)
  posts : List (Post n)
  handed : List (Fin n × Nat)

variable {n : Nat}

section

variable (s : SigState n)

def SigState.setVcpu (v : Fin n) (f : Vcpu → Vcpu) : SigState n :=
  { s with vcpus := update s.vcpus v (f (s.vcpus v)) }

def SigState.setStage (c : Nat) (stage : Stage) : SigState n :=
  { s with posts := s.posts.modify c fun p => { p with stage := stage } }

/-- After `km_signal_init`, with threads that have some masks. -/
def SigState.init (masks : Fin n → SigSet) : SigState n where
  lists
    | .free => List.finRange nSigEntry
    | _ => []
  entries _ := { info := { signo := 0, code := 0, pid := 0 }, post := 0 }
  vcpus v :=
    { sigmask := masks v
      savedSigmask := 0
      inSigsuspend := false
      hypercallReturnsSignal := 0
      wait := .running
      cvSignalled := false }
  links := Links.init
  posts := []
  handed := []

/-! ## Under the mutex -/

/-- `none` is the `km_abortx` of a machine without free entries. -/
def enqueueSignalNolock (slist : Place n) (posted : Posted) : Option (SigState n) :=
  match s.lists .free with
  | [] => none
  | sig :: _ =>
    some { s with
      lists := move s.lists .free slist sig
      entries := update s.entries sig posted }

def preferSignal (blocked : SigSet) (chosen : Option Entry) (sig : Entry) : Option Entry :=
  if isBlocked blocked (s.entries sig).info then chosen
  else match chosen with
    | none => some sig
    | some c =>
      if sigpri (s.entries sig).info.signo > sigpri (s.entries c).info.signo then some sig
      else some c

/-- The loop of `dequeue_signal`: the unblocked entry of the highest priority. -/
def chooseSignal (blocked : SigSet) (list : List Entry) : Option Entry :=
  list.foldl (preferSignal s blocked) none

def dequeueSignal (slist : Place n) (blocked : SigSet) : SigState n × Option Posted :=
  match chooseSignal s blocked (s.lists slist) with
  | none => (s, none)
  | some chosen => ({ s with lists := move s.lists slist .free chosen }, some (s.entries chosen))

/-- `km_dequeue_signal_nolock`, which also logs what it hands out. -/
def kmDequeueSignalNolock (v : Fin n) : SigState n × Option Posted :=
  let blocked := (s.vcpus v).sigmask
  let r := match dequeueSignal s (.thread v) blocked with
    | (s, some posted) => (s, some posted)
    | (s, none) => dequeueSignal s .process blocked
  match r with
  | (s, some posted) => ({ s with handed := (v, posted.post) :: s.handed }, some posted)
  | (s, none) => (s, none)

/-- The number of a signal that the thread does not block, or 0.  A signal of the process is moved
to the thread. -/
def kmSignalReadyNolock (v : Fin n) : SigState n × Nat :=
  let ready := fun sig => !isBlocked (s.vcpus v).sigmask (s.entries sig).info
  match (s.lists (.thread v)).find? ready with
  | some sig => (s, (s.entries sig).info.signo)
  | none =>
    match (s.lists .process).find? ready with
    | some sig =>
      ({ s with lists := move s.lists .process (.thread v) sig }, (s.entries sig).info.signo)
    | none => (s, 0)

def SigState.hasPending (slist : Place n) (signo : Nat) : Bool :=
  (s.lists slist).any fun sig => (s.entries sig).info.signo = signo

def signalPending (target : Option (Fin n)) (info : SigInfo) : Bool :=
  (match target with
    | some v => s.hasPending (.thread v) info.signo
    | none => false) || s.hasPending .process info.signo

/-- The first thread on the wait queue that does not block the signal; `none` if the queue is a
cycle without such a thread. -/
def findSuspended (signo : Nat) : Option (Option (Fin n)) :=
  s.links.find (fun v => !kmSigismember (s.vcpus v).sigmask signo) n (s.links.first .wait)

/-- `km_wakeup_suspended_thread`; true if a thread was woken. -/
def kmWakeupSuspendedThread (posted : Posted) : Option (SigState n × Bool) := do
  match ← findSuspended s posted.info.signo with
  | none => return (s, false)
  | some v =>
    let links ← s.links.remove .wait v
    let s ← enqueueSignalNolock { s with links := links } (.thread v) posted
    return (s.setVcpu v fun x => { x with cvSignalled := true }, true)

def kmInterruptThread (signo : Nat) : Option (SigState n) :=
  match s.links.first .sleep with
  | none => some s
  | some v =>
    if kmSigismember (s.vcpus v).sigmask signo then some s
    else do
      let links ← s.links.remove .sleep v
      return { s with links := { links with prev := update links.prev v none } }

/-! ## Posting -/

def kmPostSignal (target : Option (Fin n)) (info : SigInfo) : SigState n :=
  let stage := if info.signo < sigRtmin then .check else .wakeup
  { s with posts := s.posts ++ [{ target := target, info := info, stage := stage }] }

/-- The next critical section of call `c`; `none` if it has returned, aborts or never ends. -/
def postStep (c : Nat) : Option (SigState n) := do
  let p ← s.posts[c]?
  let posted : Posted := { info := p.info, post := c }
  match p.stage with
  | .check =>
    -- non-RT signals are consolidated while pending
    return s.setStage c (if signalPending s p.target p.info then .dropped else .wakeup)
  | .wakeup =>
    let (s, woken) ← kmWakeupSuspendedThread s posted
    return s.setStage c (if woken then .done else .enqueue)
  | .enqueue =>
    match p.target with
    | none =>
      let s ← enqueueSignalNolock s .process posted
      return s.setStage c .interrupt
    | some v =>
      let s ← enqueueSignalNolock s (.thread v) posted
      return s.setStage c .done
  | .interrupt =>
    let s ← kmInterruptThread s p.info.signo
    return s.setStage c .done
  | .dropped | .done => none

def killInfo (signo : Nat) : SigInfo := { signo := signo, code := siUser, pid := 0 }

def tkillInfo (machinePid : Int) (signo : Nat) : SigInfo :=
  { signo := signo, code := siTkill, pid := machinePid }

/-! ## Waiting -/

/-- The loop of `km_rt_sigsuspend`, up to its `km_cond_wait` or to its end. -/
def sigsuspendLoop (v : Fin n) : SigState n :=
  let (s, signo) := kmSignalReadyNolock s v
  s.setVcpu v fun x =>
    { x with wait := if signo = 0 then .sigsuspend else .running, cvSignalled := false }

def kmRtSigsuspend (v : Fin n) (mask : SigSet) : SigState n :=
  let s := s.setVcpu v fun x =>
    { x with inSigsuspend := true, savedSigmask := x.sigmask, sigmask := mask }
  sigsuspendLoop { s with links := s.links.insertTail .wait v } v

def kmRtSigsuspendRevert (v : Fin n) : SigState n :=
  s.setVcpu v fun x =>
    if x.inSigsuspend then { x with sigmask := x.savedSigmask, inSigsuspend := false } else x

def sigtimedwaitReturn (v : Fin n) (origmask : SigSet) (rv : Int) : SigState n :=
  s.setVcpu v fun x =>
    { x with
      sigmask := origmask
      wait := .running
      cvSignalled := false
      hypercallReturnsSignal := if 0 < rv then rv else x.hypercallReturnsSignal }

def eagain : Int := 11

/-- `km_rt_sigtimedwait`, up to its `km_cond_wait` or to its end; `info` is what the caller's buffer
holds before, and a timeout is in nanoseconds. -/
def kmRtSigtimedwait (v : Fin n) (set : SigSet) (info : SigInfo) (timeout : Option Nat) :
    SigState n :=
  let blockthese := kmSigaddset (kmSigaddset (~~~set) sigKill) sigStop
  let origmask := (s.vcpus v).sigmask
  let s := s.setVcpu v fun x => { x with sigmask := blockthese }
  match kmDequeueSignalNolock s v with
  | (s, some posted) => sigtimedwaitReturn s v origmask posted.info.signo
  | (s, none) =>
    if timeout = some 0 then sigtimedwaitReturn s v origmask (-eagain)
    else
      let s := { s with links := s.links.insertTail .wait v }
      s.setVcpu v fun x =>
        { x with
          wait := .sigtimedwait origmask timeout.isSome info
          cvSignalled := false }

/-- A waiting thread gets the mutex back, for whatever reason it woke up. -/
def wakeStep (v : Fin n) : Option (SigState n) :=
  match (s.vcpus v).wait with
  | .running => none
  | .sigsuspend => some (sigsuspendLoop s v)
  | .sigtimedwait origmask _ info =>
    match kmDequeueSignalNolock s v with
    | (s, some posted) => some (sigtimedwaitReturn s v origmask posted.info.signo)
    -- the result is then whatever the buffer held
    | (s, none) => some (sigtimedwaitReturn s v origmask info.signo)

def timeoutStep (v : Fin n) : Option (SigState n) :=
  match (s.vcpus v).wait with
  | .sigtimedwait origmask true _ => do
    let links ← s.links.remove .wait v
    return sigtimedwaitReturn { s with links := links } v origmask (-eagain)
  | _ => none

def kmQueueSigSleep (v : Fin n) : SigState n :=
  { s with links := s.links.insertTail .sleep v }

def kmDequeueSigSleep (v : Fin n) : Option (SigState n) :=
  if s.links.prev v ≠ none then do
    let links ← s.links.remove .sleep v
    return { s with links := links }
  else some s

/-! ## The system -/

/-- One critical section, or one change of a thread's own mask. -/
inductive SigAct (n : Nat)
  | post (target : Option (Fin n)) (info : SigInfo)
  | postStep (c : Nat)
  | dequeue (v : Fin n)
  | ready (v : Fin n)
  | sigprocmask (v : Fin n) (mask : SigSet)
  | sigsuspend (v : Fin n) (mask : SigSet)
  | sigsuspendRevert (v : Fin n)
  | sigtimedwait (v : Fin n) (set : SigSet) (info : SigInfo) (timeout : Option Nat)
  | wake (v : Fin n)
  | timeout (v : Fin n)
  | queueSigSleep (v : Fin n)
  | dequeueSigSleep (v : Fin n)

/-- What a thread does itself, it does while it runs. -/
def whenRunning (v : Fin n) (s' : Option (SigState n)) : Option (SigState n) :=
  match (s.vcpus v).wait with
  | .running => s'
  | _ => none

def step : SigAct n → Option (SigState n)
  | .post target info => some (kmPostSignal s target info)
  | .postStep c => postStep s c
  | .dequeue v => whenRunning s v (some (kmDequeueSignalNolock s v).1)
  | .ready v => some (kmSignalReadyNolock s v).1
  | .sigprocmask v mask => whenRunning s v (some (s.setVcpu v fun x => { x with sigmask := mask }))
  | .sigsuspend v mask => whenRunning s v (some (kmRtSigsuspend s v mask))
  | .sigsuspendRevert v => whenRunning s v (some (kmRtSigsuspendRevert s v))
  | .sigtimedwait v set info timeout => whenRunning s v (some (kmRtSigtimedwait s v set info timeout))
  | .wake v => wakeStep s v
  | .timeout v => timeoutStep s v
  | .queueSigSleep v => whenRunning s v (some (kmQueueSigSleep s v))
  | .dequeueSigSleep v => whenRunning s v (kmDequeueSigSleep s v)

end

/-- Any number of threads and posters. -/
def signalSystem (n : Nat) : Transition.System (SigState n) (SigAct n) where
  init s := ∃ masks, s = SigState.init masks
  step s a s' := step s a = some s'

instance oneThread : NeZero 1 := ⟨Nat.one_ne_zero⟩

end KontainMonitor.Signal
