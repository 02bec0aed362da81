import KontainMonitor.Signal.Posting

/-!
# Waiters — what a step does to the threads that wait for signals

A thread puts itself on the wait queue before it waits; the waker, or the thread itself at a timeout,
takes it off.  `Turn` says what a step does to the queues and to the threads that wait.  A thread is
on the sleep queue during an interruptible hypercall, and between the two calls that queue and
dequeue it it makes no other.
-/

namespace KontainMonitor.Signal

open Function Places TailQueue Transition

variable {n : Nat} {s s' : SigState n} {v : Fin n}
variable {a : SigAct n} {c : Nat}

/-! ## Threads -/

def Wait.inWait : Wait → Bool
  | .running => false
  | .sigsuspend | .sigtimedwait .. => true

/-- The thread waits on its condition variable, and nobody has signalled it. -/
def SigState.blocked (s : SigState n) (v : Fin n) : Bool :=
  (s.vcpus v).wait.inWait && !(s.vcpus v).cvSignalled

structure Threads (n : Nat) where
  sig : SigState n
  asleep : Fin n → Bool

/-- What the callers keep to: signals have valid numbers, and a thread in an interruptible hypercall
does nothing else. -/
def Threads.permits (w : Threads n) : SigAct n → Bool
  | .post _ info => 1 ≤ info.signo && info.signo < nSig
  | .queueSigSleep v | .dequeue v | .sigprocmask v _ | .sigsuspend v _ | .sigsuspendRevert v
  | .sigtimedwait v _ _ _ => !w.asleep v
  | .dequeueSigSleep v => w.asleep v
  | .postStep _ | .ready _ | .wake _ | .timeout _ => true

def Threads.asleepAfter (w : Threads n) : SigAct n → Fin n → Bool
  | .queueSigSleep v => update w.asleep v true
  | .dequeueSigSleep v => update w.asleep v false
  | _ => w.asleep

def threadSystem (n : Nat) : System (Threads n) (SigAct n) where
  init w := (signalSystem n).init w.sig ∧ ∀ v, w.asleep v = false
  step w a w' := w.permits a ∧ step w.sig a = some w'.sig ∧ w'.asleep = w.asleepAfter a

def SigState.removes (s : SigState n) : SigAct n → Option (SignalQueue × Fin n)
  | .postStep c => s.posts[c]?.bind fun p =>
    match p.stage with
    | .wakeup => (findSuspended s p.info.signo).join.map fun v => (.wait, v)
    | .interrupt => (s.links.first .sleep).bind fun v =>
      if kmSigismember (s.vcpus v).sigmask p.info.signo then none else some (.sleep, v)
    | _ => none
  | .timeout v =>
    match (s.vcpus v).wait with
    | .sigtimedwait _ true _ => some (.wait, v)
    | _ => none
  | .dequeueSigSleep v => if s.links.prev v ≠ none then some (.sleep, v) else none
  | _ => none

/-- No signal that is pending for the thread gets through the mask. -/
def NoneReady (s : SigState n) (v : Fin n) (mask : SigSet) : Prop :=
  ∀ slist, slist = .thread v ∨ slist = .process → ∀ e ∈ s.lists slist,
    isBlocked mask (s.entries e).info

/-! ## The functions under the mutex -/

theorem kmSignalReadyNolock_none (h : NoneReady s v (s.vcpus v).sigmask) :
    kmSignalReadyNolock s v = (s, 0) := by
  have hfind : ∀ slist, slist = .thread v ∨ slist = .process →
      (s.lists slist).find? (fun sig => !isBlocked (s.vcpus v).sigmask (s.entries sig).info) = none := by
    intro slist hslist
    rw [List.find?_eq_none]
    intro e he
    rw [h slist hslist e he]
    exact Bool.false_ne_true
  simp only [kmSignalReadyNolock, hfind _ (.inl rfl), hfind _ (.inr rfl)]

/-- A thread that was woken has a signal of its own. -/
def SigState.HasOwn (s : SigState n) (v : Fin n) : Prop :=
  ∃ e ∈ s.lists (.thread v), isBlocked (s.vcpus v).sigmask (s.entries e).info = false

theorem kmSignalReadyNolock_own (h : s.HasOwn v)
    (hvalid : ∀ e ∈ s.lists (.thread v), 1 ≤ (s.entries e).info.signo) :
    ∃ signo, signo ≠ 0 ∧ kmSignalReadyNolock s v = (s, signo) := by
  rcases h with ⟨e, he, hun⟩
  have hsome : ((s.lists (.thread v)).find?
      (fun sig => !isBlocked (s.vcpus v).sigmask (s.entries sig).info)).isSome :=
    List.find?_isSome.2 ⟨e, he, by rw [hun]; rfl⟩
  rcases Option.isSome_iff_exists.1 hsome with ⟨sig, hfind⟩
  have hpos := hvalid sig (List.mem_of_find?_eq_some hfind)
  refine ⟨(s.entries sig).info.signo, by omega, ?_⟩
  simp only [kmSignalReadyNolock, hfind]

/-! ## What a step does to queues and waiting threads -/

def SigAct.sleeps : SigAct n → Bool
  | .queueSigSleep _ | .dequeueSigSleep _ => true
  | _ => false

def Others (v : Fin n) (s s' : SigState n) : Prop := ∀ u, u ≠ v → s'.vcpus u = s.vcpus u

/-- One constructor for each thing that can happen to the queues and to the threads that wait. -/
inductive Turn (s : SigState n) : SigAct n → SigState n → Prop
  -- a thread that runs may change its own mask
  | still {a : SigAct n} {s' : SigState n} (ha : a.sleeps = false) (hlinks : s'.links = s.links)
      (hvcpus : ∀ u, s'.vcpus u = s.vcpus u ∨
        ((s.vcpus u).wait = .running ∧ (s'.vcpus u).wait = .running)) : Turn s a s'
  | waits {a : SigAct n} {v : Fin n} {s' : SigState n}
      (ha : (∃ mask, a = .sigsuspend v mask ∧ (s'.vcpus v).sigmask = mask) ∨
        ∃ set info timeout, a = .sigtimedwait v set info timeout)
      (hrun : (s.vcpus v).wait = .running) (hlinks : s'.links = s.links.insertTail .wait v)
      (hwait : (s'.vcpus v).wait.inWait) (hcv : (s'.vcpus v).cvSignalled = false)
      (hother : Others v s s') : Turn s a s'
  -- a signal is ready, and the thread stays on the queue
  | lingers {v : Fin n} {mask : SigSet} {s' : SigState n} (hready : ¬ NoneReady s v mask)
      (hrun : (s.vcpus v).wait = .running) (hlinks : s'.links = s.links.insertTail .wait v)
      (hwait : (s'.vcpus v).wait = .running) (hother : Others v s s') :
      Turn s (.sigsuspend v mask) s'
  | wakes {c : Nat} {p : Post n} {v : Fin n} {s' : SigState n} (hp : s.posts[c]? = some p)
      (hstage : p.stage = .wakeup) (hfind : findSuspended s p.info.signo = some (some v))
      (hlinks : s.links.remove .wait v = some s'.links)
      (hput : ∃ e ∈ s'.lists (.thread v), (s'.entries e).info = p.info)
      (hv : s'.vcpus v = { s.vcpus v with cvSignalled := true }) (hother : Others v s s') :
      Turn s (.postStep c) s'
  | interrupts {c : Nat} {v : Fin n} {l : Links SignalQueue (Fin n)} {s' : SigState n}
      (hfirst : s.links.first .sleep = some v) (hl : s.links.remove .sleep v = some l)
      (hlinks : s'.links = { l with prev := update l.prev v none })
      (hvcpus : s'.vcpus = s.vcpus) : Turn s (.postStep c) s'
  | returns {v : Fin n} {s' : SigState n} (hin : (s.vcpus v).wait.inWait)
      (hlinks : s'.links = s.links) (hrun : (s'.vcpus v).wait = .running) (hother : Others v s s') :
      Turn s (.wake v) s'
  -- nothing is ready after all
  | loops {v : Fin n} {s' : SigState n} (hin : (s.vcpus v).wait = .sigsuspend)
      (hready : (kmSignalReadyNolock s v).2 = 0) (hlinks : s'.links = s.links)
      (hv : s'.vcpus v = { s.vcpus v with cvSignalled := false }) (hother : Others v s s') :
      Turn s (.wake v) s'
  | timesOut {v : Fin n} {s' : SigState n} (hin : (s.vcpus v).wait.inWait)
      (hlinks : s.links.remove .wait v = some s'.links) (hrun : (s'.vcpus v).wait = .running)
      (hother : Others v s s') : Turn s (.timeout v) s'
  | queues {v : Fin n} {s' : SigState n} (hrun : (s.vcpus v).wait = .running)
      (hlinks : s'.links = s.links.insertTail .sleep v) (hvcpus : s'.vcpus = s.vcpus) :
      Turn s (.queueSigSleep v) s'
  | dequeues {v : Fin n} {s' : SigState n} (hprev : s.links.prev v ≠ none)
      (hlinks : s.links.remove .sleep v = some s'.links) (hvcpus : s'.vcpus = s.vcpus) :
      Turn s (.dequeueSigSleep v) s'
  | already {v : Fin n} (hprev : s.links.prev v = none) : Turn s (.dequeueSigSleep v) s

theorem setVcpu_others (v : Fin n) (f : Vcpu → Vcpu) : Others v s (s.setVcpu v f) :=
  fun _ hu => update_of_ne hu ..

theorem setVcpu_self (v : Fin n) (f : Vcpu → Vcpu) : (s.setVcpu v f).vcpus v = f (s.vcpus v) :=
  update_self ..

theorem Others.trans {s1 s2 s3 : SigState n} (h1 : Others v s1 s2) (h2 : Others v s2 s3) :
    Others v s1 s3 := fun u hu => (h2 u hu).trans (h1 u hu)

theorem whenRunning_running {r : Option (SigState n)} (hr : whenRunning s v r = some s') :
    (s.vcpus v).wait = .running ∧ r = some s' := by
  simp only [whenRunning] at hr
  split at hr
  · exact ⟨‹_›, hr⟩
  · cases hr

/-- A thread that runs changes something of its own. -/
theorem Turn.own (ha : a.sleeps = false) (hrun : (s.vcpus v).wait = .running)
    (hlinks : s'.links = s.links) (hother : Others v s s') (hrun' : (s'.vcpus v).wait = .running) :
    Turn s a s' := by
  refine .still ha hlinks fun u => ?_
  by_cases hu : u = v
  · subst hu
    exact .inr ⟨hrun, hrun'⟩
  · exact .inl (hother u hu)

theorem kmDequeueSignalNolock_same (s : SigState n) (v : Fin n) :
    (kmDequeueSignalNolock s v).1.links = s.links ∧
      (kmDequeueSignalNolock s v).1.vcpus = s.vcpus := by
  rcases kmDequeueSignalNolock_spec v with heq | ⟨slist, -, sig, -, heq⟩
  · rw [heq]
    exact ⟨rfl, rfl⟩
  rw [heq]
  exact ⟨rfl, rfl⟩

theorem kmSignalReadyNolock_same (s : SigState n) (v : Fin n) :
    (kmSignalReadyNolock s v).1.links = s.links ∧ (kmSignalReadyNolock s v).1.vcpus = s.vcpus := by
  rcases kmSignalReadyNolock_spec v with heq | ⟨sig, -, heq⟩
  · rw [heq]
    exact ⟨rfl, rfl⟩
  rw [heq]
  exact ⟨rfl, rfl⟩

/-- Once around the loop of `km_rt_sigsuspend`. -/
theorem sigsuspendLoop_vcpu (s : SigState n) (v : Fin n) :
    (sigsuspendLoop s v).links = s.links ∧ Others v s (sigsuspendLoop s v) ∧
      (sigsuspendLoop s v).vcpus v = { s.vcpus v with
        wait := if (kmSignalReadyNolock s v).2 = 0 then .sigsuspend else .running
        cvSignalled := false } := by
  obtain ⟨hlinks, hvcpus⟩ := kmSignalReadyNolock_same s v
  refine ⟨hlinks, fun u hu => ?_, ?_⟩
  · rw [← hvcpus]
    simp only [sigsuspendLoop, setVcpu_others v _ u hu]
  rw [← hvcpus]
  simp only [sigsuspendLoop, setVcpu_self]

theorem kmRtSigsuspend_turn (hrun : (s.vcpus v).wait = .running) (mask : SigSet) :
    Turn s (.sigsuspend v mask) (kmRtSigsuspend s v mask) := by
  let s1 := s.setVcpu v fun x =>
    { x with inSigsuspend := true, savedSigmask := x.sigmask, sigmask := mask }
  let s2 : SigState n := { s1 with links := s1.links.insertTail .wait v }
  obtain ⟨hlinks, hother, hv⟩ := sigsuspendLoop_vcpu s2 v
  have hself : s2.vcpus v = { s.vcpus v with
      inSigsuspend := true, savedSigmask := (s.vcpus v).sigmask, sigmask := mask } := by
    simp only [s2, s1, setVcpu_self]
  have hfirst : Others v s s2 := fun u hu => by simp only [s2, s1, setVcpu_others v _ u hu]
  have hothers : Others v s (kmRtSigsuspend s v mask) := hfirst.trans hother
  by_cases hready : (kmSignalReadyNolock s2 v).2 = 0
  · rw [if_pos hready] at hv
    refine .waits (.inl ⟨mask, rfl, ?_⟩) hrun hlinks ?_ ?_ hothers
    · exact (congrArg Vcpu.sigmask hv).trans (congrArg Vcpu.sigmask hself)
    · exact congrArg (fun x => x.wait.inWait) hv
    · exact congrArg Vcpu.cvSignalled hv
  rw [if_neg hready] at hv
  refine .lingers (fun hnone => hready ?_) hrun hlinks (congrArg Vcpu.wait hv) hothers
  have hnone2 : NoneReady s2 v (s2.vcpus v).sigmask := by
    rw [hself]
    exact hnone
  rw [kmSignalReadyNolock_none hnone2]

theorem sigtimedwaitReturn_vcpu (s : SigState n) (v : Fin n) (origmask : SigSet) (rv : Int) :
    (sigtimedwaitReturn s v origmask rv).links = s.links ∧
      Others v s (sigtimedwaitReturn s v origmask rv) ∧
      ((sigtimedwaitReturn s v origmask rv).vcpus v).wait = .running := by
  refine ⟨rfl, setVcpu_others v _, ?_⟩
  rw [sigtimedwaitReturn, setVcpu_self]

theorem kmRtSigtimedwait_turn (hrun : (s.vcpus v).wait = .running) (set : SigSet) (info : SigInfo)
    (timeout : Option Nat) :
    Turn s (.sigtimedwait v set info timeout) (kmRtSigtimedwait s v set info timeout) := by
  simp only [kmRtSigtimedwait]
  generalize kmSigaddset (kmSigaddset (~~~set) sigKill) sigStop = blockthese
  let s1 := s.setVcpu v fun x => { x with sigmask := blockthese }
  obtain ⟨hlinks, hvcpus⟩ := kmDequeueSignalNolock_same s1 v
  -- what the dequeue leaves of the threads
  have hothers : ∀ t : SigState n, Others v (kmDequeueSignalNolock s1 v).1 t → Others v s t := by
    intro t ht
    have hsame : Others v s1 (kmDequeueSignalNolock s1 v).1 := fun u _ => congrFun hvcpus u
    exact ((setVcpu_others v _).trans hsame).trans ht
  have hret : ∀ rv, Turn s (.sigtimedwait v set info timeout)
      (sigtimedwaitReturn (kmDequeueSignalNolock s1 v).1 v (s.vcpus v).sigmask rv) := by
    intro rv
    obtain ⟨hl, ho, hw⟩ := sigtimedwaitReturn_vcpu (kmDequeueSignalNolock s1 v).1 v
      (s.vcpus v).sigmask rv
    exact .own rfl hrun (hl.trans hlinks) (hothers _ ho) hw
  split
  next s2 posted heq =>
    have := hret posted.info.signo
    rwa [heq] at this
  rename_i s2 heq
  rw [heq] at hlinks hvcpus hret hothers
  split
  · exact hret _
  refine .waits (.inr ⟨set, info, timeout, rfl⟩) hrun ?_ ?_ ?_ (hothers _ ?_)
  · exact congrArg (fun l => Links.insertTail l .wait v) hlinks
  · rw [setVcpu_self]
    rfl
  · rw [setVcpu_self]
  · exact setVcpu_others v _

theorem wakeStep_turn (hr : wakeStep s v = some s') : Turn s (.wake v) s' := by
  simp only [wakeStep] at hr
  split at hr
  · cases hr
  next hwait =>
    cases hr
    obtain ⟨hlinks, hother, hv⟩ := sigsuspendLoop_vcpu s v
    by_cases hready : (kmSignalReadyNolock s v).2 = 0
    · rw [if_pos hready, ← hwait] at hv
      exact .loops hwait hready hlinks hv hother
    rw [if_neg hready] at hv
    exact .returns (by rw [hwait]; rfl) hlinks (congrArg Vcpu.wait hv) hother
  rename_i origmask timed info hwait
  obtain ⟨hlinks, hvcpus⟩ := kmDequeueSignalNolock_same s v
  have hret : ∀ rv, Turn s (.wake v)
      (sigtimedwaitReturn (kmDequeueSignalNolock s v).1 v origmask rv) := by
    intro rv
    obtain ⟨hl, ho, hw⟩ := sigtimedwaitReturn_vcpu (kmDequeueSignalNolock s v).1 v origmask rv
    exact .returns (by rw [hwait]; rfl) (hl.trans hlinks) hw
      fun u hu => (ho u hu).trans (congrFun hvcpus u)
  split at hr
  next s2 posted heq =>
    rw [heq] at hret
    cases hr
    exact hret _
  rename_i s2 heq
  rw [heq] at hret
  cases hr
  exact hret _

theorem timeoutStep_turn (hr : timeoutStep s v = some s') : Turn s (.timeout v) s' := by
  simp only [timeoutStep] at hr
  split at hr
  next origmask info hwait =>
    simp only [do_eq_some, return_eq_some] at hr
    rcases hr with ⟨links, hl, rfl⟩
    obtain ⟨-, ho, hw⟩ := sigtimedwaitReturn_vcpu { s with links := links } v origmask (-eagain)
    exact .timesOut (by rw [hwait]; rfl) hl hw ho
  · cases hr

theorem postStep_turn (hr : postStep s c = some s') : Turn s (.postStep c) s' := by
  rcases postStep_end hr with ⟨p, hp, hend⟩
  cases hend with
  | checked | nobody | enqueued | passes => exact .still rfl rfl fun _ => .inl rfl
  | @wakes v links sig hstage hfind hlinks =>
    refine .wakes hp hstage hfind hlinks ⟨sig, ?_, ?_⟩ ?_ fun u hu => ?_
    · simp only [SigState.setStage, SigState.setVcpu, move_apply (by simp : Place.free ≠ .thread v)]
      simp
    · simp only [SigState.setStage, SigState.setVcpu, update_self]
    · simp only [SigState.setStage, setVcpu_self]
    · simp only [SigState.setStage, setVcpu_others v _ u hu]
  | interrupts _ hfirst hlinks => exact .interrupts hfirst hlinks rfl rfl

/-- What every step does. -/
theorem step_turn (hr : step s a = some s') : Turn s a s' := by
  cases a with
  | post target info =>
    cases hr
    exact .still rfl rfl fun _ => .inl rfl
  | postStep c => exact postStep_turn hr
  | dequeue v =>
    cases whenRunning_spec hr
    obtain ⟨hlinks, hvcpus⟩ := kmDequeueSignalNolock_same s v
    exact .still rfl hlinks fun u => .inl (congrFun hvcpus u)
  | ready v =>
    cases hr
    obtain ⟨hlinks, hvcpus⟩ := kmSignalReadyNolock_same s v
    exact .still rfl hlinks fun u => .inl (congrFun hvcpus u)
  | sigprocmask v mask =>
    obtain ⟨hrun, ⟨⟩⟩ := whenRunning_running hr
    exact .own rfl hrun rfl (setVcpu_others v _) (by rw [setVcpu_self]; exact hrun)
  | sigsuspend v mask =>
    obtain ⟨hrun, ⟨⟩⟩ := whenRunning_running hr
    exact kmRtSigsuspend_turn hrun mask
  | sigsuspendRevert v =>
    obtain ⟨hrun, ⟨⟩⟩ := whenRunning_running hr
    refine .own rfl hrun rfl (setVcpu_others v _) ?_
    rw [kmRtSigsuspendRevert, setVcpu_self]
    split <;> exact hrun
  | sigtimedwait v set info timeout =>
    obtain ⟨hrun, ⟨⟩⟩ := whenRunning_running hr
    exact kmRtSigtimedwait_turn hrun set info timeout
  | wake v => exact wakeStep_turn hr
  | timeout v => exact timeoutStep_turn hr
  | queueSigSleep v =>
    obtain ⟨hrun, ⟨⟩⟩ := whenRunning_running hr
    exact .queues hrun rfl rfl
  | dequeueSigSleep v =>
    have hr := whenRunning_spec hr
    simp only [kmDequeueSigSleep] at hr
    split at hr
    next hprev =>
      simp only [do_eq_some, return_eq_some] at hr
      rcases hr with ⟨links, hl, rfl⟩
      exact .dequeues hprev hl rfl
    next hprev =>
      cases hr
      exact .already (not_not.1 hprev)

/-! ## What a step does to one waiting thread -/

/-- The thread calls one of the two waiting hypercalls. -/
def Starts (a : SigAct n) (v : Fin n) : Prop :=
  (∃ mask, a = .sigsuspend v mask) ∨ ∃ set info timeout, a = .sigtimedwait v set info timeout

/-- How a thread that waits after a step came to do so. -/
inductive Waiting (v : Fin n) (s : SigState n) : SigAct n → SigState n → Prop
  | same {a : SigAct n} {s' : SigState n} (hv : s'.vcpus v = s.vcpus v) : Waiting v s a s'
  | starts {a : SigAct n} {s' : SigState n} (ha : Starts a v)
      (hcv : (s'.vcpus v).cvSignalled = false) : Waiting v s a s'
  | woken {c : Nat} {p : Post n} {s' : SigState n} (hp : s.posts[c]? = some p)
      (hstage : p.stage = .wakeup) (hfind : findSuspended s p.info.signo = some (some v))
      (hput : ∃ e ∈ s'.lists (.thread v), (s'.entries e).info = p.info)
      (hv : s'.vcpus v = { s.vcpus v with cvSignalled := true }) : Waiting v s (.postStep c) s'
  | again {s' : SigState n} (hin : (s.vcpus v).wait = .sigsuspend)
      (hready : (kmSignalReadyNolock s v).2 = 0)
      (hv : s'.vcpus v = { s.vcpus v with cvSignalled := false }) : Waiting v s (.wake v) s'

theorem Turn.waiting (h : Turn s a s') (hwait : (s'.vcpus v).wait ≠ .running) :
    Waiting v s a s' := by
  have hother : ∀ u, Others u s s' → (u = v → Waiting v s a s') → Waiting v s a s' := by
    intro u hothers hself
    by_cases huv : v = u
    · exact hself huv.symm
    · exact .same (hothers v huv)
  cases h with
  | still hplain hlinks hvcpus =>
    rcases hvcpus v with heq | ⟨-, hrun⟩
    · exact .same heq
    · exact absurd hrun hwait
  | waits hwho hrun hlinks hwait' hcv hothers =>
    refine hother _ hothers ?_
    rintro rfl
    exact .starts (hwho.imp (fun ⟨mask, heq, _⟩ => ⟨mask, heq⟩) id) hcv
  | lingers hready hrun hlinks hrun' hothers =>
    refine hother _ hothers ?_
    rintro rfl
    exact absurd hrun' hwait
  | wakes hp hstage hfind hlinks hput hv hothers =>
    refine hother _ hothers ?_
    rintro rfl
    exact .woken hp hstage hfind hput hv
  | interrupts _ _ _ hvcpus | queues _ _ hvcpus | dequeues _ _ hvcpus =>
    exact .same (congrFun hvcpus v)
  | returns _ _ hrun hothers | timesOut _ _ hrun hothers =>
    refine hother _ hothers ?_
    rintro rfl
    exact absurd hrun hwait
  | loops hin hready hlinks hv hothers =>
    refine hother _ hothers ?_
    rintro rfl
    exact .again hin hready hv
  | already hprev => exact .same rfl

/-! ## Who takes signals -/

theorem step_handed (hr : step s a = some s') :
    s'.handed = s.handed ∨ ∃ v d, a.taker = some v ∧ s'.handed = (v, d) :: s.handed := by
  cases step_effect hr with
  | quiet hsame | called hsame | advanced hsame => exact .inl hsame.handed
  | placed _ _ _ _ _ hhanded | claimed _ _ _ hhanded => exact .inl hhanded
  | taken _ _ _ _ hhanded _ htaker => exact .inr ⟨_, _, htaker, hhanded⟩

/-- A signal that is pending for a thread stays until the thread takes it. -/
theorem step_keeps_own (hs : s.Accounts) (hr : step s a = some s') (ha : a.taker ≠ some v)
    {e : Entry} (he : e ∈ s.lists (.thread v)) :
    e ∈ s'.lists (.thread v) ∧ s'.entries e = s.entries e := by
  cases step_effect hr with
  | quiet hsame | called hsame | advanced hsame =>
    rw [hsame.lists, hsame.entries]
    exact ⟨he, rfl⟩
  | @placed c p slist sig stage _ hp hdest hsig hlists hentries hhanded hput hposts =>
    have hne : e ≠ sig := by
      rintro rfl
      cases hs.part.unique he hsig
    rw [hlists, hentries, mem_move hs.part (Ne.symm hdest.ne_free) hsig]
    exact ⟨.inr ⟨hne, he⟩, update_of_ne hne ..⟩
  | @claimed a u sig _ hsig hlists hentries hhanded hposts =>
    have hne : e ≠ sig := by
      rintro rfl
      cases hs.part.unique he hsig
    rw [hlists, hentries, mem_move hs.part (by simp) hsig]
    exact ⟨.inr ⟨hne, he⟩, rfl⟩
  | @taken a u slist sig _ hslist hsig hlists hentries hhanded hposts htaker =>
    have hfree : slist ≠ .free := by rcases hslist with rfl | rfl <;> simp
    have hne : e ≠ sig := by
      rintro rfl
      have hplace := hs.part.unique he hsig
      rcases hslist with rfl | rfl
      · rw [Place.thread.inj hplace] at ha
        exact ha htaker
      · cases hplace
    rw [hlists, hentries, mem_move hs.part hfree hsig]
    exact ⟨.inr ⟨hne, he⟩, rfl⟩

/-! ## Numbers of signals -/

/-- Signals on their way and pending ones have valid numbers. -/
structure SigState.Numbered (s : SigState n) : Prop where
  posts : ∀ (c : Nat) (p : Post n), s.posts[c]? = some p → 1 ≤ p.info.signo ∧ p.info.signo < nSig
  entries : ∀ slist, slist ≠ .free → ∀ e ∈ s.lists slist,
    1 ≤ (s.entries e).info.signo ∧ (s.entries e).info.signo < nSig

theorem Effect.numbered (h : Effect s a s') (hs : s.Accounts) (hn : s.Numbered)
    (ha : ∀ target info, a = .post target info → 1 ≤ info.signo ∧ info.signo < nSig) :
    s'.Numbered where
  posts c p' hp' := by
    rcases h.posts_before hp' with ⟨p, hp, hinfo, -⟩ | ⟨hpost, -⟩
    · rw [← hinfo]
      exact hn.posts c p hp
    · exact ha _ _ hpost
  entries slist hslist e he := by
    rcases h.pending_before hs hslist he rfl with ⟨r, hr, he, -, hinfo, -⟩ | ⟨p, -, hp, -, hinfo, -⟩
    · rw [hinfo]
      exact hn.entries r hr e he
    rw [hinfo]
    exact hn.posts _ p hp

end KontainMonitor.Signal
