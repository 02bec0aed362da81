import KontainMonitor.Signal.Selection
import KontainMonitor.Signal.WaitQueues

/-!
# Wakeups — signals that come while threads wait

`km_post_signal` looks for a thread that waits for the signal, and enqueues the signal in a later
critical section if it finds none.  A thread that starts to wait between the two sleeps although its
signal is pending (`sigsuspend_misses_kill`).  In runs in which nobody starts to wait for a signal at
that moment (`Timely`), no wake-up is lost.
-/

namespace KontainMonitor.Signal

open Option Places TailQueue Transition

variable {n : Nat} {s s' : SigState n} {v : Fin n} {w w' : Threads n}
variable {c : Nat} {mask : SigSet} {a : SigAct n}
variable {p : Post n} {info : SigInfo}

/-! ## Lost wake-ups -/

/-- A post that has not looked for waiting threads yet will wake `v`, or another one that waits for
the same signal. -/
def SigState.wakeupComes (s : SigState n) (v : Fin n) : Prop :=
  ∃ p ∈ s.posts, (p.stage = .check ∨ p.stage = .wakeup) ∧
    kmSigismember (s.vcpus v).sigmask p.info.signo = false

/-- The thread sleeps, a signal that it does not block is pending for it, and nobody will wake it. -/
def SigState.LostWakeup (s : SigState n) (v : Fin n) : Prop :=
  s.blocked v ∧ ¬ NoneReady s v (s.vcpus v).sigmask ∧ ¬ s.wakeupComes v

def SigState.Covered (s : SigState n) (mask : SigSet) : Prop :=
  ∀ (c : Nat) (p : Post n), s.posts[c]? = some p → p.stage = .enqueue →
    kmSigismember mask p.info.signo

/-- The mask of `km_rt_sigtimedwait` during the wait. -/
def blockthese (set : SigSet) : SigSet := kmSigaddset (kmSigaddset (~~~set) sigKill) sigStop

/-- A signal that the processor raised and that no mask holds back. -/
def Fault (info : SigInfo) : Prop := info.signo ∈ faultSignals ∧ info.code = siKernel

/-- Nobody starts to wait for a signal that is about to be enqueued, and faults are enqueued for
threads that do not wait. -/
def Timely (w : Threads n) : SigAct n → Prop
  | .sigsuspend _ mask => w.sig.Covered mask
  | .sigtimedwait _ set _ _ => w.sig.Covered (blockthese set)
  | .postStep c => ∀ p, w.sig.posts[c]? = some p → p.stage = .enqueue → Fault p.info →
      ∃ t, p.target = some t ∧ w.sig.blocked t = false
  | _ => True

def timelySystem (n : Nat) : System (Threads n) (SigAct n) :=
  (threadSystem n).restrict fun w a _ => Orderly w a ∧ Timely w a

theorem reach_orderly (h : Reach (timelySystem n) w) : Reach (orderlySystem n) w := by
  refine .inv (I := Reach (orderlySystem n)) (fun w hw => ?_)
    (fun w a w' hw hstep => ?_) h
  · exact .init hw
  · exact .step hw ⟨hstep.1, hstep.2.1⟩

/-! ## Steps of a post -/

theorem stage_of_setStage {stage : Stage} (hp : (s.setStage c stage).posts[c]? = some p) :
    p.stage = stage := by
  rw [setStage_posts, if_pos rfl] at hp
  rcases map_eq_some_iff.1 hp with ⟨p0, -, rfl⟩
  rfl

/-- A post gets to its enqueueing when it finds nobody. -/
theorem postStep_to_enqueue (hr : postStep s c = some s') {p' : Post n}
    (hp' : s'.posts[c]? = some p') (hstage : p'.stage = .enqueue) :
    findSuspended s p'.info.signo = some none := by
  rcases postStep_end hr with ⟨p, hp, hend⟩
  -- every other section ends in another stage
  cases hend with
  | nobody _ hfind =>
    rw [setStage_posts, if_pos rfl, hp] at hp'
    cases hp'
    exact hfind
  | checked =>
    rw [stage_of_setStage hp'] at hstage
    split at hstage <;> cases hstage
  | enqueued _ _ _ hput =>
    rw [← stage_of_setStage hp', hstage] at hput
    cases hput
  | wakes | passes | interrupts => cases hstage.symm.trans (stage_of_setStage hp')

/-- Whom a post finds, it signals. -/
theorem postStep_signals (hr : postStep s c = some s') (hp : s.posts[c]? = some p)
    (hstage : p.stage = .wakeup) (hfind : findSuspended s p.info.signo = some (some v)) :
    (s'.vcpus v).cvSignalled := by
  simp only [postStep, hp, hstage, kmWakeupSuspendedThread, hfind, bind_eq_bind,
    bind_some, bind_eq_some_iff, pure_def, Option.some.injEq] at hr
  rcases hr with ⟨⟨s1, woken⟩, ⟨links, -, s2, -, heq⟩, rfl⟩
  cases heq
  simp only [SigState.setStage, setVcpu_self]

/-! ## Starting to wait -/

/-- The entries and the posts are as they were. -/
def SameSignals (s s' : SigState n) : Prop :=
  s'.lists = s.lists ∧ s'.entries = s.entries ∧ s'.posts = s.posts ∧ s'.handed = s.handed

theorem kmRtSigsuspend_none (h : NoneReady s v mask) : SameSignals s (kmRtSigsuspend s v mask) ∧
      ((kmRtSigsuspend s v mask).vcpus v).sigmask = mask := by
  let s1 := s.setVcpu v fun x =>
    { x with inSigsuspend := true, savedSigmask := x.sigmask, sigmask := mask }
  let s2 : SigState n := { s1 with links := s1.links.insertTail .wait v }
  have hself : (s2.vcpus v).sigmask = mask := by simp only [s2, s1, setVcpu_self]
  have hready : kmSignalReadyNolock s2 v = (s2, 0) := by
    refine kmSignalReadyNolock_none ?_
    rw [hself]
    exact h
  have heq : kmRtSigsuspend s v mask = s2.setVcpu v fun x =>
      { x with wait := .sigsuspend, cvSignalled := false } := by
    have hunfold : kmRtSigsuspend s v mask = sigsuspendLoop s2 v := rfl
    rw [hunfold, sigsuspendLoop, hready]
    rfl
  rw [heq]
  refine ⟨⟨rfl, rfl, rfl, rfl⟩, ?_⟩
  rw [setVcpu_self]
  exact hself

theorem kmRtSigtimedwait_blocked {set : SigSet} {timeout : Option Nat}
    (h : (kmRtSigtimedwait s v set info timeout).blocked v) :
    SameSignals s (kmRtSigtimedwait s v set info timeout) ∧ NoneReady s v (blockthese set) ∧
      ((kmRtSigtimedwait s v set info timeout).vcpus v).sigmask = blockthese set ∧
      ((kmRtSigtimedwait s v set info timeout).vcpus v).wait =
        .sigtimedwait (s.vcpus v).sigmask timeout.isSome info := by
  let s1 := s.setVcpu v fun x => { x with sigmask := blockthese set }
  have hself : (s1.vcpus v).sigmask = blockthese set := by simp only [s1, setVcpu_self]
  have hreturns : ∀ (t : SigState n) origmask rv,
      (sigtimedwaitReturn t v origmask rv).blocked v = false := fun t origmask rv =>
    not_blocked_of_running (sigtimedwaitReturn_vcpu t v origmask rv).2.2
  rcases kmDequeueSignalNolock_cases s1 v with ⟨hnone, heq⟩ | ⟨slist, c, -, -, heq⟩
  · have hready : NoneReady s v (blockthese set) := by
      intro slist hslist e he
      rw [isBlocked_iff, ← hself]
      exact hnone slist hslist e he
    have hunfold : kmRtSigtimedwait s v set info timeout =
        if timeout = some 0 then sigtimedwaitReturn s1 v (s.vcpus v).sigmask (-eagain)
        else { s1 with links := s1.links.insertTail .wait v }.setVcpu v fun x =>
          { x with
            wait := .sigtimedwait (s.vcpus v).sigmask timeout.isSome info
            cvSignalled := false } := by
      simp only [kmRtSigtimedwait]
      rw [show kmDequeueSignalNolock (s.setVcpu v fun x => { x with
        sigmask := kmSigaddset (kmSigaddset (~~~set) sigKill) sigStop }) v = (s1, none) from heq]
    rw [hunfold] at h ⊢
    split at h
    · rw [hreturns] at h
      cases h
    rename_i htimeout
    rw [if_neg htimeout]
    refine ⟨⟨rfl, rfl, rfl, rfl⟩, hready, ?_, ?_⟩
    · rw [setVcpu_self]
      exact hself
    · rw [setVcpu_self]
  have hunfold : ∃ t, kmRtSigtimedwait s v set info timeout =
      sigtimedwaitReturn t v (s.vcpus v).sigmask (s1.entries c).info.signo := by
    simp only [kmRtSigtimedwait]
    rw [show kmDequeueSignalNolock (s.setVcpu v fun x => { x with
      sigmask := kmSigaddset (kmSigaddset (~~~set) sigKill) sigStop }) v = _ from heq]
    exact ⟨_, rfl⟩
  rcases hunfold with ⟨t, ht⟩
  rw [ht, hreturns] at h
  cases h

/-- A thread that sleeps after an orderly step slept before, or has just started to wait. -/
theorem blocked_before (hw : w.Kept) (hr : step w.sig a = some s') (ha : Orderly w a)
    (hb : s'.blocked v) : s'.vcpus v = w.sig.vcpus v ∨ Starts a v := by
  have hwait : (s'.vcpus v).wait ≠ .running := by
    intro hrun
    rw [not_blocked_of_running hrun] at hb
    cases hb
  cases (step_turn hr).waiting hwait with
  | same hv => exact .inl hv
  | starts hstarts hcv => exact .inr hstarts
  | woken hp hstage hfind hput hv =>
    rw [not_blocked_of_signalled (by rw [hv])] at hb
    cases hb
  | again hin hready hv =>
    obtain ⟨signo, hne, heq⟩ := kmSignalReadyNolock_own (hw.woken v (by rw [hin]; rfl) ha)
      fun e he => (hw.numbered.entries _ (by simp) e he).1
    rw [heq] at hready
    exact absurd hready hne

/-! ## Nothing is missed -/

/-- What is pending for a thread that sleeps is blocked, and so is what is about to be. -/
def SigState.Attended (s : SigState n) : Prop :=
  ∀ v, s.blocked v →
    NoneReady s v (s.vcpus v).sigmask ∧ s.Covered (s.vcpus v).sigmask

theorem SameSignals.attended (h : SameSignals s s') (hready : NoneReady s v mask)
    (hcovered : s.Covered mask) : NoneReady s' v mask ∧ s'.Covered mask := by
  obtain ⟨hlists, hentries, hposts, -⟩ := h
  refine ⟨?_, ?_⟩
  · intro slist hslist e he
    rw [hentries]
    exact hready slist hslist e (hlists ▸ he)
  intro c p hp
  exact hcovered c p (hposts ▸ hp)

theorem isBlocked_of_not_fault (hmem : kmSigismember mask info.signo)
    (hfault : ¬ Fault info) : isBlocked mask info := by
  rw [isBlocked_iff]
  rintro (hopen | hopen)
  · rw [kmSigismember_eq, kmSigindex, hopen] at hmem
    cases hmem
  · exact hfault hopen

section

variable (hw : w.Kept) (h : w.sig.Attended)
include hw h

/-- The signals of a thread that goes on sleeping. -/
theorem noneReady_after (hr : step w.sig a = some s') (ha : Timely w a) (hb : s'.blocked v)
    (heq : s'.vcpus v = w.sig.vcpus v) : NoneReady s' v (s'.vcpus v).sigmask := by
  have hbefore : w.sig.blocked v := by
    rw [← blocked_congr heq]
    exact hb
  obtain ⟨hready, hcovered⟩ := h v hbefore
  intro slist hslist e he
  have hfree : slist ≠ .free := by rcases hslist with rfl | rfl <;> simp
  rw [heq]
  rcases (step_effect hr).pending_before hw.accounts hfree he rfl with
    ⟨r, hr', he', -, hinfo, hplace⟩ | ⟨p, rfl, hp, hdest, hinfo, -⟩
  · -- pending before, on the same list or on that of the process
    rw [hinfo]
    refine hready r ?_ e he'
    rcases hplace with rfl | rfl
    · exact hslist
    · exact .inr rfl
  rw [hinfo]
  rcases hdest with ⟨hstage, u, hfind, rfl⟩ | ⟨hstage, hplace⟩
  · -- it would have been woken
    rcases hslist with hslist | hslist
    · cases hslist
      rw [not_blocked_of_signalled (postStep_signals hr hp hstage hfind)] at hb
      cases hb
    · cases hslist
  refine isBlocked_of_not_fault (hcovered _ p hp hstage) fun hfault => ?_
  obtain ⟨t, htarget, hawake⟩ := ha p hp hstage hfault
  rw [htarget] at hplace
  rcases hslist with hslist | hslist
  · rw [hslist] at hplace
    cases hplace
    rw [hawake] at hbefore
    cases hbefore
  rw [hslist] at hplace
  cases hplace

theorem covered_after (hr : step w.sig a = some s') (hb : s'.blocked v)
    (heq : s'.vcpus v = w.sig.vcpus v) : s'.Covered (s'.vcpus v).sigmask := by
  have hbefore : w.sig.blocked v := by
    rw [← blocked_congr heq]
    exact hb
  intro c p' hp' hstage
  rw [heq]
  rcases (step_effect hr).posts_before hp' with ⟨p, hp, hinfo, -, hsame | ⟨rfl, -⟩⟩ | ⟨-, hnew⟩
  · rw [← hinfo]
    exact (h v hbefore).2 c p hp (hsame.trans hstage)
  · -- the post has just looked for threads that wait for its signal
    obtain ⟨lists, hq⟩ := hw.queued
    have hfind := postStep_to_enqueue hr hp' hstage
    rw [hq.findSuspended, Option.some.injEq, List.find?_eq_none] at hfind
    simpa using hfind v ((hq.wait v).2 hbefore)
  rw [hstage] at hnew
  split at hnew <;> cases hnew

theorem Attended.step (hr : Signal.step w.sig a = some s') (ho : Orderly w a) (ha : Timely w a) :
    s'.Attended := by
  intro v hb
  rcases blocked_before hw hr ho hb with heq | ⟨mask, rfl⟩ | ⟨set, info, timeout, rfl⟩
  · exact ⟨noneReady_after hw h hr ha hb heq, covered_after hw h hr hb heq⟩
  · cases whenRunning_spec hr
    obtain ⟨hsame, hmask⟩ := kmRtSigsuspend_none ho
    rw [hmask]
    exact hsame.attended ho ha
  cases whenRunning_spec hr
  obtain ⟨hsame, hready, hmask, -⟩ := kmRtSigtimedwait_blocked hb
  rw [hmask]
  exact hsame.attended hready ha

end

theorem reach_attended (h : Reach (timelySystem n) w) : w.sig.Attended := by
  induction h with
  | init h =>
    obtain ⟨⟨masks, hsig⟩, -⟩ := h
    intro v hb
    rw [hsig, not_blocked_of_running rfl] at hb
    cases hb
  | step hs hstep ih =>
    exact Attended.step (reach_kept (reach_orderly hs)) ih hstep.1.2.1 hstep.2.1 hstep.2.2

/-- In orderly and timely runs no wake-up is lost. -/
theorem no_lost_wakeup (h : Reach (timelySystem n) w) (v : Fin n) : ¬ w.sig.LostWakeup v := by
  rintro ⟨hb, hready, -⟩
  exact hready (reach_attended h v hb).1

theorem plain_postStep {c : Nat} {p : Post n} (h : w.plain (.postStep c))
    (hp : w.sig.posts[c]? = some p) : p.stage ≠ .enqueue := by
  simpa [Threads.plain, hp] using h

theorem timely_of_plain (h : w.plain a) : Timely w a := by
  cases a with
  | postStep c => exact fun p hp hstage => absurd hstage (plain_postStep h hp)
  | post | wake | dequeue | ready | sigprocmask | sigsuspendRevert | queueSigSleep | dequeueSigSleep
  | timeout => trivial
  | sigsuspend | sigtimedwait => cases h

/-- A post finds the thread that sleeps and wakes it; its signal is pending then. -/
theorem no_lost_wakeup_killed : suspendedThread.sig.blocked 0 ∧ (wokenThread.sig.vcpus 0).cvSignalled ∧
    wokenThread.sig.lists (.thread 0) ≠ [] ∧ ¬ wokenThread.sig.LostWakeup 0 := by
  have hstart : Reach (timelySystem 1) (awake fun _ => 0) := .init ⟨⟨_, rfl⟩, fun _ => rfl⟩
  have htimely : Timely (awake fun _ => 0 : Threads 1) (.sigsuspend 0 0) := by
    intro c p hp
    cases hp
  have hsuspended : Reach (timelySystem 1) suspendedThread :=
    .step hstart ⟨suspendedThread_step, suspendedThread_orderly, htimely⟩
  have hwoken : Reach (timelySystem 1) wokenThread := by
    refine hsuspended.runCalls (fun w a w' h => ?_) eq_eval
    have hplain := (Threads.actPlain_step h).1
    exact ⟨(Threads.actPlain_step h).2, orderly_of_plain hplain, timely_of_plain hplain⟩
  exact ⟨by decide +kernel, by decide +kernel, by decide +kernel, no_lost_wakeup hwoken 0⟩

/-- The thread suspends itself after the post has looked for it. -/
def missedKill : List (SigAct 1) :=
  [.post none (killInfo 10), .postStep 0, .postStep 0, .sigsuspend 0 0, .postStep 0, .postStep 0]

def afterMissedKill : Threads 1 := evaluate (runCalls Threads.act (awake fun _ => 0) missedKill)

/-- The post has returned, its signal is pending, and the thread that waits for it sleeps. -/
theorem sigsuspend_misses_kill :
    Reach (threadSystem 1) afterMissedKill ∧ afterMissedKill.sig.LostWakeup 0 := by
  refine ⟨reach_run eq_eval, by decide +kernel, fun hnone => ?_, ?_⟩
  · have hblocked := hnone .process (.inr rfl) ⟨0, by decide⟩ (by decide +kernel)
    revert hblocked
    decide +kernel
  have hdone : ∀ p ∈ afterMissedKill.sig.posts, p.stage = .done := by decide +kernel
  rintro ⟨p, hp, hstage | hstage, -⟩
  · rw [hdone p hp] at hstage
    cases hstage
  rw [hdone p hp] at hstage
  cases hstage

end KontainMonitor.Signal
