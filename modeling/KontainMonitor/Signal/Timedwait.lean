import KontainMonitor.Signal.Wakeups

/-!
# Timedwait — what `km_rt_sigtimedwait` returns

The result is read from the caller's `siginfo_t` whether or not a signal was dequeued, so it is right
only if the wait ended for the right reason (`spurious_wakeup_returns_signal`).  A call is followed
from its start to its return: `Call` keeps what it was asked for, the mask before it and how many
signals the thread had taken by then.
-/

namespace KontainMonitor.Signal

open Function Places TailQueue Transition Option

variable {n : Nat} {s s' : SigState n} {v : Fin n}
variable {set origmask : SigSet} {posted : Posted} {a : SigAct n} {timed : Bool} {info : SigInfo}

/-! ## Calls and their results -/

def timedwaitResult (s : SigState n) : SigAct n → Option (Fin n × Int × SigInfo)
  | .sigtimedwait v set info timeout =>
    match (kmDequeueSignalNolock (s.setVcpu v fun x => { x with sigmask := blockthese set }) v).2 with
    | some posted => some (v, posted.info.signo, posted.info)
    | none => if timeout = some 0 then some (v, -eagain, info) else none
  | .wake v =>
    match (s.vcpus v).wait with
    | .sigtimedwait _ _ info =>
      match (kmDequeueSignalNolock s v).2 with
      | some posted => some (v, posted.info.signo, posted.info)
      | none => some (v, info.signo, info)
    | _ => none
  | .timeout v =>
    match (s.vcpus v).wait with
    | .sigtimedwait _ true info => some (v, -eagain, info)
    | _ => none
  | _ => none

/-- The number of signals that the thread has dequeued. -/
def SigState.takenBy (s : SigState n) (v : Fin n) : Nat := s.handed.countP fun h => h.1 = v

/-- A call: the requested set, the mask before it, and what the thread had taken before. -/
structure Call where
  set : SigSet
  before : SigSet
  taken : Nat

structure Calls (n : Nat) where
  threads : Threads n
  calls : Fin n → Option Call

def Calls.callsAfter (k : Calls n) : SigAct n → Fin n → Option Call
  | .sigtimedwait v set _ _ => update k.calls v (some
      { set := set
        before := (k.threads.sig.vcpus v).sigmask
        taken := k.threads.sig.takenBy v })
  | _ => k.calls

def Faultless (w : Threads n) : SigAct n → Prop
  | .sigtimedwait v _ _ _ => ∀ e ∈ w.sig.lists (.thread v), ¬ Fault (w.sig.entries e).info
  | .postStep c => ∀ p, w.sig.posts[c]? = some p → p.stage = .enqueue → Fault p.info →
      ∃ t, p.target = some t ∧ (w.sig.vcpus t).wait = .running
  | _ => True

def callSystem (n : Nat) : System (Calls n) (SigAct n) where
  init k := (threadSystem n).init k.threads
  step k a k' := (threadSystem n).step k.threads a k'.threads ∧ k'.calls = k.callsAfter a

def faultlessSystem (n : Nat) : System (Calls n) (SigAct n) :=
  (callSystem n).restrict fun k a _ => Orderly k.threads a ∧ Faultless k.threads a

structure GoodReturn (c : Call) (s s' : SigState n) (v : Fin n) (rv : Int) (info : SigInfo) :
    Prop where
  /-- A positive result is the number of a signal of the set, which `*info` describes and which was
  removed from a pending list; the call removed no other. -/
  positive : 0 < rv → rv = info.signo ∧ kmSigismember c.set info.signo ∧
    (∃ slist e, (slist = .thread v ∨ slist = .process) ∧ e ∈ s.lists slist ∧
      (s.entries e).info = info ∧ e ∉ s'.lists slist) ∧ s'.takenBy v = c.taken + 1
  negative : rv < 0 → s'.takenBy v = c.taken
  mask : (s'.vcpus v).sigmask = c.before
  queue : ∀ q, ¬ s'.links.On q v

/-! ## The mask during the wait -/

/-- What the mask of the wait lets through was asked for. -/
theorem mem_of_not_blockthese {signo : Nat} (hlow : 1 ≤ signo) (hlt : signo < nSig)
    (h : kmSigismember (blockthese set) signo = false) : kmSigismember set signo := by
  rw [blockthese, kmSigismember_kmSigaddset hlow (by decide) (by decide),
    kmSigismember_kmSigaddset hlow (by decide) (by decide), Bool.or_eq_false_iff,
    Bool.or_eq_false_iff] at h
  have hnot := h.1.1
  have hidx : kmSigindex signo < 64 := by
    simp only [kmSigindex, nSig] at hlt ⊢
    omega
  rw [kmSigismember_eq, BitVec.getLsbD_not, decide_eq_true hidx, Bool.true_and] at hnot
  rw [kmSigismember_eq]
  simpa using hnot

/-- Faults that are pending for the thread were asked for. -/
def NoStray (s : SigState n) (v : Fin n) (mask : SigSet) : Prop :=
  ∀ slist, slist = .thread v ∨ slist = .process → ∀ e ∈ s.lists slist,
    Fault (s.entries e).info → kmSigismember mask (s.entries e).info.signo = false

theorem not_mem_of_eligible {mask : SigSet} {slist : Place n} {e : Entry} (h : NoStray s v mask)
    (hslist : slist = .thread v ∨ slist = .process) (he : e ∈ s.lists slist)
    (hopen : Eligible mask (s.entries e).info) :
    kmSigismember mask (s.entries e).info.signo = false := by
  rcases hopen with hopen | hfault
  · rw [kmSigismember_eq]
    exact hopen
  · exact h slist hslist e he hfault

/-- What a successful dequeue does. -/
theorem kmDequeueSignalNolock_some (hacc : s.Accounts)
    (h : (kmDequeueSignalNolock s v).2 = some posted) :
    ∃ slist e, (slist = .thread v ∨ slist = .process) ∧ e ∈ s.lists slist ∧
      posted = s.entries e ∧ Eligible (s.vcpus v).sigmask (s.entries e).info ∧
      e ∉ (kmDequeueSignalNolock s v).1.lists slist ∧
      (kmDequeueSignalNolock s v).1.takenBy v = s.takenBy v + 1 := by
  rcases kmDequeueSignalNolock_cases s v with ⟨-, heq⟩ | ⟨slist, e, hsource, hc, heq⟩
  · rw [heq] at h
    cases h
  have hslist : slist = .thread v ∨ slist = .process := hsource.imp_right And.left
  have hfree : slist ≠ .free := by rcases hslist with rfl | rfl <;> simp
  have he := chooseSignal_mem hc
  rw [heq] at h ⊢
  cases h
  refine ⟨slist, e, hslist, he, rfl, isBlocked_eq_false.1 (chooseSignal_eq_some hc).1, ?_, ?_⟩
  · rw [mem_move hacc.part hfree he]
    rintro (⟨-, heq⟩ | ⟨hne, -⟩)
    · exact hfree heq
    · exact hne rfl
  · simp [SigState.takenBy]

/-! ## Calls that wait -/

/-- A thread that may have dequeued a signal and is in a timed wait has just started it. -/
theorem taker_timedwait (hr : step s a = some s') (ha : a.taker = some v)
    (hwait : (s'.vcpus v).wait = .sigtimedwait origmask timed info) :
    ∃ set info timeout, a = .sigtimedwait v set info timeout := by
  cases a with
  | dequeue u =>
    cases ha
    obtain ⟨hrun, ⟨⟩⟩ := whenRunning_running hr
    rw [(kmDequeueSignalNolock_same s v).2, hrun] at hwait
    cases hwait
  | sigtimedwait u set info timeout =>
    cases ha
    exact ⟨set, info, timeout, rfl⟩
  | wake u =>
    cases ha
    simp only [step, wakeStep] at hr
    split at hr
    · cases hr
    · cases hr
      rw [(sigsuspendLoop_vcpu s v).2.2] at hwait
      simp only at hwait
      split at hwait <;> cases hwait
    split at hr
    · cases hr
      rw [(sigtimedwaitReturn_vcpu ..).2.2] at hwait
      cases hwait
    cases hr
    rw [(sigtimedwaitReturn_vcpu ..).2.2] at hwait
    cases hwait
  | _ => cases ha

theorem takenBy_eq (hr : step s a = some s') (ha : a.taker ≠ some v) :
    s'.takenBy v = s.takenBy v := by
  rcases step_handed hr with heq | ⟨u, d, htaker, heq⟩
  · rw [SigState.takenBy, heq, SigState.takenBy]
  have hne : u ≠ v := by
    rintro rfl
    exact ha htaker
  rw [SigState.takenBy, heq, SigState.takenBy, List.countP_cons_of_neg (by simpa using hne)]

structure Calls.Tracked (k : Calls n) : Prop where
  process : ∀ e ∈ k.threads.sig.lists .process, ¬ Fault (k.threads.sig.entries e).info
  own : ∀ v origmask timed info, (k.threads.sig.vcpus v).wait = .sigtimedwait origmask timed info →
    ∀ e ∈ k.threads.sig.lists (.thread v), Fault (k.threads.sig.entries e).info →
      kmSigismember (k.threads.sig.vcpus v).sigmask (k.threads.sig.entries e).info.signo = false
  call : ∀ v origmask timed info, (k.threads.sig.vcpus v).wait = .sigtimedwait origmask timed info →
    ∃ c, k.calls v = some c ∧ origmask = c.before ∧
      (k.threads.sig.vcpus v).sigmask = blockthese c.set ∧ k.threads.sig.takenBy v = c.taken

variable {k k' : Calls n}
variable {w : Threads n} {t : SigState n} {c : Call}

theorem Calls.Tracked.noStray (h : k.Tracked)
    (hwait : (k.threads.sig.vcpus v).wait = .sigtimedwait origmask timed info) :
    NoStray k.threads.sig v (k.threads.sig.vcpus v).sigmask := by
  rintro slist (rfl | rfl) e he hfault
  · exact h.own v _ _ _ hwait e he hfault
  · exact absurd hfault (h.process e he)

/-- A thread in a timed wait after a step was in it before, with the same mask, or has just started
it. -/
theorem timedwait_before (hr : step s a = some s')
    (hwait : (s'.vcpus v).wait = .sigtimedwait origmask timed info) :
    ((s.vcpus v).wait = .sigtimedwait origmask timed info ∧
      (s'.vcpus v).sigmask = (s.vcpus v).sigmask ∧ a.taker ≠ some v) ∨
    ∃ set info timeout, a = .sigtimedwait v set info timeout ∧ s'.blocked v := by
  have hrunning : (s'.vcpus v).wait ≠ .running := by
    rw [hwait]
    exact fun heq => nomatch heq
  have htaker : (s.vcpus v).wait = .sigtimedwait origmask timed info → a.taker ≠ some v := by
    intro hbefore ha
    obtain ⟨set, info, timeout, rfl⟩ := taker_timedwait hr ha hwait
    have hrun := (whenRunning_running hr).1
    rw [hbefore] at hrun
    cases hrun
  cases (step_turn hr).waiting hrunning with
  | same hv | woken _ _ _ _ hv =>
    rw [hv] at hwait
    exact .inl ⟨hwait, by rw [hv], htaker hwait⟩
  | starts ha hcv =>
    rcases ha with ⟨mask, rfl⟩ | ⟨set, info', timeout, rfl⟩
    · cases whenRunning_spec hr
      rw [show kmRtSigsuspend s v mask = sigsuspendLoop _ v from rfl,
        (sigsuspendLoop_vcpu _ v).2.2] at hwait
      simp only at hwait
      split at hwait <;> cases hwait
    · exact .inr ⟨set, info', timeout, rfl, blocked_of (by rw [hwait]; rfl) hcv⟩
  | again hin hready hv =>
    rw [hv] at hwait
    simp only [hin] at hwait
    cases hwait

theorem callsAfter_of_not_taker (ha : a.taker ≠ some v) : k.callsAfter a v = k.calls v := by
  cases a with
  | sigtimedwait u set info timeout =>
    refine update_of_ne ?_ ..
    rintro rfl
    exact ha rfl
  | _ => rfl

theorem Calls.Tracked.step (h : k.Tracked) (hacc : k.threads.sig.Accounts)
    (hr : Signal.step k.threads.sig a = some k'.threads.sig) (hcalls : k'.calls = k.callsAfter a)
    (ha : Faultless k.threads a) : k'.Tracked where
  process e he hfault := by
    rcases (step_effect hr).pending_before hacc (by simp) he rfl with
      ⟨r, -, he', -, hinfo, rfl | rfl⟩ | ⟨p, rfl, hp, hdest, hinfo, -⟩
    · exact h.process e he' (hinfo ▸ hfault)
    · exact h.process e he' (hinfo ▸ hfault)
    rcases hdest with ⟨-, u, -, hplace⟩ | ⟨hstage, hplace⟩
    · cases hplace
    obtain ⟨t, htarget, -⟩ := ha p hp hstage (hinfo ▸ hfault)
    rw [htarget] at hplace
    cases hplace
  own v origmask timed info hwait e he hfault := by
    rcases timedwait_before hr hwait with ⟨hbefore, hmask, -⟩ | ⟨set, info', timeout, rfl, hb⟩
    · rw [hmask]
      rcases (step_effect hr).pending_before hacc (by simp) he rfl with
        ⟨r, -, he', -, hinfo, rfl | rfl⟩ | ⟨p, rfl, hp, hdest, hinfo, -⟩
      · rw [hinfo]
        exact h.own v _ _ _ hbefore e he' (hinfo ▸ hfault)
      · exact absurd (hinfo ▸ hfault) (h.process e he')
      rcases hdest with ⟨-, u, hfind, hplace⟩ | ⟨hstage, hplace⟩
      · -- the signal that wakes the thread is not in its mask
        cases hplace
        rw [hinfo]
        simpa using find_prop hfind
      obtain ⟨t, htarget, hrun⟩ := ha p hp hstage (hinfo ▸ hfault)
      rw [htarget] at hplace
      cases hplace
      rw [hbefore] at hrun
      cases hrun
    have hs' := whenRunning_spec hr
    rw [some.injEq] at hs'
    rw [← hs'] at hb he hfault
    obtain ⟨⟨hlists, hentries, -⟩, -⟩ := kmRtSigtimedwait_blocked hb
    rw [hlists] at he
    rw [hentries] at hfault
    exact absurd hfault (ha e he)
  call v origmask timed info hwait := by
    rcases timedwait_before hr hwait with ⟨hbefore, hmask, htaker⟩ | ⟨set, info', timeout, rfl, hb⟩
    · obtain ⟨c, hc, horig, hset, htaken⟩ := h.call v _ _ _ hbefore
      refine ⟨c, ?_, horig, hmask.trans hset, (takenBy_eq hr htaker).trans htaken⟩
      rw [hcalls, callsAfter_of_not_taker htaker, hc]
    have hs' := whenRunning_spec hr
    rw [some.injEq] at hs'
    rw [← hs'] at hb hwait ⊢
    obtain ⟨⟨-, -, -, hhanded⟩, -, hmask, hw⟩ := kmRtSigtimedwait_blocked hb
    rw [hw] at hwait
    cases hwait
    refine ⟨{ set := set
              before := (k.threads.sig.vcpus v).sigmask
              taken := k.threads.sig.takenBy v }, ?_, rfl, hmask, ?_⟩
    · rw [hcalls, Calls.callsAfter, update_self]
    · rw [SigState.takenBy, hhanded, SigState.takenBy]

theorem reach_threads (h : Reach (faultlessSystem n) k) : Reach (orderlySystem n) k.threads := by
  refine .inv (I := fun k => Reach (orderlySystem n) k.threads)
    (fun k hk => ?_) (fun k a k' hk hstep => ?_) h
  · exact .init hk
  · exact .step hk ⟨hstep.1.1, hstep.2.1⟩

theorem reach_tracked (h : Reach (faultlessSystem n) k) : k.Tracked := by
  induction h with
  | @init k hk =>
    obtain ⟨⟨masks, hsig⟩, -⟩ := hk
    refine ⟨fun e he => ?_, fun v _ _ _ hwait => ?_, fun v _ _ _ hwait => ?_⟩
    · rw [hsig] at he
      cases he
    · rw [hsig] at hwait
      cases hwait
    rw [hsig] at hwait
    cases hwait
  | step hk hstep ih =>
    exact ih.step (reach_kept (reach_threads hk)).accounts hstep.1.1.2.1 hstep.1.2 hstep.2.2

/-! ## Returns -/

/-- A thread that runs outside of interruptible hypercalls is on no queue. -/
theorem Threads.Kept.unlinked (h : w.Kept) (hrun : (w.sig.vcpus v).wait = .running)
    (hawake : w.asleep v = false) (q : SignalQueue) : ¬ w.sig.links.On q v := by
  obtain ⟨lists, hq⟩ := h.queued
  rw [hq.repr.on_iff]
  exact hq.unlinked hrun hawake q

theorem Threads.Kept.awake (h : w.Kept) (hin : (w.sig.vcpus v).wait.inWait) :
    w.asleep v = false := by
  obtain ⟨lists, hq⟩ := h.queued
  by_contra hasleep
  rw [hq.running v (by simpa using hasleep)] at hin
  cases hin

theorem accounts_setVcpu (h : s.Accounts) {f : Vcpu → Vcpu} : (s.setVcpu v f).Accounts :=
  h.same ⟨rfl, rfl, rfl⟩ rfl

/-- A signal was pending. -/
theorem kmRtSigtimedwait_dequeued {timeout : Option Nat} (h : (kmDequeueSignalNolock
      (s.setVcpu v fun x => { x with sigmask := blockthese set }) v).2 = some posted) :
    kmRtSigtimedwait s v set info timeout = sigtimedwaitReturn (kmDequeueSignalNolock
      (s.setVcpu v fun x => { x with sigmask := blockthese set }) v).1 v (s.vcpus v).sigmask
        posted.info.signo := by
  rw [kmRtSigtimedwait, ← blockthese]
  split
  next heq =>
    rw [heq] at h ⊢
    cases h
    rfl
  next heq =>
    rw [heq] at h
    cases h

/-- No signal was pending, and the caller does not want to wait. -/
theorem kmRtSigtimedwait_poll (h : (kmDequeueSignalNolock
      (s.setVcpu v fun x => { x with sigmask := blockthese set }) v).2 = none) :
    kmRtSigtimedwait s v set info (some 0) = sigtimedwaitReturn
      (s.setVcpu v fun x => { x with sigmask := blockthese set }) v (s.vcpus v).sigmask
        (-eagain) := by
  rw [kmRtSigtimedwait, ← blockthese]
  rcases kmDequeueSignalNolock_cases (s.setVcpu v fun x => { x with sigmask := blockthese set }) v
    with ⟨-, heq⟩ | ⟨slist, e, -, -, heq⟩
  · rw [heq]
    rfl
  rw [heq] at h
  cases h

/-- A call ends with a signal that it dequeued in its last section. -/
theorem goodReturn_dequeued (hacc : t.Accounts)
    (hnum : ∀ slist, slist = .thread v ∨ slist = .process →
      ∀ e ∈ t.lists slist, 1 ≤ (t.entries e).info.signo ∧ (t.entries e).info.signo < nSig)
    (hstray : NoStray t v (t.vcpus v).sigmask) (hmask : (t.vcpus v).sigmask = blockthese c.set)
    (htaken : t.takenBy v = c.taken) (horig : origmask = c.before)
    (h : (kmDequeueSignalNolock t v).2 = some posted) (hlists : t.lists = s.lists)
    (hentries : t.entries = s.entries)
    (hs' : s' = sigtimedwaitReturn (kmDequeueSignalNolock t v).1 v origmask posted.info.signo)
    (hqueue : ∀ q, ¬ s'.links.On q v) : GoodReturn c s s' v posted.info.signo posted.info := by
  obtain ⟨slist, e, hslist, he, rfl, hopen, hout, hcount⟩ := kmDequeueSignalNolock_some hacc h
  obtain ⟨hlow, hlt⟩ := hnum slist hslist e he
  have hmember : kmSigismember c.set (t.entries e).info.signo := by
    refine mem_of_not_blockthese hlow hlt ?_
    rw [← hmask]
    exact not_mem_of_eligible hstray hslist he hopen
  have hsame : s'.takenBy v = (kmDequeueSignalNolock t v).1.takenBy v ∧
      s'.lists = (kmDequeueSignalNolock t v).1.lists ∧ (s'.vcpus v).sigmask = origmask := by
    rw [hs']
    refine ⟨rfl, rfl, ?_⟩
    rw [sigtimedwaitReturn, setVcpu_self]
  refine ⟨fun _ => ⟨rfl, hmember, ⟨slist, e, hslist, hlists ▸ he, ?_, ?_⟩, ?_⟩, fun hneg => ?_, ?_,
    hqueue⟩
  · rw [← hentries]
  · rw [hsame.2.1]
    exact hout
  · rw [hsame.1, hcount, htaken]
  · omega
  · rw [hsame.2.2, horig]

/-- A call ends with `-EAGAIN` without having dequeued anything. -/
theorem goodReturn_again (htaken : t.takenBy v = c.taken) (horig : origmask = c.before)
    (hs' : s' = sigtimedwaitReturn t v origmask (-eagain)) (hqueue : ∀ q, ¬ s'.links.On q v) :
    GoodReturn c s s' v (-eagain) info := by
  refine ⟨fun hpos => ?_, fun _ => ?_, ?_, hqueue⟩
  · simp [eagain] at hpos
  · rw [hs', ← htaken]
    rfl
  · rw [hs', sigtimedwaitReturn, setVcpu_self, horig]

/-- In orderly and faultless runs every call of `km_rt_sigtimedwait` returns what it has to. -/
theorem sigtimedwait_returns (h : Reach (faultlessSystem n) k) {a : SigAct n}
    (hstep : (faultlessSystem n).step k a k') {rv : Int} {info : SigInfo}
    (hret : timedwaitResult k.threads.sig a = some (v, rv, info)) :
    ∃ c, k'.calls v = some c ∧ GoodReturn c k.threads.sig k'.threads.sig v rv info := by
  have hkept := reach_kept (reach_threads h)
  have hkept' := reach_kept (reach_threads (.step h hstep))
  have htracked := reach_tracked h
  obtain ⟨⟨⟨hpermits, hr, hasleep⟩, hcalls⟩, ho, hf⟩ := hstep
  have hnum : ∀ slist, slist = .thread v ∨ slist = .process → ∀ e ∈ k.threads.sig.lists slist,
      1 ≤ (k.threads.sig.entries e).info.signo ∧ (k.threads.sig.entries e).info.signo < nSig := by
    intro slist hslist
    refine hkept.numbered.entries slist ?_
    rcases hslist with rfl | rfl <;> simp
  -- after the return the thread is on no queue
  have hqueue : a.sleeps = false → k.threads.asleep v = false →
      (k'.threads.sig.vcpus v).wait = .running → ∀ q, ¬ k'.threads.sig.links.On q v := by
    intro hplain hawake hrun
    refine hkept'.unlinked hrun ?_
    rw [hasleep, asleepAfter_of_not_sleeps hplain]
    exact hawake
  cases a with
  | sigtimedwait u set info0 timeout =>
    have hs' : k'.threads.sig = kmRtSigtimedwait k.threads.sig u set info0 timeout :=
      (some.inj (whenRunning_spec hr)).symm
    have hself : ((k.threads.sig.setVcpu u fun x => { x with sigmask := blockthese set }).vcpus
        u).sigmask = blockthese set := by
      rw [setVcpu_self]
    simp only [timedwaitResult] at hret
    split at hret
    next posted hposted =>
      cases hret
      have hend : kmRtSigtimedwait k.threads.sig v set info0 timeout = _ :=
        kmRtSigtimedwait_dequeued hposted
      refine ⟨_, by rw [hcalls, Calls.callsAfter, update_self], ?_⟩
      refine goodReturn_dequeued (accounts_setVcpu hkept.accounts) hnum ?_ hself rfl rfl hposted
        rfl rfl (hs'.trans hend) (hqueue rfl (by simpa [Threads.permits] using hpermits) ?_)
      · rw [hself]
        rintro slist (rfl | rfl) e he hfault
        · exact absurd hfault (hf e he)
        · exact absurd hfault (htracked.process e he)
      rw [hs', hend]
      exact (sigtimedwaitReturn_vcpu ..).2.2
    rename_i hposted
    split at hret
    next htimeout =>
      cases hret
      have hend : kmRtSigtimedwait k.threads.sig v set info (some 0) = _ :=
        kmRtSigtimedwait_poll hposted
      rw [htimeout] at hs'
      refine ⟨_, by rw [hcalls, Calls.callsAfter, update_self], ?_⟩
      refine goodReturn_again
        (t := k.threads.sig.setVcpu v fun x => { x with sigmask := blockthese set }) rfl rfl
        (hs'.trans hend) (hqueue rfl (by simpa [Threads.permits] using hpermits) ?_)
      rw [hs', hend]
      exact (sigtimedwaitReturn_vcpu ..).2.2
    · cases hret
  | wake u =>
    simp only [timedwaitResult] at hret
    split at hret
    next origmask timed info0 hwait =>
      have hin : (k.threads.sig.vcpus u).wait.inWait := by
        rw [hwait]
        rfl
      split at hret
      next posted hposted =>
        cases hret
        have hs' : k'.threads.sig =
            sigtimedwaitReturn (kmDequeueSignalNolock k.threads.sig v).1 v origmask
              posted.info.signo := by
          simp only [step, wakeStep, hwait] at hr
          split at hr
          next heq =>
            rw [heq] at hposted ⊢
            cases hposted
            exact (some.inj hr).symm
          next heq =>
            rw [heq] at hposted
            cases hposted
        obtain ⟨c, hc, horig, hmask, htaken⟩ := htracked.call v _ _ _ hwait
        refine ⟨c, by rw [hcalls]; exact hc, ?_⟩
        refine goodReturn_dequeued hkept.accounts hnum (htracked.noStray hwait) hmask htaken horig
          hposted rfl rfl hs' (hqueue rfl (hkept.awake hin) ?_)
        rw [hs']
        exact (sigtimedwaitReturn_vcpu ..).2.2
      -- a thread that was woken finds a signal
      rename_i hposted
      obtain ⟨e, he, hopen⟩ := hkept.woken u hin ho
      rcases kmDequeueSignalNolock_cases k.threads.sig u with ⟨hnone, -⟩ | ⟨slist, e, -, -, heq⟩
      · exact absurd (isBlocked_eq_false.1 hopen) (hnone _ (.inl rfl) e he)
      rw [heq] at hposted
      cases hposted
    · cases hret
  | timeout u =>
    simp only [timedwaitResult] at hret
    split at hret
    next origmask info0 hwait =>
      cases hret
      have hin : (k.threads.sig.vcpus v).wait.inWait := by
        rw [hwait]
        rfl
      obtain ⟨c, hc, horig, hmask, htaken⟩ := htracked.call v _ _ _ hwait
      simp only [step, timeoutStep, hwait, do_eq_some, return_eq_some] at hr
      rcases hr with ⟨links, -, hs'⟩
      refine ⟨c, by rw [hcalls]; exact hc, ?_⟩
      refine goodReturn_again (t := { k.threads.sig with links := links }) htaken horig hs'.symm
        (hqueue rfl (hkept.awake hin) ?_)
      rw [← hs']
      exact (sigtimedwaitReturn_vcpu ..).2.2
    · cases hret
  | _ => cases hret


/-! ## Runs -/

theorem faultless_of_plain {w : Threads n} (h : w.plain a) : Faultless w a := by
  cases a with
  | postStep c => exact fun p hp hstage => absurd hstage (plain_postStep h hp)
  | post | wake | dequeue | ready | sigprocmask | sigsuspend | sigsuspendRevert | queueSigSleep
  | dequeueSigSleep | timeout => trivial
  | sigtimedwait => cases h

theorem callsAfter_of_plain (h : k.threads.plain a) : k.callsAfter a = k.calls := by
  cases a with
  | sigtimedwait => cases h
  | _ => rfl

theorem reach_plain {as : List (SigAct n)} {w : Threads n} (h : Reach (faultlessSystem n) k)
    (hr : runCalls Threads.actPlain k.threads as = some w) :
    Reach (faultlessSystem n) { k with threads := w } := by
  induction as generalizing k with
  | nil =>
    cases hr
    exact h
  | cons a as ih =>
    simp only [runCalls, bind_eq_some_iff] at hr
    rcases hr with ⟨w1, hact, hr⟩
    rcases Threads.actPlain_step hact with ⟨hplain, hstep⟩
    exact ih (k := { k with threads := w1 }) (.step h ⟨⟨hstep, (callsAfter_of_plain hplain).symm⟩,
      orderly_of_plain hplain, faultless_of_plain hplain⟩) hr

def waitsForTen : SigAct 1 := .sigtimedwait 0 (1#64 <<< 9) (killInfo 5) none

def waitingForTen : Threads 1 := evaluate ((awake fun _ => 0).act waitsForTen)

def killedWaiter : Threads 1 := evaluate (runCalls Threads.actPlain waitingForTen killsWaiter)

def tenReturned : Threads 1 := evaluate (killedWaiter.act (.wake 0))

def noCalls (w : Threads n) : Calls n := { threads := w, calls := fun _ => none }

theorem sigtimedwait_returns_killed :
    timedwaitResult killedWaiter.sig (.wake 0) = some (0, 10, killInfo 10) ∧
      ∃ c, GoodReturn c killedWaiter.sig tenReturned.sig 0 10 (killInfo 10) := by
  have hstart : Reach (faultlessSystem 1) (noCalls (awake fun _ => 0)) :=
    Reach.init ⟨⟨_, rfl⟩, fun _ => rfl⟩
  have hfaultless : Faultless (awake fun _ => 0 : Threads 1) waitsForTen := by
    intro e he
    cases he
  have hwaits : (threadSystem 1).step (awake fun _ => 0) waitsForTen waitingForTen :=
    Threads.act_step eq_eval
  have hreturns : (threadSystem 1).step killedWaiter (.wake 0) tenReturned := Threads.act_step eq_eval
  have hwaiting : Reach (faultlessSystem 1)
      { threads := waitingForTen, calls := (noCalls (awake fun _ => 0)).callsAfter waitsForTen } :=
    .step hstart ⟨⟨hwaits, rfl⟩, trivial, hfaultless⟩
  have hkilled := reach_plain (w := killedWaiter) hwaiting eq_eval
  have hret : timedwaitResult killedWaiter.sig (.wake 0) = some (0, 10, killInfo 10) := by
    decide +kernel
  have hsignalled : (killedWaiter.sig.vcpus 0).cvSignalled := by decide +kernel
  rcases sigtimedwait_returns hkilled
    (⟨⟨hreturns, rfl⟩, hsignalled, trivial⟩ : (faultlessSystem 1).step ⟨killedWaiter, _⟩ (.wake 0)
      ⟨tenReturned, _⟩) hret with ⟨c, -, hgood⟩
  exact ⟨hret, c, hgood⟩

def spuriouslyWoken : Threads 1 := evaluate (waitingForTen.act (.wake 0))

/-- A spurious wake-up makes the call return what the buffer held, neither asked for nor removed,
and leaves the thread on the wait queue. -/
theorem spurious_wakeup_returns_signal : Reach (threadSystem 1) waitingForTen ∧
      (threadSystem 1).step waitingForTen (.wake 0) spuriouslyWoken ∧
      timedwaitResult waitingForTen.sig (.wake 0) = some (0, 5, killInfo 5) ∧
      kmSigismember (1#64 <<< 9) 5 = false ∧ spuriouslyWoken.sig.handed = [] ∧
      spuriouslyWoken.sig.links.On .wait 0 :=
  ⟨.step (reach_awake _) (Threads.act_step eq_eval), Threads.act_step eq_eval,
    by decide +kernel, by decide, by decide +kernel, 0, by decide +kernel⟩

end KontainMonitor.Signal
