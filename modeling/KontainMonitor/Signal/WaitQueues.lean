import KontainMonitor.Signal.Waiters

/-!
# WaitQueues — who is on `km_signal_wait_queue` and `km_signal_sleep_queue`

One link field serves both queues.  In orderly runs (`Orderly`) the pointers are those of two lists,
which `Queued` relates to the threads that wait and to those in interruptible hypercalls.  In others
they are not: `km_rt_sigsuspend` leaves a thread that finds a signal at once on the wait queue, and
the timeout of `km_rt_sigtimedwait` unlinks a thread that its waker has already unlinked.
-/

namespace KontainMonitor.Signal

open Function Option Places TailQueue Transition

variable {n : Nat} {s s' : SigState n} {v : Fin n}
variable {a : SigAct n}

/-! ## Orderly runs -/

/-- Nobody suspends itself with a signal ready, no wait ends without a wake-up, and no timeout is
reported to a thread that was woken. -/
def Orderly (w : Threads n) : SigAct n → Prop
  | .sigsuspend v mask => NoneReady w.sig v mask
  | .wake v => (w.sig.vcpus v).cvSignalled
  | .timeout v => (w.sig.vcpus v).cvSignalled = false
  | _ => True

def orderlySystem (n : Nat) : System (Threads n) (SigAct n) :=
  (threadSystem n).restrict fun w a _ => Orderly w a

structure Queued (w : Threads n) (lists : SignalQueue → List (Fin n)) : Prop where
  repr : Represents w.sig.links lists
  wait : ∀ v, v ∈ lists .wait ↔ w.sig.blocked v
  sleep : ∀ v, v ∈ lists .sleep → w.asleep v
  running : ∀ v, w.asleep v → (w.sig.vcpus v).wait = .running
  /-- Whoever takes a thread off the sleep queue clears its link. -/
  cleared : ∀ v, w.asleep v → v ∉ lists .sleep → w.sig.links.prev v = none

def SigState.Woken (s : SigState n) : Prop :=
  ∀ v, (s.vcpus v).wait.inWait → (s.vcpus v).cvSignalled → s.HasOwn v

theorem not_blocked_of_running (hrun : (s.vcpus v).wait = .running) : s.blocked v = false := by
  simp [SigState.blocked, hrun, Wait.inWait]

theorem not_blocked_of_signalled (hcv : (s.vcpus v).cvSignalled) : s.blocked v = false := by
  simp [SigState.blocked, hcv]

theorem blocked_congr {u : Fin n} (h : s'.vcpus u = s.vcpus u) : s'.blocked u = s.blocked u := by
  rw [SigState.blocked, SigState.blocked, h]

theorem asleepAfter_of_not_sleeps {w : Threads n} (ha : a.sleeps = false) :
    w.asleepAfter a = w.asleep := by
  cases a <;> first | rfl | cases ha

variable {w w' : Threads n} {lists : SignalQueue → List (Fin n)}

section

variable (h : Queued w lists)
include h

/-- A thread that runs, outside of an interruptible hypercall, is on no queue. -/
theorem Queued.unlinked (hrun : (w.sig.vcpus v).wait = .running) (hawake : w.asleep v = false)
    (q : SignalQueue) : v ∉ lists q := by
  intro hmem
  cases q with
  | wait =>
    have := (h.wait v).1 hmem
    rw [not_blocked_of_running hrun] at this
    cases this
  | sleep =>
    rw [h.sleep v hmem] at hawake
    cases hawake

theorem Queued.length_le (q : SignalQueue) : (lists q).length ≤ n := by
  have := List.Nodup.length_le_card (h.repr.nodup q)
  rwa [Fintype.card_fin] at this

theorem Queued.findSuspended (signo : Nat) : findSuspended w.sig signo =
      some ((lists .wait).find? fun v => !kmSigismember (w.sig.vcpus v).sigmask signo) :=
  h.repr.find .wait _ (h.length_le .wait)

/-- Every thread whose link a step takes off a queue is on that queue. -/
theorem Queued.removes (hpermits : w.permits a) (ha : Orderly w a) {q : SignalQueue}
    (hr : w.sig.removes a = some (q, v)) : v ∈ lists q := by
  cases a with
  | postStep c =>
    simp only [SigState.removes, bind_eq_some_iff] at hr
    rcases hr with ⟨p, -, hr⟩
    split at hr
    · rw [h.findSuspended, join_some, map_eq_some_iff] at hr
      rcases hr with ⟨u, hu, heq⟩
      cases heq
      exact List.mem_of_find?_eq_some hu
    · rw [bind_eq_some_iff] at hr
      rcases hr with ⟨u, hu, hr⟩
      split at hr
      · cases hr
      cases hr
      rw [h.repr.first] at hu
      exact List.mem_of_mem_head? hu
    · cases hr
  | timeout u =>
    simp only [SigState.removes] at hr
    split at hr
    next hwait =>
      cases hr
      refine (h.wait v).2 ?_
      have hcv : (w.sig.vcpus v).cvSignalled = false := ha
      simp [SigState.blocked, hwait, hcv, Wait.inWait]
    · cases hr
  | dequeueSigSleep u =>
    simp only [SigState.removes] at hr
    split at hr
    next hprev =>
      cases hr
      by_contra hmem
      exact hprev (h.cleared v hpermits hmem)
    · cases hr
  | _ => cases hr

/-! ## The queues over a run -/

/-- No queue changes. -/
theorem Queued.keep (hlinks : w'.sig.links = w.sig.links) (hasleep : w'.asleep = w.asleep)
    (hblocked : ∀ u, w'.sig.blocked u = w.sig.blocked u)
    (hrun : ∀ u, (w.sig.vcpus u).wait = .running → (w'.sig.vcpus u).wait = .running) :
    Queued w' lists where
  repr := hlinks ▸ h.repr
  wait u := by rw [h.wait, hblocked]
  sleep u hu := hasleep ▸ h.sleep u hu
  running u hu := hrun u (h.running u (hasleep ▸ hu))
  cleared u hu hmem := hlinks ▸ h.cleared u (hasleep ▸ hu) hmem

/-- A thread that runs starts to wait. -/
theorem Queued.join (hrun : (w.sig.vcpus v).wait = .running) (hawake : w.asleep v = false)
    (hlinks : w'.sig.links = w.sig.links.insertTail .wait v) (hasleep : w'.asleep = w.asleep)
    (hblocked : w'.sig.blocked v) (hother : Others v w.sig w'.sig) :
    Queued w' (update lists .wait (lists .wait ++ [v])) where
  repr := hlinks ▸ h.repr.insertTail (h.unlinked hrun hawake) .wait
  wait u := by
    rw [mem_insert_iff, h.wait]
    by_cases hu : u = v
    · subst hu
      simp [hblocked]
    rw [blocked_congr (hother u hu)]
    simp [hu]
  sleep u hu := by
    rcases mem_insert_iff.1 hu with hu | ⟨-, heq⟩
    · exact hasleep ▸ h.sleep u hu
    · cases heq
  running u hu := by
    rw [hasleep] at hu
    have hne : u ≠ v := by
      rintro rfl
      rw [hu] at hawake
      cases hawake
    rw [hother u hne]
    exact h.running u hu
  cleared u hu hmem := by
    rw [hasleep] at hu
    have hne : u ≠ v := by
      rintro rfl
      rw [hu] at hawake
      cases hawake
    rw [hlinks, prev_insertTail_of_ne hne]
    exact h.cleared u hu fun hold => hmem (mem_insert_iff.2 (.inl hold))

/-- A thread that waits is taken off the wait queue. -/
theorem Queued.leave (hwas : w.sig.blocked v)
    (hlinks : w.sig.links.remove .wait v = some w'.sig.links) (hasleep : w'.asleep = w.asleep)
    (hblocked : w'.sig.blocked v = false) (hother : Others v w.sig w'.sig) :
    Queued w' (update lists .wait ((lists .wait).erase v)) := by
  obtain ⟨l, hl, hrepr, hprev⟩ := h.repr.remove ((h.wait v).2 hwas)
  obtain rfl : l = w'.sig.links := Option.some.inj (hl.symm.trans hlinks)
  have hne : ∀ u, w.asleep u → u ≠ v := by
    rintro u hu rfl
    rw [not_blocked_of_running (h.running u hu)] at hwas
    cases hwas
  refine ⟨hrepr, fun u => ?_, fun u hu => ?_, fun u hu => ?_, fun u hu hmem => ?_⟩
  · rw [h.repr.mem_erase_iff, h.wait]
    by_cases hu : u = v
    · subst hu
      simp [hblocked]
    rw [blocked_congr (hother u hu)]
    simp [hu]
  · exact hasleep ▸ h.sleep u (h.repr.mem_erase_iff.1 hu).1
  · rw [hasleep] at hu
    rw [hother u (hne u hu)]
    exact h.running u hu
  rw [hasleep] at hu
  have hout : u ∉ lists .sleep := fun hold =>
    hmem (h.repr.mem_erase_iff.2 ⟨hold, fun heq => nomatch heq.2⟩)
  have hwait : u ∉ lists .wait := by
    rw [h.wait, not_blocked_of_running (h.running u hu)]
    exact Bool.false_ne_true
  rw [hprev u hwait]
  exact h.cleared u hu hout

/-- Somebody interrupts the first thread of the sleep queue. -/
theorem Queued.interrupt {l : Links SignalQueue (Fin n)}
    (hfirst : w.sig.links.first .sleep = some v) (hl : w.sig.links.remove .sleep v = some l)
    (hlinks : w'.sig.links = { l with prev := update l.prev v none })
    (hvcpus : w'.sig.vcpus = w.sig.vcpus) (hasleep : w'.asleep = w.asleep) :
    Queued w' (update lists .sleep ((lists .sleep).erase v)) := by
  rw [h.repr.first] at hfirst
  have hv : v ∈ lists .sleep := List.mem_of_mem_head? hfirst
  obtain ⟨l', hl', hrepr, hprev⟩ := h.repr.remove hv
  obtain rfl : l' = l := Option.some.inj (hl'.symm.trans hl)
  have hgone : ∀ r, v ∉ update lists .sleep ((lists .sleep).erase v) r := by
    intro r hr
    obtain ⟨hold, hne⟩ := h.repr.mem_erase_iff.1 hr
    exact hne ⟨rfl, h.repr.disjoint r .sleep v hold hv⟩
  refine ⟨hlinks ▸ hrepr.set_prev hgone none, fun u => ?_, fun u hu => ?_, fun u hu => ?_,
    fun u hu hmem => ?_⟩
  · rw [h.repr.mem_erase_iff, h.wait, blocked_congr (congrFun hvcpus u)]
    simp
  · exact hasleep ▸ h.sleep u (h.repr.mem_erase_iff.1 hu).1
  · rw [hvcpus]
    exact h.running u (hasleep ▸ hu)
  rw [hlinks]
  by_cases hu' : u = v
  · subst hu'
    exact update_self ..
  have hout : u ∉ lists .sleep := fun hold =>
    hmem (h.repr.mem_erase_iff.2 ⟨hold, fun heq => hu' heq.1⟩)
  refine (update_of_ne hu' ..).trans ?_
  rw [hprev u hout]
  exact h.cleared u (hasleep ▸ hu) hout

theorem Queued.lieDown (hrun : (w.sig.vcpus v).wait = .running) (hawake : w.asleep v = false)
    (hlinks : w'.sig.links = w.sig.links.insertTail .sleep v) (hvcpus : w'.sig.vcpus = w.sig.vcpus)
    (hasleep : w'.asleep = update w.asleep v true) :
    Queued w' (update lists .sleep (lists .sleep ++ [v])) where
  repr := hlinks ▸ h.repr.insertTail (h.unlinked hrun hawake) .sleep
  wait u := by
    rw [mem_insert_iff, h.wait, blocked_congr (congrFun hvcpus u)]
    simp
  sleep u hu := by
    rw [hasleep]
    rcases mem_insert_iff.1 hu with hold | ⟨rfl, -⟩
    · have hne : u ≠ v := by
        rintro rfl
        exact h.unlinked hrun hawake .sleep hold
      rw [update_of_ne hne]
      exact h.sleep u hold
    · exact update_self ..
  running u hu := by
    rw [hvcpus]
    by_cases huv : u = v
    · exact huv ▸ hrun
    rw [hasleep, update_of_ne huv] at hu
    exact h.running u hu
  cleared u hu hmem := by
    have huv : u ≠ v := by
      rintro rfl
      exact hmem (mem_insert_iff.2 (.inr ⟨rfl, rfl⟩))
    rw [hasleep, update_of_ne huv] at hu
    rw [hlinks, prev_insertTail_of_ne huv]
    exact h.cleared u hu fun hold => hmem (mem_insert_iff.2 (.inl hold))

theorem Queued.getUp (hsleep : w.asleep v) (hprev : w.sig.links.prev v ≠ none)
    (hlinks : w.sig.links.remove .sleep v = some w'.sig.links) (hvcpus : w'.sig.vcpus = w.sig.vcpus)
    (hasleep : w'.asleep = update w.asleep v false) :
    Queued w' (update lists .sleep ((lists .sleep).erase v)) := by
  have hv : v ∈ lists .sleep := by
    by_contra hmem
    exact hprev (h.cleared v hsleep hmem)
  obtain ⟨l, hl, hrepr, hkeep⟩ := h.repr.remove hv
  obtain rfl : l = w'.sig.links := Option.some.inj (hl.symm.trans hlinks)
  have hstill : ∀ u, w'.asleep u → u ≠ v ∧ w.asleep u := by
    intro u hu
    rw [hasleep, update_apply] at hu
    split at hu
    · cases hu
    next hne =>
      exact ⟨hne, hu⟩
  refine ⟨hrepr, fun u => ?_, fun u hu => ?_, fun u hu => ?_, fun u hu hmem => ?_⟩
  · rw [h.repr.mem_erase_iff, h.wait, blocked_congr (congrFun hvcpus u)]
    simp
  · obtain ⟨hold, hne⟩ := h.repr.mem_erase_iff.1 hu
    rw [hasleep, update_of_ne fun heq => hne ⟨heq, rfl⟩]
    exact h.sleep u hold
  · rw [hvcpus]
    exact h.running u (hstill u hu).2
  obtain ⟨hne, hu⟩ := hstill u hu
  have hout : u ∉ lists .sleep := fun hold =>
    hmem (h.repr.mem_erase_iff.2 ⟨hold, fun heq => hne heq.1⟩)
  rw [hkeep u hout]
  exact h.cleared u hu hout

/-- The hypercall of a thread that was interrupted ends. -/
theorem Queued.upAlready (hprev : w.sig.links.prev v = none) (hsig : w'.sig = w.sig)
    (hasleep : w'.asleep = update w.asleep v false) : Queued w' lists := by
  have hv : v ∉ lists .sleep := fun hmem => h.repr.prev_ne_none hmem hprev
  have hstill : ∀ u, w'.asleep u → w.asleep u := by
    intro u hu
    rw [hasleep, update_apply] at hu
    split at hu
    · cases hu
    · exact hu
  refine ⟨hsig ▸ h.repr, fun u => hsig ▸ h.wait u, fun u hu => ?_, fun u hu => ?_,
    fun u hu hmem => ?_⟩
  · have hne : u ≠ v := by
      rintro rfl
      exact hv hu
    rw [hasleep, update_of_ne hne]
    exact h.sleep u hu
  · rw [hsig]
    exact h.running u (hstill u hu)
  rw [hsig]
  exact h.cleared u (hstill u hu) hmem

end

theorem blocked_of (hin : (s.vcpus v).wait.inWait) (hcv : (s.vcpus v).cvSignalled = false) :
    s.blocked v := by
  simp [SigState.blocked, hin, hcv]

theorem Others.blocked_eq (h : Others v s s') (hv : s'.blocked v = s.blocked v) (u : Fin n) :
    s'.blocked u = s.blocked u := by
  by_cases hu : u = v
  · rw [hu, hv]
  · exact blocked_congr (h u hu)

/-- Every orderly step keeps the queues. -/
theorem Queued.step (h : Queued w lists) (hnumbered : w.sig.Numbered) (hwoken : w.sig.Woken)
    (hstep : (threadSystem n).step w a w') (ha : Orderly w a) : ∃ lists', Queued w' lists' := by
  obtain ⟨hpermits, hr, hasleep⟩ := hstep
  -- the threads of the interruptible hypercalls, for all steps but two
  have hsame : a.sleeps = false → w'.asleep = w.asleep := fun hplain =>
    hasleep.trans (asleepAfter_of_not_sleeps hplain)
  generalize hs' : w'.sig = s' at hr
  cases step_turn hr with
  | still hplain hlinks hvcpus =>
    subst hs'
    refine ⟨lists, h.keep hlinks (hsame hplain) (fun u => ?_) fun u hrun => ?_⟩
    · rcases hvcpus u with heq | ⟨hrun, hrun'⟩
      · exact blocked_congr heq
      · rw [not_blocked_of_running hrun, not_blocked_of_running hrun']
    rcases hvcpus u with heq | ⟨-, hrun'⟩
    · rw [heq, hrun]
    · exact hrun'
  | @waits a v s' hwho hrun hlinks hwait hcv hother =>
    subst hs'
    have hplain : a.sleeps = false ∧ w.asleep v = false := by
      rcases hwho with ⟨mask, rfl, -⟩ | ⟨set, info, timeout, rfl⟩
      · exact ⟨rfl, by simpa [Threads.permits] using hpermits⟩
      · exact ⟨rfl, by simpa [Threads.permits] using hpermits⟩
    exact ⟨_, h.join hrun hplain.2 hlinks (hsame hplain.1) (blocked_of hwait hcv) hother⟩
  | lingers hready hrun hlinks hwait hother => exact absurd ha hready
  | @wakes c p v s' hp hstage hfind hlinks hput hv hother =>
    subst hs'
    rw [h.findSuspended, Option.some.injEq] at hfind
    have hwas : w.sig.blocked v := (h.wait v).1 (List.mem_of_find?_eq_some hfind)
    refine ⟨_, h.leave hwas hlinks (hsame rfl) (not_blocked_of_signalled ?_) hother⟩
    rw [hv]
  | interrupts hfirst hl hlinks hvcpus =>
    subst hs'
    exact ⟨_, h.interrupt hfirst hl hlinks hvcpus (hsame rfl)⟩
  | @returns v s' hin hlinks hrun hother =>
    subst hs'
    have hcv : (w.sig.vcpus v).cvSignalled := ha
    refine ⟨lists, h.keep hlinks (hsame rfl) (hother.blocked_eq ?_) fun u hu => ?_⟩
    · rw [not_blocked_of_running hrun, not_blocked_of_signalled hcv]
    by_cases huv : u = v
    · rw [huv, hrun]
    · rw [hother u huv, hu]
  | @loops v s' hin hready hlinks hv hother =>
    -- a thread that was woken has a signal, so it does not wait again
    obtain ⟨signo, hne, heq⟩ := kmSignalReadyNolock_own (hwoken v (by rw [hin]; rfl) ha) fun e he =>
      (hnumbered.entries _ (by simp) e he).1
    rw [heq] at hready
    exact absurd hready hne
  | timesOut hin hlinks hrun hother =>
    subst hs'
    exact ⟨_, h.leave (blocked_of hin ha) hlinks (hsame rfl) (not_blocked_of_running hrun) hother⟩
  | @queues v s' hrun hlinks hvcpus =>
    subst hs'
    have hawake : w.asleep v = false := by simpa [Threads.permits] using hpermits
    exact ⟨_, h.lieDown hrun hawake hlinks hvcpus hasleep⟩
  | dequeues hprev hlinks hvcpus =>
    subst hs'
    exact ⟨_, h.getUp hpermits hprev hlinks hvcpus hasleep⟩
  | already hprev => exact ⟨lists, h.upAlready hprev hs' hasleep⟩

/-! ## Woken threads -/

/-- Whoever may have taken a signal runs, or waits anew. -/
theorem step_taker (hr : step s a = some s') (ha : a.taker = some v) :
    (s'.vcpus v).wait = .running ∨ (s'.vcpus v).cvSignalled = false := by
  cases a with
  | dequeue u =>
    cases ha
    obtain ⟨hrun, ⟨⟩⟩ := whenRunning_running hr
    rw [(kmDequeueSignalNolock_same s v).2]
    exact .inl hrun
  | sigtimedwait u set info timeout =>
    cases ha
    cases whenRunning_spec hr
    simp only [kmRtSigtimedwait]
    split
    · exact .inl (sigtimedwaitReturn_vcpu ..).2.2
    split
    · exact .inl (sigtimedwaitReturn_vcpu ..).2.2
    rw [setVcpu_self]
    exact .inr rfl
  | wake u =>
    cases ha
    simp only [step, wakeStep] at hr
    split at hr
    · cases hr
    · cases hr
      rw [(sigsuspendLoop_vcpu s v).2.2]
      exact .inr rfl
    split at hr
    · cases hr
      exact .inl (sigtimedwaitReturn_vcpu ..).2.2
    cases hr
    exact .inl (sigtimedwaitReturn_vcpu ..).2.2
  | _ => cases ha

theorem SigState.Woken.step (h : s.Woken) (hs : s.Accounts) (hr : step s a = some s') :
    s'.Woken := by
  intro v hin hcv
  have hwait : (s'.vcpus v).wait ≠ .running := by
    intro hrun
    rw [hrun] at hin
    cases hin
  cases (step_turn hr).waiting hwait with
  | same hv =>
    -- it was woken before, and its signal is still there
    have htaker : a.taker ≠ some v := by
      intro ha
      rcases step_taker hr ha with hrun | hcv'
      · exact hwait hrun
      rw [hcv] at hcv'
      cases hcv'
    rw [hv] at hin hcv
    rcases h v hin hcv with ⟨e, he, hun⟩
    obtain ⟨he', hentry⟩ := step_keeps_own hs hr htaker he
    exact ⟨e, he', by rw [hv, hentry]; exact hun⟩
  | starts ha hcv' =>
    rw [hcv] at hcv'
    cases hcv'
  | @woken c p _ hp hstage hfind hput hv =>
    -- the signal that woke it is now its own
    rcases hput with ⟨e, he, hinfo⟩
    have hopen : kmSigismember (s.vcpus v).sigmask p.info.signo = false := by
      simpa using find_prop hfind
    exact ⟨e, he, by rw [hv, hinfo, isBlocked, hopen]; rfl⟩
  | again hin' hready hv =>
    rw [hv] at hcv
    cases hcv

/-! ## In every orderly run -/

structure Threads.Kept (w : Threads n) : Prop where
  accounts : w.sig.Accounts
  numbered : w.sig.Numbered
  woken : w.sig.Woken
  queued : ∃ lists, Queued w lists

theorem init_kept (h : (threadSystem n).init w) : w.Kept := by
  obtain ⟨⟨masks, hsig⟩, hasleep⟩ := h
  have hacc : w.sig.Accounts := hsig ▸ init_accounts masks
  refine ⟨hacc, ⟨fun c p hp => ?_, fun slist hslist e he => ?_⟩, fun v hwait => ?_, fun _ => [], ?_⟩
  · rw [hsig] at hp
    cases hp
  · rw [hsig] at he
    cases slist with
    | free => exact absurd rfl hslist
    | process => cases he
    | thread v => cases he
  · rw [hsig] at hwait
    cases hwait
  refine ⟨hsig ▸ Represents.init, fun v => ?_, fun v hv => ?_, fun v hv => ?_, fun v hv => ?_⟩
  · rw [hsig]
    simp [SigState.blocked, SigState.init, Wait.inWait]
  · cases hv
  · rw [hasleep] at hv
    cases hv
  rw [hasleep] at hv
  cases hv

theorem reach_kept (h : Reach (orderlySystem n) w) : w.Kept := by
  refine Reach.inv (S := orderlySystem n) (fun w hw => init_kept hw) (fun w a w' hw hstep => ?_) h
  obtain ⟨hstep, ha⟩ := hstep
  have heffect := step_effect hstep.2.1
  obtain ⟨lists, hlists⟩ := hw.queued
  refine ⟨heffect.accounts hw.accounts, heffect.numbered hw.accounts hw.numbered ?_,
    hw.woken.step hw.accounts hstep.2.1, hlists.step hw.numbered hw.woken hstep ha⟩
  rintro target info rfl
  simpa [Threads.permits] using hstep.1

/-- In orderly runs a thread is on the wait queue exactly while it waits, and on the sleep queue only
in an interruptible hypercall; nobody is linked twice, and only linked threads are unlinked. -/
theorem queues_hold_the_waiting (h : Reach (orderlySystem n) w) :
    (∀ v, w.sig.links.On .wait v ↔ w.sig.blocked v) ∧ (∀ v, w.sig.links.On .sleep v → w.asleep v) ∧
      (∀ v q r j k, w.sig.links.nth q j = some v → w.sig.links.nth r k = some v → q = r ∧ j = k) ∧
      ∀ a q v, w.permits a → Orderly w a → w.sig.removes a = some (q, v) → w.sig.links.On q v := by
  obtain ⟨lists, hq⟩ := (reach_kept h).queued
  refine ⟨fun v => ?_, fun v hv => ?_, fun v q r j k hj hk => hq.repr.once hj hk,
    fun a q v hpermits ha hr => ?_⟩
  · rw [hq.repr.on_iff, hq.wait]
  · exact hq.sleep v ((hq.repr.on_iff _ _).1 hv)
  · exact (hq.repr.on_iff _ _).2 (hq.removes hpermits ha hr)

/-- One step, as a function. -/
def Threads.act (w : Threads n) (a : SigAct n) : Option (Threads n) :=
  if w.permits a then (step w.sig a).map fun s => { sig := s, asleep := w.asleepAfter a } else none

theorem Threads.act_step (h : w.act a = some w') : (threadSystem n).step w a w' := by
  simp only [Threads.act] at h
  split at h
  next hpermits =>
    rcases map_eq_some_iff.1 h with ⟨s, hs, rfl⟩
    exact ⟨hpermits, hs, rfl⟩
  · cases h

def awake (masks : Fin n → SigSet) : Threads n :=
  { sig := SigState.init masks, asleep := fun _ => false }

theorem reach_awake (masks : Fin n → SigSet) : Reach (threadSystem n) (awake masks) :=
  Reach.init ⟨⟨masks, rfl⟩, fun _ => rfl⟩

theorem reach_run {masks : Fin n → SigSet} {as : List (SigAct n)}
    (h : runCalls Threads.act (awake masks) as = some w) : Reach (threadSystem n) w :=
  Reach.runCalls (fun _ _ _ hact => Threads.act_step hact) (reach_awake masks) h

def suspendedThread : Threads 1 := evaluate ((awake fun _ => 0).act (.sigsuspend 0 0))

theorem suspendedThread_step :
    (threadSystem 1).step (awake fun _ => 0) (.sigsuspend 0 0) suspendedThread :=
  Threads.act_step eq_eval

theorem suspendedThread_orderly : Orderly (awake fun _ => 0 : Threads 1) (.sigsuspend 0 0) := by
  rintro slist (rfl | rfl) e he <;> cases he

/-- Posts that do not enqueue, and the end of a wait after a wake-up. -/
def Threads.plain (w : Threads n) : SigAct n → Bool
  | .post .. => true
  | .postStep c => w.sig.posts[c]?.all (·.stage != .enqueue)
  | .wake v => (w.sig.vcpus v).cvSignalled
  | _ => false

def Threads.actPlain (w : Threads n) (a : SigAct n) : Option (Threads n) :=
  if w.plain a then w.act a else none

theorem Threads.actPlain_step (h : w.actPlain a = some w') :
    w.plain a ∧ (threadSystem n).step w a w' := by
  rw [Threads.actPlain, Option.ite_none_right_eq_some] at h
  exact ⟨h.1, Threads.act_step h.2⟩

theorem orderly_of_plain (h : w.plain a) : Orderly w a := by
  cases a with
  | wake v => exact h
  | post | postStep | dequeue | ready | sigprocmask | sigsuspendRevert | sigtimedwait | queueSigSleep
  | dequeueSigSleep => trivial
  | sigsuspend | timeout => cases h

def killsWaiter : List (SigAct 1) := [.post none (killInfo 10), .postStep 0, .postStep 0]

def wokenThread : Threads 1 := evaluate (runCalls Threads.actPlain suspendedThread killsWaiter)

/-- The thread is on the queue until the post takes it off. -/
theorem queues_hold_the_waiting_woken :
    suspendedThread.sig.links.On .wait 0 ∧ ¬ wokenThread.sig.links.On .wait 0 := by
  have hstart : Reach (orderlySystem 1) (awake fun _ => 0) := Reach.init ⟨⟨_, rfl⟩, fun _ => rfl⟩
  have hreach : Reach (orderlySystem 1) suspendedThread :=
    Reach.step hstart ⟨suspendedThread_step, suspendedThread_orderly⟩
  have hwoken : Reach (orderlySystem 1) wokenThread := by
    refine hreach.runCalls (fun w a w' h => ?_) eq_eval
    exact ⟨(Threads.actPlain_step h).2, orderly_of_plain (Threads.actPlain_step h).1⟩
  rw [(queues_hold_the_waiting hreach).1, (queues_hold_the_waiting hwoken).1]
  decide +kernel

def readyAtOnce : List (SigAct 1) :=
  [.post none (killInfo 10), .postStep 0, .postStep 0, .postStep 0, .postStep 0, .sigsuspend 0 0]

def wokenAndTimedOut : List (SigAct 1) :=
  [.sigtimedwait 0 (1#64 <<< 9) (killInfo 0) (some 1), .post none (killInfo 10), .postStep 0,
    .postStep 0]

def afterReadyAtOnce : Threads 1 := evaluate (runCalls Threads.act (awake fun _ => 0) readyAtOnce)

def afterWoken : Threads 1 := evaluate (runCalls Threads.act (awake fun _ => 0) wokenAndTimedOut)

/-- A thread that finds a signal at once stays on the wait queue while it runs; and a timeout
unlinks a thread that a wake-up has unlinked before. -/
theorem wait_queue_out_of_step :
    (Reach (threadSystem 1) afterReadyAtOnce ∧ (afterReadyAtOnce.sig.vcpus 0).wait = .running ∧
      afterReadyAtOnce.sig.links.On .wait 0) ∧
    (Reach (threadSystem 1) afterWoken ∧ afterWoken.permits (.timeout 0) ∧
      (afterWoken.sig.removes (.timeout 0)) = some (.wait, 0) ∧ ¬ afterWoken.sig.links.On .wait 0) := by
  refine ⟨⟨reach_run eq_eval, by rfl, 0, by decide +kernel⟩,
    reach_run eq_eval, rfl, by decide +kernel, not_on_of_first (by decide +kernel)⟩

end KontainMonitor.Signal
