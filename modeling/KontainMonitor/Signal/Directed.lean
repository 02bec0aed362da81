import KontainMonitor.Signal.Posting

/-!
# Directed — signals for one thread (`km_tkill`)

`km_post_signal` looks at the process list before it drops a signal, and at the whole wait queue
before it chooses a list, whoever the signal is for.  So a signal for thread `t` can go to another
thread (`tkill_dequeued_by_other`).  It reaches `t` in the runs in which neither look finds
anything that `t` itself would not have led to (`Undisturbed`).
-/

namespace KontainMonitor.Signal

open Places TailQueue Transition

variable {n : Nat} {s s' : SigState n} {c : Nat} {t : Fin n}
variable {a : SigAct n}

structure Undisturbed (c : Nat) (s : SigState n) (a : SigAct n) (_ : SigState n) : Prop where
  check : ∀ p t, a = .postStep c → s.posts[c]? = some p → p.target = some t → p.stage = .check →
    s.hasPending .process p.info.signo → s.hasPending (.thread t) p.info.signo
  wakeup : ∀ p t v, a = .postStep c → s.posts[c]? = some p → p.target = some t →
    p.stage = .wakeup → findSuspended s p.info.signo = some (some v) → v = t

/-- The signal of call `c` is for thread `t`, is pending for `t` only and was dequeued by `t`
only. -/
structure KeptFor (t : Fin n) (c : Nat) (s : SigState n) : Prop where
  pending : ∀ e slist, slist ≠ .free → e ∈ s.lists slist → s.label e = c → slist = .thread t
  dequeued : ∀ v, (v, c) ∈ s.handed → v = t

/-- Call `c` is not a call for `t`, or its signal is kept for `t`. -/
def SigState.KeepsDirection (c : Nat) (s : SigState n) : Prop :=
  ∀ (p : Post n) (t : Fin n), s.posts[c]? = some p → p.target = some t → KeptFor t c s

/-- The target of a call was already what it is, unless the call has just been made. -/
theorem Effect.target_before (h : Effect s a s') {p' : Post n} (hp' : s'.posts[c]? = some p')
    (hlt : c < s.posts.length) : ∃ p, s.posts[c]? = some p ∧ p.target = p'.target := by
  have hp : s.posts[c]? = some s.posts[c] := List.getElem?_eq_getElem hlt
  rcases h.posts_of hp with ⟨p'', hp'', htarget, -, -⟩
  rw [hp', Option.some.injEq] at hp''
  exact ⟨_, hp, by rw [hp'', htarget]⟩

theorem Effect.handed_before (h : Effect s a s') {v : Fin n} (hv : (v, c) ∈ s'.handed) :
    (v, c) ∈ s.handed ∨
      ∃ e slist, (slist = .thread v ∨ slist = .process) ∧ e ∈ s.lists slist ∧ s.label e = c := by
  cases h with
  | quiet hsame | called hsame | advanced hsame => exact .inl (hsame.handed ▸ hv)
  | placed _ _ _ _ _ hhanded | claimed _ _ _ hhanded => exact .inl (hhanded ▸ hv)
  | taken hslist he hlists hentries hhanded hposts =>
    rw [hhanded, List.mem_cons, Prod.mk.injEq] at hv
    rcases hv with ⟨rfl, rfl⟩ | hv
    · exact .inr ⟨_, _, hslist, he, rfl⟩
    · exact .inl hv

/-- Nothing is pending or dequeued for a call that has not been made. -/
theorem keptFor_of_not_put (hs : s.Accounts) (hput : ¬ s.put c) : KeptFor t c s where
  pending _ _ hslist he hlabel := absurd (hlabel ▸ hs.known hslist he) hput
  dequeued v hv := absurd (hs.taken_put c (List.mem_map.2 ⟨(v, c), hv, rfl⟩)) hput

theorem Effect.keepsDirection (h : Effect s a s') (hs : s.Accounts) (hu : Undisturbed c s a s')
    (hk : s.KeepsDirection c) : s'.KeepsDirection c := by
  intro p' t hp' ht
  have hkept : KeptFor t c s := by
    by_cases hlt : c < s.posts.length
    · rcases h.target_before hp' hlt with ⟨p, hp, htarget⟩
      exact hk p t hp (htarget.trans ht)
    refine keptFor_of_not_put hs ?_
    rintro ⟨p, hp, -⟩
    exact hlt (List.getElem?_eq_some_iff.1 hp).1
  refine ⟨?_, ?_⟩
  · intro e slist hslist he hlabel
    rcases h.pending_before hs hslist he hlabel with
      ⟨slist', hslist', he', hlabel', -, hor⟩ | ⟨p, ha, hp, hdest, -, -⟩
    · -- the entry was on the list of `t` already, so no thread has claimed it
      have hthread := hkept.pending e slist' hslist' he' hlabel'
      rcases hor with rfl | rfl
      · exact hthread
      · cases hthread
    rcases h.posts_of hp with ⟨p'', hp'', htarget, -, -⟩
    rw [hp', Option.some.injEq] at hp''
    have ht' : p.target = some t := by rw [← htarget, ← hp'', ht]
    rcases hdest with ⟨hstage, v, hfound, rfl⟩ | ⟨-, rfl⟩
    · rw [hu.wakeup p t v ha hp ht' hstage hfound]
    rw [ht']
    rfl
  intro v hv
  rcases h.handed_before hv with hv | ⟨e, slist, hslist, he, hlabel⟩
  · exact hkept.dequeued v hv
  have hne : slist ≠ .free := by rcases hslist with rfl | rfl <;> simp
  have hthread := hkept.pending e slist hne he hlabel
  rcases hslist with rfl | rfl
  · exact Place.thread.inj hthread
  · cases hthread

theorem reach_keepsDirection (h : Reach ((signalSystem n).restrict (Undisturbed c)) s) :
    s.KeepsDirection c := by
  refine (h.inv (I := fun s => s.Accounts ∧ s.KeepsDirection c) ?_ ?_).2
  · rintro s ⟨masks, rfl⟩
    refine ⟨init_accounts masks, ?_⟩
    intro p t hp
    cases hp
  rintro s a s' ⟨hs, hk⟩ ⟨hr, hu⟩
  exact ⟨(step_effect hr).accounts hs, (step_effect hr).keepsDirection hs hu hk⟩

/-- In a run in which the looks of call `c` find nothing of others, its signal is dequeued by its
target only, and dropped only if the target itself has that signal pending. -/
theorem undisturbed_tkill_reaches_target {p : Post n}
    (h : Reach ((signalSystem n).restrict (Undisturbed c)) s) (hp : s.posts[c]? = some p)
    (ht : p.target = some t) : (∀ v, (v, c) ∈ s.handed → v = t) ∧
      ∀ a s' p', ((signalSystem n).restrict (Undisturbed c)).step s a s' →
        s'.posts[c]? = some p' → p.stage ≠ .dropped → p'.stage = .dropped →
          p.info.signo < sigRtmin ∧ s.hasPending (.thread t) p.info.signo := by
  refine ⟨(reach_keepsDirection h p t hp ht).dequeued, ?_⟩
  rintro a s' p' ⟨hr, hu⟩ hp' hbefore hafter
  obtain ⟨ha, hstage, hstd, hpend⟩ :=
    (step_effect hr).dropped (reach_checks h.of_restrict) hp hp' hbefore hafter
  refine ⟨hstd, ?_⟩
  simp only [signalPending, ht, Bool.or_eq_true] at hpend
  rcases hpend with hthread | hprocess
  · exact hthread
  · exact hu.check p t ha hp ht hstage hprocess

/-- If nothing is pending for the process and nobody waits, the looks find nothing. -/
theorem undisturbed_of_quiet (hprocess : s.lists .process = [])
    (hwait : s.links.first .wait = none) : Undisturbed c s a s' where
  check p t _ _ _ _ hpend := by simp [SigState.hasPending, hprocess] at hpend
  wakeup p t v _ _ _ _ hfound := by
    rw [findSuspended, hwait] at hfound
    cases n <;> cases hfound

def quietStep (s : SigState n) (a : SigAct n) : Option (SigState n) :=
  if s.lists .process = [] ∧ s.links.first .wait = none then step s a else none

theorem quietStep_undisturbed (hr : quietStep s a = some s') :
    ((signalSystem n).restrict (Undisturbed c)).step s a s' := by
  simp only [quietStep] at hr
  split at hr
  next hq =>
    exact ⟨hr, undisturbed_of_quiet hq.1 hq.2⟩
  · cases hr

def tkillAlone : List (SigAct 2) :=
  [.post (some 0) (tkillInfo 1 10), .postStep 0, .postStep 0, .postStep 0, .dequeue 1, .dequeue 0]

def afterTkillAlone : SigState 2 :=
  evaluate (runCalls quietStep (SigState.init fun _ => 0) tkillAlone)

theorem undisturbed_tkill_reaches_target_alone :
    afterTkillAlone.handed = [(0, 0)] ∧ ∀ v, (v, 0) ∈ afterTkillAlone.handed → v = 0 := by
  have hreach : Reach ((signalSystem 2).restrict (Undisturbed 0)) afterTkillAlone :=
    Reach.runCalls (fun _ _ _ h => quietStep_undisturbed h) (.init ⟨_, rfl⟩)
      eq_eval
  have hp : afterTkillAlone.posts[0]? =
      some { target := some 0, info := tkillInfo 1 10, stage := .done } := rfl
  exact ⟨by decide +kernel, (undisturbed_tkill_reaches_target hreach hp rfl).1⟩

/-! ## Signals that go astray -/

/-- Thread 1 is in `sigsuspend` when signal 10 is sent to thread 0. -/
def tkillDuringSigsuspend : List (SigAct 2) :=
  [.sigsuspend 1 0, .post (some 0) (tkillInfo 1 10), .postStep 0, .postStep 0, .wake 1, .dequeue 1]

/-- Signal 10 is pending for the process, as both threads block it, when it is sent to thread 0. -/
def tkillAfterKill : List (SigAct 2) :=
  [.post none (killInfo 10), .postStep 0, .postStep 0, .postStep 0, .postStep 0,
    .post (some 0) (tkillInfo 1 10)]

def astray : SigState 2 := evaluate (runCalls step (SigState.init fun _ => 0) tkillDuringSigsuspend)

def beforeDrop : SigState 2 :=
  evaluate (runCalls step (SigState.init fun _ => kmSigaddset 0 10) tkillAfterKill)

/-- A signal for thread 0 is dequeued by thread 1; another one is dropped although nothing is
pending for thread 0. -/
theorem tkill_dequeued_by_other :
    (Reach (signalSystem 2) astray ∧ astray.posts[0]?.bind Post.target = some 0 ∧
      (1, 0) ∈ astray.handed) ∧
    (Reach (signalSystem 2) beforeDrop ∧ beforeDrop.posts[1]?.bind Post.target = some 0 ∧
      beforeDrop.lists (.thread 0) = [] ∧
      (step beforeDrop (.postStep 1)).map (fun s => s.posts[1]?.map Post.stage) =
        some (some .dropped)) := by
  refine ⟨⟨?_, by decide +kernel, by decide +kernel⟩,
    ⟨?_, by decide +kernel, by decide +kernel, by decide +kernel⟩⟩
  · exact .runCalls (fun _ _ _ h => h) (.init ⟨_, rfl⟩) eq_eval
  · exact .runCalls (fun _ _ _ h => h) (.init ⟨_, rfl⟩) eq_eval

end KontainMonitor.Signal
