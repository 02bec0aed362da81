import KontainMonitor.Signal.Queues

/-!
# Posting — no posted signal is lost or duplicated

The entries are the tokens and the calls of `km_post_signal` the orders of a `Places.Ledger`
(`SigState.Accounts`).  Every critical section moves entries by `Ledger.place`, `Ledger.move` and
`Ledger.take`, or leaves them alone, so the ledger is right in every reachable state.
-/

namespace KontainMonitor.Signal

open Function List Places TailQueue Transition Option

variable {n : Nat} {s s' : SigState n}
variable {c : Nat} {stage : Stage} {p : Post n} {slist : Place n} {e : Entry} {a : SigAct n}
variable {blocked : SigSet} {v : Fin n}

def Stage.put : Stage → Bool
  | .interrupt | .done => true
  | _ => false

def SigState.put (s : SigState n) (c : Nat) : Prop := ∃ p, s.posts[c]? = some p ∧ p.stage.put

def SigState.label (s : SigState n) (e : Entry) : Nat := (s.entries e).post

/-- The calls whose signals were dequeued. -/
def SigState.taken (s : SigState n) : List Nat := s.handed.map Prod.snd

def SigState.Accounts (s : SigState n) : Prop := Ledger s.lists .free s.label s.taken s.put

/-! ## Stages -/

theorem setStage_posts (s : SigState n) (c d : Nat) (stage : Stage) :
    (s.setStage c stage).posts[d]? =
      if c = d then s.posts[d]?.map fun p => { p with stage := stage } else s.posts[d]? := by
  simp only [SigState.setStage, List.getElem?_modify]
  split <;> simp

theorem setStage_put_of_ne {d : Nat} (hne : d ≠ c) : (s.setStage c stage).put d ↔ s.put d := by
  simp only [SigState.put, setStage_posts, if_neg (Ne.symm hne)]

section

variable (hp : s.posts[c]? = some p)
include hp

theorem setStage_put_self : (s.setStage c stage).put c ↔ stage.put := by
  simp [SigState.put, setStage_posts, hp]

/-- A call that has put nothing yet goes on to a section before it does. -/
theorem setStage_put (hsame : stage.put = p.stage.put) (d : Nat) :
    (s.setStage c stage).put d ↔ s.put d := by
  by_cases hd : d = c
  · subst hd
    rw [setStage_put_self hp, hsame]
    simp [SigState.put, hp]
  · exact setStage_put_of_ne hd

/-- A call puts its signal. -/
theorem setStage_put_new (hput : stage.put) (d : Nat) :
    (s.setStage c stage).put d ↔ s.put d ∨ d = c := by
  by_cases hd : d = c
  · subst hd
    simp [setStage_put_self hp, hput]
  · simp [setStage_put_of_ne hd, hd]

theorem not_put (hno : p.stage.put = false) : ¬ s.put c := by
  rintro ⟨p', hp', hput⟩
  rw [hp, some.injEq] at hp'
  rw [← hp', hno] at hput
  cases hput

end

/-! ## The functions under the mutex -/

structure SameEntries (s s' : SigState n) : Prop where
  lists : s'.lists = s.lists
  entries : s'.entries = s.entries
  handed : s'.handed = s.handed

theorem SigState.Accounts.congr (h : s.Accounts) (hs : SameEntries s s')
    (hput : ∀ c, s'.put c ↔ s.put c) : s'.Accounts := by
  have hlabel : s'.label = s.label := by
    funext e
    simp only [SigState.label, hs.entries]
  have htaken : s'.taken = s.taken := by simp only [SigState.taken, hs.handed]
  have hput' : s'.put = s.put := funext fun c => propext (hput c)
  rw [SigState.Accounts, hs.lists, hlabel, htaken, hput']
  exact h

theorem SigState.Accounts.same (h : s.Accounts) (hs : SameEntries s s') (hp : s'.posts = s.posts) :
    s'.Accounts :=
  h.congr hs fun c => by simp only [SigState.put, hp]

theorem enqueueSignalNolock_spec {posted : Posted}
    (hr : enqueueSignalNolock s slist posted = some s') : ∃ sig, sig ∈ s.lists .free ∧ s' = { s with
      lists := move s.lists .free slist sig
      entries := update s.entries sig posted } := by
  simp only [enqueueSignalNolock] at hr
  split at hr
  · cases hr
  next sig rest hfree =>
    cases hr
    exact ⟨sig, by simp [hfree], rfl⟩

theorem preferSignal_spec {chosen : Option Entry} {sig : Entry}
    (he : preferSignal s blocked chosen sig = some e) : chosen = some e ∨ e = sig := by
  simp only [preferSignal] at he
  split at he
  · exact .inl he
  split at he
  · exact .inr (some.inj he).symm
  split at he
  · exact .inr (some.inj he).symm
  · exact .inl he

theorem chooseSignal_mem {list : List Entry} (he : chooseSignal s blocked list = some e) :
    e ∈ list := by
  -- the chosen entry comes from the part of the list that the loop has seen
  have hfold : ∀ (l : List Entry) (acc : Option Entry),
      l.foldl (preferSignal s blocked) acc = some e → acc = some e ∨ e ∈ l := by
    intro l
    induction l with
    | nil =>
      intro acc h
      exact .inl h
    | cons sig l ih =>
      intro acc h
      rcases ih _ h with hacc | hmem
      · rcases preferSignal_spec hacc with hacc | rfl
        · exact .inl hacc
        · exact .inr (.head _)
      · exact .inr (.tail _ hmem)
  rcases hfold list none he with h | h
  · cases h
  · exact h

theorem dequeueSignal_spec (slist : Place n) (blocked : SigSet) :
    dequeueSignal s slist blocked = (s, none) ∨ ∃ e ∈ s.lists slist, dequeueSignal s slist blocked =
        ({ s with lists := move s.lists slist .free e }, some (s.entries e)) := by
  simp only [dequeueSignal]
  split
  · exact .inl rfl
  next e he =>
    exact .inr ⟨e, chooseSignal_mem he, rfl⟩

/-- A dequeue hands out nothing, or one entry of the thread or of the process. -/
theorem kmDequeueSignalNolock_spec (v : Fin n) : kmDequeueSignalNolock s v = (s, none) ∨
      ∃ slist, (slist = .thread v ∨ slist = .process) ∧ ∃ e ∈ s.lists slist,
        kmDequeueSignalNolock s v = ({ s with
          lists := move s.lists slist .free e
          handed := (v, s.label e) :: s.handed }, some (s.entries e)) := by
  simp only [kmDequeueSignalNolock]
  rcases dequeueSignal_spec (s := s) (.thread v) (s.vcpus v).sigmask with h | ⟨e, he, h⟩
  · rw [h]
    rcases dequeueSignal_spec (s := s) .process (s.vcpus v).sigmask with h' | ⟨e, he, h'⟩
    · exact .inl (by simp only [h'])
    · exact .inr ⟨.process, .inr rfl, e, he, by simp only [h']; rfl⟩
  · exact .inr ⟨.thread v, .inl rfl, e, he, by simp only [h]; rfl⟩

theorem kmSignalReadyNolock_spec (v : Fin n) : (kmSignalReadyNolock s v).1 = s ∨
      ∃ e ∈ s.lists .process,
        (kmSignalReadyNolock s v).1 = { s with lists := move s.lists .process (.thread v) e } := by
  simp only [kmSignalReadyNolock]
  split
  · exact .inl rfl
  split
  next e he =>
    exact .inr ⟨e, mem_of_find?_eq_some he, rfl⟩
  · exact .inl rfl

/-! ## What a step does to entries and calls -/

/-- The list that a call enqueues its signal on: that of the thread it found on the wait queue, or
that of its target. -/
def Destination (s : SigState n) (p : Post n) (slist : Place n) : Prop :=
  (p.stage = .wakeup ∧ ∃ v, findSuspended s p.info.signo = some (some v) ∧ slist = .thread v) ∨
    (p.stage = .enqueue ∧ slist = p.target.elim .process .thread)

/-- The thread that may dequeue a signal. -/
def SigAct.taker : SigAct n → Option (Fin n)
  | .dequeue v | .sigtimedwait v _ _ _ | .wake v => some v
  | _ => none

inductive Effect (s : SigState n) : SigAct n → SigState n → Prop
  | quiet {a : SigAct n} {s' : SigState n} (hs : SameEntries s s') (hposts : s'.posts = s.posts) :
      Effect s a s'
  | called {target : Option (Fin n)} {info : SigInfo} {s' : SigState n} (hs : SameEntries s s')
      {stage : Stage} (hstage : stage = if info.signo < sigRtmin then .check else .wakeup)
      (hposts : s'.posts = s.posts ++ [{ target := target, info := info, stage := stage }]) :
      Effect s (.post target info) s'
  | advanced {c : Nat} {p : Post n} {stage : Stage} {s' : SigState n} (hs : SameEntries s s')
      (hp : s.posts[c]? = some p) (hsame : stage.put = p.stage.put)
      (hposts : s'.posts = (s.setStage c stage).posts)
      (hdrop : stage = .dropped → p.stage = .check ∧ signalPending s p.target p.info)
      (hcheck : stage ≠ .check) :
      Effect s (.postStep c) s'
  | placed {c : Nat} {p : Post n} {slist : Place n} {sig : Entry} {stage : Stage} {s' : SigState n}
      (hp : s.posts[c]? = some p) (hdest : Destination s p slist) (hsig : sig ∈ s.lists .free)
      (hlists : s'.lists = move s.lists .free slist sig)
      (hentries : s'.entries = update s.entries sig { info := p.info, post := c })
      (hhanded : s'.handed = s.handed) (hput : stage.put)
      (hposts : s'.posts = (s.setStage c stage).posts) :
      Effect s (.postStep c) s'
  | claimed {a : SigAct n} {v : Fin n} {e : Entry} {s' : SigState n} (he : e ∈ s.lists .process)
      (hlists : s'.lists = move s.lists .process (.thread v) e) (hentries : s'.entries = s.entries)
      (hhanded : s'.handed = s.handed) (hposts : s'.posts = s.posts) : Effect s a s'
  | taken {a : SigAct n} {v : Fin n} {slist : Place n} {e : Entry} {s' : SigState n}
      (hslist : slist = .thread v ∨ slist = .process) (he : e ∈ s.lists slist)
      (hlists : s'.lists = move s.lists slist .free e) (hentries : s'.entries = s.entries)
      (hhanded : s'.handed = (v, s.label e) :: s.handed) (hposts : s'.posts = s.posts)
      (htaker : a.taker = some v) : Effect s a s'

theorem SameEntries.refl (s : SigState n) : SameEntries s s := ⟨rfl, rfl, rfl⟩

/-- Waiting and masks are no part of the effect. -/
theorem Effect.congr {s1 s2 : SigState n} (h : Effect s1 a s2) (hs : SameEntries s s1)
    (hp : s1.posts = s.posts) (hs' : SameEntries s2 s') (hp' : s'.posts = s2.posts)
    (ha : ∀ c, a ≠ .postStep c) : Effect s a s' := by
  have hlabel : s1.label = s.label := by
    funext e
    simp only [SigState.label, hs.entries]
  cases h with
  | quiet hq hposts =>
    exact .quiet ⟨hs'.lists.trans (hq.lists.trans hs.lists),
      hs'.entries.trans (hq.entries.trans hs.entries),
      hs'.handed.trans (hq.handed.trans hs.handed)⟩ (hp'.trans (hposts.trans hp))
  | called hq hstage hposts =>
    exact .called ⟨hs'.lists.trans (hq.lists.trans hs.lists),
      hs'.entries.trans (hq.entries.trans hs.entries),
      hs'.handed.trans (hq.handed.trans hs.handed)⟩ hstage (hp'.trans (hp ▸ hposts))
  | advanced | placed => exact absurd rfl (ha _)
  | claimed he hlists hentries hhanded hposts =>
    rw [hs.lists] at he hlists
    exact .claimed he (hs'.lists.trans hlists) (hs'.entries.trans (hentries.trans hs.entries))
      (hs'.handed.trans (hhanded.trans hs.handed)) (hp'.trans (hposts.trans hp))
  | taken hslist he hlists hentries hhanded hposts htaker =>
    rw [hs.lists] at he hlists
    rw [hs.handed, hlabel] at hhanded
    exact .taken hslist he (hs'.lists.trans hlists)
      (hs'.entries.trans (hentries.trans hs.entries)) (hs'.handed.trans hhanded)
      (hp'.trans (hposts.trans hp)) htaker

theorem kmDequeueSignalNolock_effect (ha : a.taker = some v) :
    Effect s a (kmDequeueSignalNolock s v).1 := by
  rcases kmDequeueSignalNolock_spec (s := s) v with hr | ⟨slist, hslist, e, he, hr⟩
  · rw [hr]
    exact .quiet (.refl s) rfl
  rw [hr]
  exact .taken hslist he rfl rfl rfl rfl ha

theorem kmSignalReadyNolock_effect (a : SigAct n) (v : Fin n) :
    Effect s a (kmSignalReadyNolock s v).1 := by
  rcases kmSignalReadyNolock_spec (s := s) v with hr | ⟨e, he, hr⟩
  · rw [hr]
    exact .quiet (.refl s) rfl
  rw [hr]
  exact .claimed he rfl rfl rfl rfl

theorem sigsuspendLoop_effect (v : Fin n) (ha : ∀ c, a ≠ .postStep c) :
    Effect s a (sigsuspendLoop s v) :=
  (kmSignalReadyNolock_effect a v).congr (.refl s) rfl ⟨rfl, rfl, rfl⟩ rfl ha

inductive PostEnd (s : SigState n) (c : Nat) (p : Post n) : SigState n → Prop
  | checked (hstage : p.stage = .check) :
      PostEnd s c p (s.setStage c (if signalPending s p.target p.info then .dropped else .wakeup))
  | nobody (hstage : p.stage = .wakeup) (hfind : findSuspended s p.info.signo = some none) :
      PostEnd s c p (s.setStage c .enqueue)
  | wakes {v : Fin n} {links : Links SignalQueue (Fin n)} {sig : Entry} (hstage : p.stage = .wakeup)
      (hfind : findSuspended s p.info.signo = some (some v))
      (hlinks : s.links.remove .wait v = some links) (hsig : sig ∈ s.lists .free) :
      PostEnd s c p ((SigState.setVcpu { s with
        links := links
        lists := move s.lists .free (.thread v) sig
        entries := update s.entries sig { info := p.info, post := c } } v
          fun x => { x with cvSignalled := true }).setStage c .done)
  | enqueued {slist : Place n} {sig : Entry} {stage : Stage} (hstage : p.stage = .enqueue)
      (hdest : slist = p.target.elim .process .thread) (hsig : sig ∈ s.lists .free)
      (hput : stage.put) :
      PostEnd s c p (SigState.setStage { s with
        lists := move s.lists .free slist sig
        entries := update s.entries sig { info := p.info, post := c } } c stage)
  | passes (hstage : p.stage = .interrupt) : PostEnd s c p (s.setStage c .done)
  | interrupts {v : Fin n} {links : Links SignalQueue (Fin n)} (hstage : p.stage = .interrupt)
      (hfirst : s.links.first .sleep = some v) (hlinks : s.links.remove .sleep v = some links) :
      PostEnd s c p (SigState.setStage { s with
        links := { links with prev := update links.prev v none } } c .done)

theorem postStep_end (hr : postStep s c = some s') :
    ∃ p, s.posts[c]? = some p ∧ PostEnd s c p s' := by
  simp only [postStep, do_eq_some] at hr
  rcases hr with ⟨p, hp, hr⟩
  refine ⟨p, hp, ?_⟩
  cases hstage : p.stage with
  | check =>
    simp only [hstage, return_eq_some] at hr
    exact hr ▸ .checked hstage
  | wakeup =>
    simp only [hstage, kmWakeupSuspendedThread, do_eq_some, return_eq_some] at hr
    rcases hr with ⟨⟨s1, woken⟩, ⟨found, hfound, hw⟩, rfl⟩
    cases found with
    | none =>
      cases hw
      exact .nobody hstage hfound
    | some v =>
      simp only [do_eq_some, return_eq_some, Prod.mk.injEq] at hw
      rcases hw with ⟨links, hlinks, s2, henq, rfl, rfl⟩
      rcases enqueueSignalNolock_spec henq with ⟨sig, hsig, rfl⟩
      exact .wakes hstage hfound hlinks hsig
  | enqueue =>
    cases htarget : p.target with
    | none | some =>
      simp only [hstage, htarget, do_eq_some, return_eq_some] at hr
      rcases hr with ⟨s1, henq, rfl⟩
      rcases enqueueSignalNolock_spec henq with ⟨sig, hsig, rfl⟩
      exact .enqueued hstage (by rw [htarget]; rfl) hsig rfl
  | interrupt =>
    simp only [hstage, do_eq_some, return_eq_some] at hr
    rcases hr with ⟨s1, hint, rfl⟩
    simp only [kmInterruptThread] at hint
    split at hint
    · cases hint
      exact .passes hstage
    rename_i v hfirst
    split at hint
    · cases hint
      exact .passes hstage
    simp only [do_eq_some, return_eq_some] at hint
    rcases hint with ⟨links, hlinks, rfl⟩
    exact .interrupts hstage hfirst hlinks
  | dropped | done => simp [hstage] at hr

theorem postStep_effect (hr : postStep s c = some s') : Effect s (.postStep c) s' := by
  rcases postStep_end hr with ⟨p, hp, hend⟩
  cases hend with
  | checked hstage =>
    refine .advanced ⟨rfl, rfl, rfl⟩ hp ?_ rfl ?_ ?_
    · rw [hstage]
      split <;> rfl
    · split
      next hpend =>
        exact fun _ => ⟨hstage, hpend⟩
      · exact nofun
    · split <;> simp
  | wakes hstage hfind _ hsig =>
    exact .placed hp (.inl ⟨hstage, _, hfind, rfl⟩) hsig rfl rfl rfl rfl rfl
  | enqueued hstage hdest hsig hput =>
    exact .placed hp (.inr ⟨hstage, hdest⟩) hsig rfl rfl rfl hput rfl
  | nobody hstage | passes hstage | interrupts hstage =>
    exact .advanced ⟨rfl, rfl, rfl⟩ hp (by rw [hstage]; rfl) rfl nofun nofun

theorem whenRunning_spec {r : Option (SigState n)} (hr : whenRunning s v r = some s') :
    r = some s' := by
  simp only [whenRunning] at hr
  split at hr
  · exact hr
  · cases hr

theorem kmRtSigtimedwait_effect (v : Fin n) (set : SigSet) (info : SigInfo) (timeout : Option Nat)
    (htaker : a.taker = some v) (ha : ∀ c, a ≠ .postStep c) :
    Effect s a (kmRtSigtimedwait s v set info timeout) := by
  simp only [kmRtSigtimedwait]
  have heff := kmDequeueSignalNolock_effect (s := s.setVcpu v fun x =>
    { x with sigmask := kmSigaddset (kmSigaddset (~~~set) sigKill) sigStop }) htaker
  split <;> rename_i hd <;> rw [hd] at heff
  · exact heff.congr ⟨rfl, rfl, rfl⟩ rfl ⟨rfl, rfl, rfl⟩ rfl ha
  split
  · exact heff.congr ⟨rfl, rfl, rfl⟩ rfl ⟨rfl, rfl, rfl⟩ rfl ha
  · exact heff.congr ⟨rfl, rfl, rfl⟩ rfl ⟨rfl, rfl, rfl⟩ rfl ha

theorem wakeStep_effect (htaker : a.taker = some v) (ha : ∀ c, a ≠ .postStep c)
    (hr : wakeStep s v = some s') : Effect s a s' := by
  simp only [wakeStep] at hr
  split at hr
  · cases hr
  · cases hr
    exact sigsuspendLoop_effect v ha
  have heff := kmDequeueSignalNolock_effect (s := s) htaker
  split at hr <;> rename_i hd <;> rw [hd] at heff <;> cases hr
  · exact heff.congr (.refl s) rfl ⟨rfl, rfl, rfl⟩ rfl ha
  · exact heff.congr (.refl s) rfl ⟨rfl, rfl, rfl⟩ rfl ha

theorem step_effect (hr : step s a = some s') : Effect s a s' := by
  cases a with
  | post target info =>
    cases hr
    exact .called ⟨rfl, rfl, rfl⟩ rfl rfl
  | postStep c => exact postStep_effect hr
  | dequeue v =>
    cases whenRunning_spec hr
    exact kmDequeueSignalNolock_effect rfl
  | ready v =>
    cases hr
    exact kmSignalReadyNolock_effect _ v
  | sigsuspend v mask =>
    cases whenRunning_spec hr
    have heff : Effect _ (.sigsuspend v mask) (kmRtSigsuspend s v mask) :=
      sigsuspendLoop_effect v (by simp)
    exact heff.congr ⟨rfl, rfl, rfl⟩ rfl (.refl _) rfl (by simp)
  | sigtimedwait v set info timeout =>
    cases whenRunning_spec hr
    exact kmRtSigtimedwait_effect v set info timeout rfl (by simp)
  | wake v => exact wakeStep_effect rfl (by simp) hr
  | timeout v =>
    simp only [step, timeoutStep] at hr
    split at hr
    · simp only [do_eq_some, return_eq_some] at hr
      rcases hr with ⟨links, -, rfl⟩
      exact .quiet ⟨rfl, rfl, rfl⟩ rfl
    · cases hr
  | sigprocmask | sigsuspendRevert | queueSigSleep =>
    cases whenRunning_spec hr
    exact .quiet ⟨rfl, rfl, rfl⟩ rfl
  | dequeueSigSleep v =>
    have hr := whenRunning_spec hr
    simp only [kmDequeueSigSleep] at hr
    split at hr
    · simp only [do_eq_some, return_eq_some] at hr
      rcases hr with ⟨links, -, rfl⟩
      exact .quiet ⟨rfl, rfl, rfl⟩ rfl
    cases hr
    exact .quiet (.refl s) rfl

/-! ## The ledger over a run -/

theorem Destination.ne_free (h : Destination s p slist) : slist ≠ .free := by
  rcases h with ⟨-, v, -, rfl⟩ | ⟨-, rfl⟩
  · simp
  · cases p.target <;> simp

theorem Destination.not_put (h : Destination s p slist) : p.stage.put = false := by
  rcases h with ⟨hstage, -⟩ | ⟨hstage, -⟩ <;> rw [hstage] <;> rfl

theorem Effect.accounts (h : Effect s a s') (hs : s.Accounts) : s'.Accounts := by
  cases h with
  | quiet hsame hposts => exact hs.same hsame hposts
  | called hsame hstage hposts =>
    refine hs.congr hsame fun c => ?_
    -- a new call has put nothing
    simp only [SigState.put, hposts, List.getElem?_append, List.getElem?_singleton]
    split
    · rfl
    rename_i hlen
    rw [List.getElem?_eq_none (Nat.le_of_not_lt hlen)]
    split
    · rw [hstage]
      split <;> simp [Stage.put]
    · rfl
  | advanced hsame hp hput hposts =>
    refine hs.congr hsame fun d => ?_
    rw [← setStage_put hp hput d]
    simp only [SigState.put, hposts]
  | placed hp hdest hsig hlists hentries hhanded hput hposts =>
    rename_i c p slist sig stage
    have hplace := Ledger.place hs hdest.ne_free hsig (Signal.not_put hp hdest.not_put)
      (setStage_put_new hp hput)
    have hlabel : update s.label sig c = s'.label := by
      funext e
      simp only [SigState.label, hentries]
      by_cases he : e = sig
      · simp [he]
      · simp [he, SigState.label]
    have htaken : s'.taken = s.taken := by simp only [SigState.taken, hhanded]
    have hput' : (s.setStage c stage).put = s'.put := by
      funext d
      simp only [SigState.put, hposts]
    rw [SigState.Accounts, hlists, htaken, ← hlabel, ← hput']
    exact hplace
  | claimed he hlists hentries hhanded hposts =>
    rename_i v e
    have hmove : SigState.Accounts { s with lists := move s.lists .process (.thread v) e } :=
      Ledger.move hs (by simp) (by simp) (by simp) he
    exact hmove.same ⟨hlists, hentries, hhanded⟩ hposts
  | taken hslist he hlists hentries hhanded hposts htaker =>
    rename_i v slist e
    have hne : slist ≠ .free := by rcases hslist with rfl | rfl <;> simp
    have htake : SigState.Accounts
        { s with lists := move s.lists slist .free e, handed := (v, s.label e) :: s.handed } :=
      Ledger.take hs hne he
    exact htake.same ⟨hlists, hentries, hhanded⟩ hposts

theorem init_accounts (masks : Fin n → SigSet) : (SigState.init masks).Accounts where
  part :=
    { nodup := by
        intro p
        cases p with
        | free => exact nodup_finRange _
        | process => exact nodup_nil
        | thread v => exact nodup_nil
      unique := by
        intro p q e hp hq
        cases p <;> cases q <;> simp_all [SigState.init]
      total := fun e => ⟨.free, mem_finRange e⟩ }
  known {e p} hp he := by cases p <;> simp_all [SigState.init]
  single {e e' p p'} hp hp' he he' := by cases p <;> simp_all [SigState.init]
  taken_put c hc := by cases hc
  taken_nodup := nodup_nil
  apart c hc := by cases hc
  complete c := by
    rintro ⟨p, hp, -⟩
    cases hp

theorem reach_accounts (h : Reach (signalSystem n) s) : s.Accounts := by
  refine h.inv (I := SigState.Accounts) ?_ ?_
  · rintro s ⟨masks, rfl⟩
    exact init_accounts masks
  · exact fun s a s' hs hr => (step_effect hr).accounts hs

/-! ## What entries hold -/

/-- The entry holds the signal of call `c`, which nobody has dequeued. -/
def SigState.pendingFor (s : SigState n) (c : Nat) (e : Entry) : Prop :=
  ∃ slist, slist ≠ .free ∧ e ∈ s.lists slist ∧ s.label e = c

/-- An entry holds what its call was made with. -/
def SigState.Contents (s : SigState n) : Prop :=
  ∀ c e p, s.pendingFor c e → s.posts[c]? = some p → (s.entries e).info = p.info

/-- What a step does to the calls. -/
inductive PostsEffect (s : SigState n) (a : SigAct n) (s' : SigState n) : Prop
  | same (hposts : s'.posts = s.posts)
  | called {target : Option (Fin n)} {info : SigInfo} {stage : Stage} (ha : a = .post target info)
      (hstage : stage = if info.signo < sigRtmin then .check else .wakeup)
      (hposts : s'.posts = s.posts ++ [{ target := target, info := info, stage := stage }])
  | moved {c : Nat} {p : Post n} {stage : Stage} (ha : a = .postStep c) (hp : s.posts[c]? = some p)
      (hposts : s'.posts = (s.setStage c stage).posts) (hcheck : stage ≠ .check)
      (hdrop : stage = .dropped → p.stage = .check ∧ signalPending s p.target p.info)

section

variable (h : Effect s a s')
include h

theorem Effect.posts : PostsEffect s a s' := by
  cases h with
  | quiet _ hposts | claimed _ _ _ _ hposts | taken _ _ _ _ _ hposts => exact .same hposts
  | called _ hstage hposts => exact .called rfl hstage hposts
  | advanced _ hp _ hposts hdrop hcheck => exact .moved rfl hp hposts hcheck hdrop
  | placed hp _ _ _ _ _ hput hposts =>
    -- a call that has put its signal neither checks nor is dropped
    refine .moved rfl hp hposts ?_ ?_ <;> rintro rfl <;> cases hput

/-- Target and signal of a call never change, and its stage only by its own steps. -/
theorem Effect.posts_of (hp : s.posts[c]? = some p) :
    ∃ p', s'.posts[c]? = some p' ∧ p'.target = p.target ∧
      p'.info = p.info ∧ (a ≠ .postStep c → p'.stage = p.stage) := by
  cases h.posts with
  | same hposts => exact ⟨p, by rw [hposts, hp], rfl, rfl, fun _ => rfl⟩
  | called _ _ hposts =>
    have hlt : c < s.posts.length := (List.getElem?_eq_some_iff.1 hp).1
    exact ⟨p, by rw [hposts, List.getElem?_append_left hlt, hp], rfl, rfl, fun _ => rfl⟩
  | @moved _ _ stage ha _ hposts =>
    rw [hposts, setStage_posts]
    split
    next hd =>
      exact ⟨{ p with stage := stage }, by rw [hp]; rfl, rfl, rfl, fun hne => absurd (hd ▸ ha) hne⟩
    · exact ⟨p, hp, rfl, rfl, fun _ => rfl⟩

/-- A call that is there was there before, or was just made. -/
theorem Effect.posts_before {p' : Post n} (hp' : s'.posts[c]? = some p') :
    (∃ p, s.posts[c]? = some p ∧ p.info = p'.info ∧ p.target = p'.target ∧
      (p.stage = p'.stage ∨ a = .postStep c ∧ p'.stage ≠ .check ∧ (p'.stage = .dropped →
        p.stage = .check ∧ signalPending s p.target p.info))) ∨
    (a = .post p'.target p'.info ∧ p'.stage = if p'.info.signo < sigRtmin then .check else .wakeup) := by
  cases h.posts with
  | same hposts => exact .inl ⟨p', hposts ▸ hp', rfl, rfl, .inl rfl⟩
  | called ha hstage hposts =>
    rw [hposts, List.getElem?_append] at hp'
    split at hp'
    · exact .inl ⟨p', hp', rfl, rfl, .inl rfl⟩
    rw [List.getElem?_singleton] at hp'
    split at hp'
    · cases hp'
      exact .inr ⟨ha, hstage⟩
    · cases hp'
  | moved ha hp hposts hcheck hdrop =>
    rw [hposts, setStage_posts] at hp'
    split at hp'
    next hd =>
      subst hd
      rw [hp] at hp'
      cases hp'
      exact .inl ⟨_, hp, rfl, rfl, .inr ⟨ha, hcheck, hdrop⟩⟩
    · exact .inl ⟨p', hp', rfl, rfl, .inl rfl⟩

/-- Where a pending entry was before a step: it holds what it held, or a call has just put it. -/
theorem Effect.pending_before (hs : s.Accounts) (hslist : slist ≠ .free) (he : e ∈ s'.lists slist)
    (hc : s'.label e = c) : (∃ slist', slist' ≠ .free ∧ e ∈ s.lists slist' ∧ s.label e = c ∧
        (s'.entries e).info = (s.entries e).info ∧ (slist' = slist ∨ slist' = .process)) ∨
      ∃ p, a = .postStep c ∧ s.posts[c]? = some p ∧ Destination s p slist ∧
        (s'.entries e).info = p.info ∧ e ∈ s.lists .free := by
  cases h with
  | quiet hsame | called hsame | advanced hsame =>
    rw [SigState.label, hsame.entries] at hc
    rw [hsame.lists] at he
    exact .inl ⟨slist, hslist, he, hc, by rw [hsame.entries], .inl rfl⟩
  | placed hp hdest hsig hlists hentries hhanded hput hposts =>
    rw [hlists, mem_move hs.part hdest.ne_free.symm hsig] at he
    simp only [SigState.label, hentries] at hc
    rcases he with ⟨rfl, rfl⟩ | ⟨hne, he⟩
    · simp only [update_self] at hc
      subst hc
      exact .inr ⟨_, rfl, hp, hdest, by simp [hentries], hsig⟩
    rw [update_of_ne hne] at hc
    exact .inl ⟨slist, hslist, he, hc, by rw [hentries, update_of_ne hne], .inl rfl⟩
  | claimed he' hlists hentries hhanded hposts =>
    rw [hlists, mem_move hs.part (by simp) he'] at he
    rw [SigState.label, hentries] at hc
    rcases he with ⟨rfl, rfl⟩ | ⟨hne, he⟩
    · exact .inl ⟨.process, by simp, he', hc, by rw [hentries], .inr rfl⟩
    · exact .inl ⟨slist, hslist, he, hc, by rw [hentries], .inl rfl⟩
  | taken hfrom he' hlists hentries hhanded hposts htaker =>
    rename_i v from' e'
    have hne : from' ≠ .free := by rcases hfrom with rfl | rfl <;> simp
    rw [hlists, mem_move hs.part hne he'] at he
    rw [SigState.label, hentries] at hc
    rcases he with ⟨-, rfl⟩ | ⟨-, he⟩
    · exact absurd rfl hslist
    · exact .inl ⟨slist, hslist, he, hc, by rw [hentries], .inl rfl⟩

theorem Effect.contents (hs : s.Accounts) (hc : s.Contents) : s'.Contents := by
  rintro c e p' ⟨slist, hslist, he, hlabel⟩ hp'
  rcases h.pending_before hs hslist he hlabel with
    ⟨slist', hslist', he', hlabel', hinfo, -⟩ | ⟨p, -, hp, -, hinfo, -⟩
  · rcases hs.known hslist' he' with ⟨p, hp, -⟩
    rw [hlabel'] at hp
    rcases h.posts_of hp with ⟨p'', hp'', -, hsame, -⟩
    rw [hp', some.injEq] at hp''
    rw [hinfo, hc c e p ⟨slist', hslist', he', hlabel'⟩ hp, hp'', hsame]
  rcases h.posts_of hp with ⟨p'', hp'', -, hsame, -⟩
  rw [hp', some.injEq] at hp''
  rw [hinfo, hp'', hsame]

end

theorem reach_contents (h : Reach (signalSystem n) s) : s.Contents := by
  refine (h.inv (I := fun s => s.Accounts ∧ s.Contents) ?_ ?_).2
  · rintro s ⟨masks, rfl⟩
    refine ⟨init_accounts masks, ?_⟩
    rintro c e p - hp
    cases hp
  · exact fun s a s' hs hr => ⟨(step_effect hr).accounts hs.1, (step_effect hr).contents hs.1 hs.2⟩

/-! ## Dropped calls -/

/-- Only calls for standard signals check whether theirs is pending. -/
def SigState.ChecksStandard (s : SigState n) : Prop :=
  ∀ (c : Nat) (p : Post n), s.posts[c]? = some p → p.stage = .check → p.info.signo < sigRtmin

theorem Effect.checks (h : Effect s a s') (hs : s.ChecksStandard) : s'.ChecksStandard := by
  intro c p' hp' hcheck
  rcases h.posts_before hp' with ⟨p, hp, hinfo, -, hstage | ⟨-, hno, -⟩⟩ | ⟨-, hstage⟩
  · rw [← hinfo]
    exact hs c p hp (hstage.trans hcheck)
  · exact absurd hcheck hno
  by_contra hrt
  rw [if_neg hrt, hcheck] at hstage
  cases hstage

theorem reach_checks (h : Reach (signalSystem n) s) : s.ChecksStandard := by
  refine h.inv (I := SigState.ChecksStandard) ?_ ?_
  · rintro s ⟨masks, rfl⟩ c p hp
    cases hp
  · exact fun s a s' hs hr => (step_effect hr).checks hs

/-- The step that drops a call found its signal pending. -/
theorem Effect.dropped (h : Effect s a s') (hs : s.ChecksStandard) {p' : Post n}
    (hp : s.posts[c]? = some p) (hp' : s'.posts[c]? = some p') (hbefore : p.stage ≠ .dropped)
    (hafter : p'.stage = .dropped) : a = .postStep c ∧ p.stage = .check ∧ p.info.signo < sigRtmin ∧
      signalPending s p.target p.info := by
  rcases h.posts_before hp' with ⟨p1, hp1, -, -, hstage⟩ | ⟨-, hstage⟩
  · cases hp.symm.trans hp1
    rcases hstage with hstage | ⟨ha, -, hdrop⟩
    · exact absurd (hstage.trans hafter) hbefore
    obtain ⟨hcheck, hpend⟩ := hdrop hafter
    exact ⟨ha, hcheck, hs c p hp hcheck, hpend⟩
  rw [hafter] at hstage
  split at hstage <;> cases hstage

/-! ## Every signal is accounted for -/

structure SignalsAccounted (s : SigState n) : Prop where
  /-- Every entry is on exactly one list, once. -/
  partition : ∀ e, ∃! slist, e ∈ s.lists slist
  once : ∀ slist, (s.lists slist).Nodup
  /-- The signal of a call that dropped it, or has not put it yet, is nowhere. -/
  unput : ∀ (c : Nat) (p : Post n), s.posts[c]? = some p → p.stage.put = false →
    s.taken.count c = 0 ∧ ∀ e, ¬ s.pendingFor c e
  /-- The signal of a call that put it is pending in one entry or was dequeued once. -/
  put : ∀ (c : Nat) (p : Post n), s.posts[c]? = some p → p.stage.put →
    (s.taken.count c = 0 ∧ ∃! e, s.pendingFor c e ∧ (s.entries e).info = p.info) ∨
      (s.taken.count c = 1 ∧ ∀ e, ¬ s.pendingFor c e)

def SameSignalPending (s : SigState n) (p : Post n) : Prop :=
  p.info.signo < sigRtmin ∧ ∃ slist e, (p.target.map Place.thread = some slist ∨ slist = .process) ∧
    e ∈ s.lists slist ∧ (s.entries e).info.signo = p.info.signo

theorem hasPending_iff {signo : Nat} : s.hasPending slist signo ↔
      ∃ e ∈ s.lists slist, (s.entries e).info.signo = signo := by
  simp [SigState.hasPending]

theorem signalPending_spec {target : Option (Fin n)} {info : SigInfo}
    (h : signalPending s target info) :
    ∃ slist e, (target.map Place.thread = some slist ∨ slist = .process) ∧
      e ∈ s.lists slist ∧ (s.entries e).info.signo = info.signo := by
  simp only [signalPending, Bool.or_eq_true] at h
  rcases h with h | h
  · cases target with
    | none => cases h
    | some v =>
      rcases hasPending_iff.1 h with ⟨e, he, hsig⟩
      exact ⟨.thread v, e, .inl rfl, he, hsig⟩
  rcases hasPending_iff.1 h with ⟨e, he, hsig⟩
  exact ⟨.process, e, .inr rfl, he, hsig⟩

theorem accounted_of (hs : s.Accounts) (hc : s.Contents) : SignalsAccounted s where
  partition e := by
    rcases hs.part.total e with ⟨slist, he⟩
    exact ⟨slist, he, fun slist' he' => hs.part.unique he' he⟩
  once := hs.part.nodup
  unput c p hp hno := by
    have hnot := not_put hp hno
    refine ⟨count_eq_zero.2 fun hin => hnot (hs.taken_put c hin), ?_⟩
    rintro e ⟨slist, hslist, he, rfl⟩
    exact hnot (hs.known hslist he)
  put c p hp hput := by
    rcases hs.complete c ⟨p, hp, hput⟩ with hin | ⟨e, slist, hslist, he, hlabel⟩
    · refine .inr ⟨hs.taken_nodup.count.trans (if_pos hin), ?_⟩
      rintro e ⟨slist, hslist, he, hlabel⟩
      exact hs.apart c hin ⟨e, slist, hslist, he, hlabel⟩
    have hnot : c ∉ s.taken := fun hin => hs.apart c hin ⟨e, slist, hslist, he, hlabel⟩
    have hpend : s.pendingFor c e := ⟨slist, hslist, he, hlabel⟩
    refine .inl ⟨count_eq_zero.2 hnot, e, ⟨hpend, hc c e p hpend hp⟩, ?_⟩
    rintro e' ⟨⟨slist', hslist', he', hlabel'⟩, -⟩
    exact hs.single hslist' hslist he' he (hlabel'.trans hlabel.symm)

/-- In every interleaving the entries are partitioned among the lists, the signal of every call is
in exactly one place, and calls are dropped only for a pending signal of the same number. -/
theorem signals_neither_lost_nor_duplicated (h : Reach (signalSystem n) s) :
    SignalsAccounted s ∧ ∀ a s', step s a = some s' → ∀ (c : Nat) (p p' : Post n), s.posts[c]? = some p →
      s'.posts[c]? = some p' → p.stage ≠ .dropped → p'.stage = .dropped → SameSignalPending s p := by
  refine ⟨accounted_of (reach_accounts h) (reach_contents h), ?_⟩
  intro a s' hr c p p' hp hp' hbefore hafter
  obtain ⟨-, -, hstd, hpend⟩ := (step_effect hr).dropped (reach_checks h) hp hp' hbefore hafter
  exact ⟨hstd, signalPending_spec hpend⟩

/-- Two process-directed signals of one number, the second of which is dropped, and a thread that
dequeues the first. -/
def twoKills : List (SigAct 1) :=
  [.post none (killInfo 10), .postStep 0, .postStep 0, .postStep 0, .postStep 0,
    .post none (killInfo 10), .postStep 1, .dequeue 0]

def afterTwoKills : SigState 1 := evaluate (runCalls step (SigState.init fun _ => 0) twoKills)

theorem signals_neither_lost_nor_duplicated_two_kills :
    SignalsAccounted afterTwoKills ∧ afterTwoKills.handed = [(0, 0)] :=
  ⟨(signals_neither_lost_nor_duplicated (Reach.runCalls (fun _ _ _ h => h) (.init ⟨_, rfl⟩)
    eq_eval)).1, by decide +kernel⟩

end KontainMonitor.Signal
