import KontainMonitor.Signal.Posting

/-!
# Pool — running out of signal entries

All pending signals of a machine share `NSIGENTRY` entries, and `enqueue_signal_nolock` ends the
monitor when none is free.  Nine real-time signals that every thread blocks are enough
(`ninth_kill_finds_none`).  The entries suffice in runs that post only when more entries are free
than posts are under way (`Roomy`).
-/

namespace KontainMonitor.Signal

open List Places Transition

variable {n : Nat} {s s' : SigState n}
variable {c : Nat} {p : Post n}

/-- The call may still take an entry. -/
def Stage.underWay : Stage → Bool
  | .check | .wakeup | .enqueue => true
  | .interrupt | .dropped | .done => false

def SigState.underWay (s : SigState n) : Nat := s.posts.countP fun p => p.stage.underWay

/-- The next section of call `c` enqueues its signal, and no entry is free. -/
def SigState.FindsNone (s : SigState n) (c : Nat) : Prop :=
  s.lists .free = [] ∧ ∃ p slist, s.posts[c]? = some p ∧ Destination s p slist

/-- More entries are free than calls may still take. -/
def Roomy (s : SigState n) : SigAct n → Prop
  | .post _ _ => s.underWay < (s.lists .free).length
  | _ => True

def roomySystem (n : Nat) : System (SigState n) (SigAct n) :=
  (signalSystem n).restrict fun s a _ => Roomy s a

/-! ## Counting -/

theorem countP_modify {α : Type} (p : α → Bool) (f : α → α) {l : List α} {i : Nat} {x : α}
    (hx : l[i]? = some x) :
    (l.modify i f).countP p + (p x).toNat = l.countP p + (p (f x)).toNat := by
  induction l generalizing i with
  | nil => cases hx
  | cons y ys ih =>
    cases i with
    | zero =>
      cases hx
      cases hpx : p x <;> cases hpf : p (f x) <;> simp [hpx, hpf]
    | succ i =>
      have hys := ih hx
      simp only [modify_succ_cons, countP_cons]
      omega

/-- A call goes to another stage. -/
theorem setStage_underWay (hp : s.posts[c]? = some p) (stage : Stage) :
    (s.setStage c stage).underWay + p.stage.underWay.toNat = s.underWay + stage.underWay.toNat :=
  countP_modify (fun p : Post n => p.stage.underWay) _ hp

theorem underWay_pos (hp : s.posts[c]? = some p) (hstage : p.stage.underWay) : 0 < s.underWay :=
  countP_pos_iff.2 ⟨p, mem_of_getElem? hp, hstage⟩

theorem Destination.underWay {slist : Place n} (h : Destination s p slist) :
    p.stage.underWay := by
  rcases h with ⟨hstage, -⟩ | ⟨hstage, -⟩
  · rw [hstage]
    rfl
  rw [hstage]
  rfl

theorem not_underWay_of_put {stage : Stage} (h : stage.put) : stage.underWay = false := by
  cases stage <;> first | rfl | cases h

/-! ## The entries suffice -/

def SigState.Suffices (s : SigState n) : Prop := s.underWay ≤ (s.lists .free).length

/-- A call that goes on without taking an entry does not come back to a stage before. -/
theorem underWay_advance {stage stage' : Stage} (hsame : stage'.put = stage.put)
    (h : stage'.underWay) : stage.underWay ∨ stage = .dropped := by
  cases stage with
  | check | wakeup | enqueue => exact .inl rfl
  | dropped => exact .inr rfl
  | interrupt | done =>
    rw [not_underWay_of_put hsame] at h
    cases h

theorem postStep_not_dropped (hr : postStep s c = some s') (hp : s.posts[c]? = some p) :
    p.stage ≠ .dropped := by
  intro hstage
  simp [postStep, hp, hstage] at hr

theorem Suffices.step (h : s.Suffices) {a : SigAct n} (hr : Signal.step s a = some s')
    (ha : Roomy s a) : s'.Suffices := by
  have hsame : SameEntries s s' → s'.lists .free = s.lists .free := fun hs => by rw [hs.lists]
  cases step_effect hr with
  | quiet hs hposts =>
    rw [SigState.Suffices, SigState.underWay, hposts, hsame hs]
    exact h
  | @called target info _ hs stage hstage hposts =>
    have hroom : s.underWay < (s.lists .free).length := ha
    rw [SigState.Suffices, SigState.underWay, hposts, hsame hs, countP_append]
    have hone : ([{ target := target, info := info, stage := stage }] : List (Post n)).countP
        (fun p => p.stage.underWay) ≤ 1 := countP_le_length
    rw [SigState.underWay] at hroom
    omega
  | @advanced c p stage _ hs hp hput hposts hdrop hcheck =>
    have hcount := setStage_underWay hp stage
    have hle : stage.underWay.toNat ≤ p.stage.underWay.toNat := by
      cases hstage : stage.underWay with
      | false => exact Nat.zero_le _
      | true =>
        rcases underWay_advance hput hstage with hp' | hp'
        · exact hp' ▸ Nat.le_refl _
        · exact absurd hp' (postStep_not_dropped hr hp)
    have hunder : s'.underWay = (s.setStage c stage).underWay := by
      rw [SigState.underWay, SigState.underWay, hposts]
    rw [SigState.Suffices, hsame hs, hunder]
    rw [SigState.Suffices] at h
    omega
  | @placed c p slist sig stage _ hp hdest hsig hlists hentries hhanded hput hposts =>
    have hcount := setStage_underWay hp stage
    rw [hdest.underWay, not_underWay_of_put hput, Bool.toNat_true, Bool.toNat_false] at hcount
    have hunder : s'.underWay = (s.setStage c stage).underWay := by
      rw [SigState.underWay, SigState.underWay, hposts]
    have hfree : (s'.lists .free).length = (s.lists .free).length - 1 := by
      rw [hlists, move_apply (Ne.symm hdest.ne_free), if_neg (Ne.symm hdest.ne_free), if_pos rfl,
        length_erase_of_mem hsig]
    rw [SigState.Suffices] at h ⊢
    omega
  | claimed he hlists hentries hhanded hposts =>
    have hfree : s'.lists .free = s.lists .free := by
      rw [hlists, move_apply (by simp), if_neg (by simp), if_neg (by simp)]
    rw [SigState.Suffices, SigState.underWay, hposts, hfree]
    exact h
  | @taken a v slist e _ hslist he hlists hentries hhanded hposts =>
    have hne : slist ≠ .free := by rcases hslist with rfl | rfl <;> simp
    have hfree : (s'.lists .free).length = (s.lists .free).length + 1 := by
      rw [hlists, move_apply hne, if_pos rfl, length_append, length_singleton]
    rw [SigState.Suffices, SigState.underWay, hposts, hfree]
    exact Nat.le_succ_of_le h

theorem reach_suffices (h : Reach (roomySystem n) s) : s.Suffices := by
  refine Reach.inv (fun s hs => ?_) (fun s a s' hs hstep => ?_) h
  · obtain ⟨masks, rfl⟩ := hs
    exact Nat.zero_le _
  · exact Suffices.step hs hstep.1 hstep.2

/-- In roomy runs no post finds the free list empty. -/
theorem signal_entries_suffice (h : Reach (roomySystem n) s) (c : Nat) : ¬ s.FindsNone c := by
  rintro ⟨hempty, p, slist, hp, hdest⟩
  have hpos := underWay_pos hp hdest.underWay
  have hle := reach_suffices h
  rw [SigState.Suffices, hempty, length_nil] at hle
  omega

def killUnderWay : SigState 1 :=
  evaluate (runCalls step (SigState.init fun _ => 0) [.post none (killInfo 34)])

theorem signal_entries_suffice_kill : ¬ killUnderWay.FindsNone 0 := by
  have hstart : Reach (roomySystem 1) (SigState.init fun _ => 0) := .init ⟨_, rfl⟩
  have hroom : Roomy (SigState.init fun _ => 0 : SigState 1) (.post none (killInfo 34)) := by
    simp only [Roomy]
    decide +kernel
  have hstep : (roomySystem 1).step (SigState.init fun _ => 0) (.post none (killInfo 34))
      killUnderWay := ⟨rfl, hroom⟩
  exact signal_entries_suffice (.step hstart hstep) 0

/-- The only thread blocks everything and sends itself the same real-time signal nine times. -/
def nineKills : List (SigAct 1) :=
  .sigprocmask 0 (BitVec.allOnes 64) ::
    ((List.range 8).flatMap fun c =>
      [.post none (killInfo 34), .postStep c, .postStep c, .postStep c]) ++
    [.post none (killInfo 34), .postStep 8]

def afterNineKills : SigState 1 := evaluate (runCalls step (SigState.init fun _ => 0) nineKills)

/-- The ninth signal finds no free entry, and the monitor gives up. -/
theorem ninth_kill_finds_none : Reach (signalSystem 1) afterNineKills ∧ afterNineKills.FindsNone 8 ∧
      step afterNineKills (.postStep 8) = none := by
  have hreach : Reach (signalSystem 1) afterNineKills :=
    Reach.runCalls (fun _ _ _ h => h) (.init ⟨_, rfl⟩) eq_eval
  have hpost : ∃ p, afterNineKills.posts[8]? = some p ∧ p.stage = .enqueue := by
    refine ⟨{ target := none, info := killInfo 34, stage := .enqueue }, ?_, rfl⟩
    rfl
  obtain ⟨p, hp, hstage⟩ := hpost
  exact ⟨hreach, ⟨by decide +kernel, p, _, hp, .inr ⟨hstage, rfl⟩⟩, by rfl⟩

end KontainMonitor.Signal
