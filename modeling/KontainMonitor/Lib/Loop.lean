import Mathlib.Data.List.Induction
import Mathlib.Data.Nat.Init

/-!
# Loop — bounded iteration of a partial step function

C loops that change the state they run over are modelled by iterating a step function
`step : σ → Option (σ ⊕ β)`:

* `none` — the step aborts (an assertion of the body fails);
* `some (.inl s)` — one more round, from `s`;
* `some (.inr b)` — the loop is left with `b`.

`Loop.run` takes the number of rounds it may use.  `Loop.run_inv` is the rule for partial
correctness, `Loop.run_total` the rule that also gives termination.
-/

namespace KontainMonitor.Loop

open List

variable {σ β : Type}
variable {step : σ → Option (σ ⊕ β)} {Q : β → Prop}

def run (step : σ → Option (σ ⊕ β)) : Nat → σ → Option β
  | 0, _ => none
  | n + 1, s =>
    match step s with
    | none => none
    | some (.inl s') => run step n s'
    | some (.inr b) => some b

/-- What a loop leaves behind, given what every round keeps. -/
theorem run_inv {I : σ → Prop} (hstep : ∀ s s', I s → step s = some (.inl s') → I s')
    (hexit : ∀ s b, I s → step s = some (.inr b) → Q b) :
    ∀ {n : Nat} {s : σ} {b : β}, I s → run step n s = some b → Q b := by
  intro n
  induction n with
  | zero =>
    intro s b _ h
    simp [run] at h
  | succ n ih =>
    intro s b hs h
    cases hr : step s with
    | none => simp [run, hr] at h
    | some r =>
      cases r with
      | inl s' =>
        have h' : run step n s' = some b := by simpa [run, hr] using h
        exact ih (hstep s s' hs hr) h'
      | inr b' =>
        have h' : b' = b := by simpa [run, hr] using h
        exact h' ▸ hexit s b' hs hr

/-- The same with one obligation for both outcomes of a round. -/
@[elab_as_elim]
theorem run_sum {I : σ → Prop} (hstep : ∀ s y, I s → step s = some y → y.elim I Q) {n : Nat} {s : σ}
    {b : β} (hs : I s) (h : run step n s = some b) : Q b :=
  run_inv (fun _ _ => hstep _ _) (fun _ _ => hstep _ _) hs h

/-- A loop whose rounds never abort and decrease a measure ends, with its postcondition. -/
theorem run_total {I : σ → Prop} (μ : σ → Nat) (hstep : ∀ s, I s →
      (∃ s', step s = some (.inl s') ∧ I s' ∧ μ s' < μ s) ∨ ∃ b, step s = some (.inr b) ∧ Q b) :
    ∀ {n : Nat} {s : σ}, I s → μ s < n → ∃ b, run step n s = some b ∧ Q b := by
  intro n
  induction n with
  | zero =>
    intro s _ hn
    exact absurd hn (Nat.not_lt_zero _)
  | succ n ih =>
    intro s hs hn
    rcases hstep s hs with ⟨s', hr, hs', hlt⟩ | ⟨b, hr, hb⟩
    · rcases ih hs' (by omega) with ⟨b, hb, hQ⟩
      exact ⟨b, by simpa [run, hr] using hb, hQ⟩
    · exact ⟨b, by simp [run, hr], hb⟩

/-! ## Loops over a list

The invariants may speak about the elements that were already handled. -/

variable {α : Type} {f : σ → α → Option σ} {I : List α → σ → Prop}

theorem foldlM_inv : ∀ {l : List α} {s s' : σ},
    (∀ done a rest s s', l = done ++ a :: rest → I done s → f s a = some s' → I (done ++ [a]) s') →
      I [] s → l.foldlM f s = some s' → I l s' := by
  intro l
  induction l using List.reverseRecOn with
  | nil =>
    intro s s' _ hs hr
    cases hr
    exact hs
  | append_singleton l a ih =>
    intro s s' hstep hs hr
    rw [foldlM_append] at hr
    rcases Option.bind_eq_some_iff.1 hr with ⟨s1, h1, h2⟩
    have hl : I l s1 := by
      refine ih (fun done b rest t t' heq => hstep done b (rest ++ [a]) t t' ?_) hs h1
      rw [heq, append_assoc, cons_append]
    have hlast : f s1 a = some s' := by simpa using h2
    exact hstep l a [] s1 s' rfl hl hlast

/-- In a loop over `0, 1, …` the elements count the rounds. -/
theorem range_split {n a : Nat} {done rest : List Nat} (h : List.range n = done ++ a :: rest) :
    a = done.length ∧ a < n := by
  have hget := congrArg (fun l => l[done.length]?) h
  simp only [List.getElem?_append_right (Nat.le_refl _), Nat.sub_self,
    List.getElem?_cons_zero] at hget
  rcases List.getElem?_eq_some_iff.1 hget with ⟨hlt, hval⟩
  rw [getElem_range] at hval
  rw [length_range] at hlt
  exact ⟨hval.symm, hval ▸ hlt⟩

end KontainMonitor.Loop
