import Mathlib.Order.Basic
import Mathlib.Data.List.Basic

/-!
# Transition — labelled transition systems and their invariants

A system is a set of initial states and a labelled step relation.  `Reach.inv` is the invariant
rule; `System.restrict` keeps the steps that meet a condition, so that `Reach (S.restrict C)` are the
states of runs all of whose steps meet `C`.  `runCalls` is the deterministic case: a sequence of
calls, each of which may abort; `do_eq_some` and `return_eq_some` take a call that returned apart.
-/

namespace KontainMonitor

section

variable {α β : Type} {o : Option α} {f : α → Option β} {a b : α} {c : β}

theorem do_eq_some : (o >>= f) = some c ↔ ∃ a, o = some a ∧ f a = some c :=
  Option.bind_eq_some_iff

theorem map_fst_eq_some {o : Option (α × β)} : o.map Prod.fst = some a ↔ ∃ c, o = some (a, c) := by
  simp

theorem return_eq_some : (pure a : Option α) = some b ↔ a = b :=
  Option.some_inj

theorem do_some : (some a >>= f) = f a := rfl

theorem some_mk_inj {d : β} : some (a, c) = some (b, d) ↔ a = b ∧ c = d := by
  simp

/-- The result of a computation that is run to its end. -/
def evaluate (o : Option α) (h : o.isSome := by decide +kernel) : α := o.get h

theorem eq_eval {h : o.isSome} : o = some (evaluate o h) := (Option.some_get h).symm

end

namespace Transition

structure System (σ ι : Type) where
  init : σ → Prop
  step : σ → ι → σ → Prop

variable {σ ι : Type}
variable {S : System σ ι} {s : σ} {call : σ → ι → Option σ}
variable {I : σ → Prop}

inductive Reach (S : System σ ι) : σ → Prop
  | init {s : σ} (h : S.init s) : Reach S s
  | step {s s' : σ} {a : ι} (hs : Reach S s) (h : S.step s a s') : Reach S s'

/-- What holds initially and is kept by every step holds in every reachable state. -/
theorem Reach.inv (hinit : ∀ s, S.init s → I s) (hstep : ∀ s a s', I s → S.step s a s' → I s')
    (h : Reach S s) : I s := by
  induction h with
  | init h => exact hinit _ h
  | step _ h ih => exact hstep _ _ _ ih h

/-- The system with only the steps that meet `C`. -/
def System.restrict (S : System σ ι) (C : σ → ι → σ → Prop) : System σ ι where
  init := S.init
  step s a s' := S.step s a s' ∧ C s a s'

theorem Reach.of_restrict {C : σ → ι → σ → Prop} (h : Reach (S.restrict C) s) : Reach S s := by
  induction h with
  | init h => exact .init h
  | step _ h ih => exact .step ih h.1

/-! ## Sequences of calls -/

def runCalls (call : σ → ι → Option σ) : σ → List ι → Option σ
  | s, [] => some s
  | s, c :: cs => (call s c).bind fun s' => runCalls call s' cs

/-- Calls that never abort and keep an invariant can be made in any sequence. -/
theorem runCalls_total {ok : ι → Prop}
    (hcall : ∀ s c, I s → ok c → ∃ s', call s c = some s' ∧ I s') :
    ∀ {s : σ} {cs : List ι}, I s → (∀ c ∈ cs, ok c) → ∃ s', runCalls call s cs = some s' ∧ I s' := by
  intro s cs
  induction cs generalizing s with
  | nil =>
    intro hs _
    exact ⟨s, rfl, hs⟩
  | cons c cs ih =>
    intro hs hok
    rcases hcall s c hs (hok c (.head _)) with ⟨s', hc, hs'⟩
    rcases ih hs' (fun c' hc' => hok c' (.tail _ hc')) with ⟨s'', hr, hs''⟩
    exact ⟨s'', by simp [runCalls, hc, hr], hs''⟩

/-- A sequence of calls is a run of a system that has these calls as steps. -/
theorem Reach.runCalls_of_mem :
    ∀ {s s' : σ} {cs : List ι}, (∀ c ∈ cs, ∀ t t', call t c = some t' → S.step t c t') →
      Reach S s → runCalls call s cs = some s' → Reach S s' := by
  intro s s' cs
  induction cs generalizing s with
  | nil =>
    intro _ hs hr
    cases hr
    exact hs
  | cons c cs ih =>
    intro hcall hs hr
    simp only [Transition.runCalls, Option.bind_eq_some_iff] at hr
    rcases hr with ⟨s1, hc, hr⟩
    exact ih (fun c' hc' => hcall c' (.tail _ hc'))
      (.step hs (hcall c (.head _) s s1 hc)) hr

/-- The case of a system that has all calls as its steps. -/
theorem Reach.runCalls (hcall : ∀ s a s', call s a = some s' → S.step s a s') {s' : σ} {cs : List ι}
    (hs : Reach S s) (hr : runCalls call s cs = some s') : Reach S s' :=
  Reach.runCalls_of_mem (fun c _ t t' => hcall t c t') hs hr

end Transition
end KontainMonitor
