import Mathlib.Logic.Basic

/-!
# Outcome — postconditions of computations that may fail

`Holds E Q x` says what a computation in `Except ε` may end in: a value that satisfies `Q` or an
error that satisfies `E`.  With `E := fun _ => False` it is total correctness, with
`E := fun _ => True` partial correctness.  The rules follow the way a computation is put together.
-/

namespace KontainMonitor.Outcome

variable {ε α β σ : Type} {E : ε → Prop}
variable {Q : α → Prop} {e : ε} {x : Except ε α}
variable {a : α} {P : α → Prop} {f : α → Except ε β}

def Holds (E : ε → Prop) (Q : α → Prop) : Except ε α → Prop
  | .ok a => Q a
  | .error e => E e

@[simp] theorem holds_error : Holds E Q (.error e) ↔ E e := Iff.rfl

/-- The postcondition that says nothing. -/
theorem Holds.any (x : Except ε α) : Holds (fun _ => True) (fun _ => True) x := by
  cases x with
  | ok a => trivial
  | error e => trivial

theorem Holds.of_ok (h : Holds E Q x) (hx : x = .ok a) : Q a := by
  subst hx
  exact h

theorem Holds.of_error (h : Holds E Q x) (hx : x = .error e) : E e := by
  subst hx
  exact h

theorem Holds.mono {Q' : α → Prop} (h : Holds E Q x) (hQ : ∀ a, Q a → Q' a) : Holds E Q' x := by
  cases x with
  | ok a => exact hQ a h
  | error e => exact h

theorem Holds.weaken {E' : ε → Prop} (h : Holds E Q x) (hE : ∀ e, E e → E' e) : Holds E' Q x := by
  cases x with
  | ok a => exact h
  | error e => exact hE e h

theorem Holds.and (hP : Holds E P x) (hQ : Holds E Q x) : Holds E (fun a => P a ∧ Q a) x := by
  cases x with
  | ok a => exact ⟨hP, hQ⟩
  | error e => exact hP

/-- What follows a computation may rely on its postcondition. -/
theorem Holds.bind {Q : β → Prop} (hx : Holds E P x) (hf : ∀ a, P a → Holds E Q (f a)) :
    Holds E Q (x >>= f) := by
  cases x with
  | ok a => exact hf a hx
  | error e => exact hx

/-- A loop over a list keeps what each round keeps; the invariant may mention what is left to do. -/
theorem Holds.foldlM {f : σ → α → Except ε σ} {I : List α → σ → Prop}
    (hstep : ∀ a rest s, I (a :: rest) s → Holds E (I rest) (f s a)) :
    ∀ {l : List α} {s : σ}, I l s → Holds E (I []) (l.foldlM f s) := by
  intro l
  induction l with
  | nil =>
    intro s hs
    exact hs
  | cons a l ih =>
    intro s hs
    rw [List.foldlM_cons]
    exact .bind (hstep a l s hs) fun s' hs' => ih hs'

/-- A computation for each element of a list: the results are those of the elements. -/
theorem mapM_ok : ∀ {l : List α} {r : List β}, l.mapM f = .ok r →
      (∀ b ∈ r, ∃ a ∈ l, f a = .ok b) ∧ ∀ a ∈ l, ∃ b ∈ r, f a = .ok b := by
  intro l
  induction l with
  | nil =>
    intro r h
    cases h
    simp
  | cons a l ih =>
    intro r h
    rw [List.mapM_cons] at h
    cases ha : f a with
    | error e =>
      rw [ha] at h
      cases h
    | ok b =>
      cases hl : l.mapM f with
      | error e =>
        rw [ha, hl] at h
        cases h
      | ok bs =>
        rw [ha, hl] at h
        cases h
        rcases ih hl with ⟨hback, hforth⟩
        constructor
        · intro b' hb'
          rcases List.mem_cons.1 hb' with rfl | hmem
          · exact ⟨a, by simp, ha⟩
          rcases hback b' hmem with ⟨a', ha', hfa'⟩
          exact ⟨a', by simp [ha'], hfa'⟩
        intro a' ha'
        rcases List.mem_cons.1 ha' with rfl | hmem
        · exact ⟨b, by simp, ha⟩
        rcases hforth a' hmem with ⟨b', hb', hfa'⟩
        exact ⟨b', by simp [hb'], hfa'⟩

/-! ## Concrete computations -/

def errorOf : Except ε α → Option ε
  | .ok _ => none
  | .error e => some e

theorem eq_error_of_errorOf (h : errorOf x = some e) : x = .error e := by
  cases x with
  | ok a => cases h
  | error e' =>
    cases h
    rfl

theorem eq_ok_of_toOption (h : x.toOption = some a) : x = .ok a := by
  cases x with
  | ok a' =>
    cases h
    rfl
  | error e => cases h

end KontainMonitor.Outcome
