import Mathlib.Data.List.Basic
import Mathlib.Logic.Function.Basic

/-!
# SList — singly linked lists by their pointers

`next p` is what the link field of `p` holds: `none` if it does not hold a link at all (the storage
may be shared with another field), else the next element or NULL.  `Chain next head l` says that
the list that starts at `head` has the elements `l`.
-/

namespace KontainMonitor.SList

variable {P : Type} {next next' : P → Option (Option P)} {head : Option P} {l : List P} {p : P}

inductive Chain (next : P → Option (Option P)) : Option P → List P → Prop
  | nil : Chain next none []
  | cons {p : P} {r : Option P} {l : List P} (hp : next p = some r) (hl : Chain next r l) :
      Chain next (some p) (p :: l)

/-- Only the links of the elements matter. -/
theorem Chain.congr (h : Chain next head l) (hsame : ∀ p ∈ l, next' p = next p) :
    Chain next' head l := by
  induction h with
  | nil => exact .nil
  | cons hp hl ih =>
    refine .cons ?_ (ih fun q hq => hsame q (.tail _ hq))
    rw [hsame _ (.head _), hp]

/-- A list without a head is empty. -/
theorem Chain.eq_nil (h : Chain next none l) : l = [] := by
  cases h
  rfl

/-- A list with a head starts with it. -/
theorem Chain.uncons (h : Chain next (some p) l) :
    ∃ r rest, l = p :: rest ∧ next p = some r ∧ Chain next r rest := by
  cases h with
  | cons hp hl => exact ⟨_, _, rfl, hp, hl⟩

/-- `SLIST_INSERT_HEAD` of an element that was not on the list. -/
theorem Chain.insert [DecidableEq P] (h : Chain next head l) (hp : p ∉ l)
    (hnext : next' = Function.update next p (some head)) : Chain next' (some p) (p :: l) := by
  subst hnext
  refine .cons (Function.update_self _ _ _) (h.congr fun q hq => ?_)
  have hne : q ≠ p := by
    rintro rfl
    exact hp hq
  exact Function.update_of_ne hne _ _

end KontainMonitor.SList
