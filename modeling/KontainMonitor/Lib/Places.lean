import Mathlib.Logic.Function.Basic
import Mathlib.Data.List.Basic
import Mathlib.Data.List.Nodup

/-!
# Places — a fixed set of tokens spread over lists

Tokens are never created or destroyed; each is on the list of exactly one place, once, and `move`
takes it from its list to the end of another one.  `mem_move` says where everything is afterwards,
`Partitioned.move` that nothing was lost or duplicated.
-/

namespace KontainMonitor.Places

open Function List

variable {P T : Type} [DecidableEq P] [DecidableEq T] {f : P → List T} {p q r : P} {e x : T}

structure Partitioned (f : P → List T) : Prop where
  nodup : ∀ p, (f p).Nodup
  unique : ∀ {p q e}, e ∈ f p → e ∈ f q → p = q
  total : ∀ e, ∃ p, e ∈ f p

/-- Take `e` off the list of `p` and put it at the end of the list of `q`. -/
def move (f : P → List T) (p q : P) (e : T) : P → List T :=
  let f := update f p ((f p).erase e)
  update f q (f q ++ [e])

theorem move_apply (hpq : p ≠ q) : move f p q e r =
    if r = q then f q ++ [e] else if r = p then (f p).erase e else f r := by
  by_cases hq : r = q
  · simp [move, hq, update_of_ne (Ne.symm hpq)]
  by_cases hp : r = p
  · simp [move, hp, hpq]
  · simp [move, hq, hp]

/-- After a move, the token is at its new place and all others are where they were. -/
theorem mem_move (hf : Partitioned f) (hpq : p ≠ q) (he : e ∈ f p) :
    x ∈ move f p q e r ↔ (x = e ∧ r = q) ∨ (x ≠ e ∧ x ∈ f r) := by
  have honly : ∀ r, e ∈ f r → r = p := fun r hr => hf.unique hr he
  rw [move_apply hpq]
  by_cases hq : r = q
  · subst hq
    rw [if_pos rfl, mem_append, mem_singleton]
    constructor
    · rintro (hx | rfl)
      · refine .inr ⟨?_, hx⟩
        rintro rfl
        exact hpq (honly r hx).symm
      · exact .inl ⟨rfl, rfl⟩
    rintro (⟨rfl, -⟩ | ⟨-, hx⟩)
    · exact .inr rfl
    · exact .inl hx
  rw [if_neg hq]
  by_cases hp : r = p
  · subst hp
    rw [if_pos rfl, (hf.nodup r).mem_erase_iff]
    simp [hq]
  rw [if_neg hp]
  constructor
  · intro hx
    refine .inr ⟨?_, hx⟩
    rintro rfl
    exact hp (honly r hx)
  rintro (⟨-, hr⟩ | ⟨-, hx⟩)
  · exact absurd hr hq
  · exact hx

theorem Partitioned.move (hf : Partitioned f) (hpq : p ≠ q) (he : e ∈ f p) :
    Partitioned (move f p q e) where
  nodup r := by
    rw [move_apply hpq]
    split
    · have hnot : e ∉ f q := fun hq => hpq (hf.unique he hq)
      refine nodup_append.2 ⟨hf.nodup q, nodup_singleton e, ?_⟩
      intro x hx y hy
      rw [mem_singleton] at hy
      rintro rfl
      exact hnot (hy ▸ hx)
    split
    · exact (hf.nodup p).erase e
    · exact hf.nodup r
  unique {r s x} hr hs := by
    rw [mem_move hf hpq he] at hr hs
    rcases hr with ⟨rfl, rfl⟩ | ⟨hne, hr⟩
    · rcases hs with ⟨-, rfl⟩ | ⟨hne, -⟩
      · rfl
      · exact absurd rfl hne
    rcases hs with ⟨rfl, -⟩ | ⟨-, hs⟩
    · exact absurd rfl hne
    · exact hf.unique hr hs
  total x := by
    by_cases hx : x = e
    · exact ⟨q, (mem_move hf hpq he).2 (.inl ⟨hx, rfl⟩)⟩
    rcases hf.total x with ⟨r, hr⟩
    exact ⟨r, (mem_move hf hpq he).2 (.inr ⟨hx, hr⟩)⟩

/-! ## Tokens that carry orders

A token that is not on the list of `free` carries an order.  Orders are put on a token once, and
taken from it once; `taken` lists the latter. -/

variable {C : Type} {free : P} {label : T → C} {taken : List C} {put : C → Prop} {c : C}

def Carried (f : P → List T) (free : P) (label : T → C) (c : C) : Prop :=
  ∃ e p, p ≠ free ∧ e ∈ f p ∧ label e = c

/-- Every order that was put is carried by exactly one token or was taken exactly once. -/
structure Ledger (f : P → List T) (free : P) (label : T → C) (taken : List C) (put : C → Prop) :
    Prop where
  part : Partitioned f
  known : ∀ {e p}, p ≠ free → e ∈ f p → put (label e)
  single : ∀ {e e' p p'}, p ≠ free → p' ≠ free → e ∈ f p → e' ∈ f p' → label e = label e' → e = e'
  taken_put : ∀ c ∈ taken, put c
  taken_nodup : taken.Nodup
  apart : ∀ c ∈ taken, ¬ Carried f free label c
  complete : ∀ c, put c → c ∈ taken ∨ Carried f free label c

section

variable (h : Ledger f free label taken put)
include h

/-- A token goes from one list to another one, with its order. -/
theorem Ledger.move (hpq : p ≠ q) (hp : p ≠ free) (hq : q ≠ free) (he : e ∈ f p) :
    Ledger (move f p q e) free label taken put := by
  have hmem := fun {x r} => mem_move (x := x) (r := r) h.part hpq he
  -- the tokens that carry orders are the same
  have hback : ∀ {x r}, r ≠ free → x ∈ Places.move f p q e r → ∃ r', r' ≠ free ∧ x ∈ f r' := by
    intro x r hr hx
    rcases hmem.1 hx with ⟨rfl, rfl⟩ | ⟨-, hx⟩
    · exact ⟨p, hp, he⟩
    · exact ⟨r, hr, hx⟩
  have hcarried : ∀ c, Carried (Places.move f p q e) free label c ↔ Carried f free label c := by
    intro c
    constructor
    · rintro ⟨x, r, hr, hx, hc⟩
      rcases hback hr hx with ⟨r', hr', hx'⟩
      exact ⟨x, r', hr', hx', hc⟩
    rintro ⟨x, r, hr, hx, hc⟩
    by_cases hxe : x = e
    · exact ⟨x, q, hq, hmem.2 (.inl ⟨hxe, rfl⟩), hc⟩
    · exact ⟨x, r, hr, hmem.2 (.inr ⟨hxe, hx⟩), hc⟩
  refine ⟨h.part.move hpq he, ?_, ?_, h.taken_put, h.taken_nodup, ?_, ?_⟩
  · intro x r hr hx
    rcases hback hr hx with ⟨r', hr', hx'⟩
    exact h.known hr' hx'
  · intro x x' r r' hr hr' hx hx' heq
    rcases hback hr hx with ⟨r1, hr1, hx1⟩
    rcases hback hr' hx' with ⟨r2, hr2, hx2⟩
    exact h.single hr1 hr2 hx1 hx2 heq
  · exact fun c hc => fun hcar => h.apart c hc ((hcarried c).1 hcar)
  · exact fun c hc => (h.complete c hc).imp_right (hcarried c).2

/-- The order is taken from a token, which becomes free. -/
theorem Ledger.take (hp : p ≠ free) (he : e ∈ f p) :
    Ledger (Places.move f p free e) free label (label e :: taken) put := by
  have hmem := fun {x r} => mem_move (x := x) (r := r) h.part hp he
  have hback : ∀ {x r}, r ≠ free → x ∈ Places.move f p free e r → x ≠ e ∧ x ∈ f r := by
    intro x r hr hx
    rcases hmem.1 hx with ⟨-, rfl⟩ | hx
    · exact absurd rfl hr
    · exact hx
  refine ⟨h.part.move hp he, ?_, ?_, ?_, ?_, ?_, ?_⟩
  · exact fun hr hx => h.known hr (hback hr hx).2
  · exact fun hr hr' hx hx' heq => h.single hr hr' (hback hr hx).2 (hback hr' hx').2 heq
  · intro c hc
    rcases mem_cons.1 hc with rfl | hc
    · exact h.known hp he
    · exact h.taken_put c hc
  · exact nodup_cons.2 ⟨fun hin => h.apart _ hin ⟨e, p, hp, he, rfl⟩, h.taken_nodup⟩
  · rintro c hc ⟨x, r, hr, hx, hxc⟩
    obtain ⟨hne, hx⟩ := hback hr hx
    rcases mem_cons.1 hc with rfl | hc
    · exact hne (h.single hr hp hx he hxc)
    · exact h.apart c hc ⟨x, r, hr, hx, hxc⟩
  intro c hc
  rcases h.complete c hc with hin | ⟨x, r, hr, hx, hxc⟩
  · exact .inl (.tail _ hin)
  by_cases hxe : x = e
  · exact .inl (mem_cons.2 (.inl (by rw [← hxc, hxe])))
  · exact .inr ⟨x, r, hr, hmem.2 (.inr ⟨hxe, hx⟩), hxc⟩

/-- A new order is put on a free token. -/
theorem Ledger.place (hq : q ≠ free) (he : e ∈ f free) (hnew : ¬ put c) {put' : C → Prop}
    (hput : ∀ d, put' d ↔ put d ∨ d = c) :
    Ledger (Places.move f free q e) free (update label e c) taken put' := by
  have hmem := fun {x r} => mem_move (x := x) (r := r) h.part (Ne.symm hq) he
  have hother : ∀ {x r}, r ≠ free → x ∈ f r → x ≠ e := by
    rintro x r hr hx rfl
    exact hr (h.part.unique hx he)
  have hback : ∀ {x r}, r ≠ free → x ∈ Places.move f free q e r → (x = e ∧ update label e c x = c) ∨
        (x ≠ e ∧ x ∈ f r ∧ update label e c x = label x) := by
    intro x r hr hx
    rcases hmem.1 hx with ⟨rfl, -⟩ | ⟨hne, hx⟩
    · exact .inl ⟨rfl, update_self _ _ _⟩
    · exact .inr ⟨hne, hx, update_of_ne hne _ _⟩
  refine ⟨h.part.move (Ne.symm hq) he, ?_, ?_, ?_, h.taken_nodup, ?_, ?_⟩
  · intro x r hr hx
    rw [hput]
    rcases hback hr hx with ⟨-, hl⟩ | ⟨-, hx, hl⟩
    · exact .inr hl
    rw [hl]
    exact .inl (h.known hr hx)
  · intro x x' r r' hr hr' hx hx' heq
    rcases hback hr hx with ⟨rfl, hl⟩ | ⟨-, hx, hl⟩
    · rcases hback hr' hx' with ⟨rfl, -⟩ | ⟨-, hx', hl'⟩
      · rfl
      rw [hl, hl'] at heq
      exact absurd (heq ▸ h.known hr' hx') hnew
    rcases hback hr' hx' with ⟨-, hl'⟩ | ⟨-, hx', hl'⟩
    · rw [hl, hl'] at heq
      exact absurd (heq ▸ h.known hr hx) hnew
    rw [hl, hl'] at heq
    exact h.single hr hr' hx hx' heq
  · exact fun d hd => (hput d).2 (.inl (h.taken_put d hd))
  · rintro d hd ⟨x, r, hr, hx, hxd⟩
    rcases hback hr hx with ⟨-, hl⟩ | ⟨-, hx, hl⟩
    · rw [hl] at hxd
      exact hnew (hxd ▸ h.taken_put d hd)
    rw [hl] at hxd
    exact h.apart d hd ⟨x, r, hr, hx, hxd⟩
  intro d hd
  rcases (hput d).1 hd with hd | rfl
  · rcases h.complete d hd with hin | ⟨x, r, hr, hx, hxd⟩
    · exact .inl hin
    have hne := hother hr hx
    exact .inr ⟨x, r, hr, hmem.2 (.inr ⟨hne, hx⟩), by rwa [update_of_ne hne]⟩
  · exact .inr ⟨e, q, hq, hmem.2 (.inl ⟨rfl, rfl⟩), update_self _ _ _⟩

end

end KontainMonitor.Places
