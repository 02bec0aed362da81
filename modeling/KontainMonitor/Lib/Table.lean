import Mathlib.Data.List.Nodup
import Mathlib.Data.List.Range
import Mathlib.Logic.Function.Basic
import Mathlib.Tactic.Linarith

/-!
# Table — loops that rewrite entries of a table

`Table.forEach l slot f t` is the table that `for (i in l) t[slot(i)] = f(i, t[slot(i)])` leaves.
When the rounds write distinct entries, the result is known entry by entry: `forEach_of_mem` and
`forEach_of_forall_ne`.  Two shapes of loop are worked out: over an interval of slots
(`forEach_range'_apply`) and over the pages of an address range, in a table of 512 entries that
each stand for one page (`forEach_pages_apply`).
-/

namespace KontainMonitor.Table

open Function List

variable {α ι : Type}
variable {base size step : Nat}
variable {l : List ι} {slot : ι → Nat} {f : ι → α → α} {j c : Nat}

def forEach (l : List ι) (slot : ι → Nat) (f : ι → α → α) (t : Nat → α) : Nat → α :=
  l.foldl (fun t i => update t (slot i) (f i (t (slot i)))) t

@[simp] theorem forEach_cons (i : ι) (l : List ι) (slot : ι → Nat) (f : ι → α → α) (t : Nat → α) :
    forEach (i :: l) slot f t = forEach l slot f (update t (slot i) (f i (t (slot i)))) := rfl

/-- An entry that no round writes keeps its value. -/
theorem forEach_of_forall_ne (h : ∀ i ∈ l, slot i ≠ j) (t : Nat → α) :
    forEach l slot f t j = t j := by
  induction l generalizing t with
  | nil => rfl
  | cons i l ih =>
    have htail : ∀ k ∈ l, slot k ≠ j := fun k hk => h k (.tail _ hk)
    have hhead : j ≠ slot i := (h i (.head _)).symm
    rw [forEach_cons, ih htail, update_of_ne hhead]

/-- When the rounds write distinct entries, each of these is written once. -/
theorem forEach_of_mem {k : ι} (hl : (l.map slot).Nodup) (hk : k ∈ l) (t : Nat → α) :
    forEach l slot f t (slot k) = f k (t (slot k)) := by
  induction l generalizing t with
  | nil => cases hk
  | cons i l ih =>
    rw [map_cons, nodup_cons] at hl
    rw [forEach_cons]
    rcases mem_cons.1 hk with rfl | hk'
    · -- the remaining rounds do not come back to the head's entry
      have hne : ∀ i' ∈ l, slot i' ≠ slot k := by
        intro i' hi' heq
        exact hl.1 (heq ▸ mem_map_of_mem hi')
      rw [forEach_of_forall_ne hne, update_self]
    have hne : slot k ≠ slot i := by
      intro heq
      exact hl.1 (heq ▸ mem_map_of_mem hk')
    rw [ih hl.2 hk', update_of_ne hne]

theorem forEach_range'_apply (lo n : Nat) (f : Nat → α → α) (t : Nat → α) (j : Nat) :
    forEach (List.range' lo n) id f t j = if lo ≤ j ∧ j < lo + n then f j (t j) else t j := by
  by_cases h : lo ≤ j ∧ j < lo + n
  · have hnd : ((List.range' lo n).map id).Nodup := by simpa using nodup_range'
    have hmem : j ∈ List.range' lo n := by simpa [mem_range'_1] using h
    have hj := forEach_of_mem (f := f) hnd hmem t
    simpa [h] using hj
  have hne : ∀ i ∈ List.range' lo n, id i ≠ j := by
    intro i hi heq
    have hi' := mem_range'_1.1 hi
    exact h (by simpa using heq ▸ hi')
  rw [forEach_of_forall_ne hne, if_neg h]

/-- A loop whose body leaves a part of every entry alone leaves it alone in the table. -/
theorem forEach_proj {β : Type} (φ : α → β) {f : ι → α → α} (hf : ∀ i a, φ (f i a) = φ a) :
    ∀ (l : List ι) (slot : ι → Nat) (t : Nat → α) (j : Nat), φ (forEach l slot f t j) = φ (t j)
  | [], _, _, _ => rfl
  | i :: l, slot, t, j => by
    rw [forEach_cons, forEach_proj φ hf l slot]
    by_cases hj : j = slot i
    · rw [hj, update_self, hf]
    · rw [update_of_ne hj]

/-! ## Pages of an address range -/

def addrsBy (base size step : Nat) : List Nat :=
  (List.range ((size + step - 1) / step)).map fun k => base + k * step

theorem mem_addrsBy (h0 : 0 < step) (hb : step ∣ base) (hs : step ∣ size) {x : Nat} :
    x ∈ addrsBy base size step ↔ step ∣ x ∧ base ≤ x ∧ x < base + size := by
  obtain ⟨b, rfl⟩ := hb
  obtain ⟨n, rfl⟩ := hs
  have hcount : (step * n + step - 1) / step = n := by
    rw [Nat.add_sub_assoc h0, Nat.mul_add_div h0, Nat.div_eq_of_lt (by omega), add_zero]
  simp only [addrsBy, hcount, mem_map, mem_range]
  constructor
  · rintro ⟨k, hk, rfl⟩
    have hlt : k * step < step * n := by
      rw [mul_comm]
      exact Nat.mul_lt_mul_of_pos_left hk h0
    have hdvd : step ∣ step * b + k * step :=
      Nat.dvd_add (Nat.dvd_mul_right _ _) (Nat.dvd_mul_left _ _)
    exact ⟨hdvd, by omega, by omega⟩
  rintro ⟨⟨c, rfl⟩, hlo, hhi⟩
  have hbc : b ≤ c := Nat.le_of_mul_le_mul_left hlo h0
  have hcn : c < b + n := by
    rw [← Nat.mul_add] at hhi
    exact Nat.lt_of_mul_lt_mul_left hhi
  refine ⟨c - b, by omega, ?_⟩
  rw [mul_comm (c - b) step, Nat.mul_sub]
  have := Nat.mul_le_mul_left step hbc
  omega

theorem nodup_addrsBy (h0 : 0 < step) : (addrsBy base size step).Nodup := by
  refine List.Nodup.map ?_ nodup_range
  intro j k hjk
  have hmul : j * step = k * step := by simpa using hjk
  exact Nat.eq_of_mul_eq_mul_right h0 hmul

def pageSlot (step a : Nat) : Nat := a / step % 512

section

variable (h0 : 0 < step) (hb : step ∣ base) (hs : step ∣ size) (hlo : c * (512 * step) ≤ base)
  (hhi : base + size ≤ (c + 1) * (512 * step))
include h0 hb hs hlo hhi

/-- A loop over the pages of a range inside one table rewrites exactly the entries of the range. -/
theorem forEach_pages_apply {a : Nat} (ha : a / step / 512 = c) (f : Nat → α → α) (t : Nat → α) :
    forEach (addrsBy base size step) (pageSlot step) f t (pageSlot step a) =
      if base ≤ a ∧ a < base + size then f (a / step * step) (t (pageSlot step a))
      else t (pageSlot step a) := by
  -- inside one table an entry determines the page
  have hpage : ∀ x, x ∈ addrsBy base size step → x / step / 512 = c := by
    intro x hx
    rcases (mem_addrsBy h0 hb hs).1 hx with ⟨-, hx1, hx2⟩
    rw [Nat.div_div_eq_div_mul, Nat.mul_comm step]
    have hpos : 0 < 512 * step := by omega
    have h1 : c ≤ x / (512 * step) := (Nat.le_div_iff_mul_le hpos).2 (by omega)
    have h2 : x / (512 * step) < c + 1 := (Nat.div_lt_iff_lt_mul hpos).2 (by omega)
    omega
  have hinj : ∀ x y : Nat, x / step / 512 = c → y / step / 512 = c →
      pageSlot step x = pageSlot step y → x / step = y / step := by
    intro x y hx hy hxy
    simp only [pageSlot] at hxy
    omega
  have hmul : ∀ x, step ∣ x → x / step * step = x := fun x hx => Nat.div_mul_cancel hx
  by_cases hin : base ≤ a ∧ a < base + size
  · have hnd : ((addrsBy base size step).map (pageSlot step)).Nodup := by
      refine List.Nodup.map_on ?_ (nodup_addrsBy h0)
      intro x hx y hy hxy
      have hq := hinj x y (hpage x hx) (hpage y hy) hxy
      rw [← hmul x ((mem_addrsBy h0 hb hs).1 hx).1, hq, hmul y ((mem_addrsBy h0 hb hs).1 hy).1]
    have hmem : a / step * step ∈ addrsBy base size step := by
      refine (mem_addrsBy h0 hb hs).2 ⟨Nat.dvd_mul_left _ _, ?_, ?_⟩
      · have hle : base / step ≤ a / step := Nat.div_le_div_right hin.1
        have := Nat.mul_le_mul_right step hle
        rwa [hmul base hb] at this
      · exact lt_of_le_of_lt (Nat.div_mul_le_self a step) hin.2
    have hsame : pageSlot step (a / step * step) = pageSlot step a := by
      simp only [pageSlot, Nat.mul_div_cancel _ h0]
    have hw := forEach_of_mem (f := f) hnd hmem t
    rw [hsame] at hw
    rw [if_pos hin, hw]
  have hne : ∀ x ∈ addrsBy base size step, pageSlot step x ≠ pageSlot step a := by
    intro x hx heq
    have hq := hinj x a (hpage x hx) ha heq
    rcases (mem_addrsBy h0 hb hs).1 hx with ⟨hd, hx1, hx2⟩
    apply hin
    have hxa : x ≤ a := by
      rw [← hmul x hd, hq]
      exact Nat.div_mul_le_self a step
    have hax : a < x + step := by
      have h1 := Nat.div_add_mod a step
      have h2 := Nat.mod_lt a h0
      rw [← hmul x hd, hq, Nat.mul_comm]
      omega
    -- both ends of the range are page boundaries
    have hend : x + step ≤ base + size := by
      obtain ⟨n, hn⟩ := Nat.dvd_sub (Nat.dvd_add hb hs) hd
      have hn1 : 1 ≤ n := by
        rcases Nat.eq_zero_or_pos n with rfl | hn0
        · omega
        · exact hn0
      have := Nat.mul_le_mul_left step hn1
      omega
    omega
  rw [forEach_of_forall_ne hne, if_neg hin]

/-- The same by the number of the entry. -/
theorem forEach_pages_index (hj : j < 512) (f : Nat → α → α) (t : Nat → α) :
    forEach (addrsBy base size step) (pageSlot step) f t j =
      if base ≤ (c * 512 + j) * step ∧ (c * 512 + j) * step < base + size then
        f ((c * 512 + j) * step) (t j) else t j := by
  have hdiv : (c * 512 + j) * step / step = c * 512 + j := Nat.mul_div_cancel _ h0
  have hslot : pageSlot step ((c * 512 + j) * step) = j := by
    rw [pageSlot, hdiv]
    omega
  have hpage := forEach_pages_apply h0 hb hs hlo hhi (a := (c * 512 + j) * step)
    (by rw [hdiv]; omega) f t
  rw [hslot, hdiv] at hpage
  exact hpage

end

end KontainMonitor.Table
