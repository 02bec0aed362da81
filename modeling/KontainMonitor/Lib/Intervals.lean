import Mathlib.Data.List.Basic
import Mathlib.Data.List.Pairwise
import Mathlib.Order.Basic

/-!
# Intervals — sorted lists of half-open intervals

The elements of a list stand for the intervals `[lo x, hi x)`.  `Sorted d` says that they come in
order with gaps of at least `d`: with `d = 0` they are disjoint, with `d = 1` they do not even
touch.  The rules are about a segment in the middle of a list, because that is where lists of
regions change: `Sorted.replace` and `covers_replace` exchange a segment for another one.  `lookup`
reads a list as a map from points to intervals.
-/

namespace KontainMonitor.Intervals

open List

variable {α : Type} {lo hi : α → Nat} {d : Nat}
variable {x : α} {l m xs ms ys : List α} {a : Nat}
variable {ms' : List α} {r : α}

def Covers (lo hi : α → Nat) (l : List α) (a : Nat) : Prop := ∃ x ∈ l, lo x ≤ a ∧ a < hi x

def Sorted (lo hi : α → Nat) (d : Nat) (l : List α) : Prop := l.Pairwise fun x y => hi x + d ≤ lo y

/-! ## Covering -/

@[simp] theorem not_covers_nil (a : Nat) : ¬ Covers lo hi [] a := by
  rintro ⟨x, hx, -⟩
  cases hx

@[simp] theorem covers_cons :
    Covers lo hi (x :: l) a ↔ (lo x ≤ a ∧ a < hi x) ∨ Covers lo hi l a := by
  simp [Covers]

@[simp] theorem covers_append : Covers lo hi (l ++ m) a ↔ Covers lo hi l a ∨ Covers lo hi m a := by
  simp [Covers, or_and_right, exists_or]

theorem Covers.mono (h : Covers lo hi l a) (hsub : ∀ x ∈ l, x ∈ m) : Covers lo hi m a := by
  rcases h with ⟨x, hx, ha⟩
  exact ⟨x, hsub x hx, ha⟩

/-- A point below every interval of the list is not covered. -/
theorem not_covers_of_lt (h : ∀ x ∈ l, a < lo x) : ¬ Covers lo hi l a := by
  rintro ⟨x, hx, hle, -⟩
  exact absurd (h x hx) (Nat.not_lt.2 hle)

/-- A point after every interval of the list is not covered. -/
theorem not_covers_of_le (h : ∀ x ∈ l, hi x ≤ a) : ¬ Covers lo hi l a := by
  rintro ⟨x, hx, -, hlt⟩
  exact absurd (h x hx) (Nat.not_le.2 hlt)

theorem covers_replace (h : Covers lo hi ms' a ↔ Covers lo hi ms a) :
    Covers lo hi (xs ++ ms' ++ ys) a ↔ Covers lo hi (xs ++ ms ++ ys) a := by
  simp only [covers_append, h]

/-- Two intervals that touch cover what their union covers. -/
theorem covers_glue {l m : α} (htouch : hi l = lo r) (hlo : lo m = lo l) (hhi : hi m = hi r)
    (hl : lo l ≤ hi l) (hr : lo r ≤ hi r) : Covers lo hi [m] a ↔ Covers lo hi [l, r] a := by
  simp only [covers_cons, not_covers_nil, or_false, hlo, hhi]
  omega

/-! ## Order -/

theorem sorted_append : Sorted lo hi d (l ++ m) ↔
      Sorted lo hi d l ∧ Sorted lo hi d m ∧ ∀ x ∈ l, ∀ y ∈ m, hi x + d ≤ lo y := by
  simp only [Sorted, pairwise_append]

theorem sorted_cons : Sorted lo hi d (x :: l) ↔ (∀ y ∈ l, hi x + d ≤ lo y) ∧ Sorted lo hi d l := by
  simp only [Sorted, pairwise_cons]

/-- Different elements are apart, whichever comes first. -/
theorem Sorted.apart (h : Sorted lo hi d l) {y : α} (hx : x ∈ l) (hy : y ∈ l) (hne : x ≠ y) :
    hi x + d ≤ lo y ∨ hi y + d ≤ lo x := by
  have hsymm : Std.Symm fun x y : α => hi x + d ≤ lo y ∨ hi y + d ≤ lo x := ⟨fun _ _ => Or.symm⟩
  have hor : l.Pairwise fun x y => hi x + d ≤ lo y ∨ hi y + d ≤ lo x := List.Pairwise.imp .inl h
  exact hor.forall hx hy hne

theorem Sorted.drop_middle (h : Sorted lo hi d (xs ++ ms ++ ys)) : Sorted lo hi d (xs ++ ys) := by
  obtain ⟨hxm, hy, hxy⟩ := sorted_append.1 h
  exact sorted_append.2 ⟨(sorted_append.1 hxm).1, hy,
    fun x hx y hmem => hxy x (mem_append_left _ hx) y hmem⟩

/-- An element between two parts of a sorted list. -/
theorem Sorted.insert (h : Sorted lo hi d (xs ++ ys)) (hx : ∀ x ∈ xs, hi x + d ≤ lo r)
    (hy : ∀ y ∈ ys, hi r + d ≤ lo y) : Sorted lo hi d (xs ++ r :: ys) := by
  obtain ⟨h1, h2, h12⟩ := sorted_append.1 h
  refine sorted_append.2 ⟨h1, sorted_cons.2 ⟨hy, h2⟩, ?_⟩
  intro x hxm y hym
  rcases mem_cons.1 hym with rfl | hym
  · exact hx x hxm
  · exact h12 x hxm y hym

/-- Exchange a segment for a sorted one that stays inside of it. -/
theorem Sorted.replace (h : Sorted lo hi d (xs ++ ms ++ ys)) (hm : Sorted lo hi d ms')
    (hin : ∀ r ∈ ms', (∃ s ∈ ms, lo s ≤ lo r) ∧ ∃ t ∈ ms, hi r ≤ hi t) :
    Sorted lo hi d (xs ++ ms' ++ ys) := by
  obtain ⟨hxm, hy, hxmy⟩ := sorted_append.1 h
  obtain ⟨hx, -, hxm'⟩ := sorted_append.1 hxm
  refine sorted_append.2 ⟨sorted_append.2 ⟨hx, hm, ?_⟩, hy, ?_⟩
  · intro x hxs r hr
    rcases (hin r hr).1 with ⟨s, hs, hle⟩
    exact Nat.le_trans (hxm' x hxs s hs) hle
  intro r hr y hys
  rcases mem_append.1 hr with hrx | hrm
  · exact hxmy r (mem_append_left _ hrx) y hys
  rcases (hin r hrm).2 with ⟨t, ht, hle⟩
  exact Nat.le_trans (Nat.add_le_add_right hle d) (hxmy t (mem_append_right _ ht) y hys)

/-- What a segment of a sorted list covers, the rest of the list does not. -/
theorem Sorted.not_covers_rest (h : Sorted lo hi d (xs ++ ms ++ ys)) (ha : Covers lo hi ms a) :
    ¬ Covers lo hi (xs ++ ys) a := by
  obtain ⟨hxm, -, hxmy⟩ := sorted_append.1 h
  obtain ⟨-, -, hxm'⟩ := sorted_append.1 hxm
  rcases ha with ⟨m, hm, hlo, hhi⟩
  rintro ⟨x, hx, hxlo, hxhi⟩
  rcases mem_append.1 hx with hx | hx
  · have := hxm' x hx m hm
    omega
  have := hxmy m (mem_append_right _ hm) x hx
  omega

/-! ## Looking up -/

def lookup (lo hi : α → Nat) (l : List α) (a : Nat) : Option α :=
  l.find? fun x => lo x ≤ a ∧ a < hi x

theorem lookup_cons (x : α) (l : List α) (a : Nat) :
    lookup lo hi (x :: l) a = if lo x ≤ a ∧ a < hi x then some x else lookup lo hi l a := by
  by_cases h : lo x ≤ a ∧ a < hi x <;> simp [lookup, h]

theorem lookup_append (l m : List α) (a : Nat) :
    lookup lo hi (l ++ m) a = (lookup lo hi l a).or (lookup lo hi m a) := List.find?_append

theorem lookup_mem (h : lookup lo hi l a = some x) : x ∈ l ∧ lo x ≤ a ∧ a < hi x :=
  ⟨mem_of_find?_eq_some h, by simpa using List.find?_some h⟩

theorem lookup_eq_none : lookup lo hi l a = none ↔ ¬ Covers lo hi l a := by
  simp [lookup, Covers]

/-- In a sorted list no other interval contains the point. -/
theorem Sorted.lookup_eq (h : Sorted lo hi d l) (hx : x ∈ l) (hlo : lo x ≤ a) (hhi : a < hi x) :
    lookup lo hi l a = some x := by
  cases hy : lookup lo hi l a with
  | none => exact absurd ⟨x, hx, hlo, hhi⟩ (lookup_eq_none.1 hy)
  | some y =>
    obtain ⟨hmem, hylo, hyhi⟩ := lookup_mem hy
    by_contra hne
    rcases h.apart hmem hx (fun heq => hne (by rw [heq])) with hle | hle <;> omega

end KontainMonitor.Intervals
