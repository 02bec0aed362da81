import Mathlib.Logic.Function.Basic
import Mathlib.Data.List.Nodup

/-!
# TailQueue — BSD tail queues, pointer by pointer

A tail queue keeps, in each element, the next element and the *address* of the pointer that points
to the element; the head keeps the first element and the address of the last `next` pointer.  All
queues of one kind share the link field of their elements, so an element that is put on two queues,
or twice on one, does what the macros do with its pointers.

`Represents` says that the pointers are those of given lists.  The macros keep it as long as only
elements that are on no queue are inserted, and elements are removed from the queue they are on.
-/

namespace KontainMonitor.TailQueue

open Function List Option

/-- Where a pointer to an element can be stored. -/
inductive Slot (Q V : Type)
  | first (q : Q)
  | next (v : V)
  deriving DecidableEq, Repr

/-- The heads of all queues and the links of all elements; `none` is NULL. -/
structure Links (Q V : Type) where
  first : Q → Option V
  last : Q → Slot Q V
  next : V → Option V
  prev : V → Option (Slot Q V)

variable {Q V : Type} [DecidableEq Q] [DecidableEq V]
variable {r : Q}

def Links.init : Links Q V where
  first _ := none
  last q := .first q
  next _ := none
  prev _ := none

/-- `*slot = x`. -/
def Links.store (l : Links Q V) (slot : Slot Q V) (x : Option V) : Links Q V :=
  match slot with
  | .first q => { l with first := update l.first q x }
  | .next v => { l with next := update l.next v x }

/-- `TAILQ_INSERT_TAIL`. -/
def Links.insertTail (l : Links Q V) (q : Q) (v : V) : Links Q V :=
  let l := { l with
    next := update l.next v none
    prev := update l.prev v (some (l.last q)) }
  let l := l.store (l.last q) (some v)
  { l with last := update l.last q (.next v) }

/-- `TAILQ_REMOVE`; `none` if it writes through a NULL pointer. -/
def Links.remove (l : Links Q V) (q : Q) (v : V) : Option (Links Q V) :=
  match l.prev v with
  | none => none
  | some slot =>
    let l := match l.next v with
      | some w => { l with prev := update l.prev w (some slot) }
      | none => { l with last := update l.last q slot }
    some (l.store slot (l.next v))

/-- `TAILQ_FOREACH` up to the first element with `p`, from a given one.  `none` means that `n` steps
were not enough; on a queue with at most `n` elements, the links then form a cycle. -/
def Links.find (l : Links Q V) (p : V → Bool) : Nat → Option V → Option (Option V)
  | _, none => some none
  | 0, some _ => none
  | n + 1, some v => if p v then some (some v) else l.find p n (l.next v)

/-- The element that `TAILQ_FOREACH` visits after `k` others. -/
def Links.nth (l : Links Q V) (q : Q) : Nat → Option V
  | 0 => l.first q
  | k + 1 => (l.nth q k).bind l.next

/-- `TAILQ_FOREACH` visits the element. -/
def Links.On (l : Links Q V) (q : Q) (v : V) : Prop := ∃ k, l.nth q k = some v

/-! ## Pointers along a list -/

/-- `*slot`. -/
def Links.load (l : Links Q V) : Slot Q V → Option V
  | .first q => l.first q
  | .next v => l.next v

def endSlot : Slot Q V → List V → Slot Q V
  | slot, [] => slot
  | _, v :: vs => endSlot (.next v) vs

def slots : Slot Q V → List V → List (Slot Q V)
  | _, [] => []
  | slot, v :: vs => slot :: slots (.next v) vs

/-- From the slot on, the pointers lead through the list, and back. -/
def Links.Path (l : Links Q V) : Slot Q V → List V → Prop
  | _, [] => True
  | slot, v :: vs => l.load slot = some v ∧ l.prev v = some slot ∧ l.Path (.next v) vs

section

omit [DecidableEq Q] [DecidableEq V]

variable {l l' : Links Q V} {slot t : Slot Q V} {q : Q} {v w : V} {xs ys vs : List V}

theorem endSlot_append : endSlot slot (xs ++ ys) = endSlot (endSlot slot xs) ys := by
  induction xs generalizing slot with
  | nil => rfl
  | cons x xs ih => exact ih

theorem path_append : l.Path slot (xs ++ ys) ↔ l.Path slot xs ∧ l.Path (endSlot slot xs) ys := by
  induction xs generalizing slot with
  | nil => simp [Links.Path, endSlot]
  | cons x xs ih => simp only [cons_append, Links.Path, ih, endSlot, and_assoc]

theorem endSlot_mem (slot : Slot Q V) (vs : List V) :
    endSlot slot vs = slot ∨ ∃ v ∈ vs, endSlot slot vs = .next v := by
  induction vs generalizing slot with
  | nil => exact .inl rfl
  | cons v vs ih =>
    refine .inr ?_
    rcases ih (.next v) with heq | ⟨u, hu, heq⟩
    · exact ⟨v, (.head _), heq⟩
    · exact ⟨u, mem_cons_of_mem _ hu, heq⟩

theorem mem_slots (ht : t ∈ slots slot vs) : t = slot ∨ ∃ v ∈ vs, t = .next v := by
  induction vs generalizing slot with
  | nil => cases ht
  | cons v vs ih =>
    rcases mem_cons.1 ht with rfl | ht
    · exact .inl rfl
    rcases ih ht with rfl | ⟨u, hu, rfl⟩
    · exact .inr ⟨v, (.head _), rfl⟩
    · exact .inr ⟨u, mem_cons_of_mem _ hu, rfl⟩

/-- The slot behind a list without repetition points to none of its elements. -/
theorem endSlot_not_mem_slots (hnodup : vs.Nodup) (hslot : ∀ v ∈ vs, slot ≠ .next v) :
    endSlot slot vs ∉ slots slot vs := by
  induction vs generalizing slot with
  | nil => exact not_mem_nil
  | cons v vs ih =>
    obtain ⟨hv, hnodup⟩ := nodup_cons.1 hnodup
    have hne : ∀ u ∈ vs, (Slot.next v : Slot Q V) ≠ .next u := by
      rintro u hu heq
      cases heq
      exact hv hu
    rw [slots, endSlot, mem_cons, not_or]
    refine ⟨fun heq => ?_, ih hnodup hne⟩
    rcases endSlot_mem (.next v) vs with hend | ⟨u, hu, hend⟩
    · exact hslot v (.head _) (heq.symm.trans hend)
    · exact hslot u (.tail _ hu) (heq.symm.trans hend)

/-- A path is still there if its pointers are. -/
theorem Links.Path.congr (hp : l.Path slot vs) (hload : ∀ t ∈ slots slot vs, l'.load t = l.load t)
    (hprev : ∀ v ∈ vs, l'.prev v = l.prev v) : l'.Path slot vs := by
  induction vs generalizing slot with
  | nil => trivial
  | cons v vs ih =>
    obtain ⟨hv, hback, hp⟩ := hp
    refine ⟨(hload slot (.head _)).trans hv,
      (hprev v (.head _)).trans hback, ih hp (fun t ht => ?_) fun u hu => ?_⟩
    · exact hload t (.tail _ ht)
    · exact hprev u (.tail _ hu)

end

theorem load_store (l : Links Q V) (slot t : Slot Q V) (x : Option V) :
    (l.store slot x).load t = if t = slot then x else l.load t := by
  cases slot with
  | first q =>
    cases t with
    | first r => simp only [Links.store, Links.load, update_apply, Slot.first.injEq]
    | next v => simp [Links.store, Links.load]
  | next w =>
    cases t with
    | first r => simp [Links.store, Links.load]
    | next v => simp only [Links.store, Links.load, update_apply, Slot.next.injEq]

@[simp] theorem prev_store (l : Links Q V) (slot : Slot Q V) (x : Option V) :
    (l.store slot x).prev = l.prev := by
  cases slot <;> rfl

@[simp] theorem last_store (l : Links Q V) (slot : Slot Q V) (x : Option V) :
    (l.store slot x).last = l.last := by
  cases slot <;> rfl

/-! ## The lists of all queues -/

/-- The pointers are those of the lists, and no element is on two of them, or twice on one. -/
structure Represents (l : Links Q V) (lists : Q → List V) : Prop where
  path : ∀ q, l.Path (.first q) (lists q)
  last : ∀ q, l.last q = endSlot (.first q) (lists q)
  none : ∀ q, l.load (l.last q) = Option.none
  nodup : ∀ q, (lists q).Nodup
  disjoint : ∀ q r v, v ∈ lists q → v ∈ lists r → q = r

section

omit [DecidableEq Q] [DecidableEq V]

variable {l : Links Q V} {lists : Q → List V} {v : V}
variable {n : Nat}

theorem Represents.init : Represents (Links.init : Links Q V) fun _ => [] where
  path _ := trivial
  last _ := rfl
  none _ := rfl
  nodup _ := List.nodup_nil
  disjoint _ _ _ h := nomatch h

section

variable (h : Represents l lists)
include h

theorem Represents.last_eq (q : Q) : l.last q = .first q ∨ ∃ v ∈ lists q, l.last q = .next v := by
  rw [h.last]
  exact endSlot_mem _ _

/-- The slot behind one list points to no element of any list. -/
theorem Represents.last_not_mem (q r : Q) : l.last q ∉ slots (.first r) (lists r) := by
  by_cases hqr : q = r
  · subst hqr
    rw [h.last]
    exact endSlot_not_mem_slots (h.nodup q) fun _ _ heq => nomatch heq
  intro hmem
  rcases mem_slots hmem with heq | ⟨u, hu, heq⟩
  · rcases h.last_eq q with hl | ⟨w, hw, hl⟩
    · rw [hl] at heq
      cases heq
      exact hqr rfl
    rw [hl] at heq
    cases heq
  rcases h.last_eq q with hl | ⟨w, hw, hl⟩
  · rw [hl] at heq
    cases heq
  rw [hl, Slot.next.injEq] at heq
  exact hqr (h.disjoint q r w hw (heq ▸ hu))

theorem Represents.last_inj {q : Q} (heq : l.last q = l.last r) : q = r := by
  rcases h.last_eq q with hl | ⟨w, hw, hl⟩
  · rcases h.last_eq r with hl' | ⟨w', hw', hl'⟩
    · rw [hl, hl'] at heq
      cases heq
      rfl
    rw [hl, hl'] at heq
    cases heq
  rcases h.last_eq r with hl' | ⟨w', hw', hl'⟩
  · rw [hl, hl'] at heq
    cases heq
  rw [hl, hl', Slot.next.injEq] at heq
  exact h.disjoint q r w hw (heq ▸ hw')

theorem Represents.first (q : Q) : l.first q = (lists q).head? := by
  have hpath := h.path q
  have hnone := h.none q
  rw [h.last] at hnone
  cases hl : lists q with
  | nil =>
    rw [hl] at hnone
    exact hnone
  | cons v vs =>
    rw [hl] at hpath
    exact hpath.1

end

/-- What `TAILQ_FOREACH` visits. -/
theorem nth_eq {slot : Slot Q V} {vs : List V} (hp : l.Path slot vs)
    (hnone : l.load (endSlot slot vs) = Option.none) (f : Nat → Option V) (h0 : f 0 = l.load slot)
    (hs : ∀ k, f (k + 1) = (f k).bind l.next) (k : Nat) : f k = vs[k]? := by
  induction vs generalizing slot f k with
  | nil =>
    have hall : ∀ j, f j = Option.none := by
      intro j
      induction j with
      | zero => exact h0.trans hnone
      | succ j ih =>
        rw [hs, ih]
        rfl
    rw [hall, List.getElem?_nil]
  | cons v vs ih =>
    obtain ⟨hv, -, hp⟩ := hp
    cases k with
    | zero => rw [h0, hv, List.getElem?_cons_zero]
    | succ k =>
      rw [List.getElem?_cons_succ]
      refine ih hp hnone (fun j => f (j + 1)) ?_ (fun j => hs (j + 1)) k
      rw [hs, h0, hv]
      rfl

theorem Represents.nth (h : Represents l lists) (q : Q) (k : Nat) : l.nth q k = (lists q)[k]? :=
  nth_eq (h.path q) (h.last q ▸ h.none q) (l.nth q) rfl (fun _ => rfl) k

theorem Represents.on_iff (h : Represents l lists) (q : Q) (v : V) : l.On q v ↔ v ∈ lists q := by
  rw [mem_iff_getElem?]
  simp only [Links.On, h.nth]

/-- An element is visited at most once. -/
theorem Represents.once (h : Represents l lists) {q : Q} {j k : Nat} (hj : l.nth q j = some v)
    (hk : l.nth r k = some v) : q = r ∧ j = k := by
  rw [h.nth] at hj hk
  obtain rfl := h.disjoint q r v (mem_of_getElem? hj) (mem_of_getElem? hk)
  obtain ⟨hlt, -⟩ := List.getElem?_eq_some_iff.1 hj
  exact ⟨rfl, (List.getElem?_inj hlt (h.nodup q)).1 (hj.trans hk.symm)⟩

/-- The search finds what it would find in the list, in as many steps as the list is long. -/
theorem find_eq {slot : Slot Q V} {vs : List V} (hp : l.Path slot vs)
    (hnone : l.load (endSlot slot vs) = Option.none) (p : V → Bool) (hn : vs.length ≤ n) :
    l.find p n (l.load slot) = some (vs.find? p) := by
  induction vs generalizing slot n with
  | nil =>
    have hslot : l.load slot = Option.none := hnone
    rw [hslot, Links.find, List.find?_nil]
  | cons v vs ih =>
    obtain ⟨hv, -, hp⟩ := hp
    obtain ⟨n, rfl⟩ : ∃ m, n = m + 1 := ⟨n - 1, by rw [length_cons] at hn; omega⟩
    have hrest := ih hp hnone (n := n) (by rw [length_cons] at hn; omega)
    rw [hv, Links.find, List.find?_cons]
    cases p v with
    | true => rfl
    | false => exact hrest

theorem find_prop {p : V → Bool} {x : Option V} (h : l.find p n x = some (some v)) : p v := by
  induction n generalizing x with
  | zero => cases x <;> cases h
  | succ n ih =>
    cases x with
    | none => cases h
    | some u =>
      rw [Links.find] at h
      split at h
      · cases h
        assumption
      · exact ih h

theorem not_on_of_first {q : Q} (h : l.first q = Option.none) : ¬ l.On q v := by
  have hnth : ∀ k, l.nth q k = Option.none := by
    intro k
    induction k with
    | zero => exact h
    | succ k ih =>
      rw [Links.nth, ih]
      rfl
  rintro ⟨k, hk⟩
  rw [hnth] at hk
  cases hk

theorem Represents.find (h : Represents l lists) (q : Q) (p : V → Bool)
    (hn : (lists q).length ≤ n) : l.find p n (l.first q) = some ((lists q).find? p) :=
  find_eq (h.path q) (h.last q ▸ h.none q) p hn

end

section

variable {l : Links Q V} {lists : Q → List V} {q : Q} {v : V}
variable {u : V}

omit [DecidableEq Q] [DecidableEq V] in
/-- An element on a queue has a pointer back. -/
theorem Represents.prev_ne_none (h : Represents l lists) (hv : v ∈ lists q) :
    l.prev v ≠ Option.none := by
  obtain ⟨xs, ys, hxs⟩ := append_of_mem hv
  have hpath := h.path q
  rw [hxs, path_append] at hpath
  rw [hpath.2.2.1]
  exact some_ne_none _

theorem prev_insertTail_of_ne (hu : u ≠ v) : (l.insertTail q v).prev u = l.prev u := by
  simp [Links.insertTail, update_of_ne hu]

omit [DecidableEq Q] in
/-- Nothing else changes when the pointers of an element that is on no queue change. -/
theorem Represents.set_prev (h : Represents l lists) (hv : ∀ r, v ∉ lists r)
    (x : Option (Slot Q V)) : Represents { l with prev := update l.prev v x } lists where
  path r := by
    refine (h.path r).congr (fun t _ => by cases t <;> rfl) fun u hu => ?_
    exact update_of_ne (fun heq : u = v => hv r (heq ▸ hu)) ..
  last := h.last
  none r := by
    have hnone := h.none r
    generalize l.last r = t at hnone ⊢
    cases t <;> exact hnone
  nodup := h.nodup
  disjoint := h.disjoint

omit [DecidableEq V] in
theorem mem_insert_iff : u ∈ update lists q (lists q ++ [v]) r ↔ u ∈ lists r ∨ (u = v ∧ r = q) := by
  by_cases hr : r = q
  · subst hr
    simp
  · simp [hr]

section

variable (h : Represents l lists)
include h

theorem Represents.mem_erase_iff :
    u ∈ update lists q ((lists q).erase v) r ↔ u ∈ lists r ∧ ¬ (u = v ∧ r = q) := by
  by_cases hr : r = q
  · subst hr
    rw [update_self, (h.nodup r).mem_erase_iff, and_comm, and_iff_left rfl]
  · simp [hr]

omit [DecidableEq V] in
/-- The lists after an insertion are without repetition. -/
theorem Represents.insert_lists (hv : ∀ r, v ∉ lists r) (q : Q) :
    let lists' := update lists q (lists q ++ [v])
    (∀ r, (lists' r).Nodup) ∧ ∀ r r' u, u ∈ lists' r → u ∈ lists' r' → r = r' := by
  refine ⟨fun r => ?_, fun r r' u hu hu' => ?_⟩
  · by_cases hr : r = q
    · subst hr
      rw [update_self]
      exact nodup_append.2 ⟨h.nodup r, nodup_singleton v, fun a ha b hb heq => by
        rw [mem_singleton.1 hb] at heq
        exact hv r (heq ▸ ha)⟩
    rw [update_of_ne hr]
    exact h.nodup r
  rcases mem_insert_iff.1 hu with hold | ⟨rfl, rfl⟩
  · rcases mem_insert_iff.1 hu' with hold' | ⟨rfl, -⟩
    · exact h.disjoint r r' u hold hold'
    · exact absurd hold (hv r)
  rcases mem_insert_iff.1 hu' with hold' | ⟨-, rfl⟩
  · exact absurd hold' (hv r')
  · rfl

theorem Represents.insertTail (hv : ∀ r, v ∉ lists r) (q : Q) :
    Represents (l.insertTail q v) (update lists q (lists q ++ [v])) := by
  obtain ⟨hnodup, hdisjoint⟩ := h.insert_lists hv q
  have hlast : ∀ r, l.last r ≠ .next v := by
    intro r heq
    rcases h.last_eq r with hl | ⟨w, hw, hl⟩
    · rw [hl] at heq
      cases heq
    rw [hl, Slot.next.injEq] at heq
    exact hv r (heq ▸ hw)
  -- the pointers after the insertion
  have hload : ∀ t, (l.insertTail q v).load t =
      if t = l.last q then some v else if t = .next v then Option.none else l.load t := by
    intro t
    have hstore := load_store { l with
      next := update l.next v Option.none
      prev := update l.prev v (some (l.last q)) } (l.last q) t (some v)
    have hsame : (l.insertTail q v).load t = (({ l with
      next := update l.next v Option.none
      prev := update l.prev v (some (l.last q)) } : Links Q V).store (l.last q)
        (some v)).load t := by
      cases t <;> rfl
    rw [hsame, hstore]
    split
    · rfl
    cases t with
    | first r =>
      rw [if_neg (fun heq => nomatch heq)]
      rfl
    | next u => simp only [Links.load, update_apply, Slot.next.injEq]
  have hprev : (l.insertTail q v).prev = update l.prev v (some (l.last q)) := by
    simp [Links.insertTail]
  have hends : (l.insertTail q v).last = update l.last q (.next v) := by simp [Links.insertTail]
  -- what was there is still there
  have hold : ∀ r, (l.insertTail q v).Path (.first r) (lists r) := by
    intro r
    refine (h.path r).congr (fun t ht => ?_) fun u hu => ?_
    · rw [hload, if_neg (fun heq : t = l.last q => h.last_not_mem q r (heq ▸ ht)), if_neg]
      rintro rfl
      rcases mem_slots ht with heq | ⟨u, hu, heq⟩
      · cases heq
      cases heq
      exact hv r hu
    · rw [hprev, update_of_ne (fun heq : u = v => hv r (heq ▸ hu))]
  refine ⟨fun r => ?_, fun r => ?_, fun r => ?_, hnodup, hdisjoint⟩
  · by_cases hr : r = q
    · subst hr
      rw [update_self, path_append, ← h.last]
      refine ⟨hold r, ?_, ?_, trivial⟩
      · rw [hload, if_pos rfl]
      · rw [hprev, update_self]
    rw [update_of_ne hr]
    exact hold r
  · rw [hends]
    by_cases hr : r = q
    · subst hr
      rw [update_self, update_self, endSlot_append]
      rfl
    · rw [update_of_ne hr, update_of_ne hr, h.last]
  rw [hends]
  by_cases hr : r = q
  · subst hr
    rw [update_self, hload, if_neg (Ne.symm (hlast r)), if_pos rfl]
  rw [update_of_ne hr, hload, if_neg, if_neg (hlast r), h.none]
  exact fun heq => hr (h.last_inj heq)

theorem Represents.erase_lists (q : Q) (v : V) : let lists' := update lists q ((lists q).erase v)
    (∀ r, (lists' r).Nodup) ∧ ∀ r r' u, u ∈ lists' r → u ∈ lists' r' → r = r' := by
  refine ⟨fun r => ?_, fun r r' u hu hu' => ?_⟩
  · by_cases hr : r = q
    · subst hr
      rw [update_self]
      exact (h.nodup r).erase v
    rw [update_of_ne hr]
    exact h.nodup r
  · exact h.disjoint r r' u (h.mem_erase_iff.1 hu).1 (h.mem_erase_iff.1 hu').1

omit [DecidableEq Q] [DecidableEq V] in
/-- The slot that points to an element of one list is on no path of another one. -/
theorem Represents.foreign {xs ys : List V} (hxs : lists q = xs ++ v :: ys) (hr : r ≠ q)
    {t : Slot Q V} (ht : t = .first r ∨ ∃ u ∈ lists r, t = .next u) :
    t ≠ endSlot (.first q) xs := by
  intro heq
  rcases endSlot_mem (.first q) xs with hs | ⟨x, hx, hs⟩
  · rcases ht with rfl | ⟨u, -, rfl⟩
    · rw [hs, Slot.first.injEq] at heq
      exact hr heq
    rw [hs] at heq
    cases heq
  rcases ht with rfl | ⟨u, hu, rfl⟩
  · rw [hs] at heq
    cases heq
  rw [hs, Slot.next.injEq] at heq
  refine hr (h.disjoint r q u hu ?_)
  rw [hxs, heq]
  exact mem_append_left _ hx

/-- The slot before `v` points behind `v`, and what is there points back to that slot. -/
theorem Represents.relink {l' : Links Q V} {xs ys : List V} (hxs : lists q = xs ++ v :: ys)
    (hload : ∀ t, l'.load t = if t = endSlot (.first q) xs then ys.head? else l.load t)
    (hprev : ∀ u, l'.prev u = if ys.head? = some u then some (endSlot (.first q) xs) else l.prev u)
    (hlast : l'.last = update l.last q (endSlot (endSlot (.first q) xs) ys)) :
    Represents l' (update lists q ((lists q).erase v)) := by
  obtain ⟨hnodup', hdisjoint'⟩ := h.erase_lists q v
  have hnodup := h.nodup q
  rw [hxs] at hnodup
  obtain ⟨hxnodup, hynodup, hxy⟩ := nodup_append.1 hnodup
  obtain ⟨hvy, hynodup⟩ := nodup_cons.1 hynodup
  have hvx : v ∉ xs := fun hmem => hxy v hmem v (.head _) rfl
  have hyx : ∀ u ∈ ys, u ∉ xs := fun u hu hmem => hxy u hmem u (.tail _ hu) rfl
  have hhead : ∀ u, ys.head? = some u → u ∈ ys := fun u hu => mem_of_mem_head? hu
  have herase : (lists q).erase v = xs ++ ys := by
    rw [hxs, erase_append_right _ hvx, erase_cons_head]
  have hpath := h.path q
  rw [hxs, path_append] at hpath
  obtain ⟨hpx, -, -, hpy⟩ := hpath
  -- the slots behind `v` are other slots
  have hnext : ∀ u ∈ ys, Slot.next u ≠ endSlot (.first q) xs := by
    intro u hu heq
    rcases endSlot_mem (.first q) xs with hs | ⟨x, hx, hs⟩
    · rw [hs] at heq
      cases heq
    rw [hs, Slot.next.injEq] at heq
    exact hyx u hu (heq ▸ hx)
  have hpy' : l'.Path (endSlot (.first q) xs) ys := by
    cases ys with
    | nil => trivial
    | cons w ys =>
      obtain ⟨-, -, hpy⟩ := hpy
      have hwy := (nodup_cons.1 hynodup).1
      refine ⟨by rw [hload, if_pos rfl, List.head?_cons], by rw [hprev, List.head?_cons, if_pos rfl],
        hpy.congr (fun t ht => ?_) fun u hu => ?_⟩
      · rw [hload, if_neg]
        rcases mem_slots ht with rfl | ⟨u, hu, rfl⟩
        · exact hnext w (.head _)
        · exact hnext u (.tail _ hu)
      rw [hprev, if_neg]
      rintro heq
      exact hwy (some.inj heq ▸ hu)
  refine ⟨fun r => ?_, fun r => ?_, fun r => ?_, hnodup', hdisjoint'⟩
  · by_cases hr : r = q
    · subst hr
      rw [update_self, herase, path_append]
      refine ⟨hpx.congr (fun t ht => ?_) fun u hu => ?_, hpy'⟩
      · rw [hload, if_neg]
        have hfirst : ∀ u ∈ xs, (Slot.first r : Slot Q V) ≠ .next u := fun _ _ heq => nomatch heq
        exact fun heq => endSlot_not_mem_slots hxnodup hfirst (heq ▸ ht)
      rw [hprev, if_neg]
      exact fun heq => hyx u (hhead u heq) hu
    rw [update_of_ne hr]
    refine (h.path r).congr (fun t ht => ?_) fun u hu => ?_
    · rw [hload, if_neg (h.foreign hxs hr (mem_slots ht))]
    rw [hprev, if_neg]
    intro heq
    refine hr (h.disjoint r q u hu ?_)
    rw [hxs]
    exact mem_append_right _ (.tail _ (hhead u heq))
  · rw [hlast]
    by_cases hr : r = q
    · subst hr
      rw [update_self, update_self, herase, endSlot_append]
    · rw [update_of_ne hr, update_of_ne hr, h.last]
  rw [hlast]
  by_cases hr : r = q
  · subst hr
    rw [update_self, hload]
    cases ys with
    | nil => exact if_pos rfl
    | cons w ys =>
      have hend : l.last r = endSlot (.next w) ys := by
        rw [h.last, hxs, endSlot_append]
        rfl
      rw [if_neg, endSlot, ← hend, h.none]
      rcases endSlot_mem (.next w) ys with hs | ⟨u, hu, hs⟩
      · exact fun heq => hnext w (.head _) (hs.symm.trans heq)
      · exact fun heq => hnext u (.tail _ hu) (hs.symm.trans heq)
  · rw [update_of_ne hr, hload, if_neg (h.foreign hxs hr (h.last_eq r)), h.none]

/-- `TAILQ_REMOVE` of an element of the queue. -/
theorem Represents.remove (hv : v ∈ lists q) :
    ∃ l', l.remove q v = some l' ∧ Represents l' (update lists q ((lists q).erase v)) ∧
      ∀ u, u ∉ lists q → l'.prev u = l.prev u := by
  obtain ⟨xs, ys, hxs⟩ := append_of_mem hv
  have hpath := h.path q
  have hlast := h.last q
  have hnone := h.none q
  rw [hxs, path_append] at hpath
  rw [hxs, endSlot_append] at hlast
  obtain ⟨-, -, hback, hpy⟩ := hpath
  cases ys with
  | nil =>
    -- the last element: the head gets the slot before it
    have hend : l.next v = Option.none := by
      rw [hlast] at hnone
      exact hnone
    refine ⟨({ l with last := update l.last q (endSlot (.first q) xs) } :
      Links Q V).store (endSlot (.first q) xs) Option.none, ?_,
      h.relink hxs (fun t => ?_) (fun u => ?_) ?_, fun u _ => ?_⟩
    · simp only [Links.remove, hback, hend]
    · rw [load_store]
      cases t <;> rfl
    · rw [prev_store, List.head?_nil, if_neg (fun heq => nomatch heq)]
    · rw [last_store]
      rfl
    · rw [prev_store]
  | cons w ys =>
    have hw : l.next v = some w := hpy.1
    refine ⟨({ l with prev := update l.prev w (some (endSlot (.first q) xs)) } :
      Links Q V).store (endSlot (.first q) xs) (some w), ?_,
      h.relink hxs (fun t => ?_) (fun u => ?_) ?_, fun u hu => ?_⟩
    · simp only [Links.remove, hback, hw]
    · rw [load_store]
      cases t <;> rfl
    · rw [prev_store, List.head?_cons]
      simp only [update_apply, some.injEq, eq_comm]
    · rw [last_store, endSlot, ← (show l.last q = endSlot (.next w) ys from hlast), update_eq_self]
    rw [prev_store]
    refine update_of_ne (fun heq : u = w => hu ?_) ..
    rw [heq, hxs]
    exact mem_append_right _ (.tail _ (.head _))

end

end

end KontainMonitor.TailQueue
