import KontainMonitor.Signal.Posting

/-!
# Selection — which pending signal `km_dequeue_signal` hands out

The loop of `dequeue_signal` is `List.argmax` of the priority over the entries that the mask lets
through, so the choice is the first entry of the highest priority.  `Chosen` says what that is in
terms of signals: program errors come first, then the lowest number, and equals in the order in which
they were enqueued.
-/

namespace KontainMonitor.Signal

open BitVec List Places Transition

variable {n : Nat} {s : SigState n} {v : Fin n}
variable {signo : Nat} {mask : SigSet} {list : List Entry} {e : Entry} {slist : Place n}
variable {info : SigInfo}

/-! ## Sets of signals -/

theorem kmSigismember_eq (set : SigSet) (signo : Nat) :
    kmSigismember set signo = set.getLsbD (kmSigindex signo) := by
  have hand : set &&& 1#64 <<< kmSigindex signo =
      if set.getLsbD (kmSigindex signo) then BitVec.twoPow 64 (kmSigindex signo) else 0 :=
    and_twoPow ..
  by_cases hlt : kmSigindex signo < 64
  · have hne : BitVec.twoPow 64 (kmSigindex signo) ≠ 0 := by
      intro heq
      have := congrArg (fun x => BitVec.getLsbD x (kmSigindex signo)) heq
      simp [hlt] at this
    rw [kmSigismember, hand]
    cases set.getLsbD (kmSigindex signo) with
    | false => simp
    | true => simpa using hne
  have hout : set.getLsbD (kmSigindex signo) = false := getLsbD_of_ge _ _ (by omega)
  rw [kmSigismember, hand, hout]
  simp

/-- Adding a signal changes the membership of that signal only. -/
theorem kmSigismember_kmSigaddset {added : Nat} (h : 1 ≤ signo) (hadded : 1 ≤ added)
    (hlt : added < nSig) (set : SigSet) :
    kmSigismember (kmSigaddset set added) signo = (kmSigismember set signo || signo == added) := by
  have hbit : (1#64 <<< kmSigindex added).getLsbD (kmSigindex signo) = (signo == added) := by
    have htwo : 1#64 <<< kmSigindex added = BitVec.twoPow 64 (kmSigindex added) := rfl
    rw [htwo, getLsbD_twoPow, Bool.eq_iff_iff, Bool.and_eq_true, decide_eq_true_eq,
      decide_eq_true_eq, beq_iff_eq]
    simp only [kmSigindex, nSig] at hlt ⊢
    omega
  rw [kmSigismember_eq, kmSigismember_eq, kmSigaddset, if_pos ⟨hadded, hlt⟩, getLsbD_or, hbit]

def programErrors : List Nat := [sigFpe, sigIll, sigSegv, sigBus, sigAbrt, sigTrap, sigSys]

def faultSignals : List Nat := [sigBus, sigFpe, sigIll, sigSegv]

/-- A set that is given as a list of signals. -/
theorem kmSigismember_of_lt {set : SigSet} {l : List Nat}
    (hlow : ∀ signo < nSig, kmSigismember set signo ↔ signo ∈ l) (hl : ∀ x ∈ l, x < nSig)
    (signo : Nat) : kmSigismember set signo ↔ signo ∈ l := by
  by_cases hlt : signo < nSig
  · exact hlow signo hlt
  have hout : kmSigismember set signo = false := by
    rw [kmSigismember_eq]
    refine getLsbD_of_ge _ _ ?_
    simp only [nSig] at hlt
    simp only [kmSigindex]
    omega
  rw [hout]
  refine ⟨fun heq => ?_, fun hmem => absurd (hl signo hmem) hlt⟩
  cases heq

theorem perrorSignals_iff (signo : Nat) :
    kmSigismember perrorSignals signo ↔ signo ∈ programErrors :=
  kmSigismember_of_lt (by decide) (by decide) signo

theorem ignBlockSignals_iff (signo : Nat) :
    kmSigismember ignBlockSignals signo ↔ signo ∈ faultSignals :=
  kmSigismember_of_lt (by decide) (by decide) signo

/-! ## Eligible signals -/

def Eligible (mask : SigSet) (info : SigInfo) : Prop :=
  mask.getLsbD (info.signo - 1) = false ∨ (info.signo ∈ faultSignals ∧ info.code = siKernel)

theorem isBlocked_eq_false : isBlocked mask info = false ↔ Eligible mask info := by
  rw [isBlocked, kmSigismember_eq, Eligible, ← ignBlockSignals_iff, kmSigindex]
  generalize mask.getLsbD (info.signo - 1) = b
  cases b <;> simp

theorem isBlocked_iff : isBlocked mask info ↔ ¬ Eligible mask info := by
  rw [← isBlocked_eq_false, Bool.not_eq_false]

theorem sigpri_of_mem (h : signo ∈ programErrors) : sigpri signo = 0 := by
  rw [sigpri, if_pos ((perrorSignals_iff signo).2 h)]

theorem sigpri_of_not_mem (h : signo ∉ programErrors) : sigpri signo = -(signo : Int) := by
  rw [sigpri, if_neg fun hmem => h ((perrorSignals_iff signo).1 hmem)]

/-! ## The loop -/

/-- The loop takes the first entry of the highest priority that is not blocked. -/
theorem chooseSignal_eq_argmax (s : SigState n) (mask : SigSet) (list : List Entry) :
    chooseSignal s mask list = (list.filter fun e => !isBlocked mask (s.entries e).info).argmax
        fun e => sigpri (s.entries e).info.signo := by
  rw [List.argmax, foldl_filter, chooseSignal]
  congr 1
  funext chosen sig
  cases hblocked : isBlocked mask (s.entries sig).info with
  | true => simp [preferSignal, hblocked]
  | false => cases chosen <;> simp [preferSignal, hblocked, List.argAux]

theorem chooseSignal_eq_none :
    chooseSignal s mask list = none ↔ ∀ e ∈ list, isBlocked mask (s.entries e).info := by
  rw [chooseSignal_eq_argmax, argmax_eq_none, filter_eq_nil_iff]
  simp

theorem chooseSignal_eq_some (h : chooseSignal s mask list = some e) :
    isBlocked mask (s.entries e).info = false ∧
      (∀ x ∈ list, isBlocked mask (s.entries x).info = false →
        sigpri (s.entries x).info.signo ≤ sigpri (s.entries e).info.signo) ∧
      ∃ xs ys, list = xs ++ e :: ys ∧ e ∉ xs ∧ ∀ x ∈ xs, isBlocked mask (s.entries x).info = false →
        sigpri (s.entries x).info.signo < sigpri (s.entries e).info.signo := by
  rw [chooseSignal_eq_argmax] at h
  obtain ⟨hmem, hmax, hfirst⟩ := mem_argmax_iff.1 h
  obtain ⟨hlist, hopen⟩ := mem_filter.1 hmem
  have hle : ∀ x ∈ list, isBlocked mask (s.entries x).info = false →
      sigpri (s.entries x).info.signo ≤ sigpri (s.entries e).info.signo := fun x hx hx' =>
    hmax x (mem_filter.2 ⟨hx, by rw [hx']; rfl⟩)
  refine ⟨by simpa using hopen, hle, ?_⟩
  obtain ⟨xs, ys, rfl, hout⟩ := eq_append_cons_of_mem hlist
  refine ⟨xs, ys, rfl, hout, fun x hx hx' => lt_of_le_of_ne (hle x (mem_append_left _ hx) hx') ?_⟩
  intro heq
  -- an equal one before `e` would stand before it among the unblocked ones, too
  have hfx : x ∈ xs.filter fun e => !isBlocked mask (s.entries e).info :=
    mem_filter.2 ⟨hx, by rw [hx']; rfl⟩
  have hidx := hfirst x (mem_filter.2 ⟨mem_append_left _ hx, by rw [hx']; rfl⟩) heq.ge
  rw [filter_append, idxOf_append_of_mem hfx,
    idxOf_append_of_notMem fun hmem => hout (mem_filter.1 hmem).1] at hidx
  have := idxOf_lt_length_of_mem hfx
  omega

/-! ## The choice -/

/-- Equal for the choice: one number, or two program errors. -/
def SamePriority (signo signo' : Nat) : Prop :=
  signo = signo' ∨ (signo ∈ programErrors ∧ signo' ∈ programErrors)

/-- Of the list `xs ++ e :: ys`, the entry `e` has to be handed out. -/
structure Chosen (s : SigState n) (mask : SigSet) (xs : List Entry) (e : Entry) (ys : List Entry) :
    Prop where
  eligible : Eligible mask (s.entries e).info
  /-- Program errors come first. -/
  perror : (∃ x ∈ xs ++ e :: ys, Eligible mask (s.entries x).info ∧
    (s.entries x).info.signo ∈ programErrors) → (s.entries e).info.signo ∈ programErrors
  least : (¬ ∃ x ∈ xs ++ e :: ys, Eligible mask (s.entries x).info ∧
    (s.entries x).info.signo ∈ programErrors) → ∀ x ∈ xs ++ e :: ys,
      Eligible mask (s.entries x).info → (s.entries e).info.signo ≤ (s.entries x).info.signo
  first : ∀ x ∈ xs, Eligible mask (s.entries x).info →
    ¬ SamePriority (s.entries x).info.signo (s.entries e).info.signo

theorem chosen_of_chooseSignal (hsig : ∀ x ∈ list, 1 ≤ (s.entries x).info.signo)
    (h : chooseSignal s mask list = some e) :
    ∃ xs ys, list = xs ++ e :: ys ∧ e ∉ xs ∧ Chosen s mask xs e ys := by
  obtain ⟨hopen, hle, xs, ys, rfl, hout, hlt⟩ := chooseSignal_eq_some h
  simp only [isBlocked_eq_false] at hopen hle hlt
  have he := hsig e (mem_append_right _ (.head _))
  refine ⟨xs, ys, rfl, hout, hopen, ?_, fun hno x hx hx' => ?_, fun x hx hx' hsame => ?_⟩
  · rintro ⟨x, hx, hx', herr⟩
    by_contra hne
    have hpri := hle x hx hx'
    rw [sigpri_of_mem herr, sigpri_of_not_mem hne] at hpri
    omega
  · have hpri := hle x hx hx'
    have hnot : ∀ y ∈ xs ++ e :: ys, Eligible mask (s.entries y).info →
        (s.entries y).info.signo ∉ programErrors := fun y hy hy' herr => hno ⟨y, hy, hy', herr⟩
    rw [sigpri_of_not_mem (hnot x hx hx'),
      sigpri_of_not_mem (hnot e (mem_append_right _ (.head _)) hopen)] at hpri
    omega
  have hpri := hlt x hx hx'
  rcases hsame with heq | ⟨hx, he⟩
  · rw [heq] at hpri
    exact lt_irrefl _ hpri
  rw [sigpri_of_mem hx, sigpri_of_mem he] at hpri
  exact lt_irrefl _ hpri

/-! ## The two lists -/

/-- What a dequeue does to the lists: `e` goes from `slist` to the free list. -/
structure Removed (s : SigState n) (slist : Place n) (xs : List Entry) (e : Entry) (ys : List Entry)
    (s' : SigState n) : Prop where
  before : s.lists slist = xs ++ e :: ys
  after : s'.lists slist = xs ++ ys
  free : s'.lists .free = s.lists .free ++ [e]
  others : ∀ r, r ≠ slist → r ≠ .free → s'.lists r = s.lists r
  entries : s'.entries = s.entries

theorem removed_of_move (hslist : slist ≠ .free) {xs ys : List Entry}
    (hxs : s.lists slist = xs ++ e :: ys) (hout : e ∉ xs) {s' : SigState n}
    (hlists : s'.lists = move s.lists slist .free e) (hentries : s'.entries = s.entries) :
    Removed s slist xs e ys s' where
  before := hxs
  after := by
    rw [hlists, move_apply hslist, if_neg hslist, if_pos rfl, hxs, erase_append_right _ hout,
      erase_cons_head]
  free := by rw [hlists, move_apply hslist, if_pos rfl]
  others r hr hfree := by rw [hlists, move_apply hslist, if_neg hfree, if_neg hr]
  entries := hentries

theorem dequeueSignal_none (h : ∀ e ∈ s.lists slist, ¬ Eligible mask (s.entries e).info) :
    dequeueSignal s slist mask = (s, none) := by
  have hnone : chooseSignal s mask (s.lists slist) = none :=
    chooseSignal_eq_none.2 fun e he => isBlocked_iff.2 (h e he)
  rw [dequeueSignal, hnone]

theorem dequeueSignal_some (he : e ∈ s.lists slist) (hopen : Eligible mask (s.entries e).info) :
    ∃ c, chooseSignal s mask (s.lists slist) = some c ∧ dequeueSignal s slist mask =
      ({ s with lists := move s.lists slist .free c }, some (s.entries c)) := by
  cases hc : chooseSignal s mask (s.lists slist) with
  | none => exact absurd hopen (isBlocked_iff.1 (chooseSignal_eq_none.1 hc e he))
  | some c => exact ⟨c, rfl, by rw [dequeueSignal, hc]⟩

/-- The list that the signal comes from: the thread's own whenever that has one. -/
def Source (s : SigState n) (v : Fin n) (slist : Place n) : Prop :=
  slist = .thread v ∨
    (slist = .process ∧ ∀ e ∈ s.lists (.thread v), ¬ Eligible (s.vcpus v).sigmask (s.entries e).info)

/-- The two outcomes of `km_dequeue_signal`. -/
theorem kmDequeueSignalNolock_cases (s : SigState n) (v : Fin n) :
    ((∀ slist, slist = .thread v ∨ slist = .process → ∀ e ∈ s.lists slist,
        ¬ Eligible (s.vcpus v).sigmask (s.entries e).info) ∧
      kmDequeueSignalNolock s v = (s, none)) ∨
    ∃ slist c, Source s v slist ∧ chooseSignal s (s.vcpus v).sigmask (s.lists slist) = some c ∧
      kmDequeueSignalNolock s v = ({ s with
        lists := move s.lists slist .free c
        handed := (v, (s.entries c).post) :: s.handed }, some (s.entries c)) := by
  by_cases hown : ∃ e ∈ s.lists (.thread v), Eligible (s.vcpus v).sigmask (s.entries e).info
  · rcases hown with ⟨e, he, hopen⟩
    obtain ⟨c, hc, hdeq⟩ := dequeueSignal_some he hopen
    refine .inr ⟨.thread v, c, .inl rfl, hc, ?_⟩
    simp only [kmDequeueSignalNolock, hdeq]
  have hown : ∀ e ∈ s.lists (.thread v), ¬ Eligible (s.vcpus v).sigmask (s.entries e).info :=
    fun e he hopen => hown ⟨e, he, hopen⟩
  have hfirst := dequeueSignal_none hown
  by_cases hproc : ∃ e ∈ s.lists .process, Eligible (s.vcpus v).sigmask (s.entries e).info
  · rcases hproc with ⟨e, he, hopen⟩
    obtain ⟨c, hc, hdeq⟩ := dequeueSignal_some he hopen
    refine .inr ⟨.process, c, .inr ⟨rfl, hown⟩, hc, ?_⟩
    simp only [kmDequeueSignalNolock, hfirst, hdeq]
  have hproc : ∀ e ∈ s.lists .process, ¬ Eligible (s.vcpus v).sigmask (s.entries e).info :=
    fun e he hopen => hproc ⟨e, he, hopen⟩
  refine .inl ⟨?_, ?_⟩
  · rintro slist (rfl | rfl)
    · exact hown
    · exact hproc
  · simp only [kmDequeueSignalNolock, hfirst, dequeueSignal_none hproc]

/-- `km_dequeue_signal` hands out a signal whenever one is eligible, the one that `Chosen` names,
from the thread's own list if possible, and leaves the rest in place. -/
theorem km_dequeue_signal_selects (s : SigState n) (v : Fin n)
    (hsig : ∀ slist, slist = .thread v ∨ slist = .process → ∀ e ∈ s.lists slist,
      1 ≤ (s.entries e).info.signo) : ((kmDequeueSignalNolock s v).2.isSome ↔
      ∃ slist, (slist = .thread v ∨ slist = .process) ∧
        ∃ e ∈ s.lists slist, Eligible (s.vcpus v).sigmask (s.entries e).info) ∧
    ((kmDequeueSignalNolock s v).2 = none → (kmDequeueSignalNolock s v).1 = s) ∧
    ∀ posted, (kmDequeueSignalNolock s v).2 = some posted →
      ∃ slist xs e ys, Source s v slist ∧ posted = s.entries e ∧
        Chosen s (s.vcpus v).sigmask xs e ys ∧
        Removed s slist xs e ys (kmDequeueSignalNolock s v).1 := by
  rcases kmDequeueSignalNolock_cases s v with ⟨hnone, heq⟩ | ⟨slist, c, hsource, hc, heq⟩
  · rw [heq]
    refine ⟨⟨fun h => ?_, ?_⟩, fun _ => rfl, fun posted h => ?_⟩
    · cases h
    · rintro ⟨slist, hslist, e, he, hopen⟩
      exact absurd hopen (hnone slist hslist e he)
    · cases h
  have hslist : slist = .thread v ∨ slist = .process := hsource.imp_right And.left
  have hfree : slist ≠ .free := by rcases hslist with rfl | rfl <;> exact fun h => nomatch h
  obtain ⟨xs, ys, hxs, hout, hchosen⟩ := chosen_of_chooseSignal (hsig slist hslist) hc
  have hmem : c ∈ s.lists slist := by
    rw [hxs]
    exact mem_append_right _ (.head _)
  rw [heq]
  refine ⟨⟨fun _ => ⟨slist, hslist, c, hmem, hchosen.eligible⟩, fun _ => rfl⟩, fun h => ?_,
    fun posted h => ?_⟩
  · cases h
  cases h
  exact ⟨slist, xs, c, ys, hsource, rfl, hchosen, removed_of_move hfree hxs hout rfl rfl⟩

/-- Signals 10 and 11 are pending for the only thread, in this order. -/
def twoPending : SigState 1 :=
  evaluate (runCalls step (SigState.init fun _ => 0)
    [.post (some 0) (killInfo 10), .postStep 0, .postStep 0, .postStep 0,
      .post (some 0) (killInfo 11), .postStep 1, .postStep 1, .postStep 1])

theorem km_dequeue_signal_selects_two :
    ∃ slist xs e ys, Source twoPending 0 slist ∧ Chosen twoPending 0 xs e ys ∧
      Removed twoPending slist xs e ys (kmDequeueSignalNolock twoPending 0).1 := by
  have hsig : ∀ slist, slist = .thread 0 ∨ slist = .process → ∀ e ∈ twoPending.lists slist,
      1 ≤ (twoPending.entries e).info.signo := by
    rintro slist (rfl | rfl) <;> decide +kernel
  have hsome : (kmDequeueSignalNolock twoPending 0).2.isSome := by decide +kernel
  obtain ⟨posted, hposted⟩ := Option.isSome_iff_exists.1 hsome
  obtain ⟨slist, xs, e, ys, hsource, -, hchosen, hremoved⟩ :=
    (km_dequeue_signal_selects twoPending 0 hsig).2.2 posted hposted
  exact ⟨slist, xs, e, ys, hsource, hchosen, hremoved⟩

end KontainMonitor.Signal
