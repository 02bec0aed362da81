import KontainMonitor.Files.EpollMirror
import KontainMonitor.Files.Partners

/-!
# DupGroups — `dup_data` over whole runs

A run is traced by labels: a number that comes into use gets a label that was never given before, and
a duplicate takes over the label of the descriptor it was made from.  The groups of `dup_data` are the
classes of equal labels among the descriptors in use.
-/

namespace KontainMonitor.Files

open List Outcome Transition

/-! ## Lists of groups -/

def Together (dups : List (List Nat)) (a b : Nat) : Prop := ∃ g ∈ dups, a ∈ g ∧ b ∈ g

/-- No number is in two groups or twice in one, and no group is smaller than two. -/
structure Groups (dups : List (List Nat)) : Prop where
  nodup : dups.flatten.Nodup
  two : ∀ g ∈ dups, 2 ≤ g.length

variable {dups rest : List (List Nat)} {g : List Nat} {a b fd new old : Nat}

theorem Together.mem (h : Together dups a b) : a ∈ dups.flatten ∧ b ∈ dups.flatten := by
  rcases h with ⟨g, hg, ha, hb⟩
  exact ⟨mem_flatten.2 ⟨g, hg, ha⟩, mem_flatten.2 ⟨g, hg, hb⟩⟩

theorem together_cons : Together (g :: rest) a b ↔ (a ∈ g ∧ b ∈ g) ∨ Together rest a b := by
  simp [Together]

theorem Groups.cons (h : Groups (g :: rest)) :
    Groups rest ∧ g.Nodup ∧ 2 ≤ g.length ∧ ∀ i ∈ g, i ∉ rest.flatten := by
  have hnd := h.nodup
  rw [flatten_cons, nodup_append] at hnd
  exact ⟨⟨hnd.2.1, fun g' hg' => h.two g' (.tail _ hg')⟩, hnd.1,
    h.two g (.head _), fun i hi hi' => hnd.2.2 i hi i hi' rfl⟩

theorem closeInGroups_sublist (fd : Nat) (dups : List (List Nat)) :
    (closeInGroups fd dups).flatten.Sublist dups.flatten := by
  induction dups with
  | nil => exact List.Sublist.refl _
  | cons g rest ih =>
    unfold closeInGroups
    split
    · split
      · exact erase_sublist.append (List.Sublist.refl _)
      · exact sublist_append_right _ _
    · exact (List.Sublist.refl _).append ih

theorem Groups.close (h : Groups dups) (fd : Nat) :
    Groups (closeInGroups fd dups) ∧ fd ∉ (closeInGroups fd dups).flatten ∧
      ∀ a b, a ≠ b → (Together (closeInGroups fd dups) a b ↔ Together dups a b ∧ a ≠ fd ∧ b ≠ fd) := by
  induction dups with
  | nil => exact ⟨h, by simp [closeInGroups], by simp [closeInGroups, Together]⟩
  | cons g rest ih =>
    rcases h.cons with ⟨hrest, hnd, htwo, hdisj⟩
    rcases ih hrest with ⟨hgroups, hout, hsame⟩
    have hnodup := h.nodup.sublist (closeInGroups_sublist fd (g :: rest))
    unfold closeInGroups at hnodup ⊢
    by_cases hg : fd ∈ g
    · -- no other group has the number
      have hother : ∀ {a b}, Together rest a b → a ≠ fd ∧ b ≠ fd := by
        intro a b hab
        exact ⟨fun heq => hdisj fd hg (heq ▸ hab.mem.1), fun heq => hdisj fd hg (heq ▸ hab.mem.2)⟩
      have hlen := length_erase_of_mem hg
      rw [if_pos (by simpa using hg)] at hnodup ⊢
      split
      · rw [if_pos ‹_›] at hnodup
        refine ⟨⟨hnodup, fun g' hg' => ?_⟩, ?_, fun a b _ => ?_⟩
        · rcases mem_cons.1 hg' with rfl | hg'
          · omega
          · exact hrest.two g' hg'
        · simpa [hnd.mem_erase_iff] using hdisj fd hg
        rw [together_cons, together_cons, hnd.mem_erase_iff, hnd.mem_erase_iff]
        grind
      refine ⟨hrest, hdisj fd hg, fun a b hab => ?_⟩
      rw [together_cons]
      refine ⟨fun hr => ⟨.inr hr, hother hr⟩, fun ⟨hr, ha, hb⟩ => hr.resolve_left ?_⟩
      -- a group of two has no third member
      rintro ⟨hag, hbg⟩
      rcases length_eq_one_iff.1 (by omega : (g.erase fd).length = 1) with ⟨x, hx⟩
      have hax := (hnd.mem_erase_iff).2 ⟨ha, hag⟩
      have hbx := (hnd.mem_erase_iff).2 ⟨hb, hbg⟩
      rw [hx, mem_singleton] at hax hbx
      exact hab (hax.trans hbx.symm)
    rw [if_neg (by simpa using hg)] at hnodup ⊢
    refine ⟨⟨hnodup, fun g' hg' => ?_⟩, ?_, fun a b hab => ?_⟩
    · rcases mem_cons.1 hg' with rfl | hg'
      · exact htwo
      · exact hgroups.two g' hg'
    · simpa [hg] using hout
    rw [together_cons, together_cons, hsame a b hab]
    grind

theorem Groups.add (h : Groups dups) (hnew : new ∉ dups.flatten) (hne : old ≠ new) :
    Groups (addToGroup new old dups) ∧
      (∀ i ∈ (addToGroup new old dups).flatten, i = new ∨ i = old ∨ i ∈ dups.flatten) ∧
      ∀ a b, a ≠ b → (Together (addToGroup new old dups) a b ↔ Together dups a b ∨
        (a = new ∧ (b = old ∨ Together dups old b)) ∨ (b = new ∧ (a = old ∨ Together dups old a))) := by
  induction dups with
  | nil =>
    refine ⟨⟨by simp [addToGroup, hne], by simp [addToGroup]⟩, by simp [addToGroup, or_comm], ?_⟩
    intro a b hab
    simp only [addToGroup, Together, mem_cons, not_mem_nil]
    grind
  | cons g rest ih =>
    rcases h.cons with ⟨hrest, hnd, htwo, hdisj⟩
    rw [flatten_cons, mem_append, not_or] at hnew
    unfold addToGroup
    by_cases hg : old ∈ g
    · rw [if_pos (by simpa using hg)]
      have hperm : ((g ++ [new]) :: rest).flatten.Perm (new :: (g :: rest).flatten) := by
        simp only [flatten_cons, append_assoc, singleton_append]
        exact perm_middle
      refine ⟨⟨?_, fun g' hg' => ?_⟩, fun i hi => ?_, fun a b hab => ?_⟩
      · rw [hperm.nodup_iff, nodup_cons]
        exact ⟨by simpa using hnew, h.nodup⟩
      · rcases mem_cons.1 hg' with rfl | hg'
        · simp
          omega
        · exact hrest.two g' hg'
      · exact (mem_cons.1 (hperm.mem_iff.1 hi)).imp_right .inr
      have hold : ∀ {b}, ¬ Together rest old b := fun hb => hdisj old hg hb.mem.1
      simp only [together_cons, mem_append, mem_singleton, hold]
      grind
    rw [if_neg (by simpa using hg)]
    rcases ih hrest hnew.2 with ⟨hgroups, hmem, hsame⟩
    refine ⟨⟨?_, fun g' hg' => ?_⟩, fun i hi => ?_, fun a b hab => ?_⟩
    · rw [flatten_cons, nodup_append]
      refine ⟨hnd, hgroups.nodup, fun i hi j hj heq => ?_⟩
      subst heq
      rcases hmem i hj with rfl | rfl | hj
      · exact hnew.1 hi
      · exact hg hi
      · exact hdisj i hi hj
    · rcases mem_cons.1 hg' with rfl | hg'
      · exact htwo
      · exact hgroups.two g' hg'
    · rw [flatten_cons, mem_append] at hi ⊢
      rcases hi with hi | hi
      · exact .inr (.inr (.inl hi))
      · exact (hmem i hi).imp_right (Or.imp_right .inr)
    simp only [together_cons, hsame a b hab, hg, false_and, false_or]
    grind

/-! ## Calls -/

variable {s s' u : Fs} {flags : Nat} {name : Option Name} {how : How} {ops : Option Nat}
variable {r : Int} {c : Call} {t t' : Traced} {n : Nat}

/-- `new` became a duplicate of `old`; an entry that it had was closed. -/
structure Doubled (old new : Nat) (s s' : Fs) : Prop where
  ne : old ≠ new
  used : (s.files old).inuse
  recovery : s'.recovery = s.recovery
  dups : s'.dups =
    addToGroup new old (if (s.files new).inuse then closeInGroups new s.dups else s.dups)
  inuse : ∀ i, (s'.files i).inuse ↔ i = new ∨ (s.files i).inuse

abbrev Duplicates (s : Fs) (fd : Int) (r : Int × Fs) : Prop :=
  (r.2 = s ∧ (r.1 < 0 ∨ r.1 = fd)) ∨
    ∃ old new : Nat, fd = old ∧ r.1 = new ∧ Doubled old new s r.2

/-- `new` came into use, and nothing else of the groups or entries changed. -/
def Grown (new : Nat) (u t : Fs) : Prop :=
  (u.files new).inuse = false ∧ t.dups = u.dups ∧ t.recovery = u.recovery ∧
    ∀ i, (t.files i).inuse ↔ i = new ∨ (u.files i).inuse

theorem addDuplicate_grown : Ends (Grown new u) (addDuplicate u new old name flags how ops) := by
  have hadd : ∀ how ops, Ends (Grown new u) (kmAddGuestFdInternal u new name flags how ops) := by
    intro how ops
    cases hadd : kmAddGuestFdInternal u new name flags how ops with
    | error e => trivial
    | ok t =>
      rcases kmAddGuestFdInternal_ok hadd with ⟨-, hfree, file, rfl, hin, -, -, -⟩
      refine ⟨hfree, rfl, rfl, fun i => ?_⟩
      by_cases hi : i = new
      · simp [Fs.setFile, hi, hin]
      · simp [Fs.setFile, hi]
  unfold addDuplicate
  split
  · refine Holds.bind (hadd _ _) fun t ht => ⟨ht.1, ht.2.1, ht.2.2.1, fun i => ?_⟩
    rw [← ht.2.2.2 i]
    by_cases hi : i = new
    · simp [Fs.setSockinfo, Fs.setFile, hi]
    · simp [Fs.setSockinfo, Fs.setFile, hi]
  · exact hadd _ _

/-- The last part of the calls that duplicate, from a state in which the new number is free. -/
theorem duplicates_added {fd : Int} (hrec : s.recovery = false) (hold : s.Uses old) (hfd : fd = old)
    (hr : r = new) (host : Host)
    (hfreed : (u.files new).inuse = false → old ≠ new ∧ Freed { s with host := host } new u) :
    Holds (fun _ => True) (Duplicates s fd) (do
      let s ← addDuplicate u new old name flags how ops
      return (r, kmFsAddToDupData s new old)) := by
  refine Holds.bind addDuplicate_grown ?_
  rintro t ⟨hfree, hdups, hrec', hin⟩
  rcases hfreed hfree with ⟨hne, hf⟩
  have hnot : t.recovery = false := hrec'.trans (hf.recovery.trans hrec)
  refine .inr ⟨old, new, hfd, hr, ?_⟩
  show Doubled old new s (kmFsAddToDupData t new old)
  rw [kmFsAddToDupData, if_neg (by simp [hnot])]
  refine ⟨hne, hold.2, hrec'.trans hf.recovery, by rw [hdups, hf.dups], fun i => ?_⟩
  rw [hin i]
  by_cases hi : i = new
  · simp [hi]
  rcases hf.other i hi with ⟨o, ho⟩
  rw [ho]

theorem call_duplicates (hrec : s.recovery = false) (herr : ∀ i, (s.files i).error = 0) {fd : Int}
    (hc : c.source = some fd) : Holds (fun _ => True) (Duplicates s fd) (s.call c) := by
  have hfail : ∀ e : Errno, Duplicates s fd (e.ret, s) := fun e => .inl ⟨rfl, .inl e.ret_neg⟩
  -- `dup` and `fcntl`: the kernel chooses a number, and an entry that is in use ends the monitor
  have hchosen : ∀ {old new : Nat} {host : Host} {name flags how ops}, kmFsG2hFd s fd = some old →
      Holds (fun _ => True) (Duplicates s fd) (do
        let s ← addDuplicate { s with host := host } new old name flags how ops
        return ((new : Int), kmFsAddToDupData s new old)) := by
    intro old new host name flags how ops hg
    rcases kmFsG2hFd_some hg with ⟨huses, hold⟩
    refine duplicates_added hrec huses hold rfl host fun hfree => ⟨?_, ?_⟩
    · rintro rfl
      cases hfree.symm.trans huses.2
    exact ⟨rfl, rfl, rfl, by simp [show (s.files new).inuse = false from hfree], rfl,
      fun i _ => ⟨_, rfl⟩⟩
  have hdup3 : ∀ newfd flags, Holds (fun _ => True) (Duplicates s fd)
      (kmFsDup3 s fd newfd flags) := by
    intro newfd flags
    unfold kmFsDup3
    split
    · exact hfail _
    split
    · exact hfail _
    split
    · exact hfail _
    cases hg : kmFsG2hFd s fd with
    | none => exact hfail _
    | some old =>
      rcases kmFsG2hFd_some hg with ⟨huses, hold⟩
      dsimp only
      rw [if_neg (by simp [herr old])]
      split
      · trivial
      split
      · exact hfail _
      exact Holds.bind (delIfUsed_freed _ _) fun u hu =>
        duplicates_added hrec huses hold (by omega) _ fun _ => ⟨by omega, hu⟩
  cases c with
  | dup _ =>
    cases hc
    simp only [Fs.call, kmFsDup]
    cases hg : kmFsG2hFd s fd with
    | none => exact hfail _
    | some old =>
      dsimp only
      rw [if_neg (by simp [herr old])]
      split
      · trivial
      split
      · exact hfail _
      · exact hchosen hg
  | dup2 _ newfd =>
    cases hc
    simp only [Fs.call, kmFsDup2]
    split
    · exact .inl ⟨rfl, .inr rfl⟩
    · exact hdup3 newfd 0
  | dup3 _ newfd flags =>
    cases hc
    exact hdup3 newfd flags
  | fcntlDup _ lo cloexec =>
    cases hc
    simp only [Fs.call, kmFsFcntlDup]
    cases hg : kmFsG2hFd s fd with
    | none => exact hfail _
    | some old =>
      dsimp only
      rw [if_neg (by simp [herr old])]
      split
      · exact hfail _
      · exact hchosen hg
  | _ => cases hc

/-- `close` takes a number out of its group and out of use. -/
theorem close_groups {fd : Int} (h : s.call (.close fd) = .ok (r, s')) :
    s' = s ∨ ∃ m : Nat, s'.recovery = s.recovery ∧ s'.dups = closeInGroups m s.dups ∧
      ∀ i, (s'.files i).inuse ↔ i ≠ m ∧ (s.files i).inuse := by
  suffices hclose : Holds (fun _ => True) (fun r => r.2 = s ∨ ∃ m : Nat, r.2.recovery = s.recovery ∧
      r.2.dups = closeInGroups m s.dups ∧
        ∀ i, (r.2.files i).inuse ↔ i ≠ m ∧ (s.files i).inuse) (kmFsClose s fd) from
    hclose.of_ok h
  unfold kmFsClose
  split
  · exact .inl rfl
  rename_i m _
  refine Holds.bind (((delGuestFd_spec s m).weaken fun _ _ => trivial).and (delGuestFd_dups s m)) ?_
  rintro t ⟨hd, hdups⟩
  have hinuse : ∀ i, (t.files i).inuse ↔ i ≠ m ∧ (s.files i).inuse := by
    intro i
    by_cases hi : i = m
    · simp [hi, hd.inuse]
    rcases hd.other i hi with ⟨o, ho⟩
    simp [hi, ho]
  split
  · exact .inr ⟨m, hd.recovery, hdups, hinuse⟩
  · exact .inr ⟨m, hd.recovery, hdups, hinuse⟩

/-- The calls that neither duplicate nor close add entries and leave the groups alone. -/
theorem call_adds (hc : c.source = none) (hclose : ∀ fd, c ≠ .close fd)
    (h : s.call c = .ok (r, s')) : s'.recovery = s.recovery ∧ s'.dups = s.dups ∧
      ∀ i, (s.files i).inuse → (s'.files i).inuse := by
  have hset : ∀ {t : Fs} (fd : Nat) (file : KmFile), ((t.files fd).inuse → file.inuse) →
      ∀ i, (t.files i).inuse → ((t.setFile fd file).files i).inuse := by
    intro t fd file hfile i hi
    by_cases heq : i = fd
    · subst heq
      simpa [Fs.setFile] using hfile hi
    · simpa [Fs.setFile, heq] using hi
  have hI : Stable fun t => t.recovery = s.recovery ∧ t.dups = s.dups ∧
      ∀ i, (s.files i).inuse → (t.files i).inuse := by
    refine ⟨⟨fun _ _ _ h => h⟩, fun h hadd => ?_, fun fd _ _ h => ⟨h.1, h.2.1, fun i hi => ?_⟩,
      fun h _ _ => ⟨h.1, h.2.1, fun i hi => ?_⟩⟩
    · rcases kmAddGuestFdInternal_ok hadd with ⟨-, -, file, rfl, hin, -, -, -⟩
      exact ⟨h.1, h.2.1, fun i hi => hset _ _ (fun _ => hin) i (h.2.2 i hi)⟩
    · apply hset fd _ _ i (h.2.2 i hi)
      exact fun hin => hin
    apply hset _ _ _ i (hset _ _ _ i (h.2.2 i hi))
    · exact fun hin => hin
    · exact fun hin => hin
  exact (hI.call ⟨rfl, rfl, fun _ hi => hi⟩ hc hclose).of_ok h

/-! ## Runs -/

/-- A process and the labels of its descriptors; `time` is later than every label. -/
structure Traced where
  fs : Fs
  label : Nat → Nat × Nat
  time : Nat

/-- The labels after a call that returned `r`: a duplicate has the label of its source, another
number that came into use a new one. -/
def Traced.relabel (t : Traced) (c : Call) (r : Int) (s' : Fs) (i : Nat) : Nat × Nat :=
  match c.source with
  | some old => if r = i then t.label old.toNat else t.label i
  | none => if (s'.files i).inuse && !(t.fs.files i).inuse then (t.time, i) else t.label i

def tracedSystem (n : Nat) : System Traced Call where
  init t := (callSystem n).init t.fs ∧ t.time = 1 ∧ t.label = fun i => (0, i)
  step t c t' := ∃ r, t.fs.call c = .ok (r, t'.fs) ∧ t'.time = t.time + 1 ∧
    t'.label = t.relabel c r t'.fs

/-- The groups are the classes of the labels among the descriptors in use. -/
structure Tracked (t : Traced) : Prop where
  recovery : t.fs.recovery = false
  error : ∀ i, (t.fs.files i).error = 0
  groups : Groups t.fs.dups
  members : ∀ i ∈ t.fs.dups.flatten, (t.fs.files i).inuse
  older : ∀ i, (t.label i).1 < t.time
  same : ∀ a b, (t.fs.files a).inuse → (t.fs.files b).inuse → a ≠ b →
    (Together t.fs.dups a b ↔ t.label a = t.label b)

theorem Tracked.unchanged (h : Tracked t) (hfs : t'.fs = t.fs) (hlabel : t'.label = t.label)
    (htime : t'.time = t.time + 1) : Tracked t' := by
  rcases h with ⟨hrec, herr, hg, hm, hold, hsame⟩
  refine ⟨hfs ▸ hrec, hfs ▸ herr, hfs ▸ hg, hfs ▸ hm, fun i => ?_, hfs ▸ hlabel ▸ hsame⟩
  rw [hlabel, htime]
  exact Nat.lt_succ_of_lt (hold i)

/-- A new duplicate joins the class of its source. -/
theorem Tracked.doubled (h : Tracked t) (hd : Doubled old new t.fs t'.fs)
    (herr : ∀ i, (t'.fs.files i).error = 0) (htime : t'.time = t.time + 1)
    (hlabel : ∀ i, t'.label i = if i = new then t.label old else t.label i) : Tracked t' := by
  have hclosed : ∃ D, t'.fs.dups = addToGroup new old D ∧ Groups D ∧ new ∉ D.flatten ∧
      (∀ i ∈ D.flatten, i ∈ t.fs.dups.flatten) ∧
        ∀ a b, a ≠ b → (Together D a b ↔ Together t.fs.dups a b ∧ a ≠ new ∧ b ≠ new) := by
    refine ⟨_, hd.dups, ?_⟩
    split
    · rcases h.groups.close new with ⟨hg, hout, hsame⟩
      exact ⟨hg, hout, fun i hi => (closeInGroups_sublist new _).subset hi, hsame⟩
    have hout : new ∉ t.fs.dups.flatten := fun hin => ‹¬ _› (h.members new hin)
    refine ⟨h.groups, hout, fun _ hi => hi, fun a b _ => (and_iff_left_of_imp fun hab => ?_).symm⟩
    exact ⟨fun heq => hout (heq ▸ hab.mem.1), fun heq => hout (heq ▸ hab.mem.2)⟩
  rcases hclosed with ⟨D, hdups, hD, hout, hsub, hsameD⟩
  rcases hD.add hout hd.ne with ⟨hgroups, hmem, hadd⟩
  refine ⟨hd.recovery.trans h.recovery, herr, hdups ▸ hgroups, fun i hi => ?_, fun i => ?_,
    fun a b ha hb hab => ?_⟩
  · rw [hd.inuse i]
    rcases hmem i (hdups ▸ hi) with hi | rfl | hi
    · exact .inl hi
    · exact .inr hd.used
    · exact .inr (h.members i (hsub i hi))
  · rw [hlabel i, htime]
    have := h.older
    grind
  rw [hd.inuse] at ha hb
  rw [hdups, hadd a b hab, hsameD a b hab, hlabel a, hlabel b]
  have hsame := h.same
  have hused := hd.used
  have hne := hd.ne
  grind

theorem Tracked.step (h : Tracked t) (hs : (tracedSystem n).step t c t') : Tracked t' := by
  rcases hs with ⟨r, hcall, htime, hlabel⟩
  have herr : ∀ i, (t'.fs.files i).error = 0 := fun i =>
    ((error_durable i).call (h.error i) c).of_ok hcall
  have hlabel' := fun i => congrFun hlabel i
  cases hsrc : c.source with
  | some fd =>
    simp only [Traced.relabel, hsrc] at hlabel'
    rcases (call_duplicates h.recovery h.error hsrc).of_ok hcall with
      ⟨hfs, hr⟩ | ⟨old, new, rfl, rfl, hd⟩
    · refine h.unchanged hfs (funext fun i => ?_) htime
      rw [hlabel' i]
      split
      · rw [show fd.toNat = i by omega]
      · rfl
    refine h.doubled hd herr htime fun i => ?_
    rw [hlabel' i]
    simp only [Int.ofNat_inj, Int.toNat_natCast, eq_comm]
  | none =>
    simp only [Traced.relabel, hsrc] at hlabel'
    by_cases hclose : ∃ fd, c = .close fd
    · rcases hclose with ⟨fd, rfl⟩
      rcases close_groups hcall with hfs | ⟨m, hrec, hdups, hin⟩
      · refine h.unchanged hfs (funext fun i => ?_) htime
        rw [hlabel' i, hfs]
        simp
      have hkeep : ∀ i, t'.label i = t.label i := by
        intro i
        rw [hlabel' i, if_neg]
        have := hin i
        grind
      rcases h.groups.close m with ⟨hg, hout, hsame⟩
      refine ⟨hrec.trans h.recovery, herr, hdups ▸ hg, fun i hi => ?_, fun i => ?_,
        fun a b ha hb hab => ?_⟩
      · rw [hdups] at hi
        exact (hin i).2 ⟨fun heq => hout (heq ▸ hi),
          h.members i ((closeInGroups_sublist m _).subset hi)⟩
      · rw [hkeep i, htime]
        exact Nat.lt_succ_of_lt (h.older i)
      rw [hin] at ha hb
      rw [hdups, hsame a b hab, hkeep a, hkeep b, h.same a b ha.2 hb.2 hab]
      exact and_iff_left ⟨ha.1, hb.1⟩
    rcases call_adds hsrc (fun fd hc => hclose ⟨fd, hc⟩) hcall with ⟨hrec, hdups, hmono⟩
    refine ⟨hrec.trans h.recovery, herr, hdups ▸ h.groups,
      fun i hi => hmono i (h.members i (hdups ▸ hi)), fun i => ?_, fun a b ha hb hab => ?_⟩
    · rw [hlabel' i, htime]
      have := h.older i
      split
      · exact Nat.lt_succ_self _
      · exact Nat.lt_succ_of_lt this
    -- a number that came into use is in no group, and its label is newer than the others
    have hnew : ∀ {a b}, (t.fs.files a).inuse = false ∨ (t.fs.files b).inuse = false →
        ¬ Together t.fs.dups a b := by
      intro a b hout hab
      have ha := h.members a hab.mem.1
      have hb := h.members b hab.mem.2
      rw [ha, hb] at hout
      simp at hout
    rw [hdups, hlabel' a, hlabel' b]
    have hsame := h.same a b
    have holda := h.older a
    have holdb := h.older b
    grind

/-- In every state of a run outside the recovery, the groups of `dup_data` are disjoint, have two or
more members, all in use, and two descriptors in use are in one group if and only if they come from
each other by duplications. -/
theorem dup_groups_are_classes (n : Nat) (t : Traced) (h : Reach (tracedSystem n) t) :
    t.fs.dups.Pairwise List.Disjoint ∧
      (∀ g ∈ t.fs.dups, g.Nodup ∧ 2 ≤ g.length ∧ ∀ i ∈ g, (t.fs.files i).inuse) ∧
        ∀ a b, (t.fs.files a).inuse → (t.fs.files b).inuse → a ≠ b →
          (Together t.fs.dups a b ↔ t.label a = t.label b) := by
  have htracked : Tracked t := by
    refine Reach.inv (I := Tracked) ?_ (fun _ _ _ ht hs => ht.step hs) h
    rintro t ⟨⟨timeout, host, -, -, hfs⟩, htime, hlabel⟩
    refine ⟨?_, fun i => ?_, ?_, ?_, fun i => ?_, fun a b _ _ hab => ?_⟩
    · rw [hfs]
      rfl
    · rw [hfs]
      exact kmFsInit_error n timeout [] host i
    · rw [hfs]
      exact ⟨nodup_nil, nofun⟩
    · rw [hfs]
      nofun
    · rw [hlabel, htime]
      exact Nat.zero_lt_one
    rw [hfs, hlabel]
    simp [Together, kmFsInit, hab]
  have hnd := nodup_flatten.1 htracked.groups.nodup
  exact ⟨hnd.2, fun g hg => ⟨hnd.1 g hg, htracked.groups.two g hg, fun i hi =>
    htracked.members i (mem_flatten.2 ⟨g, hg, hi⟩)⟩, htracked.same⟩

/-- What `dup(0)` returns in a fresh process, and the process after it. -/
def dupped : Int × Fs := evaluate ((kmFsInit 727 0 [] plainHost).call (.dup 0)).toOption

def dupTraced : Traced :=
  ⟨dupped.2, Traced.relabel ⟨kmFsInit 727 0 [] plainHost, fun i => (0, i), 1⟩ (.dup 0) dupped.1
    dupped.2, 2⟩

theorem dup_groups_are_classes_dup : dupTraced.fs.dups = [[0, 3]] ∧
    (Together dupTraced.fs.dups 0 3 ↔ dupTraced.label 0 = dupTraced.label 3) ∧
      dupTraced.label 0 = dupTraced.label 3 := by
  have hinit : Reach (tracedSystem 727) ⟨kmFsInit 727 0 [] plainHost, fun i => (0, i), 1⟩ :=
    Reach.init ⟨plainHost_init, rfl, rfl⟩
  have hcall : (kmFsInit 727 0 [] plainHost).call (.dup 0) = .ok dupped := eq_ok_of_toOption eq_eval
  have hreach : Reach (tracedSystem 727) dupTraced := by
    unfold dupTraced
    generalize dupped = r at hcall ⊢
    exact hinit.step ⟨r.1, hcall, rfl, rfl⟩
  refine ⟨by decide +kernel, ?_, by decide +kernel⟩
  exact (dup_groups_are_classes 727 dupTraced hreach).2.2 0 3 (by decide +kernel) (by decide +kernel)
    (by decide)

end KontainMonitor.Files
