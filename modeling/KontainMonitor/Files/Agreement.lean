import KontainMonitor.Files.Recover
import KontainMonitor.Files.Rules
import KontainMonitor.Lib.Transition

/-!
# Agreement — the table and the kernel

An entry of `guest_files` is in use exactly when the descriptor of that number is open.  The kernel and
the table change at different moments of a call, so the invariant `Agree` has a set of pending
descriptors, which are open and not in the table.  It holds without pending descriptors after every
call for which the kernel hands out numbers below `nfdmap`, and after the recovery of a snapshot.
-/

namespace KontainMonitor.Files

open Function Host List Outcome Transition

/-- `fd` is a listener that `light_snap_listen` opened before the recovery. -/
def Fs.waits (s : Fs) (fd : Nat) : Prop :=
  s.recovery ∧ ∃ l ∈ s.listeners, l.listenFd = fd

/-- The table has `n` entries and agrees with the kernel, up to the pending descriptors `P` and the
listeners `w` that wait for recovery. -/
structure Agree (n : Nat) (w P : Nat → Prop) (s : Fs) : Prop where
  nfd : s.nfdmap = n
  waits : ∀ fd, s.waits fd ↔ w fd
  room : n ≤ s.host.limit
  bound : ∀ fd, s.host.limit ≤ fd → s.host.fds fd = none
  used : ∀ fd, (s.files fd).inuse → fd < n ∧ s.host.fds fd ≠ none
  covered : ∀ fd, fd < n → s.host.fds fd ≠ none → (s.files fd).inuse ∨ P fd ∨ w fd
  pending : ∀ fd, P fd → s.host.fds fd ≠ none ∧ (s.files fd).inuse = false
  waiting : ∀ fd, w fd → s.host.fds fd ≠ none
  early : ∀ l ∈ s.listeners, ∀ a, l.acceptFd = some a → n ≤ a
  error : ∀ fd, (s.files fd).error ≤ 0

def Allowed (e : Abort) : Prop := e ≠ .hostFd ∧ e ≠ .slotOpen

def Host.Opens (h : Host) (lo fd : Nat) (h' : Host) : Prop :=
  h.lowest lo = some fd ∧ h'.limit = h.limit ∧ ∃ d, h'.fds = update h.fds fd (some d)

variable {h' host h0 : Host} {lo fd new flags fd0 fd1 k : Nat} {refuse : Option Errno}
variable {name : Option Name} {how : How} {ops : Option Nat}

section

variable {h : Host}

theorem Host.Opens.free (ho : h.Opens lo fd h') : h.free lo = fd :: h'.free lo := by
  rcases ho with ⟨hl, hlim, d, hfds⟩
  rcases lowest_some hl with ⟨rest, hrest⟩
  rw [free_of_taken hrest hlim hfds, hrest]

theorem Host.Opens.of_install {d : Desc} (hi : h.install d refuse = .ok (fd, h')) :
    h.Opens 0 fd h' := by
  rcases install_ok hi with ⟨hl, rfl⟩
  exact ⟨hl, rfl, h.fresh, rfl⟩

theorem Host.Opens.of_dupFrom (hd : h.dupFrom fd lo = .ok (new, h')) : h.Opens lo new h' := by
  rcases dupFrom_ok hd with ⟨d, -, hl, rfl⟩
  exact ⟨hl, rfl, d, rfl⟩

theorem Host.Opens.of_same (ho : h0.Opens lo fd h') (hfds : h0.fds = h.fds)
    (hlim : h0.limit = h.limit) : h.Opens lo fd h' := by
  rcases ho with ⟨hl, hlim', d, hfds'⟩
  refine ⟨?_, hlim'.trans hlim, d, hfds ▸ hfds'⟩
  rw [← hl, lowest, lowest, hfds, hlim]

theorem Host.Opens.of_openName {path : Name} {mode : Nat}
    (ho : h.openName path flags mode refuse = .ok (fd, h')) : h.Opens 0 fd h' := by
  rcases openName_ok ho with ⟨hl, ⟨_, -, -, rfl⟩ | ⟨_, -, rfl⟩⟩
  · exact ⟨hl, rfl, h.fresh, rfl⟩
  · exact ⟨hl, rfl, h.fresh, rfl⟩

theorem Host.Opens.of_pair {d0 d1 : Desc} (hi : h.installPair d0 d1 refuse = .ok ((fd0, fd1), h')) :
    ∃ h0, h.Opens 0 fd0 h0 ∧ h0.Opens 0 fd1 h' := by
  rcases installPair_ok hi with ⟨h0, hi0, hi1⟩
  exact ⟨h0, .of_install hi0, .of_install hi1⟩

theorem Host.Opens.of_pipe2 (hi : h.pipe2 flags refuse = .ok ((fd0, fd1), h')) :
    ∃ h0, h.Opens 0 fd0 h0 ∧ h0.Opens 0 fd1 h' := by
  unfold pipe2 at hi
  dsimp only at hi
  split at hi
  · cases hi
  rcases Opens.of_pair hi with ⟨h0, ho, ho'⟩
  exact ⟨h0, ho.of_same rfl rfl, ho'⟩

theorem Host.Opens.of_socketpair (hi : h.socketpair refuse = .ok ((fd0, fd1), h')) :
    ∃ h0, h.Opens 0 fd0 h0 ∧ h0.Opens 0 fd1 h' := by
  rcases Opens.of_pair hi with ⟨h0, ho, ho'⟩
  exact ⟨h0, ho.of_same rfl rfl, ho'⟩

end

/-! ## The invariant under the parts of a call -/

section

variable {n : Nat} {w P : Nat → Prop} {s : Fs}
variable {file : KmFile}

section

variable (h : Agree n w P s)
include h

/-- The invariant does not depend on the rest of the kernel's state. -/
theorem Agree.host_same (hfds : host.fds = s.host.fds) (hlim : host.limit = s.host.limit) :
    Agree n w P { s with host := host } where
  nfd := h.nfd
  waits := h.waits
  room := hlim ▸ h.room
  bound := by
    intro fd hfd
    exact (congrFun hfds fd).trans (h.bound fd (hlim ▸ hfd))
  used := by
    intro fd hfd
    exact hfds ▸ h.used fd hfd
  covered := by
    intro fd hfd hopen
    exact h.covered fd hfd (hfds ▸ hopen)
  pending := by
    intro fd hfd
    exact hfds ▸ h.pending fd hfd
  waiting := by
    intro fd hfd
    exact hfds ▸ h.waiting fd hfd
  early := h.early
  error := h.error

/-- Nor on what the entries say, as long as the same entries are in use. -/
theorem Agree.files_same {files : Nat → KmFile} (hin : ∀ fd, (files fd).inuse = (s.files fd).inuse)
    (herr : ∀ fd, (files fd).error ≤ 0) : Agree n w P { s with files := files } where
  nfd := h.nfd
  waits := h.waits
  room := h.room
  bound := h.bound
  used := by
    intro fd hfd
    exact h.used fd (hin fd ▸ hfd)
  covered := by
    intro fd hfd hopen
    exact (hin fd).symm ▸ h.covered fd hfd hopen
  pending := by
    intro fd hfd
    exact (hin fd).symm ▸ h.pending fd hfd
  waiting := h.waiting
  early := h.early
  error := herr

theorem Agree.setFile_same (hin : file.inuse = (s.files fd).inuse) (herr : file.error ≤ 0) :
    Agree n w P (s.setFile fd file) := by
  refine h.files_same (fun i => ?_) (fun i => ?_)
  · by_cases hi : i = fd
    · subst hi
      simpa using hin
    · simp [hi]
  by_cases hi : i = fd
  · subst hi
    simpa using herr
  · simpa [hi] using h.error i

theorem Agree.pend_iff {Q : Nat → Prop} (hPQ : ∀ fd, P fd ↔ Q fd) : Agree n w Q s := by
  have heq : P = Q := funext fun fd => propext (hPQ fd)
  exact heq ▸ h

/-- An open number without an entry may count as pending. -/
theorem Agree.mark (hopen : s.host.fds fd ≠ none) (hfree : (s.files fd).inuse = false) :
    Agree n w (fun i => P i ∨ i = fd) s :=
  { h with
    covered := fun i hi hio => (h.covered i hi hio).imp_right (Or.imp_left .inl)
    pending := by
      rintro i (hi | rfl)
      · exact h.pending i hi
      · exact ⟨hopen, hfree⟩ }

/-- A number that the kernel opens is pending, and was not in use. -/
theorem Agree.opens (ho : s.host.Opens lo fd host) :
    Agree n w (fun i => P i ∨ i = fd) { s with host := host } ∧ ¬ P fd ∧ ¬ w fd ∧
      (s.files fd).inuse = false := by
  rcases ho with ⟨hl, hlim, d, hfds⟩
  have hfree := mem_free.1 (lowest_mem hl)
  have hunused : (s.files fd).inuse = false := by
    by_contra hin
    exact (h.used fd (by simpa using hin)).2 hfree.2.2
  have hother : ∀ i, i ≠ fd → host.fds i = s.host.fds i := fun i hi => by simp [hfds, hi]
  have hself : host.fds fd ≠ none := by simp [hfds]
  have hP : ¬ P fd := fun hP => (h.pending fd hP).1 hfree.2.2
  have hw : ¬ w fd := fun hw => h.waiting fd hw hfree.2.2
  refine ⟨⟨h.nfd, h.waits, hlim ▸ h.room, ?_, ?_, ?_, ?_, ?_, h.early, h.error⟩, hP, hw, hunused⟩
  · intro i hi
    have hi' : s.host.limit ≤ i := hlim ▸ hi
    have hne : i ≠ fd := by omega
    exact (hother i hne).trans (h.bound i hi')
  · intro i hi
    have hu := h.used i hi
    by_cases hne : i = fd
    · subst hne
      exact ⟨hu.1, hself⟩
    · exact ⟨hu.1, (hother i hne).symm ▸ hu.2⟩
  · intro i hi hopen
    by_cases hne : i = fd
    · exact .inr (.inl (.inr hne))
    rcases h.covered i hi (hother i hne ▸ hopen) with hc | hc | hc
    · exact .inl hc
    · exact .inr (.inl (.inl hc))
    · exact .inr (.inr hc)
  · rintro i (hi | rfl)
    · have hne : i ≠ fd := fun heq => hP (heq ▸ hi)
      exact ⟨(hother i hne).symm ▸ (h.pending i hi).1, (h.pending i hi).2⟩
    · exact ⟨hself, hunused⟩
  intro i hi
  have hne : i ≠ fd := fun heq => hw (heq ▸ hi)
  exact (hother i hne).symm ▸ h.waiting i hi

/-- An open number below `n` may come into use. -/
theorem Agree.setUsed (hlt : fd < n) (hopen : s.host.fds fd ≠ none) (hin : file.inuse)
    (herr : file.error ≤ 0) : Agree n w (fun i => P i ∧ i ≠ fd) (s.setFile fd file) := by
  refine ⟨h.nfd, h.waits, h.room, h.bound, ?_, ?_, ?_, h.waiting, h.early, ?_⟩
  · intro i hi
    by_cases hne : i = fd
    · subst hne
      exact ⟨hlt, hopen⟩
    · exact h.used i (by simpa [Fs.setFile, hne] using hi)
  · intro i hi hopen'
    by_cases hne : i = fd
    · subst hne
      exact .inl (by simpa [Fs.setFile] using hin)
    rcases h.covered i hi hopen' with hc | hc | hc
    · exact .inl (by simpa [Fs.setFile, hne] using hc)
    · exact .inr (.inl ⟨hc, hne⟩)
    · exact .inr (.inr hc)
  · rintro i ⟨hi, hne⟩
    exact ⟨(h.pending i hi).1, by simpa [Fs.setFile, hne] using (h.pending i hi).2⟩
  intro i
  by_cases hne : i = fd
  · subst hne
    simpa [Fs.setFile] using herr
  · simpa [Fs.setFile, hne] using h.error i

/-- An open number below `n` that is not in use can be added. -/
theorem Agree.add (hlt : fd < n) (hopen : s.host.fds fd ≠ none) (hfree : (s.files fd).inuse = false) :
    Holds Allowed (Agree n w fun i => P i ∧ i ≠ fd)
      (kmAddGuestFdInternal s fd name flags how ops) := by
  cases hadd : kmAddGuestFdInternal s fd name flags how ops with
  | error e =>
    -- neither of the two checks of the function fails
    unfold kmAddGuestFdInternal at hadd
    rw [h.nfd, if_neg (by omega), hfree, if_neg (by simp)] at hadd
    cases hadd
  | ok s' =>
    rcases kmAddGuestFdInternal_ok hadd with ⟨-, -, file, rfl, hin, herr, -, -⟩
    exact h.setUsed hlt hopen hin (herr ▸ h.error fd)

/-- A pending number below `n` can be added. -/
theorem Agree.addPending (hlt : fd < n) (hP : P fd) :
    Holds Allowed (Agree n w fun i => P i ∧ i ≠ fd)
      (kmAddGuestFdInternal s fd name flags how ops) :=
  h.add hlt (h.pending fd hP).1 (h.pending fd hP).2

/-- `del_guest_fd` leaves the descriptor pending. -/
theorem Agree.deleted {s' : Fs} (hd : Deleted s fd s') (hin : (s.files fd).inuse) :
    Agree n w (fun i => P i ∨ i = fd) s' := by
  have hother : ∀ i, i ≠ fd → (s'.files i).inuse = (s.files i).inuse ∧
      (s'.files i).error = (s.files i).error := by
    intro i hi
    rcases hd.other i hi with ⟨o, ho⟩
    rw [ho]
    exact ⟨rfl, rfl⟩
  refine ⟨hd.nfdmap.trans h.nfd, ?_, hd.host ▸ h.room, hd.host ▸ h.bound, ?_, ?_, ?_,
    hd.host ▸ h.waiting, hd.listeners ▸ h.early, ?_⟩
  · intro i
    rw [Fs.waits, hd.recovery, hd.listeners]
    exact h.waits i
  · intro i hi
    have hne : i ≠ fd := by
      rintro rfl
      rw [hd.inuse] at hi
      cases hi
    rw [hd.host]
    exact h.used i ((hother i hne).1 ▸ hi)
  · intro i hi hopen
    by_cases hne : i = fd
    · exact .inr (.inl (.inr hne))
    rcases h.covered i hi (hd.host ▸ hopen) with hc | hc | hc
    · exact .inl ((hother i hne).1.symm ▸ hc)
    · exact .inr (.inl (.inl hc))
    · exact .inr (.inr hc)
  · rw [hd.host]
    rintro i (hi | rfl)
    · have hne : i ≠ fd := by
        rintro rfl
        rw [(h.pending i hi).2] at hin
        cases hin
      exact ⟨(h.pending i hi).1, (hother i hne).1.symm ▸ (h.pending i hi).2⟩
    · exact ⟨(h.used i hin).2, hd.inuse⟩
  intro i
  by_cases hne : i = fd
  · rw [hne, hd.error]
    exact h.error fd
  rw [(hother i hne).2]
  exact h.error i

/-- A descriptor that is not in the table can be closed. -/
theorem Agree.closed (hfree : (s.files fd).inuse = false) (hw : ¬ w fd) :
    Agree n w (fun i => P i ∧ i ≠ fd) { s with host := s.host.close fd } := by
  have hother : ∀ i, i ≠ fd → (s.host.close fd).fds i = s.host.fds i := fun i hi => by simp [hi]
  have hself : (s.host.close fd).fds fd = none := by simp
  refine ⟨h.nfd, h.waits, by simpa using h.room, ?_, ?_, ?_, ?_, ?_, h.early, h.error⟩
  · intro i hi
    by_cases hne : i = fd
    · exact hne ▸ hself
    · exact (hother i hne).trans (h.bound i (by simpa using hi))
  · intro i hi
    have hne : i ≠ fd := by
      rintro rfl
      rw [hfree] at hi
      cases hi
    exact ⟨(h.used i hi).1, (hother i hne).symm ▸ (h.used i hi).2⟩
  · intro i hi hopen
    have hne : i ≠ fd := fun heq => hopen (heq ▸ hself)
    rcases h.covered i hi (hother i hne ▸ hopen) with hc | hc | hc
    · exact .inl hc
    · exact .inr (.inl ⟨hc, hne⟩)
    · exact .inr (.inr hc)
  · rintro i ⟨hi, hne⟩
    exact ⟨(hother i hne).symm ▸ (h.pending i hi).1, (h.pending i hi).2⟩
  intro i hi
  have hne : i ≠ fd := fun heq => hw (heq ▸ hi)
  exact (hother i hne).symm ▸ h.waiting i hi

/-- `dup2` onto any number below `n`: unless it was open before, the number is pending. -/
theorem Agree.dup2 (hd : s.host.dup2 fd new = .ok host) :
    Agree n w (fun i => P i ∨ (i = new ∧ s.host.fds new = none)) { s with host := host } ∧
      host.fds new ≠ none := by
  rcases Host.dup2_ok hd with ⟨d, hfd, hlt, rfl⟩
  have hfds : ((s.host.close new).setFd new (some d)).fds =
      update s.host.fds new (some d) := by simp
  have hother : ∀ i, i ≠ new → update s.host.fds new (some d) i = s.host.fds i :=
    fun i hi => by simp [hi]
  have hself : update s.host.fds new (some d) new ≠ none := by simp
  refine ⟨⟨h.nfd, h.waits, by simpa using h.room, ?_, ?_, ?_, ?_, ?_, h.early, h.error⟩,
    hfds ▸ hself⟩
  · intro i hi
    have hi' : s.host.limit ≤ i := by simpa using hi
    have hne : i ≠ new := by omega
    exact (congrFun hfds i).trans ((hother i hne).trans (h.bound i hi'))
  · intro i hi
    have hu := h.used i hi
    rw [hfds]
    by_cases hne : i = new
    · exact ⟨hu.1, hne ▸ hself⟩
    · exact ⟨hu.1, (hother i hne).symm ▸ hu.2⟩
  · intro i hi hopen
    have hold : s.host.fds i ≠ none ∨ (i = new ∧ s.host.fds new = none) := by
      by_cases hne : i = new
      · subst hne
        by_cases hnone : s.host.fds i = none
        · exact .inr ⟨rfl, hnone⟩
        · exact .inl hnone
      rw [hfds, hother i hne] at hopen
      exact .inl hopen
    rcases hold with hold | hold
    · rcases h.covered i hi hold with hc | hc | hc
      · exact .inl hc
      · exact .inr (.inl (.inl hc))
      · exact .inr (.inr hc)
    · exact .inr (.inl (.inr hold))
  · have hopen : ∀ i, s.host.fds i ≠ none → update s.host.fds new (some d) i ≠ none := by
      intro i hi
      by_cases hne : i = new
      · exact hne ▸ hself
      · exact (hother i hne).symm ▸ hi
    rw [hfds]
    rintro i (hi | ⟨rfl, hnone⟩)
    · exact ⟨hopen i (h.pending i hi).1, (h.pending i hi).2⟩
    refine ⟨hself, ?_⟩
    by_contra hin
    exact (h.used i (by simpa using hin)).2 hnone
  intro i hi
  rw [hfds]
  by_cases hne : i = new
  · exact hne ▸ hself
  · exact (hother i hne).symm ▸ h.waiting i hi

end

end

/-! ## The calls -/

def Host.Below (h : Host) (n lo k : Nat) : Prop := ∀ fd ∈ (h.free lo).take k, fd < n

instance (h : Host) (n lo k : Nat) : Decidable (h.Below n lo k) :=
  inferInstanceAs (Decidable (∀ fd ∈ (h.free lo).take k, fd < n))

theorem Host.Below.head {h : Host} {n : Nat} (hb : h.Below n lo (k + 1)) (ho : h.Opens lo fd h') :
    fd < n ∧ h'.Below n lo k := by
  have hfree := ho.free
  constructor
  · apply hb
    rw [hfree]
    exact .head _
  intro i hi
  apply hb
  rw [hfree]
  exact .tail _ hi

section

variable {n : Nat} {w : Nat → Prop} {s : Fs}
variable {domain type protocol : Nat} {sockfd : Int}
variable {l : List Nat}

def NonePending : Nat → Prop := fun _ => False

/-- The table agrees up to descriptors below `n` that get their entries next, and the next numbers
are below `n`. -/
structure AgreeIn (n : Nat) (w : Nat → Prop) (lo k : Nat) (l : List Nat) (s : Fs) : Prop where
  agree : Agree n w (fun i => i ∈ l) s
  nodup : l.Nodup
  lt : ∀ fd ∈ l, fd < n
  below : s.host.Below n lo k

theorem Host.below_zero (h : Host) (n lo : Nat) : h.Below n lo 0 := by
  simp [Below]

theorem AgreeIn.none (h : AgreeIn n w 0 0 [] s) : Agree n w NonePending s :=
  h.agree.pend_iff fun i => by simp [NonePending]

theorem Agree.within (h : Agree n w NonePending s) (hb : s.host.Below n lo k) :
    AgreeIn n w lo k [] s :=
  ⟨h.pend_iff fun i => by simp [NonePending], nodup_nil, by simp, hb⟩

theorem Agree.settled (h : Agree n w NonePending s) : AgreeIn n w 0 0 [] s :=
  h.within (s.host.below_zero n 0)

theorem AgreeIn.opens (h : AgreeIn n w lo (k + 1) l s) (ho : s.host.Opens lo fd host) :
    AgreeIn n w lo k (l ++ [fd]) { s with host := host } := by
  rcases h.below.head ho with ⟨hlt, hb⟩
  rcases h.agree.opens ho with ⟨hs, hnew, -, -⟩
  refine ⟨hs.pend_iff fun i => by simp, ?_, fun i hi => ?_, hb⟩
  · refine nodup_append.2 ⟨h.nodup, by simp, fun i hi j hj heq => ?_⟩
    rw [mem_singleton.1 hj] at heq
    exact hnew (heq ▸ hi)
  rcases mem_append.1 hi with hi | hi
  · exact h.lt i hi
  rw [mem_singleton.1 hi]
  exact hlt

/-- Two numbers that the kernel opens one after the other are both pending. -/
theorem Agree.opensPair (h : Agree n w NonePending s) (ho0 : s.host.Opens 0 fd0 h0)
    (ho1 : h0.Opens 0 fd1 host) :
    Agree n w (fun i => i = fd0 ∨ i = fd1) { s with host := host } ∧ ¬ w fd0 ∧ ¬ w fd1 := by
  rcases h.opens ho0 with ⟨hs0, -, hw0, -⟩
  rcases hs0.opens ho1 with ⟨hs1, -, hw1, -⟩
  refine ⟨hs1.pend_iff fun i => ?_, hw0, hw1⟩
  simp [NonePending]

theorem AgreeIn.add (h : AgreeIn n w 0 0 (fd :: l) s) :
    Holds Allowed (AgreeIn n w 0 0 l) (kmAddGuestFdInternal s fd name flags how ops) := by
  have hnd := nodup_cons.1 h.nodup
  refine (h.agree.addPending (h.lt fd (.head _)) (.head _)).mono fun s' hs' =>
    ⟨hs'.pend_iff fun i => ?_, hnd.2, fun i hi => h.lt i (.tail _ hi),
      below_zero _ _ _⟩
  constructor
  · rintro ⟨hi, hne⟩
    exact (mem_cons.1 hi).resolve_left hne
  intro hi
  exact ⟨mem_cons_of_mem _ hi, fun heq => hnd.1 (heq ▸ hi)⟩

abbrev Returns (Q : Fs → Prop) (x : Except Abort (Int × Fs)) : Prop :=
  Holds Allowed (fun r => Q r.2) x

/-- The invariant does not depend on the groups or the count of connections. -/
theorem Agree.counted {P : Nat → Prop} (h : Agree n w P s) (dups : List (List Nat)) (cnt : Int) :
    Agree n w P { s with dups := dups, acceptCnt := cnt } :=
  ⟨h.nfd, h.waits, h.room, h.bound, h.used, h.covered, h.pending, h.waiting, h.early, h.error⟩

theorem Agree.setSockinfo {P : Nat → Prop} (h : Agree n w P s) (fd : Nat) (sock : SockInfo) :
    Agree n w P (s.setSockinfo fd sock) :=
  h.setFile_same rfl (h.error fd)

/-- `dup3` takes over a number below `n`, open or not: once its old entry is gone, it is pending. -/
theorem Agree.replaced {old : Nat} (h : Agree n w NonePending s) (hlt : new < n)
    (hd : s.host.dup2 old new = .ok host) :
    Holds Allowed (AgreeIn n w 0 0 [new]) (delIfUsed { s with host := host } new) := by
  rcases h.dup2 hd with ⟨hs, hopen⟩
  have hdone : ∀ {s' : Fs}, Agree n w (fun i => (NonePending i ∨ i = new ∧ s.host.fds new = none) ∨
      i = new) s' → AgreeIn n w 0 0 [new] s' := by
    intro s' hs'
    refine ⟨hs'.pend_iff fun i => ?_, by simp, ?_, below_zero _ _ _⟩
    · simp only [NonePending, mem_singleton, false_or, or_iff_right_iff_imp]
      exact fun hi => hi.1
    · simpa using hlt
  unfold delIfUsed
  split
  · refine ((delGuestFd_spec _ _).weaken fun e he => ⟨he.1, he.2.1⟩).mono fun s' hd' => ?_
    exact hdone (hs.deleted hd' ‹_›)
  · exact hdone (hs.mark hopen (by simpa using ‹¬ _ = true›))

/-- A connection that was accepted early is at a number of the monitor, which gets closed. -/
theorem AgreeIn.early (h : AgreeIn n w 0 1 [] s) (hw : ∀ fd, ¬ w fd) {m a : Nat}
    (hfound : kmSnapFindAccepted s m = some a) :
    AgreeIn n w 0 0 [] { s with listeners := [], host := s.host.close a } ∧
      ∀ {fd : Nat} {host : Host}, s.host.dupFrom a 0 = .ok (fd, host) →
        AgreeIn n w 0 0 [fd] { s with listeners := [], host := host.close a } := by
  have hhigh : n ≤ a := by
    rcases Option.bind_eq_some_iff.1 hfound with ⟨l, hl, ha⟩
    exact h.agree.early l (mem_of_find?_eq_some hl) a ha
  -- forgetting the listeners does not matter outside the recovery
  have hforget : AgreeIn n w 0 1 [] { s with listeners := [] } := by
    have ha := h.agree
    refine ⟨⟨ha.nfd, fun fd => ?_, ha.room, ha.bound, ha.used, ha.covered, ha.pending, ha.waiting,
      nofun, ha.error⟩, h.nodup, h.lt, h.below⟩
    exact ⟨fun ⟨_, _, hl, _⟩ => (nomatch hl), fun hfd => (hw fd hfd).elim⟩
  have hclose : ∀ {k : Nat} {l : List Nat} {t : Fs}, AgreeIn n w 0 k l t →
      AgreeIn n w 0 0 l { t with host := t.host.close a } := by
    intro k l t ht
    have hunused : (t.files a).inuse = false := by
      by_contra hin
      have := (ht.agree.used a (by simpa using hin)).1
      omega
    refine ⟨(ht.agree.closed hunused (hw a)).pend_iff fun i => ?_, ht.nodup, ht.lt,
      below_zero _ _ _⟩
    refine ⟨fun hi => hi.1, fun hi => ⟨hi, ?_⟩⟩
    have := ht.lt i hi
    omega
  exact ⟨hclose hforget, fun hd => hclose (hforget.opens (.of_dupFrom hd))⟩

theorem Host.epollCtl_fds {h : Host} {epfd : Nat} {op : CtlOp} {event : EpollEvent}
    (hc : h.epollCtl epfd op fd event refuse = .ok h') :
    ∃ interest, h' = { h with interest := interest } := by
  unfold epollCtl at hc
  split at hc
  · cases hc
  · dsimp only at hc
    split at hc
    · cases hc
    · cases op <;> dsimp only at hc <;> split at hc <;> cases hc <;> exact ⟨_, rfl⟩
  · cases hc

/-- The functions on the events of an entry change nothing else of it. -/
theorem eventSwitch_spec (op : Host.CtlOp) (file : KmFile) (fd : Nat) (event : EpollEvent) :
    Holds (fun e => e = .event) (fun file' => ∃ events, file' = { file with events := events })
      (eventSwitch op file fd event) := by
  cases op with
  | add =>
    simp only [eventSwitch, kmFsEventAdd]
    split
    · rfl
    · exact ⟨_, rfl⟩
  | mod =>
    simp only [eventSwitch, kmFsEventMod]
    split
    · exact ⟨_, rfl⟩
    · rfl
  | del =>
    simp only [eventSwitch, kmFsEventDel]
    split
    · exact ⟨_, rfl⟩
    · rfl

/-! ## Which calls keep the agreement -/

/-- Only what has no recovered error is closed, early connections are taken over when no listener
waits, and all get their entries. -/
def agreeLimits (w : Nat → Prop) : Limits where
  received := fun _ => True
  source := fun _ _ => True
  target := fun _ _ => True
  closable := fun s fd => (s.files fd).error = 0 ∧ ¬ w fd
  early := ∀ fd, ¬ w fd
  leaks := False

theorem agree_rules (n : Nat) (w : Nat → Prop) : Rules Allowed (agreeLimits w) (AgreeIn n w) where
  abort e hhost hslot _ := ⟨hhost, hslot⟩
  rest h := ⟨h.agree, h.nodup, h.lt, Host.below_zero _ _ _⟩
  leak := nofun
  pipes _ _ h := ⟨h.agree.host_same rfl rfl, h.nodup, h.lt, h.below⟩
  openName h ho := h.opens (.of_openName ho)
  install h _ hi := h.opens (.of_install hi)
  epoll h hi := (h.opens (.of_install hi)).add
  dupFrom h _ _ hd :=
    have hs := h.opens (Host.Opens.of_dupFrom hd)
    ⟨hs.agree, hs.nodup, hs.lt, below_zero _ _ _⟩
  replace h _ _ hnew _ _ hd := h.none.replaced (h.agree.nfd ▸ hnew) hd
  close {m s s'} h hm hc hdel := by
    have hd := (delGuestFd_spec s m).of_ok hdel
    have hs' := h.none.deleted hd hm.2
    rw [if_neg (by simp [hc.1])]
    refine Agree.settled ((hs'.closed hd.inuse hc.2).pend_iff fun i => ?_)
    simp [NonePending]
  early hw h hfound := h.early hw hfound
  add h := h.add
  sock fd sock h := ⟨h.agree.setSockinfo fd sock, h.nodup, h.lt, h.below⟩
  connect {fd0 fd1 s} h _ _ := by
    have h0 : Agree n w NonePending (s.setFile fd0 { s.files fd0 with ofd := fd1 }) :=
      h.none.setFile_same rfl (h.none.error fd0)
    exact Agree.settled (h0.setFile_same rfl (h0.error fd1))
  group dups _ h := (h.none.counted dups _).settled
  count cnt h := (h.none.counted _ cnt).settled
  ctl {ep n' s op event refuse host} h hep hc := by
    rcases epollCtl_fds hc with ⟨interest, rfl⟩
    refine ((eventSwitch_spec _ _ _ _).weaken ?_).mono ?_
    · rintro e rfl
      simp [Allowed]
    rintro _ ⟨events, rfl⟩
    have hsame : Agree n w NonePending { s with host := { s.host with interest := interest } } :=
      h.none.host_same rfl rfl
    exact Agree.settled (hsame.setFile_same rfl (h.none.error _))

/-- The kernel hands out numbers below `nfdmap`; what is closed has no recovered error; messages for
`recvmmsg` carry no descriptors; and the peer of an early connection has a name. -/
def Fs.fits (s : Fs) : Call → Prop
  | .open .. => s.host.Below s.nfdmap 0 1
  | .close fd => ∀ m : Nat, fd = m → (s.files m).error = 0
  | .dup _ => s.host.Below s.nfdmap 0 1
  | .dup2 .. => True
  | .dup3 .. => True
  | .fcntlDup _ lo _ => s.host.Below s.nfdmap lo 1
  | .pipe2 .. => s.host.Below s.nfdmap 0 2
  | .socketpair .. => s.host.Below s.nfdmap 0 2
  | .eventfd2 .. => s.host.Below s.nfdmap 0 1
  | .timerfdCreate .. => s.host.Below s.nfdmap 0 1
  | .socket .. => s.host.Below s.nfdmap 0 1
  | .accept4 sockfd addr peername _ => s.host.Below s.nfdmap 0 1 ∧
      ∀ m : Nat, sockfd = m → kmSnapFindAccepted s m ≠ none → addr → peername = none
  | .recvmsg _ received _ => s.host.Below s.nfdmap 0 received.length
  | .recvmmsg _ received => received = []
  | .epollCreate1 _ => s.host.Below s.nfdmap 0 1
  | .epollCtl .. => True

theorem call_agree (h : Agree n w NonePending s) (hw : ∀ fd, ¬ w fd) {c : Call} (hc : s.fits c) :
    Returns (Agree n w NonePending) (s.call c) := by
  have hn := h.nfd
  subst hn
  suffices hcall : s.host.Below s.nfdmap c.needs.1 c.needs.2 ∧ (agreeLimits w).Admits s c from
    ((agree_rules _ w).call (h.within hcall.1) hcall.2).mono fun _ hr => hr.none
  have hzero := s.host.below_zero s.nfdmap 0
  cases c with
  | close fd => exact ⟨hzero, fun m hm => ⟨hc m hm, hw m⟩⟩
  | dup2 | dup3 => exact ⟨hzero, fun _ => ⟨fun _ _ => trivial, fun _ _ => trivial⟩⟩
  | dup | fcntlDup | recvmsg => exact ⟨hc, fun _ _ => trivial⟩
  | accept4 sockfd addr peername refuse =>
    exact ⟨hc.1, fun m hm hfound => ⟨hw, fun ha => .inl (hc.2 m hm hfound ha)⟩⟩
  | recvmmsg sockfd received =>
    subst hc
    exact ⟨hzero, nofun, .inl rfl⟩
  | epollCtl => exact ⟨hzero, trivial⟩
  | _ => exact ⟨hc, trivial⟩

end

end KontainMonitor.Files
