import KontainMonitor.Files.Reopen

/-!
# PairEnds — where the ends of a recovered pair come to lie (`km_fs_recover_fdpair`)

The kernel puts the two ends of a new pipe or socket pair at numbers of its choice, and the ends are
moved one after the other.  The first move must not land on the end that is still to be moved; the
test of `km_fs_recover_fdpair` prevents that unless the two ends trade places.
-/

namespace KontainMonitor.Files

open Function Outcome

variable {s : Fs} {guestfd ofd : Int} {hostfd flags : Nat} {how : How}

/-- One descriptor moves; a negative number stands for an end that stays closed. -/
def movedFds (fds : Nat → Option Nat) (guestfd : Int) (hostfd : Nat) (i : Nat) : Option Nat :=
  if guestfd = i then fds hostfd else if i = hostfd then none else fds i

/-- Both ends are at their numbers, and nothing else was closed or left open. -/
def placedFds (fds : Nat → Option Nat) (guestfd : Int × Int) (hostfd : Nat × Nat) (i : Nat) :
    Option Nat :=
  if guestfd.1 = i then fds hostfd.1
  else if guestfd.2 = i then fds hostfd.2
  else if i = hostfd.1 ∨ i = hostfd.2 then none
  else fds i

section

variable (hroom : s.nfdmap ≤ s.host.limit) (hopen : s.host.fds hostfd ≠ none)
include hroom hopen

/-- `km_fs_recover_fd` moves the descriptor. -/
theorem recoverEnd_moved (hlt : guestfd < s.nfdmap) :
    (recoverEnd s guestfd hostfd flags ofd how).host.fds = movedFds s.host.fds guestfd hostfd ∧
      s.host.Rest (recoverEnd s guestfd hostfd flags ofd how).host ∧
        (recoverEnd s guestfd hostfd flags ofd how).nfdmap = s.nfdmap := by
  by_cases hneg : guestfd < 0
  · -- the end was closed
    rw [recoverEnd, kmFsRecoverFd, if_pos hneg]
    refine ⟨funext fun i => ?_, s.host.rest_close hostfd, rfl⟩
    rw [movedFds, if_neg (by omega), Host.close_fds, update_apply]
  rcases Option.ne_none_iff_exists'.1 hopen with ⟨d, hd⟩
  obtain ⟨g, rfl⟩ := Int.eq_ofNat_of_zero_le (by omega : 0 ≤ guestfd)
  rcases kmFsRecoverFd_moved hd (by omega : g < s.host.limit) with ⟨host, hrest, hfds', hrec⟩
  rw [recoverEnd, hrec]
  refine ⟨funext fun i => ?_, hrest, rfl⟩
  rw [Fs.setFile_host, hfds', update_apply, update_apply, movedFds, hd]
  simp only [Int.ofNat_inj, eq_comm]

/-- The end that is moved second is open when its turn comes, though it may be the wrong one. -/
theorem recoverEnds_moved {guestfd' ofd' : Int} {hostfd' flags' : Nat} {how' : How}
    (hopen' : s.host.fds hostfd' ≠ none) (hne : hostfd ≠ hostfd') (hlt : guestfd < s.nfdmap)
    (hlt' : guestfd' < s.nfdmap) :
    let u := recoverEnd (recoverEnd s guestfd hostfd flags ofd how) guestfd' hostfd' flags' ofd' how'
    u.host.fds = movedFds (movedFds s.host.fds guestfd hostfd) guestfd' hostfd' ∧
      u.host.descs = s.host.descs := by
  rcases recoverEnd_moved hroom hopen hlt with ⟨hfds, hrest, hnfd⟩
  have hsecond : movedFds s.host.fds guestfd hostfd hostfd' ≠ none := by
    unfold movedFds
    split
    · exact hopen
    · rwa [if_neg hne.symm]
  rw [← hfds] at hsecond ⊢
  rcases recoverEnd_moved (by rwa [hnfd, hrest.limit]) hsecond (by rwa [hnfd]) with
    ⟨hfds', hrest', -⟩
  exact ⟨hfds', hrest'.descs.trans hrest.descs⟩

end

/-- For any two open descriptors and different numbers, the ends come to lie at their numbers, and
no other descriptor changes, if and only if the numbers are in the table and the ends do not trade
places. -/
theorem pair_ends_placed_iff (s : Fs) (guestfd : Int × Int) (hostfd flags : Nat × Nat)
    (how : How × How) (hroom : s.nfdmap ≤ s.host.limit) (hne : hostfd.1 ≠ hostfd.2)
    (h0 : s.host.fds hostfd.1 ≠ none) (h1 : s.host.fds hostfd.2 ≠ none)
    (hg : guestfd.1 ≠ guestfd.2) : (∃ s', kmFsRecoverFdpair s guestfd hostfd how flags = .ok s' ∧
        s'.host.fds = placedFds s.host.fds guestfd hostfd ∧ s'.host.descs = s.host.descs) ↔
      guestfd.1 < s.nfdmap ∧ guestfd.2 < s.nfdmap ∧
        ¬ (guestfd.1 = hostfd.2 ∧ guestfd.2 = hostfd.1) := by
  rcases guestfd with ⟨g0, g1⟩
  rcases hostfd with ⟨h, h'⟩
  dsimp only at hne h0 h1 hg ⊢
  unfold kmFsRecoverFdpair
  dsimp only
  split
  · constructor
    · rintro ⟨s', ⟨⟩, -⟩
    · omega
  rename_i hrange
  have hlt0 : g0 < s.nfdmap := by omega
  have hlt1 : g1 < s.nfdmap := by omega
  simp only [hlt0, hlt1, true_and]
  split
  · -- the second end leaves before the first one takes its place
    rename_i heq
    subst heq
    simp only [Except.ok.injEq, exists_eq_left']
    rw [(recoverEnds_moved hroom h1 h0 hne.symm hlt1 hlt0).1,
      (recoverEnds_moved hroom h1 h0 hne.symm hlt1 hlt0).2]
    simp only [true_and, and_true]
    constructor
    · -- at the first end's old number the second end was closed again
      rintro hfds rfl
      have hbad := congrFun hfds h
      simp [movedFds, placedFds, hne.symm] at hbad
      exact h1 hbad.symm
    intro hswap
    funext i
    simp only [movedFds, placedFds, Int.ofNat_inj]
    grind
  rename_i heq
  simp only [Except.ok.injEq, exists_eq_left']
  rw [(recoverEnds_moved hroom h0 h1 hne hlt0 hlt1).1,
    (recoverEnds_moved hroom h0 h1 hne hlt0 hlt1).2]
  refine ⟨fun _ hswap => heq hswap.1, fun _ => ⟨funext fun i => ?_, rfl⟩⟩
  simp only [movedFds, placedFds]
  grind

def madePipe : (Nat × Nat) × Host := evaluate (plainHost.pipe2 0 none).toOption

def pipedState : Fs := { kmFsInit 727 0 [] plainHost with host := madePipe.2 }

theorem pair_ends_placed_iff_overlap :
    ∃ s', kmFsRecoverFdpair pipedState (5, 3) (3, 4) (.pipe0, .pipe1) (0, 0) = .ok s' ∧
      s'.host.fds = placedFds pipedState.host.fds (5, 3) (3, 4) ∧
        s'.host.descs = pipedState.host.descs :=
  (pair_ends_placed_iff pipedState (5, 3) (3, 4) (0, 0) (.pipe0, .pipe1) (by decide +kernel)
    (by decide) (by decide +kernel) (by decide +kernel) (by decide)).2
      ⟨by decide +kernel, by decide +kernel, by decide⟩

/-- The ends trade places: the read end is lost, and the write end is at its number. -/
theorem swapped_ends_lost : plainHost.pipe2 0 none = .ok madePipe ∧ madePipe.1 = (3, 4) ∧
      ∃ s', kmFsRecoverFdpair pipedState (4, 3) (3, 4) (.pipe0, .pipe1) (0, 0) = .ok s' ∧
        s'.host.fds 3 = none ∧ s'.host.fds 4 = madePipe.2.fds 4 := by
  refine ⟨eq_ok_of_toOption eq_eval, by decide +kernel, _,
    eq_ok_of_toOption (Option.some_get (by decide +kernel)).symm, ?_, ?_⟩
  · decide +kernel
  · decide +kernel

end KontainMonitor.Files
