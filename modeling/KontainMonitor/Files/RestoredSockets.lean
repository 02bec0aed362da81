import KontainMonitor.Files.Partners
import KontainMonitor.Files.Reopened

/-!
# RestoredSockets — sockets and socket pairs over snapshot and restore

`km_fs_recover_socket` makes the kernel's socket as it was, and a record that leaves out the state and
the backlog; that it failed is not noticed.  `km_fs_recover_socketpair` makes no record at all, and the
next snapshot takes the ends for files.
-/

namespace KontainMonitor.Files

open Outcome Transition

/-! ## Sockets -/

variable {file : KmFile} {sock : SockInfo} {fd old : Nat} {t u : Fs} {nt : NtSocket}

def socketAnswers : FdAnswers where
  mode := .ok S_IFSOCK
  pos := .espipe
  queued := []
  queued_lt := no_bytes_lt
  pipesize := 0
  save := none
  pending := .ok false
  eventCount := .error EINVAL

def emptyTable : Fs := { kmFsInit 727 0 [] plainHost with recovery := true }

/-- An end of a socket pair is at its number again, with its role, its partner and a record, and the
next snapshot takes it for a socket. -/
structure EndBack (file : KmFile) (fd : Nat) (t : Fs) : Prop where
  inuse : (t.files fd).inuse
  how : (t.files fd).how = file.how
  ofd : (t.files fd).ofd = file.ofd
  sockinfo : (t.files fd).sockinfo = file.sockinfo
  note : ∀ k note, fsCoreNote (t.files fd) fd k = .ok note → ∃ nt, note.1 = .socket nt

/-- The duplicates of the numbers of the set are in it. -/
def Unmixed (ends : Nat → Prop) (dups : List (List Nat)) : Prop :=
  ∀ g ∈ dups, ∀ a ∈ g, ∀ b ∈ g, ends a → ends b

/-- Ends of socket pairs, with all their duplicates, which `km_dup_socket_fd` makes ends too. -/
structure Fs.PairEnds (s : Fs) (ends : Nat → Prop) : Prop where
  how : ∀ fd, ends fd → (s.files fd).how = .socketpair0 ∨ (s.files fd).how = .socketpair1
  dup : Unmixed ends s.dups

/-- During the recovery the numbers of the set have no record, and no group gives them one. -/
structure Recordless (ends : Nat → Prop) (s : Fs) : Prop where
  recovery : s.recovery
  none : ∀ fd, ends fd → (s.files fd).sockinfo = none
  unmixed : Unmixed ends s.dups

variable {ends : Nat → Prop} {dups : List (List Nat)}

theorem Recordless.setFile (h : Recordless ends u) (hfile : ends fd → file.sockinfo = Option.none) :
    Recordless ends (u.setFile fd file) where
  recovery := h.recovery
  none i hi := by
    by_cases heq : i = fd
    · subst heq
      simpa [Fs.setFile] using hfile hi
    · simpa [Fs.setFile, heq] using h.none i hi
  unmixed := h.unmixed

theorem Unmixed.close (h : Unmixed ends dups) (fd : Nat) : Unmixed ends (closeInGroups fd dups) := by
  induction dups with
  | nil => exact h
  | cons g rest ih =>
    have hg := h g (.head _)
    have hrest : Unmixed ends rest := fun g' hg' => h g' (.tail _ hg')
    unfold closeInGroups
    split
    · split
      · intro g' hg' a ha b hb
        rcases List.mem_cons.1 hg' with rfl | hg'
        · exact hg a (List.mem_of_mem_erase ha) b (List.mem_of_mem_erase hb)
        · exact hrest g' hg' a ha b hb
      · exact hrest
    · exact List.forall_mem_cons.2 ⟨hg, ih hrest⟩

/-- A duplicate takes the record of a number of its group. -/
theorem Recordless.dup (h : Recordless ends u) (flags : Nat) (hfound : 0 ≤ kmFsCheckForDupsNolock u fd) :
    Ends (Recordless ends) (recoverDup u (kmFsCheckForDupsNolock u fd) fd flags) := by
  rcases checkForDups_some hfound with ⟨old, hold, hne, -, g, hg, hfd, holdg⟩
  rw [hold]
  refine (recoverDup_duplicated h.recovery).mono ?_
  rintro t (⟨-, hdup⟩ | ⟨-, rfl⟩)
  · refine ⟨hdup.recovery.trans h.recovery, fun i hi => ?_, ?_⟩
    · by_cases heq : i = fd
      · subst heq
        rw [hdup.sockinfo hne]
        exact h.none old (h.unmixed g hg i hfd old holdg hi)
      · rcases hdup.other i heq with ⟨o, ho⟩
        rw [ho]
        exact h.none i hi
    · rw [hdup.dups]
      split
      · exact h.unmixed.close fd
      · exact h.unmixed
  · exact h

/-- Only the note of another socket makes a record. -/
theorem recordless_restorable (ends : Nat → Prop) : Restorable (fun _ _ _ => True) (fun _ => True)
    (fun fd => ¬ ends fd) (Unmixed ends) (Recordless ends) where
  outside _ _ _ h := ⟨h.recovery, h.none, h.unmixed⟩
  recover fd _ _ _ _ h _ := h.setFile (h.none fd)
  dup flags h hfound := h.dup flags hfound
  events fd _ h := h.setFile (h.none fd)
  record _ h hout := h.setFile fun hin => absurd hin hout
  groups h hj := ⟨h.recovery, h.none, hj⟩
  fail {_ fd} h _ := h.setFile (h.none fd)

def FsNote.OfEntry (file : KmFile) (fd : Nat) : FsNote → Prop
  | .dupData _ => False
  | .socket nt => nt.fd = fd ∧ nt.how = file.how
  | _ => True

theorem fsCoreNote_ofEntry (file : KmFile) (fd : Nat) (k : FdAnswers) :
    Holds (fun _ => True) (fun r => r.1.OfEntry file fd) (fsCoreNote file fd k) := by
  unfold fsCoreNote
  split
  · cases fsCoreWriteEpollfd file fd k <;> trivial
  split
  · cases fsCoreWriteEventfd file fd k <;> trivial
  split
  · trivial
  split
  · cases fsCoreWriteNonsocket file fd k <;> trivial
  unfold fsCoreWriteSocket
  cases k.mode with
  | error e => trivial
  | ok mode =>
    dsimp only
    generalize saveQueued k _ = data
    cases data with
    | error e => trivial
    | ok data => exact ⟨rfl, rfl⟩

theorem Fs.PairEnds.recover {s : Fs} (hends : s.PairEnds ends) {note : FsNote} {luck : SocketLuck}
    (hfrom : note = .dupData s.dups ∨ ∃ i, note.OfEntry (s.files i) i) (hu : Recordless ends u) :
    Ends (Recordless ends) (u.recover note luck) := by
  refine (recordless_restorable ends).recoverNote hu (fun _ => trivial)
    (fun _ _ _ _ _ => trivial) (.inr fun _ _ => trivial) (fun _ _ => trivial) ?_ ?_
  · -- a record is made for a number that is no end
    intro k hk hend
    cases note with
    | socket nt =>
      rcases hfrom with ⟨⟨⟩⟩ | ⟨i, rfl, hhow⟩
      rcases hk with ⟨h0, h1, rfl⟩
      rw [hhow] at h0 h1
      exact (hends.how _ hend).elim h0 h1
    | _ => exact hk
  · rintro groups rfl
    rcases hfrom with ⟨⟨⟩⟩ | ⟨i, ⟨⟩⟩
    exact hends.dup

/-- What the recovery of each note keeps, the recovery of all of them keeps. -/
theorem kmFsRecover_keeps {I : Fs → Prop} {notes : List FsNote} {luck : FsNote → SocketLuck}
    (hnote : ∀ note ∈ notes, ∀ u, I u → Ends I (u.recover note (luck note))) (hu : I u) :
    Ends I (kmFsRecover u notes luck) := by
  refine .foldlM (I := fun _ => I) (fun k _ u hu => ?_) hu
  refine Holds.mono (Holds.foldlM (I := fun l u => (∀ note ∈ l, note ∈ notes) ∧ I u)
    (fun note rest u hu => ?_) ⟨fun note hin => (List.mem_filter.1 hin).1, hu⟩) fun _ hu => hu.2
  exact (hnote note (hu.1 note (.head _)) u hu.2).mono fun _ hu' =>
    ⟨fun note' hin => hu.1 note' (.tail _ hin), hu'⟩

/-- Whatever else is restored with it, in whatever groups of duplicates and with whatever queued in
it, no end of a socket pair comes back: its record is lost. -/
theorem socketpair_never_back (s t : Fs) (ask : Nat → FdAnswers) (notes : List (FsNote × Nat))
    (n : Nat) (timeout : Int) (listeners : List Listener) (host : Host) (luck : FsNote → SocketLuck)
    (ends : Nat → Prop) (fd : Nat) (hsave : kmFsCoreNotesWrite s ask = .ok notes)
    (hends : s.PairEnds ends) (hfd : ends fd) (hrecord : (s.files fd).sockinfo ≠ none)
    (ht : kmFsRecover { kmFsInit n timeout listeners host with recovery := true }
      (.dupData s.dups :: notes.map Prod.fst) luck = .ok t) : ¬ EndBack (s.files fd) fd t := by
  have hstart : Recordless ends { kmFsInit n timeout listeners host with recovery := true } := by
    refine ⟨rfl, fun i _ => ?_, nofun⟩
    match i with
    | 0 | 1 | 2 => rfl
    | i + 3 => rfl
  have hnote : ∀ note ∈ FsNote.dupData s.dups :: notes.map Prod.fst, ∀ u, Recordless ends u →
      Ends (Recordless ends) (u.recover note (luck note)) := by
    intro note hmem u hu
    refine hends.recover ((List.mem_cons.1 hmem).imp_right fun hin => ?_) hu
    rcases List.mem_map.1 hin with ⟨r, hr, rfl⟩
    rcases (mapM_ok hsave).1 r hr with ⟨i, -, hi⟩
    exact ⟨i, (fsCoreNote_ofEntry (s.files i) i (ask i)).of_ok hi⟩
  intro hback
  have hnone := ((kmFsRecover_keeps hnote hstart).of_ok ht).none fd hfd
  exact hrecord (hback.sockinfo.symm.trans hnone)

/-- A process with a socket pair at 3 and 4, and a duplicate of its first end at 5. -/
def pairState : Fs := evaluate (runCalls Fs.call? (kmFsInit 727 0 [] plainHost)
  [.socketpair 1 1 0 none, .dup 3])

def pairAnswers (fd : Nat) : FdAnswers :=
  if fd < 3 then pairState.host.fileAnswers fd else socketAnswers

def pairNotes : List (FsNote × Nat) :=
  evaluate (kmFsCoreNotesWrite pairState pairAnswers).toOption

def pairBack : Fs :=
  evaluate (kmFsRecover emptyTable (.dupData pairState.dups :: pairNotes.map Prod.fst)
    fun _ => .made).toOption

theorem pairBack_eq : kmFsRecover emptyTable (.dupData pairState.dups :: pairNotes.map Prod.fst)
    (fun _ => .made) = .ok pairBack :=
  eq_ok_of_toOption eq_eval

theorem socketpair_never_back_dup : ¬ EndBack (pairState.files 3) 3 pairBack := by
  have hdups : pairState.dups = [[3, 5]] := by decide +kernel
  refine socketpair_never_back pairState pairBack pairAnswers pairNotes 727 0 [] plainHost
    (fun _ => .made) (· ∈ [3, 4, 5]) 3 (eq_ok_of_toOption eq_eval) ⟨by decide +kernel, ?_⟩ (by decide)
      (by decide +kernel) pairBack_eq
  intro g hg a _ b hb _
  rw [hdups, List.mem_singleton] at hg
  subst hg
  exact List.mem_cons.2 ((List.mem_cons.1 hb).imp_right (.tail _))

/-- Both ends are back at their numbers without a record, and the next snapshot takes them for files. -/
theorem socketpair_without_record :
    kmFsCoreNotesWrite pairState pairAnswers = .ok pairNotes ∧
      kmFsRecover emptyTable (.dupData pairState.dups :: pairNotes.map Prod.fst) (fun _ => .made) =
        .ok pairBack ∧ ∀ fd ∈ [3, 4], (pairBack.files fd).inuse ∧
          (pairBack.files fd).how = (pairState.files fd).how ∧
            (pairState.files fd).sockinfo = some ⟨.open, 0, 1, 1, 0, []⟩ ∧
              (pairBack.files fd).sockinfo = none ∧
                ((fsCoreNote (pairBack.files fd) fd socketAnswers).toOption.map fun r => r.1.kind) =
                  some 1 :=
  ⟨eq_ok_of_toOption eq_eval, pairBack_eq, by decide +kernel⟩

end KontainMonitor.Files
