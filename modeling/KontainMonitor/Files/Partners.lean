import KontainMonitor.Files.Entries

/-!
# Partners — `error` and `ofd` over whole runs

The recovery of a connected socket puts an error into an entry, which no other function clears, and
the recovery of a file or an eventfd takes `ofd` from a field that holds an offset or a count.
-/

namespace KontainMonitor.Files

open Transition Outcome

variable {I : Fs → Prop} {s : Fs} {guestfd : Int} {hostfd flags : Nat} {name : Option Name}
variable {ofd : Int} {how : How} {may : Nat → Int → How → Prop} {sparing : Nat → Prop}
variable {nt : NtFile} {luck : SocketLuck} {fd : Nat} {file : KmFile}

/-! ## Notes -/

theorem Movable.recoverFd (hI : Movable may I) (h : I s) (hp : may s.nfdmap ofd how) :
    I (kmFsRecoverFd s guestfd hostfd flags name ofd how) := by
  unfold kmFsRecoverFd
  split
  · exact hI.host _ h
  split
  · exact h
  · exact hI.recover _ _ _ (hI.host _ h) hp

theorem recoverEnd_nfdmap : (recoverEnd s guestfd hostfd flags ofd how).nfdmap = s.nfdmap := by
  unfold recoverEnd kmFsRecoverFd
  split
  · rfl
  split
  · rfl
  · rfl

theorem Movable.recoverFdpair (hI : Movable may I) (h : I s) {guestfd : Int × Int}
    {hostfd flags : Nat × Nat} {how : How × How}
    (h1 : guestfd.2 < s.nfdmap → may s.nfdmap guestfd.2 how.1)
    (h2 : guestfd.1 < s.nfdmap → may s.nfdmap guestfd.1 how.2) :
    Ends I (kmFsRecoverFdpair s guestfd hostfd how flags) := by
  unfold kmFsRecoverFdpair
  split
  · trivial
  rename_i hrange
  have h1 := h1 (by omega)
  have h2 := h2 (by omega)
  split
  · exact hI.recoverFd (hI.recoverFd h h2) (recoverEnd_nfdmap (s := s) ▸ h1)
  · exact hI.recoverFd (hI.recoverFd h h1) (recoverEnd_nfdmap (s := s) ▸ h2)

def EndsMay (may : Nat → Int → How → Prop) (n : Nat) (other fd : Int) : Prop :=
  ∀ how : How, how.isEnd → ∀ o, o = other ∨ o = fd → o < n → may n o how

section

variable (hI : Movable may I) (h : I s)
include hI h

theorem Movable.recoverPipe (hp : EndsMay may s.nfdmap (asInt nt.data) nt.fd) :
    Ends I (kmFsRecoverPipe s nt) := by
  have hends : ((pipeEnds nt).1 = asInt nt.data ∨ (pipeEnds nt).1 = nt.fd) ∧
      ((pipeEnds nt).2 = asInt nt.data ∨ (pipeEnds nt).2 = nt.fd) := by
    unfold pipeEnds
    split
    · exact ⟨.inl rfl, .inr rfl⟩
    · exact ⟨.inr rfl, .inl rfl⟩
  unfold kmFsRecoverPipe
  dsimp only
  split
  · split
    · trivial
    split
    · exact .bind (.any _) fun _ _ => hI.host _ h
    · exact h
  split
  · trivial
  refine .bind (.any _) fun host _ => ?_
  split
  · trivial
  · exact hI.recoverFdpair (hI.host _ h) (hp _ rfl _ hends.2) (hp _ rfl _ hends.1)

theorem Movable.recoverByName (hp : may s.nfdmap (asInt nt.data) nt.how) :
    Ends I (recoverByName s nt) := by
  unfold Files.recoverByName
  split
  · trivial
  split
  · trivial
  split
  · trivial
  dsimp only
  split
  · split
    · trivial
    · exact hI.host _ (hI.recoverFd (hI.host _ h) hp)
  · exact hI.recoverFd (hI.host _ h) hp

theorem Movable.recoverSocketpair {nt : NtSocket} (hp : EndsMay may s.nfdmap nt.other nt.fd) :
    Ends I (kmFsRecoverSocketpair s nt) := by
  unfold kmFsRecoverSocketpair
  split
  · trivial
  split
  · exact .bind (.any _) fun _ _ => hI.host _ h
  split
  · trivial
  split
  · exact .bind (.any _) fun _ _ => hI.recoverFdpair (hI.host _ h)
      (hp _ rfl _ (.inl rfl)) (hp _ rfl _ (.inr rfl))
  exact .bind (.any _) fun _ _ => hI.recoverFdpair (hI.host _ h)
    (hp _ rfl _ (.inr rfl)) (hp _ rfl _ (.inl rfl))

end

/-- Kept by the handlers of all notes; `recorded` are the numbers that may get a record and `joined`
the groups of duplicates. -/
structure Restorable (may : Nat → Int → How → Prop) (sparing recorded : Nat → Prop)
    (joined : List (List Nat) → Prop) (I : Fs → Prop) : Prop extends Movable may I where
  dup : ∀ {s : Fs} {fd : Nat} (flags : Nat), I s → 0 ≤ kmFsCheckForDupsNolock s fd →
    Ends I (recoverDup s (kmFsCheckForDupsNolock s fd) fd flags)
  events : ∀ {s : Fs} (fd : Nat) (events : List FsEvent), I s →
    I (s.setFile fd { s.files fd with events := events })
  record : ∀ {s : Fs} {fd : Nat} (sock : SockInfo), I s → recorded fd → I (s.setSockinfo fd sock)
  groups : ∀ {s : Fs} {dups : List (List Nat)}, I s → joined dups → I { s with dups := dups }
  fail : ∀ {s : Fs} {fd : Nat}, I s → sparing fd → I (s.setFile fd { s.files fd with
    error := ECONNRESET.ret, name := some socketErrorName })

theorem Durable.restorable (hI : Durable may sparing I) :
    Restorable may sparing (fun _ => True) (fun _ => True) I where
  toMovable := hI.toMovable
  dup {s fd} flags h _ := .bind (hI.call h (.dup3 (kmFsCheckForDupsNolock s fd) fd flags)) fun _ hr => hr
  events _ _ h := hI.note _ _ _ h
  record _ h _ := hI.setSockinfo _ _ h
  groups h _ := hI.groups _ _ h
  fail := hI.fail

section

variable {recorded : Nat → Prop} {joined : List (List Nat) → Prop}
variable (hI : Restorable may sparing recorded joined I) (h : I s)
include hI h

theorem Restorable.recoverSocket {nt : NtSocket} (hp : may s.nfdmap (-1) nt.how)
    (hk : nt.state = .error → sparing nt.fd) (hrec : recorded nt.fd) :
    Ends I (kmFsRecoverSocket s nt luck) := by
  have hadd : ∀ {s' : Fs} {hostfd : Nat}, I s' → may s'.nfdmap (-1) nt.how →
      I (addRecoveredSocket s' nt hostfd) := by
    intro s' hostfd h' hp'
    unfold addRecoveredSocket
    dsimp only
    refine hI.record _ ?_ hrec
    split
    · exact hI.fail (hI.recoverFd h' hp') (hk ‹_›)
    · exact hI.recoverFd h' hp'
  unfold kmFsRecoverSocket
  split
  · exact h
  split
  · trivial
  split
  · exact hadd h hp
  split
  · exact h
  split
  · exact h
  split
  · exact hI.host _ h
  · exact hadd (hI.host _ h) hp

theorem Restorable.recoverEpollfd {nt : NtEpollfd} (hp : may s.nfdmap (-1) .epollfd) :
    Ends I (kmFsRecoverEpollfd s nt) := by
  unfold kmFsRecoverEpollfd
  split
  · trivial
  split
  · trivial
  dsimp only
  split
  · exact hI.dup _ h ‹_›
  split
  · trivial
  refine .foldlM (I := fun _ => I) (fun e _ u hu => ?_) (hI.recoverFd (hI.host _ h) hp)
  unfold recoverEvent
  split
  · trivial
  split
  · trivial
  · exact hI.events _ _ (hI.host _ hu)

end

/-- The note asks for partners that the entry may have: files and eventfds that are opened anew have
`-1` where their offset or count is recorded. -/
def FsNote.Partnered (s : Fs) : FsNote → Prop
  | .file nt => inherited nt = false → kmFsCheckForDupsNolock s nt.fd < 0 →
      if fileType nt.mode = S_IFIFO then -1 ≤ asInt nt.data else asInt nt.data = -1
  | .socket nt => -1 ≤ nt.other
  | .eventfd nt => kmFsCheckForDupsNolock s nt.fd < 0 → asInt nt.data = -1
  | _ => True

/-- The note is that of a socket that was connected, with number `k`. -/
def FsNote.Resets (k : Nat) : FsNote → Prop
  | .socket nt => nt.state = .error ∧ nt.fd = k
  | _ => False

def FsNote.Records (k : Nat) : FsNote → Prop
  | .socket nt => nt.how ≠ .socketpair0 ∧ nt.how ≠ .socketpair1 ∧ nt.fd = k
  | _ => False

theorem Restorable.recoverNote {recorded : Nat → Prop} {joined : List (List Nat) → Prop}
    (hI : Restorable may sparing recorded joined I) (h : I s) {note : FsNote}
    (hnone : ∀ how, may s.nfdmap (-1) how)
    (hpair : ∀ (how : How) (o : Int), how.isEnd → -1 ≤ o → o < s.nfdmap → may s.nfdmap o how)
    (hp : note.Partnered s ∨ ∀ how o, may s.nfdmap o how) (hk : ∀ k, note.Resets k → sparing k)
    (hr : ∀ k, note.Records k → recorded k) (hj : ∀ groups, note = .dupData groups → joined groups) :
    Ends I (s.recover note luck) := by
  cases note with
  | dupData groups => exact hI.groups h (hj groups rfl)
  | file nt =>
    simp only [Fs.recover, kmFsRecoverOpenFile]
    split
    · trivial
    split
    · exact h
    rename_i hown
    split
    · exact hI.dup _ h ‹_›
    split
    · trivial
    rename_i hdup _
    split
    next hfifo =>
      refine hI.recoverPipe h fun how hend o ho hlt => ?_
      rcases hp with hp | hp
      · have hdata : -1 ≤ asInt nt.data := by
          simpa [hfifo] using hp (by simpa using hown) (by omega)
        exact hpair how o hend (by omega) hlt
      · exact hp how o
    rename_i hfifo
    refine hI.recoverByName h ?_
    rcases hp with hp | hp
    · have hdata : asInt nt.data = -1 := by
        simpa [hfifo] using hp (by simpa using hown) (by omega)
      exact hdata ▸ hnone _
    · exact hp _ _
  | socket nt =>
    simp only [Fs.recover, kmFsRecoverOpenSocket]
    split
    next hdup =>
      unfold recoverDup2 kmFsDup2
      split
      · exact h
      · exact hI.dup 0 h hdup
    split
    · refine hI.recoverSocketpair h fun how hend o ho hlt => ?_
      rcases hp with hp | hp
      · have hother : -1 ≤ nt.other := hp
        exact hpair how o hend (by omega) hlt
      · exact hp how o
    rename_i hhow
    rw [not_or] at hhow
    exact hI.recoverSocket h (hnone _) (fun herr => hk nt.fd ⟨herr, rfl⟩)
      (hr nt.fd ⟨hhow.1, hhow.2, rfl⟩)
  | eventfd nt =>
    simp only [Fs.recover, kmFsRecoverEventfd]
    split
    · trivial
    split
    · trivial
    split
    · exact hI.dup _ h ‹_›
    rename_i hdup
    split
    · trivial
    refine hI.recoverFd (hI.host _ h) ?_
    rcases hp with hp | hp
    · exact (hp (by omega) : asInt nt.data = -1) ▸ hnone _
    · exact hp _ _
  | epollfd nt => exact hI.recoverEpollfd h (hnone _)

theorem Durable.step (hI : Durable may sparing I) {n : Nat} {s' : Fs} {a : FsStep}
    (hs : (fsSystem n).step s a s') (hnone : ∀ how, may s.nfdmap (-1) how)
    (hpair : ∀ (how : How) (o : Int), how.isEnd → -1 ≤ o → o < s.nfdmap → may s.nfdmap o how)
    (hp : ∀ note luck, a = .recover note luck → note.Partnered s ∨ ∀ how o, may s.nfdmap o how)
    (hk : ∀ note luck, a = .recover note luck → ∀ k, note.Resets k → sparing k) (h : I s) :
    I s' := by
  cases a with
  | call c =>
    rcases hs with ⟨-, r, hr⟩
    exact (hI.call h c).of_ok hr
  | recover note luck =>
    exact (hI.restorable.recoverNote h hnone hpair (hp note luck rfl) (hk note luck rfl)
      (fun _ _ => trivial) fun _ _ => trivial).of_ok hs.2
  | resume =>
    rcases hs with ⟨-, -, rfl⟩
    exact hI.groups _ _ h

/-! ## The error of a number -/

theorem error_setFile {k : Nat} (herr : fd = k → file.error = (s.files fd).error)
    (h : (s.files k).error = 0) : ((s.setFile fd file).files k).error = 0 := by
  by_cases heq : k = fd
  · subst heq
    simpa [Fs.setFile, herr rfl] using h
  · simpa [Fs.setFile, heq] using h

theorem error_durable (k : Nat) :
    Durable (fun _ _ _ => True) (fun fd => fd ≠ k) fun s => (s.files k).error = 0 where
  outside _ _ _ h := h
  add h hadd := by
    rcases kmAddGuestFdInternal_ok hadd with ⟨-, -, file, rfl, -, herr, -, -⟩
    exact error_setFile (fun _ => herr) h
  note _ _ _ h := error_setFile (fun _ => rfl) h
  connect h _ _ := error_setFile (fun _ => rfl) (error_setFile (fun _ => rfl) h)
  delete {s s' fd} h hdel := by
    have hd := (delGuestFd_spec s fd).of_ok hdel
    by_cases heq : k = fd
    · rw [heq, hd.error, ← heq, h]
    rcases hd.other k heq with ⟨o, ho⟩
    rw [ho]
    exact h
  groups _ _ h := h
  recover _ _ _ _ _ h _ := error_setFile (fun _ => rfl) h
  fail h hfd := error_setFile (fun heq => absurd heq hfd) h

/-- `km_add_guest_fd_internal` leaves the error of the slot as it is, and the error of `k` is zero
in every run that recovers no connected socket with that number. -/
theorem recycled_entries_without_error (n k : Nat) :
    (∀ (s s' : Fs) (fd flags : Nat) (name : Option Name) (how : How) (ops : Option Nat),
      kmAddGuestFdInternal s fd name flags how ops = .ok s' →
        ((s'.files fd).error = 0 ↔ (s.files fd).error = 0)) ∧
      ∀ s : Fs, Reach ((fsSystem n).restrict fun _ a _ =>
        ∀ note luck, a = .recover note luck → ¬ note.Resets k) s → (s.files k).error = 0 := by
  constructor
  · intro s s' fd flags name how ops hadd
    rcases kmAddGuestFdInternal_ok hadd with ⟨-, -, file, rfl, -, herr, -, -⟩
    simp [Fs.setFile, herr]
  intro s hreach
  refine Reach.inv (I := fun t => (t.files k).error = 0) ?_ ?_ hreach
  · rintro t (⟨timeout, host, -, rfl⟩ | ⟨timeout, listeners, host, -, rfl⟩)
    · exact kmFsInit_error n timeout [] host k
    · exact kmFsInit_error n timeout listeners host k
  rintro t a t' ht ⟨hs, hk⟩
  refine (error_durable k).step hs (fun _ => trivial) (fun _ _ _ _ _ => trivial)
    (fun _ _ _ => .inr fun _ _ => trivial) ?_ ht
  rintro note luck ha j hj rfl
  exact hk note luck ha hj

def recycledState : Fs := evaluate (resumedClosed.step? (.call (.dup2 0 3)))

/-- A socket that was connected is restored at 3; the process makes a pipe, closes its read end and
duplicates its input. -/
def reusesNumber : List FsStep :=
  [.recover (.socket connectedNote) .made, .resume, .call (.pipe2 0 none), .call (.close 4),
    .call (.dup 0)]

def reusedNumber : Fs :=
  evaluate (runCalls Fs.step? { kmFsInit 727 0 [] plainHost with recovery := true } reusesNumber)

theorem recycled_entries_without_error_reused : (reusedNumber.files 4).inuse ∧
    (reusedNumber.files 4).how = .open ∧ (reusedNumber.files 4).error = 0 := by
  refine ⟨by decide +kernel, by decide +kernel, (recycled_entries_without_error 727 4).2 reusedNumber
    (Reach.runCalls_of_mem (fun a ha s s' h => ⟨step?_step h, ?_⟩)
      (Reach.init (.inr ⟨0, [], plainHost, plainHost_start, rfl⟩)) eq_eval)⟩
  rintro note luck rfl
  simp only [reusesNumber, List.mem_cons, FsStep.recover.injEq, reduceCtorEq, or_false,
    List.not_mem_nil] at ha
  rw [ha.1]
  rintro ⟨-, ⟨⟩⟩

/-- A terminal at the number of a closed socket has the socket's error. -/
theorem recycled_entry_keeps_error :
    Reach (fsSystem 727) recycledState ∧ (recycledState.files 3).inuse ∧
      (recycledState.files 3).how = .open ∧
        (recycledState.call (.dup 3)).map Prod.fst = .ok ECONNRESET.ret := by
  have hinit : Reach (fsSystem 727) { kmFsInit 727 0 [] plainHost with recovery := true } :=
    Reach.init (.inr ⟨0, [], plainHost, plainHost_start, rfl⟩)
  have hresumed : Reach (fsSystem 727) resumedState :=
    Reach.runCalls (fun _ _ _ h => step?_step h) hinit eq_eval
  have hclosed : Reach (fsSystem 727) resumedClosed :=
    Reach.step hresumed (step?_step eq_eval)
  refine ⟨.step hclosed (step?_step eq_eval), ?_, ?_, ?_⟩
  · decide +kernel
  · decide +kernel
  · exact eq_ok_of_toOption (by decide +kernel)

/-! ## The partner of an entry -/

def Partner (n : Nat) (ofd : Int) (how : How) : Prop :=
  ofd = -1 ∨ 0 ≤ ofd ∧ ofd < n ∧ how.isEnd

def Fs.Partnered (s : Fs) : Prop :=
  ∀ fd, (s.files fd).inuse → Partner s.nfdmap (s.files fd).ofd (s.files fd).how

theorem Fs.Partnered.setFile (h : s.Partnered)
    (hfile : file.inuse → Partner s.nfdmap file.ofd file.how) :
    (s.setFile fd file).Partnered := by
  intro i
  by_cases heq : i = fd
  · simpa [Fs.setFile, heq] using hfile
  · simpa [Fs.setFile, heq] using h i

theorem Fs.Partnered.delGuestFd (h : s.Partnered) : Ends Fs.Partnered (delGuestFd s fd) := by
  have hset : ∀ (t : Fs) (i : Nat), t.Partnered →
      (t.setFile i { t.files i with ofd := -1 }).Partnered :=
    fun t i ht => ht.setFile fun _ => .inl rfl
  unfold Files.delGuestFd
  split
  · trivial
  refine .bind ((inactiveAccept_spec s fd).weaken fun _ _ => trivial) ?_
  rintro _ ⟨n, rfl⟩
  have hclear : (s.setFile fd { s.files fd with
      inuse := false, ops := none, name := none, sockinfo := none, events := [] }).Partnered :=
    h.setFile nofun
  unfold dropPartner
  dsimp only
  split
  · exact hclear
  split
  · trivial
  split
  · exact hset _ _ (hset _ fd hclear)
  · exact hset _ fd hclear

theorem partnered_durable : Durable Partner (fun _ => True) Fs.Partnered where
  outside _ _ _ h := h
  add {s s' fd flags name how ops} h hadd := by
    unfold kmAddGuestFdInternal at hadd
    split at hadd
    · cases hadd
    split at hadd
    · cases hadd
    cases hadd
    exact h.setFile fun _ => .inl rfl
  note fd _ _ h := h.setFile (h fd)
  connect {s fd0 fd1} h h0 h1 := by
    have hset : (s.setFile fd0 { s.files fd0 with ofd := fd1 }).Partnered :=
      h.setFile fun _ => .inr ⟨by simp, by simpa using h1.1, h0.2.2⟩
    refine hset.setFile fun _ => .inr ⟨by simp, by simpa using h0.1, ?_⟩
    by_cases heq : fd1 = fd0
    · simpa [Fs.setFile, heq] using h0.2.2
    · simpa [Fs.setFile, heq] using h1.2.2
  delete h hdel := h.delGuestFd.of_ok hdel
  groups _ _ h := h
  recover _ _ _ _ _ h hp := h.setFile fun _ => hp
  fail {s fd} h _ := h.setFile (h fd)

theorem delGuestFd_tame (hp : Partner s.nfdmap (s.files fd).ofd (s.files fd).how) :
    Holds (fun e => e ≠ .wild) (fun _ => True) (delGuestFd s fd) := by
  unfold delGuestFd
  split
  · exact Abort.noConfusion
  refine Holds.bind ((inactiveAccept_spec s fd).weaken ?_) ?_
  · rintro e rfl
    exact Abort.noConfusion
  rintro _ ⟨n, rfl⟩
  unfold dropPartner
  simp only [kmFdCloseDup, Fs.setFile, Function.update_self]
  split
  · trivial
  rename_i hsome
  split
  next hout =>
    rcases hp with hp | ⟨hlo, hhi, -⟩
    · exact absurd hp hsome
    · omega
  · split <;> trivial

/-- In every run whose notes ask for partners that their entries may have, an entry in use has no
partner or is an end of a pair with one in the table, and `del_guest_fd` stays in the table. -/
theorem partners_in_table (n : Nat) (s : Fs) (h : Reach ((fsSystem n).restrict fun s a _ =>
      ∀ note luck, a = .recover note luck → note.Partnered s) s) : ∀ fd, (s.files fd).inuse →
      Partner s.nfdmap (s.files fd).ofd (s.files fd).how ∧ delGuestFd s fd ≠ .error .wild := by
  have hinv : s.Partnered := by
    refine Reach.inv ?_ ?_ h
    · have hinit : ∀ (timeout : Int) (listeners : List Listener) (host : Host) (fd : Nat),
          ((kmFsInit n timeout listeners host).files fd).inuse →
            ((kmFsInit n timeout listeners host).files fd).ofd = -1 := by
        intro timeout listeners host fd hin
        match fd with
        | 0 | 1 | 2 => rfl
        | fd + 3 => cases hin
      rintro t (⟨timeout, host, -, rfl⟩ | ⟨timeout, listeners, host, -, rfl⟩) fd hin
      · exact .inl (hinit timeout [] host fd hin)
      · exact .inl (hinit timeout listeners host fd hin)
    rintro t a t' ht ⟨hs, hp⟩
    refine partnered_durable.step hs (fun _ => .inl rfl) (fun how o hend hlo hhi => ?_)
      (fun note luck ha => .inl (hp note luck ha)) (fun _ _ _ _ _ => trivial) ht
    by_cases hneg : o = -1
    · exact .inl hneg
    · exact .inr ⟨by omega, hhi, hend⟩
  exact fun fd hin => ⟨hinv fd hin, fun hwild => (delGuestFd_tame (hinv fd hin)).of_error hwild rfl⟩

theorem partners_in_table_pipe : (afterPipe.files 3).ofd = 4 ∧
      Partner afterPipe.nfdmap (afterPipe.files 3).ofd (afterPipe.files 3).how := by
  refine ⟨by decide +kernel, (partners_in_table 727 afterPipe (Reach.step (Reach.init
    (.inl ⟨0, plainHost, plainHost_start, rfl⟩)) (a := .call (.pipe2 0 none)) ⟨?_, ?_⟩) 3 ?_).1⟩
  · exact step?_step eq_eval
  · rintro note luck ⟨⟩
  · decide +kernel

def fileHost : Host :=
  { plainHost with
    names := fun name => if name = [0x66] then some 1 else none
    inodes := fun ino => if ino = 1 then ⟨0o100644, []⟩ else plainHost.inodes ino
    freshInode := 2 }

/-- A process resumed from a snapshot that was taken at offset 100000 of the file. -/
def resumedFile : Fs :=
  evaluate (runCalls Fs.step? { kmFsInit 727 0 [] fileHost with recovery := true }
    [.recover (.file ⟨3, .open, 0, 0o100644, 0, 100000, [0x66], []⟩) .made, .resume])

/-- The offset became the partner, and `close` looks outside the table. -/
theorem offset_taken_for_partner : Reach (fsSystem 727) resumedFile ∧ (resumedFile.files 3).inuse ∧
      (resumedFile.files 3).ofd = 100000 ∧ resumedFile.call (.close 3) = .error .wild := by
  have hp := plainHost_start
  have hstart : HostStart 727 fileHost [] := ⟨hp.three, hp.room, hp.bound, hp.std, hp.rest,
    hp.listening, hp.early⟩
  refine ⟨Reach.runCalls (fun _ _ _ h => step?_step h)
    (Reach.init (.inr ⟨0, [], fileHost, hstart, rfl⟩)) eq_eval, ?_, ?_, ?_⟩
  · decide +kernel
  · decide +kernel
  · exact eq_error_of_errorOf (by decide +kernel)

end KontainMonitor.Files
