import KontainMonitor.Files.Host
import KontainMonitor.Lib.Outcome

/-!
# Table — the monitor's table of guest descriptors (`km_filesys.c`, `km_filesys_private.h`)

`guest_files` has one entry for every descriptor number below `nfdmap`.  `dup_data` records which
descriptors were made from each other by `dup` and its relatives.  The C code ends the monitor when
an assertion fails; here such a call ends with an `Abort` that says where.
-/

namespace KontainMonitor.Files

inductive How
  | open
  | pipe0
  | pipe1
  | epollfd
  | socket
  | accept
  | socketpair0
  | socketpair1
  | recvmsg
  | eventfd
  | timerfd
  deriving DecidableEq

def howCode : How → Nat
  | .open => 0
  | .pipe0 => 1
  | .pipe1 => 2
  | .epollfd => 3
  | .socket => 4
  | .accept => 5
  | .socketpair0 => 6
  | .socketpair1 => 7
  | .recvmsg => 8
  | .eventfd => 9
  | .timerfd => 10

inductive SockState
  | open
  | bind
  | listen
  | accept
  | connect
  deriving DecidableEq

/-- `km_fd_socket_t`; `addr` are its first `addrlen` bytes. -/
structure SockInfo where
  state : SockState
  backlog : Int
  domain : Nat
  type : Nat
  protocol : Nat
  addr : List Byte
  deriving DecidableEq

structure FsEvent where
  fd : Nat
  event : EpollEvent
  deriving DecidableEq

/-- `km_file_t`; `ops` is the line of `km_filename_table` that the pointer points into. -/
structure KmFile where
  inuse : Bool
  how : How
  flags : Nat
  error : Int
  ops : Option Nat
  ofd : Int
  name : Option Name
  sockinfo : Option SockInfo
  events : List FsEvent
  deriving DecidableEq

/-- What `calloc` leaves in an entry. -/
def KmFile.zero : KmFile where
  inuse := false
  how := .open
  flags := 0
  error := 0
  ops := none
  ofd := 0
  name := none
  sockinfo := none
  events := []

/-- An element of `km_snap_listening_state_p`. -/
structure Listener where
  listenFd : Nat
  acceptFd : Option Nat
  deriving DecidableEq

/-- The monitor's file state and the kernel's.  `dups` is `dup_data`, `recovery` is
`machine.mmaps.recovery_mode`, `acceptTimeout` is `light_snap_accept_timeout`. -/
structure Fs where
  nfdmap : Nat
  files : Nat → KmFile
  dups : List (List Nat)
  recovery : Bool
  acceptTimeout : Int
  acceptCnt : Int
  listeners : List Listener
  host : Host

/-- Where a call ends the monitor. -/
inductive Abort
  /-- `km_assert(host_fd >= 0 && host_fd < km_fs()->nfdmap)` -/
  | hostFd
  /-- `km_abortx("open file slot %d already open on file %s, new file %s ")` -/
  | slotOpen
  /-- the assertions of `km_fs_event_add`, `km_fs_event_mod` and `km_fs_event_del` -/
  | event
  /-- the assertions of `del_guest_fd` -/
  | notOpen
  /-- `km_assert(accept_cnt >= 0)` -/
  | acceptCnt
  /-- `km_assert(name != NULL)` -/
  | noName
  /-- the assertions of the recovery functions -/
  | recover
  /-- `km_errx`, `km_err`: the recovery gives up -/
  | exit
  /-- an access through a null pointer or outside `guest_files` -/
  | wild
  deriving DecidableEq

namespace Fs

def setFile (s : Fs) (fd : Nat) (file : KmFile) : Fs :=
  { s with files := Function.update s.files fd file }

section

variable (s : Fs) (fd : Nat) (file : KmFile)
include s fd file

@[simp] theorem setFile_nfdmap : (s.setFile fd file).nfdmap = s.nfdmap := rfl

@[simp] theorem setFile_host : (s.setFile fd file).host = s.host := rfl

@[simp] theorem setFile_recovery : (s.setFile fd file).recovery = s.recovery := rfl

@[simp] theorem setFile_listeners : (s.setFile fd file).listeners = s.listeners := rfl

end

end Fs

/-! ## Groups of duplicates -/

/-- `km_fs_check_for_dups_nolock`: an open duplicate of `fd`, `-2` when `fd` is the first of its
group, `-1` when it is in no group. -/
def kmFsCheckForDupsNolock (s : Fs) (fd : Nat) : Int :=
  match s.dups.find? fun group => group.contains fd with
  | none => -1
  | some group =>
    match group.find? fun ofd => ofd != fd && (s.files ofd).inuse with
    | some ofd => ofd
    | none => -2

/-- The search of `km_fs_add_to_dup_data`: the first group with `old` gets `new` at its end. -/
def addToGroup (new old : Nat) : List (List Nat) → List (List Nat)
  | [] => [[old, new]]
  | group :: rest =>
    if group.contains old then (group ++ [new]) :: rest else group :: addToGroup new old rest

/-- `km_fs_add_to_dup_data`: nothing during recovery, where the groups were restored first. -/
def kmFsAddToDupData (s : Fs) (new old : Nat) : Fs :=
  if s.recovery then s else { s with dups := addToGroup new old s.dups }

/-- The search of `km_fd_close_dup`: `fd` leaves the first group it is in, and a group of two goes
away. -/
def closeInGroups (fd : Nat) : List (List Nat) → List (List Nat)
  | [] => []
  | group :: rest =>
    if group.contains fd then
      if group.length > 2 then group.erase fd :: rest else rest
    else group :: closeInGroups fd rest

def kmFdCloseDup (s : Fs) (fd : Nat) : Fs := { s with dups := closeInGroups fd s.dups }

/-! ## Entries -/

/-- `km_get_nonfile_name`: the name under `/proc/self/fd`. -/
def kmGetNonfileName (s : Fs) (hostfd : Nat) : Option Name :=
  (s.host.fds hostfd).map fun d => (s.host.descs d).link

/-- `km_add_guest_fd_internal`.  The entry's `error` is not written. -/
def kmAddGuestFdInternal (s : Fs) (hostFd : Nat) (name : Option Name) (flags : Nat) (how : How)
    (ops : Option Nat) : Except Abort Fs :=
  if s.nfdmap ≤ hostFd then .error .hostFd
  else if (s.files hostFd).inuse then .error .slotOpen
  else
    .ok (s.setFile hostFd { s.files hostFd with
      inuse := true
      ops := ops
      how := how
      ofd := -1
      sockinfo := none
      events := []
      name := match name with
        | none => kmGetNonfileName s hostFd
        | some n => some n
      flags := flags })

def kmConnectFiles (s : Fs) (fd0 fd1 : Nat) : Fs :=
  let s := s.setFile fd0 { s.files fd0 with ofd := fd1 }
  s.setFile fd1 { s.files fd1 with ofd := fd0 }

def Fs.setSockinfo (s : Fs) (fd : Nat) (sock : SockInfo) : Fs :=
  s.setFile fd { s.files fd with sockinfo := some sock }

def kmAddSocketFd (s : Fs) (hostfd : Nat) (name : Option Name) (flags domain type protocol : Nat)
    (how : How) : Except Abort Fs := do
  let s ← kmAddGuestFdInternal s hostfd name flags how none
  return s.setSockinfo hostfd ⟨.open, 0, domain, type, protocol, []⟩

def kmDupSocketFd (s : Fs) (hostfd : Nat) (name : Option Name) (flags : Nat) (sock : SockInfo)
    (how : How) : Except Abort Fs := do
  let s ← kmAddGuestFdInternal s hostfd name flags how none
  return s.setSockinfo hostfd sock

/-- `km_set_active_accept`, without the time stamp. -/
def kmSetActiveAccept (s : Fs) : Fs :=
  if s.acceptTimeout = 0 then s else { s with acceptCnt := s.acceptCnt + 1 }

/-- `km_set_inactive_accept`, without the wakeup of the main thread when the count reaches zero. -/
def kmSetInactiveAccept (s : Fs) : Except Abort Fs :=
  if s.acceptTimeout = 0 then .ok s
  else if s.acceptCnt - 1 < 0 then .error .acceptCnt
  else .ok { s with acceptCnt := s.acceptCnt - 1 }

/-- `km_set_inactive_accept()` in `del_guest_fd`: only for accepted sockets without an error. -/
def inactiveAccept (s : Fs) (fd : Nat) : Except Abort Fs :=
  if s.acceptTimeout ≠ 0 ∧ (s.files fd).how = .accept ∧ (s.files fd).error = 0 then
    kmSetInactiveAccept s
  else .ok s

/-- The last part of `del_guest_fd`: the partner forgets `fd`. -/
def dropPartner (s : Fs) (fd : Nat) : Except Abort Fs :=
  let ofd := (s.files fd).ofd
  if ofd = -1 then .ok s
  else if ofd < 0 ∨ (s.nfdmap : Int) ≤ ofd then .error .wild
  else
    let s := s.setFile fd { s.files fd with ofd := -1 }
    let other := s.files ofd.toNat
    if other.ofd = fd then .ok (s.setFile ofd.toNat { other with ofd := -1 }) else .ok s

def delGuestFd (s : Fs) (fd : Nat) : Except Abort Fs :=
  if s.nfdmap ≤ fd ∨ (s.files fd).inuse = false then .error .notOpen
  else do
    let s ← inactiveAccept s fd
    let s := s.setFile fd { s.files fd with
      inuse := false, ops := none, name := none, sockinfo := none, events := [] }
    dropPartner (kmFdCloseDup s fd) fd

/-! ### What the functions do to the table -/

theorem kmAddGuestFdInternal_ok {s s' : Fs} {fd flags : Nat} {name : Option Name} {how : How}
    {ops : Option Nat} (h : kmAddGuestFdInternal s fd name flags how ops = .ok s') :
    fd < s.nfdmap ∧ (s.files fd).inuse = false ∧
      ∃ file, s' = s.setFile fd file ∧ file.inuse ∧ file.error = (s.files fd).error ∧
        file.events = [] ∧ file.how = how := by
  unfold kmAddGuestFdInternal at h
  split at h
  · cases h
  split at h
  · cases h
  cases h
  exact ⟨by omega, Bool.eq_false_iff.2 ‹¬(s.files fd).inuse = true›, _, rfl, rfl, rfl, rfl, rfl⟩

def PartnersOf (s s' : Fs) : Prop :=
  ∃ files, s' = { s with files := files } ∧ ∀ i, ∃ o, files i = { s.files i with ofd := o }

theorem dropPartner_spec (s : Fs) (fd : Nat) :
    Outcome.Holds (fun e => e = .wild) (PartnersOf s) (dropPartner s fd) := by
  have hself : PartnersOf s s := ⟨s.files, rfl, fun i => ⟨(s.files i).ofd, rfl⟩⟩
  have hset : ∀ (t : Fs) (i : Nat) (o : Int), PartnersOf s t →
      PartnersOf s (t.setFile i { t.files i with ofd := o }) := by
    rintro t i o ⟨files, rfl, hfiles⟩
    refine ⟨_, rfl, fun j => ?_⟩
    rcases hfiles j with ⟨o', ho'⟩
    by_cases hj : j = i
    · subst hj
      exact ⟨o, by simp [ho']⟩
    · exact ⟨o', by simpa [hj] using ho'⟩
  unfold dropPartner
  dsimp only
  split
  · exact hself
  split
  · rfl
  split
  · exact hset _ _ _ (hset _ _ _ hself)
  · exact hset _ _ _ hself

theorem inactiveAccept_spec (s : Fs) (fd : Nat) :
    Outcome.Holds (fun e => e = .acceptCnt) (fun s' => ∃ n, s' = { s with acceptCnt := n })
      (inactiveAccept s fd) := by
  have hself : ∃ n, s = { s with acceptCnt := n } := ⟨s.acceptCnt, rfl⟩
  unfold inactiveAccept kmSetInactiveAccept
  split
  · split
    · exact hself
    split
    · rfl
    · exact ⟨_, rfl⟩
  · exact hself

structure Deleted (s : Fs) (fd : Nat) (s' : Fs) : Prop where
  nfdmap : s'.nfdmap = s.nfdmap
  host : s'.host = s.host
  recovery : s'.recovery = s.recovery
  listeners : s'.listeners = s.listeners
  inuse : (s'.files fd).inuse = false
  events : (s'.files fd).events = []
  error : (s'.files fd).error = (s.files fd).error
  other : ∀ i, i ≠ fd → ∃ o, s'.files i = { s.files i with ofd := o }

theorem delGuestFd_spec (s : Fs) (fd : Nat) :
    Outcome.Holds (fun e => e ≠ .hostFd ∧ e ≠ .slotOpen ∧ e ≠ .event) (Deleted s fd)
      (delGuestFd s fd) := by
  unfold delGuestFd
  split
  · simp
  refine .bind ((inactiveAccept_spec s fd).weaken ?_) ?_
  · rintro e rfl
    simp
  rintro _ ⟨n, rfl⟩
  refine ((dropPartner_spec _ fd).weaken ?_).mono ?_
  · rintro e rfl
    simp
  rintro _ ⟨files, rfl, hfiles⟩
  rcases hfiles fd with ⟨o, ho⟩
  refine ⟨rfl, rfl, rfl, rfl, ?_, ?_, ?_, fun i hi => ?_⟩
  · simp [ho, kmFdCloseDup, Fs.setFile]
  · simp [ho, kmFdCloseDup, Fs.setFile]
  · simp [ho, kmFdCloseDup, Fs.setFile]
  rcases hfiles i with ⟨o', ho'⟩
  exact ⟨o', by simp [ho', kmFdCloseDup, Fs.setFile, hi]⟩

def kmFsG2hFd (s : Fs) (fd : Int) : Option Nat :=
  if fd < 0 ∨ (s.nfdmap : Int) ≤ fd then none
  else if (s.files fd.toNat).inuse then some fd.toNat
  else none

/-! ## The table of a fresh process -/

def stdinName : Name := ['[', 's', 't', 'd', 'i', 'n', ']'].map fun c => BitVec.ofNat 8 c.toNat
def stdoutName : Name := ['[', 's', 't', 'd', 'o', 'u', 't', ']'].map fun c => BitVec.ofNat 8 c.toNat
def stderrName : Name := ['[', 's', 't', 'd', 'e', 'r', 'r', ']'].map fun c => BitVec.ofNat 8 c.toNat

def devPts : Name :=
  ['/', 'd', 'e', 'v', '/', 'p', 't', 's', '/'].map fun c => BitVec.ofNat 8 c.toNat

/-- The name that `km_fs_init` gives a standard descriptor: terminals are not remembered by name. -/
def stdName (link std : Name) : Name := if devPts.isPrefixOf link then std else link

/-- `km_fs_init` for a monitor that was not started by `execve`: the entries of 0, 1 and 2. -/
def kmFsInit (nfdmap : Nat) (acceptTimeout : Int) (listeners : List Listener) (host : Host) : Fs :=
  let link := fun fd => (host.fds fd).map fun d => (host.descs d).link
  let entry := fun fd (std : Name) flags => { KmFile.zero with
    inuse := true, ofd := -1, flags := flags, name := (link fd).map fun l => stdName l std }
  { nfdmap := nfdmap
    files := fun fd =>
      match fd with
      | 0 => entry 0 stdinName 0
      | 1 => entry 1 stdoutName O_WRONLY
      | 2 => entry 2 stderrName O_WRONLY
      | _ => KmFile.zero
    dups := []
    recovery := false
    acceptTimeout := acceptTimeout
    acceptCnt := 0
    listeners := listeners
    host := host }

end KontainMonitor.Files
