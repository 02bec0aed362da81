import KontainMonitor.Files.Recover
import Mathlib

/-!
# Save — the descriptors of a snapshot (`km_filesys.c`, snapshot generation)

`km_fs_core_notes_write` goes over the table and writes a note for every entry in use.  What the
kernel says about a descriptor while its note is written is an argument here, so that the notes are a
function of the table and of these answers.
-/

namespace KontainMonitor.Files

def EOPNOTSUPP : Errno := ⟨95, by decide⟩

/-- Why a snapshot is not written. -/
inductive SaveError
  /-- the error that `km_dump_core` returns -/
  | rc (e : Errno)
  /-- the monitor ends -/
  | abort (a : Abort)
  deriving DecidableEq

inductive Seek
  | at (offset : Nat)
  | espipe
  | failed (e : Errno)
  deriving DecidableEq

/-- What the kernel answers about a descriptor: `fstat`, `lseek`, the bytes of `FIONREAD` and `read`
(their number is an `int`), `F_GETPIPE_SZ`, `epoll_wait`, and the count in
`/proc/self/fdinfo`.  `save` is an error of `fs_core_save_pipe_contents`. -/
structure FdAnswers where
  mode : Except Errno Nat
  pos : Seek
  queued : List Byte
  queued_lt : queued.length < 2 ^ 31
  pipesize : Nat
  save : Option SaveError
  pending : Except Errno Bool
  eventCount : Except Errno Nat

theorem no_bytes_lt : ([] : List Byte).length < 2 ^ 31 := by decide

def noteData (file : KmFile) (mode : Nat) (pos : Seek) : Except SaveError Nat :=
  if hasFlag mode S_IFIFO then .ok (asWord file.ofd)
  else
    match pos with
    | .at offset => .ok offset
    | .espipe => .ok (asWord (-1))
    | .failed e => .error (.rc e)

def saveQueued (k : FdAnswers) (queued : List Byte) : Except SaveError (List Byte) :=
  if queued = [] then .ok []
  else
    match k.save with
    | some e => .error e
    | none => .ok queued

/-- `fs_core_write_nonsocket`: the note, and how many bytes its header counts for the data of a
pipe.  The bytes are saved only for a descriptor above the standard ones. -/
def fsCoreWriteNonsocket (file : KmFile) (fd : Nat) (k : FdAnswers) :
    Except SaveError (NtFile × Nat) :=
  match k.mode with
  | .error e => .error (.rc e)
  | .ok mode =>
    match file.name with
    | none => .error (.abort .wild)
    | some name => do
      let queued := if file.how = .pipe0 then k.queued else []
      let data ← noteData file mode k.pos
      let pipedata ← saveQueued k (if 2 < fd then queued else [])
      return (⟨fd, file.how, file.flags, mode, if file.how = .pipe0 then k.pipesize else 0, data,
        name, pipedata⟩, queued.length)

def noteState : SockState → NtSockState
  | .open => .open
  | .bind => .bind
  | .listen => .listen
  | .accept => .error
  | .connect => .error

def fsCoreWriteSocket (file : KmFile) (sock : SockInfo) (fd : Nat) (k : FdAnswers) :
    Except SaveError (NtSocket × Nat) :=
  match k.mode with
  | .error e => .error (.rc e)
  | .ok _ => do
    let queued := if file.how = .socketpair0 ∨ file.how = .socketpair1 then k.queued else []
    let sockdata ← saveQueued k queued
    return (⟨fd, file.how, noteState sock.state, sock.backlog, sock.domain, sock.type,
      sock.protocol, file.ofd, sock.addr, sockdata⟩, queued.length)

/-- `fs_core_write_eventfd`: only the fields that are not zero. -/
def fsCoreWriteEventfd (file : KmFile) (fd : Nat) (k : FdAnswers) : Except SaveError NtFile :=
  match k.mode, k.eventCount with
  | .error e, _ => .error (.rc e)
  | .ok _, .error e => .error (.rc e)
  | .ok _, .ok count => .ok ⟨fd, .open, file.flags, 0, 0, count, [], []⟩

/-- `fs_core_write_epollfd`: not while there are events to be fetched. -/
def fsCoreWriteEpollfd (file : KmFile) (fd : Nat) (k : FdAnswers) : Except SaveError NtEpollfd :=
  match k.mode, k.pending with
  | .error e, _ => .error (.rc e)
  | .ok _, .error e => .error (.rc e)
  | .ok _, .ok true => .error (.rc EAGAIN)
  | .ok _, .ok false => .ok ⟨fd, file.flags, file.events⟩

/-- The body of the loop of `km_fs_core_notes_write`: the note of one descriptor, with the number of
queued bytes that its header counts. -/
def fsCoreNote (file : KmFile) (fd : Nat) (k : FdAnswers) : Except SaveError (FsNote × Nat) :=
  if file.how = .epollfd then (fsCoreWriteEpollfd file fd k).map fun nt => (.epollfd nt, 0)
  else if file.how = .eventfd then (fsCoreWriteEventfd file fd k).map fun nt => (.eventfd nt, 0)
  else if file.how = .timerfd then .error (.rc EOPNOTSUPP)
  else
    match file.sockinfo with
    | none => (fsCoreWriteNonsocket file fd k).map fun r => (.file r.1, r.2)
    | some sock => (fsCoreWriteSocket file sock fd k).map fun r => (.socket r.1, r.2)

def kmFsCoreNotesWrite (s : Fs) (ask : Nat → FdAnswers) : Except SaveError (List (FsNote × Nat)) :=
  ((List.range s.nfdmap).filter fun fd => (s.files fd).inuse).mapM fun fd =>
    fsCoreNote (s.files fd) fd (ask fd)

/-- A pipe's read end among the standard descriptors, whose bytes are counted and not saved. -/
def unsavedReadEnd (s : Fs) (ask : Nat → FdAnswers) (fd : Nat) : Prop :=
  (s.files fd).inuse ∧ (s.files fd).how = .pipe0 ∧ (s.files fd).sockinfo = none ∧
    (ask fd).queued ≠ []

end KontainMonitor.Files
