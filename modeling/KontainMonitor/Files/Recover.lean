import KontainMonitor.Files.Calls

/-!
# Recover — the descriptors of a restored process (`km_filesys.c`, snapshot recovery)

A snapshot holds a note for every descriptor.  `km_fs_recover` goes over the notes by kind; each
note opens its object again and moves it to the number it had.  A handler that returns `-1` makes the
monitor exit.
-/

namespace KontainMonitor.Files

/-- `km_nt_file_t` with the name and the queued bytes that follow it; `data` is an offset or the
partner's number, as a 64-bit word. -/
structure NtFile where
  fd : Nat
  how : How
  flags : Nat
  mode : Nat
  pipesize : Nat
  data : Nat
  name : Name
  pipedata : List Byte
  deriving DecidableEq

inductive NtSockState
  | open
  | bind
  | listen
  | error
  deriving DecidableEq

structure NtSocket where
  fd : Nat
  how : How
  state : NtSockState
  backlog : Int
  domain : Nat
  type : Nat
  protocol : Nat
  other : Int
  addr : List Byte
  sockdata : List Byte
  deriving DecidableEq

structure NtEpollfd where
  fd : Nat
  flags : Nat
  events : List FsEvent
  deriving DecidableEq

def asInt (w : Nat) : Int := (BitVec.ofNat 32 w).toInt

def asWord (i : Int) : Nat := (BitVec.ofInt 64 i).toNat

/-! ## Moving a descriptor to its number -/

section

variable (h : Host) (s : Fs)

/-- `dup2(hostfd, guestfd)` and `close(hostfd)`, when they are different. -/
def moveFd (hostfd guestfd : Nat) : Except Errno Host :=
  if guestfd = hostfd then .ok h
  else (h.dup2 hostfd guestfd).map fun h' => h'.close hostfd

/-- `km_fs_recover_fd`.  A negative number stands for an end that was closed. -/
def kmFsRecoverFd (guestfd : Int) (hostfd flags : Nat) (name : Option Name) (ofd : Int) (how : How) :
    Fs :=
  if guestfd < 0 then { s with host := s.host.close hostfd }
  else
    match moveFd s.host hostfd guestfd.toNat with
    | .error _ => s
    | .ok host =>
      { s with host := host }.setFile guestfd.toNat { s.files guestfd.toNat with
        inuse := true, how := how, flags := flags, name := name, ofd := ofd, events := [] }

def recoverEnd (guestfd : Int) (hostfd flags : Nat) (ofd : Int) (how : How) : Fs :=
  kmFsRecoverFd s guestfd hostfd flags (kmGetNonfileName s hostfd) ofd how

/-- `km_fs_recover_fdpair`: the second end goes first when the first end takes its place. -/
def kmFsRecoverFdpair (guestfd : Int × Int) (hostfd : Nat × Nat) (how : How × How)
    (flags : Nat × Nat) : Except Abort Fs :=
  if (s.nfdmap : Int) ≤ guestfd.1 ∨ (s.nfdmap : Int) ≤ guestfd.2 then .error .exit
  else if guestfd.1 = hostfd.2 then
    let s := recoverEnd s guestfd.2 hostfd.2 flags.2 guestfd.1 how.2
    .ok (recoverEnd s guestfd.1 hostfd.1 flags.1 guestfd.2 how.1)
  else
    let s := recoverEnd s guestfd.1 hostfd.1 flags.1 guestfd.2 how.1
    .ok (recoverEnd s guestfd.2 hostfd.2 flags.2 guestfd.1 how.2)

def writeBack (fd : Int) (bytes : List Byte) : Except Abort Host :=
  if bytes = [] then .ok h
  else if fd < 0 then .error .exit
  else
    match h.writeAll fd.toNat bytes with
    | .error _ => .error .exit
    | .ok h' => .ok h'

/-! ## Files and pipes -/

/-- The bytes queued in a read end go into the new pipe while its write end is open. -/
def refillPipe (nt : NtFile) (writefd : Nat) : Except Abort Host :=
  if nt.how = .pipe0 then writeBack h writefd nt.pipedata else .ok h

/-- The numbers that a pipe's note asks for; the recorded flags tell the direction. -/
def pipeEnds (nt : NtFile) : Int × Int :=
  if hasFlag nt.flags O_WRONLY then (asInt nt.data, nt.fd) else (nt.fd, asInt nt.data)

def kmFsRecoverPipe (nt : NtFile) : Except Abort Fs :=
  let file := s.files nt.fd
  if file.inuse then
    -- this end was made together with the other one
    if asWord file.ofd ≠ nt.data then .error .recover
    else if file.how = .pipe0 then do
      let host ← writeBack s.host file.ofd nt.pipedata
      return { s with host := host }
    else .ok s
  else
    let flags := nt.flags &&& (0xffffffff ^^^ O_WRONLY)
    match s.host.pipe2 flags none with
    | .error _ => .error .exit
    | .ok (hostfd, host) => do
      let host ← refillPipe host nt hostfd.2
      match host.setPipeSize hostfd.1 nt.pipesize with
      | .error _ => .error .exit
      | .ok host =>
        kmFsRecoverFdpair { s with host := host } (pipeEnds nt) hostfd (.pipe0, .pipe1)
          (flags, flags)

/-- `km_fs_dup3` as the recovery calls it: its `uint64_t` is never below 0, and the restore goes on. -/
def recoverDup (old : Int) (new flags : Nat) : Except Abort Fs := do
  let (_, s) ← kmFsDup3 s old new flags
  return s

/-- The standard descriptors that the restored process takes over from the monitor. -/
def inherited (nt : NtFile) : Bool :=
  (nt.fd == 0 && nt.name == stdinName) || (nt.fd == 1 && nt.name == stdoutName) ||
    (nt.fd == 2 && nt.name == stderrName)

/-- The part of `km_fs_recover_open_file` that opens a file by its name. -/
def recoverByName (nt : NtFile) : Except Abort Fs :=
  match s.host.openName nt.name nt.flags 0 none with
  | .error _ => .error .exit
  | .ok (fd, host) =>
    match (host.objectOf fd).map fun o => match o with
      | .inode ino => (host.inodes ino).mode
      | _ => 0 with
    | none => .error .exit
    | some mode =>
      if mode ≠ nt.mode then .error .exit
      else
        let s := kmFsRecoverFd { s with host := host } nt.fd fd nt.flags (some nt.name)
          (asInt nt.data) nt.how
        if fileType nt.mode = S_IFREG ∧ nt.data ≠ 0 then
          -- lseek(nt_file->fd, nt_file->data, SEEK_SET)
          match s.host.fds nt.fd with
          | none => .error .exit
          | some d =>
            .ok { s with host := { s.host with
              descs := Function.update s.host.descs d
                { s.host.descs d with offset := nt.data } } }
        else .ok s

def kmFsRecoverOpenFile (nt : NtFile) : Except Abort Fs :=
  if s.nfdmap ≤ nt.fd then .error .exit
  else if inherited nt then .ok s
  else
    let dupFd := kmFsCheckForDupsNolock s nt.fd
    if 0 ≤ dupFd then recoverDup s dupFd nt.fd (nt.flags &&& O_CLOEXEC)
    else if fileType nt.mode = S_IFSOCK then .error .exit
    else if fileType nt.mode = S_IFIFO then kmFsRecoverPipe s nt
    else recoverByName s nt

def kmFsRecoverDupData (groups : List (List Nat)) : Except Abort Fs :=
  .ok { s with dups := groups }

/-! ## Sockets -/

/-- What the kernel does with the calls that make a socket again. -/
inductive SocketLuck
  | made
  | noSocket
  | noBind
  deriving DecidableEq

/-- The record of a recovered socket: its state and its backlog are not taken over. -/
def recoveredSockinfo (nt : NtSocket) : SockInfo :=
  ⟨.open, 0, nt.domain, nt.type, nt.protocol, nt.addr⟩

def socketErrorName : Name :=
  ['s', 'o', 'c', 'k', 'e', 't', ' ', 'e', 'r', 'r', 'o', 'r'].map fun c => BitVec.ofNat 8 c.toNat

/-- The last part of `km_fs_recover_socket`: the entry of the recovered socket. -/
def addRecoveredSocket (nt : NtSocket) (hostfd : Nat) : Fs :=
  let s := kmFsRecoverFd s nt.fd hostfd 0 (kmGetNonfileName s hostfd) (-1) nt.how
  let s := if nt.state = .error then
      s.setFile nt.fd { s.files nt.fd with error := ECONNRESET.ret, name := some socketErrorName }
    else s
  s.setSockinfo nt.fd (recoveredSockinfo nt)

/-- `km_fs_recover_socket`; a listener of `light_snap_listen` is already open.  The caller ignores
that the call failed. -/
def kmFsRecoverSocket (nt : NtSocket) (luck : SocketLuck) : Except Abort Fs :=
  if s.nfdmap ≤ nt.fd then .ok s
  else if (s.files nt.fd).inuse then .error .recover
  else if s.listeners.any fun l => l.listenFd == nt.fd then .ok (addRecoveredSocket s nt nt.fd)
  else
    match s.host.install (socketDesc s) none with
    | .error _ => .ok s
    | .ok (fd, host) =>
      if luck = .noSocket then .ok s
      else if luck = .noBind ∧ (nt.state = .bind ∨ nt.state = .listen) then
        .ok { s with host := host }
      else .ok (addRecoveredSocket { s with host := host } nt fd)

/-- `km_fs_recover_socketpair`.  The entries get no socket record. -/
def kmFsRecoverSocketpair (nt : NtSocket) : Except Abort Fs :=
  if s.nfdmap ≤ nt.fd then .error .wild
  else if (s.files nt.fd).inuse then do
    let host ← writeBack s.host nt.other nt.sockdata
    return { s with host := host }
  else
    match s.host.socketpair none with
    | .error _ => .error .exit
    | .ok (hostfd, host) =>
      if nt.how = .socketpair0 then do
        let host ← writeBack host hostfd.2 nt.sockdata
        kmFsRecoverFdpair { s with host := host } (nt.fd, nt.other) hostfd
          (.socketpair0, .socketpair1) (0, 0)
      else do
        let host ← writeBack host hostfd.1 nt.sockdata
        kmFsRecoverFdpair { s with host := host } (nt.other, nt.fd) hostfd
          (.socketpair1, .socketpair0) (0, 0)

/-- `km_fs_dup2` as the recovery of a socket calls it. -/
def recoverDup2 (old : Int) (new : Nat) : Except Abort Fs := do
  let (_, s) ← kmFsDup2 s old new
  return s

def kmFsRecoverOpenSocket (nt : NtSocket) (luck : SocketLuck) : Except Abort Fs :=
  let dupFd := kmFsCheckForDupsNolock s nt.fd
  if 0 ≤ dupFd then recoverDup2 s dupFd nt.fd
  else if nt.how = .socketpair0 ∨ nt.how = .socketpair1 then kmFsRecoverSocketpair s nt
  else kmFsRecoverSocket s nt luck

/-! ## Event descriptors -/

def kmFsRecoverEventfd (nt : NtFile) : Except Abort Fs :=
  if s.nfdmap ≤ nt.fd then .error .wild
  else if (s.files nt.fd).inuse then .error .exit
  else
    let dupFd := kmFsCheckForDupsNolock s nt.fd
    if 0 ≤ dupFd then recoverDup s dupFd nt.fd (nt.flags &&& O_CLOEXEC)
    else
      let count := (BitVec.ofNat 32 nt.data).toNat
      let d := anonDesc (.eventfd count) ['e', 'v', 'e', 'n', 't', 'f', 'd'] s.host.fresh
      match s.host.install d none with
      | .error _ => .error .exit
      | .ok (fd, host) =>
        let s := { s with host := host }
        .ok (kmFsRecoverFd s nt.fd fd nt.flags (kmGetNonfileName s fd) (asInt nt.data) .eventfd)

/-- The loop of `km_fs_recover_epollfd` over the watched descriptors. -/
def recoverEvent (epfd : Nat) (s : Fs) (e : FsEvent) : Except Abort Fs :=
  match kmFsG2hFd s e.fd with
  | none => .error .exit
  | some n =>
    match s.host.epollCtl epfd .add n e.event none with
    | .error _ => .error .exit
    | .ok host =>
      .ok ({ s with host := host }.setFile epfd
        { s.files epfd with events := (s.files epfd).events ++ [e] })

def kmFsRecoverEpollfd (nt : NtEpollfd) : Except Abort Fs :=
  if s.nfdmap ≤ nt.fd then .error .exit
  else if (s.files nt.fd).inuse then .error .exit
  else
    let dupFd := kmFsCheckForDupsNolock s nt.fd
    if 0 ≤ dupFd then recoverDup s dupFd nt.fd (nt.flags &&& O_CLOEXEC)
    else
      let d := anonDesc .epoll ['e', 'v', 'e', 'n', 't', 'p', 'o', 'l', 'l'] s.host.fresh
      match s.host.install d none with
      | .error _ => .error .exit
      | .ok (fd, host) =>
        let s := { s with host := host }
        let s := kmFsRecoverFd s nt.fd fd 0 (kmGetNonfileName s fd) (-1) .epollfd
        nt.events.foldlM (recoverEvent nt.fd) s

/-! ## All notes -/

inductive FsNote
  | dupData (groups : List (List Nat))
  | file (nt : NtFile)
  | socket (nt : NtSocket)
  | eventfd (nt : NtFile)
  | epollfd (nt : NtEpollfd)
  deriving DecidableEq

def Fs.recover (note : FsNote) (luck : SocketLuck) : Except Abort Fs :=
  match note with
  | .dupData groups => kmFsRecoverDupData s groups
  | .file nt => kmFsRecoverOpenFile s nt
  | .socket nt => kmFsRecoverOpenSocket s nt luck
  | .eventfd nt => kmFsRecoverEventfd s nt
  | .epollfd nt => kmFsRecoverEpollfd s nt

def FsNote.kind : FsNote → Nat
  | .dupData _ => 0
  | .file _ => 1
  | .socket _ => 2
  | .eventfd _ => 3
  | .epollfd _ => 4

def kmFsRecover (notes : List FsNote) (luck : FsNote → SocketLuck) : Except Abort Fs :=
  [0, 1, 2, 3, 4].foldlM
    (fun s k => (notes.filter fun n => n.kind == k).foldlM (fun s n => s.recover n (luck n)) s) s

end

end KontainMonitor.Files
