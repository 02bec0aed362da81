import KontainMonitor.Files.Table

/-!
# Calls — the payload's calls that make, duplicate or close descriptors (`km_filesys.c`)

Each call first changes the kernel's state and then the monitor's table, or the other way round.  A
call returns what the payload gets (a descriptor or a negative error number) and the new state.
`refuse` is the error with which the kernel turns a call down for reasons outside this model.
-/

namespace KontainMonitor.Files

def anonDesc (object : Object) (kind : List Char) (id : Nat) : Desc :=
  ⟨object, O_RDWR, 0, Host.anonymous kind id⟩

section

variable (s : Fs)

/-- `km_fs_open` and `km_fs_openat`.  `name` and `ops` are what `km_fs_g2h_filename` makes of the
path, `path` is where the kernel finds the file: the name may be relative to a directory descriptor.
-/
def kmFsOpen (path name : Name) (ops : Option Nat) (flags mode : Nat) (refuse : Option Errno) :
    Except Abort (Int × Fs) :=
  match s.host.openName path flags mode refuse with
  | .error e => .ok (e.ret, s)
  | .ok (fd, host) => do
    let s ← kmAddGuestFdInternal { s with host := host } fd (some name) flags .open ops
    return (fd, s)

/-- `km_fs_close`.  An entry with a recovered error is dropped from the table only. -/
def kmFsClose (fd : Int) : Except Abort (Int × Fs) :=
  match kmFsG2hFd s fd with
  | none => .ok (EBADF.ret, s)
  | some n => do
    let ret := (s.files n).error
    let s ← delGuestFd s n
    if ret ≠ 0 then return (ret, s)
    return (0, { s with host := s.host.close n })

/-- The table entry of a duplicate: sockets keep their record. -/
def addDuplicate (new old : Nat) (name : Option Name) (flags : Nat) (how : How) (ops : Option Nat) :
    Except Abort Fs :=
  match (s.files old).sockinfo with
  | some sock => kmDupSocketFd s new name flags sock (s.files old).how
  | none => kmAddGuestFdInternal s new name flags how ops

def kmFsDup (fd : Int) : Except Abort (Int × Fs) :=
  match kmFsG2hFd s fd with
  | none => .ok (EBADF.ret, s)
  | some n =>
    let file := s.files n
    if file.error ≠ 0 then .ok (file.error, s)
    else if file.name = none then .error .noName
    else
      match s.host.dupFrom n 0 with
      | .error e => .ok (e.ret, s)
      | .ok (new, host) => do
        let s ← addDuplicate { s with host := host } new n file.name 0 file.how file.ops
        return (new, kmFsAddToDupData s new n)

def kmFsFcntlDup (fd : Int) (lo : Nat) (cloexec : Bool) : Except Abort (Int × Fs) :=
  match kmFsG2hFd s fd with
  | none => .ok (EBADF.ret, s)
  | some n =>
    let file := s.files n
    if file.error ≠ 0 then .ok (file.error, s)
    else
      match s.host.dupFrom n lo with
      | .error e => .ok (e.ret, s)
      | .ok (new, host) => do
        let flags := if cloexec then O_CLOEXEC else 0
        let s ← addDuplicate { s with host := host } new n file.name flags file.how file.ops
        return (new, kmFsAddToDupData s new n)

def delIfUsed (fd : Nat) : Except Abort Fs :=
  if (s.files fd).inuse then delGuestFd s fd else .ok s

/-- `km_fs_dup3`.  A duplicate that is not a socket is recorded as opened. -/
def kmFsDup3 (fd newfd : Int) (flags : Nat) : Except Abort (Int × Fs) :=
  if fd = newfd then .ok (EINVAL.ret, s)
  else if flags ≠ 0 ∧ flags ≠ O_CLOEXEC then .ok (EINVAL.ret, s)
  else if newfd < 0 ∨ (s.nfdmap : Int) ≤ newfd then .ok (EBADF.ret, s)
  else
    match kmFsG2hFd s fd with
    | none => .ok (EBADF.ret, s)
    | some n =>
      let file := s.files n
      if file.error ≠ 0 then .ok (file.error, s)
      else if file.name = none then .error .noName
      else
        match s.host.dup2 n newfd.toNat with
        | .error e => .ok (e.ret, s)
        | .ok host => do
          let s ← delIfUsed { s with host := host } newfd.toNat
          let s ← addDuplicate s newfd.toNat n file.name flags .open file.ops
          return (newfd, kmFsAddToDupData s newfd.toNat n)

def kmFsDup2 (fd newfd : Int) : Except Abort (Int × Fs) :=
  if fd = newfd then .ok (fd, s) else kmFsDup3 s fd newfd 0

/-- `km_fs_pipe2`, and `km_fs_pipe` with no flags. -/
def kmFsPipe2 (flags : Nat) (refuse : Option Errno) : Except Abort (Int × Fs) :=
  match s.host.pipe2 flags refuse with
  | .error e => .ok (e.ret, s)
  | .ok ((fd0, fd1), host) => do
    let s ← kmAddGuestFdInternal { s with host := host } fd0 none flags .pipe0 none
    let s ← kmAddGuestFdInternal s fd1 none (flags ||| O_WRONLY) .pipe1 none
    return (0, kmConnectFiles s fd0 fd1)

def kmFsSocketpair (domain type protocol : Nat) (refuse : Option Errno) : Except Abort (Int × Fs) :=
  match s.host.socketpair refuse with
  | .error e => .ok (e.ret, s)
  | .ok ((fd0, fd1), host) => do
    let s ← kmAddSocketFd { s with host := host } fd0 none 0 domain type protocol .socketpair0
    let s ← kmAddSocketFd s fd1 none 0 domain type protocol .socketpair1
    return (0, kmConnectFiles s fd0 fd1)

/-- A call that makes one descriptor for an object without a path; `failed` is what the payload gets
when the kernel refuses. -/
def addAnon (d : Desc) (refuse : Option Errno) (failed : Errno → Int) (flags : Nat) (how : How) :
    Except Abort (Int × Fs) :=
  match s.host.install d refuse with
  | .error e => .ok (failed e, s)
  | .ok (fd, host) => do
    let s ← kmAddGuestFdInternal { s with host := host } fd none flags how none
    return (fd, s)

/-- `km_fs_eventfd2`.  The flags are not recorded. -/
def kmFsEventfd2 (initval : Nat) (refuse : Option Errno) : Except Abort (Int × Fs) :=
  addAnon s (anonDesc (.eventfd initval) ['e', 'v', 'e', 'n', 't', 'f', 'd'] s.host.fresh) refuse
    Errno.ret 0 .eventfd

/-- `km_fs_epoll_create1`.  A refusal is `-1`. -/
def kmFsEpollCreate1 (refuse : Option Errno) : Except Abort (Int × Fs) :=
  addAnon s (anonDesc .epoll ['e', 'v', 'e', 'n', 't', 'p', 'o', 'l', 'l'] s.host.fresh) refuse
    (fun _ => -1) 0 .epollfd

def kmFsTimerfdCreate (flags : Nat) (refuse : Option Errno) : Except Abort (Int × Fs) :=
  addAnon s (anonDesc .timerfd ['t', 'i', 'm', 'e', 'r', 'f', 'd'] s.host.fresh) refuse Errno.ret
    flags .timerfd

def socketDesc : Desc := anonDesc .socket ['s', 'o', 'c', 'k', 'e', 't'] s.host.fresh

def kmFsSocket (domain type protocol : Nat) (refuse : Option Errno) : Except Abort (Int × Fs) :=
  match s.host.install (socketDesc s) refuse with
  | .error e => .ok (e.ret, s)
  | .ok (fd, host) => do
    let s ← kmAddSocketFd { s with host := host } fd none 0 domain type protocol .socket
    return (fd, s)

/-- The entry of an accepted connection: the last part of `km_fs_accept4`. -/
def addAccepted (listen fd : Nat) : Except Abort (Int × Fs) :=
  match (s.files listen).sockinfo with
  | none => .error .wild
  | some lsock => do
    let s ← kmAddSocketFd s fd none 0 lsock.domain lsock.type lsock.protocol .accept
    let s := s.setSockinfo fd ⟨.accept, 0, lsock.domain, lsock.type, lsock.protocol, []⟩
    return (fd, kmSetActiveAccept s)

/-- `km_snap_find_accepted`: a connection that was accepted before the payload was restored. -/
def kmSnapFindAccepted (listen : Nat) : Option Nat :=
  (s.listeners.find? fun l => l.listenFd == listen).bind Listener.acceptFd

/-- `km_fs_accept4`, and `km_fs_accept`.  `addr` says whether the payload asks for the peer's address,
`peername` is the error of `getpeername` on a connection that was accepted early. -/
def kmFsAccept4 (sockfd : Int) (addr : Bool) (peername refuse : Option Errno) :
    Except Abort (Int × Fs) :=
  match kmFsG2hFd s sockfd with
  | none => .ok (EBADF.ret, s)
  | some n =>
    if (s.files n).error ≠ 0 then .ok ((s.files n).error, s)
    else
      match kmSnapFindAccepted s n with
      | some acceptFd =>
        let s := { s with listeners := [] }
        match s.host.dupFrom acceptFd 0 with
        | .error _ =>
          .ok (if addr then EBADF.ret else -1, { s with host := s.host.close acceptFd })
        | .ok (fd, host) =>
          let s := { s with host := host.close acceptFd }
          match addr, peername with
          | true, some e => .ok (e.ret, s)
          | _, _ => addAccepted s n fd
      | none =>
        match s.host.install (socketDesc s) refuse with
        | .error e => .ok (e.ret, s)
        | .ok (fd, host) => addAccepted { s with host := host } n fd

def kmFsRecvmsg (sockfd : Int) (received : List Desc) (flag : Nat) : Except Abort (Int × Fs) :=
  match kmFsG2hFd s sockfd with
  | none => .ok (EBADF.ret, s)
  | some n =>
    if (s.files n).error ≠ 0 then .ok ((s.files n).error, s)
    else do
      let (fds, host) := s.host.receive received
      let s ← fds.foldlM (fun s fd => kmAddGuestFdInternal s fd none flag .recvmsg none)
        { s with host := host }
      return (0, s)

/-- `recvmmsg`: descriptors in the messages are not looked at. -/
def kmFsRecvmmsg (sockfd : Int) (received : List Desc) : Except Abort (Int × Fs) :=
  match kmFsG2hFd s sockfd with
  | none => .ok (EBADF.ret, s)
  | some n =>
    if (s.files n).error ≠ 0 then .ok ((s.files n).error, s)
    else .ok (0, { s with host := (s.host.receive received).2 })

/-! ## Epoll -/

def kmFsEventFind (file : KmFile) (fd : Nat) : Option FsEvent :=
  file.events.find? fun e => e.fd == fd

def kmFsEventAdd (file : KmFile) (fd : Nat) (event : EpollEvent) : Except Abort KmFile :=
  if (kmFsEventFind file fd).isSome then .error .event
  else .ok { file with events := file.events ++ [⟨fd, event⟩] }

def updateFirst (fd : Nat) (f : FsEvent → List FsEvent) : List FsEvent → List FsEvent
  | [] => []
  | e :: rest => if e.fd = fd then f e ++ rest else e :: updateFirst fd f rest

def kmFsEventMod (file : KmFile) (fd : Nat) (event : EpollEvent) : Except Abort KmFile :=
  if (kmFsEventFind file fd).isSome then
    .ok { file with events := updateFirst fd (fun e => [{ e with event := event }]) file.events }
  else .error .event

def kmFsEventDel (file : KmFile) (fd : Nat) : Except Abort KmFile :=
  if (kmFsEventFind file fd).isSome then
    .ok { file with events := updateFirst fd (fun _ => []) file.events }
  else .error .event

def eventSwitch (op : Host.CtlOp) (file : KmFile) (fd : Nat) (event : EpollEvent) :
    Except Abort KmFile :=
  match op with
  | .add => kmFsEventAdd file fd event
  | .mod => kmFsEventMod file fd event
  | .del => kmFsEventDel file fd

def kmFsEpollCtl (epfd : Int) (op : Host.CtlOp) (fd : Int) (event : EpollEvent)
    (refuse : Option Errno) : Except Abort (Int × Fs) :=
  match kmFsG2hFd s epfd, kmFsG2hFd s fd with
  | some ep, some n =>
    match s.host.epollCtl ep op n event refuse with
    | .error e => .ok (e.ret, s)
    | .ok host => do
      let file ← eventSwitch op (s.files ep) n event
      return (0, { s with host := host }.setFile ep file)
  | _, _ => .ok (EBADF.ret, s)

/-! ## All calls -/

inductive Call
  | open (path name : Name) (ops : Option Nat) (flags mode : Nat) (refuse : Option Errno)
  | close (fd : Int)
  | dup (fd : Int)
  | dup2 (fd newfd : Int)
  | dup3 (fd newfd : Int) (flags : Nat)
  | fcntlDup (fd : Int) (lo : Nat) (cloexec : Bool)
  | pipe2 (flags : Nat) (refuse : Option Errno)
  | socketpair (domain type protocol : Nat) (refuse : Option Errno)
  | eventfd2 (initval : Nat) (refuse : Option Errno)
  | timerfdCreate (flags : Nat) (refuse : Option Errno)
  | socket (domain type protocol : Nat) (refuse : Option Errno)
  | accept4 (sockfd : Int) (addr : Bool) (peername refuse : Option Errno)
  | recvmsg (sockfd : Int) (received : List Desc) (flag : Nat)
  | recvmmsg (sockfd : Int) (received : List Desc)
  | epollCreate1 (refuse : Option Errno)
  | epollCtl (epfd : Int) (op : Host.CtlOp) (fd : Int) (event : EpollEvent) (refuse : Option Errno)

def Fs.call : Call → Except Abort (Int × Fs)
  | .open path name ops flags mode refuse => kmFsOpen s path name ops flags mode refuse
  | .close fd => kmFsClose s fd
  | .dup fd => kmFsDup s fd
  | .dup2 fd newfd => kmFsDup2 s fd newfd
  | .dup3 fd newfd flags => kmFsDup3 s fd newfd flags
  | .fcntlDup fd lo cloexec => kmFsFcntlDup s fd lo cloexec
  | .pipe2 flags refuse => kmFsPipe2 s flags refuse
  | .socketpair domain type protocol refuse => kmFsSocketpair s domain type protocol refuse
  | .eventfd2 initval refuse => kmFsEventfd2 s initval refuse
  | .timerfdCreate flags refuse => kmFsTimerfdCreate s flags refuse
  | .socket domain type protocol refuse => kmFsSocket s domain type protocol refuse
  | .accept4 sockfd addr peername refuse => kmFsAccept4 s sockfd addr peername refuse
  | .recvmsg sockfd received flag => kmFsRecvmsg s sockfd received flag
  | .recvmmsg sockfd received => kmFsRecvmmsg s sockfd received
  | .epollCreate1 refuse => kmFsEpollCreate1 s refuse
  | .epollCtl epfd op fd event refuse => kmFsEpollCtl s epfd op fd event refuse

/-- The state after a call that does not end the monitor. -/
def Fs.call? (c : Call) : Option Fs := ((s.call c).toOption).map Prod.snd

end

end KontainMonitor.Files
