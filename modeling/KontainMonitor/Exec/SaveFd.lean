import KontainMonitor.Files.Table
import KontainMonitor.Lib.Scan

/-!
# SaveFd — the descriptors of a payload across `execve` (`km_exec_fd_save_recover.c`)

Before an `execve` the monitor writes its descriptor table into an environment variable, one record in
braces for every descriptor that stays open; the new monitor reads the records back.
-/

namespace KontainMonitor.Exec

open Files Scan

abbrev Text := List Char

/-- What the kernel answers: `fcntl(F_GETFD)` (whether `FD_CLOEXEC` is set) and `fstat` (whether it is
a FIFO) before the `execve`, the link under `/proc/self/fd` and the options type, domain and protocol of
a socket after it. -/
structure Kernel where
  getfd : Nat → Option Bool
  isFifo : Nat → Option Bool
  link : Nat → Option Name
  sockopts : Nat → Option (Nat × Nat × Nat)

/-! ## Numbers of the enumerations -/

def howOf (i : Int) : Option How :=
  [How.open, .pipe0, .pipe1, .epollfd, .socket, .accept, .socketpair0, .socketpair1, .recvmsg,
    .eventfd, .timerfd].find? fun h => (howCode h : Int) == i

def stateCode : SockState → Nat
  | .open => 0
  | .bind => 1
  | .listen => 2
  | .accept => 3
  | .connect => 4

def stateOf (i : Int) : Option SockState :=
  [SockState.open, .bind, .listen, .accept, .connect].find? fun s => (stateCode s : Int) == i

theorem howOf_howCode (h : How) : howOf (howCode h) = some h := by cases h <;> rfl

theorem stateOf_stateCode (s : SockState) : stateOf (stateCode s) = some s := by cases s <;> rfl

/-! ## Writing -/

def kmBin2hex (bin : List Byte) : Text :=
  bin.flatMap fun b => [(b.toNat / 16).digitChar, (b.toNat % 16).digitChar]

def kmFilenameTableLine (ops : Option Nat) : Int :=
  match ops with
  | none => -1
  | some line => line

/-- `,{%d,%x,%lx}` -/
def eventText (e : FsEvent) : Text :=
  ',' :: '{' :: (showDec e.fd ++ ',' :: (showHex e.event.events ++ ',' :: (showHex e.event.data ++
    ['}'])))

/-- The events of a record; the closing brace comes with the last one. -/
def eventsText (events : List FsEvent) : Text :=
  events.flatMap eventText ++ if events = [] then [] else ['}']

def eventfdText (fd : Nat) (file : KmFile) : Text :=
  '{' :: (showHex 4 ++ ',' :: (showDec fd ++ ',' :: (showHex file.flags ++ eventsText file.events)))

/-- `{%x,%d,%d,%x,%d}`, for files and for pipes. -/
def fileText (tag fd : Nat) (file : KmFile) (last : Int) : Text :=
  '{' :: (showHex tag ++ ',' :: (showDec fd ++ ',' :: (showDec (howCode file.how) ++ ',' ::
    (showHex file.flags ++ ',' :: (showDec last ++ ['}'])))))

/-- `{%d,%d,%d,%d}` -/
def socketpairText (fd : Nat) (file : KmFile) : Text :=
  '{' :: (showDec 2 ++ ',' :: (showDec fd ++ ',' :: (showDec (howCode file.how) ++ ',' ::
    (showDec file.ofd ++ ['}']))))

/-- `{%x,%d,%d,%d,%d,%d,%s}` -/
def socketText (fd : Nat) (file : KmFile) (sock : SockInfo) : Text :=
  '{' :: (showHex 3 ++ ',' :: (showDec fd ++ ',' :: (showDec (howCode file.how) ++ ',' ::
    (showDec (stateCode sock.state) ++ ',' :: (showDec sock.backlog ++ ',' :: (showDec file.ofd ++
      ',' :: (kmBin2hex sock.addr ++ ['}'])))))))

section

variable (k : Kernel) (t : ExecFds)

/-- The record of one descriptor; `none` when `fstat` fails. -/
def recordText (fd : Nat) (file : KmFile) : Option Text :=
  if file.how = .eventfd then some (eventfdText fd file)
  else
    match file.sockinfo with
    | none =>
      (k.isFifo fd).map fun fifo =>
        if fifo then fileText 1 fd file file.ofd
        else fileText 0 fd file (kmFilenameTableLine file.ops)
    | some sock =>
      if file.how = .socketpair0 ∨ file.how = .socketpair1 then some (socketpairText fd file)
      else some (socketText fd file sock)

/-- The descriptors that are in use and stay open. -/
def savedFds (s : Fs) (k : Kernel) : List Nat :=
  (List.range s.nfdmap).filter fun fd => (s.files fd).inuse && k.getfd fd == some false

def join : List Text → Text
  | [] => []
  | r :: rs => r ++ rs.flatMap fun r' => ',' :: r'

/-- `km_exec_save_fd`: the value of the variable. -/
def kmExecSaveFd (s : Fs) (k : Kernel) : Option Text :=
  ((savedFds s k).mapM fun fd => recordText k fd (s.files fd)).map join

/-! ## Reading -/

/-- `execstatep`: the entries that are read. -/
structure ExecFds where
  nfdmap : Nat
  files : Nat → KmFile

def ExecFds.setFile (fd : Nat) (file : KmFile) : ExecFds :=
  { t with files := Function.update t.files fd file }

def kmExecGetFilePointer (fd : Int) : Except Abort Nat :=
  if (t.nfdmap : Int) ≤ fd then .error .exit
  else if fd < 0 then .error .wild
  else .ok fd.toNat

/-- A number read for an enumeration; others than the monitor writes are not followed further. -/
def known {α : Type} : Option α → Except Abort α
  | some a => .ok a
  | none => .error .wild

def restoredName (fd : Nat) : Option Name :=
  (k.link fd).map fun name =>
    match fd with
    | 0 => stdName name stdinName
    | 1 => stdName name stdoutName
    | 2 => stdName name stderrName
    | _ => name

/-- `km_exec_restore_file`; the caller does not look at the result. -/
def kmExecRestoreFile (fd how flags index : Int) : Except Abort ExecFds := do
  let n ← kmExecGetFilePointer t fd
  let how ← known (howOf how)
  if (t.files n).inuse then .error .recover
  else
    return t.setFile n { t.files n with
      inuse := true, how := how, flags := flags.toNat, ofd := -1,
      ops := if 0 ≤ index then some index.toNat else none, sockinfo := none, events := []
      name := restoredName k n }

/-- `km_exec_restore_eventfd`; also the number of the entry, to which the events are added. -/
def kmExecRestoreEventfd (fd flags : Int) : Except Abort (Nat × ExecFds) := do
  let n ← kmExecGetFilePointer t fd
  if (t.files n).inuse then .error .recover
  else
    return (n, t.setFile n { t.files n with
      inuse := true, how := .eventfd, flags := flags.toNat, ofd := -1, ops := none,
      sockinfo := none, events := [], name := k.link n })

def kmExecRestorePipe (fd how flags ofd : Int) : Except Abort ExecFds := do
  let n ← kmExecGetFilePointer t fd
  let how ← known (howOf how)
  return t.setFile n { t.files n with
    inuse := true, how := how, flags := flags.toNat, ofd := ofd, ops := none, sockinfo := none,
    events := [], name := k.link n }

/-- The common part of `km_exec_restore_socketpair` and `km_exec_restore_socket`; `false`: the
kernel does not answer, and the entry is dropped. -/
def restoreSocket (fd : Int) (how : How) (state : SockState) (backlog ofd : Int) (addr : List Byte) :
    Except Abort (Bool × ExecFds) := do
  let n ← kmExecGetFilePointer t fd
  match k.link n, k.sockopts n with
  | some name, some (type, domain, protocol) =>
    return (true, t.setFile n { t.files n with
      inuse := true, how := how, flags := 0, ofd := ofd, ops := none, events := []
      name := some name, sockinfo := some ⟨state, backlog, domain, type, protocol, addr⟩ })
  | _, _ =>
    return (false, t.setFile n { t.files n with
      inuse := false, how := how, flags := 0, ofd := ofd, ops := none, events := []
      name := none, sockinfo := none })

def kmHex2bin : Text → List Byte
  | h :: l :: rest =>
    match digitVal h, digitVal l with
    | some a, some b => BitVec.ofNat 8 (a * 16 + b) :: kmHex2bin rest
    | _, _ => []
  | _ => []

def lastField (s : Text) : Text := (s.reverse.takeWhile fun c => c != ',').reverse

/-- The `while (*q == ',')` loop over the events of a record.  `none`: it returns `-1`. -/
def restoreEvents : Nat → List FsEvent → Text → Option (List FsEvent × Text)
  | n + 1, events, ',' :: q =>
    match scan [.lit '{', .dec, .lit ',', .hex, .lit ',', .hex, .lit '}'] q with
    | [fd, ev, data] =>
      match strchr '}' q with
      | none => none
      | some r => restoreEvents n (events ++ [⟨fd.toNat, ⟨ev.toNat, data.toNat⟩⟩]) r.tail
    | _ => none
  | 0, _, ',' :: _ => none
  | _, events, q => some (events, q)

/-- The events of a record: `q` is the text before the first brace after its numbers, `r` the text
from it on.  A comma has to be in front of an event. -/
def eventsOf (q r : Text) : Option (List FsEvent × Text) :=
  match r with
  | '{' :: _ => if q.getLast? = some ',' then restoreEvents (r.length + 1) [] (',' :: r) else none
  | _ => some ([], r)

/-- `case KM_FDTYPE_FILE`; `none` here and below: the function returns `-1`. -/
def restoreFileRecord (q : Text) : Except Abort (Option ExecFds) :=
  match scan [.dec, .lit ',', .dec, .lit ',', .hex, .lit ',', .dec, .lit '}'] q with
  | [fd, how, flags, index] => (kmExecRestoreFile k t fd how flags index).map some
  | _ => .ok none

def restorePipeRecord (q : Text) : Except Abort (Option ExecFds) :=
  match scan [.dec, .lit ',', .dec, .lit ',', .hex, .lit ',', .dec, .lit '}'] q with
  | [fd, how, flags, ofd] => (kmExecRestorePipe k t fd how flags ofd).map some
  | _ => .ok none

/-- `case KM_FDTYPE_SOCKETPAIR`; the result of `km_exec_restore_socketpair` is not looked at. -/
def restoreSocketpairRecord (q : Text) : Except Abort (Option ExecFds) :=
  match scan [.dec, .lit ',', .dec, .lit ',', .dec, .lit '}'] q with
  | [fd, how, ofd] => do
    let how ← known (howOf how)
    let (_, t) ← restoreSocket k t fd how .connect 0 ofd []
    return some t
  | _ => .ok none

def restoreSocketRecord (q : Text) : Except Abort (Option ExecFds) :=
  match scan [.dec, .lit ',', .dec, .lit ',', .dec, .lit ',', .dec, .lit ',', .dec, .lit ','] q with
  | [fd, how, state, backlog, ofd] =>
    match strchr '}' q with
    | none => .ok none
    | some _ => do
      let how ← known (howOf how)
      let state ← known (stateOf state)
      let addr := kmHex2bin (lastField (q.takeWhile fun c => c != '}'))
      let (ok, t) ← restoreSocket k t fd how state backlog ofd addr
      return if ok then some t else none
  | _ => .ok none

/-- `case KM_FDTYPE_EVENTFD`: also the text from the closing brace of the record on. -/
def restoreEventfdRecord (q : Text) : Except Abort (Option (ExecFds × Text)) :=
  match scan [.dec, .lit ',', .hex] q with
  | [fd, flags] =>
    -- the text before and from the first brace of either kind
    let before := q.takeWhile fun c => c != '{' && c != '}'
    let brace := q.dropWhile fun c => c != '{' && c != '}'
    if brace = [] then .ok none
    else do
      let (n, t) ← kmExecRestoreEventfd k t fd flags
      match eventsOf before brace with
      | some (events, '}' :: r) =>
        return some (t.setFile n { t.files n with events := events }, '}' :: r)
      | _ => .ok none
  | _ => .ok none

/-- One round of the loop of `km_exec_restore_fd`: the entries after the `switch`, and the text in
which the closing brace is looked for. -/
def restoreRecord (p : Text) : Except Abort (Option (ExecFds × Text)) :=
  match scan [.lit '{', .hex, .lit ','] p, strchr ',' p with
  | [tag], some q =>
    let here := Option.map fun t : ExecFds => (t, p)
    if tag = 0 then (restoreFileRecord k t q.tail).map here
    else if tag = 1 then (restorePipeRecord k t q.tail).map here
    else if tag = 2 then (restoreSocketpairRecord k t q.tail).map here
    else if tag = 3 then (restoreSocketRecord k t q.tail).map here
    else if tag = 4 then restoreEventfdRecord k t q.tail
    else .ok none
  | _, _ => .ok none

def dropComma : Text → Text
  | ',' :: p => p
  | p => p

/-- The loop of `km_exec_restore_fd`.  Every round passes a closing brace, so the length of the text
bounds their number. -/
def restoreLoop : Nat → ExecFds → Text → Except Abort (Option ExecFds)
  | _, t, [] => .ok (some t)
  | 0, _, _ => .error .wild
  | n + 1, t, p => do
    match ← restoreRecord k t p with
    | none => .ok none
    | some (t, p) =>
      match strchr '}' p with
      | none => .ok none
      | some q => restoreLoop n t (dropComma q.tail)

/-- `km_exec_restore_fd`: the entries, or `none` for `-1`. -/
def kmExecRestoreFd (envValue : Text) : Except Abort (Option ExecFds) :=
  restoreLoop k envValue.length t envValue

end

/-- The zeroed entries from which the new monitor starts. -/
def ExecFds.calloc (nfdmap : Nat) : ExecFds := ⟨nfdmap, fun _ => KmFile.zero⟩

end KontainMonitor.Exec
