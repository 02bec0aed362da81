import Mathlib.Data.List.Range
import Mathlib.Logic.Function.Basic

/-!
# Host — the kernel's side of the payload's descriptors

The monitor gives the payload the host's own descriptor numbers, so what the kernel does with a
number matters.  A descriptor refers to an open file description; several descriptors may refer to
one description, and then share its offset and its flags.  The kernel hands out the lowest free
number.  An epoll set registers descriptors under their number and their description, and loses an
entry when the last descriptor of that description is closed.
-/

namespace KontainMonitor.Files

open Function List

abbrev Byte := BitVec 8

/-- A string without its terminating zero. -/
abbrev Name := List Byte

structure EpollEvent where
  events : Nat
  data : Nat
  deriving DecidableEq

inductive Side
  | read
  | write
  deriving DecidableEq

/-- What an open file description refers to. -/
inductive Object
  | inode (ino : Nat)
  | pipe (id : Nat) (side : Side)
  | socketpair (id : Nat) (second : Bool)
  | socket
  | eventfd (count : Nat)
  | epoll
  | timerfd
  deriving DecidableEq

/-- An open file description; `link` is what `/proc/self/fd` shows for it. -/
structure Desc where
  object : Object
  flags : Nat
  offset : Nat
  link : Name
  deriving DecidableEq

/-- An entry of an epoll set. -/
structure Interest where
  desc : Nat
  fd : Nat
  event : EpollEvent
  deriving DecidableEq

/-- A file: its type and permissions, and its bytes. -/
structure Inode where
  mode : Nat
  content : List Byte
  deriving DecidableEq

structure PipeBuf where
  queue : List Byte
  size : Nat
  deriving DecidableEq

/-- The part of the kernel's state that the payload's descriptors depend on.  `limit` is
`RLIMIT_NOFILE`; `names` and `permits` are the file system: what a path leads to, and which files may
be opened with which flags.  A pipe has one buffer, a socket pair one for each direction. -/
structure Host where
  limit : Nat
  fds : Nat → Option Nat
  descs : Nat → Desc
  fresh : Nat
  interest : Nat → List Interest
  names : Name → Option Nat
  permits : Nat → Nat → Bool
  inodes : Nat → Inode
  freshInode : Nat
  pipes : Nat → PipeBuf
  freshPipe : Nat

/-! ## Constants of the ABI -/

def O_WRONLY : Nat := 1
def O_RDWR : Nat := 2
def O_ACCMODE : Nat := 3
def O_CREAT : Nat := 0o100
def O_EXCL : Nat := 0o200
def O_TRUNC : Nat := 0o1000
def O_NONBLOCK : Nat := 0o4000
def O_DIRECT : Nat := 0o40000
def O_DIRECTORY : Nat := 0o200000
def O_CLOEXEC : Nat := 0o2000000

def S_IFMT : Nat := 0o170000
def S_IFIFO : Nat := 0o010000
def S_IFDIR : Nat := 0o040000
def S_IFREG : Nat := 0o100000
def S_IFSOCK : Nat := 0o140000

/-- An error number; the kernel's calls return it negated. -/
structure Errno where
  val : Nat
  pos : 0 < val
  deriving DecidableEq

def Errno.ret (e : Errno) : Int := -(e.val : Int)

def ENOENT : Errno := ⟨2, by decide⟩
def EBADF : Errno := ⟨9, by decide⟩
def EAGAIN : Errno := ⟨11, by decide⟩
def EACCES : Errno := ⟨13, by decide⟩
def EBUSY : Errno := ⟨16, by decide⟩
def EEXIST : Errno := ⟨17, by decide⟩
def ENOTDIR : Errno := ⟨20, by decide⟩
def EISDIR : Errno := ⟨21, by decide⟩
def EINVAL : Errno := ⟨22, by decide⟩
def EMFILE : Errno := ⟨24, by decide⟩
def ECONNRESET : Errno := ⟨104, by decide⟩

def hasFlag (flags bit : Nat) : Bool := flags &&& bit != 0

def fileType (mode : Nat) : Nat := mode &&& S_IFMT

namespace Host

/-! ## Descriptors -/

/-- The free descriptors at or above `lo`, in the order in which the kernel hands them out. -/
def free (h : Host) (lo : Nat) : List Nat :=
  (List.range h.limit).filter fun i => lo ≤ i && (h.fds i).isNone

def lowest (h : Host) (lo : Nat) : Option Nat :=
  (List.range h.limit).find? fun i => lo ≤ i && (h.fds i).isNone

def setFd (h : Host) (fd : Nat) (d : Option Nat) : Host :=
  { h with fds := update h.fds fd d }

/-- The description `d` lost a descriptor; without any left it leaves every epoll set. -/
def release (h : Host) (d : Nat) : Host :=
  if (List.range h.limit).any fun i => h.fds i == some d then h
  else { h with interest := fun e => (h.interest e).filter fun x => x.desc != d }

def newDesc (h : Host) (d : Desc) : Host :=
  { h with
    descs := update h.descs h.fresh d
    interest := update h.interest h.fresh []
    fresh := h.fresh + 1 }

/-- A call that opens a new description; `refuse` is the error with which the kernel turns it down. -/
def install (h : Host) (d : Desc) (refuse : Option Errno) : Except Errno (Nat × Host) :=
  match refuse, h.lowest 0 with
  | some e, _ => .error e
  | none, none => .error EMFILE
  | none, some fd => .ok (fd, (h.newDesc d).setFd fd (some h.fresh))

/-- A call that opens two descriptions, or none. -/
def installPair (h : Host) (d0 d1 : Desc) (refuse : Option Errno) :
    Except Errno ((Nat × Nat) × Host) := do
  let (fd0, h₀) ← h.install d0 refuse
  let (fd1, h₁) ← h₀.install d1 none
  return ((fd0, fd1), h₁)

/-- Descriptors that arrive in one message: as many as there is room for. -/
def receive (h : Host) : List Desc → List Nat × Host
  | [] => ([], h)
  | d :: ds =>
    match h.install d none with
    | .error _ => ([], h)
    | .ok (fd, h') =>
      let (fds, h'') := h'.receive ds
      (fd :: fds, h'')

/-- `dup` and `fcntl(F_DUPFD)`: a descriptor at or above `lo` for the description of `fd`. -/
def dupFrom (h : Host) (fd lo : Nat) : Except Errno (Nat × Host) :=
  match h.fds fd, h.lowest lo with
  | none, _ => .error EBADF
  | some _, none => .error (if h.limit ≤ lo then EINVAL else EMFILE)
  | some d, some new => .ok (new, h.setFd new (some d))

def close (h : Host) (fd : Nat) : Host :=
  match h.fds fd with
  | none => h
  | some d => (h.setFd fd none).release d

/-- `dup2` and `dup3` for different numbers: what `new` referred to is closed. -/
def dup2 (h : Host) (fd new : Nat) : Except Errno Host :=
  match h.fds fd with
  | none => .error EBADF
  | some d => if h.limit ≤ new then .error EBADF else .ok ((h.close new).setFd new (some d))

/-! ### What the calls do to the descriptors -/

variable {h h' : Host} {lo fd : Nat}
variable {refuse : Option Errno} {new : Nat}

theorem mem_free : fd ∈ h.free lo ↔ fd < h.limit ∧ lo ≤ fd ∧ h.fds fd = none := by
  simp [free]

theorem lowest_eq_head (h : Host) (lo : Nat) : h.lowest lo = (h.free lo).head? := by
  rw [free, List.head?_filter]
  rfl

theorem lowest_some (hl : h.lowest lo = some fd) : ∃ rest, h.free lo = fd :: rest := by
  rw [lowest_eq_head] at hl
  cases hf : h.free lo with
  | nil =>
    rw [hf] at hl
    cases hl
  | cons a rest =>
    rw [hf] at hl
    cases hl
    exact ⟨rest, rfl⟩

theorem lowest_mem (hl : h.lowest lo = some fd) : fd ∈ h.free lo := by
  rcases lowest_some hl with ⟨rest, hf⟩
  rw [hf]
  exact .head _

/-- Once the first free number is taken, the others are left. -/
theorem free_of_taken {rest : List Nat} {d : Nat} (hf : h.free lo = fd :: rest)
    (hl : h'.limit = h.limit) (hfds : h'.fds = update h.fds fd (some d)) :
    h'.free lo = rest := by
  have hnd : (fd :: rest).Nodup := hf ▸ (nodup_range.filter _)
  have hfilter : h'.free lo = (h.free lo).filter fun i => i != fd := by
    rw [free, free, filter_filter, hl, hfds]
    refine filter_congr fun i _ => ?_
    by_cases hi : i = fd
    · simp [hi]
    · simp [hi]
  rw [hfilter, hf, filter_cons_of_neg (by simp), filter_eq_self]
  intro i hi
  have hne : i ≠ fd := fun heq => (nodup_cons.1 hnd).1 (heq ▸ hi)
  simpa using hne

@[simp] theorem setFd_fds (h : Host) (fd : Nat) (d : Option Nat) :
    (h.setFd fd d).fds = update h.fds fd d := rfl

@[simp] theorem setFd_limit (h : Host) (fd : Nat) (d : Option Nat) :
    (h.setFd fd d).limit = h.limit := rfl

@[simp] theorem newDesc_fds (h : Host) (d : Desc) : (h.newDesc d).fds = h.fds := rfl

@[simp] theorem newDesc_limit (h : Host) (d : Desc) : (h.newDesc d).limit = h.limit := rfl

@[simp] theorem release_fds (h : Host) (d : Nat) : (h.release d).fds = h.fds := by
  unfold release
  split <;> rfl

@[simp] theorem release_limit (h : Host) (d : Nat) : (h.release d).limit = h.limit := by
  unfold release
  split <;> rfl

@[simp] theorem close_fds (h : Host) (fd : Nat) :
    (h.close fd).fds = update h.fds fd none := by
  unfold close
  split
  case h_1 heq => rw [← heq, update_eq_self]
  case h_2 => simp

@[simp] theorem close_limit (h : Host) (fd : Nat) : (h.close fd).limit = h.limit := by
  unfold close
  split <;> simp

theorem install_ok {d : Desc} (hi : h.install d refuse = .ok (fd, h')) :
    h.lowest 0 = some fd ∧ h' = (h.newDesc d).setFd fd (some h.fresh) := by
  unfold install at hi
  split at hi
  case h_1 | h_2 => cases hi
  case h_3 heq =>
      cases hi
      exact ⟨heq, rfl⟩

theorem installPair_ok {d0 d1 : Desc} {fd0 fd1 : Nat}
    (hi : h.installPair d0 d1 refuse = .ok ((fd0, fd1), h')) :
    ∃ h₀, h.install d0 refuse = .ok (fd0, h₀) ∧ h₀.install d1 none = .ok (fd1, h') := by
  unfold installPair at hi
  cases h0 : h.install d0 refuse with
  | error e =>
    rw [h0] at hi
    cases hi
  | ok r =>
    rw [h0] at hi
    cases h1 : r.2.install d1 none with
    | error e =>
      have hi' : (r.2.install d1 none >>= fun x => pure ((r.1, x.1), x.2)) =
          .ok ((fd0, fd1), h') := hi
      rw [h1] at hi'
      cases hi'
    | ok r' =>
      have hi' : (r.2.install d1 none >>= fun x => pure ((r.1, x.1), x.2)) =
          .ok ((fd0, fd1), h') := hi
      rw [h1] at hi'
      cases hi'
      exact ⟨r.2, rfl, h1⟩

theorem dupFrom_ok (hd : h.dupFrom fd lo = .ok (new, h')) :
    ∃ d, h.fds fd = some d ∧ h.lowest lo = some new ∧ h' = h.setFd new (some d) := by
  unfold dupFrom at hd
  split at hd
  case h_1 | h_2 => cases hd
  case h_3 d _ hfd hlow =>
      cases hd
      exact ⟨d, hfd, hlow, rfl⟩

theorem dup2_ok (hd : h.dup2 fd new = .ok h') :
    ∃ d, h.fds fd = some d ∧ new < h.limit ∧ h' = (h.close new).setFd new (some d) := by
  unfold dup2 at hd
  split at hd
  case h_1 => cases hd
  case h_2 d hfd =>
      split at hd
      · cases hd
      cases hd
      exact ⟨d, hfd, by omega, rfl⟩

/-! ## Epoll -/

inductive CtlOp
  | add
  | mod
  | del
  deriving DecidableEq

/-- `epoll_ctl`.  Entries are found by description and number; the targets that an epoll set does not
take are among the reasons behind `refuse`. -/
def epollCtl (h : Host) (epfd : Nat) (op : CtlOp) (fd : Nat) (event : EpollEvent)
    (refuse : Option Errno) : Except Errno Host :=
  match refuse, h.fds epfd, h.fds fd with
  | some e, _, _ => .error e
  | none, some ep, some d =>
    let key : Interest → Bool := fun x => x.desc == d && x.fd == fd
    if (h.descs ep).object ≠ .epoll ∨ ep = d then .error EINVAL
    else
      match op with
      | .add =>
        if (h.interest ep).any key then .error EEXIST
        else .ok { h with
          interest := update h.interest ep (h.interest ep ++ [⟨d, fd, event⟩]) }
      | .mod =>
        if (h.interest ep).any key then
          .ok { h with
            interest := update h.interest ep
              ((h.interest ep).map fun x => if key x then { x with event := event } else x) }
        else .error ENOENT
      | .del =>
        if (h.interest ep).any key then
          .ok { h with
            interest := update h.interest ep
              ((h.interest ep).filter fun x => !key x) }
        else .error ENOENT
  | none, _, _ => .error EBADF

/-! ## Pipes and socket pairs -/

/-- The name of an object that has no path, such as `pipe:[7]`. -/
def anonymous (kind : List Char) (id : Nat) : Name :=
  (kind ++ [':', '['] ++ Nat.toDigits 10 id ++ [']']).map fun c => BitVec.ofNat 8 c.toNat

def newBuf : PipeBuf := ⟨[], 65536⟩

def pipeFlags : Nat := O_CLOEXEC ||| O_NONBLOCK ||| O_DIRECT

def pipe2 (h : Host) (flags : Nat) (refuse : Option Errno) : Except Errno ((Nat × Nat) × Host) :=
  let id := h.freshPipe
  let link := anonymous ['p', 'i', 'p', 'e'] id
  let h' : Host := { h with pipes := update h.pipes id newBuf, freshPipe := id + 1 }
  if flags ||| pipeFlags ≠ pipeFlags then .error EINVAL
  else
    h'.installPair ⟨.pipe id .read, flags, 0, link⟩ ⟨.pipe id .write, flags ||| O_WRONLY, 0, link⟩
      refuse

/-- Buffer `id` holds what the first end can read, buffer `id + 1` what the second end can read. -/
def socketpair (h : Host) (refuse : Option Errno) : Except Errno ((Nat × Nat) × Host) :=
  let id := h.freshPipe
  let link := fun k => anonymous ['s', 'o', 'c', 'k', 'e', 't'] k
  let h' : Host := { h with
    pipes := update (update h.pipes id newBuf) (id + 1) newBuf
    freshPipe := id + 2 }
  h'.installPair ⟨.socketpair id false, O_RDWR, 0, link id⟩
    ⟨.socketpair id true, O_RDWR, 0, link (id + 1)⟩ refuse

def writesTo : Object → Option Nat
  | .pipe id .write => some id
  | .socketpair id second => some (if second then id else id + 1)
  | _ => none

def objectOf (h : Host) (fd : Nat) : Option Object := (h.fds fd).map fun d => (h.descs d).object

/-- `write` of all the bytes into a pipe or socket pair while its other end is open.  Too little
room is an error: the call would block or write less. -/
def writeAll (h : Host) (fd : Nat) (bytes : List Byte) : Except Errno Host :=
  match (h.objectOf fd).bind writesTo with
  | none => .error EBADF
  | some id =>
    let buf := h.pipes id
    if buf.queue.length + bytes.length ≤ buf.size then
      .ok { h with pipes := update h.pipes id { buf with queue := buf.queue ++ bytes } }
    else .error EAGAIN

/-- `fcntl(F_SETPIPE_SZ)`: at least a page, and not below what the pipe holds. -/
def setPipeSize (h : Host) (fd size : Nat) : Except Errno Host :=
  match h.objectOf fd with
  | some (.pipe id _) =>
    let buf := h.pipes id
    if buf.queue.length ≤ max size 4096 then
      .ok { h with pipes := update h.pipes id { buf with size := max size 4096 } }
    else .error EBUSY
  | _ => .error EBADF

/-! ## Files by name -/

/-- `open`.  A missing file is created when `O_CREAT` asks for it, and `O_TRUNC` empties the file. -/
def openName (h : Host) (name : Name) (flags mode : Nat) (refuse : Option Errno) :
    Except Errno (Nat × Host) :=
  match h.names name with
  | none =>
    if hasFlag flags O_CREAT then
      let ino := h.freshInode
      let h' : Host := { h with
        names := update h.names name (some ino)
        inodes := update h.inodes ino ⟨S_IFREG ||| mode, []⟩
        freshInode := ino + 1 }
      h'.install ⟨.inode ino, flags, 0, name⟩ refuse
    else .error ENOENT
  | some ino =>
    let isDir := fileType (h.inodes ino).mode == S_IFDIR
    if hasFlag flags O_CREAT && hasFlag flags O_EXCL then .error EEXIST
    else if isDir && (hasFlag flags O_ACCMODE || hasFlag flags O_CREAT) then .error EISDIR
    else if !isDir && hasFlag flags O_DIRECTORY then .error ENOTDIR
    else if !h.permits ino flags then .error EACCES
    else
      match h.install ⟨.inode ino, flags, 0, name⟩ refuse with
      | .error e => .error e
      | .ok (fd, h') =>
        if hasFlag flags O_TRUNC && fileType (h.inodes ino).mode == S_IFREG then
          .ok (fd, { h' with
            inodes := update h'.inodes ino { h'.inodes ino with content := [] } })
        else .ok (fd, h')

structure MayOpen (h : Host) (ino flags : Nat) : Prop where
  exclusive : ¬ (hasFlag flags O_CREAT ∧ hasFlag flags O_EXCL)
  directory : fileType (h.inodes ino).mode = S_IFDIR →
    hasFlag flags O_ACCMODE = false ∧ hasFlag flags O_CREAT = false
  file : fileType (h.inodes ino).mode ≠ S_IFDIR → hasFlag flags O_DIRECTORY = false
  permitted : h.permits ino flags

def truncate (h : Host) (ino flags : Nat) : Nat → Inode :=
  if hasFlag flags O_TRUNC && fileType (h.inodes ino).mode == S_IFREG then
    update h.inodes ino { h.inodes ino with content := [] }
  else h.inodes

def opened (h : Host) (name : Name) (flags ino fd : Nat) : Host :=
  { (h.newDesc ⟨.inode ino, flags, 0, name⟩).setFd fd (some h.fresh) with
    inodes := h.truncate ino flags }

/-- An `open` that succeeds opened a file that was there, or made a new one. -/
theorem openName_ok {name : Name} {flags mode : Nat}
    (ho : h.openName name flags mode refuse = .ok (fd, h')) : h.lowest 0 = some fd ∧
      ((∃ ino, h.names name = some ino ∧ h.MayOpen ino flags ∧ h' = h.opened name flags ino fd) ∨
        ∃ inode : Inode, inode.content = [] ∧
          h' = { (h.newDesc ⟨.inode h.freshInode, flags, 0, name⟩).setFd fd (some h.fresh) with
            names := update h.names name (some h.freshInode)
            inodes := update h.inodes h.freshInode inode
            freshInode := h.freshInode + 1 }) := by
  unfold openName at ho
  cases hname : h.names name with
  | none =>
    rw [hname] at ho
    dsimp only at ho
    split at ho
    · rcases install_ok ho with ⟨hlow, rfl⟩
      exact ⟨hlow, .inr ⟨⟨S_IFREG ||| mode, []⟩, rfl, rfl⟩⟩
    · cases ho
  | some ino =>
    rw [hname] at ho
    dsimp only at ho
    split at ho
    · cases ho
    rename_i hexcl
    split at ho
    · cases ho
    rename_i hdir
    split at ho
    · cases ho
    rename_i hfile
    split at ho
    · cases ho
    rename_i hperm
    have hmay : h.MayOpen ino flags := by
      refine ⟨by simpa using hexcl, fun hd => ?_, fun hd => ?_, by simpa using hperm⟩
      · simpa [hd] using hdir
      · simpa [hd] using hfile
    split at ho
    · cases ho
    rename_i hinstall
    rcases install_ok hinstall with ⟨hlow, rfl⟩
    split at ho
    next htrunc =>
      cases ho
      exact ⟨hlow, .inl ⟨ino, rfl, hmay, by rw [opened, truncate, if_pos htrunc]; rfl⟩⟩
    next htrunc =>
      cases ho
      exact ⟨hlow, .inl ⟨ino, rfl, hmay, by rw [opened, truncate, if_neg htrunc]; rfl⟩⟩

end Host

end KontainMonitor.Files
