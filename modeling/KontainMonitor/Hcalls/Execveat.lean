import KontainMonitor.Files.Resumed

/-!
# Execveat — running an executable by descriptor (`execveat_hcall` in `km_hcalls.c`)

The monitor runs a new payload by name.  For `execveat` it opens the file itself, looks up the new
descriptor in the payload's table and takes the name from there.
-/

namespace KontainMonitor.Hcalls

open Files Outcome

/-- The second argument: a null pointer, one that is not into guest memory, or a string. -/
inductive PathArg
  | null
  | unmapped
  | text (pathname : Name)
  deriving DecidableEq

/-- The arguments of the hypercall.  `argv` and `envp` say whether the pointers are into guest
memory, `emptyPath` and `noFollow` are the bits `AT_EMPTY_PATH` and `AT_SYMLINK_NOFOLLOW`. -/
structure ExecveatArgs where
  dirfd : Int
  pathname : PathArg
  argv : Bool
  envp : Bool
  emptyPath : Bool
  noFollow : Bool

def kmGuestfdName (s : Fs) (fd : Option Nat) : Option Name := fd.bind fun n => (s.files n).name

def PathArg.isEmpty : PathArg → Bool
  | .text pathname => pathname.isEmpty
  | _ => true

/-- The file that the payload asks for: the one at the path, or the one that `dirfd` refers to. -/
def ExecveatArgs.file (arg : ExecveatArgs) (s : Fs) (path : Name) : Option Object :=
  if arg.pathname.isEmpty then s.host.objectOf arg.dirfd.toNat
  else (s.host.names path).map Object.inode

def ExecveatArgs.Leads (arg : ExecveatArgs) (s : Fs) (path name : Name) : Prop :=
  ∃ ino, s.host.names name = some ino ∧ arg.file s path = some (.inode ino)

end KontainMonitor.Hcalls
