import KontainMonitor.Exec.SaveFd

/-!
# KmState — the monitor's state across `execve` (`km_exec.c`)

The monitor that calls `execve` writes its state into six environment variables, which it puts behind
the strings of the payload's environment.  The new monitor looks the variables up by name.
-/

namespace KontainMonitor.Exec

open Files Scan

/-! ## The state that is passed on -/

/-- The fields of `gdbstub` that are passed on. -/
structure GdbStub where
  port : Int
  listenSocketFd : Int
  sockFd : Int
  enabled : Int
  waitForAttach : Int
  gdbClientAttached : Int
  sendThreadevents : Int
  clientsupMultiprocess : Int
  clientsupXmlregisters : Int
  clientsupQRelocInsn : Int
  clientsupSwbreak : Int
  clientsupHwbreak : Int
  clientsupForkevents : Int
  clientsupVforkevents : Int
  clientsupExecevents : Int
  clientsupVcontsupported : Int
  clientsupQthreadevents : Int
  currentFs : Int
  fds : List Int
  deriving DecidableEq

/-- The monitor that calls `execve`; `forkWait` and `verbose` are variables of its own environment. -/
structure Monitor where
  fs : Fs
  kernel : Kernel
  forkCount : Int
  kvmFd : Int
  machFd : Int
  vcpuFds : List Int
  intrFd : Int
  shutdownFd : Int
  tracepid : Int
  gdb : GdbStub
  forkWait : Option Text
  verbose : Option Text

/-- The variables, in the order in which they are written. -/
inductive Var
  | vers
  | guestfds
  | vmfds
  | eventfds
  | pidinfo
  | gdbinfo
  deriving DecidableEq

def Var.name (v : Var) : Text :=
  ['K', 'M', '_', 'E', 'X', 'E', 'C', '_'] ++
    match v with
    | .vers => ['V', 'E', 'R', 'S']
    | .guestfds => ['G', 'U', 'E', 'S', 'T', 'F', 'D', 'S']
    | .vmfds => ['V', 'M', 'F', 'D', 'S']
    | .eventfds => ['E', 'V', 'E', 'N', 'T', 'F', 'D', 'S']
    | .pidinfo => ['P', 'I', 'D', 'I', 'N', 'F', 'O']
    | .gdbinfo => ['G', 'D', 'B', 'I', 'N', 'F', 'O']

def KM_EXEC_VERNUM : Int := 3
def KVM_MAX_VCPUS : Nat := 288
def MAX_GDB_VFILE_OPEN_FD : Nat := 32

def maxGuestFiles : Int := 1024 - (288 + 2 + 2 + 2 + 2 + 1)

/-! ## Writing -/

def assign (name value : Text) : Text := name ++ '=' :: value

/-- `snprintf` into a buffer of `bufl` bytes; `none`: the text and its zero do not fit. -/
def inBuffer (bufl : Nat) (s : Text) : Option Text := if bufl < s.length + 1 then none else some s

def appendIn (bufl : Nat) (s : Text) (pieces : List Text) : Option Text :=
  pieces.foldlM (fun s piece => inBuffer bufl (s ++ piece)) s

def commas (l : List Int) : Text := join (l.map showDec)

section

variable (k : Kernel) (m : Monitor)

def kmExecVersVar : Option Text :=
  inBuffer (13 + 1 + 4 + 7 + 7)
    (assign Var.vers.name (commas [KM_EXEC_VERNUM, m.fs.nfdmap, m.forkCount]))

def kmExecG2hVar : Option Text :=
  (kmExecSaveFd m.fs m.kernel).map (assign Var.guestfds.name)

def kmExecVmfdVar : Option Text := do
  let bufl := 14 + 1 + (KVM_MAX_VCPUS + 2) * 7
  let s ← inBuffer bufl (assign Var.vmfds.name (commas [m.kvmFd, m.machFd]))
  appendIn bufl s ((m.vcpuFds.take KVM_MAX_VCPUS).map fun fd => ',' :: showDec fd)

def kmExecEventfdVar : Option Text :=
  inBuffer (17 + 1 + 10) (assign Var.eventfds.name (commas [m.intrFd, m.shutdownFd]))

def kmExecPidinfoVar : Option Text :=
  inBuffer (16 + 1 + 8) (assign Var.pidinfo.name (showDec m.tracepid))

def GdbStub.numbers (g : GdbStub) : List Int :=
  [g.port, g.listenSocketFd, g.sockFd, g.enabled, g.waitForAttach, g.gdbClientAttached,
    g.sendThreadevents, g.clientsupMultiprocess, g.clientsupXmlregisters, g.clientsupQRelocInsn,
    g.clientsupSwbreak, g.clientsupHwbreak, g.clientsupForkevents, g.clientsupVforkevents,
    g.clientsupExecevents, g.clientsupVcontsupported, g.clientsupQthreadevents]

def kmExecGdbinfoVar : Option Text := do
  let bufl := 16 + 1 + 17 * 5 + 8 + MAX_GDB_VFILE_OPEN_FD * 5
  let s ← inBuffer bufl (assign Var.gdbinfo.name
    (commas m.gdb.numbers ++ [',', 'f', 's', '='] ++ showDec m.gdb.currentFs ++ [',']))
  appendIn bufl s (m.gdb.fds.map fun fd => showDec fd ++ [','])

def forkWaitName : Text :=
  ['K', 'M', '_', 'G', 'D', 'B', '_', 'C', 'H', 'I', 'L', 'D', '_', 'F', 'O', 'R', 'K', '_', 'W', 'A',
    'I', 'T']

def verboseName : Text := ['K', 'M', '_', 'V', 'E', 'R', 'B', 'O', 'S', 'E']

/-- A debugging variable of the monitor's own environment, in a buffer of 256 bytes. -/
def debugVar (name : Text) (value : Option Text) : List Text :=
  (value.map fun v => (assign name v).take 255).toList

def Var.build : Var → Option Text
  | .vers => kmExecVersVar m
  | .guestfds => kmExecG2hVar m
  | .vmfds => kmExecVmfdVar m
  | .eventfds => kmExecEventfdVar m
  | .pidinfo => kmExecPidinfoVar m
  | .gdbinfo => kmExecGdbinfoVar m

def addedEnv : Option (List Text) := do
  let vars ← [Var.vers, .guestfds, .vmfds, .eventfds, .pidinfo, .gdbinfo].mapM (Var.build m)
  return vars ++ (debugVar forkWaitName m.forkWait ++ debugVar verboseName m.verbose)

/-- `km_exec_build_env`: the payload's strings, then those of the monitor.  `none`: a builder failed,
and there is no `execve`. -/
def kmExecBuildEnv (envp : List Text) : Option (List Text) :=
  (addedEnv m).map fun added => envp ++ added

/-! ## Reading -/

/-- `getenv`: the value of the first string with the name. -/
def getenv (env : List Text) (name : Text) : Option Text :=
  env.findSome? fun s =>
    if (name ++ ['=']).isPrefixOf s then some (s.drop (name.length + 1)) else none

def atoi (s : Text) : Int := ((readDec s).map Prod.fst).getD 0

def tokens (c : Char) (s : Text) : List Text := (s.splitOn c).filter fun t => t ≠ []

/-- `strstr`: the text from the first occurrence on. -/
def strstr (pat : Text) : Text → Option Text
  | [] => if pat = [] then some [] else none
  | c :: s => if pat.isPrefixOf (c :: s) then some (c :: s) else strstr pat s

/-- `km_exec_get_vmfds`: the descriptors of the machine and of the vcpus.  Writing behind the end of
the array is not followed further. -/
def kmExecGetVmfds (vmfds : Text) : Except Abort (Option (Int × Int × List Int)) :=
  match scan [.dec, .lit ',', .dec, .lit ','] vmfds with
  | [kvmFd, machFd] =>
    match tokens ',' vmfds with
    | _ :: _ :: vcpus =>
      if KVM_MAX_VCPUS ≤ vcpus.length then .error .wild
      else do
        let fds ← vcpus.mapM fun p => if atoi p < 0 then .error .recover else .ok (atoi p)
        return some (kvmFd, machFd, fds)
    | _ => .error .recover
  | _ => .ok none

/-- The file descriptors of gdb, each followed by a comma; the comma after the last one is not needed. -/
def gdbFds : Nat → Text → Except Abort (List Int)
  | 0, _ => .ok []
  | 1, s => .ok [atoi s]
  | n + 2, s =>
    match strchr ',' s with
    | none => .error .wild
    | some r => (gdbFds (n + 1) r.tail).map fun fds => atoi s :: fds

/-- What `%hhd` stores. -/
def byteOf (i : Int) : Int := i % 256

/-- The part of `km_exec_recover_kmstate` that reads the state of gdb. -/
def recoverGdb (gdbinfo : Text) : Except Abort (Option GdbStub) :=
  let number : List Dir := [.dec, .lit ',']
  match scan ((List.replicate 17 number).flatten ++
      [.lit 'f', .lit 's', .lit '=', .dec, .lit ',']) gdbinfo with
  | [port, listenSocketFd, sockFd, enabled, waitForAttach, gdbClientAttached, sendThreadevents,
      multiprocess, xmlregisters, qRelocInsn, swbreak, hwbreak, forkevents, vforkevents, execevents,
      vcontsupported, qthreadevents, currentFs] =>
      match strstr ['f', 's', '='] gdbinfo with
      | none => .error .wild
      | some s =>
        match strchr ',' s with
        | none => .error .wild
        | some r => do
          let fds ← gdbFds MAX_GDB_VFILE_OPEN_FD r.tail
          return some {
            port := port
            listenSocketFd := listenSocketFd
            sockFd := sockFd
            enabled := byteOf enabled
            waitForAttach := waitForAttach
            gdbClientAttached := byteOf gdbClientAttached
            sendThreadevents := sendThreadevents
            clientsupMultiprocess := byteOf multiprocess
            clientsupXmlregisters := byteOf xmlregisters
            clientsupQRelocInsn := byteOf qRelocInsn
            clientsupSwbreak := byteOf swbreak
            clientsupHwbreak := byteOf hwbreak
            clientsupForkevents := byteOf forkevents
            clientsupVforkevents := byteOf vforkevents
            clientsupExecevents := byteOf execevents
            clientsupVcontsupported := byteOf vcontsupported
            clientsupQthreadevents := byteOf qthreadevents
            currentFs := currentFs
            fds := fds }
  | _ => .ok none

/-- The state that is recovered; `closed` are the descriptors that `km_exec_vmclean` closes. -/
structure Recovered where
  forkCount : Int
  tracepid : Int
  fds : ExecFds
  gdb : GdbStub
  sendExecEvent : Bool
  closed : List Int

/-- The results of `km_exec_recover_kmstate`: 0, -1 and 1. -/
inductive Recovery
  | parent
  | failed
  | recovered (st : Recovered)

/-- `km_exec_recover_kmstate` after the five variables were found.  A table of negative size is not
followed further. -/
def recoverFrom (vernum vmfds eventfds guestfds pidinfo : Text) (gdbinfo : Option Text) :
    Except Abort Recovery :=
  match scan [.dec, .lit ',', .dec, .lit ',', .dec] vernum with
  | [version, nfdmap, forkCount] =>
    if version ≠ KM_EXEC_VERNUM then .ok .failed
    else if maxGuestFiles < nfdmap then .ok .failed
    else if nfdmap < 0 then .error .wild
    else
      match scan [.dec] pidinfo with
      | [tracepid] => do
        match ← kmExecGetVmfds vmfds with
        | none => .ok .failed
        | some (kvmFd, machFd, vcpuFds) =>
          match scan [.dec, .lit ',', .dec] eventfds with
          | [intrFd, shutdownFd] =>
            match ← kmExecRestoreFd k (ExecFds.calloc nfdmap.toNat) guestfds with
            | none => .ok .failed
            | some fds =>
              match gdbinfo with
              | none => .error .wild
              | some gdbinfo =>
                match ← recoverGdb gdbinfo with
                | none => .ok .failed
                | some gdb =>
                  return .recovered {
                    forkCount := forkCount
                    tracepid := byteOf tracepid
                    fds := fds
                    gdb := gdb
                    sendExecEvent := gdb.enabled != 0 && gdb.gdbClientAttached != 0
                    closed := [intrFd, shutdownFd] ++ vcpuFds ++ [machFd, kvmFd] }
          | _ => .ok .failed
      | _ => .ok .failed
  | _ => .ok .failed

/-- `km_exec_recover_kmstate`, with the variables as `getenv` finds them. -/
def recoverVars (var : Var → Option Text) : Except Abort Recovery :=
  match var .vers, var .vmfds, var .eventfds, var .guestfds, var .pidinfo with
  | some vernum, some vmfds, some eventfds, some guestfds, some pidinfo =>
    recoverFrom k vernum vmfds eventfds guestfds pidinfo (var .gdbinfo)
  | none, none, none, none, none => .ok .parent
  | _, _, _, _, _ => .error .recover

def kmExecRecoverKmstate (env : List Text) : Except Abort Recovery :=
  recoverVars k fun v => getenv env v.name

/-- An `execve` of the payload: what the new monitor recovers.  `none`: the call fails. -/
def execve (envp : List Text) : Option (Except Abort Recovery) :=
  (kmExecBuildEnv m envp).map (kmExecRecoverKmstate m.kernel)

end

end KontainMonitor.Exec
