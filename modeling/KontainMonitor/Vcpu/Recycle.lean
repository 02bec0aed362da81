import KontainMonitor.Vcpu.PoolRuns

/-!
# Recycle — what a thread leaves behind on its vcpu

Two runs differ in what one thread does on vcpu `p` before it exits; then both go on in the same
way.  While `p` is parked the machines differ only in the fields that the thread has set
(`Machine.withThr`): every other step does the same in both.  `km_clone` overwrites few of these
fields, so the next thread on `p` starts in the same state only if the rest was left alike.
-/

namespace KontainMonitor.Vcpus

open Function Option Transition

variable {m m' : Machine} {p q : Nat} {t t' : ThreadFields} {env : GuestEnv} {host : HostLuck}
variable {f : Vcpu → Vcpu} {v : Nat} {a : CloneArgs} {c : Cloned}
variable {r : Machine × Option Nat} {op : PoolOp}

/-! ## Machines that differ in one thread's fields -/

def CloneArgs.fillThr (a : CloneArgs) (t : ThreadFields) : ThreadFields :=
  { t with
    setChildTid := if hasFlag a.flags cloneChildSettid then a.ctid else t.setChildTid
    clearChildTid := if hasFlag a.flags cloneChildCleartid then a.ctid else t.clearChildTid }

def CloneArgs.after (a : CloneArgs) (r : Option Nat) (p : Nat) (t : ThreadFields) : ThreadFields :=
  if r = some p then a.fillThr t else t

def ThreadFields.exit (t : ThreadFields) : ThreadFields := { t with mapself := DelayedUnmap.none }

/-- Where a new thread starts: its signal state, tid addresses and delayed unmap, and the tids that
its creation has written. -/
structure StartState where
  thr : ThreadFields
  writes : List (Nat × Nat)

def Cloned.start (c : Cloned) (p : Nat) : StartState := ⟨(c.machine.heap p).thr, c.writes⟩

end KontainMonitor.Vcpus
