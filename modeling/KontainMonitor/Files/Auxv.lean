import KontainMonitor.Files.Resumed

/-!
# Auxv — reading `/proc/self/auxv` (`km_fs_prw` and `proc_auxv_read` in `km_filesys.c`)

The monitor serves the file from `machine.auxv`, a block on its heap.  A file is read on from where
the last read ended, and `proc_auxv_read` does not look at the position.
-/

namespace KontainMonitor.Files

open List

/-- The heap from `machine.auxv` on: `auxv_size` bytes, and what happens to be behind them. -/
structure Auxv where
  vector : List Byte
  behind : Nat → Byte

def Auxv.byte (m : Auxv) (k : Nat) : Byte := m.vector[k]?.getD (m.behind (k - m.vector.length))

/-- What a read does: an error, a call to the host, which `proc_sched_read` makes for all but the
first line, or bytes written to the payload's buffer and the number returned. -/
inductive ReadEnd
  | errno (ret : Int)
  | host
  | sched
  | bytes (written : List Byte) (ret : Nat)
  deriving DecidableEq

def procAuxvRead (m : Auxv) (bufSz : Nat) : ReadEnd :=
  .bytes ((List.range bufSz).map m.byte) (min bufSz m.vector.length)

def auxvLine : Nat := 4

/-- Those for `/proc/self/sched` and `/proc/%u/sched`. -/
def schedLines : List Nat := [3, 8]

/-- `km_fs_prw` for `read`; files without an operation of their own are read by the host. -/
def kmFsRead (s : Fs) (m : Auxv) (fd : Int) (count : Nat) : ReadEnd :=
  match kmFsG2hFd s fd with
  | none => .errno EBADF.ret
  | some n =>
    if (s.files n).error ≠ 0 then .errno (s.files n).error
    else
      match (s.files n).ops with
      | none => .host
      | some line =>
        if line = auxvLine then procAuxvRead m count
        else if line ∈ schedLines then .sched
        else .host

def fileReads (content : List Byte) : Nat → List Nat → List ReadEnd
  | _, [] => []
  | pos, n :: ns =>
    let chunk := (content.drop pos).take n
    .bytes chunk chunk.length :: fileReads content (pos + chunk.length) ns

/-- All reads end within the content, and each finds the bytes with which the content starts. -/
def Repeats (content : List Byte) : Nat → List Nat → Prop
  | _, [] => True
  | pos, n :: ns => pos + n ≤ content.length ∧ (content.drop pos).take n = content.take n ∧
      Repeats content (pos + n) ns

variable {m : Auxv} {n pos : Nat}

theorem Auxv.bytes_eq (h : n ≤ m.vector.length) : (List.range n).map m.byte = m.vector.take n := by
  apply ext_getElem
  · simp [h]
  intro k hk _
  have hlt : k < m.vector.length := by
    rw [length_map, length_range] at hk
    omega
  simp [Auxv.byte, hlt]

/-- One read. -/
theorem procAuxvRead_eq_iff (hpos : pos ≤ m.vector.length) :
    procAuxvRead m n = .bytes ((m.vector.drop pos).take n) ((m.vector.drop pos).take n).length ↔
      pos + n ≤ m.vector.length ∧ (m.vector.drop pos).take n = m.vector.take n := by
  rw [procAuxvRead, ReadEnd.bytes.injEq]
  constructor
  · rintro ⟨hbytes, -⟩
    -- the buffer gets as many bytes as were asked for
    have hlen := congrArg List.length hbytes
    simp only [length_map, length_range, length_take, length_drop] at hlen
    rw [Auxv.bytes_eq (by omega)] at hbytes
    exact ⟨by omega, hbytes.symm⟩
  rintro ⟨hle, hsame⟩
  rw [Auxv.bytes_eq (by omega), hsame, length_take]
  exact ⟨rfl, rfl⟩

theorem procAuxvRead_reads_iff (hpos : pos ≤ m.vector.length) (counts : List Nat) :
    counts.map (procAuxvRead m) = fileReads m.vector pos counts ↔ Repeats m.vector pos counts := by
  induction counts generalizing pos with
  | nil => exact ⟨fun _ => trivial, fun _ => rfl⟩
  | cons n ns ih =>
    have hnext : pos + n ≤ m.vector.length → ((m.vector.drop pos).take n).length = n := by
      intro hle
      rw [length_take, length_drop]
      omega
    rw [map_cons, fileReads, List.cons.injEq, procAuxvRead_eq_iff hpos, Repeats, and_assoc]
    refine and_congr_right fun hle => and_congr_right fun _ => ?_
    rw [hnext hle]
    exact ih hle

/-- Reads of `/proc/self/auxv` give the bytes of `machine.auxv` in order, then the end of the file,
and write nothing else, if and only if they do not go past the end and the next bytes are always
those at the start. -/
theorem auxv_reads_iff (s : Fs) (m : Auxv) (fd : Int) (n : Nat) (counts : List Nat)
    (hfd : kmFsG2hFd s fd = some n) (herror : (s.files n).error = 0)
    (hops : (s.files n).ops = some auxvLine) :
    counts.map (kmFsRead s m fd) = fileReads m.vector 0 counts ↔ Repeats m.vector 0 counts := by
  have hread : kmFsRead s m fd = procAuxvRead m := by
    funext count
    simp [kmFsRead, hfd, herror, hops]
  rw [hread]
  exact procAuxvRead_reads_iff (Nat.zero_le _) counts

/-- A payload with `/proc/self/auxv` at 3, and the vector `AT_PAGESZ`, `AT_NULL`. -/
def auxvProcess : Fs :=
  (kmFsInit 727 0 [] plainHost).setFile 3 { KmFile.zero with inuse := true, ops := some auxvLine }

def pageSizeVector : Auxv where
  vector := [6, 0, 0, 0, 0, 0, 0, 0, 0, 16, 0, 0, 0, 0, 0, 0] ++ List.replicate 16 0
  behind _ := 0xaa

theorem auxv_reads_iff_whole :
    kmFsRead auxvProcess pageSizeVector 3 32 = .bytes pageSizeVector.vector 32 := by
  have hreads := (auxv_reads_iff auxvProcess pageSizeVector 3 3 [32] rfl rfl rfl).2
    ⟨by decide, by decide, trivial⟩
  exact (List.cons.inj hreads).1

/-- The second read starts over, and a large one writes what is behind the vector. -/
theorem auxv_reads_wrong :
    kmFsRead auxvProcess pageSizeVector 3 32 = .bytes pageSizeVector.vector 32 ∧
      fileReads pageSizeVector.vector 0 [32, 32] = [.bytes pageSizeVector.vector 32, .bytes [] 0] ∧
        kmFsRead auxvProcess pageSizeVector 3 34 =
          .bytes (pageSizeVector.vector ++ [0xaa, 0xaa]) 32 := by
  decide

end KontainMonitor.Files
