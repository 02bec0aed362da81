import KontainMonitor.Lib.NoteStream
import KontainMonitor.Files.Save
import KontainMonitor.Mmap.Regions
import KontainMonitor.Vcpu.Restore

/-!
# Notes — the note section of a core file (`km_coredump.c`, `km_snapshot.c`)

`km_core_write_notes` fills a zeroed buffer: each writer puts a header with the length it computed,
the descriptor, and moves the cursor by a rule of its own.  `km_snapshot_notes_apply` follows the
lengths in the headers.
-/

namespace KontainMonitor.Snapshot

open Files NoteStream Outcome

/-! ## Pieces of a descriptor -/

def u16 (n : Nat) : List Byte := leBytes 2 n
def u32 (n : Nat) : List Byte := leBytes 4 n
def u64 (n : Nat) : List Byte := leBytes 8 n
def i32 (i : Int) : List Byte := u32 (BitVec.ofInt 32 i).toNat
def zeros (n : Nat) : List Byte := List.replicate n 0

@[simp] theorem length_u16 (n : Nat) : (u16 n).length = 2 := length_leBytes 2 n
@[simp] theorem length_u32 (n : Nat) : (u32 n).length = 4 := length_leBytes 4 n
@[simp] theorem length_u64 (n : Nat) : (u64 n).length = 8 := length_leBytes 8 n
@[simp] theorem length_i32 (i : Int) : (i32 i).length = 4 := length_u32 _
@[simp] theorem length_zeros (n : Nat) : (zeros n).length = n := List.length_replicate

/-- A string with its terminating zero. -/
def cstr (name : Name) : List Byte := name ++ [0]

/-- `km_nt_chunk_roundup`: bytes followed by zeros up to a multiple of four. -/
def chunk (bytes : List Byte) : List Byte := bytes ++ zeros (roundup4 bytes.length - bytes.length)

def kmNtFilePaddedSize (name : Name) : Nat := roundup4 (name.length + 1)

@[simp] theorem length_cstr (name : Name) : (cstr name).length = name.length + 1 := by simp [cstr]

@[simp] theorem length_chunk (bytes : List Byte) : (chunk bytes).length = roundup4 bytes.length := by
  rw [chunk, List.length_append, length_zeros]
  unfold roundup4
  omega

def bytesOf (s : String) : Name := s.toUTF8.toList.map UInt8.toBitVec

def fit (n : Nat) (bytes : List Byte) : List Byte := bytes.take n ++ zeros (n - bytes.length)

@[simp] theorem length_fit (n : Nat) (bytes : List Byte) : (fit n bytes).length = n := by
  rw [fit, List.length_append, List.length_take, length_zeros]
  omega

/-! ## The state that is dumped -/

def ownerCore : List Byte := [0x43, 0x4f, 0x52, 0x45]
def ownerKm : List Byte := [0x4b, 0x4d, 0x53, 0x50]

def NT_PRSTATUS : Nat := 1
def NT_AUXV : Nat := 6
def NT_FILE : Nat := 0x46494c45
def NT_KM_MONITOR : Nat := 0x4b4d4d4e
def NT_KM_VCPU : Nat := 0x4b4d5052
def NT_KM_DYNLINKER : Nat := 0x4b4d444c
def NT_KM_GUESTV : Nat := 0x4b4d4756
def NT_KM_DUP_DATA : Nat := 0x4b4d4455
def NT_KM_FILE : Nat := 0x4b4d4644
def NT_KM_EVENTFD : Nat := 0x4b4d4556
def NT_KM_SOCKET : Nat := 0x4b4d534b
def NT_KM_EPOLLFD : Nat := 0x4b4d4550
def NT_KM_SIGHAND : Nat := 0x4b4d5348
def NT_KM_IOCONTEXTS : Nat := 0x4b4d4358

def PT_LOAD : Nat := 1

structure Phdr where
  type : Nat
  flags : Nat
  offset : Nat
  vaddr : Nat
  paddr : Nat
  filesz : Nat
  memsz : Nat
  align : Nat
  deriving DecidableEq

/-- `km_payload_t`; `e_phnum` is the number of program headers. -/
structure Payload where
  loadAdjust : Nat
  dlopen : Nat
  ehdr : List Byte
  phdrs : List Phdr
  filename : Name
  ehdr_length : ehdr.length = 64

/-- `km_sigaction_t`. -/
structure SigAction where
  handler : Nat
  flags : Nat
  mask : Nat
  restorer : Nat
  deriving DecidableEq

/-- An entry of `km_iocp`. -/
structure IoContext where
  maxevents : Nat
  pcontext : Nat
  deriving DecidableEq

/-- What `km_core_write_notes` reads.  `fpSaved` tells for each vcpu whether its floating point state
could be saved. -/
structure Dump where
  vcpus : Vcpus.Machine
  vcpu : Option Nat
  vmType : Vcpus.VmType
  xsave : Bool
  fpSaved : Nat → Bool
  guest : Payload
  dynlinker : Option Payload
  busy : List Mmap.Reg
  auxv : List Byte
  fs : Fs
  piocontext : Nat
  iocontexts : List IoContext
  sigactions : Nat → SigAction
  brk : Nat
  tbrk : Nat
  label : Option Name
  description : Option Name

inductive DumpType
  | core
  | snap
  deriving DecidableEq

/-! ## Writers -/

/-- `NT_PRSTATUS`; `struct elf_prstatus` has the thread id at offset 32 and the registers at 112. -/
def prstatusDesc (n : Vcpus.Prstatus) : List Byte :=
  zeros 32 ++ u32 n.pid ++ zeros 76 ++ n.reg.flatMap u64 ++ zeros 8

/-- `km_make_dump_prstatus`. -/
def prstatusNote (n : Vcpus.Prstatus) : Note where
  owner := ownerCore
  type := NT_PRSTATUS
  descsz := 336
  desc := prstatusDesc n
  pad := roundup4 (16 + 336) - (16 + 336)

structure MappedFile where
  start : Nat
  size : Nat
  offset : Nat
  name : Name

def Payload.mapped (p : Payload) : List MappedFile :=
  (p.phdrs.filter fun ph => ph.type == PT_LOAD).map fun ph =>
    ⟨ph.vaddr + p.loadAdjust, ph.memsz, ph.offset, p.filename⟩

/-- What the three passes of `km_core_dump_mappings` go over. -/
def Dump.mapped (d : Dump) : List MappedFile :=
  d.guest.mapped ++ (d.dynlinker.map Payload.mapped).getD [] ++
    d.busy.filterMap fun r => r.filename.map fun f => ⟨r.start, r.size, asWord r.offset, bytesOf f⟩

def kmMappingsSize (d : Dump) : Nat := 16 + (d.mapped.map fun f => 24 + (f.name.length + 1)).sum

def kmCoreDumpRegionMapping (f : MappedFile) : List Byte :=
  u64 f.start ++ u64 (f.start + f.size) ++ u64 (f.offset / 4096)

def kmCoreDumpMappings (d : Dump) : Note where
  owner := ownerCore
  type := NT_FILE
  descsz := kmMappingsSize d
  desc := u64 d.mapped.length ++ u64 4096 ++ d.mapped.flatMap kmCoreDumpRegionMapping ++
    d.mapped.flatMap fun f => cstr f.name
  pad := roundup4 (16 + kmMappingsSize d) - (16 + kmMappingsSize d)

def kmCoreDumpAuxv (d : Dump) : Note where
  owner := ownerCore
  type := NT_AUXV
  descsz := d.auxv.length
  desc := d.auxv
  pad := roundup4 (16 + d.auxv.length) - (16 + d.auxv.length)

def kmVmdriverFpstateSize (vmType : Vcpus.VmType) (xsave : Bool) : Nat :=
  match vmType with
  | .kvm => if xsave then roundup4 4096 else roundup4 416
  | .kkm => roundup4 (1 + 1 + 64 + 4096)

def fpFormatCode : Vcpus.FpFormat → Nat
  | .none => 0
  | .kvmFpu => 1
  | .kvmXsave => 2
  | .kkmXsave => 3

/-- `NT_KM_VCPU`, with the floating point state in `fpsize` bytes. -/
def vcpuNote (fpsize : Nat) (n : Vcpus.NtVcpu) : Note where
  owner := ownerKm
  type := NT_KM_VCPU
  descsz := 96 + fpsize
  desc := u32 n.vcpuId ++ zeros 4 ++ u64 n.stackTop ++ u64 n.guestThr ++ u64 n.setChildTid ++
    u64 n.clearChildTid ++ u64 n.sigaltstack.sp ++ u32 n.sigaltstack.flags ++ zeros 4 ++
    u64 n.sigaltstack.size ++ u64 n.mapself.base ++ u64 n.mapself.size ++ u64 n.hcarg ++
    u16 n.hypercall ++ u16 n.restart ++ u32 (fpFormatCode n.fpFormat) ++ fit fpsize (n.fpstate.getD [])
  pad := 0

def Phdr.bytes (ph : Phdr) : List Byte :=
  u32 ph.type ++ u32 ph.flags ++ u64 ph.offset ++ u64 ph.vaddr ++ u64 ph.paddr ++ u64 ph.filesz ++
    u64 ph.memsz ++ u64 ph.align

def kmCoreDumpPayloadvNote (p : Payload) : Note where
  owner := ownerKm
  type := NT_KM_GUESTV
  descsz := 88 + p.phdrs.length * 56 + p.filename.length + 1
  desc := u32 1 ++ zeros 4 ++ u64 p.loadAdjust ++ u64 p.dlopen ++ p.ehdr ++
    p.phdrs.flatMap Phdr.bytes ++ cstr p.filename
  pad := roundup4 (16 + 88 + p.phdrs.length * 56 + kmNtFilePaddedSize p.filename) -
    (16 + 88 + p.phdrs.length * 56 + p.filename.length + 1)

/-- `km_core_dump_payload_note`, for the dynamic linker. -/
def kmCoreDumpPayloadNote (p : Payload) : Note where
  owner := ownerKm
  type := NT_KM_DYNLINKER
  descsz := 72 + p.phdrs.length * 56 + p.filename.length + 1
  desc := u64 p.loadAdjust ++ p.ehdr ++ p.phdrs.flatMap Phdr.bytes ++ cstr p.filename
  pad := roundup4 (16 + 72 + p.phdrs.length * 56 + kmNtFilePaddedSize p.filename) -
    (16 + 72 + p.phdrs.length * 56 + p.filename.length + 1)

/-- `km_fs_dup_notes_length` without the header. -/
def kmFsDupNotesLength (groups : List (List Nat)) : Nat :=
  4 + (groups.map fun g => 4 + g.length * 4).sum

def kmFsCoreDupWrite (groups : List (List Nat)) : Note where
  owner := ownerKm
  type := NT_KM_DUP_DATA
  descsz := kmFsDupNotesLength groups
  desc := u32 groups.length ++ groups.flatMap fun g => u32 g.length ++ g.flatMap u32
  pad := 0

def sockStateCode : NtSockState → Nat
  | .open => 0
  | .bind => 1
  | .listen => 2
  | .error => 5

def ntFileBytes (nt : NtFile) : List Byte :=
  u32 40 ++ u32 nt.fd ++ u32 (howCode nt.how) ++ u32 nt.flags ++ u32 nt.mode ++ u32 nt.pipesize ++
    u64 nt.data ++ u32 nt.pipedata.length ++ zeros 4

/-- The note of `fs_core_write_nonsocket`; `queuedbytes` are counted in the header. -/
def fileNote (nt : NtFile) (queuedbytes : Nat) : Note where
  owner := ownerKm
  type := NT_KM_FILE
  descsz := 40 + kmNtFilePaddedSize nt.name + roundup4 queuedbytes
  desc := ntFileBytes nt ++ chunk (cstr nt.name) ++ chunk nt.pipedata
  pad := 0

def socketNote (nt : NtSocket) (queuedbytes : Nat) : Note where
  owner := ownerKm
  type := NT_KM_SOCKET
  descsz := 44 + roundup4 nt.addr.length + roundup4 queuedbytes
  desc := u32 44 ++ u32 nt.fd ++ u32 (howCode nt.how) ++ u32 (sockStateCode nt.state) ++
    i32 nt.backlog ++ u32 nt.domain ++ u32 nt.type ++ u32 nt.protocol ++ i32 nt.other ++
    u32 nt.addr.length ++ u32 nt.sockdata.length ++ chunk nt.addr ++ chunk nt.sockdata
  pad := 0

def eventfdNote (nt : NtFile) : Note where
  owner := ownerKm
  type := NT_KM_EVENTFD
  descsz := 40
  desc := ntFileBytes nt
  pad := 0

def epollfdNote (nt : NtEpollfd) : Note where
  owner := ownerKm
  type := NT_KM_EPOLLFD
  descsz := 16 + nt.events.length * 16
  desc := u32 16 ++ u32 nt.fd ++ u32 nt.flags ++ u32 nt.events.length ++
    nt.events.flatMap fun e => u32 e.fd ++ u32 e.event.events ++ u64 e.event.data
  pad := 0

def fsNote (r : FsNote × Nat) : Note :=
  match r.1 with
  | .dupData groups => kmFsCoreDupWrite groups
  | .file nt => fileNote nt r.2
  | .socket nt => socketNote nt r.2
  | .eventfd nt => eventfdNote nt
  | .epollfd nt => epollfdNote nt

def kmFsIocontextNotesWrite (d : Dump) : Note where
  owner := ownerKm
  type := NT_KM_IOCONTEXTS
  descsz := 16 + d.iocontexts.length * 16
  desc := u32 (16 + d.iocontexts.length * 16) ++ u32 d.iocontexts.length ++ u64 d.piocontext ++
    d.iocontexts.flatMap fun c => u32 c.maxevents ++ zeros 4 ++ u64 c.pcontext
  pad := 0

def sighandNote (signo : Nat) (sa : SigAction) : Note where
  owner := ownerKm
  type := NT_KM_SIGHAND
  descsz := 32
  desc := u32 32 ++ u32 signo ++ u64 sa.handler ++ u32 sa.flags ++ u32 sa.mask ++ u64 sa.restorer
  pad := 0

def nsig : Nat := 65

/-- `km_sig_core_notes_write`: the signals that are not handled by default. -/
def kmSigCoreNotesWrite (d : Dump) : List Note :=
  ((List.range nsig).filter fun i => (d.sigactions i).handler != 0).map fun i =>
    sighandNote (i + 1) (d.sigactions i)

def optStr (name : Option Name) : List Byte := (name.map cstr).getD []

/-- The last note; nothing is skipped after it. -/
def monitorNote (d : Dump) : Note where
  owner := ownerKm
  type := NT_KM_MONITOR
  descsz := 32 + (optStr d.label).length + (optStr d.description).length
  desc := u32 (match d.vmType with | .kvm => 0 | .kkm => 1) ++ u32 (optStr d.label).length ++
    u32 (optStr d.description).length ++ zeros 4 ++ u64 d.brk ++ u64 d.tbrk ++ optStr d.label ++
    optStr d.description
  pad := 0

/-! ## The note section -/

/-- The notes about descriptors, which only a snapshot has. -/
def fsNotes (d : Dump) (ask : Nat → FdAnswers) (dumptype : DumpType) :
    Except SaveError (List Note) :=
  match dumptype with
  | .core => .ok []
  | .snap => do
    let notes ← kmFsCoreNotesWrite d.fs ask
    return kmFsCoreDupWrite d.fs.dups :: notes.map fsNote ++ [kmFsIocontextNotesWrite d]

def machineNotes (d : Dump) : List Note :=
  (Vcpus.writePrstatus d.vcpus d.vcpu).map prstatusNote ++
    [kmCoreDumpMappings d, kmCoreDumpAuxv d] ++
    (Vcpus.kmVcpuApplyAll d.vcpus).map (fun p =>
      vcpuNote (kmVmdriverFpstateSize d.vmType d.xsave) (Vcpus.kmCoreDumpVcpu
        (Vcpus.kmVmdriverFpFormat d.vmType d.xsave) (d.fpSaved p) d.vcpus (d.vcpus.heap p))) ++
    kmCoreDumpPayloadvNote d.guest :: (d.dynlinker.map kmCoreDumpPayloadNote).toList

/-- What `km_core_write_notes` leaves: the notes it wrote, in a buffer of `size` bytes. -/
structure NoteSection where
  notes : List Note
  size : Nat

def NoteSection.buf (w : NoteSection) : List Byte :=
  encode w.notes ++ zeros (w.size - (encode w.notes).length)

def NoteSection.filesz (w : NoteSection) : Nat := (encode w.notes).length

/-- `km_core_write_notes`; the assertion is `cur <= buf + size`. -/
def kmCoreWriteNotes (d : Dump) (ask : Nat → FdAnswers) (dumptype : DumpType) (size : Nat) :
    Except SaveError NoteSection := do
  let fds ← fsNotes d ask dumptype
  let notes := machineNotes d ++ fds ++ kmSigCoreNotesWrite d ++ [monitorNote d]
  if (encode notes).length ≤ size then .ok ⟨notes, size⟩ else .error (.abort .wild)

def kmSnapshotNotesApply {σ : Type} (notebuf : List Byte) (type : Nat)
    (func : List Byte → Nat → σ → Int × σ) (s : σ) : Option (Int × σ) :=
  walk type func notebuf s

end KontainMonitor.Snapshot
