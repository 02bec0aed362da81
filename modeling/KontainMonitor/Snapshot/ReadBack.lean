import KontainMonitor.Files.Resumed
import KontainMonitor.Snapshot.Notes
import KontainMonitor.Vcpu.PoolRuns

/-!
# ReadBack — what the reader of a snapshot sees of its notes

Each writer is looked at once: what it leaves is padded, and its header is honest when the length fits
into a word.  The one exception is `fs_core_write_nonsocket`: for a standard descriptor that is the
read end of a pipe the header counts the queued bytes, which are not written.
-/

namespace KontainMonitor.Snapshot

open Files List NoteStream Outcome

/-! ## Lengths -/

theorem length_flatMap_const {α : Type} {f : α → List Byte} {k : Nat} (l : List α)
    (h : ∀ a, (f a).length = k) : (l.flatMap f).length = l.length * k := by
  induction l with
  | nil => simp
  | cons a l ih =>
    rw [flatMap_cons, length_append, ih, h, length_cons, Nat.succ_mul]
    omega

theorem roundup4_mod (n : Nat) : roundup4 n % 4 = 0 := by
  unfold roundup4
  omega

variable {n : Note} {q size : Nat} {w : NoteSection}

/-- A writer that computes its length right, for a descriptor that needs no padding. -/
theorem tight_ok (howner : n.owner.length = 4) (hpad : n.pad = 0) (hlen : n.desc.length = n.descsz)
    (hmod : n.descsz % 4 = 0) : n.Padded ∧ (n.Honest ↔ n.descsz < 2 ^ 32) := by
  constructor
  · rw [Note.Padded, Note.size, howner, hpad, hlen, roundup4]
    omega
  · rw [Note.Honest, hlen, Nat.mod_eq_iff_lt (by decide)]

/-- A writer that computes its length right and rounds its cursor up. -/
theorem rounded_ok (howner : n.owner.length = 4)
    (hpad : n.pad = roundup4 (16 + n.descsz) - (16 + n.descsz)) (hlen : n.desc.length = n.descsz) :
    n.Padded ∧ (n.Honest ↔ n.descsz < 2 ^ 32) := by
  constructor
  · rw [Note.Padded, Note.size, howner, hpad, hlen]
    unfold roundup4
    omega
  · rw [Note.Honest, hlen, Nat.mod_eq_iff_lt (by decide)]

/-! ## The notes of the machine -/

theorem prstatusNote_ok {n : Vcpus.Prstatus} (h : n.reg.length = 27) :
    (prstatusNote n).Padded ∧ (prstatusNote n).Honest := by
  have hlen : (prstatusDesc n).length = 336 := by
    simp [prstatusDesc, length_flatMap_const n.reg length_u64, h]
  have hok := rounded_ok (n := prstatusNote n) rfl rfl hlen
  exact ⟨hok.1, hok.2.2 (show 336 < 2 ^ 32 by decide)⟩

theorem length_mappingsDesc (d : Dump) : (kmCoreDumpMappings d).desc.length = kmMappingsSize d := by
  have hfiles : ∀ l : List MappedFile, (l.flatMap kmCoreDumpRegionMapping).length +
      (l.flatMap fun f => cstr f.name).length = (l.map fun f => 24 + (f.name.length + 1)).sum := by
    intro l
    induction l with
    | nil => rfl
    | cons f l ih =>
      simp only [flatMap_cons, length_append, map_cons, sum_cons, ← ih,
        kmCoreDumpRegionMapping, length_u64, length_cstr]
      omega
  have h := hfiles d.mapped
  simp only [kmCoreDumpMappings, kmMappingsSize, length_append, length_u64]
  omega

theorem kmCoreDumpMappings_ok (d : Dump) : (kmCoreDumpMappings d).Padded ∧
      ((kmCoreDumpMappings d).Honest ↔ kmMappingsSize d < 2 ^ 32) :=
  rounded_ok rfl rfl (length_mappingsDesc d)

theorem kmCoreDumpAuxv_ok (d : Dump) :
    (kmCoreDumpAuxv d).Padded ∧ ((kmCoreDumpAuxv d).Honest ↔ d.auxv.length < 2 ^ 32) :=
  rounded_ok rfl rfl rfl

theorem kmVmdriverFpstateSize_cases (vmType : Vcpus.VmType) (xsave : Bool) :
    kmVmdriverFpstateSize vmType xsave % 4 = 0 ∧ kmVmdriverFpstateSize vmType xsave < 2 ^ 16 := by
  cases vmType <;> cases xsave <;> decide

theorem vcpuNote_ok {fpsize : Nat} (n : Vcpus.NtVcpu) (hmod : fpsize % 4 = 0)
    (hlt : fpsize < 2 ^ 16) :
    (vcpuNote fpsize n).Padded ∧ (vcpuNote fpsize n).Honest := by
  have hlen : (vcpuNote fpsize n).desc.length = 96 + fpsize := by
    simp [vcpuNote]
    omega
  have hok := tight_ok (n := vcpuNote fpsize n) rfl rfl hlen
    (show (96 + fpsize) % 4 = 0 by omega)
  exact ⟨hok.1, hok.2.2 (show 96 + fpsize < 2 ^ 32 by omega)⟩

theorem Phdr.length_bytes (ph : Phdr) : ph.bytes.length = 56 := by simp [Phdr.bytes]

/-- The padding of a payload's note: the name is padded, then the whole note. -/
theorem payload_pad (k phnum len : Nat) (hk : k % 4 = 0) :
    roundup4 (16 + k + phnum * 56 + roundup4 (len + 1)) - (16 + k + phnum * 56 + len + 1) =
      roundup4 (16 + (k + phnum * 56 + len + 1)) - (16 + (k + phnum * 56 + len + 1)) := by
  unfold roundup4
  omega

theorem kmCoreDumpPayloadvNote_ok (p : Payload) :
    (kmCoreDumpPayloadvNote p).Padded ∧ ((kmCoreDumpPayloadvNote p).Honest ↔
      88 + p.phdrs.length * 56 + p.filename.length + 1 < 2 ^ 32) := by
  refine rounded_ok rfl (payload_pad 88 p.phdrs.length p.filename.length rfl) ?_
  simp only [kmCoreDumpPayloadvNote, length_append, length_u32, length_u64, length_zeros,
    length_cstr, p.ehdr_length, length_flatMap_const p.phdrs Phdr.length_bytes]
  omega

theorem kmCoreDumpPayloadNote_ok (p : Payload) :
    (kmCoreDumpPayloadNote p).Padded ∧ ((kmCoreDumpPayloadNote p).Honest ↔
      72 + p.phdrs.length * 56 + p.filename.length + 1 < 2 ^ 32) := by
  refine rounded_ok rfl (payload_pad 72 p.phdrs.length p.filename.length rfl) ?_
  simp only [kmCoreDumpPayloadNote, length_append, length_u64, length_cstr, p.ehdr_length,
    length_flatMap_const p.phdrs Phdr.length_bytes]
  omega

theorem sighandNote_ok (signo : Nat) (sa : SigAction) :
    (sighandNote signo sa).Padded ∧ (sighandNote signo sa).Honest := by
  have hok := tight_ok (n := sighandNote signo sa) rfl rfl (by simp [sighandNote])
    (show 32 % 4 = 0 by decide)
  exact ⟨hok.1, hok.2.2 (show 32 < 2 ^ 32 by decide)⟩

theorem monitorNote_honest (d : Dump) : (monitorNote d).Honest ↔
    32 + (optStr d.label).length + (optStr d.description).length < 2 ^ 32 := by
  have hlen : (monitorNote d).desc.length = (monitorNote d).descsz := by
    simp [monitorNote]
    omega
  rw [Note.Honest, hlen, Nat.mod_eq_iff_lt (by decide)]
  rfl

/-! ## The notes of the descriptors -/

theorem kmFsCoreDupWrite_ok (groups : List (List Nat)) : (kmFsCoreDupWrite groups).Padded ∧
      ((kmFsCoreDupWrite groups).Honest ↔ kmFsDupNotesLength groups < 2 ^ 32) := by
  have hsum : ∀ l : List (List Nat), (l.flatMap fun g => u32 g.length ++ g.flatMap u32).length =
          (l.map fun g => 4 + g.length * 4).sum ∧
        (l.map fun g => 4 + g.length * 4).sum % 4 = 0 := by
    intro l
    induction l with
    | nil => exact ⟨rfl, rfl⟩
    | cons g l ih =>
      rw [flatMap_cons, length_append, length_append, length_u32,
        length_flatMap_const g length_u32, ih.1, map_cons, sum_cons]
      exact ⟨rfl, by omega⟩
  refine tight_ok rfl rfl ?_ ?_
  · simp only [kmFsCoreDupWrite, kmFsDupNotesLength, length_append, length_u32, (hsum _).1]
  have := (hsum groups).2
  show (4 + _) % 4 = 0
  omega

theorem kmFsIocontextNotesWrite_ok (d : Dump) : (kmFsIocontextNotesWrite d).Padded ∧
      ((kmFsIocontextNotesWrite d).Honest ↔ 16 + d.iocontexts.length * 16 < 2 ^ 32) := by
  have hctx := length_flatMap_const (f := fun c : IoContext => u32 c.maxevents ++ zeros 4 ++
    u64 c.pcontext) (k := 16) d.iocontexts (by simp)
  refine tight_ok rfl rfl ?_ (show (16 + _ * 16) % 4 = 0 by omega)
  simp only [kmFsIocontextNotesWrite, length_append, length_u32, length_u64, hctx]

theorem length_ntFileBytes (nt : NtFile) : (ntFileBytes nt).length = 40 := by simp [ntFileBytes]

theorem eventfdNote_ok (nt : NtFile) : (eventfdNote nt).Padded ∧ (eventfdNote nt).Honest := by
  have hok := tight_ok (n := eventfdNote nt) rfl rfl (length_ntFileBytes nt)
    (show 40 % 4 = 0 by decide)
  exact ⟨hok.1, hok.2.2 (show 40 < 2 ^ 32 by decide)⟩

theorem epollfdNote_ok (nt : NtEpollfd) :
    (epollfdNote nt).Padded ∧ ((epollfdNote nt).Honest ↔ 16 + nt.events.length * 16 < 2 ^ 32) := by
  have hev := length_flatMap_const (f := fun e : FsEvent => u32 e.fd ++ u32 e.event.events ++
    u64 e.event.data) (k := 16) nt.events (by simp)
  refine tight_ok rfl rfl ?_ (show (16 + _ * 16) % 4 = 0 by omega)
  simp only [epollfdNote, length_append, length_u32, hev]

theorem socketNote_ok (nt : NtSocket) (hdata : nt.sockdata.length = q) : (socketNote nt q).Padded ∧
      ((socketNote nt q).Honest ↔ 44 + roundup4 nt.addr.length + roundup4 q < 2 ^ 32) := by
  refine tight_ok rfl rfl ?_ ?_
  · simp only [socketNote, length_append, length_u32, length_i32, length_chunk, hdata]
  have h1 := roundup4_mod nt.addr.length
  have h2 := roundup4_mod q
  show (44 + roundup4 nt.addr.length + roundup4 q) % 4 = 0
  omega

theorem length_fileNote (nt : NtFile) (q : Nat) : (fileNote nt q).desc.length =
    40 + kmNtFilePaddedSize nt.name + roundup4 nt.pipedata.length := by
  simp only [fileNote, length_append, length_ntFileBytes, length_chunk, length_cstr,
    kmNtFilePaddedSize]

theorem fileNote_padded (nt : NtFile) (q : Nat) : (fileNote nt q).Padded := by
  have hname := roundup4_mod (nt.name.length + 1)
  have hdata := roundup4_mod nt.pipedata.length
  rw [Note.Padded, Note.size, length_fileNote, kmNtFilePaddedSize]
  show 12 + 4 + _ + 0 = _
  generalize roundup4 (nt.name.length + 1) = a at *
  generalize roundup4 nt.pipedata.length = b at *
  show _ = roundup4 (12 + 4 + (40 + a + b))
  unfold roundup4
  omega

/-- The header of a file's note counts `q` bytes, and the note has all of them or none. -/
theorem fileNote_honest (nt : NtFile) (hq : q < 2 ^ 31)
    (hdata : nt.pipedata.length = q ∨ nt.pipedata.length = 0) : (fileNote nt q).Honest ↔
      nt.pipedata.length = q ∧ 40 + kmNtFilePaddedSize nt.name + roundup4 q < 2 ^ 32 := by
  have hdesc : (fileNote nt q).descsz = 40 + kmNtFilePaddedSize nt.name + roundup4 q := rfl
  rw [Note.Honest, length_fileNote, hdesc]
  generalize kmNtFilePaddedSize nt.name = a
  unfold roundup4
  rcases hdata with hdata | hdata
  · rw [hdata]
    omega
  rw [hdata]
  omega

/-- The length of a descriptor's note as its writer computes it. -/
def fsNoteSize (file : KmFile) (k : FdAnswers) : Nat :=
  if file.how = .epollfd then 16 + file.events.length * 16
  else if file.how = .eventfd then 40
  else
    match file.sockinfo with
    | none => 40 + kmNtFilePaddedSize (file.name.getD []) +
        roundup4 (if file.how = .pipe0 then k.queued.length else 0)
    | some sock => 44 + roundup4 sock.addr.length +
        roundup4 (if file.how = .socketpair0 ∨ file.how = .socketpair1 then k.queued.length else 0)

variable {k : FdAnswers} {file : KmFile} {fd : Nat} {d : Dump} {ask : Nat → FdAnswers}
variable {dumptype : DumpType}

theorem saveQueued_ok {queued r : List Byte} (h : saveQueued k queued = .ok r) : r = queued := by
  unfold saveQueued at h
  split at h
  · rename_i hq
    cases h
    exact hq.symm
  split at h
  · cases h
  cases h
  rfl

/-- What `fs_core_write_nonsocket` leaves in a note. -/
theorem fsCoreWriteNonsocket_ok {r : NtFile × Nat} (h : fsCoreWriteNonsocket file fd k = .ok r) :
    file.name = some r.1.name ∧ r.2 = (if file.how = .pipe0 then k.queued.length else 0) ∧
      r.1.pipedata.length = if 2 < fd then r.2 else 0 := by
  unfold fsCoreWriteNonsocket at h
  split at h
  · cases h
  rename_i mode hmode
  split at h
  · cases h
  rename_i name hname
  cases hdata : noteData file mode k.pos with
  | error e =>
    rw [hdata] at h
    cases h
  | ok data =>
    rw [hdata] at h
    cases hsave : saveQueued k (if 2 < fd then
        (if file.how = .pipe0 then k.queued else []) else []) with
    | error e =>
      simp only [hsave, bind, Except.bind] at h
      cases h
    | ok pipedata =>
      simp only [hsave, bind, Except.bind] at h
      cases h
      refine ⟨hname, ?_, ?_⟩
      · dsimp only
        split <;> rfl
      rw [saveQueued_ok hsave]
      by_cases hfd : 2 < fd <;> simp [hfd]

theorem fsCoreWriteSocket_ok {sock : SockInfo} {r : NtSocket × Nat}
    (h : fsCoreWriteSocket file sock fd k = .ok r) : r.1.addr = sock.addr ∧
      r.2 = (if file.how = .socketpair0 ∨ file.how = .socketpair1 then k.queued.length else 0) ∧
        r.1.sockdata.length = r.2 := by
  unfold fsCoreWriteSocket at h
  split at h
  · cases h
  cases hsave : saveQueued k
      (if file.how = .socketpair0 ∨ file.how = .socketpair1 then k.queued else []) with
  | error e =>
    simp only [hsave, bind, Except.bind] at h
    cases h
  | ok sockdata =>
    simp only [hsave, bind, Except.bind] at h
    cases h
    refine ⟨rfl, ?_, ?_⟩
    · dsimp only
      split <;> rfl
    · rw [saveQueued_ok hsave]

/-- The note of one descriptor. -/
theorem fsNote_ok {r : FsNote × Nat} (h : fsCoreNote file fd k = .ok r) :
    (fsNote r).Padded ∧ ((fsNote r).Honest ↔
      ¬ (fd < 3 ∧ file.how = .pipe0 ∧ file.sockinfo = none ∧ k.queued ≠ []) ∧
        fsNoteSize file k < 2 ^ 32) := by
  unfold fsCoreNote at h
  unfold fsNoteSize
  split at h
  · -- an epoll descriptor
    rename_i hhow
    cases hw : fsCoreWriteEpollfd file fd k with
    | error e =>
      rw [hw] at h
      cases h
    | ok nt =>
      rw [hw] at h
      cases h
      have hev : nt.events = file.events := by
        unfold fsCoreWriteEpollfd at hw
        split at hw <;> cases hw
        rfl
      have hok := epollfdNote_ok nt
      rw [hev] at hok
      refine ⟨hok.1, hok.2.trans ?_⟩
      rw [if_pos hhow]
      simp [hhow]
  split at h
  · rename_i hnot hhow
    cases hw : fsCoreWriteEventfd file fd k with
    | error e =>
      rw [hw] at h
      cases h
    | ok nt =>
      rw [hw] at h
      cases h
      have hok := eventfdNote_ok nt
      refine ⟨hok.1, iff_of_true hok.2 ?_⟩
      rw [if_neg hnot, if_pos hhow]
      simp [hhow]
  split at h
  · cases h
  rename_i hnot hnot' _
  rw [if_neg hnot, if_neg hnot']
  split at h
  · rename_i hsock
    cases hw : fsCoreWriteNonsocket file fd k with
    | error e =>
      rw [hw] at h
      cases h
    | ok r =>
      rw [hw] at h
      cases h
      rcases fsCoreWriteNonsocket_ok hw with ⟨hname, hq, hdata⟩
      have hlt : r.2 < 2 ^ 31 := by
        have := k.queued_lt
        rw [hq]
        split <;> omega
      refine ⟨fileNote_padded r.1 r.2, (fileNote_honest r.1 hlt ?_).trans ?_⟩
      · by_cases hfd : 2 < fd
        · exact .inl (by rw [hdata, if_pos hfd])
        · exact .inr (by rw [hdata, if_neg hfd])
      rw [hsock, hname, ← hq]
      refine and_congr ?_ Iff.rfl
      -- the counted bytes are missing exactly for a standard descriptor with a pipe's data
      rw [hdata, hq]
      by_cases hfd : 2 < fd
      · simp [hfd, show ¬ fd < 3 by omega]
      by_cases hpipe : file.how = .pipe0
      · simp only [hfd, hpipe, show fd < 3 by omega, if_true, if_false, true_and, not_not, ne_eq]
        exact eq_comm.trans length_eq_zero_iff
      · simp [hfd, hpipe]
  rename_i sock hsock
  cases hw : fsCoreWriteSocket file sock fd k with
  | error e =>
    rw [hw] at h
    cases h
  | ok r =>
    rw [hw] at h
    cases h
    rcases fsCoreWriteSocket_ok hw with ⟨haddr, hq, hdata⟩
    have hok := socketNote_ok r.1 hdata
    refine ⟨hok.1, hok.2.trans ?_⟩
    rw [haddr, hq, hsock]
    simp

/-! ## The whole section -/

/-- The lengths of the notes that every dump has, before the last one, fit into a word. -/
structure Dump.ShortMachine (d : Dump) : Prop where
  mappings : kmMappingsSize d < 2 ^ 32
  auxv : d.auxv.length < 2 ^ 32
  guest : 88 + d.guest.phdrs.length * 56 + d.guest.filename.length + 1 < 2 ^ 32
  dynlinker : ∀ p, d.dynlinker = some p → 72 + p.phdrs.length * 56 + p.filename.length + 1 < 2 ^ 32

/-- Every length of the dumped state fits into the word that states it. -/
structure Dump.Short (d : Dump) (ask : Nat → FdAnswers) (dumptype : DumpType) : Prop
    extends d.ShortMachine where
  dups : dumptype = .snap → kmFsDupNotesLength d.fs.dups < 2 ^ 32
  fds : dumptype = .snap → ∀ fd < d.fs.nfdmap, (d.fs.files fd).inuse →
    fsNoteSize (d.fs.files fd) (ask fd) < 2 ^ 32
  iocontexts : dumptype = .snap → 16 + d.iocontexts.length * 16 < 2 ^ 32
  monitor : 32 + (optStr d.label).length + (optStr d.description).length < 2 ^ 32

theorem machineNotes_ok (d : Dump) : (∀ n ∈ machineNotes d, n.Padded) ∧
      ((∀ n ∈ machineNotes d, n.Honest) ↔ d.ShortMachine) := by
  have hfp := kmVmdriverFpstateSize_cases d.vmType d.xsave
  have hpr : ∀ n ∈ (Vcpus.writePrstatus d.vcpus d.vcpu).map prstatusNote, n.Padded ∧ n.Honest := by
    intro n hn
    rcases mem_map.1 hn with ⟨pr, hpr, rfl⟩
    rcases mem_map.1 hpr with ⟨p, -, rfl⟩
    exact prstatusNote_ok rfl
  have hvc : ∀ n ∈ (Vcpus.kmVcpuApplyAll d.vcpus).map (fun p =>
      vcpuNote (kmVmdriverFpstateSize d.vmType d.xsave) (Vcpus.kmCoreDumpVcpu
        (Vcpus.kmVmdriverFpFormat d.vmType d.xsave) (d.fpSaved p) d.vcpus (d.vcpus.heap p))),
      n.Padded ∧ n.Honest := by
    intro n hn
    rcases mem_map.1 hn with ⟨p, -, rfl⟩
    exact vcpuNote_ok _ hfp.1 hfp.2
  have hmap := kmCoreDumpMappings_ok d
  have haux := kmCoreDumpAuxv_ok d
  have hguest := kmCoreDumpPayloadvNote_ok d.guest
  have hmem : ∀ P : Note → Prop, (∀ n ∈ machineNotes d, P n) ↔
      (∀ n ∈ (Vcpus.writePrstatus d.vcpus d.vcpu).map prstatusNote, P n) ∧
        P (kmCoreDumpMappings d) ∧ P (kmCoreDumpAuxv d) ∧
        (∀ n ∈ (Vcpus.kmVcpuApplyAll d.vcpus).map (fun p =>
          vcpuNote (kmVmdriverFpstateSize d.vmType d.xsave) (Vcpus.kmCoreDumpVcpu
            (Vcpus.kmVmdriverFpFormat d.vmType d.xsave) (d.fpSaved p) d.vcpus
              (d.vcpus.heap p))), P n) ∧
        P (kmCoreDumpPayloadvNote d.guest) ∧
        ∀ p, d.dynlinker = some p → P (kmCoreDumpPayloadNote p) := by
    intro P
    simp only [machineNotes, forall_mem_append, forall_mem_cons, Option.mem_toList,
      Option.map_eq_some_iff, forall_exists_index, and_imp, forall_apply_eq_imp_iff₂,
      not_mem_nil, false_imp_iff, implies_true, and_true]
    tauto
  rw [hmem, hmem]
  refine ⟨⟨fun n hn => (hpr n hn).1, hmap.1, haux.1, fun n hn => (hvc n hn).1, hguest.1,
    fun p _ => (kmCoreDumpPayloadNote_ok p).1⟩, ?_⟩
  constructor
  · rintro ⟨-, h1, h2, -, h3, h4⟩
    exact ⟨hmap.2.1 h1, haux.2.1 h2, hguest.2.1 h3,
      fun p hp => (kmCoreDumpPayloadNote_ok p).2.1 (h4 p hp)⟩
  intro h
  exact ⟨fun n hn => (hpr n hn).2, hmap.2.2 h.mappings, haux.2.2 h.auxv,
    fun n hn => (hvc n hn).2, hguest.2.2 h.guest,
    fun p hp => (kmCoreDumpPayloadNote_ok p).2.2 (h.dynlinker p hp)⟩

/-- The notes that only a snapshot has. -/
theorem fsNotes_ok {notes : List Note} (h : fsNotes d ask dumptype = .ok notes) :
    (∀ n ∈ notes, n.Padded) ∧ ((∀ n ∈ notes, n.Honest) ↔ (dumptype = .snap →
      kmFsDupNotesLength d.fs.dups < 2 ^ 32 ∧ (∀ fd < d.fs.nfdmap, (d.fs.files fd).inuse →
          ¬ (fd < 3 ∧ (d.fs.files fd).how = .pipe0 ∧ (d.fs.files fd).sockinfo = none ∧
            (ask fd).queued ≠ []) ∧ fsNoteSize (d.fs.files fd) (ask fd) < 2 ^ 32) ∧
          16 + d.iocontexts.length * 16 < 2 ^ 32)) := by
  cases dumptype with
  | core =>
    cases h
    simp
  | snap =>
    cases hw : kmFsCoreNotesWrite d.fs ask with
    | error e =>
      rw [fsNotes, hw] at h
      cases h
    | ok l =>
      rw [fsNotes, hw] at h
      cases h
      have hdup := kmFsCoreDupWrite_ok d.fs.dups
      have hio := kmFsIocontextNotesWrite_ok d
      -- one note for each descriptor in use
      rcases mapM_ok hw with ⟨hback, hforth⟩
      have huse : ∀ fd, fd ∈ (List.range d.fs.nfdmap).filter (fun fd => (d.fs.files fd).inuse) ↔
          fd < d.fs.nfdmap ∧ (d.fs.files fd).inuse := by
        intro fd
        rw [mem_filter, mem_range]
      simp only [cons_append, forall_mem_cons, forall_mem_append,
        forall_mem_map, not_mem_nil, false_imp_iff, implies_true, and_true,
        forall_const]
      refine ⟨⟨hdup.1, fun r hr => ?_, hio.1⟩, and_congr hdup.2 (and_congr ?_ hio.2)⟩
      · rcases hback r hr with ⟨fd, -, hfd⟩
        exact (fsNote_ok hfd).1
      constructor
      · intro hhonest fd hlt hin
        rcases hforth fd ((huse fd).2 ⟨hlt, hin⟩) with ⟨r, hr, hfd⟩
        exact (fsNote_ok hfd).2.1 (hhonest r hr)
      intro hfds r hr
      rcases hback r hr with ⟨fd, hmem, hfd⟩
      rcases (huse fd).1 hmem with ⟨hlt, hin⟩
      exact (fsNote_ok hfd).2.2 (hfds fd hlt hin)

theorem kmSigCoreNotesWrite_ok (d : Dump) : ∀ n ∈ kmSigCoreNotesWrite d, n.Padded ∧ n.Honest := by
  intro n hn
  rcases mem_map.1 hn with ⟨i, -, rfl⟩
  exact sighandNote_ok _ _

/-- A successful `km_core_write_notes`. -/
theorem kmCoreWriteNotes_ok (h : kmCoreWriteNotes d ask dumptype size = .ok w) :
    ∃ fds, fsNotes d ask dumptype = .ok fds ∧
      w.notes = machineNotes d ++ fds ++ kmSigCoreNotesWrite d ++ [monitorNote d] := by
  unfold kmCoreWriteNotes at h
  cases hfds : fsNotes d ask dumptype with
  | error e =>
    rw [hfds] at h
    cases h
  | ok fds =>
    rw [hfds] at h
    simp only [bind, Except.bind] at h
    split at h
    · cases h
      exact ⟨fds, rfl, rfl⟩
    · cases h

theorem NoteSection.take_filesz (w : NoteSection) : w.buf.take w.filesz = encode w.notes :=
  take_left' rfl

/-- The reader sees what was written exactly when all headers are honest. -/
theorem readBack_iff_honest (h : kmCoreWriteNotes d ask dumptype size = .ok w) :
    (∀ (σ : Type) (type : Nat) (func : List Byte → Nat → σ → Int × σ) (s : σ),
      kmSnapshotNotesApply (w.buf.take w.filesz) type func s =
        some (visit type func w.notes s)) ↔ ∀ n ∈ w.notes, n.Honest := by
  rcases kmCoreWriteNotes_ok h with ⟨fds, hfds, hnotes⟩
  have hpad : ∀ n ∈ machineNotes d ++ fds ++ kmSigCoreNotesWrite d, n.Padded := by
    intro n hn
    rcases mem_append.1 hn with hn | hn
    · rcases mem_append.1 hn with hn | hn
      · exact (machineNotes_ok d).1 n hn
      · exact (fsNotes_ok hfds).1 n hn
    · exact (kmSigCoreNotesWrite_ok d n hn).1
  rw [w.take_filesz, hnotes]
  exact walk_iff_honest hpad rfl

/-- Any handler sees the notes that were written, each once, in order and with its descriptor,
exactly when no standard descriptor is the read end of a pipe with bytes in it and all lengths fit
into a word. -/
theorem notes_read_back_iff (d : Dump) (ask : Nat → FdAnswers) (dumptype : DumpType) (size : Nat)
    (w : NoteSection) (h : kmCoreWriteNotes d ask dumptype size = .ok w) :
    (∀ (σ : Type) (type : Nat) (func : List Byte → Nat → σ → Int × σ) (s : σ),
      kmSnapshotNotesApply (w.buf.take w.filesz) type func s = some (visit type func w.notes s)) ↔
      (dumptype = .snap → ∀ fd < 3, fd < d.fs.nfdmap → ¬ unsavedReadEnd d.fs ask fd) ∧
        d.Short ask dumptype := by
  refine (readBack_iff_honest h).trans ?_
  rcases kmCoreWriteNotes_ok h with ⟨fds, hfds, hnotes⟩
  have hsig := kmSigCoreNotesWrite_ok d
  simp only [hnotes, forall_mem_append, forall_mem_cons, not_mem_nil, false_imp_iff,
    implies_true, and_true, (machineNotes_ok d).2, (fsNotes_ok hfds).2, monitorNote_honest]
  constructor
  · rintro ⟨⟨⟨hm, hs⟩, -⟩, hmon⟩
    refine ⟨fun hsnap fd hlt hn hun => ?_, hm, fun hsnap => (hs hsnap).1,
      fun hsnap fd hn hin => ((hs hsnap).2.1 fd hn hin).2, fun hsnap => (hs hsnap).2.2, hmon⟩
    rcases hun with ⟨hin, hhow, hsock, hq⟩
    exact ((hs hsnap).2.1 fd hn hin).1 ⟨hlt, hhow, hsock, hq⟩
  rintro ⟨hun, hshort⟩
  refine ⟨⟨⟨hshort.toShortMachine, fun hsnap => ⟨hshort.dups hsnap, fun fd hn hin => ⟨?_, ?_⟩,
    hshort.iocontexts hsnap⟩⟩, fun n hn => (hsig n hn).2⟩, hshort.monitor⟩
  · rintro ⟨hlt, hhow, hsock, hq⟩
    exact hun hsnap fd hlt hn ⟨hin, hhow, hsock, hq⟩
  · exact hshort.fds hsnap fd hn hin

/-! ## Two dumps -/

/-- A small payload with these descriptors, and no threads. -/
def smallDump (fs : Fs) : Dump where
  vcpus := Vcpus.Machine.init
  vcpu := none
  vmType := .kvm
  xsave := true
  fpSaved _ := true
  guest := ⟨0, 0, zeros 64, [⟨PT_LOAD, 5, 0, 0x200000, 0, 0x1000, 0x1000, 0x1000⟩], [0x61], rfl⟩
  dynlinker := none
  busy := []
  auxv := zeros 16
  fs := fs
  piocontext := 0
  iocontexts := []
  sigactions _ := ⟨0, 0, 0, 0⟩
  brk := 0x201000
  tbrk := 0x7ffffff000
  label := some [0x62]
  description := none

/-- A character device, and `bytes` in what a pipe's read end can read. -/
def answers (bytes : List Byte) (h : bytes.length < 2 ^ 31) : FdAnswers :=
  ⟨.ok 0o020620, .espipe, bytes, h, 65536, none, .ok false, .ok 0⟩

/-- The standard descriptors, a pipe at 3 and 4 with two bytes in it, and a socket at 5. -/
def smallFiles : Fs :=
  evaluate (Transition.runCalls Fs.call? (kmFsInit 8 0 [] plainHost) [.pipe2 0 none, .socket 2 1 0 none])

def twoBytes : Nat → FdAnswers := fun fd =>
  if fd = 3 ∨ fd = 4 then
    ⟨.ok 0o010600, .espipe, if fd = 3 then [0x78, 0x79] else [], by split <;> decide, 65536, none,
      .ok false, .ok 0⟩
  else answers [] no_bytes_lt

def smallProcess : Dump :=
  { smallDump smallFiles with
    vcpus := evaluate (Transition.runCalls (Vcpus.poolStep Vcpus.plainEnv) Vcpus.Machine.init
      [.get Vcpus.lucky, .start 0 Vcpus.lucky])
    vcpu := some 0 }

def smallSection : NoteSection :=
  evaluate (kmCoreWriteNotes smallProcess twoBytes .snap 8192).toOption

/-- The reader finds the thread, the read end with its two bytes and the socket. -/
theorem notes_read_back_iff_small :
    [(NT_KM_VCPU, 0), (NT_KM_FILE, 3), (NT_KM_SOCKET, 0)].map (fun x =>
        kmSnapshotNotesApply (smallSection.buf.take smallSection.filesz) x.1 stopAt x.2) =
      [some (1, 4192), some (1, 56), some (1, 44)] := by
  have hw : kmCoreWriteNotes smallProcess twoBytes .snap 8192 = .ok smallSection :=
    eq_ok_of_toOption eq_eval
  have hread := (notes_read_back_iff _ twoBytes .snap 8192 smallSection hw).2 ⟨?_, ?_⟩ Nat
  · simp only [hread]
    decide +kernel
  · rintro - fd hfd - ⟨-, -, -, hq⟩
    exact hq (by simp [twoBytes, show fd ≠ 3 by omega, show fd ≠ 4 by omega, answers])
  refine ⟨⟨by decide, by decide, by decide, fun p hp => by cases hp⟩, fun _ => by decide +kernel, ?_,
    fun _ => by decide, by decide⟩
  have hall : ∀ fd < smallProcess.fs.nfdmap,
      fsNoteSize (smallProcess.fs.files fd) (twoBytes fd) < 2 ^ 32 := by decide +kernel
  exact fun _ fd hfd _ => hall fd hfd

/-- A process that closed its standard input and made a pipe, whose read end is then descriptor 0. -/
def pipeAtZero : Fs :=
  evaluate (Transition.runCalls Fs.call? (kmFsInit 8 0 [] plainHost) [.close 0, .pipe2 0 none])

def oneByte : Nat → FdAnswers := fun fd =>
  if fd = 0 then answers [0x78] (by decide) else answers [] no_bytes_lt

def pipeSection : NoteSection :=
  evaluate (kmCoreWriteNotes (smallDump pipeAtZero) oneByte .snap 4096).toOption

/-- The header of the note of descriptor 0 states four bytes too many, so the reader goes on in the
middle of the next note. -/
theorem queued_stdin_shifts_notes :
    kmCoreWriteNotes (smallDump pipeAtZero) oneByte .snap 4096 = .ok pipeSection ∧
      (∃ n ∈ pipeSection.notes, n.type = NT_KM_FILE ∧ n.descsz = 56 ∧ n.desc.length = 52) ∧
        ¬ ∀ (σ : Type) (type : Nat) (func : List Byte → Nat → σ → Int × σ) (s : σ),
          kmSnapshotNotesApply (pipeSection.buf.take pipeSection.filesz) type func s =
            some (visit type func pipeSection.notes s) := by
  have hw : kmCoreWriteNotes (smallDump pipeAtZero) oneByte .snap 4096 = .ok pipeSection :=
    eq_ok_of_toOption eq_eval
  refine ⟨hw, by decide +kernel, ?_⟩
  rw [readBack_iff_honest hw]
  decide +kernel

end KontainMonitor.Snapshot
