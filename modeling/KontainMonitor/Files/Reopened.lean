import KontainMonitor.Files.Reopen

/-!
# Reopened — a table of files over snapshot and restore

The notes of a table that holds regular files and directories only, and what the restore makes of
them.  The notes come in the order of the descriptors, so the state before the note of `fd` is
determined: the numbers below `fd` are done, and the monitor's own standard descriptors are still there
at and above it.
-/

namespace KontainMonitor.Files

open Function List

/-! ## Saving -/

/-- What the kernel says about the descriptor of a file; there are no pipes in the table. -/
def Host.fileAnswers (h : Host) (fd : Nat) : FdAnswers where
  mode :=
    match h.objectOf fd with
    | some (.inode ino) => .ok (h.inodes ino).mode
    | some _ => .ok 0
    | none => .error EBADF
  pos :=
    match h.fds fd with
    | some d => .at (h.descs d).offset
    | none => .failed EBADF
  queued := []
  queued_lt := no_bytes_lt
  pipesize := 0
  save := none
  pending := .ok false
  eventCount := .error EINVAL

def snapshotNotes (s : Fs) : Except SaveError (List FsNote) :=
  (kmFsCoreNotesWrite s s.host.fileAnswers).map fun notes =>
    .dupData s.dups :: notes.map Prod.fst

def restoreTable (n : Nat) (h : Host) (notes : List FsNote) : Except Abort Fs :=
  kmFsRecover { kmFsInit n 0 [] h with recovery := true } notes fun _ => .made

/-! ## Tables of files -/

/-- What a descriptor shows of its description: the file, the access mode and the offset. -/
def Desc.view (d : Desc) : Object × Nat × Nat := (d.object, d.flags &&& O_ACCMODE, d.offset)

def Fs.view (s : Fs) (fd : Nat) : Option (Object × Nat × Nat) :=
  (s.host.fds fd).map fun d => (s.host.descs d).view

/-- A table of regular files and directories; the groups of duplicates are disjoint. -/
structure FileTable (s : Fs) : Prop where
  below : ∀ fd, (s.files fd).inuse → fd < s.nfdmap
  how : ∀ fd, (s.files fd).inuse → (s.files fd).how = .open ∨ (s.files fd).how = .recvmsg
  plain : ∀ fd, (s.files fd).inuse → (s.files fd).sockinfo = none
  named : ∀ fd, (s.files fd).inuse → (s.files fd).name ≠ none
  file : ∀ fd, (s.files fd).inuse → ∃ d ino, s.host.fds fd = some d ∧
    (s.host.descs d).object = .inode ino ∧ ino < s.host.freshInode ∧
      (fileType (s.host.inodes ino).mode = S_IFREG ∨ fileType (s.host.inodes ino).mode = S_IFDIR)
  members : ∀ g ∈ s.dups, ∀ fd ∈ g, (s.files fd).inuse
  disjoint : ∀ g ∈ s.dups, ∀ g' ∈ s.dups, ∀ fd, fd ∈ g → fd ∈ g' → g = g'

/-- The kernel's state when the new monitor starts: the files are as they were, and the monitor's
standard descriptors are none of the table's. -/
structure RestoreHost (s : Fs) (h : Host) : Prop where
  start : HostStart s.nfdmap h []
  below : ∀ fd d, h.fds fd = some d → d < h.fresh
  spare : ∃ fd, s.nfdmap ≤ fd ∧ fd < h.limit ∧ h.fds fd = none
  inodes : h.inodes = s.host.inodes
  freshInode : h.freshInode = s.host.freshInode
  std : ∀ fd d, fd < 3 → h.fds fd = some d →
    ∀ fd', (s.files fd').inuse → s.view fd' ≠ some (h.descs d).view

structure Restored (s t : Fs) : Prop where
  numbers : ∀ fd, (t.files fd).inuse = (s.files fd).inuse
  view : ∀ fd, (s.files fd).inuse → t.view fd = s.view fd
  shared : ∀ fd fd', (s.files fd).inuse → (s.files fd').inuse →
    (t.host.fds fd = t.host.fds fd' ↔ s.host.fds fd = s.host.fds fd')
  dups : t.dups = s.dups
  content : ∀ ino, ino < s.host.freshInode →
    (t.host.inodes ino).content = (s.host.inodes ino).content

def SameGroup (s : Fs) (fd fd' : Nat) : Prop := ∃ g ∈ s.dups, fd ∈ g ∧ fd' ∈ g

/-- `fd` is the lowest of its group, or in none: the restore opens it by name. -/
def Leads (s : Fs) (fd : Nat) : Prop := ∀ g ∈ s.dups, fd ∈ g → ∀ fd' ∈ g, fd ≤ fd'

/-- The number shares its description with exactly the lower numbers of its group. -/
def GroupedAt (s : Fs) (fd : Nat) : Prop :=
  ∀ i, i < fd → (s.files i).inuse → (s.host.fds i = s.host.fds fd ↔ SameGroup s i fd)

def SharesAs (s u : Fs) (fd : Nat) : Prop :=
  ∀ i, i < fd → (s.files i).inuse →
    (u.host.fds i = u.host.fds fd ↔ s.host.fds i = s.host.fds fd)

def fileNote (s : Fs) (fd : Nat) : NtFile where
  fd := fd
  how := (s.files fd).how
  flags := (s.files fd).flags
  mode :=
    match s.host.objectOf fd with
    | some (.inode ino) => (s.host.inodes ino).mode
    | _ => 0
  pipesize := 0
  data := ((s.host.fds fd).map fun d => (s.host.descs d).offset).getD 0
  name := (s.files fd).name.getD []
  pipedata := []

@[simp] theorem fileNote_fd (s : Fs) (fd : Nat) : (fileNote s fd).fd = fd := rfl

/-- What has to hold of a descriptor for its note to bring it back. -/
structure Reopenable (s : Fs) (h : Host) (fd : Nat) : Prop where
  own : inherited (fileNote s fd) = false
  std : fd < 3 → ∀ g ∈ s.dups, fd ∈ g → ∀ fd' ∈ g, fd' < 3 → fd' = fd
  shared : ∀ fd', fd' < fd → (s.files fd').inuse →
    (s.host.fds fd' = s.host.fds fd ↔ SameGroup s fd' fd)
  opens : Leads s fd → ∀ d ino, s.host.fds fd = some d → (s.host.descs d).object = .inode ino →
    h.names (fileNote s fd).name = some ino ∧ h.MayOpen ino (s.files fd).flags ∧
      (s.files fd).flags &&& O_ACCMODE = (s.host.descs d).flags &&& O_ACCMODE ∧
        (hasFlag (s.files fd).flags O_TRUNC → fileType (h.inodes ino).mode = S_IFREG →
          (h.inodes ino).content = []) ∧
            (fileType (h.inodes ino).mode = S_IFDIR → (s.host.descs d).offset = 0)

/-! ## The notes in order -/

def restoreFile (s : Fs) (u : Fs) (fd : Nat) : Except Abort Fs :=
  if (s.files fd).inuse then kmFsRecoverOpenFile u (fileNote s fd) else .ok u

def restoreBelow (s : Fs) (h : Host) : Nat → Except Abort Fs
  | 0 => .ok { kmFsInit s.nfdmap 0 [] h with recovery := true, dups := s.dups }
  | k + 1 => do
    let u ← restoreBelow s h k
    restoreFile s u k

theorem hasFlag_S_IFIFO {mode : Nat}
    (h : fileType mode = S_IFREG ∨ fileType mode = S_IFDIR) : hasFlag mode S_IFIFO = false := by
  have hmask : mode &&& S_IFIFO = fileType mode &&& S_IFIFO := by
    rw [fileType, Nat.and_assoc]
    rfl
  rw [hasFlag, hmask]
  rcases h with h | h <;> rw [h] <;> decide

theorem regular_or_directory {mode : Nat} (h : fileType mode = S_IFREG ∨ fileType mode = S_IFDIR) :
    fileType mode ≠ S_IFSOCK ∧ fileType mode ≠ S_IFIFO := by
  rcases h with h | h <;> rw [h] <;> decide

variable {fd old n flags : Nat} {u u' : Fs} {g : List Nat} {nt : NtFile}

theorem fsCoreNote_file {s : Fs} (hs : FileTable s) (hin : (s.files fd).inuse) :
    fsCoreNote (s.files fd) fd (s.host.fileAnswers fd) = .ok (.file (fileNote s fd), 0) := by
  rcases hs.file fd hin with ⟨d, ino, hd, hobj, -, hmode⟩
  rcases Option.ne_none_iff_exists'.1 (hs.named fd hin) with ⟨name, hname⟩
  have hobject : s.host.objectOf fd = some (.inode ino) := by
    rw [Host.objectOf, hd, Option.map_some, hobj]
  have hhow := hs.how fd hin
  have hne : (s.files fd).how ≠ .epollfd ∧ (s.files fd).how ≠ .eventfd ∧
      (s.files fd).how ≠ .timerfd ∧ (s.files fd).how ≠ .pipe0 := by
    rcases hhow with h | h <;> simp [h]
  simp only [fsCoreNote, if_neg hne.1, if_neg hne.2.1, if_neg hne.2.2.1, hs.plain fd hin,
    fsCoreWriteNonsocket, Host.fileAnswers, hobject, hname, if_neg hne.2.2.2, noteData,
    hasFlag_S_IFIFO hmode, hd, saveQueued, fileNote]
  simp [bind, Except.bind, pure, Except.pure, Except.map]

theorem snapshotNotes_eq {s : Fs} (hs : FileTable s) : snapshotNotes s = .ok (.dupData s.dups ::
      ((List.range s.nfdmap).filter fun fd => (s.files fd).inuse).map fun fd =>
        .file (fileNote s fd)) := by
  have hmap : ∀ fds : List Nat, (∀ fd ∈ fds, (s.files fd).inuse) →
      (fds.mapM fun fd => fsCoreNote (s.files fd) fd (s.host.fileAnswers fd)) =
        .ok (fds.map fun fd => (.file (fileNote s fd), 0)) := by
    intro fds
    induction fds with
    | nil =>
      intro _
      rfl
    | cons fd fds ih =>
      intro hall
      rw [mapM_cons, fsCoreNote_file hs (hall fd (.head _)),
        ih fun fd' hfd' => hall fd' (.tail _ hfd')]
      rfl
  rw [snapshotNotes, kmFsCoreNotesWrite, hmap _ fun fd hfd => by simpa using (mem_filter.1 hfd).2]
  simp only [Except.map, map_map]
  rfl

/-- The notes of the descriptors `fds`, behind the groups of duplicates, are served in their order. -/
theorem restoreTable_files (n : Nat) (h : Host) (dups : List (List Nat)) (fds : List Nat)
    (note : Nat → NtFile) : restoreTable n h (.dupData dups :: fds.map fun fd => .file (note fd)) =
      fds.foldlM (fun u fd => kmFsRecoverOpenFile u (note fd))
        ({ kmFsInit n 0 [] h with recovery := true, dups := dups } : Fs) := by
  have hkind : ∀ k, (FsNote.dupData dups :: fds.map fun fd => FsNote.file (note fd)).filter
      (fun n => n.kind == k) =
        if k = 0 then [.dupData dups]
        else if k = 1 then fds.map fun fd => FsNote.file (note fd) else [] := by
    intro k
    rw [filter_cons, filter_map]
    match k with
    | 0 | 1 | k + 2 => simp [FsNote.kind, comp_def]
  rw [restoreTable, kmFsRecover]
  simp only [foldlM_cons, foldlM_nil, hkind]
  simp [Fs.recover, kmFsRecoverDupData, bind, Except.bind, pure, Except.pure, foldlM_map]
  split
  all_goals
    rename_i heq
    exact heq.symm

theorem restoreTable_eq (s : Fs) (h : Host) : restoreTable s.nfdmap h (.dupData s.dups ::
      ((List.range s.nfdmap).filter fun fd => (s.files fd).inuse).map fun fd =>
        .file (fileNote s fd)) = restoreBelow s h s.nfdmap := by
  have hfold : ∀ k, ((List.range k).filter fun fd => (s.files fd).inuse).foldlM
      (fun u fd => kmFsRecoverOpenFile u (fileNote s fd))
        ({ kmFsInit s.nfdmap 0 [] h with recovery := true, dups := s.dups } : Fs) =
          restoreBelow s h k := by
    intro k
    induction k with
    | zero => rfl
    | succ k ih =>
      rw [range_succ, filter_append, foldlM_append, ih, restoreBelow]
      congr 1
      funext u
      by_cases hin : (s.files k).inuse
      · simp [restoreFile, hin]
      simp [restoreFile, hin]
      rfl
  rw [restoreTable_files, hfold]

/-! ## One note -/

/-- What holds of the restoring monitor between any two notes. -/
structure Base (n : Nat) (u : Fs) : Prop where
  nfd : u.nfdmap = n
  recovery : u.recovery
  room : n ≤ u.host.limit
  below : ∀ fd d, u.host.fds fd = some d → d < u.host.fresh
  error : ∀ fd, (u.files fd).error = 0
  plain : ∀ fd, (u.files fd).sockinfo = none
  named : ∀ fd, (u.files fd).inuse → (u.files fd).name ≠ none
  opened : ∀ fd, (u.files fd).inuse → u.host.fds fd ≠ none
  bounded : ∀ fd, (u.files fd).inuse → fd < n
  spare : ∃ fd, n ≤ fd ∧ fd < u.host.limit ∧ u.host.fds fd = none

inductive Served (u : Fs) (nt : NtFile) (u' : Fs) : Prop
  | inherited (own : inherited nt) (same : u' = u)
  | duplicate (old : Nat) (found : kmFsCheckForDupsNolock u nt.fd = old)
      (dup : Duplicated u old nt.fd u')
  | byName (ino : Nat) (host : Host) (other : inherited nt = false)
      (alone : kmFsCheckForDupsNolock u nt.fd < 0)
      (re : Reopened u nt ino host u') (file : u.host.OpensFile nt ino host)

/-- A descriptor that `km_fs_check_for_dups_nolock` finds is in use and of the same group. -/
theorem checkForDups_some (h : 0 ≤ kmFsCheckForDupsNolock u fd) :
    ∃ old : Nat, kmFsCheckForDupsNolock u fd = old ∧ old ≠ fd ∧ (u.files old).inuse ∧
      ∃ g ∈ u.dups, fd ∈ g ∧ old ∈ g := by
  unfold kmFsCheckForDupsNolock at h ⊢
  cases hg : u.dups.find? fun group => group.contains fd with
  | none =>
    rw [hg] at h
    dsimp only at h
    omega
  | some g =>
    rw [hg] at h
    dsimp only at h ⊢
    cases hfd : g.find? fun ofd => ofd != fd && (u.files ofd).inuse with
    | none =>
      rw [hfd] at h
      exact absurd h (by decide)
    | some old =>
      have hold := List.find?_some hfd
      have hmem := List.find?_some hg
      simp only [Bool.and_eq_true, bne_iff_ne, ne_eq] at hold
      exact ⟨old, rfl, hold.1, hold.2, g, mem_of_find?_eq_some hg, by simpa using hmem,
        mem_of_find?_eq_some hfd⟩

theorem checkForDups_found (h : kmFsCheckForDupsNolock u fd = old) :
    old ≠ fd ∧ (u.files old).inuse ∧ ∃ g ∈ u.dups, fd ∈ g ∧ old ∈ g := by
  rcases checkForDups_some (by omega : 0 ≤ kmFsCheckForDupsNolock u fd) with ⟨o, ho, hfound⟩
  cases Int.ofNat.inj (ho.symm.trans h)
  exact hfound

/-- When nothing is found, the first group with the number has no other member in use. -/
theorem checkForDups_neg (h : kmFsCheckForDupsNolock u fd < 0)
    (hdisj : ∀ g ∈ u.dups, ∀ g' ∈ u.dups, ∀ i, i ∈ g → i ∈ g' → g = g') (hg : g ∈ u.dups)
    (hfd : fd ∈ g) (hold : old ∈ g) (hne : old ≠ fd) : (u.files old).inuse = false := by
  unfold kmFsCheckForDupsNolock at h
  cases hfind : u.dups.find? fun group => group.contains fd with
  | none =>
    have := List.find?_eq_none.1 hfind g hg
    simp [hfd] at this
  | some g' =>
    have hmem := List.find?_some hfind
    have heq : g' = g := hdisj g' (mem_of_find?_eq_some hfind) g hg fd (by simpa using hmem) hfd
    subst heq
    rw [hfind] at h
    dsimp only at h
    cases hnone : g'.find? fun ofd => ofd != fd && (u.files ofd).inuse with
    | some o =>
      rw [hnone] at h
      exact absurd h (by simp)
    | none =>
      have := List.find?_eq_none.1 hnone old hold
      simpa [hne] using this

theorem and_O_CLOEXEC (flags : Nat) : flags &&& O_CLOEXEC = 0 ∨ flags &&& O_CLOEXEC = O_CLOEXEC := by
  have hbit : flags &&& O_CLOEXEC = (flags.testBit 19).toNat * O_CLOEXEC := Nat.and_two_pow flags 19
  rw [hbit]
  cases flags.testBit 19 with
  | false => exact .inl (zero_mul _)
  | true => exact .inr (one_mul _)

/-- What is found can be duplicated. -/
theorem Base.duplicable (hb : Base n u) (hlt : fd < n) (hfound : kmFsCheckForDupsNolock u fd = old)
    (flags : Nat) : Duplicable u old fd (flags &&& O_CLOEXEC) := by
  rcases checkForDups_found hfound with ⟨hne, hin, -⟩
  have hn := hb.nfd
  have hroom := hb.room
  have hold := hb.bounded old hin
  exact ⟨hne, and_O_CLOEXEC flags, ⟨by omega, by omega⟩, by omega, hin, hb.error old, hb.opened old hin⟩

theorem served_of_ok (hb : Base n u) (hlt : nt.fd < n)
    (hfile : fileType nt.mode = S_IFREG ∨ fileType nt.mode = S_IFDIR)
    (h : kmFsRecoverOpenFile u nt = .ok u') : Served u nt u' := by
  rcases regular_or_directory hfile with ⟨hsock, hfifo⟩
  have hn := hb.nfd
  unfold kmFsRecoverOpenFile at h
  rw [if_neg (by omega)] at h
  split at h
  next hown =>
    exact .inherited hown (Except.ok.inj h).symm
  rename_i hown
  dsimp only at h
  split at h
  next hdup =>
    rcases checkForDups_some hdup with ⟨old, hold, -⟩
    rw [hold] at h
    rcases (recoverDup_duplicated hb.recovery).of_ok h with ⟨-, hdup⟩ | ⟨hno, -⟩
    · exact .duplicate old hold hdup
    · exact absurd (hb.duplicable hlt hold nt.flags) hno
  rename_i hdup
  have hroom := hb.room
  rcases recoverByName_ok h (by omega) with ⟨ino, host, hre, hino⟩
  exact .byName ino host (Bool.eq_false_iff.2 hown) (by omega) hre hino

theorem closeInGroups_length (fd : Nat) (dups : List (List Nat)) :
    (closeInGroups fd dups).flatten.length ≤ dups.flatten.length ∧
      ((∃ g ∈ dups, fd ∈ g) → (closeInGroups fd dups).flatten.length < dups.flatten.length) := by
  induction dups with
  | nil => exact ⟨le_rfl, nofun⟩
  | cons g rest ih =>
    unfold closeInGroups
    by_cases hg : g.contains fd
    · have hin : fd ∈ g := by simpa using hg
      have hpos := length_pos_of_mem hin
      have herase := length_erase_of_mem hin
      rw [if_pos hg]
      split <;> simp only [flatten_cons, length_append] <;> omega
    rw [if_neg hg]
    simp only [flatten_cons, length_append]
    refine ⟨by omega, fun hmem => ?_⟩
    have hrest : ∃ g' ∈ rest, fd ∈ g' := by
      rcases hmem with ⟨g', hg', hfd⟩
      rcases mem_cons.1 hg' with rfl | hg'
      · exact absurd (by simpa using hfd) hg
      · exact ⟨g', hg', hfd⟩
    have := ih.2 hrest
    omega

/-- What some notes leave alone: the numbers that `keep` holds of, and most of the rest. -/
structure Frame (keep : Nat → Prop) (u u' : Fs) : Prop where
  fds : ∀ i, keep i → u'.host.fds i = u.host.fds i
  fresh : u.host.fresh ≤ u'.host.fresh
  descs : ∀ d, d < u.host.fresh → u'.host.descs d = u.host.descs d
  content : ∀ ino, (u'.host.inodes ino).content = (u.host.inodes ino).content ∨
    (u'.host.inodes ino).content = []
  inuse : ∀ i, keep i → (u'.files i).inuse = (u.files i).inuse
  members : u'.dups.flatten.length ≤ u.dups.flatten.length

theorem Frame.refl (keep : Nat → Prop) (u : Fs) : Frame keep u u :=
  ⟨fun _ _ => rfl, le_rfl, fun _ _ => rfl, fun _ => .inl rfl, fun _ _ => rfl, le_rfl⟩

theorem Frame.trans {keep keep' : Nat → Prop} {v : Fs} (h : Frame keep u v) (h' : Frame keep' v u')
    (hkeep : ∀ i, keep i → keep' i) : Frame keep u u' where
  fds i hi := (h'.fds i (hkeep i hi)).trans (h.fds i hi)
  fresh := Nat.le_trans h.fresh h'.fresh
  descs d hd := (h'.descs d (Nat.lt_of_lt_of_le hd h.fresh)).trans (h.descs d hd)
  content ino := by
    rcases h'.content ino with heq | hempty
    · exact heq ▸ h.content ino
    · exact .inr hempty
  inuse i hi := (h'.inuse i (hkeep i hi)).trans (h.inuse i hi)
  members := le_trans h'.members h.members

theorem Served.frame (h : Served u nt u') : Frame (· ≠ nt.fd) u u' := by
  cases h with
  | inherited _ same => exact same ▸ Frame.refl _ u'
  | duplicate old _ dup =>
    refine ⟨fun i hi => ?_, ?_, fun d _ => ?_, fun ino => ?_, fun i hi => ?_, ?_⟩
    · rw [dup.fds, update_of_ne hi]
    · rw [dup.rest.fresh]
    · rw [dup.rest.descs]
    · rw [dup.rest.inodes]
      exact .inl rfl
    · rcases dup.other i hi with ⟨o, ho⟩
      rw [ho]
    rw [dup.dups]
    split
    · exact (closeInGroups_length ..).1
    · exact le_rfl
  | byName ino host _ _ re file =>
    refine ⟨fun i hi => ?_, ?_, fun d hd => ?_, fun i => ?_, fun i hi => ?_, ?_⟩
    · rw [re.fds, update_of_ne hi]
    · rw [re.fresh]
      omega
    · rw [re.descs, update_of_ne (by omega)]
    · rw [re.inodes]
      rcases file with ⟨-, -, -, -, -, hinodes⟩ | ⟨-, inode, hempty, hinodes⟩
      · rw [hinodes]
        exact Host.truncate_content ..
      rw [hinodes]
      by_cases hi : i = ino
      · subst hi
        rw [update_self]
        exact .inr hempty
      rw [update_of_ne hi]
      exact .inl rfl
    · rw [re.table]
      simp [hi]
    · rw [re.table]

/-- A note that opens its number and leaves the others alone keeps the monitor as it has to be. -/
theorem Base.opened_at {d : Nat} (hb : Base n u) (hlt : fd < n) (hnfd : u'.nfdmap = u.nfdmap)
    (hrec : u'.recovery = u.recovery) (hlimit : u'.host.limit = u.host.limit)
    (hfresh : u.host.fresh ≤ u'.host.fresh)
    (hfds : u'.host.fds = update u.host.fds fd (some d)) (hd : d < u'.host.fresh)
    (hother : ∀ i, i ≠ fd → ∃ o, u'.files i = { u.files i with ofd := o })
    (hthis : (u'.files fd).error = 0 ∧ (u'.files fd).sockinfo = none ∧ (u'.files fd).name ≠ none) :
    Base n u' := by
  have hothers : ∀ i, i ≠ fd → u'.host.fds i = u.host.fds i := by
    intro i hi
    rw [hfds, update_of_ne hi]
  refine ⟨hnfd.trans hb.nfd, hrec.trans hb.recovery, hlimit ▸ hb.room, fun i d' hd' => ?_,
    fun i => ?_, fun i => ?_, fun i hin => ?_, fun i hin => ?_, fun i hin => ?_, ?_⟩
  on_goal 7 =>
    rcases hb.spare with ⟨i, hn, hl, hfree⟩
    exact ⟨i, hn, hlimit ▸ hl, (hothers i (by omega)).trans hfree⟩
  all_goals by_cases hi : i = fd
  · rw [hi, hfds, update_self, Option.some.injEq] at hd'
    omega
  · exact lt_of_lt_of_le (hb.below i d' (hothers i hi ▸ hd')) hfresh
  · exact hi ▸ hthis.1
  · obtain ⟨o, ho⟩ := hother i hi
    exact ho ▸ hb.error i
  · exact hi ▸ hthis.2.1
  · obtain ⟨o, ho⟩ := hother i hi
    exact ho ▸ hb.plain i
  · exact hi ▸ hthis.2.2
  · obtain ⟨o, ho⟩ := hother i hi
    rw [ho] at hin ⊢
    exact hb.named i hin
  · rw [hi, hfds, update_self]
    exact Option.some_ne_none d
  · obtain ⟨o, ho⟩ := hother i hi
    rw [ho] at hin
    exact hothers i hi ▸ hb.opened i hin
  · exact hi ▸ hlt
  obtain ⟨o, ho⟩ := hother i hi
  rw [ho] at hin
  exact hb.bounded i hin

/-- A duplicate of a descriptor that is in use leaves the monitor as it has to be. -/
theorem Duplicated.base (dup : Duplicated u old fd u') (hb : Base n u) (hne : old ≠ fd)
    (hused : (u.files old).inuse) (hlt : fd < n) : Base n u' := by
  rcases Option.ne_none_iff_exists'.1 (hb.opened old hused) with ⟨d, hd⟩
  refine hb.opened_at hlt dup.nfdmap dup.recovery dup.rest.limit (le_of_eq dup.rest.fresh.symm)
    (hd ▸ dup.fds) ?_ dup.other ⟨?_, (dup.sockinfo hne).trans (hb.plain old), dup.name⟩
  · rw [dup.rest.fresh]
    exact hb.below old d hd
  rw [dup.error]
  exact hb.error fd

theorem Duplicated.base_of_found (dup : Duplicated u old fd u') (hb : Base n u)
    (found : kmFsCheckForDupsNolock u fd = old) (hlt : fd < n) : Base n u' := by
  rcases checkForDups_found found with ⟨hne, hin, -⟩
  exact dup.base hb hne hin hlt

/-- What is kept shows the same. -/
theorem Frame.view {keep : Nat → Prop} {i : Nat} (hf : Frame keep u u') (hb : Base n u)
    (hi : keep i) : u'.view i = u.view i := by
  rw [Fs.view, Fs.view, hf.fds i hi]
  cases hd : u.host.fds i with
  | none => rfl
  | some d => simp only [Option.map_some, hf.descs d (hb.below i d hd)]

theorem Served.base (h : Served u nt u') (hb : Base n u) (hlt : nt.fd < n) : Base n u' := by
  cases h with
  | inherited _ same => exact same ▸ hb
  | duplicate old found dup => exact dup.base_of_found hb found hlt
  | byName ino host _ _ re _ =>
    have hthis : u'.files nt.fd = reopenedEntry (u.files nt.fd) nt := by
      rw [re.table]
      simp
    refine hb.opened_at hlt ?_ ?_ re.limit (by rw [re.fresh]; omega) re.fds
      (by rw [re.fresh]; omega) (fun i hi => ⟨(u.files i).ofd, ?_⟩) ?_
    · rw [re.table]
    · rw [re.table]
    · rw [re.table]
      simp [hi]
    rw [hthis]
    exact ⟨hb.error nt.fd, hb.plain nt.fd, Option.some_ne_none _⟩

/-! ## Runs -/

section

variable {s : Fs} {h : Host}
variable {k i : Nat} {t : Fs}

theorem fileNote_mode (hs : FileTable s) (hin : (s.files fd).inuse) :
    fileType (fileNote s fd).mode = S_IFREG ∨ fileType (fileNote s fd).mode = S_IFDIR := by
  rcases hs.file fd hin with ⟨d, ino, hd, hobj, -, hmode⟩
  simpa [fileNote, Host.objectOf, hd, hobj] using hmode

theorem restoreFile_ok (hs : FileTable s) (hb : Base s.nfdmap u)
    (hstep : restoreFile s u fd = .ok u') :
    Base s.nfdmap u' ∧ Frame (· ≠ fd) u u' ∧ ((s.files fd).inuse → Served u (fileNote s fd) u') ∧
      ((s.files fd).inuse = false → u' = u) := by
  unfold restoreFile at hstep
  split at hstep
  next hin =>
    have hserved := served_of_ok hb (hs.below fd hin) (fileNote_mode hs hin) hstep
    refine ⟨hserved.base hb (hs.below fd hin), hserved.frame, fun _ => hserved, fun hout => ?_⟩
    rw [hin] at hout
    cases hout
  rename_i hin
  cases hstep
  exact ⟨hb, .refl _ u, fun hin' => absurd hin' hin, fun _ => rfl⟩

theorem restoreBelow_start (hh : RestoreHost s h) :
    Base s.nfdmap { kmFsInit s.nfdmap 0 [] h with recovery := true, dups := s.dups } := by
  refine ⟨rfl, rfl, hh.start.room, hh.below, fun fd => kmFsInit_error s.nfdmap 0 [] h fd, fun fd => ?_,
    fun fd hin => ?_, fun fd hin => ?_, fun fd hin => ?_, hh.spare⟩
  on_goal 4 =>
    have hthree := hh.start.three
    have := (kmFsInit_inuse s.nfdmap 0 [] h fd).1 hin
    omega
  -- the entries of the new monitor are those of its standard descriptors
  all_goals
    match fd with
    | 0 | 1 | 2 => first | rfl | simpa [kmFsInit] using hh.start.std _ (by decide)
    | fd + 3 => first | rfl | cases hin

theorem restoreBelow_succ (ht : restoreBelow s h (k + 1) = .ok t) :
    ∃ u, restoreBelow s h k = .ok u ∧ restoreFile s u k = .ok t := by
  rw [restoreBelow] at ht
  cases hu : restoreBelow s h k with
  | error e =>
    rw [hu] at ht
    cases ht
  | ok u =>
    rw [hu] at ht
    exact ⟨u, rfl, ht⟩

theorem restoreBelow_base (hs : FileTable s) (hh : RestoreHost s h) :
    ∀ {k : Nat} {u : Fs}, restoreBelow s h k = .ok u → Base s.nfdmap u := by
  intro k
  induction k with
  | zero =>
    intro u hu
    cases hu
    exact restoreBelow_start hh
  | succ k ih =>
    intro t ht
    rcases restoreBelow_succ ht with ⟨u, hu, hstep⟩
    exact (restoreFile_ok hs (ih hu) hstep).1

theorem restoreBelow_later (hs : FileTable s) (hh : RestoreHost s h)
    (hu : restoreBelow s h k = .ok u) :
    ∀ {m : Nat} {t : Fs}, restoreBelow s h (k + m) = .ok t → Frame (· < k) u t := by
  intro m
  induction m with
  | zero =>
    intro t ht
    cases hu.symm.trans ht
    exact .refl _ u
  | succ m ih =>
    intro t ht
    rcases restoreBelow_succ ht with ⟨v, hv, hstep⟩
    refine (ih hv).trans (restoreFile_ok hs (restoreBelow_base hs hh hv) hstep).2.1 fun i hi => ?_
    exact ne_of_lt (lt_of_lt_of_le hi (Nat.le_add_right k m))

theorem restoreBelow_prior (ht : restoreBelow s h n = .ok t) (hk : k ≤ n) :
    ∃ u, restoreBelow s h k = .ok u := by
  induction n generalizing t with
  | zero =>
    have : k = 0 := by omega
    exact ⟨t, this ▸ ht⟩
  | succ n ih =>
    by_cases heq : k = n + 1
    · exact ⟨t, heq ▸ ht⟩
    rcases restoreBelow_succ ht with ⟨u, hu, -⟩
    exact ih hu (by omega)

/-! ## Halfway -/

/-- The state before the note of `fd`, when everything below is restored. -/
structure Midway (s : Fs) (h : Host) (fd : Nat) (u : Fs) : Prop where
  base : Base s.nfdmap u
  names : u.host.names = h.names
  permits : u.host.permits = h.permits
  inodes : u.host.inodes = h.inodes
  freshInode : u.host.freshInode = h.freshInode
  dups : u.dups = s.dups
  used : ∀ i, (u.files i).inuse ↔ i < 3 ∨ (i < fd ∧ (s.files i).inuse)
  view : ∀ i, i < fd → (s.files i).inuse → u.view i = s.view i
  shared : ∀ i j, i < fd → j < fd → (s.files i).inuse → (s.files j).inuse →
    (u.host.fds i = u.host.fds j ↔ s.host.fds i = s.host.fds j)
  grouped : ∀ i j, i < j → j < fd → (s.files i).inuse → (s.files j).inuse →
    (s.host.fds i = s.host.fds j ↔ SameGroup s i j)
  std : ∀ i, i < 3 → fd ≤ i → u.host.fds i = h.fds i
  fresh : h.fresh ≤ u.host.fresh
  descs : ∀ d, d < h.fresh → u.host.descs d = h.descs d

theorem midway_start (hh : RestoreHost s h) :
    Midway s h 0 { kmFsInit s.nfdmap 0 [] h with recovery := true, dups := s.dups } := by
  refine ⟨restoreBelow_start hh, rfl, rfl, rfl, rfl, rfl, fun i => ?_, ?_, ?_, ?_, fun _ _ _ => rfl,
    le_rfl, fun _ _ => rfl⟩
  · match i with
    | 0 | 1 | 2 => simp [kmFsInit]
    | i + 3 => simp [kmFsInit, KmFile.zero]
  · intro i hi
    omega
  · intro i j hi
    omega
  intro i j _ hj
  omega

/-- One more number is done. -/
theorem Midway.next (hs : FileTable s) (hm : Midway s h fd u)
    (hserved : Served u (fileNote s fd) u') (hin : (s.files fd).inuse)
    (hnames : u'.host.names = h.names) (hpermits : u'.host.permits = h.permits)
    (hinodes : u'.host.inodes = h.inodes) (hfreshInode : u'.host.freshInode = h.freshInode)
    (hdups : u'.dups = s.dups) (hused : (u'.files fd).inuse) (hview : u'.view fd = s.view fd)
    (hshared : SharesAs s u' fd) (hgrouped : GroupedAt s fd) : Midway s h (fd + 1) u' := by
  have hf : Frame (· ≠ fd) u u' := hserved.frame
  have hbase := hserved.base hm.base (hs.below fd hin)
  have hfds : ∀ i, i < fd → u'.host.fds i = u.host.fds i := fun i hi => hf.fds i (by omega)
  refine ⟨hbase, hnames, hpermits, hinodes, hfreshInode, hdups, fun i => ?_, fun i hi hi' => ?_,
    fun i j hi hj hi' hj' => ?_, fun i j hij hj hi' hj' => ?_, fun i hi hle => ?_, ?_, fun d hd => ?_⟩
  · by_cases hi : i = fd
    · subst hi
      exact ⟨fun _ => .inr ⟨by omega, hin⟩, fun _ => hused⟩
    rw [hf.inuse i hi, hm.used i]
    exact or_congr_right (and_congr_left fun _ => by omega)
  · by_cases heq : i = fd
    · subst heq
      exact hview
    rw [hf.view hm.base heq]
    exact hm.view i (by omega) hi'
  · by_cases hie : i = fd
    · subst hie
      by_cases hje : j = i
      · subst hje
        exact ⟨fun _ => rfl, fun _ => rfl⟩
      · rw [eq_comm, hshared j (by omega) hj', eq_comm]
    by_cases hje : j = fd
    · subst hje
      exact hshared i (by omega) hi'
    rw [hfds i (by omega), hfds j (by omega)]
    exact hm.shared i j (by omega) (by omega) hi' hj'
  · by_cases hje : j = fd
    · subst hje
      exact hgrouped i hij hi'
    · exact hm.grouped i j hij (by omega) hi' hj'
  · rw [hf.fds i (by omega)]
    exact hm.std i hi (by omega)
  · exact le_trans hm.fresh hf.fresh
  have := hm.fresh
  rw [hf.descs d (by omega)]
  exact hm.descs d hd

/-! ## The step in both directions -/

theorem inherited_lt (hown : inherited nt) : nt.fd < 3 := by
  simp only [inherited, Bool.or_eq_true, Bool.and_eq_true, beq_iff_eq] at hown
  omega

theorem Host.truncate_eq_self {ino : Nat}
    (hempty : hasFlag flags O_TRUNC → fileType (h.inodes ino).mode = S_IFREG →
      (h.inodes ino).content = []) : h.truncate ino flags = h.inodes := by
  unfold Host.truncate
  split
  next htrunc =>
    simp only [Bool.and_eq_true, beq_iff_eq] at htrunc
    rw [update_eq_self_iff, ← hempty htrunc.1 htrunc.2]
  · rfl

theorem Host.lowest_exists (hlt : fd < h.limit) (hfree : h.fds fd = none) :
    ∃ low, h.lowest 0 = some low := by
  refine Option.isSome_iff_exists.1 (List.find?_isSome.2 ⟨fd, mem_range.2 hlt, ?_⟩)
  simp [hfree]

theorem sameGroup_of_mem (hs : FileTable s) (hg : g ∈ s.dups) (hfd : fd ∈ g) (hold : old ∈ g)
    (i : Nat) : SameGroup s i old ↔ SameGroup s i fd := by
  constructor
  · rintro ⟨g', hg', hi, hold'⟩
    exact ⟨g, hg, hs.disjoint g' hg' g hg old hold' hold ▸ hi, hfd⟩
  rintro ⟨g', hg', hi, hfd'⟩
  exact ⟨g, hg, hs.disjoint g' hg' g hg fd hfd' hfd ▸ hi, hold⟩

theorem SameGroup.symm {j : Nat} (hg : SameGroup s i j) : SameGroup s j i := by
  rcases hg with ⟨g, hg, hi, hj⟩
  exact ⟨g, hg, hj, hi⟩

/-- A number that is served by a duplicate shares its description with exactly its group. -/
theorem Midway.grouped_dup (hs : FileTable s) (hm : Midway s h fd u) (hg : g ∈ s.dups)
    (hfd : fd ∈ g) (hold : old ∈ g) (hlt : old < fd) (hsame : s.host.fds old = s.host.fds fd)
    (hi : i < fd) (hin : (s.files i).inuse) :
    s.host.fds i = s.host.fds fd ↔ SameGroup s i fd := by
  have hused := hs.members g hg old hold
  rw [← hsame, ← sameGroup_of_mem hs hg hfd hold]
  rcases Nat.lt_trichotomy i old with hlt' | rfl | hlt'
  · exact hm.grouped i old hlt' hlt hin hused
  · exact ⟨fun _ => ⟨g, hg, hold, hold⟩, fun _ => rfl⟩
  rw [eq_comm, hm.grouped old i hlt' hi hused hin]
  exact ⟨.symm, .symm⟩

/-- A number that is opened by name is in a group with none of the numbers that are open. -/
theorem Midway.alone (hs : FileTable s) (hm : Midway s h fd u)
    (halone : kmFsCheckForDupsNolock u fd < 0) (hi : i ≠ fd)
    (hopen : i < 3 ∨ (i < fd ∧ (s.files i).inuse)) : ¬ SameGroup s i fd := by
  rintro ⟨g, hg, hig, hfd⟩
  have hdisj : ∀ g ∈ u.dups, ∀ g' ∈ u.dups, ∀ i, i ∈ g → i ∈ g' → g = g' := by
    rw [hm.dups]
    exact hs.disjoint
  have hfree := checkForDups_neg halone hdisj (hm.dups ▸ hg) hfd hig hi
  rw [(hm.used i).2 hopen] at hfree
  cases hfree

theorem Midway.fresh_ne (hm : Midway s h fd u) (i : Nat) : u.host.fds i ≠ some u.host.fresh := by
  intro heq
  have := hm.base.below i _ heq
  omega

theorem Midway.lt_of_used (hm : Midway s h fd u) (h3 : 3 ≤ fd) (hused : (u.files i).inuse) :
    i < fd := by
  rcases (hm.used i).1 hused with hlt | ⟨hlt, -⟩
  · omega
  · exact hlt

/-- The note of `fd` is served and the descriptor is as it was: then it is one that can be brought
back, and all up to it is restored. -/
theorem Midway.forward (hs : FileTable s) (hh : RestoreHost s h) (hm : Midway s h fd u)
    (hin : (s.files fd).inuse) (hserved : Served u (fileNote s fd) u')
    (hview : u'.view fd = s.view fd) (hshared : SharesAs s u' fd)
    (hmembers : s.dups.flatten.length ≤ u'.dups.flatten.length)
    (hcontent : ∀ ino, ino < s.host.freshInode →
      (u'.host.inodes ino).content = (h.inodes ino).content) :
    Reopenable s h fd ∧ Midway s h (fd + 1) u' := by
  have hserved' := hserved
  cases hserved with
  | inherited own same =>
    -- the monitor's own descriptor is none of the table
    exfalso
    subst same
    have hlt : fd < 3 := inherited_lt own
    rcases Option.ne_none_iff_exists'.1 (hh.start.std fd hlt) with ⟨d, hd⟩
    have hu : u'.view fd = some (h.descs d).view := by
      rw [Fs.view, hm.std fd hlt le_rfl, hd, Option.map_some,
        hm.descs d (hh.below fd d hd)]
    exact hh.std fd d hlt hd fd hin (hview.symm.trans hu)
  | duplicate old found dup =>
    rcases checkForDups_found found with ⟨hne, hused, g, hg, hfdg, hog⟩
    rw [hm.dups] at hg
    have hfree : (u.files fd).inuse = false := by
      rw [Bool.eq_false_iff]
      intro hused'
      have hlt : (closeInGroups fd s.dups).flatten.length < s.dups.flatten.length :=
        (closeInGroups_length ..).2 ⟨g, hg, hfdg⟩
      rw [dup.dups, fileNote_fd, if_pos hused', hm.dups] at hmembers
      exact absurd (lt_of_le_of_lt hmembers hlt) (lt_irrefl _)
    have h3 : 3 ≤ fd := by
      by_contra hlt
      rw [(hm.used fd).2 (.inl (by omega))] at hfree
      cases hfree
    have hlt := hm.lt_of_used h3 hused
    have hin' := hs.members g hg old hog
    have hfds : u'.host.fds fd = u.host.fds old := by
      rw [dup.fds]
      exact update_self ..
    have hsame : s.host.fds old = s.host.fds fd := by
      refine (hshared old hlt hin').1 ?_
      rw [hfds, dup.fds]
      exact update_of_ne hne ..
    have hgrouped : GroupedAt s fd := fun i hi hi' => hm.grouped_dup hs hg hfdg hog hlt hsame hi hi'
    have hdups : u'.dups = s.dups := by
      rw [dup.dups, fileNote_fd, hfree]
      exact hm.dups
    refine ⟨⟨?_, by omega, hgrouped, ?_⟩, hm.next hs hserved' hin (dup.rest.names.trans hm.names)
      (dup.rest.permits.trans hm.permits) (dup.rest.inodes.trans hm.inodes)
      (dup.rest.freshInode.trans hm.freshInode) hdups dup.inuse hview hshared hgrouped⟩
    · rw [Bool.eq_false_iff]
      intro hown
      have : fd < 3 := inherited_lt hown
      omega
    intro hleads
    have := hleads g hg hfdg old hog
    omega
  | byName ino host other alone re file =>
    rcases hs.file fd hin with ⟨d, ino', hd, hobj, hino', hmode⟩
    have hu : u'.view fd = some (.inode ino, (s.files fd).flags &&& O_ACCMODE,
        reopenedOffset (fileNote s fd)) := by
      rw [Fs.view, re.fds, re.descs, fileNote_fd, update_self]
      simp [Desc.view, fileNote]
    have hsview : s.view fd = some (.inode ino', (s.host.descs d).flags &&& O_ACCMODE,
        (s.host.descs d).offset) := by
      rw [Fs.view, hd, Option.map_some, Desc.view, hobj]
    rw [hu, hsview] at hview
    simp only [Option.some.injEq, Prod.mk.injEq, Object.inode.injEq] at hview
    rcases hview with ⟨rfl, hacc, hoff⟩
    rcases file with ⟨hname, hmay, hnames, hpermits, hfresh, hinodes⟩ | ⟨hnew, -⟩
    swap
    · -- a file that is made by the restore is none of the saved ones
      rw [hm.freshInode, hh.freshInode] at hnew
      omega
    have hmode' : (fileNote s fd).mode = (s.host.inodes ino).mode := by
      simp [fileNote, Host.objectOf, hd, hobj]
    have hgrouped : GroupedAt s fd := by
      intro i hi hi'
      have hngroup := hm.alone hs alone (by omega : i ≠ fd) (.inr ⟨hi, hi'⟩)
      have hnshare : ¬ s.host.fds i = s.host.fds fd := by
        rw [← hshared i hi hi', re.fds, fileNote_fd, update_self, update_of_ne (by omega)]
        exact hm.fresh_ne i
      exact ⟨fun hshare => absurd hshare hnshare, fun hgroup => absurd hgroup hngroup⟩
    have hempty : hasFlag (s.files fd).flags O_TRUNC →
        fileType (h.inodes ino).mode = S_IFREG → (h.inodes ino).content = [] := by
      intro htrunc hreg
      rw [← hcontent ino hino', re.inodes, hinodes, Host.truncate, if_pos]
      · simp
      rw [hm.inodes]
      simp [htrunc, hreg, fileNote]
    have hinodes' : u'.host.inodes = h.inodes := by
      rw [re.inodes, hinodes, ← hm.inodes]
      refine Host.truncate_eq_self ?_
      rw [hm.inodes]
      exact hempty
    refine ⟨⟨other, ?_, hgrouped, ?_⟩, hm.next hs hserved' hin ?_ ?_ hinodes' ?_ ?_ ?_ ?_
      hshared hgrouped⟩
    · intro hlt g hg hfdg fd' hfd' hlt'
      by_contra hne
      exact hm.alone hs alone hne (.inl hlt') ⟨g, hg, hfd', hfdg⟩
    · intro _ d' ino'' hd' hobj'
      cases hd.symm.trans hd'
      cases hobj.symm.trans hobj'
      refine ⟨hm.names ▸ hname, ?_, hacc, hempty, fun hdir => ?_⟩
      · exact ⟨hmay.exclusive, hm.inodes ▸ hmay.directory, hm.inodes ▸ hmay.file,
          hm.permits ▸ hmay.permitted⟩
      rw [← hoff, reopenedOffset, if_neg]
      rw [hmode', ← hh.inodes, hdir]
      decide
    · rw [re.names, hnames, hm.names]
    · rw [re.permits, hpermits, hm.permits]
    · rw [re.freshInode, hfresh, hm.freshInode]
    · rw [re.table]
      exact hm.dups
    · rw [re.table]
      simp [reopenedEntry]
    · rw [hu, hsview, hacc, hoff]

section

variable (hs : FileTable s) (hh : RestoreHost s h) (hm : Midway s h fd u)
  (hin : (s.files fd).inuse) (hok : Reopenable s h fd)
include hs hh hm hin hok

/-- A descriptor of which a duplicate is open is served. -/
theorem Midway.backward_dup (hnot : ¬ Leads s fd) :
    ∃ u', restoreFile s u fd = .ok u' ∧ Midway s h (fd + 1) u' := by
  have hnfd := hm.base.nfd
  have hfdn := hs.below fd hin
  -- a lower member of the group is open already
  have hlower : ∃ g ∈ s.dups, fd ∈ g ∧ ∃ low ∈ g, low < fd := by
    by_contra hnone
    refine hnot fun g hg hfd fd' hfd' => ?_
    by_contra hlt
    exact hnone ⟨g, hg, hfd, fd', hfd', by omega⟩
  rcases hlower with ⟨g, hg, hfdg, low, hlow, hlt⟩
  have h3 : 3 ≤ fd := by
    by_contra h3
    have := hok.std (by omega) g hg hfdg low hlow (by omega)
    omega
  have hcheck : 0 ≤ kmFsCheckForDupsNolock u fd := by
    by_contra hneg
    exact hm.alone hs (by omega) (by omega : low ≠ fd)
      (.inr ⟨hlt, hs.members g hg low hlow⟩) ⟨g, hg, hlow, hfdg⟩
  rcases checkForDups_some hcheck with ⟨old, hold, hne, hused, g', hg', hfdg', holdg⟩
  rw [hm.dups] at hg'
  have holdlt := hm.lt_of_used h3 hused
  have hold' := hs.members g' hg' old holdg
  have hfree : (u.files fd).inuse = false := by
    rw [Bool.eq_false_iff]
    intro hused'
    exact absurd (hm.lt_of_used h3 hused') (lt_irrefl _)
  rcases (recoverDup_total hfree).resolve_right (fun hno => hm.base.named old hused hno.2.2) with
    ⟨u', hu'⟩
  have hrun : kmFsRecoverOpenFile u (fileNote s fd) = .ok u' := by
    rw [kmFsRecoverOpenFile, fileNote_fd, if_neg (by omega), if_neg (by rw [hok.own]; decide)]
    simp only [hold]
    rw [if_pos (by omega)]
    exact hu'
  have hserved := served_of_ok hm.base hfdn (fileNote_mode hs hin) hrun
  have dup : Duplicated u old fd u' :=
    ((recoverDup_duplicated hm.base.recovery).of_ok hu').elim And.right
      fun hno => absurd (hm.base.duplicable hfdn hold _) hno.1
  have hsame : s.host.fds old = s.host.fds fd :=
    (hok.shared old holdlt hold').2 ⟨g', hg', holdg, hfdg'⟩
  have hfds : u'.host.fds fd = u.host.fds old := by rw [dup.fds, update_self]
  have hview : u'.view fd = s.view fd :=
    calc u'.view fd = u.view old := by rw [Fs.view, Fs.view, hfds, dup.rest.descs]
      _ = s.view old := hm.view old holdlt hold'
      _ = s.view fd := by rw [Fs.view, Fs.view, hsame]
  refine ⟨u', by rw [restoreFile, if_pos hin, hrun],
    (hm.forward hs hh hin hserved hview (fun i hi hi' => ?_) ?_ fun ino _ => ?_).2⟩
  · rw [hfds, dup.fds, update_of_ne (by omega), ← hsame]
    exact hm.shared i old hi holdlt hi' hold'
  · rw [dup.dups, hfree, ← hm.dups]
    exact le_rfl
  · rw [dup.rest.inodes, hm.inodes]

/-- A descriptor that leads its group is served by opening its file. -/
theorem Midway.backward_name (hleads : Leads s fd) :
    ∃ u', restoreFile s u fd = .ok u' ∧ Midway s h (fd + 1) u' := by
  have hnfd := hm.base.nfd
  have hroom := hm.base.room
  have hfdn := hs.below fd hin
  rcases hs.file fd hin with ⟨d, ino, hd, hobj, hino, hmode⟩
  rcases hok.opens hleads d ino hd hobj with ⟨hname, hmay, hacc, hempty, hdir⟩
  have hmode' : (fileNote s fd).mode = (s.host.inodes ino).mode := by
    simp [fileNote, Host.objectOf, hd, hobj]
  have hcheck : ¬ 0 ≤ kmFsCheckForDupsNolock u fd := by
    intro hcheck
    rcases checkForDups_some hcheck with ⟨old, -, hne, hused, g, hg, hfdg, hold⟩
    rw [hm.dups] at hg
    have hle := hleads g hg hfdg old hold
    rcases (hm.used old).1 hused with hlt | ⟨hlt, -⟩
    · exact hne (hok.std (by omega) g hg hfdg old hold hlt)
    · omega
  rcases hm.base.spare with ⟨p, -, hp, hpfree⟩
  rcases Host.lowest_exists hp hpfree with ⟨low, hlow⟩
  have hmay' : u.host.MayOpen ino (s.files fd).flags :=
    ⟨hmay.exclusive, hm.inodes ▸ hmay.directory, hm.inodes ▸ hmay.file, hm.permits ▸ hmay.permitted⟩
  have hname' : u.host.names (fileNote s fd).name = some ino := hm.names ▸ hname
  rcases recoverByName_granted hname' hmay' hlow (by rw [hm.inodes, hh.inodes, hmode'])
    (by rw [fileNote_fd]; omega) with ⟨u', hu', re⟩
  rcases regular_or_directory (fileNote_mode hs hin) with ⟨hsock, hfifo⟩
  have hrun : kmFsRecoverOpenFile u (fileNote s fd) = .ok u' := by
    rw [kmFsRecoverOpenFile, fileNote_fd, if_neg (by omega), if_neg (by rw [hok.own]; decide)]
    simp only [hcheck, if_false, hsock, hfifo]
    exact hu'
  have hserved := served_of_ok hm.base hfdn (fileNote_mode hs hin) hrun
  have htrunc : u.host.truncate ino (s.files fd).flags = h.inodes := by
    rw [Host.truncate_eq_self, hm.inodes]
    rw [hm.inodes]
    exact hempty
  have hview : u'.view fd = s.view fd := by
    have hoff : reopenedOffset (fileNote s fd) = (s.host.descs d).offset := by
      rw [reopenedOffset, hmode']
      rcases hmode with hreg | hdirm
      · rw [if_pos hreg]
        simp [fileNote, hd]
      rw [if_neg (by rw [hdirm]; decide)]
      exact (hdir (by rw [hh.inodes]; exact hdirm)).symm
    rw [Fs.view, Fs.view, re.fds, re.descs, fileNote_fd, update_self, hd]
    simp only [Option.map_some, update_self, Desc.view, hobj, hoff]
    rw [← hacc]
    rfl
  refine ⟨u', by rw [restoreFile, if_pos hin, hrun],
    (hm.forward hs hh hin hserved hview (fun i hi hi' => ?_) ?_ fun ino _ => ?_).2⟩
  · rw [re.fds, fileNote_fd, update_self, update_of_ne (by omega)]
    refine ⟨fun heq => absurd heq (hm.fresh_ne i), fun heq => ?_⟩
    rcases (hok.shared i hi hi').1 heq with ⟨g, hg, hig, hfdg⟩
    have := hleads g hg hfdg i hig
    omega
  · rw [re.table, ← hm.dups]
  rw [re.inodes]
  exact congrArg (fun f => (f ino).content) htrunc

end

theorem Midway.skip (hm : Midway s h fd u) (hout : (s.files fd).inuse = false) :
    Midway s h (fd + 1) u := by
  have hlt : ∀ {i}, i < fd + 1 → (s.files i).inuse → i < fd := by
    intro i hi hin
    have hne : i ≠ fd := by
      rintro rfl
      rw [hout] at hin
      cases hin
    omega
  refine ⟨hm.base, hm.names, hm.permits, hm.inodes, hm.freshInode, hm.dups, fun i => ?_,
    fun i hi hi' => hm.view i (hlt hi hi') hi',
    fun i j hi hj hi' hj' => hm.shared i j (hlt hi hi') (hlt hj hj') hi' hj',
    fun i j hij hj hi' hj' => hm.grouped i j hij (hlt hj hj') hi' hj',
    fun i hi hle => hm.std i hi (by omega), hm.fresh, hm.descs⟩
  rw [hm.used i]
  exact or_congr_right (and_congr_left fun hi' => ⟨Nat.lt_succ_of_lt, fun hi => hlt hi hi'⟩)

/-- A restore that gives the saved table back went through the expected states. -/
theorem midway_of_restored (hs : FileTable s) (hh : RestoreHost s h)
    (ht : restoreBelow s h n = .ok t) (hr : Restored s t) :
    ∀ k, k ≤ n → ∃ u, restoreBelow s h k = .ok u ∧ Midway s h k u ∧
      ∀ fd, fd < k → (s.files fd).inuse → Reopenable s h fd := by
  intro k
  induction k with
  | zero =>
    intro _
    exact ⟨_, rfl, midway_start hh, fun fd hfd => by omega⟩
  | succ k ih =>
    intro hk
    rcases ih (by omega) with ⟨u, hu, hm, hdone⟩
    rcases restoreBelow_prior ht hk with ⟨u', hu'⟩
    rcases restoreBelow_succ hu' with ⟨v, hv, hstep⟩
    rw [hu, Except.ok.injEq] at hv
    subst hv
    rcases restoreFile_ok hs hm.base hstep with ⟨hbase, hframe, hserved, hskip⟩
    refine ⟨u', hu', ?_⟩
    cases hin : (s.files k).inuse with
    | false =>
      rw [hskip hin]
      refine ⟨hm.skip hin, fun fd hfd hfd' => hdone fd ?_ hfd'⟩
      have hne : fd ≠ k := by
        rintro rfl
        rw [hin] at hfd'
        cases hfd'
      omega
    | true =>
      -- the later notes leave what this one did as it is
      have hlater : Frame (· < k + 1) u' t := by
        refine restoreBelow_later hs hh hu' (m := n - (k + 1)) ?_
        rwa [Nat.add_sub_cancel' hk]
      have hview : u'.view k = s.view k := by
        rw [← hr.view k hin]
        exact (hlater.view hbase (Nat.lt_succ_self k)).symm
      have hshared : SharesAs s u' k := by
        intro i hi hi'
        rw [← hr.shared i k hi' hin, hlater.fds i (by omega), hlater.fds k (by omega)]
      have hmembers : s.dups.flatten.length ≤ u'.dups.flatten.length := by
        rw [← hr.dups]
        exact hlater.members
      have hcontent : ∀ ino, ino < s.host.freshInode →
          (u'.host.inodes ino).content = (h.inodes ino).content := by
        intro ino hino
        have hend := hr.content ino hino
        have hone := hframe.content ino
        rw [hm.inodes] at hone
        rcases hlater.content ino with hsame | hempty
        · rw [← hsame, hend, hh.inodes]
        rw [hempty] at hend
        rcases hone with hone | hone
        · exact hone
        rw [hone, hh.inodes]
        exact hend
      rcases hm.forward hs hh hin (hserved hin) hview hshared hmembers hcontent with ⟨hok, hnext⟩
      refine ⟨hnext, fun fd hfd hfd' => ?_⟩
      by_cases heq : fd = k
      · exact heq ▸ hok
      · exact hdone fd (by omega) hfd'

/-- When every descriptor can be brought back, all are. -/
theorem midway_of_reopenable (hs : FileTable s) (hh : RestoreHost s h)
    (hok : ∀ fd, (s.files fd).inuse → Reopenable s h fd) :
    ∀ k, ∃ u, restoreBelow s h k = .ok u ∧ Midway s h k u := by
  intro k
  induction k with
  | zero => exact ⟨_, rfl, midway_start hh⟩
  | succ k ih =>
    rcases ih with ⟨u, hu, hm⟩
    rw [restoreBelow, hu]
    cases hin : (s.files k).inuse with
    | false => exact ⟨u, by simp [restoreFile, hin, bind, Except.bind], hm.skip hin⟩
    | true =>
      by_cases hleads : Leads s k
      · exact hm.backward_name hs hh hin (hok k hin) hleads
      · exact hm.backward_dup hs hh hin (hok k hin) hleads

end

/-- A table of files and directories comes back, with numbers, files, access modes, offsets, sharing
and groups and with no file changed, if and only if the standard descriptors are in use and every
descriptor is one whose note can bring it back. -/
theorem files_survive_restore_iff (s : Fs) (h : Host) (hs : FileTable s) (hh : RestoreHost s h) :
    (∃ notes t, snapshotNotes s = .ok notes ∧ restoreTable s.nfdmap h notes = .ok t ∧
        Restored s t) ↔ (∀ fd, fd < 3 → (s.files fd).inuse) ∧
        ∀ fd, (s.files fd).inuse → Reopenable s h fd := by
  constructor
  · rintro ⟨notes, t, hnotes, ht, hr⟩
    rw [snapshotNotes_eq hs, Except.ok.injEq] at hnotes
    subst hnotes
    rw [restoreTable_eq] at ht
    rcases midway_of_restored hs hh ht hr s.nfdmap le_rfl with ⟨u, hu, hm, hok⟩
    rw [ht, Except.ok.injEq] at hu
    subst hu
    refine ⟨fun fd hfd => ?_, fun fd hin => hok fd (hs.below fd hin) hin⟩
    rw [← hr.numbers fd]
    exact (hm.used fd).2 (.inl hfd)
  rintro ⟨hstd, hok⟩
  rcases midway_of_reopenable hs hh hok s.nfdmap with ⟨u, hu, hm⟩
  refine ⟨_, u, snapshotNotes_eq hs, by rw [restoreTable_eq, hu], ⟨fun fd => ?_, fun fd hin => ?_,
    fun fd fd' hin hin' => ?_, hm.dups, fun ino _ => ?_⟩⟩
  · rw [Bool.eq_iff_iff, hm.used fd]
    constructor
    · rintro (hlt | ⟨-, hin⟩)
      · exact hstd fd hlt
      · exact hin
    intro hin
    exact .inr ⟨hs.below fd hin, hin⟩
  · exact hm.view fd (hs.below fd hin) hin
  · exact hm.shared fd fd' (hs.below fd hin) (hs.below fd' hin') hin hin'
  · rw [hm.inodes, hh.inodes]

/-! ## Two processes -/

def pathOf (c : Char) : Name := ['/', c].map fun c => BitVec.ofNat 8 c.toNat

def filePath : Nat → Name
  | 0 => pathOf 'i'
  | 1 => pathOf 'o'
  | 2 => pathOf 'e'
  | _ => pathOf 'l'

/-- The files of the host: a terminal and four regular files with something in them. -/
def someInodes (ino : Nat) : Inode :=
  if ino = 0 then ⟨0o020620, []⟩ else ⟨S_IFREG ||| 0o644, [1, 2, 3]⟩

def someNames (name : Name) : Option Nat :=
  if name = pathOf 'i' then some 1
  else if name = pathOf 'o' then some 2
  else if name = pathOf 'e' then some 3
  else if name = pathOf 'l' then some 4
  else none

def newHost : Host :=
  { plainHost with names := someNames, inodes := someInodes, freshInode := 5 }

/-- A process whose input, output and error output are files, and that opened a fourth file with
`flags` and duplicated it. -/
def fileProcess (flags : Nat) : Fs :=
  { kmFsInit 5 0 [] newHost with
    files := fun fd =>
      if fd < 5 then
        { KmFile.zero with
          inuse := true, ofd := -1, name := some (filePath fd)
          flags := match fd with
            | 0 | 4 => 0
            | 1 | 2 => O_WRONLY
            | _ => flags }
      else KmFile.zero
    dups := [[3, 4]]
    host := { newHost with
      fds := fun fd => if fd < 4 then some fd else if fd = 4 then some 3 else none
      descs := fun d =>
        ⟨.inode (d + 1), if d = 0 then 0 else if d = 3 then flags else O_WRONLY, 2, filePath d⟩
      fresh := 4 } }

theorem fileProcess_lt (hin : ((fileProcess flags).files fd).inuse) : fd < 5 := by
  by_contra hge
  simp [fileProcess, hge, KmFile.zero] at hin

theorem fileProcess_fds (hfd : fd < 5) : (fileProcess flags).host.fds fd = some (min fd 3) := by
  simp only [fileProcess]
  by_cases hlt : fd < 4
  · rw [if_pos hlt, Nat.min_eq_left (by omega)]
  · rw [if_neg hlt, if_pos (by omega), Nat.min_eq_right (by omega)]

theorem fileProcess_table (flags : Nat) : FileTable (fileProcess flags) := by
  refine ⟨fun fd hin => fileProcess_lt hin, fun fd hin => ?_, fun fd hin => ?_, fun fd hin => ?_,
    fun fd hin => ?_, ?_, ?_⟩
  · simp [fileProcess, fileProcess_lt hin, KmFile.zero]
  · simp [fileProcess, fileProcess_lt hin, KmFile.zero]
  · simp [fileProcess, fileProcess_lt hin]
  · refine ⟨_, min fd 3 + 1, fileProcess_fds (fileProcess_lt hin), rfl, ?_, .inl ?_⟩
    · show min fd 3 + 1 < 5
      omega
    simp [fileProcess, newHost, someInodes]
    decide
  · intro g hg fd hfd
    rcases mem_singleton.1 hg with rfl
    have hlt : fd < 5 := by
      simp only [mem_cons, not_mem_nil, or_false] at hfd
      omega
    simp [fileProcess, hlt]
  intro g hg g' hg' _ _ _
  rw [mem_singleton.1 hg, mem_singleton.1 hg']

theorem newHost_restores (flags : Nat) : RestoreHost (fileProcess flags) newHost := by
  have hclosed : ∀ fd, 3 ≤ fd → newHost.fds fd = none := fun fd hfd => if_neg (by omega)
  have hstart : HostStart 5 newHost [] := by
    refine ⟨by decide, by decide, fun fd hfd => plainHost_start.bound fd hfd,
      fun fd hfd => plainHost_start.std fd hfd, fun fd h3 _ hopen => absurd (hclosed fd h3) hopen,
      ?_, ?_⟩
    · intro l hl
      cases hl
    intro l hl
    cases hl
  refine ⟨hstart, fun fd d hd => ?_, ⟨5, le_rfl, by decide, hclosed 5 (by decide)⟩, rfl, rfl,
    fun fd d _ hd fd' hin => ?_⟩
  · show d < 1
    by_cases hlt : fd < 3
    · have : d = 0 := by simpa [newHost, plainHost, hlt, eq_comm] using hd
      omega
    rw [hclosed fd (by omega)] at hd
    cases hd
  rcases (fileProcess_table flags).file fd' hin with ⟨d', ino, hd', hobj, -⟩
  rw [Fs.view, hd', Option.map_some]
  intro heq
  have hobj' : Object.inode (d' + 1) = .inode 0 := congrArg Prod.fst (Option.some.inj heq)
  cases hobj'

theorem fileProcess_group {fd' : Nat} :
    SameGroup (fileProcess flags) fd fd' ↔ (fd = 3 ∨ fd = 4) ∧ (fd' = 3 ∨ fd' = 4) := by
  simp [SameGroup, fileProcess]

/-- Every descriptor of the process can be brought back when the fourth file was opened for writing. -/
theorem reopenable_plain (hfd : fd < 5) : Reopenable (fileProcess O_WRONLY) newHost fd := by
  have hcases : fd = 0 ∨ fd = 1 ∨ fd = 2 ∨ fd = 3 ∨ fd = 4 := by omega
  refine ⟨?_, fun hlt g hg hfdg fd' hfd' hlt' => ?_, fun fd' hlt hin => ?_, fun hleads d ino hd hobj => ?_⟩
  · rcases hcases with rfl | rfl | rfl | rfl | rfl <;> decide +kernel
  · rw [mem_singleton.1 hg] at hfd'
    simp only [mem_cons, not_mem_nil, or_false] at hfd'
    omega
  · rw [fileProcess_fds (by omega), fileProcess_fds hfd, fileProcess_group, Option.some.injEq]
    omega
  have h4 : fd ≠ 4 := by
    rintro rfl
    have := hleads [3, 4] (.head _) (by decide) 3 (by decide)
    omega
  rw [fileProcess_fds hfd, Nat.min_eq_left (by omega), Option.some.injEq] at hd
  subst hd
  have hino : fd + 1 = ino := Object.inode.inj hobj
  subst hino
  rcases hcases with rfl | rfl | rfl | rfl | rfl
  on_goal 5 => exact absurd rfl h4
  all_goals
    exact ⟨by decide +kernel, ⟨by decide +kernel, by decide +kernel, by decide +kernel, rfl⟩,
      by decide +kernel, by decide +kernel, by decide +kernel⟩

theorem files_survive_restore_iff_plain :
    ∃ notes t, snapshotNotes (fileProcess O_WRONLY) = .ok notes ∧
      restoreTable 5 newHost notes = .ok t ∧ Restored (fileProcess O_WRONLY) t :=
  (files_survive_restore_iff (fileProcess O_WRONLY) newHost (fileProcess_table O_WRONLY)
    (newHost_restores O_WRONLY)).2 ⟨fun fd hfd => by simp [fileProcess, show fd < 5 by omega],
        fun _ hin => reopenable_plain (fileProcess_lt hin)⟩

def rewriteFlags : Nat := O_WRONLY ||| O_CREAT ||| O_TRUNC

/-- The file is opened again with the flags of the first open: what the process has written into it is
gone. -/
theorem restore_truncates_file :
    FileTable (fileProcess rewriteFlags) ∧ RestoreHost (fileProcess rewriteFlags) newHost ∧
      ∃ notes t, snapshotNotes (fileProcess rewriteFlags) = .ok notes ∧
        restoreTable 5 newHost notes = .ok t ∧
          ((fileProcess rewriteFlags).host.inodes 4).content = [1, 2, 3] ∧
            (t.host.inodes 4).content = [] := by
  have hrun : ((restoreTable 5 newHost ((snapshotNotes (fileProcess rewriteFlags)).toOption.getD
      [])).toOption.map fun t => (t.host.inodes 4).content) = some [] := by
    decide +kernel
  rw [snapshotNotes_eq (fileProcess_table rewriteFlags)] at hrun
  rcases Option.map_eq_some_iff.1 hrun with ⟨t, ht, hcontent⟩
  exact ⟨fileProcess_table _, newHost_restores _, _, t,
    snapshotNotes_eq (fileProcess_table rewriteFlags), Outcome.eq_ok_of_toOption ht, rfl, hcontent⟩

end KontainMonitor.Files
