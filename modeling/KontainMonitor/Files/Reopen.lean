import KontainMonitor.Files.Resumed
import KontainMonitor.Files.Save

/-!
# Reopen — one file of a snapshot is opened again

The note of a file or directory is either served by a duplicate of a descriptor of the same group that
is open already, or the file is opened by its name with the recorded flags.  This module says what each
of the two does to the kernel's state and to the table, and what both leave alone.
-/

namespace KontainMonitor.Files

open Function Host Int

/-! ## The kernel's state -/

/-- The kernel's state up to descriptors and epoll sets. -/
structure Host.Rest (h h' : Host) : Prop where
  limit : h'.limit = h.limit
  descs : h'.descs = h.descs
  fresh : h'.fresh = h.fresh
  names : h'.names = h.names
  permits : h'.permits = h.permits
  inodes : h'.inodes = h.inodes
  freshInode : h'.freshInode = h.freshInode
  pipes : h'.pipes = h.pipes
  freshPipe : h'.freshPipe = h.freshPipe

variable {fd flags ino hostfd old : Nat} {name : Name} {u : Fs} {nt : NtFile}
variable {new d : Nat}

namespace Host

theorem Rest.refl (h : Host) : h.Rest h := ⟨rfl, rfl, rfl, rfl, rfl, rfl, rfl, rfl, rfl⟩

variable {h h' : Host}

theorem Rest.trans {h'' : Host} (a : h.Rest h') (b : h'.Rest h'') : h.Rest h'' :=
  ⟨b.limit.trans a.limit, b.descs.trans a.descs, b.fresh.trans a.fresh, b.names.trans a.names,
    b.permits.trans a.permits, b.inodes.trans a.inodes, b.freshInode.trans a.freshInode,
    b.pipes.trans a.pipes, b.freshPipe.trans a.freshPipe⟩

theorem rest_setFd (h : Host) (fd : Nat) (d : Option Nat) : h.Rest (h.setFd fd d) :=
  ⟨rfl, rfl, rfl, rfl, rfl, rfl, rfl, rfl, rfl⟩

theorem rest_close (h : Host) (fd : Nat) : h.Rest (h.close fd) := by
  unfold close
  split
  · exact .refl h
  refine (rest_setFd h fd none).trans ?_
  unfold release
  split
  · exact .refl _
  · exact ⟨rfl, rfl, rfl, rfl, rfl, rfl, rfl, rfl, rfl⟩

theorem rest_dup2 (hd : h.dup2 fd new = .ok h') : h.Rest h' := by
  rcases dup2_ok hd with ⟨d, -, -, rfl⟩
  exact (rest_close h new).trans (rest_setFd _ new _)

theorem truncate_mode (h : Host) (ino flags i : Nat) :
    (h.truncate ino flags i).mode = (h.inodes i).mode := by
  unfold truncate
  split
  · by_cases hi : i = ino
    · subst hi
      simp
    · simp [hi]
  · rfl

theorem truncate_content (h : Host) (ino flags i : Nat) :
    (h.truncate ino flags i).content = (h.inodes i).content ∨
      (h.truncate ino flags i).content = [] := by
  unfold truncate
  split
  · by_cases hi : i = ino
    · subst hi
      simp
    · simp [hi]
  · exact .inl rfl

theorem openName_granted (mode : Nat) (hname : h.names name = some ino) (hmay : h.MayOpen ino flags)
    (hlow : h.lowest 0 = some fd) :
    h.openName name flags mode none = .ok (fd, h.opened name flags ino fd) := by
  have hexcl : (hasFlag flags O_CREAT && hasFlag flags O_EXCL) = false := by
    rw [Bool.eq_false_iff]
    intro hboth
    exact hmay.exclusive (by simpa using hboth)
  have hdir : ((fileType (h.inodes ino).mode == S_IFDIR) &&
      (hasFlag flags O_ACCMODE || hasFlag flags O_CREAT)) = false := by
    by_cases hd : fileType (h.inodes ino).mode = S_IFDIR
    · simp [hmay.directory hd]
    · simp [hd]
  have hfile : (!(fileType (h.inodes ino).mode == S_IFDIR) && hasFlag flags O_DIRECTORY) = false := by
    by_cases hd : fileType (h.inodes ino).mode = S_IFDIR
    · simp [hd]
    · simp [hmay.file hd]
  simp only [openName, hname, hexcl, hdir, hfile, hmay.permitted, install, hlow, opened, truncate,
    Bool.not_true, Bool.false_eq_true, if_false]
  by_cases htrunc : (hasFlag flags O_TRUNC && fileType (h.inodes ino).mode == S_IFREG)
  · rw [if_pos htrunc, if_pos htrunc]
    rfl
  · rw [if_neg htrunc, if_neg htrunc]
    rfl

/-- The number that a new description got is moved to the number it is to have. -/
theorem moveFd_ok {fds : Nat → Option Nat} {guestfd : Nat} (hfree : fds hostfd = none)
    (hfds : h.fds = update fds hostfd (some d)) (hlt : guestfd < h.limit) :
    ∃ h', moveFd h hostfd guestfd = .ok h' ∧ h.Rest h' ∧ h'.fds = update fds guestfd (some d) := by
  by_cases heq : guestfd = hostfd
  · subst heq
    exact ⟨h, if_pos rfl, .refl h, hfds⟩
  have hopen : h.fds hostfd = some d := by rw [hfds, update_self]
  have hdup : h.dup2 hostfd guestfd = .ok ((h.close guestfd).setFd guestfd (some d)) := by
    rw [dup2, hopen]
    exact if_neg (by omega)
  refine ⟨((h.close guestfd).setFd guestfd (some d)).close hostfd, ?_, ?_, ?_⟩
  · rw [moveFd, if_neg heq, hdup]
    rfl
  · exact (rest_dup2 hdup).trans (rest_close _ _)
  funext i
  by_cases hi : i = hostfd
  · subst hi
    simp [Ne.symm heq, hfree]
  by_cases hg : i = guestfd
  · subst hg
    simp [hi]
  · simp [hi, hg, hfds]

end Host

theorem kmFsRecoverFd_moved {s : Fs} {fd : Nat} {ofd : Int} {how : How} {name : Option Name}
    (hopen : s.host.fds hostfd = some d) (hlt : fd < s.host.limit) : ∃ host, s.host.Rest host ∧
      host.fds = update (update s.host.fds hostfd none) fd (some d) ∧
        kmFsRecoverFd s fd hostfd flags name ofd how = { s with host := host }.setFile fd
          { s.files fd with inuse := true, how := how, flags := flags, name := name, ofd := ofd,
                            events := [] } := by
  have hfds : s.host.fds = update (update s.host.fds hostfd none) hostfd (some d) := by
    rw [update_idem, ← hopen, update_eq_self]
  rcases moveFd_ok (update_self ..) hfds hlt with ⟨host, hmove, hrest, hfds'⟩
  refine ⟨host, hrest, hfds', ?_⟩
  rw [kmFsRecoverFd, if_neg (by omega)]
  simp only [toNat_natCast, hmove]

/-! ## Opening by name -/

def reopenedEntry (file : KmFile) (nt : NtFile) : KmFile :=
  { file with
    inuse := true, how := nt.how, flags := nt.flags, name := some nt.name, ofd := asInt nt.data,
    events := [] }

def reopenedOffset (nt : NtFile) : Nat := if fileType nt.mode = S_IFREG then nt.data else 0

/-- A note was served by opening the file `ino`; `host` is the kernel's state right after the open. -/
structure Reopened (u : Fs) (nt : NtFile) (ino : Nat) (host : Host) (u' : Fs) : Prop where
  table : u' = { u with
    host := u'.host, files := update u.files nt.fd (reopenedEntry (u.files nt.fd) nt) }
  fds : u'.host.fds = update u.host.fds nt.fd (some u.host.fresh)
  descs : u'.host.descs = update u.host.descs u.host.fresh
    ⟨.inode ino, nt.flags, reopenedOffset nt, nt.name⟩
  fresh : u'.host.fresh = u.host.fresh + 1
  limit : u'.host.limit = u.host.limit
  permits : u'.host.permits = host.permits
  names : u'.host.names = host.names
  inodes : u'.host.inodes = host.inodes
  freshInode : u'.host.freshInode = host.freshInode

/-- The part of `km_fs_recover_open_file` behind `open`. -/
theorem recoverByName_opened {host : Host}
    (ho : u.host.openName nt.name nt.flags 0 none = .ok (hostfd, host))
    (hfree : u.host.fds hostfd = none)
    (hfds : host.fds = update u.host.fds hostfd (some u.host.fresh))
    (hdescs : host.descs = update u.host.descs u.host.fresh
      ⟨.inode ino, nt.flags, 0, nt.name⟩) (hfresh : host.fresh = u.host.fresh + 1)
    (hlimit : host.limit = u.host.limit) (hlt : nt.fd < u.host.limit) :
    if (host.inodes ino).mode = nt.mode then
      ∃ u', recoverByName u nt = .ok u' ∧ Reopened u nt ino host u'
    else recoverByName u nt = .error .exit := by
  have hobj : host.objectOf hostfd = some (.inode ino) := by simp [Host.objectOf, hfds, hdescs]
  split
  next hmode =>
    rcases moveFd_ok hfree hfds (hlimit ▸ hlt) with ⟨host', hmove, hrest, hfds'⟩
    have hrec : kmFsRecoverFd { u with host := host } nt.fd hostfd nt.flags (some nt.name)
        (asInt nt.data) nt.how = { u with
          host := host',
          files := update u.files nt.fd (reopenedEntry (u.files nt.fd) nt) } := by
      rw [kmFsRecoverFd, if_neg (by omega)]
      simp only [toNat_natCast, hmove]
      rfl
    have hat : host'.fds nt.fd = some u.host.fresh := by rw [hfds', update_self]
    have hdone : ∀ descs, descs = update u.host.descs u.host.fresh
        ⟨.inode ino, nt.flags, reopenedOffset nt, nt.name⟩ →
          Reopened u nt ino host { u with
            host := { host' with descs := descs }
            files := update u.files nt.fd (reopenedEntry (u.files nt.fd) nt) } :=
      fun descs hdescs' => ⟨rfl, hfds', hdescs', hrest.fresh.trans hfresh, hrest.limit.trans hlimit,
        hrest.permits, hrest.names, hrest.inodes, hrest.freshInode⟩
    by_cases hseek : fileType nt.mode = S_IFREG ∧ nt.data ≠ 0
    · refine ⟨_, ?_, hdone (update host'.descs u.host.fresh
        { host'.descs u.host.fresh with offset := nt.data }) ?_⟩
      · simp only [recoverByName, ho, hobj, Option.map_some, hmode, ne_eq, not_true_eq_false,
          if_false, hrec, if_pos hseek, hat]
      · simp [hrest.descs, hdescs, reopenedOffset, hseek.1]
    refine ⟨_, ?_, hdone host'.descs ?_⟩
    · simp only [recoverByName, ho, hobj, Option.map_some, hmode, ne_eq, not_true_eq_false,
        if_false, hrec, if_neg hseek]
    have hoff : reopenedOffset nt = 0 := by
      unfold reopenedOffset
      split
      next hreg =>
        by_contra hne
        exact hseek ⟨hreg, hne⟩
      · rfl
    rw [hoff]
    exact hrest.descs.trans hdescs
  next hmode =>
    simp only [recoverByName, ho, hobj, Option.map_some, ne_eq, hmode, not_false_eq_true, if_true]

/-- A file that is there is opened, or a new one is made. -/
def Host.OpensFile (h : Host) (nt : NtFile) (ino : Nat) (h' : Host) : Prop :=
  (h.names nt.name = some ino ∧ h.MayOpen ino nt.flags ∧ h'.names = h.names ∧
      h'.permits = h.permits ∧ h'.freshInode = h.freshInode ∧ h'.inodes = h.truncate ino nt.flags) ∨
    (ino = h.freshInode ∧ ∃ inode : Inode, inode.content = [] ∧
      h'.inodes = update h.inodes ino inode)

theorem recoverByName_ok {u' : Fs} (h : recoverByName u nt = .ok u') (hlt : nt.fd < u.host.limit) :
    ∃ ino host, Reopened u nt ino host u' ∧ u.host.OpensFile nt ino host := by
  cases ho : u.host.openName nt.name nt.flags 0 none with
  | error e =>
    rw [recoverByName, ho] at h
    cases h
  | ok r =>
    rcases r with ⟨hostfd, host⟩
    rcases openName_ok ho with ⟨hlow, hopened⟩
    have hfree := (mem_free.1 (lowest_mem hlow)).2.2
    have hdone : ∀ {ino}, host.fds = update u.host.fds hostfd (some u.host.fresh) →
        host.descs = update u.host.descs u.host.fresh ⟨.inode ino, nt.flags, 0, nt.name⟩ →
          host.fresh = u.host.fresh + 1 → host.limit = u.host.limit → Reopened u nt ino host u' := by
      intro ino hfds hdescs hfresh hlimit
      have hrun := recoverByName_opened ho hfree hfds hdescs hfresh hlimit hlt
      split at hrun
      · rcases hrun with ⟨u'', hu'', hre⟩
        cases h.symm.trans hu''
        exact hre
      · cases h.symm.trans hrun
    rcases hopened with ⟨ino, hname, hmay, rfl⟩ | ⟨inode, hempty, rfl⟩
    · exact ⟨ino, _, hdone rfl rfl rfl rfl, .inl ⟨hname, hmay, rfl, rfl, rfl, rfl⟩⟩
    · exact ⟨_, _, hdone rfl rfl rfl rfl, .inr ⟨rfl, inode, hempty, rfl⟩⟩

theorem recoverByName_granted (hname : u.host.names nt.name = some ino)
    (hmay : u.host.MayOpen ino nt.flags) (hlow : u.host.lowest 0 = some hostfd)
    (hmode : (u.host.inodes ino).mode = nt.mode) (hlt : nt.fd < u.host.limit) :
    ∃ u', recoverByName u nt = .ok u' ∧
      Reopened u nt ino (u.host.opened nt.name nt.flags ino hostfd) u' := by
  have hfree := (mem_free.1 (lowest_mem hlow)).2.2
  have hrun := recoverByName_opened (openName_granted 0 hname hmay hlow) hfree rfl rfl rfl rfl
    hlt
  have hmode' : ((u.host.opened nt.name nt.flags ino hostfd).inodes ino).mode = nt.mode :=
    (truncate_mode ..).trans hmode
  rw [if_pos hmode'] at hrun
  exact hrun

/-! ## Duplicates -/

structure Duplicated (u : Fs) (old fd : Nat) (u' : Fs) : Prop where
  nfdmap : u'.nfdmap = u.nfdmap
  recovery : u'.recovery = u.recovery
  rest : u.host.Rest u'.host
  fds : u'.host.fds = update u.host.fds fd (u.host.fds old)
  dups : u'.dups = if (u.files fd).inuse then closeInGroups fd u.dups else u.dups
  inuse : (u'.files fd).inuse
  error : (u'.files fd).error = (u.files fd).error
  name : (u'.files fd).name ≠ none
  sockinfo : old ≠ fd → (u'.files fd).sockinfo = (u.files old).sockinfo
  socket : old ≠ fd → (u.files old).sockinfo ≠ none →
    (u'.files fd).how = (u.files old).how ∧ (u'.files fd).ofd = -1
  other : ∀ i, i ≠ fd → ∃ o, u'.files i = { u.files i with ofd := o }

theorem inactiveAccept_dups (s : Fs) (fd : Nat) :
    Outcome.Holds (fun _ => True) (fun s' => s'.dups = s.dups) (inactiveAccept s fd) :=
  ((inactiveAccept_spec s fd).weaken fun _ _ => trivial).mono fun s' hs' => by
    rcases hs' with ⟨n, rfl⟩
    rfl

theorem delGuestFd_dups (s : Fs) (fd : Nat) :
    Outcome.Holds (fun _ => True) (fun s' => s'.dups = closeInGroups fd s.dups)
      (delGuestFd s fd) := by
  unfold delGuestFd
  split
  · trivial
  refine .bind (inactiveAccept_dups s fd) fun s' hs' => ?_
  refine ((dropPartner_spec _ fd).weaken fun _ _ => trivial).mono fun s'' hs'' => ?_
  rcases hs'' with ⟨files, rfl, -⟩
  show closeInGroups fd s'.dups = closeInGroups fd s.dups
  rw [hs']

/-- The number is free in the table after `del_guest_fd`, and everything else is as before. -/
structure Freed (u : Fs) (fd : Nat) (u' : Fs) : Prop where
  nfdmap : u'.nfdmap = u.nfdmap
  recovery : u'.recovery = u.recovery
  host : u'.host = u.host
  dups : u'.dups = if (u.files fd).inuse then closeInGroups fd u.dups else u.dups
  error : (u'.files fd).error = (u.files fd).error
  other : ∀ i, i ≠ fd → ∃ o, u'.files i = { u.files i with ofd := o }

theorem delIfUsed_freed (u : Fs) (fd : Nat) :
    Outcome.Holds (fun _ => True) (Freed u fd) (delIfUsed u fd) := by
  unfold delIfUsed
  split
  next hin =>
    refine (((delGuestFd_spec u fd).weaken fun _ _ => trivial).and (delGuestFd_dups u fd)).mono ?_
    rintro u' ⟨hdel, hdups⟩
    exact ⟨hdel.nfdmap, hdel.recovery, hdel.host, by rw [if_pos hin, hdups], hdel.error, hdel.other⟩
  next hin =>
    exact ⟨rfl, rfl, rfl, by rw [if_neg hin], rfl, fun i _ => ⟨(u.files i).ofd, rfl⟩⟩

/-- The entry of a duplicate. -/
structure DupEntry (u : Fs) (old new : Nat) (file : KmFile) : Prop where
  inuse : file.inuse
  error : file.error = (u.files new).error
  name : file.name ≠ none
  sockinfo : file.sockinfo = (u.files old).sockinfo
  socket : (u.files old).sockinfo ≠ none → file.how = (u.files old).how ∧ file.ofd = -1

theorem addDuplicate_added {how : How} {ops : Option Nat} : Outcome.Holds (fun _ => True)
      (fun u' => ∃ file, u' = u.setFile new file ∧ DupEntry u old new file)
      (addDuplicate u new old (some name) flags how ops) := by
  have hadd : ∀ how ops, Outcome.Holds (fun _ => True)
      (fun u' => ∃ file, u' = u.setFile new file ∧ file.inuse ∧
        file.error = (u.files new).error ∧ file.name ≠ none ∧ file.sockinfo = none ∧
          file.how = how ∧ file.ofd = -1)
      (kmAddGuestFdInternal u new (some name) flags how ops) := by
    intro how ops
    unfold kmAddGuestFdInternal
    split
    · trivial
    split
    · trivial
    · exact ⟨_, rfl, rfl, rfl, nofun, rfl, rfl, rfl⟩
  unfold addDuplicate
  cases hsock : (u.files old).sockinfo with
  | none =>
    refine (hadd how ops).mono fun u' hu' => ?_
    rcases hu' with ⟨file, rfl, hin, herr, hname, hnone, -⟩
    exact ⟨file, rfl, hin, herr, hname, hnone.trans hsock.symm, fun h => absurd hsock h⟩
  | some sock =>
    refine .bind (hadd (u.files old).how none) fun u' hu' => ?_
    rcases hu' with ⟨file, rfl, hin, herr, hname, -, hsocket⟩
    refine ⟨{ file with sockinfo := some sock }, ?_, hin, herr, hname, hsock.symm, fun _ => hsocket⟩
    simp [Fs.setSockinfo, Fs.setFile]

/-- The entry is put where a number was freed, after the kernel has duplicated the descriptor. -/
theorem Freed.duplicated {host : Host} {v : Fs} {file : KmFile}
    (hv : Freed { u with host := host } fd v) (hd : u.host.dup2 old fd = .ok host)
    (hfile : DupEntry v old fd file) : Duplicated u old fd (v.setFile fd file) := by
  rcases Host.dup2_ok hd with ⟨d, hopen, -, hhost⟩
  refine ⟨hv.nfdmap, hv.recovery, ?_, ?_, hv.dups, ?_, ?_, ?_, ?_, ?_, ?_⟩
  · rw [Fs.setFile_host, hv.host]
    exact rest_dup2 hd
  · rw [Fs.setFile_host, hv.host, hhost, hopen]
    simp
  · simp [Fs.setFile, hfile.inuse]
  · simp [Fs.setFile, hfile.error, hv.error]
  · simp [Fs.setFile, hfile.name]
  · intro hne
    rcases hv.other old hne with ⟨o, ho⟩
    simp only [Fs.setFile, update_self, hfile.sockinfo, ho]
  · intro hne hsock
    rcases hv.other old hne with ⟨o, ho⟩
    have hsocket := hfile.socket
    rw [ho] at hsocket
    simpa [Fs.setFile] using hsocket hsock
  intro i hi
  rcases hv.other i hi with ⟨o, ho⟩
  exact ⟨o, by simp [Fs.setFile, hi, ho]⟩

structure Duplicable (u : Fs) (old fd flags : Nat) : Prop where
  other : old ≠ fd
  flags : flags = 0 ∨ flags = O_CLOEXEC
  target : fd < u.nfdmap ∧ fd < u.host.limit
  source : old < u.nfdmap ∧ (u.files old).inuse ∧ (u.files old).error = 0 ∧ u.host.fds old ≠ none

def MayDuplicate (u : Fs) (old fd flags : Nat) (u' : Fs) : Prop :=
  Duplicable u old fd flags ∧ Duplicated u old fd u' ∨ ¬ Duplicable u old fd flags ∧ u' = u

theorem kmFsDup3_duplicated (hrec : u.recovery) : Outcome.Holds (fun _ => True)
    (fun r => MayDuplicate u old fd flags r.2) (kmFsDup3 u old fd flags) := by
  unfold kmFsDup3
  split
  · exact .inr ⟨fun h => h.other (by omega), rfl⟩
  rename_i hother
  split
  · exact .inr ⟨fun h => absurd h.flags (by omega), rfl⟩
  rename_i hflags
  split
  · exact .inr ⟨fun h => absurd h.target.1 (by omega), rfl⟩
  rename_i htarget
  cases hg : kmFsG2hFd u old with
  | none =>
    refine .inr ⟨fun h => ?_, rfl⟩
    rw [kmFsG2hFd, if_neg (by have := h.source.1; omega), toNat_natCast, if_pos h.source.2.1] at hg
    cases hg
  | some n =>
    rcases kmFsG2hFd_some hg with ⟨⟨hlt, hused⟩, hn⟩
    have hn : n = old := by omega
    subst hn
    dsimp only
    split
    · exact .inr ⟨fun h => absurd h.source.2.2.1 ‹_›, rfl⟩
    rename_i herr
    cases hname : (u.files n).name with
    | none => trivial
    | some name =>
      rw [if_neg (by simp)]
      cases hd : u.host.dup2 n (fd : Int).toNat with
      | error e =>
        refine .inr ⟨fun h => ?_, rfl⟩
        rcases Option.ne_none_iff_exists'.1 h.source.2.2.2 with ⟨d, hopen⟩
        have hlimit := h.target.2
        simp [Host.dup2, hopen, Nat.not_le.2 hlimit] at hd
      | ok host =>
        rw [toNat_natCast] at hd
        refine .bind (delIfUsed_freed { u with host := host } fd) ?_
        intro v hv
        refine .bind addDuplicate_added ?_
        rintro _ ⟨file, rfl, hfile⟩
        rcases Host.dup2_ok hd with ⟨d, hopen, hlimit, -⟩
        have hgranted : Duplicable u n fd flags :=
          ⟨by omega, by omega, ⟨by omega, hlimit⟩, hlt, hused, not_not.1 herr, by simp [hopen]⟩
        have hadd : kmFsAddToDupData (v.setFile fd file) fd n = v.setFile fd file := by
          rw [kmFsAddToDupData, if_pos]
          exact hv.recovery.trans hrec
        refine .inl ⟨hgranted, ?_⟩
        show Duplicated u n fd (kmFsAddToDupData (v.setFile fd file) fd n)
        rw [hadd]
        exact hv.duplicated hd hfile

theorem recoverDup_duplicated (hrec : u.recovery) :
    Outcome.Holds (fun _ => True) (MayDuplicate u old fd flags) (recoverDup u old fd flags) :=
  .bind (kmFsDup3_duplicated hrec) fun _ hr => hr

/-- Where the number is free, only an entry without a name ends the monitor. -/
theorem recoverDup_total (hfree : (u.files fd).inuse = false) :
    (∃ u', recoverDup u old fd flags = .ok u') ∨
      old < u.nfdmap ∧ (u.files old).error = 0 ∧ (u.files old).name = none := by
  unfold recoverDup kmFsDup3
  split
  · exact .inl ⟨u, rfl⟩
  split
  · exact .inl ⟨u, rfl⟩
  split
  · exact .inl ⟨u, rfl⟩
  rename_i htarget
  cases hg : kmFsG2hFd u old with
  | none => exact .inl ⟨u, rfl⟩
  | some n =>
    rcases kmFsG2hFd_some hg with ⟨⟨hlt, -⟩, hn⟩
    cases Int.ofNat.inj hn
    dsimp only
    split
    · exact .inl ⟨u, rfl⟩
    split
    · exact .inr ⟨hlt, not_not.1 ‹_›, ‹_›⟩
    left
    cases hd : u.host.dup2 old (fd : Int).toNat with
    | error e => exact ⟨u, rfl⟩
    | ok host =>
      have hfd : ¬ u.nfdmap ≤ fd := by omega
      cases hsock : (u.files old).sockinfo <;>
        simp [delIfUsed, hfree, addDuplicate, hsock, kmDupSocketFd, kmAddGuestFdInternal, hfd, bind,
          Except.bind, pure, Except.pure]

end KontainMonitor.Files
