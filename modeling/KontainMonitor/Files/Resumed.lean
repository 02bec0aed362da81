import KontainMonitor.Files.Agreement

/-!
# Resumed — the table of a process over its whole life

The recovery of a snapshot opens an object wherever the kernel puts it, and moves it to the number it
had.  That keeps the agreement of `Agreement`, and with it every state that a fresh or a resumed
process reaches by calls that fit the table is one in which the table agrees with the kernel.
-/

namespace KontainMonitor.Files

open Transition Outcome

variable {a : FsStep} {host : Host} {s' : Fs}

section

variable {n : Nat} {w P : Nat → Prop} {s : Fs}
variable {h' : Host} {fd : Nat} {nt : NtFile}
variable {lo : Nat} {luck : SocketLuck}

/-! ## Moving descriptors -/

/-- A pending descriptor moves to its number, which must not be that of another pending one. -/
theorem kmFsRecoverFd_agree (h : Agree n w P s) (guestfd : Int) (hostfd flags : Nat)
    (name : Option Name) (ofd : Int) (how : How) (hP : P hostfd) (hw : ¬ w hostfd)
    (hlt : guestfd < n) (hother : ∀ g : Nat, guestfd = g → g ≠ hostfd → ¬ P g) :
    Agree n w (fun i => P i ∧ i ≠ hostfd) (kmFsRecoverFd s guestfd hostfd flags name ofd how) := by
  have hpend := h.pending hostfd hP
  unfold kmFsRecoverFd
  split
  · exact h.closed hpend.2 hw
  rename_i hneg
  have hg : guestfd = guestfd.toNat := by omega
  generalize guestfd.toNat = g at hg ⊢
  have hgn : g < n := by omega
  unfold moveFd
  by_cases heq : g = hostfd
  · subst heq
    rw [if_pos rfl]
    exact h.setUsed hgn hpend.1 rfl (h.error g)
  rw [if_neg heq]
  -- the host's `dup2` succeeds: the number it starts from is open
  have hdup : ∃ host, s.host.dup2 hostfd g = .ok host := by
    cases hfd : s.host.fds hostfd with
    | none => exact absurd hfd hpend.1
    | some d =>
      have hroom := h.room
      exact ⟨_, by simp only [Host.dup2, hfd]; rw [if_neg (by omega)]⟩
  rcases hdup with ⟨host, hd⟩
  rw [hd]
  rcases h.dup2 hd with ⟨hs, hopen⟩
  have hunused : (({ s with host := host } : Fs).files hostfd).inuse = false := hpend.2
  have hs' := hs.closed hunused hw
  have hopen' : (host.close hostfd).fds g ≠ none := by simpa [heq] using hopen
  have hPg := hother g hg heq
  refine .pend_iff (hs'.setUsed hgn hopen' ?_ ?_) fun i => ?_
  · rfl
  · exact h.error g
  constructor
  · rintro ⟨⟨hi | hi, hne⟩, hig⟩
    · exact ⟨hi, hne⟩
    · exact absurd hi.1 hig
  rintro ⟨hi, hne⟩
  exact ⟨⟨.inl hi, hne⟩, fun hig => hPg (hig ▸ hi)⟩

/-- The first of the two numbers is the lower one, or the second end was closed. -/
def inOrder (guestfd : Int × Int) : Prop := guestfd.2 < 0 ∨ guestfd.1 ≤ guestfd.2

/-- The kernel's second number is above the first. -/
theorem Host.Opens.lt {h h0 : Host} {fd0 fd1 : Nat} (ho0 : h.Opens lo fd0 h0)
    (ho1 : h0.Opens lo fd1 h') : fd0 < fd1 := by
  have hsorted : (h.free lo).Pairwise (· < ·) := List.pairwise_lt_range.filter _
  rw [ho0.free, ho1.free] at hsorted
  exact (List.pairwise_cons.1 hsorted).1 fd1 (.head _)

theorem kmFsRecoverFdpair_agree {a b : Nat} (h : Agree n w (fun i => i = a ∨ i = b) s)
    (hab : a < b) (hwa : ¬ w a) (hwb : ¬ w b) {guestfd : Int × Int} {how : How × How}
    {flags : Nat × Nat} (hord : inOrder guestfd) :
    Holds Allowed (Agree n w NonePending) (kmFsRecoverFdpair s guestfd (a, b) how flags) := by
  unfold kmFsRecoverFdpair recoverEnd
  have hn := h.nfd
  split
  · simp [Allowed]
  rename_i hrange
  split
  · -- the first end takes the place of the second, which moves away first
    rename_i hfirst
    have hne : guestfd.2 ≠ a := by
      rcases hord with hord | hord
      · omega
      have : guestfd.1 = b := hfirst
      omega
    have h1 := kmFsRecoverFd_agree h guestfd.2 b flags.2 (kmGetNonfileName s b) guestfd.1 how.2
      (.inr rfl) hwb (by omega) (by rintro g hg hgb (hi | hi) <;> omega)
    have h2 := fun name => kmFsRecoverFd_agree h1 guestfd.1 a flags.1 name guestfd.2 how.1
      ⟨.inl rfl, by omega⟩ hwa (by omega) (by rintro g hg hga ⟨hi | hi, hgb⟩ <;> omega)
    refine (h2 _).pend_iff fun i => ⟨?_, fun hi => hi.elim⟩
    rintro ⟨⟨hi | hi, hib⟩, hia⟩ <;> omega
  rename_i hfirst
  have h1 := kmFsRecoverFd_agree h guestfd.1 a flags.1 (kmGetNonfileName s a) guestfd.2 how.1
    (.inl rfl) hwa (by omega) (by rintro g hg hga (hi | hi) <;> omega)
  have h2 := fun name => kmFsRecoverFd_agree h1 guestfd.2 b flags.2 name guestfd.1 how.2
    ⟨.inr rfl, by omega⟩ hwb (by omega) (by rintro g hg hgb ⟨hi | hi, hga⟩ <;> omega)
  refine (h2 _).pend_iff fun i => ⟨?_, fun hi => hi.elim⟩
  rintro ⟨⟨hi | hi, hia⟩, hib⟩ <;> omega

/-! ## The handlers of the notes -/

theorem writeBack_ok {h : Host} {fd : Int} {bytes : List Byte}
    (hw : writeBack h fd bytes = .ok h') : ∃ pipes, h' = { h with pipes := pipes } := by
  unfold writeBack at hw
  split at hw
  · cases hw
    exact ⟨h'.pipes, rfl⟩
  split at hw
  · cases hw
  split at hw
  · cases hw
  rename_i hwrite
  cases hw
  unfold Host.writeAll at hwrite
  split at hwrite
  · cases hwrite
  dsimp only at hwrite
  split at hwrite <;> cases hwrite
  exact ⟨_, rfl⟩

theorem writeBack_spec (h : Host) (fd : Int) (bytes : List Byte) :
    Holds Allowed (fun h' => ∃ pipes, h' = { h with pipes := pipes }) (writeBack h fd bytes) := by
  cases hw : writeBack h fd bytes with
  | ok h' => exact writeBack_ok hw
  | error e =>
    unfold writeBack at hw
    split at hw
    · cases hw
    split at hw
    · cases hw
      simp [Allowed]
    split at hw <;> cases hw
    simp [Allowed]

theorem setPipeSize_ok {h : Host} {size : Nat} (hs : h.setPipeSize fd size = .ok h') :
    ∃ pipes, h' = { h with pipes := pipes } := by
  unfold Host.setPipeSize at hs
  split at hs
  · dsimp only at hs
    split at hs <;> cases hs
    exact ⟨_, rfl⟩
  · cases hs

theorem refillPipe_spec (h : Host) (nt : NtFile) (writefd : Nat) :
    Holds Allowed (fun h' => ∃ pipes, h' = { h with pipes := pipes }) (refillPipe h nt writefd) := by
  unfold refillPipe
  split
  · exact writeBack_spec _ _ _
  · exact ⟨h.pipes, rfl⟩

section

variable (h : Agree n w NonePending s)
include h

theorem kmFsRecoverPipe_agree (hord : inOrder (pipeEnds nt)) :
    Holds Allowed (Agree n w NonePending) (kmFsRecoverPipe s nt) := by
  unfold kmFsRecoverPipe
  dsimp only
  split
  · split
    · simp [Allowed]
    split
    · refine .bind (writeBack_spec _ _ _) ?_
      rintro _ ⟨pipes, rfl⟩
      exact h.host_same rfl rfl
    · exact h
  split
  · simp [Allowed]
  rename_i hostfd host ho
  rcases Host.Opens.of_pipe2 ho with ⟨h0, ho0, ho1⟩
  rcases h.opensPair ho0 ho1 with ⟨hs, hwa, hwb⟩
  refine .bind (refillPipe_spec _ _ _) ?_
  rintro _ ⟨pipes, rfl⟩
  split
  · simp [Allowed]
  rename_i hsize
  rcases setPipeSize_ok hsize with ⟨pipes', rfl⟩
  have hs' : Agree n w (fun i => i = hostfd.1 ∨ i = hostfd.2)
      { s with host := { host with pipes := pipes' } } := hs.host_same rfl rfl
  exact kmFsRecoverFdpair_agree hs' (ho0.lt ho1) hwa hwb hord

/-- A note of a duplicate. -/
theorem Agree.recoverDup3 (old new : Int) (flags : Nat) : Holds Allowed (Agree n w NonePending)
      (kmFsDup3 s old new flags >>= fun r => .ok r.2) :=
  .bind ((agree_rules n w).dup3 h.settled fun _ => ⟨fun _ _ => trivial, fun _ _ => trivial⟩)
    fun _ hr => hr.none

theorem recoverDup2_agree {old : Int} {new : Nat} :
    Holds Allowed (Agree n w NonePending) (recoverDup2 s old new) := by
  unfold recoverDup2 kmFsDup2
  split
  · exact h
  · exact h.recoverDup3 old new 0

/-- A descriptor that the kernel just opened moves to its number. -/
theorem Agree.recoverOpened (ho : s.host.Opens 0 fd host) {guestfd : Nat} (hlt : guestfd < n)
    (flags : Nat) (name : Option Name) (ofd : Int) (how : How) : Agree n w NonePending
      (kmFsRecoverFd { s with host := host } guestfd fd flags name ofd how) := by
  rcases h.opens ho with ⟨hs, -, hw, -⟩
  refine (kmFsRecoverFd_agree hs guestfd fd flags name ofd how (.inr rfl) hw (by omega)
    ?_).pend_iff fun i => ?_
  · rintro g hg hne (hi | hi)
    · exact hi
    · exact hne hi
  · simp [NonePending]

theorem recoverByName_agree (hlt : nt.fd < n) :
    Holds Allowed (Agree n w NonePending) (recoverByName s nt) := by
  unfold recoverByName
  split
  · simp [Allowed]
  rename_i fd host ho
  have hs := h.recoverOpened (.of_openName ho) hlt nt.flags (some nt.name)
    (asInt nt.data) nt.how
  split
  · simp [Allowed]
  split
  · simp [Allowed]
  dsimp only
  split
  · split
    · simp [Allowed]
    · exact hs.host_same rfl rfl
  · exact hs

theorem kmFsRecoverOpenFile_agree (hord : fileType nt.mode = S_IFIFO → inOrder (pipeEnds nt)) :
    Holds Allowed (Agree n w NonePending) (kmFsRecoverOpenFile s nt) := by
  unfold kmFsRecoverOpenFile
  split
  · simp [Allowed]
  rename_i hlt
  split
  · exact h
  dsimp only
  split
  · exact h.recoverDup3 _ _ _
  split
  · simp [Allowed]
  split
  · exact kmFsRecoverPipe_agree h (hord ‹_›)
  have hn := h.nfd
  exact recoverByName_agree h (by omega)

/-- The entry of a recovered socket, once its descriptor is in place. -/
theorem Agree.socketEntry (nt : NtSocket) :
    Agree n w NonePending ((if nt.state = .error then s.setFile nt.fd { s.files nt.fd with
          error := ECONNRESET.ret, name := some socketErrorName }
      else s).setSockinfo nt.fd (recoveredSockinfo nt)) := by
  split
  · have hs : Agree n w NonePending (s.setFile nt.fd { s.files nt.fd with
        error := ECONNRESET.ret, name := some socketErrorName }) :=
      h.setFile_same rfl (show ECONNRESET.ret ≤ 0 by decide)
    exact hs.setSockinfo _ _
  · exact h.setSockinfo _ _

theorem kmFsRecoverSocket_agree (hrec : s.recovery) {nt : NtSocket}
    (hluck : luck = .noBind → nt.state ≠ .bind ∧ nt.state ≠ .listen) :
    Holds Allowed (Agree n w NonePending) (kmFsRecoverSocket s nt luck) := by
  have hn := h.nfd
  unfold kmFsRecoverSocket
  split
  · exact h
  rename_i hlt
  have hlt' : nt.fd < n := by omega
  split
  · simp [Allowed]
  split
  · -- a listener is open at its number already
    rename_i hlisten
    have hw : w nt.fd := by
      rw [← h.waits]
      rcases List.any_eq_true.1 hlisten with ⟨l, hl, heq⟩
      exact ⟨hrec, l, hl, by simpa using heq⟩
    have hs : Agree n w NonePending
        (kmFsRecoverFd s nt.fd nt.fd 0 (kmGetNonfileName s nt.fd) (-1) nt.how) := by
      unfold kmFsRecoverFd moveFd
      rw [if_neg (by omega), if_pos (by simp)]
      refine Agree.pend_iff (h.setUsed hlt' (h.waiting _ hw) ?_ ?_) fun i => ?_
      · rfl
      · exact h.error nt.fd
      · simp [NonePending]
    exact hs.socketEntry nt
  split
  · exact h
  rename_i fd host ho
  split
  · exact h
  split
  next hbad =>
    have := hluck hbad.1
    rcases hbad.2 with hb | hb
    · exact absurd hb this.1
    · exact absurd hb this.2
  have hs := h.recoverOpened (Host.Opens.of_install ho) hlt' 0
    (kmGetNonfileName { s with host := host } fd) (-1) nt.how
  exact hs.socketEntry nt

def NtSocket.pairEnds (nt : NtSocket) : Int × Int :=
  if nt.how = .socketpair0 then (nt.fd, nt.other) else (nt.other, nt.fd)

theorem kmFsRecoverSocketpair_agree {nt : NtSocket} (hord : inOrder nt.pairEnds) :
    Holds Allowed (Agree n w NonePending) (kmFsRecoverSocketpair s nt) := by
  unfold kmFsRecoverSocketpair
  split
  · simp [Allowed]
  split
  · refine Holds.bind (writeBack_spec _ _ _) ?_
    rintro _ ⟨pipes, rfl⟩
    exact h.host_same rfl rfl
  split
  · simp [Allowed]
  rename_i hostfd host ho
  rcases Host.Opens.of_socketpair ho with ⟨h0, ho0, ho1⟩
  rcases h.opensPair ho0 ho1 with ⟨hs, hwa, hwb⟩
  have hs' : ∀ pipes, Agree n w (fun i => i = hostfd.1 ∨ i = hostfd.2)
      { s with host := { host with pipes := pipes } } := fun pipes => hs.host_same rfl rfl
  split
  next hhow =>
    rw [NtSocket.pairEnds, if_pos hhow] at hord
    refine Holds.bind (writeBack_spec _ _ _) ?_
    rintro _ ⟨pipes, rfl⟩
    exact kmFsRecoverFdpair_agree (hs' pipes) (ho0.lt ho1) hwa hwb hord
  rename_i hhow
  rw [NtSocket.pairEnds, if_neg hhow] at hord
  refine Holds.bind (writeBack_spec _ _ _) ?_
  rintro _ ⟨pipes, rfl⟩
  exact kmFsRecoverFdpair_agree (hs' pipes) (ho0.lt ho1) hwa hwb hord

theorem kmFsRecoverEventfd_agree :
    Holds Allowed (Agree n w NonePending) (kmFsRecoverEventfd s nt) := by
  have hn := h.nfd
  unfold kmFsRecoverEventfd
  split
  · simp [Allowed]
  split
  · simp [Allowed]
  dsimp only
  split
  · exact h.recoverDup3 _ _ _
  split
  · simp [Allowed]
  next ho =>
    exact h.recoverOpened (Host.Opens.of_install ho) (by omega) _ _ _ _

theorem recoverEvent_agree (epfd : Nat) (e : FsEvent) :
    Holds Allowed (Agree n w NonePending) (recoverEvent epfd s e) := by
  unfold recoverEvent
  split
  · simp [Allowed]
  split
  · simp [Allowed]
  rename_i host hc
  rcases Host.epollCtl_fds hc with ⟨interest, rfl⟩
  have hs : Agree n w NonePending { s with host := { s.host with interest := interest } } :=
    h.host_same rfl rfl
  exact hs.setFile_same rfl (h.error epfd)

theorem kmFsRecoverEpollfd_agree {nt : NtEpollfd} :
    Holds Allowed (Agree n w NonePending) (kmFsRecoverEpollfd s nt) := by
  have hn := h.nfd
  unfold kmFsRecoverEpollfd
  split
  · simp [Allowed]
  split
  · simp [Allowed]
  dsimp only
  split
  · exact h.recoverDup3 _ _ _
  split
  · simp [Allowed]
  rename_i fd host ho
  refine Holds.foldlM (I := fun _ => Agree n w NonePending)
    (fun e _ s' hs' => recoverEvent_agree hs' nt.fd e) ?_
  exact h.recoverOpened (Host.Opens.of_install ho) (by omega) _ _ _ _

end

/-- The two ends of a pair are recorded in ascending order, and the kernel lets a socket have its
address again. -/
def fitsNote (note : FsNote) (luck : SocketLuck) : Prop :=
  match note with
  | .file nt => fileType nt.mode = S_IFIFO → inOrder (pipeEnds nt)
  | .socket nt =>
    (nt.how = .socketpair0 → inOrder ((nt.fd : Int), nt.other)) ∧
      (nt.how = .socketpair1 → inOrder (nt.other, (nt.fd : Int))) ∧
        (luck = .noBind → nt.state ≠ .bind ∧ nt.state ≠ .listen)
  | _ => True

theorem recover_agree (h : Agree n w NonePending s) (hrec : s.recovery) {note : FsNote}
    (hfit : fitsNote note luck) : Holds Allowed (Agree n w NonePending) (s.recover note luck) := by
  cases note with
  | dupData groups =>
    exact ⟨h.nfd, h.waits, h.room, h.bound, h.used, h.covered, h.pending, h.waiting, h.early,
      h.error⟩
  | file nt => exact kmFsRecoverOpenFile_agree h hfit
  | socket nt =>
    simp only [Fs.recover, kmFsRecoverOpenSocket]
    split
    · exact recoverDup2_agree h
    split
    next hhow =>
      refine kmFsRecoverSocketpair_agree h ?_
      unfold NtSocket.pairEnds
      split
      · exact hfit.1 ‹_›
      · exact hfit.2.1 (hhow.resolve_left ‹_›)
    · exact kmFsRecoverSocket_agree h hrec hfit.2.2
  | eventfd nt => exact kmFsRecoverEventfd_agree h
  | epollfd nt => exact kmFsRecoverEpollfd_agree h

/-! ## A full table -/

def Call.makes : Call → Bool
  | .open .. | .dup _ | .fcntlDup .. | .pipe2 .. | .socketpair .. | .eventfd2 .. => true
  | .timerfdCreate .. | .socket .. | .accept4 .. | .epollCreate1 _ => true
  | .close _ | .dup2 .. | .dup3 .. | .recvmsg .. | .recvmmsg .. | .epollCtl .. => false

theorem Errno.ret_neg (e : Errno) : e.ret < 0 := by
  have := e.pos
  unfold Errno.ret
  omega

/-- With every entry in use, a kernel that only hands out numbers of the table has none. -/
theorem Agree.no_opens (h : Agree n w NonePending s)
    (hfull : ∀ fd, fd < n → (s.files fd).inuse) {k : Nat} (hb : s.host.Below n lo (k + 1))
    (fd : Nat) (host : Host) : ¬ s.host.Opens lo fd host := by
  intro ho
  have hlt := (hb.head ho).1
  exact (h.used fd (hfull fd hlt)).2 (Host.mem_free.1 (Host.lowest_mem ho.1)).2.2

/-- A negative result. -/
abbrev Refuses (x : Except Abort (Int × Fs)) : Prop := Holds (fun _ => True) (fun r => r.1 < 0) x

theorem Agree.error_neg (h : Agree n w P s) (hne : (s.files fd).error ≠ 0) :
    (s.files fd).error < 0 := by
  have := h.error fd
  omega

theorem full_accept_refuses (h : Agree n w NonePending s) {sockfd : Int} {addr : Bool}
    {peername refuse : Option Errno} (hnone : ∀ fd host, ¬ s.host.Opens 0 fd host) :
    Refuses (kmFsAccept4 s sockfd addr peername refuse) := by
  unfold kmFsAccept4
  split
  · exact EBADF.ret_neg
  split
  · exact h.error_neg ‹_›
  split
  · dsimp only
    split
    · show (if addr then EBADF.ret else -1) < 0
      split
      · exact EBADF.ret_neg
      · decide
    next ho =>
      exact absurd (Host.Opens.of_dupFrom ho) (hnone _ _)
  split
  · exact Errno.ret_neg _
  next ho =>
    exact absurd (Host.Opens.of_install ho) (hnone _ _)

theorem full_refuses (h : Agree n w NonePending s) (hfull : ∀ fd, fd < n → (s.files fd).inuse)
    {c : Call} (hm : c.makes) (hc : s.fits c) : Refuses (s.call c) := by
  have hn := h.nfd
  subst hn
  have hneg := Errno.ret_neg
  cases c with
  | «open» path name ops flags mode refuse =>
    simp only [Fs.call, kmFsOpen]
    split
    · exact hneg _
    next ho =>
      exact absurd (Host.Opens.of_openName ho) (h.no_opens hfull hc _ _)
  | dup fd =>
    simp only [Fs.call, kmFsDup]
    split
    · exact hneg _
    split
    · exact h.error_neg ‹_›
    split
    · trivial
    split
    · exact hneg _
    next ho =>
      exact absurd (Host.Opens.of_dupFrom ho) (h.no_opens hfull hc _ _)
  | fcntlDup fd lo cloexec =>
    simp only [Fs.call, kmFsFcntlDup]
    split
    · exact hneg _
    split
    · exact h.error_neg ‹_›
    split
    · exact hneg _
    next ho =>
      exact absurd (Host.Opens.of_dupFrom ho) (h.no_opens hfull hc _ _)
  | pipe2 flags refuse =>
    simp only [Fs.call, kmFsPipe2]
    split
    · exact hneg _
    next ho =>
      rcases Host.Opens.of_pipe2 ho with ⟨h0, ho0, -⟩
      exact absurd ho0 (h.no_opens hfull hc _ _)
  | socketpair domain type protocol refuse =>
    simp only [Fs.call, kmFsSocketpair]
    split
    · exact hneg _
    next ho =>
      rcases Host.Opens.of_socketpair ho with ⟨h0, ho0, -⟩
      exact absurd ho0 (h.no_opens hfull hc _ _)
  | eventfd2 initval refuse =>
    simp only [Fs.call, kmFsEventfd2, addAnon]
    split
    · exact hneg _
    next ho =>
      exact absurd (Host.Opens.of_install ho) (h.no_opens hfull hc _ _)
  | timerfdCreate flags refuse =>
    simp only [Fs.call, kmFsTimerfdCreate, addAnon]
    split
    · exact hneg _
    next ho =>
      exact absurd (Host.Opens.of_install ho) (h.no_opens hfull hc _ _)
  | socket domain type protocol refuse =>
    simp only [Fs.call, kmFsSocket]
    split
    · exact hneg _
    next ho =>
      exact absurd (Host.Opens.of_install ho) (h.no_opens hfull hc _ _)
  | accept4 sockfd addr peername refuse => exact full_accept_refuses h (h.no_opens hfull hc.1)
  | epollCreate1 refuse =>
    simp only [Fs.call, kmFsEpollCreate1, addAnon]
    split
    · show (-1 : Int) < 0
      decide
    next ho =>
      exact absurd (Host.Opens.of_install ho) (h.no_opens hfull hc _ _)
  | close | dup2 | dup3 | recvmsg | recvmmsg | epollCtl => cases hm

end

/-! ## Runs -/

/-- The kernel's state when a monitor starts: the standard descriptors and the listeners of a
snapshot that waited for a connection are open; everything else of the monitor is at or above `n`.
-/
structure HostStart (n : Nat) (host : Host) (listeners : List Listener) : Prop where
  three : 3 ≤ n
  room : n ≤ host.limit
  bound : ∀ fd, host.limit ≤ fd → host.fds fd = none
  std : ∀ fd, fd < 3 → host.fds fd ≠ none
  rest : ∀ fd, 3 ≤ fd → fd < n → host.fds fd ≠ none → ∃ l ∈ listeners, l.listenFd = fd
  listening : ∀ l ∈ listeners, host.fds l.listenFd ≠ none
  early : ∀ l ∈ listeners, ∀ a, l.acceptFd = some a → n ≤ a

inductive FsStep
  | call (c : Call)
  | recover (note : FsNote) (luck : SocketLuck)
  | resume

/-- A process with a table of `n` entries.  It starts fresh, or with the recovery of a snapshot, and
goes on once the notes, also those of all listeners, are done. -/
def fsSystem (n : Nat) : System Fs FsStep where
  init s :=
    (∃ timeout host, HostStart n host [] ∧ s = kmFsInit n timeout [] host) ∨
      ∃ timeout listeners host, HostStart n host listeners ∧
        s = { kmFsInit n timeout listeners host with recovery := true }
  step s a s' :=
    match a with
    | .call c => s.recovery = false ∧ ∃ r, s.call c = .ok (r, s')
    | .recover note luck => s.recovery ∧ s.recover note luck = .ok s'
    | .resume => s.recovery ∧ (∀ l ∈ s.listeners, (s.files l.listenFd).inuse) ∧
        s' = { s with recovery := false }

def WithinTable (s : Fs) (a : FsStep) (_ : Fs) : Prop :=
  match a with
  | .call c => s.fits c
  | .recover note luck => fitsNote note luck
  | .resume => True

theorem kmFsInit_inuse (n : Nat) (timeout : Int) (listeners : List Listener) (host : Host)
    (fd : Nat) : ((kmFsInit n timeout listeners host).files fd).inuse ↔ fd < 3 := by
  match fd with
  | 0 => simp [kmFsInit]
  | 1 => simp [kmFsInit]
  | 2 => simp [kmFsInit]
  | fd + 3 => simp [kmFsInit, KmFile.zero]

theorem kmFsInit_error (n : Nat) (timeout : Int) (listeners : List Listener) (host : Host)
    (fd : Nat) : ((kmFsInit n timeout listeners host).files fd).error = 0 := by
  match fd with
  | 0 => rfl
  | 1 => rfl
  | 2 => rfl
  | fd + 3 => rfl

theorem init_agree {n : Nat} {timeout : Int} {listeners : List Listener} (recovery : Bool)
    (hstart : HostStart n host listeners) (hrec : recovery = false → listeners = []) :
    let s := { kmFsInit n timeout listeners host with recovery := recovery }
    Agree n s.waits NonePending s := by
  intro s
  have hin : ∀ fd, (s.files fd).inuse ↔ fd < 3 := kmFsInit_inuse n timeout listeners host
  refine ⟨rfl, fun fd => Iff.rfl, hstart.room, hstart.bound, ?_, ?_, fun fd hfd => hfd.elim, ?_,
    hstart.early, ?_⟩
  · intro fd hfd
    have hlt := (hin fd).1 hfd
    have := hstart.three
    exact ⟨by omega, hstart.std fd hlt⟩
  · intro fd hfd hopen
    by_cases h3 : fd < 3
    · exact .inl ((hin fd).2 h3)
    rcases hstart.rest fd (by omega) hfd hopen with ⟨l, hl, hlisten⟩
    refine .inr (.inr ⟨?_, l, hl, hlisten⟩)
    cases recovery with
    | true => rfl
    | false =>
      rw [hrec rfl] at hl
      cases hl
  · rintro fd ⟨-, l, hl, rfl⟩
    exact hstart.listening l hl
  intro fd
  have herr : (s.files fd).error = 0 := kmFsInit_error n timeout listeners host fd
  omega

/-- What a call keeps of the state's mode. -/
theorem step_agree {n : Nat} {s : Fs} (h : Agree n s.waits NonePending s)
    (hs : (fsSystem n).step s a s') (hfit : WithinTable s a s') :
    Agree n s'.waits NonePending s' := by
  have hself : ∀ {w : Nat → Prop} {t : Fs}, Agree n w NonePending t → Agree n t.waits NonePending t :=
    fun {w t} ht => (funext fun fd => propext (ht.waits fd) : t.waits = w) ▸ ht
  cases a with
  | call c =>
    rcases hs with ⟨hrec, r, hr⟩
    have hw : ∀ fd, ¬ s.waits fd := by
      rintro fd ⟨hrec', -⟩
      rw [hrec] at hrec'
      cases hrec'
    exact hself ((call_agree h hw hfit).of_ok hr)
  | recover note luck => exact hself ((recover_agree h hs.1 hfit).of_ok hs.2)
  | resume =>
    rcases hs with ⟨-, hall, rfl⟩
    have hw : ∀ fd, ¬ ({ s with recovery := false } : Fs).waits fd := by
      rintro fd ⟨hrec, -⟩
      cases hrec
    refine ⟨h.nfd, fun fd => Iff.rfl, h.room, h.bound, h.used, ?_, h.pending, ?_, h.early, h.error⟩
    · intro fd hfd hopen
      rcases h.covered fd hfd hopen with hc | hc | ⟨-, l, hl, rfl⟩
      · exact .inl hc
      · exact hc.elim
      · exact .inl (hall l hl)
    · exact fun fd hfd => absurd hfd (hw fd)

theorem reach_agree {n : Nat} {s : Fs} (h : Reach ((fsSystem n).restrict WithinTable) s) :
    Agree n s.waits NonePending s := by
  refine Reach.inv (I := fun t => Agree n t.waits NonePending t) ?_ ?_ h
  · rintro t (⟨timeout, host, hstart, rfl⟩ | ⟨timeout, listeners, host, hstart, rfl⟩)
    · exact init_agree false hstart fun _ => rfl
    · exact init_agree true hstart fun hrec => by cases hrec
  rintro t a t' ht ⟨hs, hfit⟩
  exact step_agree ht hs hfit

/-! ## Executable steps -/

def Fs.step? (s : Fs) : FsStep → Option Fs
  | .call c => if s.recovery then none else ((s.call c).toOption).map Prod.snd
  | .recover note luck => if s.recovery then (s.recover note luck).toOption else none
  | .resume =>
    if s.recovery && s.listeners.all fun l => (s.files l.listenFd).inuse then
      some { s with recovery := false }
    else none

theorem step?_step {n : Nat} {s : Fs} (h : s.step? a = some s') : (fsSystem n).step s a s' := by
  cases a with
  | call c =>
    simp only [Fs.step?] at h
    split at h
    · cases h
    next hrec =>
      rcases Option.map_eq_some_iff.1 h with ⟨⟨r, t⟩, hr, rfl⟩
      exact ⟨by simpa using hrec, r, eq_ok_of_toOption hr⟩
  | recover note luck =>
    simp only [Fs.step?] at h
    split at h
    · exact ⟨‹_›, eq_ok_of_toOption h⟩
    · cases h
  | resume =>
    simp only [Fs.step?] at h
    split at h
    next hg =>
      cases h
      rw [Bool.and_eq_true, List.all_eq_true] at hg
      exact ⟨hg.1, hg.2, rfl⟩
    · cases h

/-- A host on which only a terminal is open, at the three standard numbers. -/
def plainHost : Host where
  limit := 1024
  fds fd := if fd < 3 then some 0 else none
  descs _ := ⟨.inode 0, O_RDWR, 0, devPts⟩
  fresh := 1
  interest _ := []
  names _ := none
  permits _ _ := true
  inodes _ := ⟨0o020620, []⟩
  freshInode := 1
  pipes _ := Host.newBuf
  freshPipe := 0

theorem plainHost_start : HostStart 727 plainHost [] where
  three := by decide
  room := by decide
  bound fd hfd := if_neg (show ¬ fd < 3 by
    have : 1024 ≤ fd := hfd
    omega)
  std fd hfd := by simp [plainHost, hfd]
  rest fd h3 _ hopen := by simp [plainHost, show ¬ fd < 3 by omega] at hopen
  listening l hl := by cases hl
  early l hl := by cases hl

/-- In every state of a process whose calls and notes fit the table, an entry is in use exactly when
its descriptor is open.  A call that fits never reaches the aborts of `km_add_guest_fd_internal`,
and is refused with an error when the table is full. -/
theorem descriptor_table_agrees (n : Nat) (s : Fs)
    (h : Reach ((fsSystem n).restrict WithinTable) s) (hrun : s.recovery = false) :
    (∀ fd, fd < s.nfdmap → ((s.files fd).inuse ↔ s.host.fds fd ≠ none)) ∧ ∀ c, s.fits c →
        s.call c ≠ .error .hostFd ∧ s.call c ≠ .error .slotOpen ∧
          ((∀ fd, fd < s.nfdmap → (s.files fd).inuse) → c.makes →
            ∀ r s', s.call c = .ok (r, s') → r < 0) := by
  have hagree := reach_agree h
  have hn := hagree.nfd
  have hw : ∀ fd, ¬ s.waits fd := by
    rintro fd ⟨hrec, -⟩
    rw [hrun] at hrec
    cases hrec
  refine ⟨fun fd hfd => ⟨fun hin => (hagree.used fd hin).2, fun hopen => ?_⟩, fun c hc => ?_⟩
  · rcases hagree.covered fd (hn ▸ hfd) hopen with hin | hp | hwait
    · exact hin
    · exact hp.elim
    · exact absurd hwait (hw fd)
  have hret := call_agree hagree hw hc
  refine ⟨fun herr => (hret.of_error herr).1 rfl, fun herr => (hret.of_error herr).2 rfl, ?_⟩
  intro hfull hm r s' hr
  exact (full_refuses hagree (fun fd hfd => hfull fd (hn ▸ hfd)) hm hc).of_ok hr

def afterPipe : Fs := evaluate ((kmFsInit 727 0 [] plainHost).step? (.call (.pipe2 0 none)))

theorem descriptor_table_agrees_pipe : (afterPipe.files 4).inuse ∧ afterPipe.host.fds 4 ≠ none ∧
      afterPipe.call (.dup 3) ≠ .error .slotOpen := by
  have hinit : Reach ((fsSystem 727).restrict WithinTable) (kmFsInit 727 0 [] plainHost) :=
    Reach.init (.inl ⟨0, plainHost, plainHost_start, rfl⟩)
  have hstep : (fsSystem 727).step (kmFsInit 727 0 [] plainHost) (.call (.pipe2 0 none)) afterPipe :=
    step?_step eq_eval
  have hfit : WithinTable (kmFsInit 727 0 [] plainHost) (.call (.pipe2 0 none)) afterPipe :=
    show plainHost.Below 727 0 2 by decide +kernel
  have hin : (afterPipe.files 4).inuse := by decide +kernel
  rcases descriptor_table_agrees 727 afterPipe (Reach.step hinit ⟨hstep, hfit⟩) (by decide +kernel)
    with ⟨hagree, hcalls⟩
  refine ⟨hin, (hagree 4 (by decide +kernel)).1 hin, (hcalls (.dup 3) ?_).2.1⟩
  show afterPipe.host.Below afterPipe.nfdmap 0 1
  decide +kernel

def connectedNote : NtSocket := ⟨3, .socket, .error, 0, 2, 1, 0, -1, [], []⟩

/-- A process resumed from a snapshot with that socket. -/
def resumedState : Fs :=
  evaluate (runCalls Fs.step? { kmFsInit 727 0 [] plainHost with recovery := true }
    [.recover (.socket connectedNote) .made, .resume])

def resumedClosed : Fs := evaluate (resumedState.step? (.call (.close 3)))

/-- A resumed process that duplicates a descriptor to a number above the table ends the monitor, and
one that closes a socket with a recovered error leaks the host's descriptor. -/
theorem table_overrun_and_leaked_descriptor : Reach (fsSystem 727) resumedState ∧
      resumedState.call (.fcntlDup 0 727 false) = .error .hostFd ∧
        (fsSystem 727).step resumedState (.call (.close 3)) resumedClosed ∧
          (resumedClosed.files 3).inuse = false ∧ resumedClosed.host.fds 3 ≠ none := by
  have hinit : Reach (fsSystem 727) { kmFsInit 727 0 [] plainHost with recovery := true } :=
    Reach.init (.inr ⟨0, [], plainHost, plainHost_start, rfl⟩)
  have hreach : Reach (fsSystem 727) resumedState :=
    Reach.runCalls (fun _ _ _ h => step?_step h) hinit eq_eval
  refine ⟨hreach, ?_, step?_step eq_eval, ?_, ?_⟩
  · exact eq_error_of_errorOf (by decide +kernel)
  · decide +kernel
  · decide +kernel

end KontainMonitor.Files
