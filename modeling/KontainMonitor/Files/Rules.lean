import KontainMonitor.Files.Calls

/-!
# Rules — what holds through every part of a call

A call opens descriptors, enters them in the table, replaces and closes them.  `Rules` says what these
parts do to a property `I lo k l` of the states inside a call: the descriptors `l` are open and get
their entries next, in this order, and the kernel may hand out `k` more numbers from `lo`.  A property
that all parts keep is kept by every call.
-/

namespace KontainMonitor.Files

open Outcome

/-- What calls are limited to: the descriptions that messages carry, the descriptors that are
duplicated, replaced and closed, whether early connections are taken over, and whether a descriptor
may stay without an entry. -/
structure Limits where
  received : Desc → Prop
  source : Fs → Nat → Prop
  target : Fs → Nat → Prop
  closable : Fs → Nat → Prop
  early : Prop
  leaks : Prop

/-- A connection that the monitor accepted early is allowed, and its peer's name is known. -/
def Limits.AcceptsEarly (L : Limits) (s : Fs) (sockfd : Int) (addr : Bool)
    (peername : Option Errno) : Prop :=
  ∀ m : Nat, sockfd = m → kmSnapFindAccepted s m ≠ none →
    L.early ∧ (addr → peername = none ∨ L.leaks)

def How.isEnd : How → Bool
  | .pipe0 | .pipe1 | .socketpair0 | .socketpair1 => true
  | _ => false

def EndAt (fd : Nat) (s : Fs) : Prop :=
  fd < s.nfdmap ∧ (s.files fd).inuse ∧ (s.files fd).how.isEnd

def Fs.Uses (s : Fs) (fd : Nat) : Prop := fd < s.nfdmap ∧ (s.files fd).inuse

structure Rules (E : Abort → Prop) (L : Limits) (I : Nat → Nat → List Nat → Fs → Prop) : Prop where
  abort : ∀ e, e ≠ .hostFd → e ≠ .slotOpen → e ≠ .event → E e
  rest : ∀ {lo k : Nat} {l : List Nat} {s : Fs}, I lo k l s → I 0 0 l s
  leak : ∀ {l : List Nat} {s : Fs}, L.leaks → I 0 0 l s → I 0 0 [] s
  pipes : ∀ {k : Nat} {s : Fs} (pipes : Nat → PipeBuf) (fresh : Nat), I 0 k [] s →
    I 0 k [] { s with host := { s.host with pipes := pipes, freshPipe := fresh } }
  openName : ∀ {s : Fs} {path : Name} {flags mode fd : Nat} {refuse : Option Errno} {host : Host},
    I 0 1 [] s → s.host.openName path flags mode refuse = .ok (fd, host) →
      I 0 0 [fd] { s with host := host }
  install : ∀ {k fd : Nat} {l : List Nat} {s : Fs} {d : Desc} {refuse : Option Errno} {host : Host},
    I 0 (k + 1) l s → d.object ≠ .epoll ∨ L.received d → s.host.install d refuse = .ok (fd, host) →
      I 0 k (l ++ [fd]) { s with host := host }
  epoll : ∀ {fd : Nat} {s : Fs} {d : Desc} {refuse : Option Errno} {host : Host}, I 0 1 [] s →
    s.host.install d refuse = .ok (fd, host) →
      Holds E (I 0 0 []) (kmAddGuestFdInternal { s with host := host } fd none 0 .epollfd none)
  dupFrom : ∀ {lo m new : Nat} {s : Fs} {host : Host}, I lo 1 [] s → s.Uses m → L.source s m →
    s.host.dupFrom m lo = .ok (new, host) → I 0 0 [new] { s with host := host }
  replace : ∀ {m new : Nat} {s : Fs} {host : Host}, I 0 0 [] s → s.Uses m → m ≠ new →
    new < s.nfdmap → L.source s m → L.target s new → s.host.dup2 m new = .ok host →
      Holds E (I 0 0 [new]) (delIfUsed { s with host := host } new)
  close : ∀ {m : Nat} {s s' : Fs}, I 0 0 [] s → s.Uses m → L.closable s m → delGuestFd s m = .ok s' →
    I 0 0 [] (if (s.files m).error ≠ 0 then s' else { s' with host := s'.host.close m })
  early : ∀ {m a : Nat} {s : Fs}, L.early → I 0 1 [] s → kmSnapFindAccepted s m = some a →
    I 0 0 [] { s with listeners := [], host := s.host.close a } ∧
      ∀ {fd : Nat} {host : Host}, s.host.dupFrom a 0 = .ok (fd, host) →
        I 0 0 [fd] { s with listeners := [], host := host.close a }
  add : ∀ {fd flags : Nat} {l : List Nat} {s : Fs} {name : Option Name} {how : How} {ops : Option Nat},
    I 0 0 (fd :: l) s → Holds E (I 0 0 l) (kmAddGuestFdInternal s fd name flags how ops)
  sock : ∀ {l : List Nat} {s : Fs} (fd : Nat) (sock : SockInfo), I 0 0 l s →
    I 0 0 l (s.setSockinfo fd sock)
  connect : ∀ {fd0 fd1 : Nat} {s : Fs}, I 0 0 [] s → EndAt fd0 s → EndAt fd1 s →
    I 0 0 [] (kmConnectFiles s fd0 fd1)
  group : ∀ {m : Nat} {s0 s : Fs} (dups : List (List Nat)), L.source s0 m → I 0 0 [] s →
    I 0 0 [] { s with dups := dups }
  count : ∀ {s : Fs} (n : Int), I 0 0 [] s → I 0 0 [] { s with acceptCnt := n }
  ctl : ∀ {ep n : Nat} {s : Fs} {op : Host.CtlOp} {event : EpollEvent} {refuse : Option Errno}
    {host : Host}, I 0 0 [] s → s.Uses ep → s.host.epollCtl ep op n event refuse = .ok host →
      Holds E (fun file => I 0 0 [] ({ s with host := host }.setFile ep file))
        (eventSwitch op (s.files ep) n event)

variable {E : Abort → Prop} {L : Limits} {I : Nat → Nat → List Nat → Fs → Prop}
variable {s : Fs} {fd flags : Nat} {l : List Nat} {name : Option Name} {how : How} {ops : Option Nat}
variable {refuse : Option Errno} {domain type protocol : Nat} {host : Host}

theorem kmFsG2hFd_some {fd : Int} {m : Nat} (hg : kmFsG2hFd s fd = some m) : s.Uses m ∧ fd = m := by
  unfold kmFsG2hFd at hg
  split at hg
  · cases hg
  split at hg
  · cases hg
    exact ⟨⟨by omega, ‹_›⟩, by omega⟩
  · cases hg

/-! ## Entries -/

theorem Rules.addSocket (hR : Rules E L I) (h : I 0 0 (fd :: l) s) :
    Holds E (I 0 0 l) (kmAddSocketFd s fd name flags domain type protocol how) :=
  Holds.bind (hR.add h) fun _ hs' => hR.sock _ _ hs'

theorem Rules.duplicated (hR : Rules E L I) {s0 : Fs} {m old : Nat} (hm : L.source s0 m)
    (h : I 0 0 [fd] s) (r : Int) : Holds E (fun r => I 0 0 [] r.2) (do
      let s ← addDuplicate s fd old name flags how ops return (r, kmFsAddToDupData s fd old)) := by
  refine .bind (P := I 0 0 []) ?_ fun s' hs' => ?_
  · unfold addDuplicate
    split
    · exact .bind (hR.add h) fun _ hs' => hR.sock _ _ hs'
    · exact hR.add h
  show I 0 0 [] (kmFsAddToDupData s' fd old)
  unfold kmFsAddToDupData
  split
  · exact hs'
  · exact hR.group _ hm hs'

/-- A new end, beside those that are there. -/
theorem kmAddGuestFdInternal_end (hhow : how.isEnd) {s' : Fs}
    (hadd : kmAddGuestFdInternal s fd name flags how ops = .ok s') :
    EndAt fd s' ∧ ∀ i, EndAt i s → EndAt i s' := by
  rcases kmAddGuestFdInternal_ok hadd with ⟨hlt, hfree, file, rfl, hin, -, -, rfl⟩
  refine ⟨by simpa [EndAt, Fs.setFile, hin] using ⟨hlt, hhow⟩, fun i hi => ?_⟩
  have hne : i ≠ fd := by
    rintro rfl
    rw [hi.2.1] at hfree
    cases hfree
  simpa [EndAt, Fs.setFile, hne] using hi

section

variable (hR : Rules E L I)
include hR

theorem Rules.addEnd (h : I 0 0 (fd :: l) s) (hhow : how.isEnd) :
    Holds E (fun s' => I 0 0 l s' ∧ EndAt fd s' ∧ ∀ i, EndAt i s → EndAt i s')
      (kmAddGuestFdInternal s fd name flags how ops) := by
  cases hadd : kmAddGuestFdInternal s fd name flags how ops with
  | error e => exact (hR.add h).of_error hadd
  | ok s' => exact ⟨(hR.add h).of_ok hadd, kmAddGuestFdInternal_end hhow hadd⟩

theorem Rules.addSocketEnd (h : I 0 0 (fd :: l) s) (hhow : how.isEnd) :
    Holds E (fun s' => I 0 0 l s' ∧ EndAt fd s' ∧ ∀ i, EndAt i s → EndAt i s')
      (kmAddSocketFd s fd name flags domain type protocol how) := by
  refine .bind (hR.addEnd h hhow) fun s' hs' => ?_
  have hsock : ∀ i, EndAt i s' → ∀ sock, EndAt i (s'.setSockinfo fd sock) := by
    intro i hi sock
    by_cases heq : i = fd
    · simpa [EndAt, Fs.setSockinfo, Fs.setFile, heq] using heq ▸ hi
    · simpa [EndAt, Fs.setSockinfo, Fs.setFile, heq] using hi
  exact ⟨hR.sock _ _ hs'.1, hsock fd hs'.2.1 _, fun i hi => hsock i (hs'.2.2 i hi) _⟩

theorem Rules.installPair (h : I 0 2 [] s) {d0 d1 : Desc} {fd0 fd1 : Nat} (h0 : d0.object ≠ .epoll)
    (h1 : d1.object ≠ .epoll) (hp : s.host.installPair d0 d1 refuse = .ok ((fd0, fd1), host)) :
    I 0 0 [fd0, fd1] { s with host := host } := by
  rcases Host.installPair_ok hp with ⟨host0, hi0, hi1⟩
  exact hR.install (hR.install h (.inl h0) hi0) (.inl h1) hi1

/-! ## The calls -/

theorem Rules.addAnon (h : I 0 1 [] s) {d : Desc} {failed : Errno → Int} (hd : d.object ≠ .epoll) :
    Holds E (fun r => I 0 0 [] r.2) (addAnon s d refuse failed flags how) := by
  unfold Files.addAnon
  split
  · exact hR.rest h
  · exact .bind (hR.add (hR.install h (.inl hd) ‹_›)) fun _ hs' => hs'

theorem Rules.addAccepted (h : I 0 0 [fd] s) {listen : Nat} :
    Holds E (fun r => I 0 0 [] r.2) (addAccepted s listen fd) := by
  unfold Files.addAccepted
  split
  · exact hR.abort _ nofun nofun nofun
  refine .bind (hR.addSocket h) fun s' hs' => ?_
  show I 0 0 [] (kmSetActiveAccept _)
  unfold kmSetActiveAccept
  split
  · exact hR.sock _ _ hs'
  · exact hR.count _ (hR.sock _ _ hs')

theorem Rules.accept4 (h : I 0 1 [] s) {sockfd : Int} {addr : Bool} {peername : Option Errno}
    (hpeer : L.AcceptsEarly s sockfd addr peername) :
    Holds E (fun r => I 0 0 [] r.2) (kmFsAccept4 s sockfd addr peername refuse) := by
  unfold kmFsAccept4
  split
  · exact hR.rest h
  rename_i m hg
  split
  · exact hR.rest h
  split
  · -- the connection was accepted early, at a number of the monitor
    rename_i a hfound
    rcases hpeer m (kmFsG2hFd_some hg).2 (by simp [hfound]) with ⟨hearly, hpeer⟩
    have hs := hR.early hearly h hfound
    dsimp only
    split
    · exact hs.1
    rename_i hdup
    split
    · rcases hpeer rfl with hnone | hleak
      · cases hnone
      · exact hR.leak hleak (hs.2 hdup)
    · exact hR.addAccepted (hs.2 hdup)
  split
  · exact hR.rest h
  · exact hR.addAccepted (hR.install (d := socketDesc s) h (.inl nofun) ‹_›)

theorem Rules.dup3 (h : I 0 0 [] s) {fd newfd : Int}
    (hc : fd ≠ newfd → (∀ m : Nat, fd = m → L.source s m) ∧ ∀ m : Nat, newfd = m → L.target s m) :
    Holds E (fun r => I 0 0 [] r.2) (kmFsDup3 s fd newfd flags) := by
  unfold kmFsDup3
  split
  · exact h
  rename_i hne
  split
  · exact h
  split
  · exact h
  rename_i hrange
  split
  · exact h
  rename_i m hg
  rcases kmFsG2hFd_some hg with ⟨huses, hfd⟩
  have hnew : newfd = newfd.toNat := by omega
  dsimp only
  split
  · exact h
  split
  · exact hR.abort _ nofun nofun nofun
  split
  · exact h
  have hm := (hc hne).1 m hfd
  exact .bind (hR.replace h huses (by omega) (by omega) hm ((hc hne).2 _ hnew) ‹_›)
    fun s' hs' => hR.duplicated hm hs' _

/-- The descriptors of a message wait for their entries in the kernel's order. -/
theorem Rules.receive {received : List Desc} (hd : ∀ d ∈ received, L.received d)
    (h : I 0 received.length l s) :
    I 0 0 (l ++ (s.host.receive received).1) { s with host := (s.host.receive received).2 } := by
  induction received generalizing s l with
  | nil => simpa [Host.receive] using h
  | cons d ds ih =>
    cases hi : s.host.install d none with
    | error e => simpa [Host.receive, hi] using hR.rest h
    | ok r =>
      have hs := hR.install h (.inr (hd d (.head _))) hi
      have hrest := ih (fun d' hd' => hd d' (.tail _ hd')) hs
      simpa [Host.receive, hi] using hrest

end

/-- The numbers from which and how many a call asks the kernel for. -/
def Call.needs : Call → Nat × Nat
  | .open .. | .dup _ | .eventfd2 .. | .timerfdCreate .. | .socket .. | .accept4 ..
  | .epollCreate1 _ => (0, 1)
  | .fcntlDup _ lo _ => (lo, 1)
  | .pipe2 .. | .socketpair .. => (0, 2)
  | .recvmsg _ received _ | .recvmmsg _ received => (0, received.length)
  | _ => (0, 0)

def Limits.Admits (L : Limits) (s : Fs) : Call → Prop
  | .close fd => ∀ m : Nat, fd = m → L.closable s m
  | .dup fd | .fcntlDup fd _ _ => ∀ m : Nat, fd = m → L.source s m
  | .dup2 fd newfd | .dup3 fd newfd _ =>
    fd ≠ newfd → (∀ m : Nat, fd = m → L.source s m) ∧ ∀ m : Nat, newfd = m → L.target s m
  | .accept4 sockfd addr peername _ => L.AcceptsEarly s sockfd addr peername
  | .recvmsg _ received _ => ∀ d ∈ received, L.received d
  | .recvmmsg _ received => (∀ d ∈ received, L.received d) ∧ (received = [] ∨ L.leaks)
  | _ => True

theorem Rules.call (hR : Rules E L I) {c : Call} (h : I c.needs.1 c.needs.2 [] s)
    (hc : L.Admits s c) : Holds E (fun r => I 0 0 [] r.2) (s.call c) := by
  have hdone := hR.rest h
  cases c with
  | «open» path name ops flags mode refuse =>
    simp only [Fs.call, kmFsOpen]
    split
    · exact hdone
    · exact .bind (hR.add (hR.openName h ‹_›)) fun _ hs' => hs'
  | close fd =>
    simp only [Fs.call, kmFsClose]
    split
    · exact h
    rename_i m hg
    cases hdel : delGuestFd s m with
    | error e =>
      have he := (delGuestFd_spec s m).of_error hdel
      exact hR.abort e he.1 he.2.1 he.2.2
    | ok s' =>
      have hs' := hR.close h (kmFsG2hFd_some hg).1 (hc m (kmFsG2hFd_some hg).2) hdel
      simp only [bind, Except.bind]
      split
      · rwa [if_pos ‹_›] at hs'
      · rwa [if_neg ‹_›] at hs'
  | dup fd =>
    simp only [Fs.call, kmFsDup]
    split
    · exact hdone
    rename_i m hg
    split
    · exact hdone
    split
    · exact hR.abort _ nofun nofun nofun
    split
    · exact hdone
    have hm := hc m (kmFsG2hFd_some hg).2
    exact hR.duplicated hm (hR.dupFrom h (kmFsG2hFd_some hg).1 hm ‹_›) _
  | dup2 fd newfd =>
    simp only [Fs.call, kmFsDup2]
    split
    · exact h
    · exact hR.dup3 h hc
  | dup3 fd newfd flags => exact hR.dup3 h hc
  | fcntlDup fd lo cloexec =>
    simp only [Fs.call, kmFsFcntlDup]
    split
    · exact hdone
    rename_i m hg
    split
    · exact hdone
    split
    · exact hdone
    have hm := hc m (kmFsG2hFd_some hg).2
    exact hR.duplicated hm (hR.dupFrom h (kmFsG2hFd_some hg).1 hm ‹_›) _
  | pipe2 flags refuse =>
    simp only [Fs.call, kmFsPipe2]
    split
    · exact hdone
    rename_i hp
    unfold Host.pipe2 at hp
    dsimp only at hp
    split at hp
    · cases hp
    have hs := hR.installPair (hR.pipes _ _ h) (by simp) (by simp) hp
    exact .bind (hR.addEnd hs rfl) fun s0 hs0 => .bind (hR.addEnd hs0.1 rfl) fun s1 hs1 =>
      hR.connect hs1.1 (hs1.2.2 _ hs0.2.1) hs1.2.1
  | socketpair domain type protocol refuse =>
    simp only [Fs.call, kmFsSocketpair]
    split
    · exact hdone
    rename_i hp
    have hs := hR.installPair (hR.pipes _ _ h) (by simp) (by simp) hp
    exact .bind (hR.addSocketEnd hs rfl) fun s0 hs0 =>
      Holds.bind (hR.addSocketEnd hs0.1 rfl) fun s1 hs1 =>
        hR.connect hs1.1 (hs1.2.2 _ hs0.2.1) hs1.2.1
  | eventfd2 | timerfdCreate => exact hR.addAnon h nofun
  | socket domain type protocol refuse =>
    simp only [Fs.call, kmFsSocket]
    split
    · exact hdone
    have hs := hR.install (d := socketDesc s) h (.inl nofun) ‹_›
    exact .bind (hR.addSocket hs) fun _ hs' => hs'
  | accept4 sockfd addr peername refuse => exact hR.accept4 h hc
  | recvmsg sockfd received flag =>
    simp only [Fs.call, kmFsRecvmsg]
    split
    · exact hdone
    split
    · exact hdone
    refine .bind (P := I 0 0 []) ?_ fun _ hs' => hs'
    exact .foldlM (I := fun rest s => I 0 0 rest s) (fun _ _ _ hs' => hR.add hs')
      (hR.receive hc h)
  | recvmmsg sockfd received =>
    simp only [Fs.call, kmFsRecvmmsg]
    split
    · exact hdone
    split
    · exact hdone
    rcases hc with ⟨hd, rfl | hleak⟩
    · exact h
    · exact hR.leak hleak (hR.receive hd h)
  | epollCreate1 refuse =>
    simp only [Fs.call, kmFsEpollCreate1, Files.addAnon]
    split
    · exact hdone
    · exact .bind (hR.epoll h ‹_›) fun _ hs' => hs'
  | epollCtl epfd op fd event refuse =>
    simp only [Fs.call, kmFsEpollCtl]
    split
    next hep _ =>
      split
      · exact h
      · exact .bind (hR.ctl h (kmFsG2hFd_some hep).1 ‹_›) fun _ hs' => hs'
    · exact h

end KontainMonitor.Files
