import KontainMonitor.Files.Reopen

/-!
# Entries — what calls and notes do to the entries of `guest_files`

A property of the table alone goes through `Rules` when a few functions keep it.  `Stable` lists
those that add entries, `Durable` those that delete, duplicate or recover them.
-/

namespace KontainMonitor.Files

open Transition Outcome

/-- Kept by what leaves the table alone. -/
structure Inner (I : Fs → Prop) : Prop where
  outside : ∀ {s : Fs} (host : Host) (listeners : List Listener) (cnt : Int), I s →
    I { s with host := host, listeners := listeners, acceptCnt := cnt }

/-- Kept by what adds entries. -/
structure Stable (I : Fs → Prop) : Prop extends Inner I where
  add : ∀ {s s' : Fs} {fd flags : Nat} {name : Option Name} {how : How} {ops : Option Nat}, I s →
    kmAddGuestFdInternal s fd name flags how ops = .ok s' → I s'
  note : ∀ {s : Fs} (fd : Nat) (sock : Option SockInfo) (events : List FsEvent), I s →
    I (s.setFile fd { s.files fd with sockinfo := sock, events := events })
  connect : ∀ {s : Fs} {fd0 fd1 : Nat}, I s → EndAt fd0 s → EndAt fd1 s → I (kmConnectFiles s fd0 fd1)

abbrev Ends (I : Fs → Prop) (x : Except Abort Fs) : Prop := Holds (fun _ => True) I x

abbrev EndsRet (I : Fs → Prop) (x : Except Abort (Int × Fs)) : Prop :=
  Holds (fun _ => True) (fun r => I r.2) x

variable {I : Fs → Prop} {s : Fs} {fd flags : Nat} {name : Option Name} {how : How}
variable {ops : Option Nat}
variable {p : Prop}

theorem Inner.host (hI : Inner I) (host : Host) (h : I s) : I { s with host := host } :=
  hI.outside host s.listeners s.acceptCnt h

theorem Stable.added (hI : Stable I) (h : I s) :
    Ends I (kmAddGuestFdInternal s fd name flags how ops) := by
  cases hadd : kmAddGuestFdInternal s fd name flags how ops with
  | error e => trivial
  | ok s' => exact hI.add h hadd

theorem Stable.setSockinfo (hI : Stable I) (fd : Nat) (sock : SockInfo) (h : I s) :
    I (s.setSockinfo fd sock) :=
  hI.note fd (some sock) (s.files fd).events h

/-- Only with `p` do the calls duplicate, replace or close. -/
def changing (p : Prop) : Limits where
  received := fun _ => True
  source := fun _ _ => p
  target := fun _ _ => p
  closable := fun _ _ => p
  early := True
  leaks := True

theorem Stable.rules (hI : Stable I)
    (hdel : p → ∀ {s s' : Fs} {fd : Nat}, I s → delGuestFd s fd = .ok s' → I s')
    (hgroups : p → ∀ {s : Fs} (dups : List (List Nat)), I s → I { s with dups := dups }) :
    Rules (fun _ => True) (changing p) (fun _ _ _ => I) where
  abort _ _ _ _ := trivial
  rest h := h
  leak _ h := h
  pipes _ _ h := hI.host _ h
  openName h _ := hI.host _ h
  install h _ _ := hI.host _ h
  epoll h _ := hI.added (hI.host _ h)
  dupFrom h _ _ _ := hI.host _ h
  replace {m new s host} h _ _ _ hp _ _ := by
    unfold delIfUsed
    split
    · cases hd : delGuestFd { s with host := host } new with
      | error e => trivial
      | ok s' => exact hdel hp (hI.host _ h) hd
    · exact hI.host _ h
  close h _ hp hd := by
    split
    · exact hdel hp h hd
    · exact hI.host _ (hdel hp h hd)
  early _ h _ := ⟨hI.outside _ _ _ h, fun _ => hI.outside _ _ _ h⟩
  add h := hI.added h
  sock fd sock h := hI.setSockinfo fd sock h
  connect h h0 h1 := hI.connect h h0 h1
  group dups hp h := hgroups hp dups h
  count cnt h := hI.outside _ _ cnt h
  ctl h _ _ := by
    refine ((eventSwitch_spec _ _ _ _).weaken fun _ _ => trivial).mono ?_
    rintro _ ⟨events, rfl⟩
    exact hI.note _ _ _ (hI.host _ h)

def Call.source : Call → Option Int
  | .dup fd | .dup2 fd _ | .dup3 fd _ _ | .fcntlDup fd _ _ => some fd
  | _ => none

theorem changing_admits (c : Call) (hp : p ∨ c.source = none ∧ ∀ fd, c ≠ .close fd) :
    (changing p).Admits s c := by
  cases c with
  | accept4 => exact fun _ _ _ => ⟨trivial, fun _ => .inr trivial⟩
  | recvmsg => exact fun _ _ => trivial
  | recvmmsg => exact ⟨fun _ _ => trivial, .inr trivial⟩
  | close fd => exact fun _ _ => hp.resolve_right fun h => h.2 fd rfl
  | dup | fcntlDup => exact fun _ _ => hp.resolve_right nofun
  | dup2 | dup3 =>
    exact fun _ => ⟨fun _ _ => hp.resolve_right nofun, fun _ _ => hp.resolve_right nofun⟩
  | _ => trivial

/-- The calls that neither close nor duplicate. -/
theorem Stable.call (hI : Stable I) (h : I s) {c : Call} (hc : c.source = none)
    (hclose : ∀ fd, c ≠ .close fd) : EndsRet I (s.call c) :=
  (hI.rules (p := False) nofun nofun).call h (changing_admits c (.inr ⟨hc, hclose⟩))

/-! ## All calls and notes -/

/-- Kept by what recovers an entry; `may` are the partners that it may have in a table of some size. -/
structure Movable (may : Nat → Int → How → Prop) (I : Fs → Prop) : Prop extends Inner I where
  recover : ∀ {s : Fs} (fd flags : Nat) (name : Option Name) {ofd : Int} {how : How}, I s →
    may s.nfdmap ofd how → I (s.setFile fd { s.files fd with
      inuse := true, how := how, flags := flags, name := name, ofd := ofd, events := [] })

/-- Kept by everything that changes the table; `sparing` are the numbers whose error the recovery may
set. -/
structure Durable (may : Nat → Int → How → Prop) (sparing : Nat → Prop) (I : Fs → Prop) : Prop extends
    Stable I, Movable may I where
  delete : ∀ {s s' : Fs} {fd : Nat}, I s → delGuestFd s fd = .ok s' → I s'
  groups : ∀ {s : Fs} (dups : List (List Nat)) (recovery : Bool), I s →
    I { s with dups := dups, recovery := recovery }
  fail : ∀ {s : Fs} {fd : Nat}, I s → sparing fd → I (s.setFile fd { s.files fd with
    error := ECONNRESET.ret, name := some socketErrorName })

variable {may : Nat → Int → How → Prop} {sparing : Nat → Prop}

theorem Durable.call (hI : Durable may sparing I) (h : I s) (c : Call) : EndsRet I (s.call c) :=
  (hI.rules (fun _ => hI.delete) fun _ {_} dups h => hI.groups dups _ h).call h
    (changing_admits c (.inl trivial))

end KontainMonitor.Files
