import KontainMonitor.Files.Resumed

/-!
# EpollMirror — the events of an epoll entry and the kernel's interest list

`file->events` is written by `km_fs_epoll_ctl` only.  The kernel's list also changes when a watched
descriptor is closed, and is shared by the duplicates of an epoll descriptor.  As long as neither
happens, each list of the table is the kernel's, and the assertions in the event functions hold.
-/

namespace KontainMonitor.Files

open Function Host List Outcome Transition

/-- An entry of an epoll set as the table keeps it. -/
def Interest.mirrored (x : Interest) : FsEvent := ⟨x.fd, x.event⟩

def Host.isEpoll (h : Host) (d : Nat) : Prop := (h.descs d).object = .epoll

def Host.Plain (h : Host) (fd : Nat) : Prop := ∀ e, h.fds fd = some e → ¬ h.isEpoll e

/-- Descriptor `i` is the only one of the epoll set `e`, whose entries are those of the table, under
numbers that still mean the same. -/
structure Mirrored (s : Fs) (i e : Nat) : Prop where
  alone : ∀ j, s.host.fds j = some e → j = i
  how : (s.files i).how = .epollfd
  events : (s.files i).events = (s.host.interest e).map Interest.mirrored
  listed : ∀ x ∈ s.host.interest e, s.host.fds x.fd = some x.desc
  nodup : ((s.host.interest e).map Interest.fd).Nodup

structure Mirror (s : Fs) : Prop where
  listeners : s.listeners = []
  error : ∀ fd, (s.files fd).error = 0
  bound : ∀ fd, s.host.limit ≤ fd → s.host.fds fd = none
  fresh : ∀ fd d, s.host.fds fd = some d → d < s.host.fresh
  sets : ∀ i e, i < s.nfdmap → s.host.fds i = some e → s.host.isEpoll e → Mirrored s i e

/-- A set stays mirrored while its entry and its list stay, and the listed numbers keep their
descriptions. -/
theorem Mirrored.keep {s s' : Fs} {i e : Nat} (h : Mirrored s i e)
    (hhow : (s'.files i).how = (s.files i).how) (hev : (s'.files i).events = (s.files i).events)
    (hint : s'.host.interest e = s.host.interest e)
    (halone : ∀ j, s'.host.fds j = some e → s.host.fds j = some e)
    (hlisted : ∀ x ∈ s.host.interest e, s'.host.fds x.fd = s.host.fds x.fd) : Mirrored s' i e where
  alone j hj := h.alone j (halone j hj)
  how := hhow.trans h.how
  events := by rw [hev, hint, h.events]
  listed := by
    rw [hint]
    intro x hx
    rw [hlisted x hx]
    exact h.listed x hx
  nodup := hint ▸ h.nodup

/-! ## The functions on lists of events -/

theorem updateFirst_eq {fd : Nat} {f : FsEvent → List FsEvent} {l : List FsEvent}
    (hnd : (l.map FsEvent.fd).Nodup) :
    updateFirst fd f l = l.flatMap fun e => if e.fd = fd then f e else [e] := by
  induction l with
  | nil => rfl
  | cons e rest ih =>
    rw [map_cons, nodup_cons] at hnd
    rw [flatMap_cons, updateFirst]
    split
    · -- the number does not come again
      rename_i he
      have hrest : (rest.flatMap fun e => if e.fd = fd then f e else [e]) = rest := by
        calc
          (rest.flatMap fun e => if e.fd = fd then f e else [e]) = rest.flatMap fun e => [e] := by
                refine flatMap_congr fun e' he' => if_neg ?_
                rintro rfl
                exact hnd.1 (he ▸ mem_map_of_mem he')
          _ = rest := by simp
      rw [hrest]
    · rw [ih hnd.2]
      rfl

variable {file : KmFile}

section

variable {l : List Interest} {d fd : Nat}

/-- The kernel's key of an entry is its number, when the number's description is known. -/
theorem key_iff (hdesc : ∀ x ∈ l, x.fd = fd → x.desc = d) {x : Interest} (hx : x ∈ l) :
    (x.desc == d && x.fd == fd) = decide (x.fd = fd) := by
  by_cases h : x.fd = fd
  · simp [h, hdesc x hx h]
  · simp [h]

theorem eventFind_iff (hdesc : ∀ x ∈ l, x.fd = fd → x.desc = d)
    (hev : file.events = l.map Interest.mirrored) :
    (kmFsEventFind file fd).isSome = l.any fun x => x.desc == d && x.fd == fd := by
  rw [Bool.eq_iff_iff, kmFsEventFind, hev, List.find?_isSome, any_eq_true]
  constructor
  · rintro ⟨e, he, hfd⟩
    rcases mem_map.1 he with ⟨x, hx, rfl⟩
    exact ⟨x, hx, by rw [key_iff hdesc hx]; simpa [Interest.mirrored] using hfd⟩
  rintro ⟨x, hx, hkey⟩
  rw [key_iff hdesc hx] at hkey
  exact ⟨x.mirrored, mem_map_of_mem hx, by simpa [Interest.mirrored] using hkey⟩

theorem map_fd_mirrored : (l.map Interest.mirrored).map FsEvent.fd = l.map Interest.fd := by
  rw [map_map]
  rfl

section

variable (hdesc : ∀ x ∈ l, x.fd = fd → x.desc = d) (hnd : (l.map Interest.fd).Nodup)
include hdesc hnd

theorem updateFirst_mod (event : EpollEvent) :
    updateFirst fd (fun e => [{ e with event := event }]) (l.map Interest.mirrored) =
      (l.map fun x => if (x.desc == d && x.fd == fd) then { x with event := event } else x).map
        Interest.mirrored := by
  rw [updateFirst_eq (map_fd_mirrored ▸ hnd), flatMap_map, map_map]
  rw [map_eq_flatMap]
  refine flatMap_congr fun x hx => ?_
  rw [comp, key_iff hdesc hx]
  by_cases h : x.fd = fd
  · simp [Interest.mirrored, h]
  · simp [Interest.mirrored, h]

theorem updateFirst_del : updateFirst fd (fun _ => []) (l.map Interest.mirrored) =
      (l.filter fun x => !(x.desc == d && x.fd == fd)).map Interest.mirrored := by
  rw [updateFirst_eq (map_fd_mirrored ▸ hnd), flatMap_map]
  have hsplit : ∀ l' : List Interest, (l'.filter fun x => !decide (x.fd = fd)) =
      l'.flatMap fun x => if x.fd = fd then [] else [x] := by
    intro l'
    induction l' with
    | nil => rfl
    | cons x rest ih => by_cases h : x.fd = fd <;> simp [h, ih]
  have hfilter : (l.filter fun x => !(x.desc == d && x.fd == fd)) =
      l.flatMap fun x => if x.fd = fd then [] else [x] := by
    rw [← hsplit]
    exact filter_congr fun x hx => by rw [key_iff hdesc hx]
  rw [hfilter, map_flatMap]
  refine flatMap_congr fun x _ => ?_
  by_cases h : x.fd = fd <;> simp [Interest.mirrored, h]

end

end

/-! ## The parts of a call -/

section

variable {s s' : Fs}
variable {host : Host} {refuse : Option Errno} {flags domain type protocol m : Nat}
variable {name : Option Name} {how : How} {ops : Option Nat} {sockfd : Int} {received : List Desc}

structure Host.SameSets (h h' : Host) : Prop where
  limit : h'.limit = h.limit
  fds : h'.fds = h.fds
  fresh : h'.fresh = h.fresh
  descs : h'.descs = h.descs
  interest : h'.interest = h.interest

theorem Host.SameSets.refl (h : Host) : h.SameSets h := ⟨rfl, rfl, rfl, rfl, rfl⟩

theorem setFile_self (s : Fs) (fd : Nat) : s.setFile fd (s.files fd) = s := by
  simp [Fs.setFile]

/-- A number that was free gets the description `d`; a set there has no other descriptor and is
empty, like the entry's list. -/
theorem Mirror.put (h : Mirror s) {fd d : Nat} (hfree : s.host.fds fd = none)
    (hlt : fd < s.host.limit) (hlim : host.limit = s.host.limit)
    (hfds : host.fds = update s.host.fds fd (some d)) (hd : d < host.fresh)
    (hfresh : s.host.fresh ≤ host.fresh)
    (hrest : ∀ e, e ≠ d → host.descs e = s.host.descs e ∧ host.interest e = s.host.interest e)
    (hfile : host.isEpoll d → (∀ i, s.host.fds i ≠ some d) ∧ file.how = .epollfd ∧
      file.events = [] ∧ host.interest d = [])
    (herr : file.error = 0) : Mirror ({ s with host := host }.setFile fd file) := by
  have hold : ∀ i e, i ≠ fd → host.fds i = some e → s.host.fds i = some e := by
    intro i e hi he
    rwa [hfds, update_of_ne hi] at he
  have hself : ∀ e, host.fds fd = some e → e = d := by
    intro e he
    rw [hfds, update_self] at he
    cases he
    rfl
  refine ⟨h.listeners, ?_, ?_, ?_, ?_⟩
  · intro i
    by_cases hi : i = fd
    · subst hi
      simpa [Fs.setFile] using herr
    · simpa [Fs.setFile, hi] using h.error i
  · intro i hi
    have hi' : host.limit ≤ i := hi
    show host.fds i = none
    rw [hfds, update_of_ne (by omega)]
    exact h.bound i (by omega)
  · intro i e he
    show e < host.fresh
    by_cases hi : i = fd
    · rw [hself e (hi ▸ he)]
      exact hd
    · have := h.fresh i e (hold i e hi he)
      omega
  intro i e hi hie hep
  by_cases hif : i = fd
  · subst hif
    have he := hself e hie
    subst he
    rcases hfile hep with ⟨hnew, hhow, hev, hnil⟩
    refine ⟨fun j hj => ?_, ?_, ?_, ?_, ?_⟩
    · by_contra hji
      exact hnew j (hold j _ hji hj)
    · simpa [Fs.setFile] using hhow
    · simp [Fs.setFile, hnil, hev]
    · simp [hnil]
    · simp [hnil]
  have hie' := hold i e hif hie
  have hne : e ≠ d := by
    rintro rfl
    exact (hfile hep).1 i hie'
  have hep' : s.host.isEpoll e := by
    rw [Host.isEpoll, ← (hrest e hne).1]
    exact hep
  have hm := h.sets i e hi hie' hep'
  refine hm.keep ?_ ?_ (hrest e hne).2 (fun j hj => ?_) (fun x hx => ?_)
  · simp [Fs.setFile, hif]
  · simp [Fs.setFile, hif]
  · by_cases hjf : j = fd
    · exact absurd (hself e (hjf ▸ hj)) hne
    · exact hold j e hjf hj
  show host.fds x.fd = s.host.fds x.fd
  rw [hfds]
  refine update_of_ne ?_ _ _
  intro heq
  have hx' := hm.listed x hx
  rw [heq, hfree] at hx'
  cases hx'

/-- A new description at the lowest free number. -/
theorem Mirror.made (h : Mirror s) {fd : Nat} {d : Desc} (hl : s.host.lowest 0 = some fd)
    (hsame : ((s.host.newDesc d).setFd fd (some s.host.fresh)).SameSets host)
    (hfile : d.object = .epoll → file.how = .epollfd ∧ file.events = [])
    (herr : file.error = 0) : Mirror ({ s with host := host }.setFile fd file) := by
  have hfree := mem_free.1 (lowest_mem hl)
  have hfresh : host.fresh = s.host.fresh + 1 := hsame.fresh
  refine h.put hfree.2.2 hfree.1 hsame.limit hsame.fds (by omega) (by omega) (fun e he => ?_)
    (fun hep => ?_) herr
  · rw [hsame.descs, hsame.interest]
    exact ⟨update_of_ne he _ _, update_of_ne he _ _⟩
  rw [Host.isEpoll, hsame.descs] at hep
  have hobj : d.object = .epoll := by simpa [Host.newDesc, Host.setFd] using hep
  refine ⟨fun i hi => ne_of_lt (h.fresh i _ hi) rfl, (hfile hobj).1, (hfile hobj).2, ?_⟩
  simp [hsame.interest, Host.newDesc, Host.setFd]

/-- A further descriptor, at a free number, of a description that is no epoll set. -/
theorem Mirror.dupped (h : Mirror s) {fd d : Nat} (hfree : s.host.fds fd = none)
    (hlt : fd < s.host.limit) (hd : d < s.host.fresh) (hnot : ¬ s.host.isEpoll d) :
    Mirror { s with host := s.host.setFd fd (some d) } ∧ (s.host.setFd fd (some d)).Plain fd := by
  have hput : Mirror ({ s with host := s.host.setFd fd (some d) }.setFile fd (s.files fd)) :=
    h.put hfree hlt rfl rfl hd le_rfl (fun _ _ => ⟨rfl, rfl⟩) (fun hep => absurd hep hnot)
      (h.error fd)
  refine ⟨setFile_self { s with host := s.host.setFd fd (some d) } fd ▸ hput, fun e he => ?_⟩
  have he' : d = e := by simpa [Host.setFd] using he
  exact he' ▸ hnot

theorem Host.close_descs (h : Host) (fd : Nat) :
    (h.close fd).fresh = h.fresh ∧ (h.close fd).descs = h.descs := by
  unfold close release
  split
  · exact ⟨rfl, rfl⟩
  · split <;> exact ⟨rfl, rfl⟩

def Fs.Unwatched (s : Fs) (fd : Nat) : Prop := ∀ i, ∀ ev ∈ (s.files i).events, ev.fd ≠ fd

section

variable (h : Mirror s)
include h

/-- Closing a number that no epoll entry watches. -/
theorem Mirror.closed {fd : Nat} (hun : s.Unwatched fd) (hn : s'.nfdmap = s.nfdmap)
    (hl : s'.listeners = s.listeners) (hhost : s'.host = s.host.close fd)
    (herr : ∀ i, (s'.files i).error = (s.files i).error)
    (hhow : ∀ i, i ≠ fd → (s'.files i).how = (s.files i).how)
    (hev : ∀ i, i ≠ fd → (s'.files i).events = (s.files i).events) : Mirror s' := by
  have hfds : s'.host.fds = update s.host.fds fd none := by rw [hhost, close_fds]
  have hother : ∀ {i e}, s'.host.fds i = some e → i ≠ fd ∧ s.host.fds i = some e := by
    intro i e hie
    rw [hfds] at hie
    by_cases hi : i = fd
    · subst hi
      rw [update_self] at hie
      cases hie
    · rw [update_of_ne hi] at hie
      exact ⟨hi, hie⟩
  have hsame := s.host.close_descs fd
  rw [← hhost] at hsame
  refine ⟨hl.trans h.listeners, fun i => (herr i).trans (h.error i), ?_, ?_, ?_⟩
  · intro i hi
    rw [hhost, close_limit] at hi
    rw [hfds]
    by_cases hif : i = fd
    · subst hif
      exact update_self _ _ _
    · rw [update_of_ne hif]
      exact h.bound i hi
  · intro i e hie
    rw [hsame.1]
    exact h.fresh i e (hother hie).2
  intro i e hi hie hep
  rcases hother hie with ⟨hif, hie'⟩
  have hep' : s.host.isEpoll e := by
    rw [Host.isEpoll, hsame.2] at hep
    exact hep
  have hm := h.sets i e (hn ▸ hi) hie' hep'
  have hxne : ∀ x ∈ s.host.interest e, x.fd ≠ fd := by
    intro x hx
    exact hun i x.mirrored (by rw [hm.events]; exact mem_map_of_mem hx)
  -- a description that leaves every set is in none of the mirrored ones
  have hint : s'.host.interest e = s.host.interest e := by
    rw [hhost]
    unfold Host.close
    split
    · rfl
    rename_i d hfd
    unfold Host.release
    split
    · rfl
    rename_i hlast
    refine filter_eq_self.2 fun x hx => ?_
    have hxfd := hm.listed x hx
    by_contra hxd
    have hxd' : x.desc = d := by simpa using hxd
    apply hlast
    refine any_eq_true.2 ⟨x.fd, ?_, ?_⟩
    · rw [mem_range]
      by_contra hge
      have := h.bound x.fd (by simpa using hge)
      rw [this] at hxfd
      cases hxfd
    · simp [Host.setFd, hxne x hx, hxfd, hxd']
  refine hm.keep (hhow i hif) (hev i hif) hint (fun j hj => (hother hj).2) (fun x hx => ?_)
  rw [hfds]
  exact update_of_ne (hxne x hx) _ _

/-- The parts of the state that the mirror is about. -/
theorem Mirror.congr (hn : s'.nfdmap = s.nfdmap) (hl : s'.listeners = s.listeners)
    (hhost : s.host.SameSets s'.host) (herr : ∀ i, (s'.files i).error = (s.files i).error)
    (hhow : ∀ i, (s'.files i).how = (s.files i).how)
    (hev : ∀ i, (s'.files i).events = (s.files i).events) : Mirror s' := by
  refine ⟨hl.trans h.listeners, fun i => (herr i).trans (h.error i), ?_, ?_, ?_⟩
  · rw [hhost.limit, hhost.fds]
    exact h.bound
  · rw [hhost.fresh, hhost.fds]
    exact h.fresh
  intro i e hi hie hep
  rw [Host.isEpoll, hhost.descs] at hep
  rw [hhost.fds] at hie
  refine (h.sets i e (hn ▸ hi) hie hep).keep (hhow i) (hev i) ?_ ?_ ?_
  · rw [hhost.interest]
  · intro j hj
    rwa [hhost.fds] at hj
  · intro x _
    rw [hhost.fds]

/-- The entry of a descriptor that is no epoll descriptor may say anything. -/
theorem Mirror.entry {fd : Nat} (hplain : s.host.Plain fd) (herr : file.error = 0) :
    Mirror (s.setFile fd file) := by
  refine ⟨h.listeners, fun i => ?_, h.bound, h.fresh, fun i e hi hie hep => ?_⟩
  · by_cases hif : i = fd
    · subst hif
      simpa [Fs.setFile] using herr
    · simpa [Fs.setFile, hif] using h.error i
  have hif : i ≠ fd := by
    rintro rfl
    exact hplain e hie hep
  refine (h.sets i e hi hie hep).keep ?_ ?_ rfl (fun j hj => hj) (fun x _ => rfl)
  · simp [Fs.setFile, hif]
  · simp [Fs.setFile, hif]

/-- A new description that is no epoll set, before its entry is written. -/
theorem Mirror.opened {fd : Nat} {d : Desc} (hl : s.host.lowest 0 = some fd)
    (hd : d.object ≠ .epoll)
    (hsame : ((s.host.newDesc d).setFd fd (some s.host.fresh)).SameSets host) :
    Mirror { s with host := host } ∧ host.Plain fd := by
  have hmade : Mirror ({ s with host := host }.setFile fd (s.files fd)) :=
    h.made hl hsame (fun he => absurd he hd) (h.error fd)
  refine ⟨setFile_self { s with host := host } fd ▸ hmade, ?_⟩
  intro e he
  rw [hsame.fds] at he
  rw [Host.isEpoll, hsame.descs]
  have he' : e = s.host.fresh := by simpa [eq_comm] using he
  subst he'
  simpa [Host.newDesc, Host.setFd] using hd

theorem Mirror.installed {fd : Nat} {d : Desc} (hi : s.host.install d refuse = .ok (fd, host))
    (hd : d.object ≠ .epoll) : Mirror { s with host := host } ∧ host.Plain fd := by
  rcases install_ok hi with ⟨hl, rfl⟩
  exact h.opened hl hd (Host.SameSets.refl _)

end

/-- A later installation does not touch an open descriptor. -/
theorem Host.Plain.install {host' : Host} {i fd : Nat} {d : Desc} (hp : host.Plain i)
    (hopen : host.fds i ≠ none) (hlt : ∀ e, host.fds i = some e → e < host.fresh)
    (hi : host.install d refuse = .ok (fd, host')) : host'.Plain i ∧ host'.fds i = host.fds i := by
  rcases install_ok hi with ⟨hl, rfl⟩
  have hne : i ≠ fd := by
    rintro rfl
    exact hopen (mem_free.1 (lowest_mem hl)).2.2
  have hsame : ((host.newDesc d).setFd fd (some host.fresh)).fds i = host.fds i := by simp [hne]
  refine ⟨fun e he => ?_, hsame⟩
  rw [hsame] at he
  have := hlt e he
  have := hp e he
  simpa [isEpoll, newDesc, setFd, show e ≠ host.fresh by omega] using this

/-- `open` makes a description of a file. -/
theorem Host.openName_sets {h h' : Host} {path : Name} {mode : Nat} {fd : Nat}
    (ho : h.openName path flags mode refuse = .ok (fd, h')) :
    ∃ d : Desc, d.object ≠ .epoll ∧ h.lowest 0 = some fd ∧
      ((h.newDesc d).setFd fd (some h.fresh)).SameSets h' := by
  rcases openName_ok ho with ⟨hl, ⟨_, -, -, rfl⟩ | ⟨_, -, rfl⟩⟩
  · exact ⟨_, by simp, hl, ⟨rfl, rfl, rfl, rfl, rfl⟩⟩
  · exact ⟨_, by simp, hl, ⟨rfl, rfl, rfl, rfl, rfl⟩⟩

/-! ## The calls -/

def NotEvent (e : Abort) : Prop := e ≠ .event

theorem Mirror.setSockinfo (h : Mirror s) (fd : Nat) (sock : SockInfo) :
    Mirror (s.setSockinfo fd sock) := by
  refine h.congr rfl rfl (Host.SameSets.refl _) ?_ ?_ ?_ <;>
  · intro i
    by_cases hi : i = fd
    · subst hi
      simp [Fs.setSockinfo, Fs.setFile]
    · simp [Fs.setSockinfo, Fs.setFile, hi]

theorem Mirror.connect (h : Mirror s) (fd0 fd1 : Nat) : Mirror (kmConnectFiles s fd0 fd1) := by
  refine h.congr rfl rfl (Host.SameSets.refl _) ?_ ?_ ?_ <;>
  · intro i
    by_cases h0 : i = fd0 <;> by_cases h1 : i = fd1 <;>
      simp [kmConnectFiles, Fs.setFile, update_apply, h0, h1] <;>
    split <;> simp_all

theorem kmAddGuestFdInternal_notEvent {fd : Nat} {e : Abort}
    (hadd : kmAddGuestFdInternal s fd name flags how ops = .error e) : NotEvent e := by
  unfold kmAddGuestFdInternal at hadd
  split at hadd
  · cases hadd
    simp [NotEvent]
  · split at hadd <;> cases hadd
    simp [NotEvent]

/-- Adding an entry for a descriptor that is no epoll descriptor. -/
theorem Mirror.add (h : Mirror s) {fd : Nat} (hplain : s.host.Plain fd) :
    Holds NotEvent (fun s' => Mirror s' ∧ s'.host = s.host)
      (kmAddGuestFdInternal s fd name flags how ops) := by
  cases hadd : kmAddGuestFdInternal s fd name flags how ops with
  | error e => exact kmAddGuestFdInternal_notEvent hadd
  | ok s' =>
    rcases kmAddGuestFdInternal_ok hadd with ⟨-, -, file, rfl, -, herr, -, -⟩
    exact ⟨h.entry hplain (herr ▸ h.error fd), rfl⟩

/-- A new epoll set starts empty, and so does the new entry's list. -/
theorem Mirror.addEpoll (h : Mirror s) {fd : Nat} {d : Desc}
    (hi : s.host.install d refuse = .ok (fd, host)) : Holds NotEvent Mirror
      (kmAddGuestFdInternal { s with host := host } fd none 0 .epollfd none) := by
  rcases install_ok hi with ⟨hl, rfl⟩
  cases hadd : kmAddGuestFdInternal _ fd none 0 .epollfd none with
  | error e => exact kmAddGuestFdInternal_notEvent hadd
  | ok s' =>
    rcases kmAddGuestFdInternal_ok hadd with ⟨-, -, file, rfl, -, herr, hev, hhow⟩
    exact h.made hl (Host.SameSets.refl _) (fun _ => ⟨hhow, hev⟩) (herr ▸ h.error fd)

section

variable (h : Mirror s) (hm : m < s.nfdmap) (hhow : (s.files m).how ≠ .epollfd)
include h hm hhow

/-- An entry that does not say so belongs to no epoll descriptor. -/
theorem Mirror.not_epoll {d : Nat} (hd : s.host.fds m = some d) : ¬ s.host.isEpoll d :=
  fun hep => hhow (h.sets m d hm hd hep).how

theorem Mirror.dupFrom {lo new : Nat} (hd : s.host.dupFrom m lo = .ok (new, host)) :
    Mirror { s with host := host } ∧ host.Plain new := by
  rcases dupFrom_ok hd with ⟨d, hfd, hl, rfl⟩
  have hfree := mem_free.1 (lowest_mem hl)
  exact h.dupped hfree.2.2 hfree.1 (h.fresh m d hfd) (h.not_epoll hm hhow hfd)

end

/-- What `dup3` leaves of the old entry at the new number. -/
theorem delIfUsed_spec (s : Fs) (fd : Nat) :
    Holds NotEvent (fun s' => s'.nfdmap = s.nfdmap ∧ s'.listeners = s.listeners ∧
        s'.host = s.host ∧ (∀ i, (s'.files i).error = (s.files i).error) ∧
          ∀ i, i ≠ fd → (s'.files i).how = (s.files i).how ∧
            (s'.files i).events = (s.files i).events) (delIfUsed s fd) := by
  unfold delIfUsed
  split
  · refine ((delGuestFd_spec s fd).weaken fun e he => he.2.2).mono fun s' hd => ?_
    refine ⟨hd.nfdmap, hd.listeners, hd.host, fun i => ?_, fun i hi => ?_⟩
    · by_cases hi : i = fd
      · rw [hi]
        exact hd.error
      · rcases hd.other i hi with ⟨o, ho⟩
        rw [ho]
    rcases hd.other i hi with ⟨o, ho⟩
    rw [ho]
    exact ⟨rfl, rfl⟩
  · exact ⟨rfl, rfl, rfl, fun _ => rfl, fun _ _ => ⟨rfl, rfl⟩⟩

/-- `dup3` closes the new number, then makes it a duplicate. -/
theorem Mirror.replaced (h : Mirror s) {new : Nat} (hm : m < s.nfdmap) (hun : s.Unwatched new)
    (hhow : (s.files m).how ≠ .epollfd) (hd : s.host.dup2 m new = .ok host) :
    Holds NotEvent (fun s' => Mirror s' ∧ s'.host.Plain new ∧ s'.host.fds new ≠ none)
      (delIfUsed { s with host := host } new) := by
  rcases Host.dup2_ok hd with ⟨d, hfd, hlt, rfl⟩
  refine (delIfUsed_spec _ _).mono ?_
  rintro s1 ⟨hn1, hl1, hh1, herr1, hother1⟩
  have hclosed : Mirror { s1 with host := s.host.close new } :=
    h.closed hun hn1 hl1 rfl herr1 (fun i hi => (hother1 i hi).1) (fun i hi => (hother1 i hi).2)
  have hsame := s.host.close_descs new
  have hfreed : (s.host.close new).fds new = none := by simp
  have hdup := hclosed.dupped hfreed (by simpa using hlt) (by rw [hsame.1]; exact h.fresh m d hfd)
    (by rw [Host.isEpoll, hsame.2]; exact h.not_epoll hm hhow hfd)
  have hhost : s1.host = (s.host.close new).setFd new (some d) := hh1
  have heq : s1 = { s1 with host := (s.host.close new).setFd new (some d) } := by rw [← hhost]
  rw [heq]
  exact ⟨hdup.1, hdup.2, by simp⟩

theorem Mirror.deleted (h : Mirror s) (hm : s.Uses m) (hun : s.Unwatched m)
    (hdel : delGuestFd s m = .ok s') : Mirror { s' with host := s'.host.close m } := by
  have hspec := delIfUsed_spec s m
  rw [delIfUsed, if_pos hm.2] at hspec
  rcases hspec.of_ok hdel with ⟨hn, hl, hh, herr, hother⟩
  exact h.closed hun hn hl (congrArg (Host.close · m) hh) herr (fun i hi => (hother i hi).1)
    (fun i hi => (hother i hi).2)

def Fs.relisted (s : Fs) (e : Nat) (l : List Interest) : Fs :=
  { s with host := { s.host with interest := update s.host.interest e l } }

/-- The set of `ep` gets a new list, and its entry the same one. -/
theorem Mirror.relist (h : Mirror s) {ep e : Nat} {l : List Interest} (hlt : ep < s.nfdmap)
    (hfd : s.host.fds ep = some e) (hep : s.host.isEpoll e)
    (hfile : file = { s.files ep with events := l.map Interest.mirrored })
    (hlisted : ∀ x ∈ l, s.host.fds x.fd = some x.desc) (hnd : (l.map Interest.fd).Nodup) :
    Mirror ((s.relisted e l).setFile ep file) := by
  subst hfile
  have hm := h.sets ep e hlt hfd hep
  refine ⟨h.listeners, fun i => ?_, h.bound, h.fresh, fun i e' hi hie hep' => ?_⟩
  · by_cases hif : i = ep
    · subst hif
      simpa [Fs.setFile] using h.error i
    · simpa [Fs.setFile, Fs.relisted, hif] using h.error i
  by_cases hif : i = ep
  · subst hif
    have he : e' = e := Option.some.inj (hie.symm.trans hfd)
    subst he
    refine ⟨hm.alone, ?_, ?_, ?_, ?_⟩
    · simpa [Fs.setFile] using hm.how
    · simp [Fs.setFile, Fs.relisted]
    · simpa [Fs.setFile, Fs.relisted] using hlisted
    · simpa [Fs.setFile, Fs.relisted] using hnd
  have hne : e' ≠ e := by
    rintro rfl
    exact hif (hm.alone i hie)
  refine (h.sets i e' hi hie hep').keep ?_ ?_ ?_ (fun j hj => hj) (fun x _ => rfl)
  · simp [Fs.setFile, Fs.relisted, hif]
  · simp [Fs.setFile, Fs.relisted, hif]
  · simp [Fs.setFile, Fs.relisted, hne]

/-- A registered number's entries are those of its description. -/
theorem Mirrored.desc_of_fd {ep e n d : Nat} (hm : Mirrored s ep e) (hn : s.host.fds n = some d) :
    ∀ x ∈ s.host.interest e, x.fd = n → x.desc = d := by
  rintro x hx rfl
  exact Option.some.inj ((hm.listed x hx).symm.trans hn)

section

variable {ep e n d : Nat} {event : EpollEvent}

section

variable (h : Mirror s) (hlt : ep < s.nfdmap) (hfde : s.host.fds ep = some e)
  (hset : s.host.isEpoll e) (hn : s.host.fds n = some d)
include h hlt hfde hset hn

theorem Mirror.eventAdd (hany : ¬ ((s.host.interest e).any fun x => x.desc == d && x.fd == n)) :
    Holds NotEvent (fun file =>
        Mirror ((s.relisted e (s.host.interest e ++ [⟨d, n, event⟩])).setFile ep file))
      (kmFsEventAdd (s.files ep) n event) := by
  have hm := h.sets ep e hlt hfde hset
  have hdesc := hm.desc_of_fd hn
  have hnone : ¬ (kmFsEventFind (s.files ep) n).isSome := by
    rw [eventFind_iff hdesc hm.events]
    exact hany
  rw [kmFsEventAdd, if_neg hnone]
  refine h.relist hlt hfde hset ?_ ?_ ?_
  · rw [hm.events]
    simp [Interest.mirrored]
  · intro x hx
    rcases mem_append.1 hx with hx | hx
    · exact hm.listed x hx
    rw [mem_singleton] at hx
    subst hx
    exact hn
  -- a listed number would be an entry with the same key
  rw [map_append, nodup_append]
  refine ⟨hm.nodup, by simp, ?_⟩
  intro a ha b hb hab
  rcases mem_map.1 ha with ⟨x, hx, rfl⟩
  have hxn : x.fd = n := hab.trans (by simpa using hb)
  apply hany
  exact any_eq_true.2 ⟨x, hx, by simp [hxn, hdesc x hx hxn]⟩

section

variable (hany : ((s.host.interest e).any fun x => x.desc == d && x.fd == n))
include hany

theorem Mirror.eventMod :
    Holds NotEvent (fun file => Mirror ((s.relisted e ((s.host.interest e).map fun x =>
          if (x.desc == d && x.fd == n) then { x with event := event } else x)).setFile ep file))
      (kmFsEventMod (s.files ep) n event) := by
  have hm := h.sets ep e hlt hfde hset
  have hdesc := hm.desc_of_fd hn
  rw [kmFsEventMod, if_pos ((eventFind_iff hdesc hm.events).trans hany)]
  refine h.relist hlt hfde hset ?_ ?_ ?_
  · rw [hm.events, updateFirst_mod hdesc hm.nodup]
  · intro x hx
    rcases mem_map.1 hx with ⟨y, hy, rfl⟩
    have := hm.listed y hy
    split <;> exact this
  have hfds : ∀ x : Interest, (if (x.desc == d && x.fd == n) then
      { x with event := event } else x).fd = x.fd := by
    intro x
    split <;> rfl
  rw [map_map]
  exact (map_congr_left fun x _ => hfds x) ▸ hm.nodup

theorem Mirror.eventDel :
    Holds NotEvent (fun file => Mirror ((s.relisted e ((s.host.interest e).filter fun x =>
          !(x.desc == d && x.fd == n))).setFile ep file)) (kmFsEventDel (s.files ep) n) := by
  have hm := h.sets ep e hlt hfde hset
  have hdesc := hm.desc_of_fd hn
  rw [kmFsEventDel, if_pos ((eventFind_iff hdesc hm.events).trans hany)]
  refine h.relist hlt hfde hset ?_ ?_ ?_
  · rw [hm.events, updateFirst_del hdesc hm.nodup]
  · exact fun x hx => hm.listed x (mem_of_mem_filter hx)
  · exact hm.nodup.sublist (filter_sublist.map _)

end

end

end

/-- What the kernel accepts, the event functions accept. -/
theorem Mirror.eventSwitch (h : Mirror s) {ep n : Nat} {op : Host.CtlOp} {event : EpollEvent}
    (hlt : ep < s.nfdmap) (hctl : s.host.epollCtl ep op n event refuse = .ok host) :
    Holds NotEvent (fun file => Mirror ({ s with host := host }.setFile ep file))
      (eventSwitch op (s.files ep) n event) := by
  unfold Host.epollCtl at hctl
  split at hctl
  · cases hctl
  next e d hfde hfdn =>
    dsimp only at hctl
    split at hctl
    · cases hctl
    rename_i hkind
    have hset : s.host.isEpoll e := by
      by_contra hno
      exact hkind (.inl hno)
    -- each operation of the kernel is matched by one event function
    cases op with
    | add =>
      dsimp only at hctl
      split at hctl
      · cases hctl
      · cases hctl
        exact h.eventAdd hlt hfde hset hfdn ‹_›
    | mod =>
      dsimp only at hctl
      split at hctl
      · cases hctl
        exact h.eventMod hlt hfde hset hfdn ‹_›
      · cases hctl
    | del =>
      dsimp only at hctl
      split at hctl
      · cases hctl
        exact h.eventDel hlt hfde hset hfdn ‹_›
      · cases hctl
  · cases hctl

/-! ## All calls -/

/-- The descriptors that wait for their entries are no epoll descriptors. -/
def MirrorIn (_ _ : Nat) (l : List Nat) (s : Fs) : Prop :=
  Mirror s ∧ ∀ fd ∈ l, s.host.Plain fd ∧ s.host.fds fd ≠ none

theorem Mirror.waiting {fd : Nat} (h : Mirror s) (hplain : s.host.Plain fd)
    (hopen : s.host.fds fd ≠ none) : MirrorIn 0 0 [fd] s :=
  ⟨h, by simpa using ⟨hplain, hopen⟩⟩

/-- No watched number is closed or replaced, and no epoll descriptor is duplicated or received. -/
def mirrorLimits : Limits where
  received := fun d => d.object ≠ .epoll
  source := fun s fd => (s.files fd).how ≠ .epollfd
  target := Fs.Unwatched
  closable := Fs.Unwatched
  early := True
  leaks := True

theorem mirror_rules : Rules NotEvent mirrorLimits MirrorIn where
  abort _ _ _ he := he
  rest h := h
  leak _ h := ⟨h.1, nofun⟩
  pipes _ _ h := ⟨h.1.congr rfl rfl ⟨rfl, rfl, rfl, rfl, rfl⟩ (fun _ => rfl) (fun _ => rfl)
    fun _ => rfl, nofun⟩
  openName h ho := by
    rcases openName_sets ho with ⟨d, hd, hl, hsame⟩
    rcases h.1.opened hl hd hsame with ⟨hs, hplain⟩
    exact hs.waiting hplain (by simp [hsame.fds])
  install {k fd l s d refuse host} h hd hi := by
    rcases h.1.installed hi (hd.elim id id) with ⟨hs, hplain⟩
    refine ⟨hs, fun i hi' => ?_⟩
    rcases mem_append.1 hi' with hmem | hmem
    · rcases h.2 i hmem with ⟨hp, hopen⟩
      rcases hp.install hopen (h.1.fresh i) hi with ⟨hp', hsame⟩
      exact ⟨hp', by rw [hsame]; exact hopen⟩
    rw [mem_singleton.1 hmem]
    refine ⟨hplain, ?_⟩
    rcases install_ok hi with ⟨-, rfl⟩
    simp
  epoll h hi := (h.1.addEpoll hi).mono fun _ hs => ⟨hs, nofun⟩
  dupFrom h hm hhow hd := by
    rcases h.1.dupFrom hm.1 hhow hd with ⟨hs, hplain⟩
    rcases dupFrom_ok hd with ⟨d, -, -, rfl⟩
    exact hs.waiting hplain (by simp)
  replace h hm _ _ hhow hun hd :=
    (h.1.replaced hm.1 hun hhow hd).mono fun _ hs => hs.1.waiting hs.2.1 hs.2.2
  close {m s s'} h hm hun hdel := by
    rw [if_neg (by simp [h.1.error m])]
    exact ⟨h.1.deleted hm hun hdel, nofun⟩
  early _ h hfound := by simp [kmSnapFindAccepted, h.1.listeners] at hfound
  add h := by
    refine (h.1.add (h.2 _ (.head _)).1).mono fun s' hs' => ⟨hs'.1, fun i hi => ?_⟩
    rw [hs'.2]
    exact h.2 i (.tail _ hi)
  sock fd sock h := ⟨h.1.setSockinfo fd sock, h.2⟩
  connect h _ _ := ⟨h.1.connect _ _, nofun⟩
  group _ _ h := ⟨h.1.congr rfl rfl (Host.SameSets.refl _) (fun _ => rfl) (fun _ => rfl)
    fun _ => rfl, nofun⟩
  count _ h := ⟨h.1.congr rfl rfl (Host.SameSets.refl _) (fun _ => rfl) (fun _ => rfl)
    fun _ => rfl, nofun⟩
  ctl h hep hc := (h.1.eventSwitch hep.1 hc).mono fun _ hs => ⟨hs, nofun⟩

/-! ## Runs -/

/-- The calls after which the lists still agree: no watched number is closed or replaced, and no epoll
descriptor is duplicated or received. -/
def Fs.keepsSets (s : Fs) : Call → Prop
  | .close fd => ∀ m : Nat, fd = m → s.Unwatched m
  | .dup fd | .fcntlDup fd _ _ => ∀ m : Nat, fd = m → (s.files m).how ≠ .epollfd
  | .dup2 fd newfd | .dup3 fd newfd _ =>
    fd ≠ newfd → (∀ m : Nat, fd = m → (s.files m).how ≠ .epollfd) ∧
      ∀ m : Nat, newfd = m → s.Unwatched m
  | .recvmsg _ received _ | .recvmmsg _ received => ∀ d ∈ received, d.object ≠ .epoll
  | _ => True

theorem call_mirrors (h : Mirror s) {c : Call} (hc : s.keepsSets c) :
    Holds NotEvent (fun r => Mirror r.2) (s.call c) := by
  suffices hadmits : mirrorLimits.Admits s c from
    (mirror_rules.call ⟨h, nofun⟩ hadmits).mono fun _ hr => hr.1
  cases c with
  | accept4 => exact fun _ _ _ => ⟨trivial, fun _ => .inr trivial⟩
  | recvmmsg => exact ⟨hc, .inr trivial⟩
  | _ => exact hc

end

/-- The calls of a process that starts without epoll descriptors. -/
def callSystem (n : Nat) : System Fs Call where
  init s := ∃ timeout host, HostStart n host [] ∧
    (∀ fd d, host.fds fd = some d → d < host.fresh ∧ (fd < n → ¬ host.isEpoll d)) ∧
      s = kmFsInit n timeout [] host
  step s c s' := ∃ r, s.call c = .ok (r, s')

theorem reach_mirror {n : Nat} {s : Fs}
    (h : Reach ((callSystem n).restrict fun s c _ => s.keepsSets c) s) : Mirror s := by
  refine Reach.inv ?_ ?_ h
  · rintro t ⟨timeout, host, hstart, hdesc, rfl⟩
    exact ⟨rfl, kmFsInit_error n timeout [] host, hstart.bound, fun fd d hd => (hdesc fd d hd).1,
      fun i e hi hie hep => absurd hep ((hdesc i e hie).2 hi)⟩
  · rintro t c t' ht ⟨⟨r, hr⟩, hc⟩
    exact (call_mirrors ht hc).of_ok hr

/-- In every run that closes no watched number and duplicates no epoll descriptor, the list of each
epoll entry is the kernel's interest list, and no further such call fails an assertion of the event
functions. -/
theorem epoll_lists_mirror_kernel (n : Nat) (s : Fs)
    (h : Reach ((callSystem n).restrict fun s c _ => s.keepsSets c) s) :
    (∀ fd e, fd < s.nfdmap → s.host.fds fd = some e → (s.host.descs e).object = .epoll →
      (s.files fd).events = (s.host.interest e).map Interest.mirrored) ∧
        ∀ c, s.keepsSets c → s.call c ≠ .error .event := by
  have hm := reach_mirror h
  refine ⟨fun fd e hfd he hep => (hm.sets fd e hfd he hep).events, fun c hc herr => ?_⟩
  exact (call_mirrors hm hc).of_error herr rfl

theorem plainHost_descs (fd d : Nat) (h : plainHost.fds fd = some d) :
    d < plainHost.fresh ∧ (fd < 727 → ¬ plainHost.isEpoll d) := by
  have hd : d = 0 := by
    by_cases hfd : fd < 3
    · simpa [plainHost, hfd, eq_comm] using h
    · simp [plainHost, hfd] at h
  subst hd
  exact ⟨by decide, fun _ => by simp [Host.isEpoll, plainHost]⟩

theorem plainHost_init : (callSystem 727).init (kmFsInit 727 0 [] plainHost) :=
  ⟨0, plainHost, plainHost_start, plainHost_descs, rfl⟩

theorem call?_step {n : Nat} {s s' : Fs} {c : Call} (h : s.call? c = some s') :
    (callSystem n).step s c s' := by
  rcases Option.map_eq_some_iff.1 h with ⟨⟨r, t⟩, hr, rfl⟩
  exact ⟨r, eq_ok_of_toOption hr⟩

def someEvent : EpollEvent := ⟨1, 7⟩

def watchCalls : List Call :=
  [.epollCreate1 none, .eventfd2 0 none, .epollCtl 3 .add 4 someEvent none]

/-- An epoll descriptor at 3 that watches the eventfd at 4. -/
def watching : Fs := evaluate (runCalls Fs.call? (kmFsInit 727 0 [] plainHost) watchCalls)

theorem epoll_lists_mirror_kernel_watching : (watching.files 3).events ≠ [] ∧
      (watching.files 3).events = (watching.host.interest 1).map Interest.mirrored ∧
        watching.call (.epollCtl 3 .add 4 someEvent none) ≠ .error .event := by
  have hkeeps : ∀ c ∈ watchCalls, ∀ t t' : Fs, t.call? c = some t' →
      ((callSystem 727).restrict fun s c _ => s.keepsSets c).step t c t' := by
    intro c hc t t' ht
    refine ⟨call?_step ht, ?_⟩
    simp only [watchCalls, mem_cons, not_mem_nil, or_false] at hc
    rcases hc with rfl | rfl | rfl <;> trivial
  have hrun : runCalls Fs.call? (kmFsInit 727 0 [] plainHost) watchCalls = some watching :=
    eq_eval
  have hreach := Reach.runCalls_of_mem hkeeps (Reach.init plainHost_init) hrun
  rcases epoll_lists_mirror_kernel 727 watching hreach with ⟨hlists, hcalls⟩
  refine ⟨by decide +kernel, hlists 3 1 ?_ ?_ ?_, hcalls _ trivial⟩
  · decide +kernel
  · decide +kernel
  · decide +kernel

def staleClosed : Fs := evaluate (watching.call? (.close 4))

def staleReused : Fs := evaluate (staleClosed.call? (.eventfd2 0 none))

/-- Closing a watched descriptor takes it out of the kernel's set, not out of the list; when its
number is used again, adding it fails the assertion of `km_fs_event_add`. -/
theorem stale_event_aborts : Reach (callSystem 727) staleClosed ∧ staleClosed.host.fds 3 = some 1 ∧
      (staleClosed.host.descs 1).object = .epoll ∧ staleClosed.host.interest 1 = [] ∧
        (staleClosed.files 3).events = [⟨4, someEvent⟩] ∧
          (callSystem 727).step staleClosed (.eventfd2 0 none) staleReused ∧
            staleReused.call (.epollCtl 3 .add 4 someEvent none) = .error .event := by
  have hwatch : Reach (callSystem 727) watching :=
    Reach.runCalls (fun _ _ _ h => call?_step h) (Reach.init plainHost_init)
      eq_eval
  have hclosed : (callSystem 727).step watching (.close 4) staleClosed :=
    call?_step eq_eval
  refine ⟨Reach.step hwatch hclosed, ?_, ?_, ?_, ?_, call?_step eq_eval, ?_⟩
  · decide +kernel
  · decide +kernel
  · decide +kernel
  · decide +kernel
  · exact eq_error_of_errorOf (by decide +kernel)

end KontainMonitor.Files
