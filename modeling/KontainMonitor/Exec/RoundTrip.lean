import KontainMonitor.Exec.RestoreFd
import KontainMonitor.Files.Resumed

/-!
# RoundTrip — which descriptor tables survive an `execve`

The loop of the reader over the records of the writer.  Whole records are read one by one; behind the
head of an eventfd without events the reader swallows records, and goes on after one of them.
-/

namespace KontainMonitor.Exec

open Files Function List Option Scan

structure StaysOpen (k : Kernel) (fd : Nat) (file : KmFile) : Prop where
  fstat : (k.isFifo fd).isSome
  link : (k.link fd).isSome
  sockopts : file.sockinfo.isSome → (k.sockopts fd).isSome

/-- The record of the descriptor has its closing brace. -/
def Whole (file : KmFile) : Prop := file.how = .eventfd → file.events ≠ []

theorem strchr_eq_some {c : Char} {s r : Text} (h : strchr c s = some r) :
    ∃ rest, r = c :: rest := by
  induction s with
  | nil => simp [strchr] at h
  | cons d s ih =>
    rw [strchr] at h
    split at h
    next hd =>
      exact ⟨s, by rw [← some.inj h, hd]⟩
    · exact ih h

theorem length_le_flatMap {α β : Type} (f : α → List β) (hf : ∀ a, f a ≠ []) (l : List α) :
    l.length ≤ (l.flatMap f).length := by
  induction l with
  | nil => exact Nat.le_refl 0
  | cons a l ih =>
    have := length_pos_iff.2 (hf a)
    rw [flatMap_cons, length_append, length_cons]
    omega

/-! ## Events read from any text -/

/-- One round of the loop over the events. -/
theorem restoreEvents_comma (n : Nat) (events : List FsEvent) (q : Text) :
    restoreEvents (n + 1) events (',' :: q) = none ∨ ∃ e r, strchr '}' q = some ('}' :: r) ∧
        restoreEvents (n + 1) events (',' :: q) = restoreEvents n (events ++ [e]) r := by
  rw [restoreEvents]
  split
  next fd ev data _ =>
    cases hclose : strchr '}' q with
    | none => exact .inl rfl
    | some r =>
      rcases strchr_eq_some hclose with ⟨rest, rfl⟩
      exact .inr ⟨_, rest, rfl, rfl⟩
  · exact .inl rfl

variable {n : Nat} {file : KmFile}
variable {s : Fs} {es : List FsEvent}

theorem restoreEvents_length :
    ∀ {events found : List FsEvent} {q p : Text}, restoreEvents n events q = some (found, p) →
      events.length ≤ found.length ∧ (q.head? = some ',' → events.length < found.length) := by
  induction n with
  | zero =>
    intro events found q p h
    by_cases hq : q.head? = some ','
    · rcases List.head?_eq_some_iff.1 hq with ⟨q', rfl⟩
      simp [restoreEvents] at h
    · rw [restoreEvents_stop hq, some_mk_inj] at h
      exact ⟨by rw [h.1], fun hq' => absurd hq' hq⟩
  | succ n ih =>
    intro events found q p h
    by_cases hq : q.head? = some ','
    · rcases List.head?_eq_some_iff.1 hq with ⟨q', rfl⟩
      rcases restoreEvents_comma n events q' with hnone | ⟨e, r, -, hstep⟩
      · rw [hnone] at h
        cases h
      rw [hstep] at h
      have := (ih h).1
      rw [length_append, length_singleton] at this
      exact ⟨by omega, fun _ => by omega⟩
    · rw [restoreEvents_stop hq, some_mk_inj] at h
      exact ⟨by rw [h.1], fun hq' => absurd hq' hq⟩

theorem restoreEvents_rest {rest : Text} : ∀ {n : Nat} {events found : List FsEvent} {p : Text},
      restoreEvents n events (es.flatMap eventText ++ '}' :: rest) = some (found, p) →
        p = '}' :: rest := by
  induction es with
  | nil =>
    intro n events found p h
    rw [flatMap_nil, nil_append, restoreEvents_stop (by simp)] at h
    exact (Prod.mk.inj (some.inj h)).2.symm
  | cons e es ih =>
    intro n events found p h
    rw [flatMap_cons, append_assoc] at h
    cases n with
    | zero => simp [eventText, restoreEvents] at h
    | succ n =>
      rw [restoreEvents_event] at h
      exact ih h

section

variable {k : Kernel} {files : Nat → KmFile} {t : ExecFds} {fd : Nat} {fds : List Nat}

/-! ## The text that is written -/

def record (k : Kernel) (files : Nat → KmFile) (fd : Nat) : Text :=
  (recordText k fd (files fd)).getD []

/-- The records behind the first one, each with its comma. -/
def tailText (k : Kernel) (files : Nat → KmFile) (fds : List Nat) : Text :=
  fds.flatMap fun fd => ',' :: record k files fd

/-- The value of the variable. -/
def joined (k : Kernel) (files : Nat → KmFile) (fds : List Nat) : Text :=
  join (fds.map (record k files))

theorem tailText_cons : tailText k files (fd :: fds) =
    ',' :: (record k files fd ++ tailText k files fds) := by
  rw [tailText, flatMap_cons, cons_append]
  rfl

theorem joined_cons : joined k files (fd :: fds) = record k files fd ++ tailText k files fds := by
  rw [joined, map_cons, join, flatMap_map]
  rfl

theorem dropComma_tailText (fds : List Nat) : dropComma (tailText k files fds) = joined k files fds := by
  cases fds with
  | nil => rfl
  | cons fd fds => rw [tailText_cons, joined_cons, dropComma]

theorem record_eventfd (hhow : (files fd).how = .eventfd) :
    record k files fd = eventfdText fd (files fd) := by
  rw [record, recordText, if_pos hhow, getD_some]

theorem record_plain {fifo : Bool} (hhow : (files fd).how ≠ .eventfd)
    (hsock : (files fd).sockinfo = none) (hfifo : k.isFifo fd = some fifo) :
    record k files fd = if fifo then fileText 1 fd (files fd) (files fd).ofd
      else fileText 0 fd (files fd) (kmFilenameTableLine (files fd).ops) := by
  simp only [record, recordText, if_neg hhow, hsock, hfifo, map_some, getD_some]

theorem record_socket {sock : SockInfo} (hhow : (files fd).how ≠ .eventfd)
    (hsock : (files fd).sockinfo = some sock) : record k files fd =
      if (files fd).how = .socketpair0 ∨ (files fd).how = .socketpair1 then
        socketpairText fd (files fd) else socketText fd (files fd) sock := by
  simp only [record, recordText, if_neg hhow, hsock]
  split <;> rfl

/-- A record of another kind than an eventfd is closed by its only closing brace. -/
theorem record_closed (hopen : StaysOpen k fd (files fd)) (hhow : (files fd).how ≠ .eventfd) :
    (∃ q, record k files fd = '{' :: q) ∧ Closed (record k files fd) := by
  cases hsock : (files fd).sockinfo with
  | none =>
    rcases isSome_iff_exists.1 hopen.fstat with ⟨fifo, hfifo⟩
    rw [record_plain hhow hsock hfifo]
    cases fifo
    · exact ⟨⟨_, rfl⟩, closed_fileText ..⟩
    · exact ⟨⟨_, rfl⟩, closed_fileText ..⟩
  | some sock =>
    rw [record_socket hhow hsock]
    split
    · exact ⟨⟨_, rfl⟩, closed_socketpairText ..⟩
    · exact ⟨⟨_, rfl⟩, closed_socketText ..⟩

/-- The three shapes of a record: closed by its only closing brace, with events, and the head of an
eventfd alone. -/
theorem record_shapes (hopen : StaysOpen k fd (files fd)) : (∃ q, record k files fd = '{' :: q) ∧
      (((files fd).how ≠ .eventfd ∧ Closed (record k files fd)) ∨
        (∃ e es, (files fd).events = e :: es ∧ (files fd).how = .eventfd ∧
          record k files fd = eventfdHead fd (files fd) ++ ((e :: es).flatMap eventText ++ ['}'])) ∨
        (¬ Whole (files fd) ∧ record k files fd = eventfdHead fd (files fd))) := by
  by_cases hhow : (files fd).how = .eventfd
  · have htext : record k files fd = eventfdHead fd (files fd) ++ eventsText (files fd).events := by
      rw [record_eventfd hhow, eventfdText_eq]
    refine ⟨⟨_, by rw [htext, eventfdHead, cons_append]⟩, .inr ?_⟩
    cases hevents : (files fd).events with
    | nil =>
      refine .inr ⟨fun h => h hhow hevents, ?_⟩
      rw [htext, hevents, eventsText]
      simp
    | cons e es =>
      refine .inl ⟨e, es, rfl, hhow, ?_⟩
      rw [htext, hevents, eventsText, if_neg (by simp)]
  · rcases record_closed hopen hhow with ⟨hstart, hclosed⟩
    exact ⟨hstart, .inl ⟨hhow, hclosed⟩⟩

theorem close_not_mem_head (fd : Nat) (file : KmFile) : '}' ∉ eventfdHead fd file := by
  simp [eventfdHead]

/-- The first closing brace of a record with events ends its first event. -/
theorem strchr_first_event (fd : Nat) (file : KmFile) (e : FsEvent) (rest : Text) :
    strchr '}' (eventfdHead fd file ++ (eventText e ++ rest)) = some ('}' :: rest) := by
  have hshape : eventfdHead fd file ++ (eventText e ++ rest) =
      (eventfdHead fd file ++ ',' :: '{' :: (showDec e.fd ++ ',' :: (showHex e.event.events ++
        ',' :: showHex e.event.data))) ++ '}' :: rest := by
    simp [eventText]
  rw [hshape, strchr_append (by simp [close_not_mem_head]), strchr_cons_self]

/-! ## Records taken for events -/

/-- The loop over events ends at the end of the text, or at the closing brace of one of the records. -/
def EndsInside (k : Kernel) (files : Nat → KmFile) (fds : List Nat)
    (o : Option (List FsEvent × Text)) : Prop :=
  ∀ found p, o = some (found, p) → p = [] ∨ ∃ post, post <:+ fds ∧ p = '}' :: tailText k files post

theorem EndsInside.cons {o : Option (List FsEvent × Text)} (h : EndsInside k files fds o) :
    EndsInside k files (fd :: fds) o := by
  intro found p ho
  rcases h found p ho with hp | ⟨post, hpost, hp⟩
  · exact .inl hp
  · exact .inr ⟨post, hpost.trans (suffix_cons fd fds), hp⟩

/-- After the first closing brace that is found from a record on. -/
theorem endsInside_skip (hopen : StaysOpen k fd (files fd))
    (hstart : ∀ n events, EndsInside k files fds (restoreEvents n events (tailText k files fds)))
    (hskip : ∀ n events r, strchr '}' (tailText k files fds) = some ('}' :: r) →
      EndsInside k files fds (restoreEvents n events r))
    (n : Nat) (events : List FsEvent) (r : Text)
    (hr : strchr '}' (record k files fd ++ tailText k files fds) = some ('}' :: r)) :
    EndsInside k files (fd :: fds) (restoreEvents n events r) := by
  rcases (record_shapes hopen).2 with ⟨-, hclosed⟩ | ⟨e, es, -, -, htext⟩ | ⟨-, htext⟩
  · rw [hclosed.strchr, some.injEq, List.cons.injEq] at hr
    exact hr.2 ▸ (hstart n events).cons
  · -- the other events of the record follow, and its closing brace ends the loop
    rw [htext, flatMap_cons, append_assoc, append_assoc, append_assoc,
      strchr_first_event, some.injEq, List.cons.injEq] at hr
    intro found p hfound
    rw [← hr.2] at hfound
    exact .inr ⟨fds, suffix_cons fd fds, restoreEvents_rest hfound⟩
  · rw [htext, strchr_append (close_not_mem_head _ _)] at hr
    exact (hskip n events r hr).cons

/-- From the comma in front of a record, and from the first closing brace on. -/
theorem endsInside_tailText (hopen : ∀ fd ∈ fds, StaysOpen k fd (files fd)) :
    (∀ n events, EndsInside k files fds (restoreEvents n events (tailText k files fds))) ∧
      ∀ n events r, strchr '}' (tailText k files fds) = some ('}' :: r) →
        EndsInside k files fds (restoreEvents n events r) := by
  induction fds with
  | nil =>
    refine ⟨?_, ?_⟩
    · intro n events found p h
      rw [tailText, flatMap_nil, restoreEvents_stop (by simp), some.injEq,
        Prod.mk.injEq] at h
      exact .inl h.2.symm
    · intro n events r hr
      simp [tailText, strchr] at hr
  | cons fd fds ih =>
    have hrest := ih fun fd hfd => hopen fd (.tail _ hfd)
    have hskip := endsInside_skip (hopen fd (.head _)) hrest.1 hrest.2
    rw [tailText_cons]
    refine ⟨?_, ?_⟩
    · intro n events
      cases n with
      | zero =>
        intro found p h
        simp [restoreEvents] at h
      | succ n =>
        rcases restoreEvents_comma n events (record k files fd ++ tailText k files fds) with
          hnone | ⟨e, r, hr, hstep⟩
        · intro found p h
          rw [hnone] at h
          cases h
        · rw [hstep]
          exact hskip n _ r hr
    intro n events r hr
    rw [strchr, if_neg (by decide)] at hr
    exact hskip n events r hr

/-! ## One round of the reader -/

/-- The round at the record of an eventfd with events. -/
theorem restoreRecord_events {e : FsEvent} (hhow : (files fd).how = .eventfd)
    (hevents : (files fd).events = e :: es) (hlt : fd < t.nfdmap) (hzero : t.files fd = KmFile.zero)
    (rest : Text) :
    restoreRecord k t (eventfdHead fd (files fd) ++ ((e :: es).flatMap eventText ++ '}' :: rest)) =
      .ok (some (t.setFile fd (readEntry k fd (files fd)), '}' :: rest)) := by
  rcases (⟨_, by rw [flatMap_cons, eventText]; rfl⟩ :
    ∃ y, (e :: es).flatMap eventText ++ '}' :: rest = ',' :: '{' :: y) with ⟨y, hy⟩
  have hlen : (e :: es).length ≤ y.length + 2 := by
    have hcount := length_le_flatMap eventText (by simp [eventText]) (e :: es)
    have htotal := congrArg List.length hy
    simp only [length_append, length_cons] at hcount htotal ⊢
    omega
  rw [hy, restoreRecord_head hlt hzero, ← hy, restoreEvents_all (e :: es) rest _ _ hlen]
  simp [eventfdEntry, readEntry, hhow, hevents]

/-- The round at a whole record. -/
theorem restoreRecord_whole (hopen : StaysOpen k fd (files fd)) (hwhole : Whole (files fd))
    (hlt : fd < t.nfdmap) (hzero : t.files fd = KmFile.zero) (rest : Text) :
    ∃ p, restoreRecord k t (record k files fd ++ rest) =
        .ok (some (t.setFile fd (readEntry k fd (files fd)), p)) ∧
      strchr '}' p = some ('}' :: rest) := by
  by_cases hhow : (files fd).how = .eventfd
  · rcases (record_shapes hopen).2 with ⟨hnot, -⟩ | ⟨e, es, hevents, -, htext⟩ | ⟨hnot, -⟩
    · exact absurd hhow hnot
    · refine ⟨'}' :: rest, ?_, strchr_cons_self⟩
      have := restoreRecord_events (k := k) hhow hevents hlt hzero rest
      rw [htext, append_assoc, append_assoc, singleton_append, this]
    · exact absurd hwhole hnot
  have hclose := (record_closed hopen hhow).2.strchr rest
  refine ⟨_, ?_, hclose⟩
  rcases isSome_iff_exists.1 hopen.link with ⟨name, hlink⟩
  cases hsock : (files fd).sockinfo with
  | none =>
    rcases isSome_iff_exists.1 hopen.fstat with ⟨fifo, hfifo⟩
    rw [record_plain hhow hsock hfifo]
    simp only [readEntry, if_neg hhow, hsock, hfifo]
    cases fifo with
    | true => exact restoreRecord_pipe hlt hzero rest
    | false => exact restoreRecord_file hlt hzero rest
  | some sock =>
    rcases isSome_iff_exists.1 (hopen.sockopts (by rw [hsock]; rfl)) with
      ⟨⟨type, domain, protocol⟩, hopts⟩
    rw [record_socket hhow hsock]
    simp only [readEntry, if_neg hhow, hsock, hopts, hlink]
    split
    · exact restoreRecord_socketpair hlt hzero hlink hopts rest
    · exact restoreRecord_socket hlt hzero hlink hopts rest

theorem restoreLoop_round {n : Nat} {t' : ExecFds} {p p' rest : Text} (hp : p ≠ [])
    (hround : restoreRecord k t p = .ok (some (t', p')))
    (hclose : strchr '}' p' = some ('}' :: rest)) :
    restoreLoop k (n + 1) t p = restoreLoop k n t' (dropComma rest) := by
  rw [restoreLoop.eq_3 k t p n hp, hround]
  simp only [bind, Except.bind, hclose, tail_cons]

theorem restoreLoop_fail {p : Text} (hp : p ≠ []) (hround : restoreRecord k t p = .ok none) :
    restoreLoop k (n + 1) t p = .ok none := by
  rw [restoreLoop.eq_3 k t p n hp, hround]
  rfl

theorem joined_ne_nil (hopen : StaysOpen k fd (files fd)) : joined k files (fd :: fds) ≠ [] := by
  rcases (record_shapes hopen).1 with ⟨q, hq⟩
  rw [joined_cons, hq]
  simp

/-- The loop at a whole record. -/
theorem restoreLoop_whole (hopen : StaysOpen k fd (files fd)) (hwhole : Whole (files fd))
    (hlt : fd < t.nfdmap) (hzero : t.files fd = KmFile.zero) (n : Nat) (fds : List Nat) :
    restoreLoop k (n + 1) t (joined k files (fd :: fds)) =
      restoreLoop k n (t.setFile fd (readEntry k fd (files fd))) (joined k files fds) := by
  rcases restoreRecord_whole hopen hwhole hlt hzero (tailText k files fds) with ⟨p, hround, hclose⟩
  rw [← joined_cons] at hround
  rw [restoreLoop_round (joined_ne_nil hopen) hround hclose, dropComma_tailText]

/-- The loop at the head of an eventfd without events fails, or makes up events and goes on after a
later record. -/
theorem restoreLoop_head (hopen : ∀ fd' ∈ fd :: fds, StaysOpen k fd' (files fd'))
    (hnot : ¬ Whole (files fd)) (hlt : fd < t.nfdmap) (hzero : t.files fd = KmFile.zero) (n : Nat) :
    restoreLoop k (n + 1) t (joined k files (fd :: fds)) = .ok none ∨
      ∃ events post, events ≠ [] ∧ post <:+ fds ∧
        restoreLoop k (n + 1) t (joined k files (fd :: fds)) =
          restoreLoop k n (t.setFile fd (eventfdEntry k fd (files fd) events))
            (joined k files post) := by
  have hne : joined k files (fd :: fds) ≠ [] := joined_ne_nil (hopen fd (.head _))
  have htext : joined k files (fd :: fds) = eventfdHead fd (files fd) ++ tailText k files fds := by
    rw [joined_cons]
    rcases (record_shapes (hopen fd (.head _))).2 with ⟨hhow, -⟩ | ⟨e, es, hes, -, -⟩ | h
    · exact absurd (fun h => absurd h hhow) hnot
    · exact absurd (fun _ => by simp [hes]) hnot
    · rw [h.2]
  cases fds with
  | nil =>
    refine .inl (restoreLoop_fail hne ?_)
    rw [htext, tailText, flatMap_nil, append_nil, restoreRecord_head_nil]
  | cons fd' fds =>
    rcases (record_shapes (hopen fd' (by simp))).1 with ⟨q, hq⟩
    have htail : tailText k files (fd' :: fds) = ',' :: '{' :: (q ++ tailText k files fds) := by
      rw [tailText_cons, hq, cons_append]
    have hround := @restoreRecord_head k t fd (files fd) hlt hzero (q ++ tailText k files fds)
    rw [← htail, ← htext] at hround
    have hinside : EndsInside k files (fd' :: fds)
        (restoreEvents ((q ++ tailText k files fds).length + 2) []
          (tailText k files (fd' :: fds))) :=
      (endsInside_tailText fun fd' hfd' => hopen fd' (.tail _ hfd')).1 _ _
    generalize hfound : restoreEvents ((q ++ tailText k files fds).length + 2) []
      (tailText k files (fd' :: fds)) = found at hinside hround
    split at hround
    next events r =>
      have hlen := (restoreEvents_length hfound).2 (by rw [htail]; rfl)
      rcases hinside events _ rfl with hnil | ⟨post, hpost, hr⟩
      · cases hnil
      · refine .inr ⟨events, post, length_pos_iff.1 hlen, hpost, ?_⟩
        rw [restoreLoop_round hne hround strchr_cons_self, (List.cons.inj hr).2, dropComma_tailText]
    · exact .inl (restoreLoop_fail hne hround)

/-! ## The whole loop -/

theorem setFile_same : (t.setFile fd file).files fd = file :=
  update_self ..

theorem setFile_ne {fd' : Nat} (h : fd' ≠ fd) : (t.setFile fd file).files fd' = t.files fd' :=
  update_of_ne h ..

/-- What the reader's loop starts from: free entries for the descriptors of the text. -/
structure Ready (k : Kernel) (files : Nat → KmFile) (t : ExecFds) (fds : List Nat) : Prop where
  opened : ∀ fd ∈ fds, StaysOpen k fd (files fd)
  below : ∀ fd ∈ fds, fd < t.nfdmap
  zero : ∀ fd ∈ fds, t.files fd = KmFile.zero
  nodup : fds.Nodup

theorem Ready.setFile (h : Ready k files t (fd :: fds)) :
    Ready k files (t.setFile fd file) fds := by
  have hnodup := nodup_cons.1 h.nodup
  refine ⟨fun fd' hfd' => h.opened fd' (.tail _ hfd'),
    fun fd' hfd' => h.below fd' (.tail _ hfd'), ?_, hnodup.2⟩
  intro fd' hfd'
  have hne : fd' ≠ fd := by
    rintro rfl
    exact hnodup.1 hfd'
  rw [setFile_ne hne]
  exact h.zero fd' (.tail _ hfd')

theorem Ready.suffix {post : List Nat} (h : Ready k files t fds) (hpost : post <:+ fds) :
    Ready k files t post :=
  ⟨fun fd hfd => h.opened fd (hpost.subset hfd), fun fd hfd => h.below fd (hpost.subset hfd),
    fun fd hfd => h.zero fd (hpost.subset hfd), h.nodup.sublist hpost.sublist⟩

/-- Whole records are all read. -/
theorem restoreLoop_all (hwhole : ∀ fd ∈ fds, Whole (files fd)) :
    ∀ {n : Nat} {t : ExecFds}, fds.length ≤ n → Ready k files t fds →
      restoreLoop k n t (joined k files fds) = .ok (some
        (fds.foldl (fun t fd => t.setFile fd (readEntry k fd (files fd))) t)) := by
  induction fds with
  | nil =>
    intro n t _ _
    cases n <;> rfl
  | cons fd fds ih =>
    intro n t hn hready
    cases n with
    | zero => simp at hn
    | succ n =>
      rw [length_cons] at hn
      rw [restoreLoop_whole (hready.opened fd (.head _))
        (hwhole fd (.head _)) (hready.below fd (.head _))
        (hready.zero fd (.head _))]
      exact ih (fun fd' hfd' => hwhole fd' (.tail _ hfd')) (by omega) hready.setFile

theorem files_foldl_setFile (entry : Nat → KmFile) (fd : Nat) : ∀ (fds : List Nat) (t : ExecFds),
    (fds.foldl (fun t fd => t.setFile fd (entry fd)) t).files fd =
      if fd ∈ fds then entry fd else t.files fd := by
  intro fds
  induction fds with
  | nil =>
    intro t
    simp
  | cons fd' fds ih =>
    intro t
    rw [foldl_cons, ih]
    by_cases hmem : fd ∈ fds
    · simp [hmem]
    by_cases heq : fd = fd'
    · subst heq
      simp [hmem, setFile_same]
    · simp [hmem, heq, setFile_ne heq]

/-- What a run of the loop that succeeds can leave in an entry: the entry of the record; nothing, when
the record was swallowed; made-up events, when the record is not whole. -/
def Outcome (k : Kernel) (fd : Nat) (file new : KmFile) : Prop :=
  new = KmFile.zero ∨ (Whole file ∧ new = readEntry k fd file) ∨ (¬ Whole file ∧ new.events ≠ [])

theorem restoreLoop_outcome : ∀ {fds : List Nat} {t t' : ExecFds}, Ready k files t fds →
      restoreLoop k n t (joined k files fds) = .ok (some t') →
        ∀ fd, (fd ∉ fds → t'.files fd = t.files fd) ∧
          (fd ∈ fds → Outcome k fd (files fd) (t'.files fd)) := by
  have hnil : ∀ n t, restoreLoop k n t (joined k files []) = .ok (some t) := by
    intro n t
    cases n <;> rfl
  induction n with
  | zero =>
    intro fds t t' hready h fd
    cases fds with
    | nil =>
      rw [hnil, Except.ok.injEq, some.injEq] at h
      simp [h]
    | cons fd' fds =>
      rw [restoreLoop.eq_2 k t _ (joined_ne_nil (hready.opened fd' (.head _)))] at h
      cases h
  | succ n ih =>
    intro fds t t' hready h fd
    cases fds with
    | nil =>
      rw [hnil, Except.ok.injEq, some.injEq] at h
      simp [h]
    | cons fd' fds =>
      have hlt := hready.below fd' (.head _)
      have hzero := hready.zero fd' (.head _)
      have hnotin := (nodup_cons.1 hready.nodup).1
      by_cases hwhole : Whole (files fd')
      · rw [restoreLoop_whole (hready.opened fd' (.head _)) hwhole hlt hzero] at h
        have hrest := ih hready.setFile h
        refine ⟨?_, ?_⟩
        · intro hfd
          rw [mem_cons, not_or] at hfd
          rw [(hrest fd).1 hfd.2, setFile_ne hfd.1]
        intro hfd
        rcases mem_cons.1 hfd with rfl | hfd
        · refine .inr (.inl ⟨hwhole, ?_⟩)
          rw [(hrest fd).1 hnotin, setFile_same]
        · exact (hrest fd).2 hfd
      rcases restoreLoop_head hready.opened hwhole hlt hzero n with
        hfail | ⟨events, post, hevents, hpost, hstep⟩
      · rw [hfail] at h
        cases h
      -- the records between the head and `post` are never read: their entries stay free
      rw [hstep] at h
      have hrest := ih (hready.setFile.suffix hpost) h
      refine ⟨?_, ?_⟩
      · intro hfd
        rw [mem_cons, not_or] at hfd
        rw [(hrest fd).1 fun hin => hfd.2 (hpost.subset hin), setFile_ne hfd.1]
      intro hfd
      rcases mem_cons.1 hfd with rfl | hfd
      · refine .inr (.inr ⟨hwhole, ?_⟩)
        rw [(hrest fd).1 fun hin => hnotin (hpost.subset hin), setFile_same]
        exact hevents
      by_cases hin : fd ∈ post
      · exact (hrest fd).2 hin
      left
      rw [(hrest fd).1 hin]
      exact hready.setFile.zero fd hfd

end

/-! ## The descriptor table -/

/-- The entry is there with what it is to keep. -/
structure Rebuilt (old new : KmFile) : Prop where
  inuse : new.inuse
  how : new.how = old.how
  flags : new.flags = old.flags
  partner : new.ofd = old.ofd
  ops : new.ops = old.ops
  socket : new.sockinfo.map (fun i => (i.state, i.backlog, i.addr)) =
    old.sockinfo.map fun i => (i.state, i.backlog, i.addr)
  events : new.events = old.events

/-- The entries whose record holds everything. -/
def Recorded (k : Kernel) (fd : Nat) (file : KmFile) : Prop :=
  if file.how = .eventfd then
    file.events ≠ [] ∧ file.ofd = -1 ∧ file.ops = none ∧ file.sockinfo = none
  else
    file.events = [] ∧
      match file.sockinfo with
      | none => if k.isFifo fd = some true then file.ops = none else file.ofd = -1
      | some sock =>
        file.flags = 0 ∧ file.ops = none ∧
          (file.how = .socketpair0 ∨ file.how = .socketpair1 →
            sock.state = .connect ∧ sock.backlog = 0 ∧ sock.addr = [])

instance (k : Kernel) (fd : Nat) (file : KmFile) : Decidable (Recorded k fd file) := by
  unfold Recorded
  cases file.sockinfo <;> infer_instance

theorem Recorded.whole {k : Kernel} {fd : Nat} (h : Recorded k fd file) : Whole file := by
  intro hhow
  rw [Recorded, if_pos hhow] at h
  exact h.1

/-- The entry that is read back is the old one exactly for the recorded ones. -/
theorem rebuilt_readEntry_iff {k : Kernel} {fd : Nat} (hopen : StaysOpen k fd file)
    (hwhole : Whole file) : Rebuilt file (readEntry k fd file) ↔ Recorded k fd file := by
  by_cases hhow : file.how = .eventfd
  · have hevents := hwhole hhow
    rw [readEntry, if_pos hhow, Recorded, if_pos hhow]
    constructor
    · intro h
      exact ⟨hevents, h.partner.symm, h.ops.symm, by simpa [KmFile.zero] using h.socket.symm⟩
    · rintro ⟨-, hofd, hops, hsock⟩
      exact ⟨rfl, hhow.symm, rfl, hofd.symm, hops.symm, by rw [hsock]; rfl, rfl⟩
  rw [readEntry, if_neg hhow, Recorded, if_neg hhow]
  cases hsock : file.sockinfo with
  | none =>
    by_cases hfifo : k.isFifo fd = some true
    · simp only [if_pos hfifo]
      constructor
      · intro h
        exact ⟨h.events.symm, h.ops.symm⟩
      · rintro ⟨hevents, hops⟩
        exact ⟨rfl, rfl, rfl, rfl, hops.symm, by rw [hsock]; rfl, hevents.symm⟩
    simp only [if_neg hfifo]
    constructor
    · intro h
      exact ⟨h.events.symm, h.partner.symm⟩
    · rintro ⟨hevents, hofd⟩
      exact ⟨rfl, rfl, rfl, hofd.symm, rfl, by rw [hsock]; rfl, hevents.symm⟩
  | some sock =>
    rcases isSome_iff_exists.1 (hopen.sockopts (by rw [hsock]; rfl)) with
      ⟨⟨type, domain, protocol⟩, hopts⟩
    simp only [hopts]
    by_cases hpair : file.how = .socketpair0 ∨ file.how = .socketpair1
    · simp only [if_pos hpair]
      constructor
      · intro h
        have hstate := h.socket
        rw [hsock] at hstate
        simp only [map_some, some.injEq, Prod.mk.injEq] at hstate
        exact ⟨h.events.symm, h.flags.symm, h.ops.symm, fun _ =>
          ⟨hstate.1.symm, hstate.2.1.symm, hstate.2.2.symm⟩⟩
      rintro ⟨hevents, hflags, hops, hstate⟩
      rcases hstate hpair with ⟨hst, hbacklog, haddr⟩
      exact ⟨rfl, rfl, hflags.symm, rfl, hops.symm, by simp [hsock, hst, hbacklog, haddr],
        hevents.symm⟩
    simp only [if_neg hpair]
    constructor
    · intro h
      exact ⟨h.events.symm, h.flags.symm, h.ops.symm, fun hp => absurd hp hpair⟩
    · rintro ⟨hevents, hflags, hops, -⟩
      exact ⟨rfl, rfl, hflags.symm, rfl, hops.symm, by simp [hsock], hevents.symm⟩

theorem recordText_eq {k : Kernel} {files : Nat → KmFile} {fd : Nat}
    (hopen : StaysOpen k fd (files fd)) :
    recordText k fd (files fd) = some (record k files fd) := by
  have hsome : (recordText k fd (files fd)).isSome := by
    rcases isSome_iff_exists.1 hopen.fstat with ⟨fifo, hfifo⟩
    unfold recordText
    split
    · rfl
    split
    · rw [hfifo]
      rfl
    · split <;> rfl
  rcases isSome_iff_exists.1 hsome with ⟨r, hr⟩
  rw [record, hr, getD_some]

/-- The value that is written. -/
theorem kmExecSaveFd_eq {k : Kernel} (hopen : ∀ fd ∈ savedFds s k, StaysOpen k fd (s.files fd)) :
    kmExecSaveFd s k = some (joined k s.files (savedFds s k)) := by
  have hmap : ∀ fds : List Nat, (∀ fd ∈ fds, StaysOpen k fd (s.files fd)) →
      (fds.mapM fun fd => recordText k fd (s.files fd)) = some (fds.map (record k s.files)) := by
    intro fds
    induction fds with
    | nil =>
      intro _
      rfl
    | cons fd fds ih =>
      intro hopen
      rw [mapM_cons, recordText_eq (hopen fd (.head _)),
        ih fun fd' hfd' => hopen fd' (.tail _ hfd')]
      rfl
  rw [kmExecSaveFd, hmap _ hopen]
  rfl

theorem length_le_joined {k : Kernel} {files : Nat → KmFile} {fds : List Nat}
    (hopen : ∀ fd ∈ fds, StaysOpen k fd (files fd)) : fds.length ≤ (joined k files fds).length := by
  cases fds with
  | nil => exact Nat.zero_le _
  | cons fd fds =>
    rcases (record_shapes (hopen fd (.head _))).1 with ⟨q, hq⟩
    have htail := length_le_flatMap (fun fd => ',' :: record k files fd) (by simp) fds
    rw [joined_cons, hq, length_append, length_cons, length_cons, tailText]
    omega

theorem ready_calloc {k : Kernel} (hopen : ∀ fd ∈ savedFds s k, StaysOpen k fd (s.files fd)) :
    Ready k s.files (ExecFds.calloc s.nfdmap) (savedFds s k) where
  opened := hopen
  below _ hfd := List.mem_range.1 (List.mem_filter.1 hfd).1
  zero _ _ := rfl
  nodup := List.nodup_range.filter _

/-- Where the kernel keeps the saved descriptors open, the new monitor reads back exactly the
entries that were saved, each as it was, if and only if every record holds everything. -/
theorem table_survives_exec_iff (s : Fs) (k : Kernel)
    (hopen : ∀ fd ∈ savedFds s k, StaysOpen k fd (s.files fd)) :
    (∃ value t, kmExecSaveFd s k = some value ∧
        kmExecRestoreFd k (ExecFds.calloc s.nfdmap) value = .ok (some t) ∧
          ∀ fd, if fd ∈ savedFds s k then Rebuilt (s.files fd) (t.files fd)
            else (t.files fd).inuse = false) ↔ ∀ fd ∈ savedFds s k, Recorded k fd (s.files fd) := by
  have hready := ready_calloc hopen
  constructor
  · rintro ⟨value, t, hsave, hrestore, hentries⟩ fd hfd
    rw [kmExecSaveFd_eq hopen, some.injEq] at hsave
    subst hsave
    have hnew := hentries fd
    rw [if_pos hfd] at hnew
    rcases (restoreLoop_outcome hready hrestore fd).2 hfd with hzero | ⟨hwhole, hread⟩ | ⟨hnot, hev⟩
    · -- a swallowed record leaves no entry
      have := hnew.inuse
      rw [hzero] at this
      cases this
    · rw [hread] at hnew
      exact (rebuilt_readEntry_iff (hopen fd hfd) hwhole).1 hnew
    -- made-up events, where there were none
    refine absurd (fun _ hnil => hev ?_) hnot
    rw [hnew.events, hnil]
  intro hrec
  have hrun := restoreLoop_all (fun fd hfd => (hrec fd hfd).whole) (length_le_joined hopen) hready
  refine ⟨_, _, kmExecSaveFd_eq hopen, hrun, fun fd => ?_⟩
  rw [files_foldl_setFile]
  split
  next hfd =>
    exact (rebuilt_readEntry_iff (hopen fd hfd) (hrec fd hfd).whole).2 (hrec fd hfd)
  · rfl

/-! ## Two processes -/

/-- A kernel that closes nothing on `execve`, with a terminal behind every descriptor. -/
def plainKernel (s : Fs) : Kernel where
  getfd fd := (s.host.fds fd).map fun _ => false
  isFifo _ := some false
  link _ := some devPts
  sockopts _ := none

def plainProcess : Fs := kmFsInit 727 0 [] plainHost

/-- A pipe at 3 and 4 and a socket at 5. -/
def pipedProcess : Fs :=
  evaluate (Transition.runCalls Fs.call? plainProcess [.pipe2 0 none, .socket 2 1 0 none])

def pipedKernel : Kernel :=
  { plainKernel pipedProcess with
    isFifo fd := some (fd == 3 || fd == 4)
    sockopts fd := if fd = 5 then some (1, 2, 0) else none }

theorem table_survives_exec_iff_plain :
    savedFds pipedProcess pipedKernel = [0, 1, 2, 3, 4, 5] ∧
      (pipedProcess.files 3).ofd = 4 ∧ (pipedProcess.files 5).sockinfo.isSome ∧
        ∃ value t, kmExecSaveFd pipedProcess pipedKernel = some value ∧
          kmExecRestoreFd pipedKernel (ExecFds.calloc pipedProcess.nfdmap) value = .ok (some t) ∧
            ∀ fd, if fd ∈ savedFds pipedProcess pipedKernel then
              Rebuilt (pipedProcess.files fd) (t.files fd) else (t.files fd).inuse = false := by
  have hsaved : savedFds pipedProcess pipedKernel = [0, 1, 2, 3, 4, 5] := by decide +kernel
  refine ⟨hsaved, by decide +kernel, by decide +kernel,
    (table_survives_exec_iff pipedProcess pipedKernel ?_).2 ?_⟩
  · rw [hsaved]
    have hsock : ∀ fd ∈ [0, 1, 2, 3, 4, 5], (pipedProcess.files fd).sockinfo.isSome →
        (pipedKernel.sockopts fd).isSome := by decide +kernel
    exact fun fd hfd => ⟨rfl, rfl, hsock fd hfd⟩
  rw [hsaved]
  decide +kernel

def withEventfd : Fs := evaluate (plainProcess.call? (.eventfd2 0 none))

def eventfdValue : Text := evaluate (kmExecSaveFd withEventfd (plainKernel withEventfd))

/-- The record of an eventfd has no closing brace: `km_exec_restore_fd` returns `-1` although all
four descriptors stay open. -/
theorem eventfd_record_not_read : savedFds withEventfd (plainKernel withEventfd) = [0, 1, 2, 3] ∧
      (∀ fd ∈ [0, 1, 2, 3], StaysOpen (plainKernel withEventfd) fd (withEventfd.files fd)) ∧
        kmExecSaveFd withEventfd (plainKernel withEventfd) = some eventfdValue ∧
          kmExecRestoreFd (plainKernel withEventfd) (ExecFds.calloc withEventfd.nfdmap)
            eventfdValue = .ok none := by
  have hread : (kmExecRestoreFd (plainKernel withEventfd) (ExecFds.calloc withEventfd.nfdmap)
      eventfdValue).toOption.map isSome = some false := by
    decide +kernel
  refine ⟨by decide +kernel, ?_, eq_eval, ?_⟩
  · intro fd hfd
    simp only [mem_cons, not_mem_nil, or_false] at hfd
    rcases hfd with rfl | rfl | rfl | rfl <;> exact ⟨rfl, rfl, by decide +kernel⟩
  rcases map_eq_some_iff.1 hread with ⟨o, ho, hnone⟩
  cases o with
  | none => exact Outcome.eq_ok_of_toOption ho
  | some t => cases hnone

end KontainMonitor.Exec
