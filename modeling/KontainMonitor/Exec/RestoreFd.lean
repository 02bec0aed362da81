import KontainMonitor.Exec.SaveFd

/-!
# RestoreFd — what the new monitor reads of the saved descriptors

A record that has its closing brace is read back as one entry, whatever follows it.  The record of an
eventfd without events has none; the reader then takes the records behind it for events, until the end
of the text or the end of a record with events.
-/

namespace KontainMonitor.Exec

open Files List Scan

/-! ## Characters of a record -/

@[simp] theorem open_not_mem_showDec (i : Int) : '{' ∉ showDec i := not_mem_showDec i
@[simp] theorem close_not_mem_showDec (i : Int) : '}' ∉ showDec i := not_mem_showDec i
@[simp] theorem comma_not_mem_showHex (n : Nat) : ',' ∉ showHex n := not_mem_showHex n
@[simp] theorem open_not_mem_showHex (n : Nat) : '{' ∉ showHex n := not_mem_showHex n
@[simp] theorem close_not_mem_showHex (n : Nat) : '}' ∉ showHex n := not_mem_showHex n

theorem not_mem_kmBin2hex {c : Char} (bin : List Byte)
    (hc : ∀ d, d < 16 → d.digitChar ≠ c := by decide) : c ∉ kmBin2hex bin := by
  intro hmem
  rcases mem_flatMap.1 hmem with ⟨b, -, hb⟩
  simp only [mem_cons, not_mem_nil, or_false] at hb
  rcases hb with hb | hb
  · exact hc (b.toNat / 16) (by omega) hb.symm
  · exact hc (b.toNat % 16) (by omega) hb.symm

@[simp] theorem comma_not_mem_kmBin2hex (bin : List Byte) : ',' ∉ kmBin2hex bin :=
  not_mem_kmBin2hex bin

@[simp] theorem close_not_mem_kmBin2hex (bin : List Byte) : '}' ∉ kmBin2hex bin :=
  not_mem_kmBin2hex bin

theorem kmHex2bin_kmBin2hex (bin : List Byte) : kmHex2bin (kmBin2hex bin) = bin := by
  induction bin with
  | nil => rfl
  | cons b bin ih =>
    have hhigh := digitVal_digitChar (b.toNat / 16) (by omega)
    have hlow := digitVal_digitChar (b.toNat % 16) (by omega)
    have hcons : kmBin2hex (b :: bin) =
        (b.toNat / 16).digitChar :: (b.toNat % 16).digitChar :: kmBin2hex bin := rfl
    rw [hcons, kmHex2bin, hhigh, hlow]
    simp only [ih]
    congr 1
    have hval : b.toNat / 16 * 16 + b.toNat % 16 = b.toNat := by omega
    simp [hval]

@[simp] theorem scan_dec_comma (ds : List Dir) (i : Int) (rest : Text) :
    scan (.dec :: ds) (showDec i ++ ',' :: rest) = i :: scan ds (',' :: rest) :=
  scan_dec ds i Ends.cons

@[simp] theorem scan_dec_close (ds : List Dir) (i : Int) (rest : Text) :
    scan (.dec :: ds) (showDec i ++ '}' :: rest) = i :: scan ds ('}' :: rest) :=
  scan_dec ds i Ends.cons

@[simp] theorem scan_hex_comma (ds : List Dir) (n : Nat) (rest : Text) :
    scan (.hex :: ds) (showHex n ++ ',' :: rest) = (n : Int) :: scan ds (',' :: rest) :=
  scan_hex ds n Ends.cons

@[simp] theorem scan_hex_close (ds : List Dir) (n : Nat) (rest : Text) :
    scan (.hex :: ds) (showHex n ++ '}' :: rest) = (n : Int) :: scan ds ('}' :: rest) :=
  scan_hex ds n Ends.cons

theorem lastField_append {u v : Text} (h : ',' ∉ v) : lastField (u ++ ',' :: v) = v := by
  have hv : ∀ c ∈ v.reverse, (c != ',') := by
    intro c hc
    simp only [mem_reverse] at hc
    simp only [bne_iff_ne]
    rintro rfl
    exact h hc
  rw [lastField, reverse_append, reverse_cons, append_assoc,
    takeWhile_append_of_pos hv]
  simp

/-- What stands between the last comma and the first closing brace. -/
theorem lastField_before_close {u v : Text} (hu : '}' ∉ u) (hv : '}' ∉ v) (hcomma : ',' ∉ v)
    (rest : Text) :
    lastField ((u ++ ',' :: (v ++ '}' :: rest)).takeWhile fun c => c != '}') = v := by
  have hbody : ∀ c ∈ u ++ ',' :: v, (c != '}') := by
    intro c hc
    simp only [bne_iff_ne]
    rintro rfl
    simp [hu, hv] at hc
  have hshape : u ++ ',' :: (v ++ '}' :: rest) = (u ++ ',' :: v) ++ '}' :: rest := by simp
  rw [hshape, takeWhile_append_of_pos hbody]
  simpa using lastField_append hcomma

/-! ## Records with their closing brace -/

def Closed (r : Text) : Prop := ∃ body, r = body ++ ['}'] ∧ '}' ∉ body

theorem Closed.strchr {r : Text} (h : Closed r) (rest : Text) :
    strchr '}' (r ++ rest) = some ('}' :: rest) := by
  rcases h with ⟨body, rfl, hbody⟩
  rw [append_assoc, strchr_append hbody, singleton_append, strchr_cons_self]

theorem closed_fileText (tag fd : Nat) (file : KmFile) (last : Int) :
    Closed (fileText tag fd file last) :=
  ⟨'{' :: (showHex tag ++ ',' :: (showDec fd ++ ',' :: (showDec (howCode file.how) ++ ',' ::
    (showHex file.flags ++ ',' :: showDec last)))), by simp [fileText], by simp⟩

theorem closed_socketpairText (fd : Nat) (file : KmFile) : Closed (socketpairText fd file) :=
  ⟨'{' :: (showDec 2 ++ ',' :: (showDec fd ++ ',' :: (showDec (howCode file.how) ++ ',' ::
    showDec file.ofd))), by simp [socketpairText], by simp⟩

theorem closed_socketText (fd : Nat) (file : KmFile) (sock : SockInfo) :
    Closed (socketText fd file sock) :=
  ⟨'{' :: (showHex 3 ++ ',' :: (showDec fd ++ ',' :: (showDec (howCode file.how) ++ ',' ::
    (showDec (stateCode sock.state) ++ ',' :: (showDec sock.backlog ++ ',' :: (showDec file.ofd ++
      ',' :: kmBin2hex sock.addr)))))), by simp [socketText], by simp⟩

/-- The start of every record. -/
theorem scan_tag (tag : Nat) (rest : Text) :
    scan [.lit '{', .hex, .lit ','] ('{' :: (showHex tag ++ ',' :: rest)) = [(tag : Int)] := by
  simp

theorem strchr_tag (tag : Nat) (rest : Text) :
    strchr ',' ('{' :: (showHex tag ++ ',' :: rest)) = some (',' :: rest) := by
  rw [strchr, if_neg (by decide), strchr_append (comma_not_mem_showHex tag), strchr_cons_self]

section

variable {k : Kernel} {t : ExecFds} {fd : Nat} {file : KmFile}
variable {name : Name} {type domain protocol : Nat}

theorem kmExecGetFilePointer_ok (h : fd < t.nfdmap) : kmExecGetFilePointer t fd = .ok fd := by
  rw [kmExecGetFilePointer, if_neg (by omega), if_neg (by omega)]
  rfl

def readEntry (k : Kernel) (fd : Nat) (file : KmFile) : KmFile :=
  if file.how = .eventfd then
    { KmFile.zero with
      inuse := true, how := .eventfd, flags := file.flags, ofd := -1, events := file.events
      name := k.link fd }
  else
    match file.sockinfo with
    | none =>
      if k.isFifo fd = some true then
        { KmFile.zero with
          inuse := true, how := file.how, flags := file.flags, ofd := file.ofd, name := k.link fd }
      else
        { KmFile.zero with
          inuse := true, how := file.how, flags := file.flags, ofd := -1, ops := file.ops
          name := restoredName k fd }
    | some sock =>
      match k.sockopts fd with
      | none => KmFile.zero
      | some (type, domain, protocol) =>
        { KmFile.zero with
          inuse := true, how := file.how, ofd := file.ofd, name := k.link fd
          sockinfo := some
            (if file.how = .socketpair0 ∨ file.how = .socketpair1 then
              ⟨.connect, 0, domain, type, protocol, []⟩
            else ⟨sock.state, sock.backlog, domain, type, protocol, sock.addr⟩) }

theorem restoreRecord_pipe (hlt : fd < t.nfdmap) (hzero : t.files fd = KmFile.zero) (rest : Text) :
    restoreRecord k t (fileText 1 fd file file.ofd ++ rest) =
      .ok (some (t.setFile fd { KmFile.zero with
        inuse := true, how := file.how, flags := file.flags, ofd := file.ofd, name := k.link fd },
        fileText 1 fd file file.ofd ++ rest)) := by
  have hshape : fileText 1 fd file file.ofd ++ rest = '{' :: (showHex 1 ++ ',' :: (showDec fd ++
      ',' :: (showDec (howCode file.how) ++ ',' :: (showHex file.flags ++ ',' ::
        (showDec file.ofd ++ '}' :: rest))))) := by
    simp [fileText]
  rw [hshape, restoreRecord, scan_tag, strchr_tag]
  simp [restorePipeRecord, Except.map, kmExecRestorePipe, kmExecGetFilePointer_ok hlt,
    howOf_howCode, known, hzero, bind, Except.bind, pure, Except.pure, KmFile.zero]

theorem kmFilenameTableLine_ops (ops : Option Nat) :
    (if 0 ≤ kmFilenameTableLine ops then some (kmFilenameTableLine ops).toNat else none) = ops := by
  cases ops <;> simp [kmFilenameTableLine]

section

variable (hlt : fd < t.nfdmap) (hzero : t.files fd = KmFile.zero)
include hlt hzero

theorem restoreRecord_file (rest : Text) :
    restoreRecord k t (fileText 0 fd file (kmFilenameTableLine file.ops) ++ rest) =
      .ok (some (t.setFile fd { KmFile.zero with
        inuse := true, how := file.how, flags := file.flags, ofd := -1, ops := file.ops
        name := restoredName k fd },
        fileText 0 fd file (kmFilenameTableLine file.ops) ++ rest)) := by
  have hshape : fileText 0 fd file (kmFilenameTableLine file.ops) ++ rest =
      '{' :: (showHex 0 ++ ',' :: (showDec fd ++ ',' :: (showDec (howCode file.how) ++ ',' ::
        (showHex file.flags ++ ',' :: (showDec (kmFilenameTableLine file.ops) ++ '}' :: rest))))) := by
    simp [fileText]
  have hops := kmFilenameTableLine_ops file.ops
  rw [hshape, restoreRecord, scan_tag, strchr_tag]
  simp [restoreFileRecord, Except.map, kmExecRestoreFile, kmExecGetFilePointer_ok hlt,
    howOf_howCode, known, hzero, bind, Except.bind, pure, Except.pure, KmFile.zero, hops]

section

variable (hlink : k.link fd = some name) (hopts : k.sockopts fd = some (type, domain, protocol))
include hlink hopts

/-- A socket, when the kernel answers for it. -/
theorem restoreSocket_ok {how : How} {state : SockState} {backlog ofd : Int} {addr : List Byte} :
    restoreSocket k t fd how state backlog ofd addr = .ok (true, t.setFile fd { KmFile.zero with
      inuse := true, how := how, ofd := ofd, name := some name
      sockinfo := some ⟨state, backlog, domain, type, protocol, addr⟩ }) := by
  simp [restoreSocket, kmExecGetFilePointer_ok hlt, hlink, hopts, hzero, bind, Except.bind, pure,
    Except.pure, KmFile.zero]

theorem restoreRecord_socketpair (rest : Text) :
    restoreRecord k t (socketpairText fd file ++ rest) =
      .ok (some (t.setFile fd { KmFile.zero with
        inuse := true, how := file.how, ofd := file.ofd, name := some name
        sockinfo := some ⟨.connect, 0, domain, type, protocol, []⟩ },
        socketpairText fd file ++ rest)) := by
  have htag : showDec 2 = showHex 2 := by decide
  have hshape : socketpairText fd file ++ rest = '{' :: (showHex 2 ++ ',' :: (showDec fd ++
      ',' :: (showDec (howCode file.how) ++ ',' :: (showDec file.ofd ++ '}' :: rest)))) := by
    simp [socketpairText, htag]
  rw [hshape, restoreRecord, scan_tag, strchr_tag]
  simp [restoreSocketpairRecord, Except.map, restoreSocket_ok hlt hzero hlink hopts,
    howOf_howCode, known, bind, Except.bind, pure, Except.pure]

theorem restoreRecord_socket {sock : SockInfo} (rest : Text) :
    restoreRecord k t (socketText fd file sock ++ rest) = .ok (some (t.setFile fd { KmFile.zero with
        inuse := true, how := file.how, ofd := file.ofd, name := some name
        sockinfo := some ⟨sock.state, sock.backlog, domain, type, protocol, sock.addr⟩ },
        socketText fd file sock ++ rest)) := by
  have hshape : socketText fd file sock ++ rest = '{' :: (showHex 3 ++ ',' :: (showDec fd ++ ',' ::
      (showDec (howCode file.how) ++ ',' :: (showDec (stateCode sock.state) ++ ',' ::
        (showDec sock.backlog ++ ',' :: (showDec file.ofd ++ ',' :: (kmBin2hex sock.addr ++
          '}' :: rest))))))) := by
    simp [socketText]
  have hfield := lastField_before_close (u := showDec fd ++ ',' :: (showDec (howCode file.how) ++
    ',' :: (showDec (stateCode sock.state) ++ ',' :: (showDec sock.backlog ++ ',' ::
      showDec file.ofd)))) (v := kmBin2hex sock.addr) (by simp) (by simp) (by simp) rest
  have hclose := strchr_append (c := '}') (u := showDec fd ++ ',' :: (showDec (howCode file.how) ++
    ',' :: (showDec (stateCode sock.state) ++ ',' :: (showDec sock.backlog ++ ',' ::
      (showDec file.ofd ++ ',' :: kmBin2hex sock.addr))))) (v := '}' :: rest) (by simp)
  simp only [append_assoc, cons_append] at hfield hclose
  rw [hshape, restoreRecord, scan_tag, strchr_tag]
  simp [restoreSocketRecord, Except.map, restoreSocket_ok hlt hzero hlink hopts, howOf_howCode,
    stateOf_stateCode, known, bind, Except.bind, pure, Except.pure, hfield, kmHex2bin_kmBin2hex,
    hclose]

end

end

/-! ## Events -/

theorem restoreEvents_stop {n : Nat} {events : List FsEvent} {q : Text} (h : q.head? ≠ some ',') :
    restoreEvents n events q = some (events, q) := by
  cases q with
  | nil => cases n <;> rfl
  | cons c q =>
    have hc : c ≠ ',' := fun hc => h (by simp [hc])
    unfold restoreEvents
    split
    next heq =>
      exact absurd (List.cons.inj heq).1 hc
    next heq =>
      exact absurd (List.cons.inj heq).1 hc
    · rfl

/-- The reader at an event. -/
theorem restoreEvents_event (n : Nat) (events : List FsEvent) (e : FsEvent) (rest : Text) :
    restoreEvents (n + 1) events (eventText e ++ rest) = restoreEvents n (events ++ [e]) rest := by
  have hshape : eventText e ++ rest = ',' :: '{' :: (showDec e.fd ++ ',' ::
      (showHex e.event.events ++ ',' :: (showHex e.event.data ++ '}' :: rest))) := by
    simp [eventText]
  have hclose : strchr '}' ('{' :: (showDec e.fd ++ ',' :: (showHex e.event.events ++ ',' ::
      (showHex e.event.data ++ '}' :: rest)))) = some ('}' :: rest) := by
    have hbody : '}' ∉ '{' :: (showDec e.fd ++ ',' :: (showHex e.event.events ++ ',' ::
        showHex e.event.data)) := by simp
    have := strchr_append (v := '}' :: rest) hbody
    simpa using this
  rw [hshape, restoreEvents]
  simp only [scan_lit, scan_dec_comma, scan_hex_comma, scan_hex_close, scan_nil, hclose,
    Int.toNat_natCast, tail_cons]

theorem restoreEvents_all (es : List FsEvent) (rest : Text) :
    ∀ (n : Nat) (events : List FsEvent), es.length ≤ n →
      restoreEvents n events (es.flatMap eventText ++ '}' :: rest) =
        some (events ++ es, '}' :: rest) := by
  induction es with
  | nil =>
    intro n events _
    rw [flatMap_nil, nil_append, append_nil]
    exact restoreEvents_stop (by simp)
  | cons e es ih =>
    intro n events hn
    rw [length_cons] at hn
    cases n with
    | zero => omega
    | succ n =>
      rw [flatMap_cons, append_assoc, restoreEvents_event, ih n _ (by omega)]
      simp

/-! ## Records of eventfds -/

def eventfdHead (fd : Nat) (file : KmFile) : Text :=
  '{' :: (showHex 4 ++ ',' :: (showDec fd ++ ',' :: showHex file.flags))

theorem eventfdText_eq (fd : Nat) (file : KmFile) :
    eventfdText fd file = eventfdHead fd file ++ eventsText file.events := by
  simp [eventfdText, eventfdHead]

def eventfdEntry (k : Kernel) (fd : Nat) (file : KmFile) (events : List FsEvent) : KmFile :=
  { KmFile.zero with
    inuse := true, how := .eventfd, flags := file.flags, ofd := -1, events := events
    name := k.link fd }

/-- Neither brace occurs among the numbers of the head. -/
theorem head_no_brace (fd : Nat) (file : KmFile) :
    ∀ c ∈ showDec fd ++ ',' :: showHex file.flags, (c != '{' && c != '}') := by
  intro c hc
  have hopen : c ≠ '{' := by
    rintro rfl
    simp at hc
  have hclose : c ≠ '}' := by
    rintro rfl
    simp at hc
  simp [hopen, hclose]

/-- The reader at the head of an eventfd's record with nothing behind it. -/
theorem restoreRecord_head_nil : restoreRecord k t (eventfdHead fd file) = .ok none := by
  have hscan : scan [.dec, .lit ',', .hex] (showDec fd ++ ',' :: showHex file.flags) =
      [(fd : Int), (file.flags : Int)] := by
    have hhex := scan_hex [] file.flags Ends.nil
    rw [append_nil] at hhex
    rw [scan_dec_comma, scan_lit, hhex, scan_nil]
  have hnone : (showDec fd ++ ',' :: showHex file.flags).dropWhile
      (fun c => c != '{' && c != '}') = [] := by
    rw [← append_nil (showDec fd ++ ',' :: showHex file.flags),
      dropWhile_append_of_pos (head_no_brace fd file)]
    rfl
  rw [eventfdHead, restoreRecord, scan_tag, strchr_tag]
  simp [restoreEventfdRecord, hscan, hnone]

/-- The reader at the head of an eventfd's record takes what follows for its events. -/
theorem restoreRecord_head (hlt : fd < t.nfdmap) (hzero : t.files fd = KmFile.zero) (y : Text) :
    restoreRecord k t (eventfdHead fd file ++ ',' :: '{' :: y) =
      match restoreEvents (y.length + 2) [] (',' :: '{' :: y) with
      | some (events, '}' :: r) =>
        .ok (some (t.setFile fd (eventfdEntry k fd file events), '}' :: r))
      | _ => .ok none := by
  have hshape : eventfdHead fd file ++ ',' :: '{' :: y = '{' :: (showHex 4 ++ ',' :: (showDec fd ++
      ',' :: (showHex file.flags ++ ',' :: '{' :: y))) := by
    simp [eventfdHead]
  have hcomma : List.takeWhile (fun c => c != '{' && c != '}') (',' :: '{' :: y) = [','] := by
    simp [List.takeWhile]
  have hopen : List.dropWhile (fun c => c != '{' && c != '}') (',' :: '{' :: y) = '{' :: y := by
    simp [List.dropWhile]
  have htake : (showDec fd ++ ',' :: (showHex file.flags ++ ',' :: '{' :: y)).takeWhile
      (fun c => c != '{' && c != '}') = showDec fd ++ ',' :: (showHex file.flags ++ [',']) := by
    rw [show showDec fd ++ ',' :: (showHex file.flags ++ ',' :: '{' :: y) =
      (showDec fd ++ ',' :: showHex file.flags) ++ ',' :: '{' :: y by simp,
      takeWhile_append_of_pos (head_no_brace fd file), hcomma]
    simp
  have hdrop : (showDec fd ++ ',' :: (showHex file.flags ++ ',' :: '{' :: y)).dropWhile
      (fun c => c != '{' && c != '}') = '{' :: y := by
    rw [show showDec fd ++ ',' :: (showHex file.flags ++ ',' :: '{' :: y) =
      (showDec fd ++ ',' :: showHex file.flags) ++ ',' :: '{' :: y by simp,
      dropWhile_append_of_pos (head_no_brace fd file), hopen]
  have hlast : (showDec fd ++ ',' :: (showHex file.flags ++ [','])).getLast? = some ',' := by
    have hend : showDec fd ++ ',' :: (showHex file.flags ++ [',']) =
        (showDec fd ++ ',' :: showHex file.flags) ++ [','] := by simp
    rw [hend, List.getLast?_concat]
  have hrecord : restoreRecord k t ('{' :: (showHex 4 ++ ',' :: (showDec fd ++ ',' ::
      (showHex file.flags ++ ',' :: '{' :: y)))) =
        restoreEventfdRecord k t (showDec fd ++ ',' :: (showHex file.flags ++ ',' :: '{' :: y)) := by
    rw [restoreRecord, scan_tag, strchr_tag]
    rfl
  have hevents : eventsOf (showDec fd ++ ',' :: (showHex file.flags ++ [','])) ('{' :: y) =
      restoreEvents (y.length + 2) [] (',' :: '{' :: y) := by
    rw [eventsOf, if_pos hlast]
    rfl
  have hnew : kmExecRestoreEventfd k t fd file.flags =
      .ok (fd, t.setFile fd (eventfdEntry k fd file [])) := by
    simp [kmExecRestoreEventfd, kmExecGetFilePointer_ok hlt, hzero, bind, Except.bind, pure,
      Except.pure, eventfdEntry, KmFile.zero]
  have hset : ∀ events, (t.setFile fd (eventfdEntry k fd file [])).setFile fd
      { (t.setFile fd (eventfdEntry k fd file [])).files fd with events := events } =
        t.setFile fd (eventfdEntry k fd file events) := by
    intro events
    simp [ExecFds.setFile, eventfdEntry]
  rw [hshape, hrecord, restoreEventfdRecord]
  simp only [scan_dec_comma, scan_lit, scan_hex_comma, scan_nil, htake, hdrop, hevents, hnew]
  rw [if_neg (by simp)]
  simp only [bind, Except.bind]
  generalize restoreEvents (y.length + 2) [] (',' :: '{' :: y) = found
  split
  · simp only [hset, pure, Except.pure]
  · simp_all

end

end KontainMonitor.Exec
