import KontainMonitor.Files.Host
import KontainMonitor.Lib.Transition
import Mathlib

/-!
# IoContexts — the payload's asynchronous io contexts (`km_iocontext.c`)

The payload gets context ids of the monitor's own, and a table maps them to the kernel's.  A history
records which ids were handed out, which of them the payload still holds, and which kernel context
was last created for an id; the ids survive a snapshot, the kernel's contexts do not.  A call that
takes `km_iocmutex` while it is held never returns.
-/

namespace KontainMonitor.IoContexts

open Function List Transition
open Files (Errno EINVAL)

def ENOMEM : Errno := ⟨12, by decide⟩

structure KmIocontext where
  maxevents : BitVec 32
  kcontext : BitVec 64
  pcontext : BitVec 64

/-- The globals of the file; `iocp` are the `km_iocn` entries of the table. -/
structure Iocs where
  iocmutex : Bool
  iocp : List KmIocontext
  piocontext : BitVec 64

def firstPiocontext : BitVec 64 := 0x6b6d000000000000

/-- `km_iocontext_init`. -/
def Iocs.start : Iocs := ⟨false, [], firstPiocontext⟩

/-- The host's answers while a context is made: `io_setup`, and whether `realloc` gives memory. -/
structure SetupCalls where
  ioSetup : Except Errno (BitVec 64)
  realloc : Bool

/-- The result is 0 or an error number. -/
def kmIocontextRecover (s : Iocs) (nrEvents : BitVec 32) (pcontext : BitVec 64) (h : SetupCalls) :
    Option (Nat × Iocs) :=
  match h.ioSetup with
  | .error e => some (e.val, s)
  | .ok iocontext =>
    if s.iocmutex then none
    -- the kernel's context is destroyed again
    else if !h.realloc then some (ENOMEM.val, s)
    else some (0, { s with iocp := s.iocp ++ [⟨nrEvents, iocontext, pcontext⟩] })

/-- The id is stored for the payload before the context exists. -/
def kmIocontextAdd (s : Iocs) (nrEvents : BitVec 32) (h : SetupCalls) :
    Option (Nat × BitVec 64 × Iocs) :=
  let piocontext := s.piocontext + 1
  (kmIocontextRecover { s with piocontext } nrEvents piocontext h).map fun (rc, s) =>
    (rc, piocontext, s)

/-- The host's answers while a context goes: the error of `io_destroy`, if any, and what `memcpy`
leaves of entries that it moves down by one when source and target overlap, which is undefined. -/
structure RemoveCalls where
  ioDestroy : Option Errno
  overlapping : List KmIocontext → List KmIocontext

def behind (pcontext : BitVec 64) (iocp : List KmIocontext) : List KmIocontext :=
  (iocp.dropWhile (·.pcontext != pcontext)).tail

def kmIocontextRemove (s : Iocs) (pcontext : BitVec 64) (h : RemoveCalls) : Option (Nat × Iocs) :=
  if s.iocmutex then none
  else if s.iocp.any (·.pcontext == pcontext) then
    match h.ioDestroy with
    -- this return does not unlock the mutex
    | some e => some (e.val, { s with iocmutex := true })
    | none =>
      let moved := behind pcontext s.iocp
      some (0, { s with iocp := s.iocp.takeWhile (·.pcontext != pcontext) ++
        if moved.length < 2 then moved else h.overlapping moved })
  else some (EINVAL.val, s)

def kmIocontextXlateP2k (s : Iocs) (pcontext : BitVec 64) : Option (Except Errno (BitVec 64)) :=
  if s.iocmutex then none
  else match s.iocp.find? (·.pcontext == pcontext) with
    | some c => some (.ok c.kcontext)
    | none => some (.error EINVAL)

/-- `km_nt_iocontexts_t`; a context is its number of events and its id. -/
structure NtIocontexts where
  piocontext : BitVec 64
  contexts : List (BitVec 32 × BitVec 64)

def kmFsIocontextNotesWrite (s : Iocs) : NtIocontexts :=
  ⟨s.piocontext, s.iocp.map fun c => (c.maxevents, c.pcontext)⟩

/-- The loop of `km_fs_recover_iocontexts`; `h` answers the calls made for an id. -/
def recoverContexts (h : BitVec 64 → SetupCalls) :
    List (BitVec 32 × BitVec 64) → Iocs → Option (Nat × Iocs)
  | [], s => some (0, s)
  | (nrEvents, iocontext) :: cs, s =>
    (kmIocontextRecover s nrEvents iocontext (h iocontext)).bind fun (rc, s) =>
      if rc ≠ 0 then some (rc, s) else recoverContexts h cs s

def kmFsRecoverIocontexts (s : Iocs) (note : NtIocontexts) (h : BitVec 64 → SetupCalls) :
    Option (Nat × Iocs) :=
  recoverContexts h note.contexts { s with piocontext := note.piocontext }

/-! ## Runs -/

/-- The monitor's table with the history of the payload's ids. -/
structure World where
  km : Iocs
  issued : List (BitVec 64)
  live : List (BitVec 64)
  created : BitVec 64 → BitVec 64

def World.start : World := ⟨Iocs.start, [], [], fun _ => 0⟩

inductive Op
  | ioSetup (nrEvents : BitVec 32) (h : SetupCalls)
  | ioDestroy (pcontext : BitVec 64) (h : RemoveCalls)
  /-- `io_submit` and `io_getevents`. -/
  | translate (pcontext : BitVec 64)
  /-- A snapshot is taken, and a new monitor restores it. -/
  | resume (h : BitVec 64 → SetupCalls)

/-- The kernel context that a successful `io_setup` made replaces the one on record. -/
def SetupCalls.context (h : SetupCalls) (old : BitVec 64) : BitVec 64 :=
  match h.ioSetup with
  | .ok k => k
  | .error _ => old

theorem SetupCalls.context_context (h : SetupCalls) (old : BitVec 64) :
    h.context (h.context old) = h.context old := by
  unfold SetupCalls.context
  cases h.ioSetup <;> rfl

def step (w : World) : Op → Option World
  | .ioSetup nrEvents h =>
    (kmIocontextAdd w.km nrEvents h).map fun (rc, id, km) =>
      let w := { w with km, issued := id :: w.issued }
      if rc ≠ 0 then w
      else { w with live := w.live ++ [id],
                    created := update w.created id (h.context (w.created id)) }
  | .ioDestroy pcontext h =>
    (kmIocontextRemove w.km pcontext h).map fun (rc, km) =>
      if rc ≠ 0 then { w with km } else { w with km, live := w.live.erase pcontext }
  | .translate pcontext => (kmIocontextXlateP2k w.km pcontext).map fun _ => w
  -- a note that cannot be recovered ends the new monitor
  | .resume h =>
    (kmFsRecoverIocontexts Iocs.start (kmFsIocontextNotesWrite w.km) h).bind fun (rc, km) =>
      if rc ≠ 0 then none
      else some { w with km, created := fun p => (h p).context (w.created p) }

def system : System World Op where
  init w := w = World.start
  step w a w' := step w a = some w'

/-- At most one entry is behind that of the id, or all of them are moved. -/
def RemoveCalls.Moves (h : RemoveCalls) (iocp : List KmIocontext) (p : BitVec 64) : Prop :=
  2 ≤ (behind p iocp).length → h.overlapping (behind p iocp) = behind p iocp

/-- The payload's ids are distinct and translated to their contexts, and the mutex is free. -/
structure Sound (w : World) : Prop where
  distinct : w.live.Nodup
  issuedOnce : w.issued.Nodup
  wereIssued : w.live ⊆ w.issued
  translated : ∀ p, kmIocontextXlateP2k w.km p =
    some (if p ∈ w.live then .ok (w.created p) else .error EINVAL)
  othersStay : ∀ p h s, h.Moves w.km.iocp p → kmIocontextRemove w.km p h = some (0, s) →
    ∀ q, q ≠ p → kmIocontextXlateP2k s q = kmIocontextXlateP2k w.km q
  free : w.km.iocmutex = false

/-! ## The table and the history -/

/-- The table holds the live ids in order, each with the context created for it. -/
structure Mirrors (s : Iocs) (live : List (BitVec 64)) (created : BitVec 64 → BitVec 64) :
    Prop where
  ids : s.iocp.map (·.pcontext) = live
  contexts : ∀ c ∈ s.iocp, c.kcontext = created c.pcontext
  free : s.iocmutex = false

section

variable {s s' : Iocs} {live : List (BitVec 64)} {created : BitVec 64 → BitVec 64} {p : BitVec 64}
variable {w : World}
variable {nrEvents : BitVec 32} {h : SetupCalls} {rc : Nat}

/-- The loop and the copy leave out the first entry of the id. -/
theorem takeWhile_append_behind (p : BitVec 64) (l : List KmIocontext) :
    l.takeWhile (·.pcontext != p) ++ behind p l = l.eraseP (·.pcontext == p) := by
  induction l with
  | nil => rfl
  | cons c l ih =>
    by_cases hc : c.pcontext = p
    · simp [behind, hc]
    · simpa [behind, hc] using ih

theorem RemoveCalls.Moves.eraseP {h : RemoveCalls} {l : List KmIocontext} (hm : h.Moves l p) :
    (l.takeWhile (·.pcontext != p) ++
      if (behind p l).length < 2 then behind p l else h.overlapping (behind p l)) =
        l.eraseP (·.pcontext == p) := by
  rw [← takeWhile_append_behind]
  split
  · rfl
  · rw [hm (by omega)]

section

variable (hm : Mirrors s live created)
include hm

theorem Mirrors.any_iff : s.iocp.any (·.pcontext == p) ↔ p ∈ live := by
  simp only [any_eq_true, beq_iff_eq, ← hm.ids, mem_map]

theorem Mirrors.xlate :
    kmIocontextXlateP2k s p = some (if p ∈ live then .ok (created p) else .error EINVAL) := by
  rw [kmIocontextXlateP2k, hm.free, if_neg Bool.false_ne_true]
  cases hf : s.iocp.find? (·.pcontext == p) with
  | some c =>
    have hc : c ∈ s.iocp := mem_of_find?_eq_some hf
    have hp : c.pcontext = p := by simpa using List.find?_some hf
    subst hp
    simp only [hm.contexts c hc, if_pos (hm.ids ▸ mem_map_of_mem hc : c.pcontext ∈ live)]
  | none =>
    rw [if_neg]
    rw [← hm.any_iff, any_eq_true]
    rintro ⟨c, hc, hp⟩
    exact List.find?_eq_none.1 hf c hc hp

/-- An entry is removed with its id, and no other; a failing `io_destroy` needs a live id. -/
theorem Mirrors.remove {h : RemoveCalls} (hmoves : p ∈ live → h.Moves s.iocp p)
    (hr : kmIocontextRemove s p h = some (rc, s')) :
    (rc ≠ 0 ∧ ((p ∈ live ∧ h.ioDestroy ≠ none) ∨ s' = s)) ∨
      (rc = 0 ∧ s'.piocontext = s.piocontext ∧ Mirrors s' (live.erase p) created) := by
  simp only [kmIocontextRemove, hm.free, Bool.false_eq_true, if_false] at hr
  by_cases hp : p ∈ live
  · rw [if_pos (hm.any_iff.2 hp)] at hr
    cases hd : h.ioDestroy with
    | some e =>
      simp only [hd, some_mk_inj] at hr
      exact .inl ⟨hr.1 ▸ e.pos.ne', .inl ⟨hp, Option.some_ne_none e⟩⟩
    | none =>
      simp only [hd, (hmoves hp).eraseP] at hr
      cases hr
      refine .inr ⟨rfl, rfl, ?_, fun c hc => hm.contexts c (mem_of_mem_eraseP hc), rfl⟩
      simp only [← hm.ids, erase_eq_eraseP', eraseP_map]
      rfl
  rw [if_neg (mt hm.any_iff.1 hp)] at hr
  cases hr
  exact .inl ⟨EINVAL.pos.ne', .inr rfl⟩

theorem Mirrors.congr {created' : BitVec 64 → BitVec 64} (heq : ∀ q ∈ live, created' q = created q) :
    Mirrors s live created' where
  ids := hm.ids
  contexts c hc := (hm.contexts c hc).trans (heq _ (hm.ids ▸ List.mem_map_of_mem hc)).symm
  free := hm.free

/-- A context is either refused, which leaves the table as it was, or recorded under its id. -/
theorem Mirrors.recover (hp : h.context (created p) = created p)
    (hr : kmIocontextRecover s nrEvents p h = some (rc, s')) : (rc ≠ 0 ∧ s' = s) ∨
      (rc = 0 ∧ s'.piocontext = s.piocontext ∧ Mirrors s' (live ++ [p]) created) := by
  rcases h with ⟨ioSetup, realloc⟩
  cases ioSetup with
  | error e =>
    cases hr
    exact .inl ⟨e.pos.ne', rfl⟩
  | ok k =>
    simp only [kmIocontextRecover, hm.free, Bool.false_eq_true, if_false] at hr
    cases realloc with
    | false =>
      cases hr
      exact .inl ⟨ENOMEM.pos.ne', rfl⟩
    | true =>
      cases hr
      refine .inr ⟨rfl, rfl, by simp [hm.ids], fun c hc => ?_, rfl⟩
      rcases mem_append.1 hc with hc | hc
      · exact hm.contexts c hc
      · cases mem_singleton.1 hc
        exact hp

/-- By induction on the contexts still to be recovered. -/
theorem Mirrors.recoverContexts {h : BitVec 64 → SetupCalls}
    (hp : ∀ p, (h p).context (created p) = created p) (cs : List (BitVec 32 × BitVec 64))
    (hr : recoverContexts h cs s = some (0, s')) :
    s'.piocontext = s.piocontext ∧ Mirrors s' (live ++ cs.map (·.2)) created := by
  induction cs generalizing s live with
  | nil =>
    cases hr
    exact ⟨rfl, by simpa using hm⟩
  | cons c cs ih =>
    simp only [IoContexts.recoverContexts, Option.bind_eq_some_iff] at hr
    rcases hr with ⟨⟨rc, s1⟩, hc, hr⟩
    rcases hm.recover (hp c.2) hc with ⟨hrc, -⟩ | ⟨rfl, hpio, hm1⟩
    · -- the loop stops with the error
      rw [if_pos hrc] at hr
      cases hr
      exact absurd rfl hrc
    · rcases ih hm1 hr with ⟨hpio', hm'⟩
      exact ⟨hpio'.trans hpio, by simpa using hm'⟩

end

end

/-! ## The invariant -/

structure Inv (w : World) : Prop where
  mirrors : Mirrors w.km w.live w.created
  counter : w.km.piocontext = firstPiocontext + BitVec.ofNat 64 w.issued.length
  numbered : ∀ p ∈ w.issued, ∃ i < w.issued.length, p = firstPiocontext + BitVec.ofNat 64 (i + 1)
  issuedOnce : w.issued.Nodup
  distinct : w.live.Nodup
  wereIssued : w.live ⊆ w.issued

theorem Inv.sound (h : Inv w) : Sound w where
  distinct := h.distinct
  issuedOnce := h.issuedOnce
  wereIssued := h.wereIssued
  translated p := h.mirrors.xlate
  othersStay p c s hmoves hr q hq := by
    rcases h.mirrors.remove (fun _ => hmoves) hr with ⟨hrc, -⟩ | ⟨-, -, hm⟩
    · exact absurd rfl hrc
    · rw [hm.xlate, h.mirrors.xlate]
      simp only [mem_erase_of_ne hq]
  free := h.mirrors.free

/-- No `io_destroy` of a context on record fails, the copy of the entries behind it moves them, and
the counter does not wrap. -/
def Op.Spared (w : World) : Op → Prop
  | .ioSetup .. => w.issued.length < 2 ^ 64
  | .ioDestroy p h => p ∈ w.live → h.ioDestroy = none ∧ h.Moves w.km.iocp p
  | .translate _ => True
  | .resume _ => True

theorem Inv.next_eq (h : Inv w) :
    w.km.piocontext + 1 = firstPiocontext + BitVec.ofNat 64 (w.issued.length + 1) := by
  rw [h.counter, BitVec.add_assoc, BitVec.ofNat_add]
  rfl

/-- Within the counter's range the next id is a new one. -/
theorem Inv.next_fresh (h : Inv w) (hn : w.issued.length < 2 ^ 64) :
    w.km.piocontext + 1 ∉ w.issued := by
  intro hmem
  rcases h.numbered _ hmem with ⟨i, hi, heq⟩
  rw [h.next_eq, BitVec.add_right_inj] at heq
  have heq := congrArg BitVec.toNat heq
  simp only [BitVec.toNat_ofNat] at heq
  omega

/-- The counter goes on before the context is made. -/
theorem Inv.issue (h : Inv w) (hn : w.issued.length < 2 ^ 64) :
    Inv { w with km := { w.km with piocontext := w.km.piocontext + 1 }
                 issued := (w.km.piocontext + 1) :: w.issued } where
  mirrors := ⟨h.mirrors.ids, h.mirrors.contexts, h.mirrors.free⟩
  counter := h.next_eq
  numbered p hp := by
    rcases mem_cons.1 hp with rfl | hp
    · exact ⟨_, Nat.lt_succ_self _, h.next_eq⟩
    · rcases h.numbered p hp with ⟨i, hi, heq⟩
      exact ⟨i, Nat.lt_succ_of_lt hi, heq⟩
  issuedOnce := nodup_cons.2 ⟨h.next_fresh hn, h.issuedOnce⟩
  distinct := h.distinct
  wereIssued := subset_cons_of_subset _ h.wereIssued

theorem Inv.ioSetup {w' : World} {nrEvents : BitVec 32} {c : SetupCalls} (h : Inv w)
    (hn : w.issued.length < 2 ^ 64) (hr : step w (.ioSetup nrEvents c) = some w') : Inv w' := by
  simp only [step, kmIocontextAdd, Option.map_map, Option.map_eq_some_iff] at hr
  rcases hr with ⟨⟨rc, km⟩, hr, rfl⟩
  have hnew : w.km.piocontext + 1 ∉ w.live := fun hp => h.next_fresh hn (h.wereIssued hp)
  have hI := h.issue hn
  -- the context on record for the new id says nothing about the other ids
  have hm : Mirrors _ w.live (update w.created (w.km.piocontext + 1)
      (c.context (w.created (w.km.piocontext + 1)))) :=
    hI.mirrors.congr fun q hq => update_of_ne (ne_of_mem_of_not_mem hq hnew) _ _
  have hp := c.context_context (w.created (w.km.piocontext + 1))
  rcases hm.recover (by simpa only [update_self] using hp) hr with ⟨hrc, rfl⟩ | ⟨rfl, hpio, hm⟩
  · simpa only [comp_apply, if_pos hrc] using hI
  exact ⟨hm, hpio.trans hI.counter, hI.numbered, hI.issuedOnce,
    nodup_append.2 ⟨h.distinct, nodup_cons.2 ⟨not_mem_nil, nodup_nil⟩,
      fun q hq r hr => mem_singleton.1 hr ▸ ne_of_mem_of_not_mem hq hnew⟩,
    append_subset.2 ⟨hI.wereIssued, by simp⟩⟩

theorem Inv.step {w' : World} {a : Op} (h : Inv w) (ha : a.Spared w)
    (hr : step w a = some w') : Inv w' := by
  cases a with
  | ioSetup nrEvents c => exact h.ioSetup ha hr
  | ioDestroy p d =>
    simp only [IoContexts.step, Option.map_eq_some_iff] at hr
    rcases hr with ⟨⟨rc, km⟩, hr, rfl⟩
    rcases h.mirrors.remove (fun hp => (ha hp).2) hr with ⟨hrc, ⟨hp, hd⟩ | rfl⟩ | ⟨rfl, hpio, hm⟩
    · exact absurd (ha hp).1 hd
    · simpa only [if_pos hrc] using h
    · exact ⟨hm, hpio.trans h.counter, h.numbered, h.issuedOnce, h.distinct.erase p,
        List.Subset.trans (erase_subset) h.wereIssued⟩
  | translate p =>
    simp only [IoContexts.step, Option.map_eq_some_iff] at hr
    rcases hr with ⟨_, _, rfl⟩
    exact h
  | resume c =>
    simp only [IoContexts.step, Option.bind_eq_some_iff] at hr
    rcases hr with ⟨⟨rc, km⟩, hr, hw⟩
    rcases Option.ite_none_left_eq_some.1 hw with ⟨hrc, ⟨⟩⟩
    cases not_not.1 hrc
    -- the note lists the live ids, and the new table starts empty
    have hstart : Mirrors ⟨false, [], w.km.piocontext⟩ [] fun p => (c p).context (w.created p) :=
      ⟨rfl, nofun, rfl⟩
    rcases hstart.recoverContexts (fun p => (c p).context_context _) _ hr with ⟨hpio, hm⟩
    refine ⟨?_, hpio.trans h.counter, h.numbered, h.issuedOnce, h.distinct, h.wereIssued⟩
    simpa [kmFsIocontextNotesWrite, comp_def, Iocs.start, h.mirrors.ids] using hm

/-- In every run in which no `io_destroy` of a context on record fails, entries are moved and the
counter does not wrap, ids and contexts are kept apart and translated, and the mutex is free between
calls. -/
theorem iocontexts_sound (h : Reach (system.restrict fun w a _ => a.Spared w) w) :
    Sound w := by
  refine Inv.sound (Reach.inv ?_ ?_ h)
  · rintro w rfl
    exact ⟨⟨rfl, nofun, rfl⟩, rfl, nofun, nodup_nil, nodup_nil, nil_subset _⟩
  · intro w a w' hI hs
    exact hI.step hs.2 hs.1

def setupOf (kcontext : BitVec 64) : Op := .ioSetup 8 ⟨.ok kcontext, true⟩

/-- Three contexts, of which the first one goes; `memcpy` copies from the lowest address up. -/
def twoLeft : List Op :=
  [setupOf 0x7000, setupOf 0x8000, setupOf 0x9000, .ioDestroy (firstPiocontext + 1) ⟨none, id⟩,
    .resume fun id => ⟨.ok (id + 0x5000), true⟩]

/-- The two contexts are translated after the removal and the restore. -/
theorem iocontexts_sound_resumed : ∃ w, runCalls step World.start twoLeft = some w ∧ Sound w ∧
    w.live = [firstPiocontext + 2, firstPiocontext + 3] ∧
      kmIocontextXlateP2k w.km (firstPiocontext + 3) = some (.ok (firstPiocontext + 0x5003)) :=
  ⟨_, rfl, iocontexts_sound (.step (a := twoLeft[4]) (.step (a := twoLeft[3])
    (.step (a := twoLeft[2]) (.step (a := twoLeft[1]) (.step (a := twoLeft[0]) (.init rfl)
      ⟨rfl, (by decide : 0 < 2 ^ 64)⟩) ⟨rfl, (by decide : 1 < 2 ^ 64)⟩)
        ⟨rfl, (by decide : 2 < 2 ^ 64)⟩) ⟨rfl, fun _ => ⟨rfl, fun _ => rfl⟩⟩) ⟨rfl, trivial⟩),
    by decide, rfl⟩

/-- The host refuses to destroy a context: the mutex stays locked, and no later call returns. -/
theorem io_destroy_refused : ∃ w, runCalls step World.start
    [setupOf 0x7000, .ioDestroy (firstPiocontext + 1) ⟨some EINVAL, id⟩] = some w ∧
      w.km.iocmutex ∧ kmIocontextXlateP2k w.km (firstPiocontext + 1) = none :=
  ⟨_, rfl, rfl, rfl⟩

end KontainMonitor.IoContexts
