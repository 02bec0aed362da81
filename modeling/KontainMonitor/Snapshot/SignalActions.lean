import KontainMonitor.Snapshot.ReadBack

/-!
# SignalActions — the signal actions of a snapshot (`km_signal.c`)

`km_nt_sighand_t` has a word for the mask of an action, which has 64 bits, and an action whose handler
is `SIG_DFL` gets no note.
-/

namespace KontainMonitor.Snapshot

open Files Function List NoteStream

/-- The `k` bytes at offset `off` of a record, as a number. -/
def fieldAt (buf : List Byte) (off k : Nat) : Nat := ofLeBytes ((buf.drop off).take k)

def noActions : Nat → SigAction := fun _ => ⟨0, 0, 0, 0⟩

def kmSigSnapshotRecover (buf : List Byte) (_ : Nat) (table : Nat → SigAction) :
    Int × (Nat → SigAction) :=
  if fieldAt buf 0 4 ≠ 32 then (-1, table)
  else
    (0, update table (fieldAt buf 4 4 - 1)
      ⟨fieldAt buf 8 8, fieldAt buf 16 4, fieldAt buf 20 4, fieldAt buf 24 8⟩)

/-- The field widths of `km_sigaction_t`. -/
def SigAction.Fits (sa : SigAction) : Prop :=
  sa.handler < 2 ^ 64 ∧ sa.flags < 2 ^ 32 ∧ sa.mask < 2 ^ 64 ∧ sa.restorer < 2 ^ 64

instance (sa : SigAction) : Decidable sa.Fits := inferInstanceAs (Decidable (_ ∧ _ ∧ _ ∧ _))

def SigAction.noted (sa : SigAction) : SigAction := { sa with mask := sa.mask % 2 ^ 32 }

theorem fieldAt_head (k n : Nat) (rest : List Byte) :
    fieldAt (leBytes k n ++ rest) 0 k = n % 256 ^ k := by
  rw [fieldAt, drop_zero, take_left' (length_leBytes k n), ofLeBytes_leBytes]

theorem fieldAt_skip {j off : Nat} (h : j ≤ off) (n k : Nat) (rest : List Byte) :
    fieldAt (leBytes j n ++ rest) off k = fieldAt rest (off - j) k := by
  rw [fieldAt, fieldAt, drop_append, length_leBytes, drop_eq_nil_of_le, nil_append]
  exact (length_leBytes j n).trans_le h

theorem recover_sighandNote {sa : SigAction} (hsa : sa.Fits) {i : Nat} (hi : i < nsig)
    (len : Nat) (table : Nat → SigAction) :
    kmSigSnapshotRecover (sighandNote (i + 1) sa).desc len table =
      (0, update table i sa.noted) := by
  have hsigno : (i + 1) % 256 ^ 4 = i + 1 := Nat.mod_eq_of_lt (by unfold nsig at hi; omega)
  have hhandler : sa.handler % 256 ^ 8 = sa.handler := Nat.mod_eq_of_lt hsa.1
  have hflags : sa.flags % 256 ^ 4 = sa.flags := Nat.mod_eq_of_lt hsa.2.1
  have hmask : sa.mask % 256 ^ 4 = sa.mask % 2 ^ 32 := rfl
  have hrestorer : sa.restorer % 256 ^ 8 = sa.restorer := Nat.mod_eq_of_lt hsa.2.2.2
  -- each read falls on one field of the record
  have hdesc : (sighandNote (i + 1) sa).desc = leBytes 4 32 ++ (leBytes 4 (i + 1) ++
      (leBytes 8 sa.handler ++ (leBytes 4 sa.flags ++ (leBytes 4 sa.mask ++
        (leBytes 8 sa.restorer ++ []))))) := by
    simp [sighandNote, u32, u64]
  have hsize : 32 % 256 ^ 4 = 32 := rfl
  rw [kmSigSnapshotRecover, hdesc]
  simp [fieldAt_head, fieldAt_skip, hsize, hsigno, hhandler, hflags, hmask, hrestorer,
    SigAction.noted, -append_nil, -Nat.reducePow]

theorem visit_sighandNotes {actions : Nat → SigAction} (hfits : ∀ i < nsig, (actions i).Fits)
    (l : List Nat) (hl : ∀ i ∈ l, i < nsig) (table : Nat → SigAction) :
    visit NT_KM_SIGHAND kmSigSnapshotRecover
        (l.map fun i => sighandNote (i + 1) (actions i)) table =
      (0, fun i => if i ∈ l then (actions i).noted else table i) := by
  induction l generalizing table with
  | nil => simp [visit]
  | cons j l ih =>
    have hj : j < nsig := hl j (by simp)
    rw [map_cons, visit, if_pos (show (sighandNote (j + 1) (actions j)).type = NT_KM_SIGHAND from rfl),
      recover_sighandNote (hfits j hj) hj]
    simp only [ne_eq, not_true_eq_false, if_false]
    rw [ih (fun i hi => hl i (by simp [hi]))]
    refine Prod.ext rfl (funext fun i => ?_)
    by_cases hmem : i ∈ l
    · simp [hmem]
    by_cases hi : i = j
    · simp [hi]
    · simp [hmem, hi]

/-- The table that a resumed monitor has. -/
def recoveredActions (d : Dump) : Nat → SigAction :=
  (visit NT_KM_SIGHAND kmSigSnapshotRecover (kmSigCoreNotesWrite d) noActions).2

/-- The table comes back if and only if no handler's mask has a signal above 32, and actions without
handler have nothing else set. -/
theorem sigactions_come_back_iff (d : Dump) (hfits : ∀ i < nsig, (d.sigactions i).Fits) :
    (∀ i < nsig, recoveredActions d i = d.sigactions i) ↔
      ∀ i < nsig, if (d.sigactions i).handler = 0 then d.sigactions i = noActions i
        else (d.sigactions i).mask < 2 ^ 32 := by
  refine forall₂_congr fun i hi => ?_
  have hread : recoveredActions d i = if (d.sigactions i).handler = 0 then noActions i
      else (d.sigactions i).noted := by
    rw [recoveredActions, kmSigCoreNotesWrite, visit_sighandNotes hfits]
    · by_cases hdfl : (d.sigactions i).handler = 0
      · simp [hdfl]
      · simp [hdfl, hi]
    intro j hj
    exact mem_range.1 (mem_filter.1 hj).1
  rw [hread]
  split
  · exact eq_comm
  -- only the mask can differ
  calc
    (d.sigactions i).noted = d.sigactions i ↔
        (d.sigactions i).mask % 2 ^ 32 = (d.sigactions i).mask :=
      ⟨fun h => congrArg SigAction.mask h, fun h => by rw [SigAction.noted, h]⟩
    _ ↔ (d.sigactions i).mask < 2 ^ 32 := Nat.mod_eq_iff_lt (by decide)

/-- A payload with one signal action, for `SIGUSR1`. -/
def withAction (sa : SigAction) : Dump :=
  { smallDump (kmFsInit 8 0 [] plainHost) with sigactions := update noActions 9 sa }

def usr1Action : SigAction := ⟨0x401000, 0x14000000, 0x80000000, 0x402000⟩

theorem sigactions_come_back_iff_usr1 : (withAction usr1Action).sigactions 9 = usr1Action ∧
    ∀ i < nsig, recoveredActions (withAction usr1Action) i = (withAction usr1Action).sigactions i :=
  ⟨rfl, (sigactions_come_back_iff _ (by decide +kernel)).2 (by decide +kernel)⟩

/-- A handler that runs with signal 33 blocked, and `SIG_DFL` installed with flags and a mask. -/
theorem sigactions_lost : (∀ i < nsig, ((withAction ⟨0x401000, 0, 2 ^ 32, 0⟩).sigactions i).Fits) ∧
      recoveredActions (withAction ⟨0x401000, 0, 2 ^ 32, 0⟩) 9 = ⟨0x401000, 0, 0, 0⟩ ∧
        recoveredActions (withAction ⟨0, 0x10000000, 1, 0⟩) 9 = ⟨0, 0, 0, 0⟩ := by
  decide +kernel

end KontainMonitor.Snapshot
