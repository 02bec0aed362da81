import KontainMonitor.Exec.KmState
import KontainMonitor.Exec.RoundTrip

/-!
# Influence — what the payload's environment does to the recovered state

The first string with a name wins, and the payload's strings come first.  An environment that names none
of the monitor's variables has no influence; one that names a variable replaces what the monitor saved in
it, and two monitors that differ only there are then recovered as one.
-/

namespace KontainMonitor.Exec

open Files List Scan Option

/-- No string of the environment is named like a variable of the monitor. -/
def NamesNone (envp : List Text) : Prop := ∀ s ∈ envp, ∀ v : Var, ¬ (v.name ++ ['=']) <+: s

theorem getenv_eq_none_iff {env : List Text} {name : Text} :
    getenv env name = none ↔ ∀ s ∈ env, ¬ (name ++ ['=']) <+: s := by
  simp [getenv, List.findSome?_eq_none_iff]

variable {envp : List Text} {bufl : Nat} {s : Text}

theorem namesNone_iff : NamesNone envp ↔ ∀ v : Var, getenv envp v.name = none := by
  simp only [NamesNone, getenv_eq_none_iff]
  exact ⟨fun h v s hs => h s hs v, fun h s hs v => h v s hs⟩

theorem getenv_append (env added : List Text) (name : Text) :
    getenv (env ++ added) name = (getenv env name).or (getenv added name) := by
  simp [getenv, List.findSome?_append]

/-- The new monitor sees the payload's value of a variable if there is one, and else its own. -/
theorem execve_eq (m : Monitor) (envp : List Text) : execve m envp = (addedEnv m).map fun added =>
      recoverVars m.kernel fun v => (getenv envp v.name).or (getenv added v.name) := by
  rw [execve, kmExecBuildEnv, Option.map_map]
  congr 1
  funext added
  simp only [Function.comp_apply, kmExecRecoverKmstate, getenv_append]

/-! ## The strings that the monitor adds -/

theorem inBuffer_eq_some {r : Text} (h : inBuffer bufl s = some r) : r = s := by
  unfold inBuffer at h
  split at h
  · cases h
  · exact (some.inj h).symm

theorem appendIn_eq_some {pieces : List Text} :
    ∀ {s r : Text}, appendIn bufl s pieces = some r → ∃ rest, r = s ++ rest := by
  induction pieces with
  | nil =>
    intro s r h
    exact ⟨[], by rw [append_nil]; exact (some.inj h).symm⟩
  | cons piece pieces ih =>
    intro s r h
    rw [appendIn, foldlM_cons] at h
    rcases bind_eq_some_iff.1 h with ⟨s', hs', hr⟩
    rcases ih hr with ⟨rest, rfl⟩
    exact ⟨piece ++ rest, by rw [inBuffer_eq_some hs', append_assoc]⟩

variable {m : Monitor} {v : Var}

/-- Every builder writes the name of its variable. -/
theorem build_eq_some (h : v.build m = some s) : ∃ value, s = assign v.name value := by
  cases v with
  | vers | eventfds | pidinfo => exact ⟨_, inBuffer_eq_some h⟩
  | guestfds =>
    rcases map_eq_some_iff.1 h with ⟨value, -, rfl⟩
    exact ⟨value, rfl⟩
  | vmfds | gdbinfo =>
    rcases bind_eq_some_iff.1 h with ⟨s', hs', hs⟩
    rcases appendIn_eq_some hs with ⟨rest, rfl⟩
    rw [inBuffer_eq_some hs', assign, append_assoc, cons_append]
    exact ⟨_, rfl⟩

/-- A string is found under its own name only. -/
theorem getenv_assign (v v' : Var) (value : Text) (env : List Text) :
    getenv (assign v.name value :: env) v'.name =
      if v = v' then some value else getenv env v'.name := by
  cases v <;> cases v' <;> simp [getenv, assign, Var.name]

theorem getenv_built (rest : List Text) :
    ∀ {vars : List Var} {strings : List Text}, vars.mapM (Var.build m) = some strings → v ∈ vars →
      ∃ value, v.build m = some (assign v.name value) ∧
        getenv (strings ++ rest) v.name = some value := by
  intro vars
  induction vars with
  | nil =>
    intro strings _ hv
    cases hv
  | cons v' vars ih =>
    intro strings h hv
    rw [mapM_cons] at h
    rcases bind_eq_some_iff.1 h with ⟨s, hs, h⟩
    rcases bind_eq_some_iff.1 h with ⟨strings', hstrings', h⟩
    rw [← some.inj h, cons_append]
    rcases build_eq_some hs with ⟨value, rfl⟩
    rw [getenv_assign]
    by_cases heq : v' = v
    · subst heq
      rw [if_pos rfl]
      exact ⟨value, hs, rfl⟩
    · rw [if_neg heq]
      exact ih hstrings' ((mem_cons.1 hv).resolve_left fun hv => heq hv.symm)

/-- What is found among the added strings is what the builder wrote. -/
theorem getenv_addedEnv {added : List Text} (h : addedEnv m = some added) (v : Var) :
    ∃ value, v.build m = some (assign v.name value) ∧ getenv added v.name = some value := by
  rcases bind_eq_some_iff.1 h with ⟨strings, hstrings, h⟩
  rw [← some.inj h]
  exact getenv_built _ hstrings (by cases v <;> decide)

theorem addedEnv_isSome (h : ∀ v : Var, (v.build m).isSome) : (addedEnv m).isSome := by
  have hmap : ∀ vars : List Var, (vars.mapM (Var.build m)).isSome := by
    intro vars
    induction vars with
    | nil => rfl
    | cons v vars ih =>
      rcases isSome_iff_exists.1 (h v) with ⟨s, hs⟩
      rcases isSome_iff_exists.1 ih with ⟨strings, hstrings⟩
      rw [mapM_cons, hs, hstrings]
      rfl
  rcases isSome_iff_exists.1 (hmap _) with ⟨strings, hstrings⟩
  rw [addedEnv, hstrings]
  rfl

/-! ## Monitors that differ in one variable -/

/-- Two monitors whose variables differ in `v` alone, and differ in what is recovered. -/
structure Twins (v : Var) (m m' : Monitor) : Prop where
  kernel : m'.kernel = m.kernel
  built : (∀ v' : Var, (v'.build m).isSome) ∧ (v.build m').isSome
  same : ∀ v', v' ≠ v → v'.build m = v'.build m'
  differ : execve m [] ≠ execve m' []

/-- An environment that names `v` hides the difference. -/
theorem Twins.hidden {m' : Monitor} (h : Twins v m m') (hnamed : getenv envp v.name ≠ none) :
    execve m envp = execve m' envp := by
  have hbuilt : ∀ v' : Var, (v'.build m').isSome := by
    intro v'
    by_cases hv : v' = v
    · rw [hv]
      exact h.built.2
    · rw [← h.same v' hv]
      exact h.built.1 v'
  rcases isSome_iff_exists.1 (addedEnv_isSome h.built.1) with ⟨added, hadded⟩
  rcases isSome_iff_exists.1 (addedEnv_isSome hbuilt) with ⟨added', hadded'⟩
  rw [execve_eq, execve_eq, hadded, hadded', h.kernel, map_some, map_some]
  congr 2
  funext v'
  by_cases hv : v' = v
  · subst hv
    rcases Option.ne_none_iff_exists'.1 hnamed with ⟨value, hvalue⟩
    rw [hvalue]
    rfl
  rcases getenv_addedEnv hadded v' with ⟨value, hbuild, hvalue⟩
  rcases getenv_addedEnv hadded' v' with ⟨value', hbuild', hvalue'⟩
  rw [h.same v' hv, hbuild', some.injEq, assign, assign, append_cancel_left_eq,
    List.cons.injEq] at hbuild
  rw [hvalue, hvalue', hbuild.2]

/-! ## A monitor and its twins -/

def calm : Monitor where
  fs := plainProcess
  kernel := plainKernel plainProcess
  forkCount := 0
  kvmFd := 731
  machFd := 732
  vcpuFds := [733]
  intrFd := 729
  shutdownFd := 730
  tracepid := 0
  gdb := ⟨2159, -1, -1, 0, 0, 0, 0, 0, 0, 0, 0, 0, 0, 0, 0, 0, 0, 0, List.replicate 32 (-1)⟩
  forkWait := none
  verbose := none

/-- Standard input is recorded with other flags. -/
def reopened : Fs :=
  { plainProcess with
    files := Function.update plainProcess.files 0 { plainProcess.files 0 with flags := O_RDWR } }

def twin : Var → Monitor
  | .vers => { calm with forkCount := 1 }
  | .guestfds => { calm with fs := reopened }
  | .vmfds => { calm with kvmFd := 700 }
  | .eventfds => { calm with intrFd := 700 }
  | .pidinfo => { calm with tracepid := 1 }
  | .gdbinfo => { calm with gdb := { calm.gdb with port := 2160 } }

def observe (o : Option (Except Abort Recovery)) : Option (Int × Int × List Int × Int × Nat) :=
  match o with
  | some (.ok (.recovered st)) =>
    some (st.forkCount, st.tracepid, st.closed, st.gdb.port, (st.fds.files 0).flags)
  | _ => none

/-- What is observed after `calm` has called `execve`. -/
theorem observe_calm : observe (execve calm []) = some (0, 0, [729, 730, 733, 732, 731], 2159, 0) := by
  decide +kernel

theorem twin_twins (v : Var) : Twins v calm (twin v) := by
  refine ⟨?_, ⟨?_, ?_⟩, ?_, ?_⟩
  · cases v <;> rfl
  · intro v'
    cases v' <;> decide +kernel
  · cases v <;> decide +kernel
  · intro v' hv
    cases v <;> cases v' <;> first | exact absurd rfl hv | rfl
  intro heq
  have hsame := congrArg observe heq
  rw [observe_calm] at hsame
  revert hsame
  cases v <;> decide +kernel

/-- An environment leaves what every monitor recovers as it is with an environment that names no
variable of the monitor, if and only if it names none itself. -/
theorem payload_env_no_influence_iff (envp : List Text) :
    (∀ (m : Monitor) (other : List Text), NamesNone other → execve m envp = execve m other) ↔
      NamesNone envp := by
  constructor
  · intro h
    rw [namesNone_iff]
    intro v
    by_contra hnamed
    have hnil : NamesNone [] := fun s hs => absurd hs not_mem_nil
    -- the payload's value hides what the two monitors saved
    refine (twin_twins v).differ ?_
    calc execve calm [] = execve calm envp := (h calm [] hnil).symm
      _ = execve (twin v) envp := (twin_twins v).hidden hnamed
      _ = execve (twin v) [] := h (twin v) [] hnil
  intro h m other hother
  rw [namesNone_iff] at h hother
  simp only [execve_eq, h, hother]

def forged : Text := assign Var.eventfds.name ['0', ',', '1']

/-- A payload string names the descriptors that the new monitor closes: its standard input and
output, not the monitor's own. -/
theorem forged_eventfds_closed :
    observe (execve calm []) = some (0, 0, [729, 730, 733, 732, 731], 2159, 0) ∧
      observe (execve calm [forged]) = some (0, 0, [0, 1, 733, 732, 731], 2159, 0) ∧
        execve calm [forged] ≠ execve calm [] := by
  have hforged : observe (execve calm [forged]) = some (0, 0, [0, 1, 733, 732, 731], 2159, 0) := by
    decide +kernel
  refine ⟨observe_calm, hforged, ?_⟩
  intro heq
  rw [heq, observe_calm] at hforged
  revert hforged
  decide

end KontainMonitor.Exec
