import Mathlib.Data.List.Basic
import Mathlib.Data.Nat.ModEq

/-!
# NoteStream — ELF note sections

A note is a header of three words (the lengths of the owner and of the descriptor, and the type), the
owner, the descriptor, and padding to a multiple of four.  The writer of a note chooses the length
that the header states and the bytes that follow it independently; the reader has only the header.
`walk_iff_honest` says when the two agree: a reader sees the notes that were written exactly when
every header states the length of its descriptor.
-/

namespace KontainMonitor.NoteStream

open List

/-! ## Little-endian words -/

def leBytes : Nat → Nat → List (BitVec 8)
  | 0, _ => []
  | k + 1, n => BitVec.ofNat 8 n :: leBytes k (n / 256)

def ofLeBytes : List (BitVec 8) → Nat
  | [] => 0
  | b :: bs => b.toNat + 256 * ofLeBytes bs

@[simp] theorem length_leBytes (k n : Nat) : (leBytes k n).length = k := by
  induction k generalizing n with
  | zero => rfl
  | succ k ih => simp [leBytes, ih]

theorem ofLeBytes_leBytes (k n : Nat) : ofLeBytes (leBytes k n) = n % 256 ^ k := by
  induction k generalizing n with
  | zero => simp [leBytes, ofLeBytes, Nat.mod_one]
  | succ k ih =>
    calc
      ofLeBytes (leBytes (k + 1) n) = n % 256 + 256 * (n / 256 % 256 ^ k) := by
        simp [leBytes, ofLeBytes, ih]
      _ = n % (256 * 256 ^ k) := (Nat.mod_mul).symm
      _ = n % 256 ^ (k + 1) := by rw [pow_succ, mul_comm]

/-! ## Notes -/

def roundup4 (n : Nat) : Nat := (n + 3) / 4 * 4

/-- A note as a writer leaves it: `descsz` is the length in the header, `desc` are the bytes that
follow, and `pad` zero bytes are skipped after them. -/
structure Note where
  owner : List (BitVec 8)
  type : Nat
  descsz : Nat
  desc : List (BitVec 8)
  pad : Nat
  owner_lt : owner.length < 2 ^ 32 := by decide
  type_lt : type < 2 ^ 32 := by decide

namespace Note

def header (n : Note) : List (BitVec 8) :=
  leBytes 4 n.owner.length ++ leBytes 4 n.descsz ++ leBytes 4 n.type ++ n.owner

def bytes (n : Note) : List (BitVec 8) := n.header ++ n.desc ++ List.replicate n.pad 0

def size (n : Note) : Nat := 12 + n.owner.length + n.desc.length

def Padded (n : Note) : Prop := n.size + n.pad = roundup4 n.size

def Honest (n : Note) : Prop := n.descsz % 2 ^ 32 = n.desc.length

instance (n : Note) : Decidable n.Honest := inferInstanceAs (Decidable (_ = _))

theorem length_header (n : Note) : n.header.length = 12 + n.owner.length := by
  simp [header]
  omega

theorem length_bytes (n : Note) : n.bytes.length = n.size + n.pad := by
  simp [bytes, size, length_header]
  omega

end Note

def encode (notes : List Note) : List (BitVec 8) := notes.flatMap Note.bytes

/-! ## Reading -/

structure Header where
  namesz : Nat
  descsz : Nat
  type : Nat

def readHeader (buf : List (BitVec 8)) : Option Header :=
  if 12 ≤ buf.length then
    some ⟨ofLeBytes (buf.take 4), ofLeBytes ((buf.drop 4).take 4), ofLeBytes ((buf.drop 8).take 4)⟩
  else none

/-- The distance from a note to the next one, as its header has it. -/
def Header.skip (h : Header) : Nat := roundup4 (12 + h.namesz + h.descsz)

theorem Header.le_skip (h : Header) : 12 ≤ h.skip := by
  unfold skip roundup4
  omega

section

variable {σ : Type}

/-- Call `func` with the descriptor and its length for each note of the given type, until a call
returns something else than zero.  `none`: a header is read beyond the end of the buffer. -/
def walk (type : Nat) (func : List (BitVec 8) → Nat → σ → Int × σ) (buf : List (BitVec 8)) (s : σ) :
    Option (Int × σ) :=
  if buf = [] then some (0, s)
  else
    match hh : readHeader buf with
    | none => none
    | some h =>
      if h.type = type then
        let r := func ((buf.drop (12 + h.namesz)).take h.descsz) h.descsz s
        if r.1 ≠ 0 then some r else walk type func (buf.drop h.skip) r.2
      else walk type func (buf.drop h.skip) s
termination_by buf.length
decreasing_by
  all_goals
    have hlen : 12 ≤ buf.length := by
      by_contra hlt
      simp [readHeader, hlt] at hh
    have := h.le_skip
    rw [List.length_drop]
    omega

def visit (type : Nat) (func : List (BitVec 8) → Nat → σ → Int × σ) : List Note → σ → Int × σ
  | [], s => (0, s)
  | n :: notes, s =>
    if n.type = type then
      let r := func n.desc n.desc.length s
      if r.1 ≠ 0 then r else visit type func notes r.2
    else visit type func notes s

end

/-! ## One note -/

section

variable (n : Note) (rest : List (BitVec 8))
include n rest

theorem readHeader_bytes :
    readHeader (n.bytes ++ rest) = some ⟨n.owner.length, n.descsz % 2 ^ 32, n.type⟩ := by
  have hlen : 12 ≤ (n.bytes ++ rest).length := by
    rw [length_append, n.length_bytes, Note.size]
    omega
  have hshape : n.bytes ++ rest = leBytes 4 n.owner.length ++ (leBytes 4 n.descsz ++
      (leBytes 4 n.type ++ (n.owner ++ n.desc ++ List.replicate n.pad 0 ++ rest))) := by
    simp [Note.bytes, Note.header]
  have h1 : (n.bytes ++ rest).take 4 = leBytes 4 n.owner.length := by
    rw [hshape]
    exact take_left' (length_leBytes 4 _)
  have hd1 : (n.bytes ++ rest).drop 4 = leBytes 4 n.descsz ++
      (leBytes 4 n.type ++ (n.owner ++ n.desc ++ List.replicate n.pad 0 ++ rest)) := by
    rw [hshape]
    exact drop_left' (length_leBytes 4 _)
  have hd2 : (n.bytes ++ rest).drop 8 =
      leBytes 4 n.type ++ (n.owner ++ n.desc ++ List.replicate n.pad 0 ++ rest) := by
    have hsplit : (n.bytes ++ rest).drop (4 + 4) = ((n.bytes ++ rest).drop 4).drop 4 :=
      (drop_drop).symm
    rw [hd1] at hsplit
    exact hsplit.trans (drop_left' (length_leBytes 4 _))
  rw [readHeader, if_pos hlen, h1, hd1, hd2, take_left' (length_leBytes 4 _),
    take_left' (length_leBytes 4 _)]
  simp only [ofLeBytes_leBytes]
  rw [show (256 : Nat) ^ 4 = 2 ^ 32 from rfl, Nat.mod_eq_of_lt n.owner_lt,
    Nat.mod_eq_of_lt n.type_lt]

theorem drop_header :
    (n.bytes ++ rest).drop (12 + n.owner.length) = n.desc ++ (List.replicate n.pad 0 ++ rest) := by
  have hshape : n.bytes ++ rest = n.header ++ (n.desc ++ (List.replicate n.pad 0 ++ rest)) := by
    simp [Note.bytes]
  rw [hshape]
  exact drop_left' n.length_header

theorem ne_nil_of_note : n.bytes ++ rest ≠ [] := by
  intro h
  have := congrArg List.length h
  rw [length_append, n.length_bytes, Note.size, length_nil] at this
  omega

end

section

variable {σ : Type} {type : Nat} {func : List (BitVec 8) → Nat → σ → Int × σ} {n : Note}
variable {rest : List (BitVec 8)}

/-- The reader at a note, whatever its header states. -/
theorem walk_note (s : σ) : walk type func (n.bytes ++ rest) s =
      (let after := (n.bytes ++ rest).drop (roundup4 (12 + n.owner.length + n.descsz % 2 ^ 32))
      if n.type = type then
        let r := func ((n.desc ++ (List.replicate n.pad 0 ++ rest)).take (n.descsz % 2 ^ 32))
          (n.descsz % 2 ^ 32) s
        if r.1 ≠ 0 then some r else walk type func after r.2
      else walk type func after s) := by
  rw [walk, if_neg (ne_nil_of_note n rest)]
  split
  next hh =>
    rw [readHeader_bytes] at hh
    cases hh
  rename_i h hh
  rw [readHeader_bytes] at hh
  cases hh
  simp only [drop_header, Header.skip]

/-- The reader at an honest note goes on with the notes behind it. -/
theorem walk_honest (hn : n.Honest) (hnext : n.Padded ∨ n.pad = 0 ∧ rest = []) (s : σ) :
    walk type func (n.bytes ++ rest) s = if n.type = type then let r := func n.desc n.desc.length s
        if r.1 ≠ 0 then some r else walk type func rest r.2
      else walk type func rest s := by
  have hafter : (n.bytes ++ rest).drop (roundup4 (12 + n.owner.length + n.desc.length)) = rest := by
    rcases hnext with hpad | ⟨hpad, rfl⟩
    · exact drop_left' (n.length_bytes.trans hpad)
    -- the last note ends where the buffer ends
    refine drop_eq_nil_of_le ?_
    rw [append_nil, n.length_bytes, Note.size, hpad]
    unfold roundup4
    omega
  rw [walk_note, hn]
  simp only [hafter]
  rw [take_left' rfl]

end

/-! ## All notes -/

section

variable {notes : List Note} {last : Note}

theorem walk_encode {σ : Type} {type : Nat} {func : List (BitVec 8) → Nat → σ → Int × σ}
    (hpad : ∀ n ∈ notes, n.Padded) (hlast : last.pad = 0)
    (hhonest : ∀ n ∈ notes ++ [last], n.Honest) (s : σ) :
    walk type func (encode (notes ++ [last])) s = some (visit type func (notes ++ [last]) s) := by
  have hnil : ∀ t : σ, walk type func [] t = some (0, t) := by
    intro t
    rw [walk, if_pos rfl]
  induction notes generalizing s with
  | nil =>
    have hl : last.Honest := hhonest last (by simp)
    have hstep : walk type func (last.bytes ++ []) s = _ := walk_honest hl (.inr ⟨hlast, rfl⟩) s
    simp only [hnil] at hstep
    simp only [encode, nil_append, flatMap_cons, flatMap_nil, visit]
    rw [hstep]
    split
    · split <;> rfl
    · rfl
  | cons n notes ih =>
    have hn : n.Honest := hhonest n (by simp)
    have hrest := ih (fun n' hn' => hpad n' (by simp [hn']))
      (fun n' hn' => hhonest n' (.tail _ hn'))
    have hbytes : encode (n :: notes ++ [last]) = n.bytes ++ encode (notes ++ [last]) := rfl
    rw [hbytes, walk_honest hn (.inl (hpad n (by simp)))]
    simp only [cons_append, visit, hrest]
    split
    · split <;> rfl
    · rfl

/-- A handler that passes over `k` notes and stops at the next one with its length. -/
def stopAt (_ : List (BitVec 8)) (len : Nat) (k : Nat) : Int × Nat :=
  match k with
  | 0 => (1, len)
  | k + 1 => (0, k)

theorem honest_of_walk (hpad : ∀ n ∈ notes, n.Padded)
    (h : ∀ type k, walk type stopAt (encode (notes ++ [last])) k =
      some (visit type stopAt (notes ++ [last]) k)) : ∀ n ∈ notes ++ [last], n.Honest := by
  -- the handler that stops at the first note of its type shows what that header states
  have hfirst : ∀ (n : Note) (rest : List Note),
      walk n.type stopAt (n.bytes ++ encode rest) 0 = some (visit n.type stopAt (n :: rest) 0) →
        n.Honest := by
    intro n rest heq
    rw [walk_note] at heq
    simpa [visit, stopAt, Note.Honest] using heq
  induction notes with
  | nil =>
    intro n hn
    rw [nil_append, mem_singleton] at hn
    subst hn
    exact hfirst n [] (h n.type 0)
  | cons n notes ih =>
    have hn : n.Honest := hfirst n (notes ++ [last]) (h n.type 0)
    have hbytes : encode (n :: notes ++ [last]) = n.bytes ++ encode (notes ++ [last]) := rfl
    have hrest : ∀ type k, walk type stopAt (encode (notes ++ [last])) k =
        some (visit type stopAt (notes ++ [last]) k) := by
      intro type k
      by_cases htype : n.type = type
      · -- one note more is passed over
        have heq := h type (k + 1)
        rw [hbytes, walk_honest hn (.inl (hpad n (by simp)))] at heq
        simpa [visit, stopAt, htype] using heq
      have heq := h type k
      rw [hbytes, walk_honest hn (.inl (hpad n (by simp)))] at heq
      simpa [visit, htype] using heq
    intro n' hn'
    rcases mem_cons.1 hn' with rfl | hmem
    · exact hn
    · exact ih (fun m hm => hpad m (by simp [hm])) hrest n' hmem

/-- Every reader sees the notes that were written if and only if every header states the length of its
descriptor. -/
theorem walk_iff_honest (hpad : ∀ n ∈ notes, n.Padded) (hlast : last.pad = 0) :
    (∀ (σ : Type) (type : Nat) (func : List (BitVec 8) → Nat → σ → Int × σ) (s : σ),
      walk type func (encode (notes ++ [last])) s = some (visit type func (notes ++ [last]) s)) ↔
        ∀ n ∈ notes ++ [last], n.Honest :=
  ⟨fun h => honest_of_walk hpad fun type k => h Nat type stopAt k,
    fun h _ _ _ s => walk_encode hpad hlast h s⟩

end

end KontainMonitor.NoteStream
