import Mathlib

/-!
# Scan — numbers in text, as `printf` writes and `scanf` reads them

Text is a list of characters; a C pointer into a string is the rest of the text from there on.  The
conversions are `%d` and `%x`; every other character of a format has to be found as it is.  What
`scan` yields are the values that were converted before the first mismatch, so their number is what
`sscanf` returns.
-/

namespace KontainMonitor.Scan

open List

/-! ## Digits -/

def digitVal (c : Char) : Option Nat :=
  if '0' ≤ c ∧ c ≤ '9' then some (c.toNat - '0'.toNat)
  else if 'a' ≤ c ∧ c ≤ 'f' then some (c.toNat - 'a'.toNat + 10)
  else if 'A' ≤ c ∧ c ≤ 'F' then some (c.toNat - 'A'.toNat + 10)
  else none

def digitIn (b : Nat) (c : Char) : Option Nat := (digitVal c).filter fun d => d < b

/-- All digits at the start of the text, after a value `acc`. -/
def digits (b : Nat) : Nat → List Char → Nat × List Char
  | acc, [] => (acc, [])
  | acc, c :: cs =>
    match digitIn b c with
    | some d => digits b (acc * b + d) cs
    | none => (acc, c :: cs)

theorem digitVal_digitChar : ∀ d, d < 16 → digitVal d.digitChar = some d := by decide

variable {b n : Nat} {c : Char} {rest : List Char}
variable {d : Nat}

theorem digitIn_digitChar (hb : b ≤ 16) (hd : d < b) : digitIn b d.digitChar = some d := by
  rw [digitIn, digitVal_digitChar d (by omega)]
  simp [hd]

/-- The text does not go on with something that belongs to a number. -/
def Ends (rest : List Char) : Prop := ∀ c ∈ rest.head?, digitVal c = none ∧ c ≠ 'x' ∧ c ≠ 'X'

theorem Ends.nil : Ends [] := by simp [Ends]

theorem Ends.cons (h : digitVal c = none ∧ c ≠ 'x' ∧ c ≠ 'X' := by decide) : Ends (c :: rest) := by
  intro c' hc'
  cases hc'
  exact h

theorem digits_of_ends {acc : Nat} (h : Ends rest) : digits b acc rest = (acc, rest) := by
  cases rest with
  | nil => rfl
  | cons c cs =>
    have hc : digitIn b c = none := by simp [digitIn, (h c (by simp)).1]
    simp [digits, hc]

theorem digits_toDigits (hb : 1 < b) (hb' : b ≤ 16) : ∀ (n acc : Nat) (rest : List Char), ∃ k,
      digits b acc (Nat.toDigits b n ++ rest) = digits b (acc * b ^ k + n) rest := by
  intro n
  induction n using Nat.strong_induction_on with
  | _ n ih =>
    intro acc rest
    by_cases hn : n < b
    · refine ⟨1, ?_⟩
      rw [Nat.toDigits_of_lt_base hn, singleton_append, digits, digitIn_digitChar hb' hn]
      simp
    -- the last digit comes off the end
    have hlt : n / b < n := Nat.div_lt_self (by omega) hb
    rcases ih (n / b) hlt acc ((n % b).digitChar :: rest) with ⟨k, hk⟩
    refine ⟨k + 1, ?_⟩
    rw [Nat.toDigits_of_base_le hb (by omega), append_assoc, singleton_append, hk,
      digits, digitIn_digitChar hb' (Nat.mod_lt n (by omega))]
    have hval : (acc * b ^ k + n / b) * b + n % b = acc * b ^ (k + 1) + n := by
      have := Nat.div_add_mod n b
      rw [Nat.pow_succ, Nat.add_mul, ← Nat.mul_assoc, Nat.mul_comm (n / b) b]
      omega
    simp only [hval]

theorem digits_toDigits_zero (hb : 1 < b) (hb' : b ≤ 16) (h : Ends rest) :
    digits b 0 (Nat.toDigits b n ++ rest) = (n, rest) := by
  rcases digits_toDigits hb hb' n 0 rest with ⟨k, hk⟩
  rw [hk, digits_of_ends h]
  simp

theorem digitVal_of_mem_toDigits (hb : 1 < b) (hb' : b ≤ 16) :
    ∀ n, ∀ c ∈ Nat.toDigits b n, ∃ d < b, c = d.digitChar := by
  intro n
  induction n using Nat.strong_induction_on with
  | _ n ih =>
    intro c hc
    by_cases hn : n < b
    · rw [Nat.toDigits_of_lt_base hn, mem_singleton] at hc
      exact ⟨n, hn, hc⟩
    rw [Nat.toDigits_of_base_le hb (by omega), mem_append, mem_singleton] at hc
    rcases hc with hc | hc
    · exact ih (n / b) (Nat.div_lt_self (by omega) hb) c hc
    · exact ⟨n % b, Nat.mod_lt n (by omega), hc⟩

/-! ## Printing -/

/-- `%d` -/
def showDec (i : Int) : List Char :=
  if i < 0 then '-' :: Nat.toDigits 10 i.natAbs else Nat.toDigits 10 i.natAbs

/-- `%x` -/
def showHex (n : Nat) : List Char := Nat.toDigits 16 n

theorem not_mem_toDigits (hb : 1 < b) (hb' : b ≤ 16) (hc : ∀ d, d < b → d.digitChar ≠ c) :
    c ∉ Nat.toDigits b n := by
  intro hmem
  rcases digitVal_of_mem_toDigits hb hb' n c hmem with ⟨d, hd, rfl⟩
  exact hc d hd rfl

theorem not_mem_showHex (n : Nat) (hc : ∀ d, d < 16 → d.digitChar ≠ c := by decide) :
    c ∉ showHex n := not_mem_toDigits (by decide) (by decide) hc

theorem not_mem_showDec (i : Int) (hc : ∀ d, d < 10 → d.digitChar ≠ c := by decide)
    (hminus : c ≠ '-' := by decide) : c ∉ showDec i := by
  have hdigits : c ∉ Nat.toDigits 10 i.natAbs := not_mem_toDigits (by decide) (by decide) hc
  unfold showDec
  split
  · rw [mem_cons, not_or]
    exact ⟨hminus, hdigits⟩
  · exact hdigits

/-! ## Reading -/

def skipBlanks (s : List Char) : List Char := s.dropWhile Char.isWhitespace

def sign : List Char → Bool × List Char
  | '-' :: s => (true, s)
  | '+' :: s => (false, s)
  | s => (false, s)

/-- The digits of a number, at least one. -/
def unsigned (b : Nat) (s : List Char) : Option (Nat × List Char) :=
  match s with
  | [] => none
  | c :: _ => if (digitIn b c).isSome then some (digits b 0 s) else none

def hexPrefix : List Char → List Char
  | '0' :: 'x' :: s => s
  | '0' :: 'X' :: s => s
  | s => s

def signed (neg : Bool) (n : Nat) : Int := if neg then -(n : Int) else n

/-- `%d` -/
def readDec (s : List Char) : Option (Int × List Char) :=
  let (neg, s) := sign (skipBlanks s)
  (unsigned 10 s).map fun r => (signed neg r.1, r.2)

/-- `%x` -/
def readHex (s : List Char) : Option (Int × List Char) :=
  let (neg, s) := sign (skipBlanks s)
  (unsigned 16 (hexPrefix s)).map fun r => (signed neg r.1, r.2)

/-- A directive of a format. -/
inductive Dir
  | dec
  | hex
  | lit (c : Char)

def scan : List Dir → List Char → List Int
  | [], _ => []
  | .dec :: ds, s =>
    match readDec s with
    | some (v, s') => v :: scan ds s'
    | none => []
  | .hex :: ds, s =>
    match readHex s with
    | some (v, s') => v :: scan ds s'
    | none => []
  | .lit c :: ds, s =>
    match s with
    | c' :: s' => if c' = c then scan ds s' else []
    | [] => []

/-- `strchr`: the text from the first `c` on. -/
def strchr (c : Char) : List Char → Option (List Char)
  | [] => none
  | d :: s => if d = c then some (d :: s) else strchr c s

@[simp] theorem strchr_cons_self {s : List Char} : strchr c (c :: s) = some (c :: s) := by
  simp [strchr]

theorem strchr_append {u v : List Char} (h : c ∉ u) : strchr c (u ++ v) = strchr c v := by
  induction u with
  | nil => rfl
  | cons d u ih =>
    rw [mem_cons, not_or] at h
    rw [cons_append, strchr, if_neg (Ne.symm h.1)]
    exact ih h.2

/-! ## Reading what was printed -/

theorem toDigits_cons (hb : 1 < b) (hb' : b ≤ 16) (n : Nat) :
    ∃ d cs, d < b ∧ Nat.toDigits b n = d.digitChar :: cs := by
  cases hc : Nat.toDigits b n with
  | nil => exact absurd hc Nat.toDigits_ne_nil
  | cons c cs =>
    rcases digitVal_of_mem_toDigits hb hb' n c (by rw [hc]; simp) with ⟨d, hd, rfl⟩
    exact ⟨d, cs, hd, rfl⟩

theorem unsigned_toDigits (hb : 1 < b) (hb' : b ≤ 16) (h : Ends rest) :
    unsigned b (Nat.toDigits b n ++ rest) = some (n, rest) := by
  rcases toDigits_cons hb hb' n with ⟨d, cs, hd, hcs⟩
  have hval := digits_toDigits_zero (n := n) hb hb' h
  rw [hcs] at hval ⊢
  rw [cons_append] at hval ⊢
  rw [unsigned, digitIn_digitChar hb' hd, hval]
  rfl

/-- A digit is neither a blank nor a sign. -/
theorem sign_skipBlanks_digit (hd : d < 16) (s : List Char) :
    sign (skipBlanks (d.digitChar :: s)) = (false, d.digitChar :: s) := by
  have hblank : ∀ d, d < 16 → (d.digitChar).isWhitespace = false := by decide
  have hsign : ∀ d, d < 16 → d.digitChar ≠ '-' ∧ d.digitChar ≠ '+' := by decide
  have hskip : skipBlanks (d.digitChar :: s) = d.digitChar :: s := by simp [skipBlanks, hblank d hd]
  rw [hskip]
  unfold sign
  split
  next heq =>
    exact absurd (List.cons.inj heq).1 (hsign d hd).1
  next heq =>
    exact absurd (List.cons.inj heq).1 (hsign d hd).2
  · rfl

theorem readDec_showDec (i : Int) (h : Ends rest) :
    readDec (showDec i ++ rest) = some (i, rest) := by
  unfold showDec
  split
  next hneg =>
    have hminus : sign (skipBlanks ('-' :: Nat.toDigits 10 i.natAbs ++ rest)) =
        (true, Nat.toDigits 10 i.natAbs ++ rest) := rfl
    simp only [readDec, hminus, unsigned_toDigits (by decide : 1 < 10) (by decide) h,
      Option.map_some, signed]
    congr 2
    simp only [if_true]
    omega
  rename_i hpos
  rcases toDigits_cons (b := 10) (by decide) (by decide) i.natAbs with ⟨d, cs, hd, hcs⟩
  have hsign : sign (skipBlanks (Nat.toDigits 10 i.natAbs ++ rest)) =
      (false, Nat.toDigits 10 i.natAbs ++ rest) := by
    rw [hcs]
    exact sign_skipBlanks_digit (by omega) _
  simp only [readDec, hsign, unsigned_toDigits (by decide : 1 < 10) (by decide) h,
    Option.map_some, signed]
  congr 2
  simp
  omega

theorem hexPrefix_toDigits (n : Nat) (h : Ends rest) :
    hexPrefix (Nat.toDigits 16 n ++ rest) = Nat.toDigits 16 n ++ rest := by
  have hx : ∀ d, d < 16 → d.digitChar ≠ 'x' ∧ d.digitChar ≠ 'X' := by decide
  -- the character after the first one is a digit, or the text ends there
  have hsecond : ∀ c c' s, Nat.toDigits 16 n ++ rest = c :: c' :: s → c' ≠ 'x' ∧ c' ≠ 'X' := by
    intro c c' s heq
    cases hd : Nat.toDigits 16 n with
    | nil => exact absurd hd Nat.toDigits_ne_nil
    | cons c1 cs =>
      rw [hd, cons_append] at heq
      have heq' := (List.cons.inj heq).2
      cases cs with
      | nil =>
        rw [nil_append] at heq'
        exact (h c' (by simp [heq'])).2
      | cons c2 cs =>
        rcases digitVal_of_mem_toDigits (b := 16) (by decide) (by decide) n c2
          (by rw [hd]; simp) with ⟨d, hlt, hc2⟩
        have : c2 = c' := (List.cons.inj heq').1
        rw [← this, hc2]
        exact hx d hlt
  unfold hexPrefix
  split
  next heq =>
    exact absurd rfl (hsecond _ _ _ heq).1
  next heq =>
    exact absurd rfl (hsecond _ _ _ heq).2
  · rfl

theorem readHex_showHex (n : Nat) (h : Ends rest) :
    readHex (showHex n ++ rest) = some ((n : Int), rest) := by
  rcases toDigits_cons (b := 16) (by decide) (by decide) n with ⟨d, cs, hd, hcs⟩
  have hsign : sign (skipBlanks (Nat.toDigits 16 n ++ rest)) =
      (false, Nat.toDigits 16 n ++ rest) := by
    rw [hcs]
    exact sign_skipBlanks_digit hd _
  simp only [readHex, showHex, hsign, hexPrefix_toDigits n h,
    unsigned_toDigits (by decide : 1 < 16) (by decide) h, Option.map_some, signed]
  rfl

@[simp] theorem scan_nil (s : List Char) : scan [] s = [] := by
  cases s <;> rfl

theorem scan_dec (ds : List Dir) (i : Int) (h : Ends rest) :
    scan (.dec :: ds) (showDec i ++ rest) = i :: scan ds rest := by
  simp only [scan, readDec_showDec i h]

theorem scan_hex (ds : List Dir) (n : Nat) (h : Ends rest) :
    scan (.hex :: ds) (showHex n ++ rest) = (n : Int) :: scan ds rest := by
  simp only [scan, readHex_showHex n h]

@[simp] theorem scan_lit (ds : List Dir) (c : Char) (s : List Char) :
    scan (.lit c :: ds) (c :: s) = scan ds s := by
  simp [scan]

end KontainMonitor.Scan
