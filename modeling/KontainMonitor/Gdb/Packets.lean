import Mathlib
import KontainMonitor.Lib.Transition

/-!
# Packets — the packets between gdb and the monitor (`km_gdb_stub.c`)

`recv_packet` puts the payload of a frame into the static `in_buffer`, over what earlier frames left
there, and looks for a sequence id in the buffer and not in the payload.  A stream of packets that
have no sequence ids is received as it was sent, but for those that were damaged.
-/

namespace KontainMonitor.Gdb

open Function List

/-- What `recv_char` returns without a failed assertion, `^C` apart. -/
abbrev Printable := { c : Char // ' ' ≤ c ∧ c ≤ '~' }

def bufmax : Nat := 16 * 1024

/-- The value of a digit from `a` to `f`, `0` to `9` or `A` to `F`. -/
def hexDigit (ch : Char) : Option Nat :=
  if 97 ≤ ch.toNat ∧ ch.toNat ≤ 102 then some (ch.toNat - 97 + 10)
  else if 48 ≤ ch.toNat ∧ ch.toNat ≤ 57 then some (ch.toNat - 48)
  else if 65 ≤ ch.toNat ∧ ch.toNat ≤ 70 then some (ch.toNat - 65 + 10)
  else none

def hex (ch : Char) : Int := (hexDigit ch).elim (-1) Int.ofNat

def hexByte (hi lo : Char) : Option Nat := do return 16 * (← hexDigit hi) + (← hexDigit lo)

/-- The frame that `recv_packet` takes, with the two characters of its checksum. -/
structure Frame where
  buffer : Nat → Char
  count : Nat
  hi : Char
  lo : Char
  rest : List Printable

mutual

/-- `recv_packet` while it waits for the start character; `none` is NULL. -/
def recvStart (buffer : Nat → Char) : List Printable → Option Frame
  | [] => none
  | ch :: s => if ch.1 = '$' then recvPayload buffer 0 0 s else recvStart buffer s

/-- From the label `retry` on. -/
def recvPayload (buffer : Nat → Char) (count checksum : Nat) : List Printable → Option Frame
  | [] => none
  | ch :: s =>
    if ch.1 = '$' then recvPayload buffer 0 0 s
    else if ch.1 = '#' then recvChecksum (update buffer count '\x00') count checksum s
    else if count + 1 < bufmax - 1 then
      recvPayload (update buffer count ch.1) (count + 1) ((checksum + ch.1.toNat) % 256) s
    else none

/-- After the payload; `checksum` and `xmitcsum` are of type `unsigned char`. -/
def recvChecksum (buffer : Nat → Char) (count checksum : Nat) : List Printable → Option Frame
  | hi :: lo :: s =>
    let xmitcsum := (hex hi.1 * 16 % 256 + hex lo.1) % 256
    if checksum ≠ xmitcsum then recvStart buffer s
    else some ⟨buffer, count, hi.1, lo.1, s⟩
  | _ => none

end

def Frame.packet (f : Frame) : Nat := if f.buffer 2 = ':' then 3 else 0

/-! ## Frames of a stream -/

inductive Scan
  | outside
  | payload (p : List Printable)
  | checksum (p : List Printable)
  | lastDigit (p : List Printable) (hi : Printable)

def payloadSum (p : List Printable) : Nat := (p.map fun ch => ch.1.toNat).sum % 256

/-- The first frame whose checksum is two digits for the sum of its payload, and the rest of the
stream; `none` if the stream ends before, or a payload is too long. -/
def firstFrame : Scan → List Printable → Option (List Printable × List Printable)
  | _, [] => none
  | .outside, ch :: s => firstFrame (if ch.1 = '$' then .payload [] else .outside) s
  | .payload p, ch :: s =>
    if ch.1 = '$' then firstFrame (.payload []) s
    else if ch.1 = '#' then firstFrame (.checksum p) s
    else if p.length + 1 < bufmax - 1 then firstFrame (.payload (p ++ [ch])) s
    else none
  | .checksum p, ch :: s => firstFrame (.lastDigit p ch) s
  | .lastDigit p hi, lo :: s =>
    if hexByte hi.1 lo.1 = some (payloadSum p) then some (p, s)
    else firstFrame .outside s

/-- A payload that a new start character cuts off, or a frame. -/
inductive Piece
  | cut (p : List Printable)
  | frame (p : List Printable) (hi lo : Printable)

/-- What a stream is split into, up to its end or a payload that is too long. -/
def pieces : Scan → List Printable → List Piece
  | _, [] => []
  | .outside, ch :: s => pieces (if ch.1 = '$' then .payload [] else .outside) s
  | .payload p, ch :: s =>
    if ch.1 = '$' then .cut p :: pieces (.payload []) s
    else if ch.1 = '#' then pieces (.checksum p) s
    else if p.length + 1 < bufmax - 1 then pieces (.payload (p ++ [ch])) s
    else []
  | .checksum p, ch :: s => pieces (.lastDigit p ch) s
  | .lastDigit p hi, lo :: s => .frame p hi lo :: pieces .outside s

/-- The first frame whose checksum is right, what is no digit counting as -1, has one of two digits,
and a payload of two characters or no colon in the third place of the buffer, where `third` stood
before the stream. -/
def FirstPlain (third : Char) : List Piece → Prop
  | [] => True
  | .cut p :: l => FirstPlain (p.unattach[2]?.getD third) l
  | .frame p hi lo :: l =>
    if payloadSum p = (hex hi.1 * 16 % 256 + hex lo.1) % 256 then
      (hexByte hi.1 lo.1).isSome ∧ (p.length < 2 → third ≠ ':')
    else FirstPlain ((p.unattach ++ ['\x00'])[2]?.getD third) l

def payloadStart (p : List Printable) : Nat := if p[2]?.any (·.1 = ':') then 3 else 0

def StringAt (buffer : Nat → Char) (start : Nat) (p : List Printable) : Prop :=
  (∀ i (hi : i < p.length), buffer (start + i) = p[i].1) ∧ buffer (start + p.length) = '\x00'

def PacketOk : Option Frame → Option (List Printable × List Printable) → Prop
  | none, none => True
  | some f, some (p, s) => f.rest = s ∧ f.packet = payloadStart p ∧
    StringAt f.buffer f.packet (p.drop (payloadStart p))
  | _, _ => False

def Frame.digits (f : Frame) : Bool := (hexByte f.hi f.lo).isSome

def overwrite (buffer : Nat → Char) (text : List Char) (i : Nat) : Char := text[i]?.getD (buffer i)

def received (buffer : Nat → Char) (p : List Printable) : Nat → Char :=
  overwrite buffer (p.unattach ++ ['\x00'])

/-- What is taken and what is right: frames whose checksum is not of digits may be taken too. -/
def Found (plain : Prop) : Option Frame → Option (List Printable × List Printable) → Prop
  | none, right => right = none ∧ plain
  | some f, right => ∃ p buffer, f.buffer = received buffer p ∧
    (right = if f.digits then some (p, f.rest) else firstFrame .outside f.rest) ∧
      (plain ↔ f.digits ∧ (p.length < 2 → f.buffer 2 ≠ ':'))

theorem hexDigit_lt {ch : Char} {a : Nat} (h : hexDigit ch = some a) : a < 16 := by
  rw [hexDigit] at h
  split_ifs at h <;> cases h <;> omega

theorem xmitcsum_eq {hi lo : Char} {n : Nat} (h : hexByte hi lo = some n) :
    (hex hi * 16 % 256 + hex lo) % 256 = n := by
  simp only [hexByte, do_eq_some, return_eq_some] at h
  rcases h with ⟨a, ha, b, hb, rfl⟩
  have ha16 := hexDigit_lt ha
  have hb16 := hexDigit_lt hb
  simp only [hex, ha, hb, Option.elim, Int.ofNat_eq_natCast]
  omega

section

variable (buffer : Nat → Char) (p : List Printable)

theorem update_overwrite (text : List Char) (c : Char) :
    update (overwrite buffer text) text.length c = overwrite buffer (text ++ [c]) := by
  funext i
  rcases Nat.lt_trichotomy i text.length with hlt | rfl | hgt
  · simp [overwrite, Nat.ne_of_lt hlt, getElem?_append_left hlt]
  · simp [overwrite]
  · have hlong : (text ++ [c]).length ≤ i := by simpa using Nat.succ_le_of_lt hgt
    simp [overwrite, Nat.ne_of_gt hgt, getElem?_eq_none hlong, Nat.le_of_lt hgt]

theorem overwrite_push (ch : Printable) : update (overwrite buffer p.unattach) p.length ch.1 =
    overwrite buffer (p ++ [ch]).unattach := by
  simpa using update_overwrite buffer p.unattach ch.1

theorem overwrite_end :
    update (overwrite buffer p.unattach) p.length '\x00' = received buffer p := by
  simpa [received] using update_overwrite buffer p.unattach '\x00'

theorem payloadSum_push (ch : Printable) :
    payloadSum (p ++ [ch]) = (payloadSum p + ch.1.toNat) % 256 := by
  simp [payloadSum]

theorem received_stringAt {k : Nat} (hk : k ≤ p.length) :
    StringAt (received buffer p) k (p.drop k) := by
  refine ⟨fun i hi => ?_, ?_⟩
  · rw [length_drop] at hi
    have hk' : k + i < p.length := by omega
    have hlt : k + i < p.unattach.length := by rwa [length_unattach]
    simp [received, overwrite, getElem?_append_left hlt, getElem?_eq_getElem hk']
  · simp [received, overwrite, hk]

/-- A payload of less than two characters leaves the third one of the buffer. -/
theorem received_two : if p.length < 2 then received buffer p 2 = buffer 2 ∧ payloadStart p = 0 else
    payloadStart p = if received buffer p 2 = ':' then 3 else 0 := by
  rcases Nat.lt_trichotomy p.length 2 with hlt | heq | hgt
  · rw [if_pos hlt]
    have hlong : (p.unattach ++ ['\x00']).length ≤ 2 := by
      rw [length_append, length_unattach]
      exact hlt
    simp [received, overwrite, getElem?_eq_none hlong, payloadStart, Nat.le_of_lt hlt]
  · simp [received, overwrite, payloadStart, ← heq]
  · rw [if_neg (by omega)]
    simp [received, overwrite, payloadStart, getElem?_append_left, hgt]

end

theorem found_taken (buffer : Nat → Char) (p : List Printable) (hi lo : Printable) (s : List Printable)
    {plain : Prop} {right : Option (List Printable × List Printable)}
    (hplain : plain ↔ (hexByte hi.1 lo.1).isSome ∧ (p.length < 2 → buffer 2 ≠ ':'))
    (hright : right = if (hexByte hi.1 lo.1).isSome then some (p, s) else firstFrame .outside s) :
    Found plain (some ⟨received buffer p, p.length, hi.1, lo.1, s⟩) right := by
  refine ⟨p, buffer, rfl, hright, hplain.trans (and_congr_right fun _ => forall_congr' fun hlt => ?_)⟩
  have htwo := received_two buffer p
  rw [if_pos hlt] at htwo
  dsimp only
  rw [htwo.1]

mutual

theorem recvStart_found (buffer : Nat → Char) :
    ∀ s, Found (FirstPlain (buffer 2) (pieces .outside s)) (recvStart buffer s) (firstFrame .outside s)
  | [] => ⟨rfl, trivial⟩
  | ch :: s => by
    simp only [recvStart, firstFrame, pieces]
    split
    · exact recvPayload_found buffer [] s
    · exact recvStart_found buffer s

theorem recvPayload_found (buffer : Nat → Char) (p : List Printable) :
    ∀ s, Found (FirstPlain (buffer 2) (pieces (.payload p) s))
      (recvPayload (overwrite buffer p.unattach) p.length (payloadSum p) s) (firstFrame (.payload p) s)
  | [] => ⟨rfl, trivial⟩
  | ch :: s => by
    simp only [recvPayload, firstFrame, pieces]
    split
    · exact recvPayload_found (overwrite buffer p.unattach) [] s
    split
    · rw [overwrite_end]
      exact recvChecksum_found buffer p s
    split
    · have hfound := recvPayload_found buffer (p ++ [ch]) s
      rwa [length_append, length_singleton, payloadSum_push, ← overwrite_push] at hfound
    · exact ⟨rfl, trivial⟩

theorem recvChecksum_found (buffer : Nat → Char) (p : List Printable) :
    ∀ s, Found (FirstPlain (buffer 2) (pieces (.checksum p) s))
      (recvChecksum (received buffer p) p.length (payloadSum p) s) (firstFrame (.checksum p) s)
  | [] => ⟨rfl, trivial⟩
  | [_] => ⟨rfl, trivial⟩
  | hi :: lo :: s => by
    simp only [recvChecksum, firstFrame, pieces, FirstPlain]
    cases hbyte : hexByte hi.1 lo.1 with
    | none =>
      -- only the code may take the frame
      rw [if_neg (Option.some_ne_none _).symm]
      by_cases heq : (payloadSum p : Int) = (hex hi.1 * 16 % 256 + hex lo.1) % 256
      · rw [if_neg (not_not_intro heq), if_pos heq]
        exact found_taken buffer p hi lo s (by rw [hbyte]) (by simp [hbyte])
      · rw [if_pos heq, if_neg heq]
        exact recvStart_found (received buffer p) s
    | some n =>
      simp only [xmitcsum_eq hbyte, Option.some.injEq, ne_eq, Int.ofNat_inj]
      by_cases heq : payloadSum p = n
      · rw [if_neg (not_not_intro heq), if_pos heq.symm, if_pos heq]
        exact found_taken buffer p hi lo s (by rw [hbyte]) (by simp [hbyte])
      · rw [if_pos heq, if_neg (Ne.symm heq), if_neg heq]
        exact recvStart_found (received buffer p) s

end

/-- A frame takes something from the stream. -/
theorem firstFrame_rest {p s' : List Printable} {st : Scan} {s : List Printable} :
    firstFrame st s = some (p, s') → s'.length < s.length := by
  fun_induction firstFrame st s <;> intro h <;> simp_all <;> omega

theorem payloadStart_le (p : List Printable) : payloadStart p ≤ p.length := by
  rcases Nat.lt_or_ge 2 p.length with hlt | hge
  · rw [payloadStart]
    split <;> omega
  · simp [payloadStart, getElem?_eq_none hge]

theorem packet_iff {f : Frame} {buffer : Nat → Char} {p : List Printable}
    (hf : f.buffer = received buffer p) :
    f.packet = payloadStart p ↔ (p.length < 2 → f.buffer 2 ≠ ':') := by
  have htwo := received_two buffer p
  rw [Frame.packet, hf]
  by_cases hlt : p.length < 2
  · rw [if_pos hlt] at htwo
    simp [htwo.2, hlt]
  · rw [if_neg hlt] at htwo
    simp [htwo, hlt]

/-- The first right packet of the stream is returned, unless the first frame whose checksum seems
right has one not of digits, or is too short to cover the colon of an earlier text. -/
theorem recv_packet_iff (buffer : Nat → Char) (s : List Printable) :
    PacketOk (recvStart buffer s) (firstFrame .outside s) ↔
      FirstPlain (buffer 2) (pieces .outside s) := by
  have hfound := recvStart_found buffer s
  cases hr : recvStart buffer s with
  | none =>
    rw [hr] at hfound
    simp [PacketOk, hfound.1, hfound.2]
  | some f =>
    rw [hr] at hfound
    rcases hfound with ⟨p, b, hf, hframe, hplain⟩
    rw [hframe, hplain]
    by_cases hdigits : f.digits
    · simp only [hdigits, if_true, true_and, PacketOk, ← packet_iff hf]
      refine ⟨fun h => h.1, fun h => ⟨h, ?_⟩⟩
      rw [h, hf]
      exact received_stringAt b p (payloadStart_le p)
    · simp only [hdigits, false_and, iff_false, Bool.false_eq_true, if_false]
      cases hlater : firstFrame .outside f.rest with
      | none => exact id
      | some r =>
        -- a later frame leaves less of the stream
        rintro ⟨hrest, -⟩
        have hless := firstFrame_rest hlater
        rw [hrest] at hless
        exact absurd hless (Nat.lt_irrefl _)

def stream (text : List Char) : List Printable :=
  text.filterMap fun c => if h : ' ' ≤ c ∧ c ≤ '~' then some ⟨c, h⟩ else none

def afterSequenceId : Nat → Char :=
  (evaluate (recvStart (fun _ => '\x00') (stream ['$', 'x', 'x', ':', 'm', '1', '#', 'c', '8']))).buffer

/-- The packet `g` comes, and the packet before is returned again. -/
theorem old_packet_returned :
    ((recvStart afterSequenceId (stream ['$', 'g', '#', '6', '7'])).map fun f =>
        (f.packet, f.buffer 3, f.buffer 4, f.buffer 5)) = some (3, 'm', '1', '\x00') ∧
      firstFrame .outside (stream ['$', 'g', '#', '6', '7']) = some (stream ['g'], []) := by
  decide +kernel

/-! ## Frames that are sent -/

def hexchars (n : Fin 16) : Printable := ⟨n.1.digitChar, by revert n; decide⟩

/-- `hexchars[ch >> 4]` and `hexchars[ch % 16]` -/
def hexPair (ch : BitVec 8) : Printable × Printable :=
  (hexchars (.ofNat 16 (ch.toNat / 16)), hexchars (.ofNat 16 ch.toNat))

def frame (payload : List Printable) (checksum : BitVec 8) : List Printable :=
  ⟨'$', by decide⟩ :: payload ++ [⟨'#', by decide⟩, (hexPair checksum).1, (hexPair checksum).2]

def sendPacketNoAck (buffer : List Printable) : List Printable :=
  frame buffer (.ofNat 8 (payloadSum buffer))

def mem2hex (mem : List (BitVec 8)) : List Printable :=
  mem.flatMap fun ch => [(hexPair ch).1, (hexPair ch).2]

/-- `hex2mem` from an index on; `none` is the failed assertion on the length of the string. -/
def hex2mem (buf : Nat → Char) : Nat → Nat → Option (List (BitVec 8))
  | _, 0 => some []
  | i, count + 1 =>
    if buf i = '\x00' ∨ buf (i + 1) = '\x00' then none
    else (hex2mem buf (i + 2) count).map
      (.ofInt 8 ((hex (buf i) * 16 % 256 + hex (buf (i + 1))) % 256) :: ·)

/-- A packet that is sent behind some noise; if it is damaged, the checksum is wrong. -/
structure Sent where
  noise : List Printable
  payload : List Printable
  damaged : Option (BitVec 8)
  outside : ∀ ch ∈ noise, ch.1 ≠ '$'
  inside : ∀ ch ∈ payload, ch.1 ≠ '$' ∧ ch.1 ≠ '#'
  short : payload.length < bufmax - 1
  noId : payloadStart payload = 0
  wrong : ∀ checksum ∈ damaged, payloadSum payload ≠ checksum.toNat

def Sent.wire (x : Sent) : List Printable :=
  x.noise ++ x.damaged.elim (sendPacketNoAck x.payload) (frame x.payload)

/-- The payload is returned, and hexadecimal at its end stands for the bytes it was made of. -/
def Delivered (f : Frame) (x : Sent) : Prop :=
  f.packet = 0 ∧ StringAt f.buffer 0 x.payload ∧ ∀ p mem, x.payload = p ++ mem2hex mem →
    hex2mem f.buffer (f.packet + p.length) mem.length = some mem

def recvPackets : Nat → (Nat → Char) → List Printable → List Frame
  | 0, _, _ => []
  | n + 1, buffer, s =>
    match recvStart buffer s with
    | none => []
    | some f => f :: recvPackets n f.buffer f.rest

section

variable {p : List Printable}

theorem recvStart_noise (buffer : Nat → Char) (s : List Printable) {noise : List Printable} :
    (∀ ch ∈ noise, ch.1 ≠ '$') → recvStart buffer (noise ++ s) = recvStart buffer s := by
  induction noise with
  | nil => exact fun _ => rfl
  | cons ch noise ih =>
    intro h
    rw [forall_mem_cons] at h
    rw [cons_append, recvStart, if_neg h.1, ih h.2]

/-- The rest `p` of a payload of which `q` has come is stored behind it. -/
theorem recvPayload_append (buffer : Nat → Char) (s : List Printable)
    (hp : ∀ ch ∈ p, ch.1 ≠ '$' ∧ ch.1 ≠ '#') (q : List Printable)
    (hlen : (q ++ p).length < bufmax - 1) :
    recvPayload (overwrite buffer q.unattach) q.length (payloadSum q) (p ++ ⟨'#', by decide⟩ :: s) =
      recvChecksum (received buffer (q ++ p)) (q ++ p).length (payloadSum (q ++ p)) s := by
  -- `q` takes the characters over from `p`
  induction p generalizing q with
  | nil => simp [recvPayload, overwrite_end]
  | cons ch p ih =>
    rw [forall_mem_cons] at hp
    have hroom : q.length + 1 < bufmax - 1 := by
      simp only [length_append, length_cons] at hlen
      omega
    have hrest := ih hp.2 (q ++ [ch]) (by simpa using hlen)
    rw [append_assoc, singleton_append, length_append, length_singleton, payloadSum_push] at hrest
    rw [cons_append, recvPayload, if_neg hp.1.1, if_neg hp.1.2, if_pos hroom, overwrite_push, hrest]

theorem hexByte_hexPair :
    ∀ ch : BitVec 8, hexByte (hexPair ch).1.1 (hexPair ch).2.1 = some ch.toNat := by
  decide +kernel

/-- A frame is taken or skipped, by its checksum. -/
theorem recvStart_frame (buffer : Nat → Char) (checksum : BitVec 8) (s : List Printable)
    (hp : ∀ ch ∈ p, ch.1 ≠ '$' ∧ ch.1 ≠ '#') (hlen : p.length < bufmax - 1) :
    recvStart buffer (frame p checksum ++ s) = if payloadSum p = checksum.toNat then
      some ⟨received buffer p, p.length, (hexPair checksum).1.1, (hexPair checksum).2.1, s⟩
    else recvStart (received buffer p) s := by
  rw [frame, cons_append, cons_append, recvStart, if_pos rfl, append_assoc]
  refine (recvPayload_append buffer (_ :: _ :: s) hp [] hlen).trans ?_
  rw [nil_append, recvChecksum, xmitcsum_eq (hexByte_hexPair _)]
  by_cases heq : payloadSum p = checksum.toNat <;> simp [heq]

theorem printable_ne_nul (ch : Printable) : ch.1 ≠ '\x00' := by
  intro h
  exact absurd (h ▸ ch.2.1) (by decide)

theorem hex2mem_mem2hex {buffer : Nat → Char} (mem : List (BitVec 8)) (p : List Printable)
    (h : StringAt buffer 0 (p ++ mem2hex mem)) : hex2mem buffer p.length mem.length = some mem := by
  induction mem generalizing p with
  | nil => rfl
  | cons ch mem ih =>
    have hhi : buffer p.length = (hexPair ch).1.1 := by
      simpa [mem2hex] using h.1 p.length (by simp [mem2hex])
    have hlo : buffer (p.length + 1) = (hexPair ch).2.1 := by
      simpa [mem2hex] using h.1 (p.length + 1) (by simp [mem2hex])
    have hrest : hex2mem buffer (p.length + 2) mem.length = some mem := by
      simpa using ih (p ++ [(hexPair ch).1, (hexPair ch).2]) (by simpa [mem2hex] using h)
    simp [hex2mem, hhi, hlo, printable_ne_nul, hrest, xmitcsum_eq (hexByte_hexPair ch)]

end

/-- Packets are received in the order they are sent in, each once, but for the damaged ones. -/
theorem packets_received (xs : List Sent) (n : Nat) (buffer : Nat → Char)
    (hbuffer : buffer 2 ≠ ':') :
    Forall₂ Delivered (recvPackets (xs.length + n) buffer (xs.flatMap Sent.wire))
      (xs.filter (·.damaged.isNone)) := by
  induction xs generalizing n buffer with
  | nil => cases n <;> exact .nil
  | cons x xs ih =>
    have hnext : received buffer x.payload 2 ≠ ':' := by
      have htwo := received_two buffer x.payload
      rw [x.noId] at htwo
      split_ifs at htwo with _ hcolon
      · rwa [htwo.1]
      · exact hcolon
    rw [flatMap_cons, length_cons, Nat.add_right_comm, recvPackets, Sent.wire, append_assoc,
      recvStart_noise _ _ x.outside]
    cases hx : x.damaged with
    | none =>
      rw [filter_cons_of_pos (by rw [hx]; rfl), Option.elim, sendPacketNoAck,
        recvStart_frame _ _ _ x.inside x.short, if_pos (by simp [payloadSum])]
      have hstring := received_stringAt buffer x.payload (Nat.zero_le _)
      refine .cons ⟨if_neg hnext, hstring, fun p mem hp => ?_⟩ (ih n _ hnext)
      rw [Frame.packet, if_neg hnext, Nat.zero_add]
      exact hex2mem_mem2hex mem p (hp ▸ hstring)
    | some checksum =>
      -- the call goes on to the next frame
      rw [filter_cons_of_neg (by simp [hx]), Option.elim, recvStart_frame _ _ _ x.inside x.short,
        if_neg (x.wrong checksum hx)]
      exact ih (n + 1) _ hnext

def packetG : List Sent :=
  [⟨stream ['+'], stream ['g'], some 0x66, by decide, by decide, by decide, by decide, by decide⟩,
    ⟨stream ['+'], stream ['g'], none, by decide, by decide, by decide, by decide, by decide⟩]

theorem packets_received_again : ∃ f, StringAt f.buffer 0 (stream ['g']) ∧
    recvPackets 3 (fun _ => '\x00') (packetG.flatMap Sent.wire) = [f] := by
  rcases forall₂_cons_right_iff.1 (packets_received packetG 1 (fun _ => '\x00') (by decide)) with
    ⟨f, l, hf, hl, heq⟩
  cases hl
  exact ⟨f, hf.2.1, heq⟩

end KontainMonitor.Gdb
