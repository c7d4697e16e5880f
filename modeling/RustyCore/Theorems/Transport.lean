import RustyCore.Transport.Framing

/-! Reading back what was written to the IPC transport, whole or cut off. The reader sees the bytes of the pieces and
    not how they were cut, so it does to them what the frames of the stream say, but one thing: a stream that is cut
    inside a length ends like one that is cut between two frames. -/

namespace RustyCore

open List
namespace Transport
open LengthCode (Ending)

variable {pieces : List Piece} {payloads : List (List UInt8)} {bytes : List UInt8} {n fuel : Nat}

def code : LengthCode UInt8 where
  width := 4
  bound := 2 ^ 32
  encode := toLeBytes
  decode := fromLeBytes
  width_pos := by decide
  length_encode _ := rfl
  decode_encode {n} h := by
    simp only [toLeBytes, fromLeBytes, UInt8.toNat_ofNat']
    omega

theorem writeFrame_eq {payload : List UInt8} (h : payload.length < 2 ^ 32) :
    writeFrame bytes payload = .ok (bytes ++ code.frame payload) := by
  rw [writeFrame, if_pos h, append_assoc]
  rfl

theorem writeFrames_eq (h : ∀ payload ∈ payloads, payload.length < 2 ^ 32) :
    writeFrames payloads = .ok (code.stream payloads) := by
  suffices hfold : ∀ bytes, payloads.foldlM writeFrame bytes = .ok (bytes ++ code.stream payloads) by
    simpa [writeFrames] using hfold []
  induction payloads with
  | nil => simp [pure, Except.pure]
  | cons payload payloads ih =>
    intro bytes
    rw [foldlM_cons, writeFrame_eq (h payload mem_cons_self)]
    simpa [bind, Except.bind, append_assoc] using
      ih (fun p hp => h p (mem_cons_of_mem _ hp)) (bytes ++ code.frame payload)

@[simp] theorem joined_nil : joined [] = [] := rfl

@[simp] theorem joined_cons {piece : Piece} : joined (piece :: pieces) = piece.bytes ++ joined pieces := rfl

theorem readExact_short (h : (joined pieces).length < n) :
    readExact n (pieces.map .ok) = .error .unexpectedEof := by
  induction pieces generalizing n with
  | nil =>
    obtain ⟨n, rfl⟩ := Nat.exists_eq_succ_of_ne_zero (Nat.ne_of_gt (by simpa using h))
    rfl
  | cons piece pieces ih =>
    simp only [joined_cons, length_append] at h
    obtain ⟨n, rfl⟩ := Nat.exists_eq_succ_of_ne_zero (by omega : n ≠ 0)
    simp only [map_cons, readExact]
    rw [dif_neg (by omega), ih (by omega)]

theorem readExact_joined (h : n ≤ (joined pieces).length) : ∃ rest,
    readExact n (pieces.map .ok) = .ok ((joined pieces).take n, rest.map .ok) ∧
      joined rest = (joined pieces).drop n := by
  induction pieces generalizing n with
  | nil =>
    obtain rfl : n = 0 := by simpa using h
    exact ⟨[], rfl, rfl⟩
  | cons piece pieces ih =>
    rcases n with _ | n
    · exact ⟨piece :: pieces, rfl, rfl⟩
    simp only [joined_cons, length_append] at h
    simp only [map_cons, readExact, joined_cons]
    by_cases hlt : n + 1 < piece.bytes.length
    · rw [dif_pos hlt]
      have hne : piece.bytes.drop (n + 1) ≠ [] := by rwa [ne_eq, drop_eq_nil_iff, not_le]
      refine ⟨⟨piece.bytes.drop (n + 1), hne⟩ :: pieces, ?_, ?_⟩
      · rw [take_append_of_le_length hlt.le]
        rfl
      · rw [joined_cons, drop_append_of_le_length hlt.le]
    · have hle : piece.bytes.length ≤ n + 1 := Nat.le_of_not_lt hlt
      obtain ⟨rest, hread, hrest⟩ := ih (n := n + 1 - piece.bytes.length) (by omega)
      refine ⟨rest, ?_, ?_⟩
      · rw [dif_neg hlt, hread, take_append, take_of_length_le hle]
      · rw [hrest, drop_append, drop_of_length_le hle, nil_append]

/-- How `read_loop` ends where the items stop. -/
def outcome : Ending → Except ErrorKind Unit
  | .boundary | .inLength => .ok ()
  | .inPayload => .error .unexpectedEof

theorem readFrame_eq {reader : Reader} : readFrame reader =
    match readExact code.width reader with
    | .error .unexpectedEof => .ok none
    | .error e => .error e
    | .ok (lenBuf, reader) =>
      match readExact (code.decode lenBuf) reader with
      | .error e => .error e
      | .ok (buf, reader) => .ok (some (buf, reader)) := rfl

theorem readLoop_split : readLoop fuel (pieces.map .ok) =
    ((code.split fuel (joined pieces)).1, outcome (code.split fuel (joined pieces)).2) := by
  induction fuel generalizing pieces with
  | zero => rfl
  | succ fuel ih =>
    by_cases hlength : (joined pieces).length < code.width
    · simp only [readLoop, readFrame_eq, readExact_short hlength, LengthCode.split, hlength]
      split <;> rfl
    · have hne : (joined pieces).isEmpty = false := by
        rw [isEmpty_eq_false_iff, ← length_pos_iff]
        have := code.width_pos
        omega
      obtain ⟨rest, hread, hrest⟩ := readExact_joined (Nat.le_of_not_lt hlength)
      simp only [readLoop, readFrame_eq, hread, LengthCode.split, hne, hlength, Bool.false_eq_true, if_false, ← hrest]
      by_cases hpayload : (joined rest).length < code.decode ((joined pieces).take code.width)
      · rw [readExact_short hpayload, if_pos hpayload]
        rfl
      · obtain ⟨rest', hread', hrest'⟩ := readExact_joined (Nat.le_of_not_lt hpayload)
        rw [hread', if_neg hpayload, ← hrest']
        simp only [ih]

theorem readFrames_take (h : ∀ payload ∈ payloads, payload.length < 2 ^ 32)
    (hbytes : joined pieces = (code.stream payloads).take n) (hn : n ≤ (code.stream payloads).length) :
    readFrames pieces = (code.whole payloads n, outcome (code.ending (code.surplus payloads n))) := by
  have hlength : (joined pieces).length = n := by rw [hbytes, length_take, Nat.min_eq_left hn]
  have hsplit : code.split (n + 1) ((code.stream payloads).take n) =
      (code.whole payloads n, code.ending (code.surplus payloads n)) := LengthCode.split_take h hn n.lt_succ_self
  rw [readFrames, readLoop_split, hlength, hbytes, hsplit]

/-- The frames that lie in the first `n` bytes are read, and the end is clean at a frame boundary alone. -/
def Told (payloads : List (List UInt8)) (n : Nat) (read : List (List UInt8) × Except ErrorKind Unit) : Prop :=
  read.1 = code.whole payloads n ∧ (read.2 = .ok () ↔ code.surplus payloads n = 0)

/-- The first `n` bytes end with one, two or three bytes of a length. -/
def CutInLength (payloads : List (List UInt8)) (n : Nat) : Prop :=
  0 < code.surplus payloads n ∧ code.surplus payloads n < 4

theorem outcome_eq_ok : outcome (code.ending n) = .ok () ↔ n < 4 := by
  have hwidth : code.width = 4 := rfl
  unfold LengthCode.ending
  rw [hwidth]
  split_ifs with hzero hlt
  · simp [outcome, hzero]
  · simp [outcome, hlt]
  · simp [outcome, hlt]

/-- What was written is read back, in whatever pieces it comes. Of a stream that is cut off, the whole frames are
    read, and the cut is told from a clean end unless it falls inside a length. -/
theorem frames_told_iff (h : ∀ payload ∈ payloads, payload.length < 2 ^ 32) : ∃ bytes,
    writeFrames payloads = .ok bytes ∧
      (∀ pieces, joined pieces = bytes → readFrames pieces = (payloads, .ok ())) ∧
      ∀ pieces, joined pieces <+: bytes →
        (Told payloads (joined pieces).length (readFrames pieces) ↔
          ¬CutInLength payloads (joined pieces).length) := by
  refine ⟨_, writeFrames_eq h, fun pieces hpieces => ?_, fun pieces hpieces => ?_⟩
  · have hbytes : joined pieces = (code.stream payloads).take (code.stream payloads).length := by
      rw [hpieces, take_length]
    rw [readFrames_take h hbytes le_rfl, LengthCode.whole_stream, LengthCode.surplus_stream]
    rfl
  · have hbytes := prefix_iff_eq_take.mp hpieces
    rw [readFrames_take h hbytes hpieces.length_le]
    simp only [Told, CutInLength, true_and, outcome_eq_ok]
    omega

namespace Sample

def sent : List (List UInt8) := [[104, 105], []]

def received : List Piece := [⟨[2, 0, 0], by decide⟩, ⟨[0, 104, 105, 0, 0], by decide⟩]

theorem frames_told : ∃ bytes, writeFrames sent = .ok bytes ∧
    (∀ pieces, joined pieces = bytes → readFrames pieces = (sent, .ok ())) ∧
    ∀ pieces, joined pieces <+: bytes →
      (Told sent (joined pieces).length (readFrames pieces) ↔ ¬CutInLength sent (joined pieces).length) :=
  frames_told_iff (by decide)

/-- The connection is closed inside the second length, and the reader takes that for its end. -/
theorem cut_untold : (∃ bytes, writeFrames sent = .ok bytes ∧ joined received <+: bytes) ∧
    readFrames received = ([[104, 105]], .ok ()) ∧ ¬Told sent (joined received).length (readFrames received) := by
  have hread : readFrames received = ([[104, 105]], .ok ()) := by rfl
  have hover : code.surplus sent (joined received).length = 2 := by decide
  refine ⟨⟨[2, 0, 0, 0, 104, 105, 0, 0, 0, 0], by rfl, by decide⟩, hread, fun htold => ?_⟩
  have hzero := htold.2.mp (congrArg Prod.snd hread)
  omega

end Sample

end Transport
end RustyCore
