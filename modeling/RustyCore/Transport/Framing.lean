import Mathlib
import RustyCore.Lib.Framing

/-! The frames of the IPC transport: the four bytes of a little-endian length and then the payload. -/

namespace RustyCore
namespace Transport

/-- `std::io::ErrorKind`: the one kind the reader tells apart, and the others. -/
inductive ErrorKind where
  | unexpectedEof
  | other (text : String)
  deriving Repr, DecidableEq

structure Piece where
  bytes : List UInt8
  ne_nil : bytes ≠ []
  deriving Repr, DecidableEq

/-- An `AsyncRead`: what its polls yield, in order, before it is at its end. -/
abbrev Reader := List (Except ErrorKind Piece)

def toLeBytes (n : Nat) : List UInt8 :=
  [UInt8.ofNat n, UInt8.ofNat (n / 2 ^ 8), UInt8.ofNat (n / 2 ^ 16), UInt8.ofNat (n / 2 ^ 24)]

def fromLeBytes : List UInt8 → Nat
  | [] => 0
  | byte :: bytes => byte.toNat + 2 ^ 8 * fromLeBytes bytes

/-- `AsyncReadExt::read_exact`: polls until `n` bytes are read. What a poll has over stays with the reader. -/
def readExact : Nat → Reader → Except ErrorKind (List UInt8 × Reader)
  | 0, reader => .ok ([], reader)
  | _ + 1, [] => .error .unexpectedEof
  | _ + 1, .error e :: _ => .error e
  | n + 1, .ok piece :: reader =>
    if h : n + 1 < piece.bytes.length then
      .ok (piece.bytes.take (n + 1),
        .ok ⟨piece.bytes.drop (n + 1), by rwa [ne_eq, List.drop_eq_nil_iff, not_le]⟩ :: reader)
    else
      match readExact (n + 1 - piece.bytes.length) reader with
      | .error e => .error e
      | .ok (buf, reader) => .ok (piece.bytes ++ buf, reader)

/-- The payload with the reader after it, or nothing when the length meets the end of the connection. -/
def readFrame (reader : Reader) : Except ErrorKind (Option (List UInt8 × Reader)) :=
  match readExact 4 reader with
  | .error .unexpectedEof => .ok none
  | .error e => .error e
  | .ok (lenBuf, reader) =>
    match readExact (fromLeBytes lenBuf) reader with
    | .error e => .error e
    | .ok (buf, reader) => .ok (some (buf, reader))

def writeFrame (writer : List UInt8) (payload : List UInt8) : Except String (List UInt8) :=
  if payload.length < 2 ^ 32 then .ok (writer ++ toLeBytes payload.length ++ payload)
  else .error "frame payload exceeds u32::MAX bytes"

def writeFrames (payloads : List (List UInt8)) : Except String (List UInt8) := payloads.foldlM writeFrame []

/-- The frames `read_loop` takes up before the connection is closed or an error ends it. -/
def readLoop : Nat → Reader → List (List UInt8) × Except ErrorKind Unit
  | 0, _ => ([], .ok ())
  | fuel + 1, reader =>
    match readFrame reader with
    | .error e => ([], .error e)
    | .ok none => ([], .ok ())
    | .ok (some (bytes, reader)) => (bytes :: (readLoop fuel reader).1, (readLoop fuel reader).2)

def joined (pieces : List Piece) : List UInt8 := pieces.flatMap (·.bytes)

/-- All frames of the pieces. A frame takes four bytes at least, so the loop ends before the bound does. -/
def readFrames (pieces : List Piece) : List (List UInt8) × Except ErrorKind Unit :=
  readLoop ((joined pieces).length + 1) (pieces.map .ok)

end Transport
end RustyCore
