/-
  Dbase.Net.LengthFieldCodec — `LengthFieldCodec` (`length_field_codec.h`,
  `length_field_codec.cpp`): a frame is a big-endian length field of 1, 2, 4 or 8 bytes
  followed by the payload; the field counts the payload (`payloadOnly`) or the whole
  frame (`wholeFrame`).

  A codec carries what its constructor checks. Lengths are `uint64_t`: every sum the
  source forms is formed modulo `2 ^ 64`.
-/

import Dbase.Net.Buffer

namespace Dbase.Net.LengthFieldCodec

open Dbase.Lib.Word
open Dbase.Net.Buffer (Buf Alloc Ret readableBytes)

inductive LengthMode where
  | payloadOnly
  | wholeFrame
  deriving DecidableEq, Repr

inductive DecodeStatus where
  | ok
  | needMoreData
  | invalidLength
  | exceedMaxFrameLength
  deriving DecidableEq, Repr

structure DecodeResult where
  status : DecodeStatus
  payload : List UInt8
  deriving DecidableEq, Repr

structure Codec where
  lengthFieldBytes : Nat
  lengthMode : LengthMode
  maxFrameLength : Nat
  width : lengthFieldBytes = 1 ∨ lengthFieldBytes = 2 ∨ lengthFieldBytes = 4 ∨ lengthFieldBytes = 8
  positive : 0 < maxFrameLength
  size : maxFrameLength < 2 ^ 64

/-- The constructor. -/
def make (lengthFieldBytes : Nat) (lengthMode : LengthMode) (maxFrameLength : Nat) (size : maxFrameLength < 2 ^ 64) :
    Except Err Codec :=
  if width : lengthFieldBytes = 1 ∨ lengthFieldBytes = 2 ∨ lengthFieldBytes = 4 ∨ lengthFieldBytes = 8 then
    if positive : 0 < maxFrameLength then
      .ok ⟨lengthFieldBytes, lengthMode, maxFrameLength, width, positive, size⟩
    else .error (.invalidArgument "LengthFieldCodec maxFrameLength must be greater than 0")
  else .error (.invalidArgument "LengthFieldCodec lengthFieldBytes must be one of 1, 2, 4, 8")

def peekLengthField (c : Codec) (b : Buf) : Except Err Nat :=
  match c.lengthFieldBytes with
  | 1 => (Buffer.peekUInt8 b).map Int.toNat
  | 2 => (Buffer.peekUInt16 b).map Int.toNat
  | 4 => (Buffer.peekUInt32 b).map Int.toNat
  | 8 => (Buffer.peekUInt64 b).map Int.toNat
  | _ => .error (.logicError "LengthFieldCodec invalid length field bytes")

def appendLengthField (A : Alloc) (c : Codec) (b : Buf) (value : Nat) : Ret Unit :=
  match c.lengthFieldBytes with
  | 1 => Buffer.appendUInt8 A b value
  | 2 => Buffer.appendUInt16 A b value
  | 4 => Buffer.appendUInt32 A b value
  | 8 => Buffer.appendUInt64 A b value
  | _ => (.error (.logicError "LengthFieldCodec invalid length field bytes"), b)

/-- The `switch` of `encode`: the value must be in the range of the field. -/
def checkRange (c : Codec) (encodedLength : Nat) : Except Err Unit :=
  match c.lengthFieldBytes with
  | 1 => if encodedLength > 2 ^ 8 - 1 then .error (.lengthError "LengthFieldCodec encoded length exceeds uint8_t range")
         else .ok ()
  | 2 => if encodedLength > 2 ^ 16 - 1 then .error (.lengthError "LengthFieldCodec encoded length exceeds uint16_t range")
         else .ok ()
  | 4 => if encodedLength > 2 ^ 32 - 1 then .error (.lengthError "LengthFieldCodec encoded length exceeds uint32_t range")
         else .ok ()
  | 8 => .ok ()
  | _ => .error (.logicError "LengthFieldCodec invalid length field bytes")

/-- `encode(payload, outBuffer)`. -/
def encode (A : Alloc) (c : Codec) (payload : List UInt8) (out : Buf) : Ret Unit :=
  let payloadLength := payload.length
  let frameLength := wadd 64 payloadLength c.lengthFieldBytes
  let encodedLength := if c.lengthMode = .payloadOnly then payloadLength else frameLength
  match checkRange c encodedLength with
  | .error e => (.error e, out)
  | .ok _ =>
    if frameLength > c.maxFrameLength then
      (.error (.lengthError "LengthFieldCodec frame length exceeds maxFrameLength"), out)
    else
      match Buffer.ensureWritableBytes A out frameLength with
      | (.error e, out) => (.error e, out)
      | (.ok _, out) =>
        match appendLengthField A c out encodedLength with
        | (.error e, out) => (.error e, out)
        | (.ok _, out) => Buffer.append A out payload

/-- `encode(payload)`: into a buffer of its own. -/
def encodeNew (A : Alloc) (c : Codec) (payload : List UInt8) : Except Err Buf :=
  match Buffer.make A (wadd 64 payload.length c.lengthFieldBytes) with
  | .error e => .error e
  | .ok out =>
    match encode A c payload out with
    | (.error e, _) => .error e
    | (.ok _, out) => .ok out

def tryDecode (c : Codec) (b : Buf) : Ret DecodeResult :=
  if readableBytes b < c.lengthFieldBytes then (.ok ⟨.needMoreData, []⟩, b)
  else
    match peekLengthField c b with
    | .error e => (.error e, b)
    | .ok encodedLength =>
      if c.lengthMode = .wholeFrame ∧ encodedLength < c.lengthFieldBytes then (.ok ⟨.invalidLength, []⟩, b)
      else
        let payloadLength :=
          if c.lengthMode = .payloadOnly then encodedLength else wsub 64 encodedLength c.lengthFieldBytes
        let frameLength :=
          if c.lengthMode = .payloadOnly then wadd 64 payloadLength c.lengthFieldBytes else encodedLength
        if frameLength > c.maxFrameLength then (.ok ⟨.exceedMaxFrameLength, []⟩, b)
        else if readableBytes b < frameLength then (.ok ⟨.needMoreData, []⟩, b)
        else
          match Buffer.retrieveAsString (Buffer.retrieve b c.lengthFieldBytes) payloadLength with
          | (.error e, b) => (.error e, b)
          | (.ok payload, b) => (.ok ⟨.ok, payload⟩, b)

end Dbase.Net.LengthFieldCodec
