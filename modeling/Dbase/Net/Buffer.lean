/-
  Dbase.Net.Buffer — `dbase::net::Buffer` (`buffer.h`, `buffer.cpp`).

  The storage is a list of bytes, `readerIndex` and `writerIndex` are naturals, and
  every `size_t` sum or difference the source forms is formed modulo `2 ^ 64`
  (`Lib.Word`). `memcpy` and `memmove` are `Lib.Bytes.slice` and `blit`: a copy that
  leaves the storage is undefined behaviour in the source; here it loses the bytes
  outside and the indices move as the code moves them.

  A member function that can throw returns its value or the exception together with
  the object as it is then (`Ret`). `std::vector<char>(n)` asks an allocator (`Alloc`)
  for `n` bytes, which refuses at least every size above `max_size()`. What a refusal throws, `std::length_error` there
  and `std::bad_alloc` below, is one exception here (`noStorage`): nothing in the class tells the two apart.

  A kernel call is its answer: `SysRead` and `SysWrite`. `readv` never delivers more
  than the vectors offer, and `write` never takes more than it is given nor more than
  `maxRwCount`, the limit Linux puts on one call.
-/

import Dbase.Error
import Dbase.Lib.Word
import Dbase.Net.Endian

namespace Dbase.Net.Buffer

open Dbase.Lib.Word Dbase.Lib.Bytes Dbase.Net.Endian

def kCheapPrepend : Nat := 8

/-- `sizeof(extrabuf)`, the stack buffer of `readFdResult`. -/
def extraBytes : Nat := 64 * 1024

structure Buf where
  buf : List UInt8
  readerIndex : Nat
  writerIndex : Nat
  deriving DecidableEq, Repr

/-- The vector sizes the allocator provides; `max_size()` is `PTRDIFF_MAX`. -/
structure Alloc where
  grants : Nat → Bool
  max_size : ∀ n, grants n = true → n < 2 ^ 63

abbrev Ret (α : Type) := Except Err α × Buf

/-! ## Observers -/

def readableBytes (b : Buf) : Nat := wsub 64 b.writerIndex b.readerIndex

def writableBytes (b : Buf) : Nat := wsub 64 b.buf.length b.writerIndex

def prependableBytes (b : Buf) : Nat := b.readerIndex

def capacity (b : Buf) : Nat := b.buf.length

/-- `readableView` and `readableSpan`. -/
def readableView (b : Buf) : List UInt8 := slice b.buf b.readerIndex (readableBytes b)

/-! ## Construction and retrieval -/

/-- `Buffer(initialSize)`. -/
def make (A : Alloc) (initialSize : Nat) : Except Err Buf :=
  let size := wadd 64 kCheapPrepend initialSize
  if A.grants size then .ok ⟨List.replicate size 0, kCheapPrepend, kCheapPrepend⟩ else .error .noStorage

def retrieveAll (b : Buf) : Buf := { b with readerIndex := kCheapPrepend, writerIndex := kCheapPrepend }

def retrieve (b : Buf) (len : Nat) : Buf :=
  if len < readableBytes b then { b with readerIndex := wadd 64 b.readerIndex len } else retrieveAll b

/-- `retrieveUntil(peek() + len)`. -/
def retrieveUntil (b : Buf) (len : Nat) : Buf := retrieve b len

def retrieveAsString (b : Buf) (len : Nat) : Ret (List UInt8) :=
  if readableBytes b < len then (.error (.outOfRange "Buffer::retrieveAsString len out of range"), b)
  else (.ok (slice b.buf b.readerIndex len), retrieve b len)

def retrieveAllAsString (b : Buf) : Ret (List UInt8) := retrieveAsString b (readableBytes b)

def clear (b : Buf) : Buf := retrieveAll b

def swap (b other : Buf) : Buf × Buf := (other, b)

/-! ## Space -/

def makeSpace (A : Alloc) (b : Buf) (len : Nat) : Ret Unit :=
  let readable := readableBytes b
  let b := if readable = 0 then { b with readerIndex := kCheapPrepend, writerIndex := kCheapPrepend } else b
  if readable = 0 ∧ len ≤ writableBytes b then (.ok (), b)
  else if len ≤ wsub 64 (wadd 64 (writableBytes b) (prependableBytes b)) kCheapPrepend then
    (.ok (), { buf := blit b.buf kCheapPrepend (slice b.buf b.readerIndex readable)
               readerIndex := kCheapPrepend
               writerIndex := wadd 64 kCheapPrepend readable })
  else
    let newSize := max (wmul 64 b.buf.length 2) (wadd 64 (wadd 64 kCheapPrepend readable) len)
    if A.grants newSize then
      (.ok (), { buf := blit (List.replicate newSize 0) kCheapPrepend (slice b.buf b.readerIndex readable)
                 readerIndex := kCheapPrepend
                 writerIndex := wadd 64 kCheapPrepend readable })
    else (.error .noStorage, b)

def ensureWritableBytes (A : Alloc) (b : Buf) (len : Nat) : Ret Unit :=
  if writableBytes b < len then makeSpace A b len else (.ok (), b)

def hasWritten (b : Buf) (len : Nat) : Buf := { b with writerIndex := wadd 64 b.writerIndex len }

def unwrite (b : Buf) (len : Nat) : Buf := { b with writerIndex := wsub 64 b.writerIndex len }

/-- `memcpy(beginWrite(), data, len)`. -/
def copyToTail (b : Buf) (data : List UInt8) : Buf := { b with buf := blit b.buf b.writerIndex data }

/-- The three statements every append shares: make room, copy, move `writerIndex`. -/
def appendBytes (A : Alloc) (b : Buf) (data : List UInt8) : Ret Unit :=
  match ensureWritableBytes A b data.length with
  | (.error e, b) => (.error e, b)
  | (.ok _, b) => (.ok (), hasWritten (copyToTail b data) data.length)

def append (A : Alloc) (b : Buf) (data : List UInt8) : Ret Unit :=
  if data.length = 0 then (.ok (), b) else appendBytes A b data

/-- `append(const Buffer&)`. -/
def appendBuffer (A : Alloc) (b other : Buf) : Ret Unit := append A b (readableView other)

def prepend (b : Buf) (data : List UInt8) : Ret Unit :=
  if data.length = 0 then (.ok (), b)
  else if prependableBytes b < data.length then
    (.error (.outOfRange "Buffer::prepend not enough prependable bytes"), b)
  else
    let readerIndex := wsub 64 b.readerIndex data.length
    (.ok (), { b with readerIndex := readerIndex, buf := blit b.buf readerIndex data })

def shrink (A : Alloc) (b : Buf) (reserve : Nat) : Ret Unit :=
  match make A (wadd 64 (readableBytes b) reserve) with
  | .error e => (.error e, b)
  | .ok other =>
    match append A other (readableView b) with
    | (.error e, _) => (.error e, b)
    | (.ok _, other) => (.ok (), (swap b other).1)

/-! ## Integers -/

def peekByte (t : IntTy) (what : String) (b : Buf) : Except Err Int :=
  if readableBytes b < t.size then .error (.outOfRange what)
  else .ok (ofRaw t (load native (slice b.buf b.readerIndex t.size)))

def peekWide (t : IntTy) (what : String) (b : Buf) : Except Err Int :=
  if readableBytes b < t.size then .error (.outOfRange what)
  else .ok (readInteger native t (slice b.buf b.readerIndex t.size))

def peekInt8 : Buf → Except Err Int := peekByte .int8 "Buffer::peekInt8 not enough readable bytes"
def peekInt16 : Buf → Except Err Int := peekWide .int16 "Buffer::peekInt16 not enough readable bytes"
def peekInt32 : Buf → Except Err Int := peekWide .int32 "Buffer::peekInt32 not enough readable bytes"
def peekInt64 : Buf → Except Err Int := peekWide .int64 "Buffer::peekInt64 not enough readable bytes"
def peekUInt8 : Buf → Except Err Int := peekByte .uint8 "Buffer::peekUInt8 not enough readable bytes"
def peekUInt16 : Buf → Except Err Int := peekWide .uint16 "Buffer::peekUInt16 not enough readable bytes"
def peekUInt32 : Buf → Except Err Int := peekWide .uint32 "Buffer::peekUInt32 not enough readable bytes"
def peekUInt64 : Buf → Except Err Int := peekWide .uint64 "Buffer::peekUInt64 not enough readable bytes"

/-- The `peek` of each type. -/
def peekInt : IntTy → Buf → Except Err Int
  | .int8 => peekInt8
  | .int16 => peekInt16
  | .int32 => peekInt32
  | .int64 => peekInt64
  | .uint8 => peekUInt8
  | .uint16 => peekUInt16
  | .uint32 => peekUInt32
  | .uint64 => peekUInt64

/-- `readInt8` .. `readUInt64`: peek, then `retrieve(sizeof(value))`. -/
def readInt (t : IntTy) (b : Buf) : Ret Int :=
  match peekInt t b with
  | .error e => (.error e, b)
  | .ok v => (.ok v, retrieve b t.size)

def appendByte (t : IntTy) (A : Alloc) (b : Buf) (v : Int) : Ret Unit := append A b (store native t.size (raw t v))

def appendWide (t : IntTy) (A : Alloc) (b : Buf) (v : Int) : Ret Unit := appendBytes A b (writeInteger native t v)

def appendInt8 : Alloc → Buf → Int → Ret Unit := appendByte .int8
def appendInt16 : Alloc → Buf → Int → Ret Unit := appendWide .int16
def appendInt32 : Alloc → Buf → Int → Ret Unit := appendWide .int32
def appendInt64 : Alloc → Buf → Int → Ret Unit := appendWide .int64
def appendUInt8 : Alloc → Buf → Int → Ret Unit := appendByte .uint8
def appendUInt16 : Alloc → Buf → Int → Ret Unit := appendWide .uint16
def appendUInt32 : Alloc → Buf → Int → Ret Unit := appendWide .uint32
def appendUInt64 : Alloc → Buf → Int → Ret Unit := appendWide .uint64

def appendInt : IntTy → Alloc → Buf → Int → Ret Unit
  | .int8 => appendInt8
  | .int16 => appendInt16
  | .int32 => appendInt32
  | .int64 => appendInt64
  | .uint8 => appendUInt8
  | .uint16 => appendUInt16
  | .uint32 => appendUInt32
  | .uint64 => appendUInt64

def prependByte (t : IntTy) (b : Buf) (v : Int) : Ret Unit := prepend b (store native t.size (raw t v))

def prependWide (t : IntTy) (what : String) (b : Buf) (v : Int) : Ret Unit :=
  if prependableBytes b < t.size then (.error (.outOfRange what), b)
  else
    let readerIndex := wsub 64 b.readerIndex t.size
    (.ok (), { b with readerIndex := readerIndex, buf := blit b.buf readerIndex (writeInteger native t v) })

def prependInt8 : Buf → Int → Ret Unit := prependByte .int8
def prependInt16 : Buf → Int → Ret Unit := prependWide .int16 "Buffer::prependInt16 not enough prependable bytes"
def prependInt32 : Buf → Int → Ret Unit := prependWide .int32 "Buffer::prependInt32 not enough prependable bytes"
def prependInt64 : Buf → Int → Ret Unit := prependWide .int64 "Buffer::prependInt64 not enough prependable bytes"
def prependUInt8 : Buf → Int → Ret Unit := prependByte .uint8
def prependUInt16 : Buf → Int → Ret Unit := prependWide .uint16 "Buffer::prependUInt16 not enough prependable bytes"
def prependUInt32 : Buf → Int → Ret Unit := prependWide .uint32 "Buffer::prependUInt32 not enough prependable bytes"
def prependUInt64 : Buf → Int → Ret Unit := prependWide .uint64 "Buffer::prependUInt64 not enough prependable bytes"

def prependInt : IntTy → Buf → Int → Ret Unit
  | .int8 => prependInt8
  | .int16 => prependInt16
  | .int32 => prependInt32
  | .int64 => prependInt64
  | .uint8 => prependUInt8
  | .uint16 => prependUInt16
  | .uint32 => prependUInt32
  | .uint64 => prependUInt64

/-! ## Reading from and writing to a descriptor -/

inductive IoStatus where
  | ok
  | wouldBlock
  | endOfFile
  | empty
  deriving DecidableEq, Repr

structure IoResult where
  bytes : Nat
  status : IoStatus
  deriving DecidableEq, Repr

/-- What the kernel answers a `readv`: the bytes it has, or `-1` with `errno`. -/
inductive SysRead where
  | data (bytes : List UInt8)
  | fail (errno : Nat)
  deriving DecidableEq, Repr

/-- What the kernel answers a `write`: how much it is willing to take, or `-1` with `errno`. -/
inductive SysWrite where
  | take (n : Nat)
  | fail (errno : Nat)
  deriving DecidableEq, Repr

def EAGAIN : Nat := 11

/-- `EWOULDBLOCK` is `EAGAIN` on Linux. -/
def isWouldBlockError (err : Nat) : Bool := err == EAGAIN

/-- The most bytes one `write` transfers on Linux. -/
def maxRwCount : Nat := 0x7ffff000

/-- The bytes of `len` offered that a `write` takes. -/
def taken (r : SysWrite) (len : Nat) : Nat :=
  match r with
  | .take n => min n (min len maxRwCount)
  | .fail _ => 0

/-- `SocketOps::write`: the `ssize_t` result cast to `int`. -/
def socketWrite (r : SysWrite) (len : Nat) : Int :=
  match r with
  | .take _ => toSigned 32 (taken r len)
  | .fail _ => -1

/-- `errno` after the call; a call that succeeded leaves it unspecified. -/
def errnoOf : SysWrite → Nat
  | .take _ => 0
  | .fail err => err

/-- The bytes the two vectors of `readFdResult` offer. -/
def offered (b : Buf) : Nat :=
  if writableBytes b < extraBytes then writableBytes b + extraBytes else writableBytes b

def readFdResult (A : Alloc) (b : Buf) (r : SysRead) : Ret (Except Error IoResult) :=
  match r with
  | .fail err =>
    if isWouldBlockError err then (.ok (.ok ⟨0, .wouldBlock⟩), b)
    else (.ok (.error (makeSystemError "Buffer::readFdResult failed" err)), b)
  | .data bytes =>
    let writable := writableBytes b
    let got := bytes.take (offered b)
    let n := got.length
    -- the kernel fills the storage tail first, then `extrabuf`
    let b := copyToTail b (got.take writable)
    if n = 0 then (.ok (.ok ⟨0, .endOfFile⟩), b)
    else if n ≤ writable then (.ok (.ok ⟨n, .ok⟩), hasWritten b n)
    else
      match append A (hasWritten b writable) (got.drop writable) with
      | (.error e, b) => (.error e, b)
      | (.ok _, b) => (.ok (.ok ⟨n, .ok⟩), b)

def writeFdResult (b : Buf) (r : SysWrite) : Except Error IoResult × Buf :=
  let readable := readableBytes b
  if readable = 0 then (.ok ⟨0, .empty⟩, b)
  else
    let n := socketWrite r readable
    if 0 < n then (.ok ⟨n.toNat, .ok⟩, retrieve b n.toNat)
    else if n = 0 then (.ok ⟨0, .endOfFile⟩, b)
    else if isWouldBlockError (errnoOf r) then (.ok ⟨0, .wouldBlock⟩, b)
    else (.error (makeSystemError "Buffer::writeFdResult failed" (errnoOf r)), b)

/-- `readFd` and `writeFd` keep only the byte count of an `Ok` result. -/
def okBytes : Except Error IoResult → Nat
  | .error _ => 0
  | .ok io => if io.status = .ok then io.bytes else 0

def readFd (A : Alloc) (b : Buf) (r : SysRead) : Ret Nat :=
  match readFdResult A b r with
  | (.error e, b) => (.error e, b)
  | (.ok ret, b) => (.ok (okBytes ret), b)

def writeFd (b : Buf) (r : SysWrite) : Nat × Buf := (okBytes (writeFdResult b r).1, (writeFdResult b r).2)

end Dbase.Net.Buffer
