/-
  Dbase.Log.RotatingFileSink — `RotatingFileSink`: records are written to one file, which is renamed when it is full.

  A path is its text; the part before the file name ends with a separator, if there is one. The stream keeps what is
  written to it until a flush, until it is closed, or until it writes a part of it out by itself (`spill`); `file_size`
  sees what is on disk. Nobody else touches the files, there are no I/O errors, and sums of sizes do not wrap.
-/

import Mathlib

namespace Dbase.Log

abbrev FilePath := List Char

abbrev Files := FilePath → Option (List UInt8)

structure RotatingFileSink where
  parent : FilePath
  stem : FilePath
  extension : FilePath
  maxFileSize : Nat
  maxFiles : Nat
  maxFileSize_pos : 0 < maxFileSize
  maxFiles_pos : 0 < maxFiles

namespace RotatingFileSink

/-- The checks of the constructor; the text is that of its `invalid_argument`. -/
def make (parent stem extension : FilePath) (maxFileSize maxFiles : Nat) : Except String RotatingFileSink :=
  if hsize : maxFileSize = 0 then .error "RotatingFileSink maxFileSize must be greater than 0"
  else if hfiles : maxFiles = 0 then .error "RotatingFileSink maxFiles must be greater than 0"
  else .ok ⟨parent, stem, extension, maxFileSize, maxFiles, Nat.pos_of_ne_zero hsize, Nat.pos_of_ne_zero hfiles⟩

def filePath (k : RotatingFileSink) : FilePath := k.parent ++ (k.stem ++ k.extension)

def rotatedPath (k : RotatingFileSink) (index : Nat) : FilePath :=
  k.parent ++ (k.stem ++ '.' :: (Nat.toDigits 10 index ++ k.extension))

/-! ## Files -/

def fileSizeOrZero (files : Files) (filePath : FilePath) : Nat := ((files filePath).map List.length).getD 0

def removeIfExists (files : Files) (filePath : FilePath) : Files := Function.update files filePath none

/-- Of a file to another path. -/
def renameFile (files : Files) (src dst : FilePath) : Files :=
  Function.update (Function.update files dst (files src)) src none

/-! ## The sink -/

structure State where
  files : Files
  isOpen : Bool
  buffer : List UInt8

/-- The stream writes a part of its buffer out; where its file has lost its name, to a file without one. -/
def spill (k : RotatingFileSink) (n : Nat) (s : State) : State :=
  { s with files := Function.update s.files k.filePath ((s.files k.filePath).map (· ++ s.buffer.take n))
           buffer := s.buffer.drop n }

/-- `m_stream.flush()` -/
def flushStream (k : RotatingFileSink) (s : State) : State := spill k s.buffer.length s

def currentFileSizeNoLock (k : RotatingFileSink) (s : State) : Nat := fileSizeOrZero s.files k.filePath

def openNoLock (k : RotatingFileSink) (truncate : Bool) (s : State) : State :=
  { s with files := Function.update s.files k.filePath (some (if truncate then [] else (s.files k.filePath).getD []))
           isOpen := true }

/-- The loop of `rotateNoLock`, from an index down to 2. -/
def shift (k : RotatingFileSink) (files : Files) : Nat → Files
  | 0 | 1 => files
  | i + 2 =>
    let src := k.rotatedPath (i + 1)
    let dst := k.rotatedPath (i + 2)
    let files := if (files src).isSome then renameFile (removeIfExists files dst) src dst else files
    shift k files (i + 1)

def rotateNoLock (k : RotatingFileSink) (s : State) : State :=
  let s := if s.isOpen then { flushStream k s with isOpen := false } else s
  let files := removeIfExists s.files (k.rotatedPath k.maxFiles)
  let files := shift k files k.maxFiles
  let files :=
    if (files k.filePath).isSome then renameFile (removeIfExists files (k.rotatedPath 1)) k.filePath (k.rotatedPath 1)
    else files
  openNoLock k true { s with files := files }

/-- The test of `write`. -/
def isFull (k : RotatingFileSink) (s : State) (incomingBytes : Nat) : Bool :=
  0 < currentFileSizeNoLock k s ∧ k.maxFileSize < currentFileSizeNoLock k s + incomingBytes

def write (k : RotatingFileSink) (formatted : List UInt8) (s : State) : State :=
  let s := if s.isOpen then s else openNoLock k false s
  let incomingBytes := formatted.length + 1
  let s := if isFull k s incomingBytes then rotateNoLock k s else s
  -- the record and a line feed
  { s with buffer := s.buffer ++ (formatted ++ [10]) }

def flush (k : RotatingFileSink) (s : State) : State := if s.isOpen then flushStream k s else s

/-- The constructor, after its checks. -/
def create (k : RotatingFileSink) (truncate : Bool) (files : Files) : State := openNoLock k truncate ⟨files, false, []⟩

end RotatingFileSink

end Dbase.Log
