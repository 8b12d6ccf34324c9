/-
  Dbase.Fs.WriteAtomic — `writeTextAtomic` and `writeBytesAtomic` on one path (`fs.cpp`): `writeAtomicImpl` in the steps
  that other calls can come between.

  A directory entry leads to a file, a file is its bytes. The temporary file has one name for every call, so two calls
  that have it open write to the same file. Opening truncates the file that the name leads to, or makes one; a stream
  writes the next piece of the content, as long as it likes, where its last one ended, whatever the file is called by
  then; between the end of a file and an offset beyond it there are zeros. `rename` moves the entry.

  Every step that the system may refuse has the refusal as a second outcome. A stream that has failed may still write
  what it holds back when it is closed. What `filesystem_error` carries, and the text of the other errors, is left out:
  a call comes back with success or not (by an error, or by the exception of a `remove` that is refused).
-/

import Dbase.Lib.Machine

namespace Dbase.Fs.WriteAtomic

abbrev Bytes := List UInt8

structure Disk where
  files : Nat → Bytes
  /-- the number of the next new file -/
  next : Nat
  temp : Option Nat
  target : Option Nat

/-- The bytes of `file` after a write of `piece` at `offset`. -/
def writeAt (file : Bytes) (offset : Nat) (piece : Bytes) : Bytes :=
  (file ++ List.replicate (offset - file.length) 0).take offset ++ piece ++ file.drop (offset + piece.length)

namespace Disk

/-- `std::ios::trunc`: the file that is opened, empty. -/
def openTemp (d : Disk) : Nat × Disk :=
  match d.temp with
  | some file => (file, { d with files := Function.update d.files file [] })
  | none => (d.next, { d with files := Function.update d.files d.next [], next := d.next + 1, temp := some d.next })

def write (d : Disk) (file offset : Nat) (piece : Bytes) : Disk :=
  { d with files := Function.update d.files file (writeAt (d.files file) offset piece) }

/-- `rename(temp, target)`; there may be nothing to rename. -/
def rename (d : Disk) : Option Disk :=
  match d.temp with
  | some file => some { d with temp := none, target := some file }
  | none => none

def removeTemp (d : Disk) : Disk := { d with temp := none }

/-- What a reader of the target finds. -/
def content (d : Disk) : Option Bytes := d.target.map d.files

end Disk

/-- Where a call is. -/
inductive Phase where
  | idle
  /-- the parent directory is there -/
  | started (content : Bytes)
  | writing (content : Bytes) (file offset : Nat)
  /-- the stream is not `good` any more -/
  | failing (content : Bytes) (file offset : Nat)
  /-- flushed and closed -/
  | written (content : Bytes)
  /-- `rename` has failed -/
  | removing (content : Bytes)
  | returned (content : Bytes) (success : Bool)
  deriving DecidableEq, Repr

structure State (W : Type) where
  disk : Disk
  phase : W → Phase

inductive Label (W : Type) where
  /-- `ensureParentDirectory` succeeds or not -/
  | call (w : W) (content : Bytes) (parent : Bool)
  | openTemp (w : W) (isOpen : Bool)
  | write (w : W) (length : Nat)
  | fail (w : W)
  | close (w : W)
  | rename (w : W) (allowed : Bool)
  /-- `remove` throws where it is not allowed -/
  | remove (w : W) (allowed : Bool)
  deriving DecidableEq, Repr

variable {W : Type} [DecidableEq W]

def State.setPhase (s : State W) (w : W) (p : Phase) : State W := { s with phase := Function.update s.phase w p }

def State.setDisk (s : State W) (d : Disk) : State W := { s with disk := d }

def piece (content : Bytes) (offset length : Nat) : Bytes := (content.drop offset).take length

def step (s : State W) : Label W → Option (State W)
  | .call w content parent =>
    match s.phase w with
    | .idle => some (s.setPhase w (if parent then .started content else .returned content false))
    | _ => none
  | .openTemp w isOpen =>
    match s.phase w with
    | .started content =>
      if isOpen then some ((s.setDisk s.disk.openTemp.2).setPhase w (.writing content s.disk.openTemp.1 0))
      else some (s.setPhase w (.returned content false))
    | _ => none
  | .write w length =>
    match s.phase w with
    | .writing content file offset =>
      let p := piece content offset length
      some ((s.setDisk (s.disk.write file offset p)).setPhase w (.writing content file (offset + p.length)))
    | .failing content file offset =>
      let p := piece content offset length
      some ((s.setDisk (s.disk.write file offset p)).setPhase w (.failing content file (offset + p.length)))
    | _ => none
  | .fail w =>
    match s.phase w with
    | .writing content file offset => some (s.setPhase w (.failing content file offset))
    | _ => none
  | .close w =>
    match s.phase w with
    | .writing content _ offset => if offset = content.length then some (s.setPhase w (.written content)) else none
    | .failing content _ _ => some (s.setPhase w (.returned content false))
    | _ => none
  | .rename w allowed =>
    match s.phase w with
    | .written content =>
      match allowed, s.disk.rename with
      | true, some d => some ((s.setDisk d).setPhase w (.returned content true))
      | _, _ => some (s.setPhase w (.removing content))
    | _ => none
  | .remove w allowed =>
    match s.phase w with
    | .removing content =>
      if allowed then some ((s.setDisk s.disk.removeTemp).setPhase w (.returned content false))
      else some (s.setPhase w (.returned content false))
    | _ => none

/-- The target and a temporary file left behind, as they are before the calls. -/
def startDisk (target temp : Option Bytes) : Disk where
  files file := if file = 0 then target.getD [] else temp.getD []
  next := 2
  temp := temp.map fun _ => 1
  target := target.map fun _ => 0

def machine (W : Type) [DecidableEq W] (target temp : Option Bytes) : Lib.Machine (State W) (Label W) :=
  ⟨⟨startDisk target temp, fun _ => .idle⟩, step⟩

end Dbase.Fs.WriteAtomic
