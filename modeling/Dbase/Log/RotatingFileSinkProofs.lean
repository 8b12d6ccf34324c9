/-
  Dbase.Log.RotatingFileSinkProofs — what a rotation does to the files, which records are left, and how large a file gets.

  One rotation shifts the files by one, whatever files there are (`Shifted`). `Run` adds to the sink what was written:
  the records of the current file and of those that were renamed, newest first, each with what the file held when it was
  opened. The files are these (`Holds`), so that what is left are the newest records, whole ones.

  A file stays within the limit if and only if each write that takes it over the limit finds that much of it on disk
  already (`Settled`): the size it looks at leaves out what the stream has not written.
-/

import Dbase.Lib.Machine
import Dbase.Log.RotatingFileSink

namespace Dbase.Log.RotatingFileSink

open Dbase.Lib

variable {k : RotatingFileSink} {s : State} {files : Files}

/-! ## Paths -/

theorem rotatedPath_injective (k : RotatingFileSink) : Function.Injective k.rotatedPath := by
  intro i j h
  simp only [rotatedPath, List.append_cancel_left_eq, List.cons.injEq, true_and, List.append_cancel_right_eq] at h
  rw [← Nat.ofDigitChars_ten_toDigits (n := i), h, Nat.ofDigitChars_ten_toDigits]

theorem rotatedPath_ne {a b : Nat} (hab : a ≠ b) : k.rotatedPath a ≠ k.rotatedPath b := (rotatedPath_injective k).ne hab

theorem filePath_ne (k : RotatingFileSink) (i : Nat) : k.filePath ≠ k.rotatedPath i := by
  intro h
  have hlength := congrArg List.length h
  simp only [filePath, rotatedPath, List.length_append, List.length_cons] at hlength
  omega

/-! ## The loop -/

/-- One round: the file of an index that is free takes the place of the next lower one, which becomes free. -/
theorem shift_round (files : Files) (i : Nat) (hfree : files (k.rotatedPath (i + 2)) = none) :
    (if (files (k.rotatedPath (i + 1))).isSome then
        renameFile (removeIfExists files (k.rotatedPath (i + 2))) (k.rotatedPath (i + 1)) (k.rotatedPath (i + 2))
      else files) =
      Function.update (Function.update files (k.rotatedPath (i + 2)) (files (k.rotatedPath (i + 1))))
        (k.rotatedPath (i + 1)) none := by
  have hne : k.rotatedPath (i + 1) ≠ k.rotatedPath (i + 2) := rotatedPath_ne (by omega)
  cases hsrc : files (k.rotatedPath (i + 1)) with
  | none =>
    have hlow : Function.update files (k.rotatedPath (i + 1)) none = files := by
      rw [← hsrc, Function.update_eq_self]
    have hhigh : Function.update files (k.rotatedPath (i + 2)) none = files := by
      rw [← hfree, Function.update_eq_self]
    rw [hhigh, hlow]
    rfl
  | some content =>
    rw [Option.isSome_some, if_pos rfl, renameFile, removeIfExists, Function.update_idem, Function.update_of_ne hne, hsrc]

theorem shift_spec (files : Files) (i : Nat) (hfree : files (k.rotatedPath (i + 1)) = none) :
    (∀ j, 2 ≤ j → j ≤ i + 1 → shift k files (i + 1) (k.rotatedPath j) = files (k.rotatedPath (j - 1))) ∧
      shift k files (i + 1) (k.rotatedPath 1) = none ∧
      ∀ p, (∀ j, 1 ≤ j → j ≤ i + 1 → p ≠ k.rotatedPath j) → shift k files (i + 1) p = files p := by
  induction i generalizing files with
  | zero =>
    refine ⟨fun j hlow hhigh => ?_, hfree, fun p _ => rfl⟩
    omega
  | succ i ih =>
    rw [shift, shift_round files i hfree]
    obtain ⟨hshift, hone, hother⟩ := ih (Function.update (Function.update files (k.rotatedPath (i + 2))
      (files (k.rotatedPath (i + 1)))) (k.rotatedPath (i + 1)) none) (Function.update_self ..)
    refine ⟨fun j hlow hhigh => ?_, hone, fun p hp => ?_⟩
    · by_cases hlast : j = i + 2
      · subst hlast
        rw [hother _ fun a _ ha => rotatedPath_ne (by omega), Function.update_of_ne (rotatedPath_ne (by omega)),
          Function.update_self]
        rfl
      · rw [hshift j hlow (by omega), Function.update_of_ne (rotatedPath_ne (by omega)),
          Function.update_of_ne (rotatedPath_ne (by omega))]
    · rw [hother p fun a ha ha' => hp a ha (by omega), Function.update_of_ne (hp (i + 1) (by omega) (by omega)),
        Function.update_of_ne (hp (i + 2) (by omega) (by omega))]

/-! ## One rotation -/

/-- What is in the current file once it is closed. -/
def closed (k : RotatingFileSink) (s : State) : Option (List UInt8) :=
  if s.isOpen then (s.files k.filePath).map (· ++ s.buffer) else s.files k.filePath

/-- Each file takes the place of the next, and the last one is gone. -/
structure Shifted (k : RotatingFileSink) (s post : State) : Prop where
  first : post.files (k.rotatedPath 1) = closed k s
  rest : ∀ i, 2 ≤ i → i ≤ k.maxFiles → post.files (k.rotatedPath i) = s.files (k.rotatedPath (i - 1))
  current : post.files k.filePath = some []
  other : ∀ p, p ≠ k.filePath → (∀ i, 1 ≤ i → i ≤ k.maxFiles → p ≠ k.rotatedPath i) → post.files p = s.files p

theorem spill_files (k : RotatingFileSink) (n : Nat) (s : State) {p : FilePath} (hp : p ≠ k.filePath) :
    (spill k n s).files p = s.files p :=
  Function.update_of_ne hp ..

theorem spill_current (k : RotatingFileSink) (n : Nat) (s : State) :
    (spill k n s).files k.filePath = (s.files k.filePath).map (· ++ s.buffer.take n) :=
  Function.update_self ..

/-- The files once the stream is closed. -/
theorem closed_files (k : RotatingFileSink) (s : State) :
    (if s.isOpen then { flushStream k s with isOpen := false } else s).files =
      Function.update s.files k.filePath (closed k s) := by
  unfold closed
  split
  · simp only [flushStream, spill, List.take_length]
  · rw [Function.update_eq_self]

/-- The last step of a rotation: the current file becomes the first archive. -/
def promote (k : RotatingFileSink) (files : Files) : Files :=
  if (files k.filePath).isSome then renameFile (removeIfExists files (k.rotatedPath 1)) k.filePath (k.rotatedPath 1)
  else files

theorem promote_first (k : RotatingFileSink) (files : Files) (hfree : files (k.rotatedPath 1) = none) :
    promote k files (k.rotatedPath 1) = files k.filePath := by
  unfold promote
  cases hcontent : files k.filePath with
  | none => rw [if_neg (by simp), hfree]
  | some content =>
    rw [Option.isSome_some, if_pos rfl, renameFile, removeIfExists, Function.update_of_ne (filePath_ne k 1).symm,
      Function.update_self, Function.update_of_ne (filePath_ne k 1), hcontent]

theorem promote_other (k : RotatingFileSink) (files : Files) {p : FilePath} (hp : p ≠ k.filePath)
    (hp1 : p ≠ k.rotatedPath 1) : promote k files p = files p := by
  unfold promote
  split
  · rw [renameFile, removeIfExists, Function.update_of_ne hp, Function.update_of_ne hp1, Function.update_of_ne hp1]
  · rfl

theorem rotate_files (k : RotatingFileSink) (s : State) :
    (rotateNoLock k s).files = Function.update (promote k (shift k (removeIfExists
      (Function.update s.files k.filePath (closed k s)) (k.rotatedPath k.maxFiles)) k.maxFiles)) k.filePath (some []) := by
  rw [← closed_files]
  rfl

theorem rotate_shifts (k : RotatingFileSink) (s : State) : Shifted k s (rotateNoLock k s) := by
  obtain ⟨n, hn⟩ := Nat.exists_eq_succ_of_ne_zero k.maxFiles_pos.ne'
  have hbase (i : Nat) : k.rotatedPath i ≠ k.filePath := (filePath_ne k i).symm
  have hfiles := rotate_files k s
  -- the files before the loop, and after it
  generalize hstart : removeIfExists (Function.update s.files k.filePath (closed k s)) (k.rotatedPath k.maxFiles) =
    start at hfiles
  have hfree : start (k.rotatedPath (n + 1)) = none := by
    rw [← hstart, hn]
    exact Function.update_self ..
  have hstartBase : start k.filePath = closed k s := by
    rw [← hstart, removeIfExists, Function.update_of_ne (filePath_ne k _), Function.update_self]
  have hstartFile {p : FilePath} (hp : p ≠ k.filePath) (hlast : p ≠ k.rotatedPath k.maxFiles) : start p = s.files p := by
    rw [← hstart, removeIfExists, Function.update_of_ne hlast, Function.update_of_ne hp]
  obtain ⟨hshift, hone, hother⟩ := shift_spec start n hfree
  rw [hn] at hfiles
  generalize shift k start (n + 1) = moved at hfiles hshift hone hother
  refine ⟨?_, ?_, ?_, ?_⟩
  · rw [hfiles, Function.update_of_ne (hbase 1), promote_first k moved hone, hother _ fun j _ _ => filePath_ne k j,
      hstartBase]
  · intro i hlow hhigh
    rw [hfiles, Function.update_of_ne (hbase i), promote_other k moved (hbase i) (rotatedPath_ne (by omega)),
      hshift i hlow (by omega), hstartFile (hbase _) (rotatedPath_ne (by omega))]
  · rw [hfiles, Function.update_self]
  · intro p hp hnone
    rw [hfiles, Function.update_of_ne hp, promote_other k moved hp (hnone 1 (by omega) (by omega)),
      hother p fun j hlow hhigh => hnone j hlow (by omega), hstartFile hp (hnone _ (by omega) (by omega))]

theorem rotate_buffer (k : RotatingFileSink) {s : State} (h : s.isOpen = true) : (rotateNoLock k s).buffer = [] := by
  simp [rotateNoLock, openNoLock, flushStream, spill, h]

/-! ## Runs -/

/-- What a file held when it was opened, and the records that were written to it. -/
structure LogFile where
  held : List UInt8
  records : List (List UInt8)

def LogFile.content (f : LogFile) : List UInt8 := f.held ++ f.records.flatten

/-- The sink, and what was written: the current file, the ones that were renamed, newest first, and all records. -/
structure Run where
  sink : State
  current : LogFile
  finished : List LogFile
  written : List (List UInt8)

inductive Act where
  | write (formatted : List UInt8)
  | flush
  | spill (n : Nat)

def step (k : RotatingFileSink) (r : Run) : Act → Option Run
  | .write formatted =>
    let record := formatted ++ [10]
    if isFull k r.sink record.length then
      some ⟨write k formatted r.sink, ⟨[], [record]⟩, r.current :: r.finished, r.written ++ [record]⟩
    else
      some ⟨write k formatted r.sink, ⟨r.current.held, r.current.records ++ [record]⟩, r.finished, r.written ++ [record]⟩
  | .flush => some { r with sink := flush k r.sink }
  | .spill n => some { r with sink := spill k n r.sink }

def machine (k : RotatingFileSink) (truncate : Bool) (files : Files) : Machine Run Act :=
  ⟨⟨create k truncate files, ⟨if truncate then [] else (files k.filePath).getD [], []⟩, [], []⟩, step k⟩

/-- The files are what was written, and what there was before. -/
structure Holds (k : RotatingFileSink) (files : Files) (r : Run) : Prop where
  isOpen : r.sink.isOpen = true
  current : ∃ disk, r.sink.files k.filePath = some disk ∧ disk ++ r.sink.buffer = r.current.content
  archives : ∀ i, i < k.maxFiles → r.sink.files (k.rotatedPath (i + 1)) =
    (r.finished[i]?.map LogFile.content).or (files (k.rotatedPath (i + 1 - r.finished.length)))
  other : ∀ p, p ≠ k.filePath → (∀ i, 1 ≤ i → i ≤ k.maxFiles → p ≠ k.rotatedPath i) → r.sink.files p = files p
  held : ∀ f ∈ r.current :: r.finished, f.held ≠ [] → files k.filePath = some f.held
  stream : r.written = r.finished.reverse.flatMap LogFile.records ++ r.current.records

theorem Holds.create (k : RotatingFileSink) (truncate : Bool) (files : Files) :
    Holds k files (machine k truncate files).init where
  isOpen := rfl
  current := ⟨_, Function.update_self .., by simp [machine, RotatingFileSink.create, openNoLock, LogFile.content]⟩
  archives i hi := Function.update_of_ne (filePath_ne k _).symm ..
  other p hp _ := Function.update_of_ne hp ..
  held f hf hne := by
    obtain rfl := List.mem_singleton.mp hf
    cases truncate with
    | true => exact absurd rfl hne
    | false =>
      change (files k.filePath).getD [] ≠ [] at hne
      show files k.filePath = some ((files k.filePath).getD [])
      cases hbase : files k.filePath with
      | none => simp [hbase] at hne
      | some content => rfl
  stream := rfl

theorem Holds.spill {r : Run} (h : Holds k files r) (n : Nat) :
    Holds k files { r with sink := RotatingFileSink.spill k n r.sink } where
  isOpen := h.isOpen
  current := by
    obtain ⟨disk, hdisk, hcontent⟩ := h.current
    refine ⟨disk ++ r.sink.buffer.take n, by simp [spill_current, hdisk], ?_⟩
    show _ ++ r.sink.buffer.drop n = _
    rw [List.append_assoc, List.take_append_drop, hcontent]
  archives i hi := (spill_files k n r.sink (filePath_ne k _).symm).trans (h.archives i hi)
  other p hp hnone := (spill_files k n r.sink hp).trans (h.other p hp hnone)
  held := h.held
  stream := h.stream

theorem write_eq {s : State} (h : s.isOpen = true) (formatted : List UInt8) :
    write k formatted s = { (if isFull k s (formatted ++ [10]).length then rotateNoLock k s else s) with
      buffer := (if isFull k s (formatted ++ [10]).length then rotateNoLock k s else s).buffer ++ (formatted ++ [10]) } := by
  rw [List.length_append, write, if_pos h]
  rfl

theorem Holds.append {r : Run} (h : Holds k files r) (record : List UInt8) :
    Holds k files ⟨{ r.sink with buffer := r.sink.buffer ++ record },
      ⟨r.current.held, r.current.records ++ [record]⟩, r.finished, r.written ++ [record]⟩ where
  isOpen := h.isOpen
  current := by
    obtain ⟨disk, hdisk, hcontent⟩ := h.current
    refine ⟨disk, hdisk, ?_⟩
    rw [← List.append_assoc, hcontent]
    simp [LogFile.content]
  archives := h.archives
  other := h.other
  held f hf hne := by
    rcases List.mem_cons.mp hf with rfl | hf
    · exact h.held r.current List.mem_cons_self hne
    · exact h.held f (List.mem_cons_of_mem _ hf) hne
  stream := by simp [h.stream]

theorem Holds.rotate {r : Run} (h : Holds k files r) :
    Holds k files ⟨rotateNoLock k r.sink, ⟨[], []⟩, r.current :: r.finished, r.written⟩ := by
  obtain ⟨disk, hdisk, hcontent⟩ := h.current
  have hshifted := rotate_shifts k r.sink
  have hclosed : closed k r.sink = some r.current.content := by
    rw [closed, if_pos h.isOpen, hdisk, Option.map_some, hcontent]
  refine ⟨rfl, ⟨[], hshifted.current, ?_⟩, fun i hi => ?_, fun p hp hnone => ?_, ?_, ?_⟩
  · rw [rotate_buffer k h.isOpen]
    rfl
  · cases i with
    | zero => exact hshifted.first.trans hclosed
    | succ i =>
      rw [hshifted.rest (i + 2) (by omega) (by omega)]
      show r.sink.files (k.rotatedPath (i + 1)) = _
      rw [h.archives i (by omega), List.getElem?_cons_succ, List.length_cons]
      congr 3
      omega
  · rw [hshifted.other p hp hnone, h.other p hp hnone]
  · intro f hf hne
    rcases List.mem_cons.mp hf with rfl | hf
    · exact absurd rfl hne
    · exact h.held f hf hne
  · simp [h.stream]

theorem Holds.step {r r' : Run} {a : Act} (h : Holds k files r) (hstep : step k r a = some r') : Holds k files r' := by
  cases a with
  | write formatted =>
    simp only [RotatingFileSink.step, write_eq h.isOpen] at hstep
    cases hfull : isFull k r.sink (formatted ++ [10]).length with
    | true =>
      simp only [hfull, if_true] at hstep
      obtain rfl := Option.some.inj hstep
      exact h.rotate.append (formatted ++ [10])
    | false =>
      simp only [hfull, Bool.false_eq_true, if_false] at hstep
      obtain rfl := Option.some.inj hstep
      exact h.append (formatted ++ [10])
  | flush =>
    simp only [RotatingFileSink.step, flush, h.isOpen, if_true] at hstep
    obtain rfl := Option.some.inj hstep
    exact h.spill r.sink.buffer.length
  | spill n =>
    obtain rfl := Option.some.inj hstep
    exact h.spill n

theorem Holds.of_reach {truncate : Bool} {ok : Run → Act → Prop} {r : Run} (h : (machine k truncate files).Reach ok r) :
    Holds k files r :=
  h.inv (Holds.create k truncate files) fun _ _ _ hI _ hstep => hI.step hstep

/-! ## What is left -/

/-- The archives, the oldest first. -/
def archived (k : RotatingFileSink) (s : State) : List UInt8 :=
  (List.range k.maxFiles).reverse.flatMap fun i => (s.files (k.rotatedPath (i + 1))).getD []

theorem flatMap_getD {α β : Type*} (f : α → List β) (l : List α) (n : Nat) :
    ((List.range n).reverse.flatMap fun i => (l[i]?.map f).getD []) = (l.take n).reverse.flatMap f := by
  induction n with
  | zero => simp
  | succ n ih =>
    rw [List.range_succ, List.reverse_append, List.flatMap_append, ih, List.take_add_one, List.reverse_append,
      List.flatMap_append]
    cases hl : l[n]? with
    | none => simp [hl]
    | some x => simp [hl]

/-- From no files on, the records that are left are the newest ones. -/
theorem Holds.suffix {r : Run} (h : Holds k (fun _ => none) r) :
    ∃ n, archived k r.sink ++ ((r.sink.files k.filePath).getD [] ++ r.sink.buffer) = (r.written.drop n).flatten := by
  obtain ⟨disk, hdisk, hcontent⟩ := h.current
  have hplain : ∀ f ∈ r.current :: r.finished, f.content = f.records.flatten := by
    intro f hf
    have hheld : f.held = [] := by
      by_contra hne
      cases h.held f hf hne
    rw [LogFile.content, hheld, List.nil_append]
  have harchived : archived k r.sink = ((r.finished.take k.maxFiles).reverse.flatMap LogFile.records).flatten := by
    have hfiles : archived k r.sink = (r.finished.take k.maxFiles).reverse.flatMap LogFile.content := by
      rw [← flatMap_getD, archived]
      refine List.flatMap_congr fun i hi => ?_
      rw [h.archives i (by simpa using hi), Option.or_none]
    rw [hfiles, List.flatMap_def, List.flatMap_def, List.flatten_flatten, List.map_map]
    refine congrArg List.flatten (List.map_congr_left fun f hf => ?_)
    exact hplain f (List.mem_cons_of_mem _ (List.mem_of_mem_take (List.mem_reverse.mp hf)))
  refine ⟨((r.finished.drop k.maxFiles).reverse.flatMap LogFile.records).length, ?_⟩
  have hsplit : r.finished.reverse = (r.finished.drop k.maxFiles).reverse ++ (r.finished.take k.maxFiles).reverse := by
    rw [← List.reverse_append, List.take_append_drop]
  rw [h.stream, hsplit, List.flatMap_append, List.append_assoc, List.drop_left, List.flatten_append, harchived, hdisk,
    Option.getD_some, hcontent, hplain _ List.mem_cons_self]

/-- The files that there can be. -/
def paths (k : RotatingFileSink) : List FilePath :=
  k.filePath :: (List.range k.maxFiles).map fun i => k.rotatedPath (i + 1)

theorem Holds.mem_paths {r : Run} (h : Holds k (fun _ => none) r) {p : FilePath} (hp : (r.sink.files p).isSome = true) :
    p ∈ paths k := by
  by_contra hnot
  rw [paths, List.mem_cons, not_or] at hnot
  obtain ⟨hbase, hrotated⟩ := hnot
  rw [h.other p hbase fun i hlow hhigh heq => hrotated ?_] at hp
  · cases hp
  · refine List.mem_map.mpr ⟨i - 1, by simp; omega, ?_⟩
    rw [Nat.sub_add_cancel hlow, heq]

/-- A rotation shifts the files by one; from no files on, the newest records are left, in no more files than asked for. -/
theorem only_the_oldest_is_lost (k : RotatingFileSink) :
    (∀ s, Shifted k s (rotateNoLock k s)) ∧
      ∀ truncate r, (machine k truncate fun _ => none).Reach (fun _ _ => True) r →
        (∃ n, archived k r.sink ++ ((r.sink.files k.filePath).getD [] ++ r.sink.buffer) = (r.written.drop n).flatten) ∧
        ∃ l : List FilePath, l.length ≤ k.maxFiles + 1 ∧ ∀ p, (r.sink.files p).isSome = true → p ∈ l := by
  refine ⟨rotate_shifts k, fun truncate r h => ?_⟩
  have hholds := Holds.of_reach h
  exact ⟨hholds.suffix, paths k, by simp [paths], fun p hp => hholds.mem_paths hp⟩

/-- Files of ten bytes, and one archive. -/
def small : RotatingFileSink := ⟨[], ['a'], [], 10, 1, by decide, by decide⟩

/-- Three records, each in a file of its own: the first is lost. -/
theorem only_the_oldest_is_lost_one :
    ∃ r, (machine small false fun _ => none).Reach (fun _ _ => True) r ∧ r.finished.length = 2 ∧
      ∃ n, archived small r.sink ++ ((r.sink.files small.filePath).getD [] ++ r.sink.buffer) =
        (r.written.drop n).flatten := by
  have hreach : (machine small false fun _ => none).Reach (fun _ _ => True) _ :=
    .step (.step (.step (.step (.step .init
      (a := .write [1, 1, 1, 1, 1]) trivial rfl) (a := .flush) trivial rfl)
      (a := .write [2, 2, 2, 2, 2]) trivial rfl) (a := .spill 3) trivial rfl)
      (a := .write [3, 3, 3, 3, 3, 3, 3]) trivial rfl
  exact ⟨_, hreach, rfl, ((only_the_oldest_is_lost small).2 false _ hreach).1⟩

/-! ## How large a file gets -/

/-- No larger than the limit, or than the one record in it. -/
def Within (k : RotatingFileSink) (f : LogFile) : Prop :=
  f.held = [] → f.content.length ≤ max k.maxFileSize (if f.records.length = 1 then f.content.length else 0)

/-- A record that takes a file over the limit finds as much of it on disk. -/
def Settled (k : RotatingFileSink) (r : Run) : Act → Prop
  | .write formatted => r.current.held = [] → r.current.records ≠ [] →
      k.maxFileSize < currentFileSizeNoLock k r.sink + r.sink.buffer.length + (formatted.length + 1) →
      0 < currentFileSizeNoLock k r.sink ∧ k.maxFileSize < currentFileSizeNoLock k r.sink + (formatted.length + 1)
  | _ => True

theorem Holds.size {r : Run} (h : Holds k files r) :
    currentFileSizeNoLock k r.sink + r.sink.buffer.length = r.current.content.length := by
  obtain ⟨disk, hdisk, hcontent⟩ := h.current
  rw [currentFileSizeNoLock, fileSizeOrZero, hdisk, ← hcontent, List.length_append]
  rfl

theorem within_one (k : RotatingFileSink) (record : List UInt8) : Within k ⟨[], [record]⟩ := by
  intro _
  simp

theorem isFull_iff (k : RotatingFileSink) (s : State) (formatted : List UInt8) :
    isFull k s (formatted ++ [10]).length = true ↔ 0 < currentFileSizeNoLock k s ∧
      k.maxFileSize < currentFileSizeNoLock k s + (formatted.length + 1) := by
  rw [List.length_append, List.length_singleton, isFull, decide_eq_true_eq]

/-- One more record in the current file, where it is not found to be full. -/
theorem Holds.within_append_iff {r : Run} (h : Holds k files r) {formatted : List UInt8}
    (hfull : isFull k r.sink (formatted ++ [10]).length = false) :
    Within k ⟨r.current.held, r.current.records ++ [formatted ++ [10]]⟩ ↔ Settled k r (.write formatted) := by
  have hsize := h.size
  have htest := mt (isFull_iff k r.sink formatted).mpr (Bool.eq_false_iff.mp hfull)
  have hcontent : (LogFile.mk r.current.held (r.current.records ++ [formatted ++ [10]])).content.length =
      r.current.content.length + (formatted.length + 1) := by
    simp [LogFile.content, Nat.add_assoc]
  constructor
  · intro hone hheld hrecords hover
    exfalso
    have hone := hone hheld
    have hmore : ¬ (r.current.records ++ [formatted ++ [(10 : UInt8)]]).length = 1 := by
      have hpos := List.length_pos_iff.mpr hrecords
      rw [List.length_append, List.length_singleton]
      omega
    rw [hcontent, if_neg hmore] at hone
    omega
  · intro hsettled hheld
    by_cases hrecords : r.current.records = []
    · simp [hrecords]
    · have hfits : ¬ k.maxFileSize < currentFileSizeNoLock k r.sink + r.sink.buffer.length + (formatted.length + 1) :=
        fun hover => htest (hsettled hheld hrecords hover)
      rw [hcontent]
      omega

/-- A step leaves the files within the limit if and only if it is settled. -/
theorem Holds.within_iff {r r' : Run} {a : Act} (h : Holds k files r)
    (hwithin : ∀ f ∈ r.current :: r.finished, Within k f) (hstep : RotatingFileSink.step k r a = some r') :
    (∀ f ∈ r'.current :: r'.finished, Within k f) ↔ Settled k r a := by
  obtain ⟨hcurrent, hfinished⟩ := List.forall_mem_cons.mp hwithin
  cases a with
  | flush =>
    obtain rfl := Option.some.inj hstep
    exact ⟨fun _ => trivial, fun _ => hwithin⟩
  | spill n =>
    obtain rfl := Option.some.inj hstep
    exact ⟨fun _ => trivial, fun _ => hwithin⟩
  | write formatted =>
    simp only [RotatingFileSink.step] at hstep
    cases hfull : isFull k r.sink (formatted ++ [10]).length with
    | true =>
      simp only [hfull, if_true] at hstep
      obtain rfl := Option.some.inj hstep
      refine ⟨fun _ _ _ _ => (isFull_iff k r.sink formatted).mp hfull, fun _ => ?_⟩
      exact List.forall_mem_cons.mpr ⟨within_one k _, List.forall_mem_cons.mpr ⟨hcurrent, hfinished⟩⟩
    | false =>
      simp only [hfull, Bool.false_eq_true, if_false] at hstep
      obtain rfl := Option.some.inj hstep
      have hone := h.within_append_iff hfull
      constructor
      · intro hall
        exact hone.mp (List.forall_mem_cons.mp hall).1
      · intro hsettled
        exact List.forall_mem_cons.mpr ⟨hone.mpr hsettled, hfinished⟩

/-- In runs in which every record that takes a file over the limit finds as much of it on disk. -/
theorem files_stay_within (k : RotatingFileSink) (truncate : Bool) (files : Files) (r : Run)
    (h : (machine k truncate files).Reach (Settled k) r) :
    (∀ f ∈ r.current :: r.finished, Within k f) ∧
      (∃ disk, r.sink.files k.filePath = some disk ∧ disk ++ r.sink.buffer = r.current.content) ∧
      ∀ i f, i < k.maxFiles → r.finished[i]? = some f → r.sink.files (k.rotatedPath (i + 1)) = some f.content := by
  have hboth : Holds k files r ∧ ∀ f ∈ r.current :: r.finished, Within k f := by
    refine h.inv (I := fun r => Holds k files r ∧ ∀ f ∈ r.current :: r.finished, Within k f) ⟨Holds.create .., ?_⟩ ?_
    · intro f hf hheld
      obtain rfl := List.mem_singleton.mp hf
      rw [LogFile.content, hheld]
      exact Nat.zero_le _
    · intro s a s' hI hok hstep
      exact ⟨hI.1.step hstep, (hI.1.within_iff hI.2 hstep).mpr hok⟩
  obtain ⟨hholds, hwithin⟩ := hboth
  refine ⟨hwithin, hholds.current, fun i f hi hf => ?_⟩
  rw [hholds.archives i hi, hf, Option.map_some, Option.some_or]

/-- A record of ten bytes after one that was flushed. -/
theorem files_stay_within_two :
    ∃ r, (machine small false fun _ => none).Reach (Settled small) r ∧ r.finished.length = 1 ∧
      ∀ f ∈ r.current :: r.finished, Within small f := by
  have hreach : (machine small false fun _ => none).Reach (Settled small) _ :=
    .step (.step (.step .init
      (a := .write [1, 1, 1, 1, 1]) (fun _ hne => absurd rfl hne) rfl) (a := .flush) trivial rfl)
      (a := .write [2, 2, 2, 2, 2, 2, 2, 2, 2]) (fun _ _ _ => by decide) rfl
  exact ⟨_, hreach, rfl, (files_stay_within small false _ _ hreach).1⟩

/-- Two records of six bytes that are flushed together. -/
theorem a_file_outgrows_the_limit :
    ∃ r, (machine small false fun _ => none).Reach (fun _ _ => True) r ∧ r.current.held = [] ∧
      r.current.records.length = 2 ∧ r.sink.files small.filePath = some r.current.content ∧ ¬ Within small r.current := by
  have hreach : (machine small false fun _ => none).Reach (fun _ _ => True) _ :=
    .step (.step (.step .init
      (a := .write [1, 1, 1, 1, 1]) trivial rfl) (a := .write [2, 2, 2, 2, 2]) trivial rfl)
      (a := .flush) trivial rfl
  refine ⟨_, hreach, rfl, rfl, rfl, fun hwithin => ?_⟩
  exact absurd (hwithin rfl) (by decide)

end Dbase.Log.RotatingFileSink
