/-
  Dbase.Metrics.HistogramProofs — the window of a histogram.

  The samples are a ring (`Dbase.Lib.Ring`): it fills, and then every value goes over the oldest one.

  Proved:
  - `observed_holds`: after any observations the samples are the latest of them.
  - `snapshot_ranks`: the fields of a snapshot are the values at their places in the sorted window, and in order.
  - `window_slides`: both, and the count, which is a `std::uint64_t`.
-/

import Dbase.Lib.Ring
import Dbase.Metrics.Histogram

namespace Dbase.Metrics.Histogram

open Dbase.Lib.Ring

variable {α : Type}

/-! ## The ring -/

/-- One value after the other. -/
def observed (maxSamples : Nat) (xs : List α) : Histogram α := xs.foldl observe (make maxSamples)

/-- 0 is treated as 1. -/
def capacity (maxSamples : Nat) : Nat := if maxSamples = 0 then 1 else maxSamples

theorem capacity_pos (maxSamples : Nat) : 0 < capacity maxSamples := by
  unfold capacity
  split <;> omega

theorem observed_append (maxSamples : Nat) (xs : List α) (x : α) :
    observed maxSamples (xs ++ [x]) = observe (observed maxSamples xs) x := by
  rw [observed, List.foldl_append]
  rfl

/-- What observations leave behind. -/
structure Fits (maxSamples : Nat) (xs : List α) (h : Histogram α) : Prop where
  cap : h.maxSamples = capacity maxSamples
  ring : Holds (capacity maxSamples) xs h.samples h.nextIndex
  count : h.totalCount = UInt64.ofNat xs.length

theorem Fits.observe {maxSamples : Nat} {xs : List α} {h : Histogram α} (hf : Fits maxSamples xs h) (x : α) :
    Fits maxSamples (xs ++ [x]) (observe h x) := by
  have hcount : h.totalCount + 1 = UInt64.ofNat (xs ++ [x]).length := by
    rw [hf.count, List.length_append, List.length_singleton, UInt64.ofNat_add]
    rfl
  have hlen := hf.ring.length
  unfold Histogram.observe
  dsimp only
  rw [hf.cap]
  by_cases hroom : h.samples.length < capacity maxSamples
  · rw [if_pos hroom]
    exact ⟨rfl, holds_append hf.ring (by omega) x, hcount⟩
  · rw [if_neg hroom]
    exact ⟨rfl, holds_overwrite hf.ring (by omega) x, hcount⟩

theorem observed_fits (maxSamples : Nat) (xs : List α) : Fits maxSamples xs (observed maxSamples xs) := by
  induction xs using List.reverseRecOn with
  | nil => exact ⟨rfl, holds_nil (capacity_pos maxSamples), rfl⟩
  | append_singleton xs x ih =>
    rw [observed_append]
    exact ih.observe x

/-! ## A snapshot -/

/-- The index is the rounded rank, and within the window. -/
theorem indexForPercentile_eq {size : Nat} {q : ℚ} (hs : 0 < size) (h1 : q ≤ 1) :
    indexForPercentile size q = ⌊q * (size - 1 : Nat)⌋₊ ∧ indexForPercentile size q < size := by
  have hle : q * (size - 1 : Nat) ≤ (size - 1 : Nat) := by
    have hpos : (0 : ℚ) ≤ (size - 1 : Nat) := Nat.cast_nonneg _
    exact mul_le_of_le_one_left hpos h1
  have hfloor : ⌊q * (size - 1 : Nat)⌋₊ ≤ size - 1 := Nat.floor_le_of_le hle
  unfold indexForPercentile
  rw [if_neg (by omega)]
  dsimp only
  rw [Int.floor_toNat, if_neg (by omega)]
  exact ⟨rfl, by omega⟩

theorem indexForPercentile_mono {size : Nat} {q r : ℚ} (hs : 0 < size) (hqr : q ≤ r) (h1 : r ≤ 1) :
    indexForPercentile size q ≤ indexForPercentile size r := by
  rw [(indexForPercentile_eq hs (hqr.trans h1)).1, (indexForPercentile_eq hs h1).1]
  exact Nat.floor_le_floor (mul_le_mul_of_nonneg_right hqr (Nat.cast_nonneg _))

variable [LinearOrder α] [Zero α]

/-- The fields of a snapshot, each with its rational number. -/
def ranks (s : HistogramSnapshot α) : List (ℚ × α) :=
  [(0, s.min), (0.50, s.p50), (0.90, s.p90), (0.95, s.p95), (0.99, s.p99), (1, s.max)]

/-- What a snapshot says of a window: each field is a value of it, at its place when the window is sorted. -/
structure Ranks (window : List α) (s : HistogramSnapshot α) : Prop where
  placed : ∃ sorted, List.Perm sorted window ∧ sorted.Pairwise (· ≤ ·) ∧
    ∀ q v, (q, v) ∈ ranks s → v ∈ window ∧ sorted[⌊q * (window.length - 1 : Nat)⌋₊]? = some v
  ordered : s.min ≤ s.p50 ∧ s.p50 ≤ s.p90 ∧ s.p90 ≤ s.p95 ∧ s.p95 ≤ s.p99 ∧ s.p99 ≤ s.max

omit [Zero α] in
theorem getD_mono {sorted : List α} (hs : sorted.Pairwise (· ≤ ·)) {i j : Nat} (hij : i ≤ j) (hj : j < sorted.length)
    (z : α) :
    sorted.getD i z ≤ sorted.getD j z := by
  rw [List.getD_eq_getElem _ _ (hij.trans_lt hj), List.getD_eq_getElem _ _ hj]
  rcases hij.eq_or_lt with rfl | hlt
  · exact le_rfl
  · exact List.pairwise_iff_getElem.mp hs i j _ hj hlt

theorem snapshot_ranks {h : Histogram α} (hne : h.samples ≠ []) {window : List α} (hw : List.Perm h.samples window) :
    Ranks window h.snapshot := by
  have hperm : List.Perm (h.samples.mergeSort (fun a b => a ≤ b)) h.samples := List.mergeSort_perm _ _
  have hsorted : (h.samples.mergeSort (fun a b => a ≤ b)).Pairwise (· ≤ ·) := List.pairwise_mergeSort' (· ≤ ·) h.samples
  have hsnap : h.snapshot = _ := if_neg (by simpa using hne)
  rw [hsnap]
  generalize h.samples.mergeSort (fun a b => a ≤ b) = sorted at *
  have hlen : 0 < sorted.length := by
    rw [hperm.length_eq]
    exact List.length_pos_iff.mpr hne
  have hwin : sorted.length = window.length := (hperm.trans hw).length_eq
  -- the ends are the ranks 0 and 1
  have hfirst : sorted.headD 0 = sorted.getD (indexForPercentile sorted.length 0) 0 := by
    rw [List.headD_eq_getD, (indexForPercentile_eq hlen zero_le_one).1, zero_mul, Nat.floor_zero]
  have hlast : sorted.getLastD 0 = sorted.getD (indexForPercentile sorted.length 1) 0 := by
    rw [List.getLastD_eq_getLast?, List.getLast?_eq_getElem?, (indexForPercentile_eq hlen le_rfl).1, one_mul,
      Nat.floor_natCast, List.getD_eq_getElem?_getD]
  have hplace : ∀ q : ℚ, q ≤ 1 → sorted.getD (indexForPercentile sorted.length q) 0 ∈ window ∧
      sorted[⌊q * (window.length - 1 : Nat)⌋₊]? = some (sorted.getD (indexForPercentile sorted.length q) 0) := by
    intro q hq
    obtain ⟨hi, hlt⟩ := indexForPercentile_eq hlen hq
    rw [List.getD_eq_getElem _ _ hlt, ← hwin, ← hi, List.getElem?_eq_getElem hlt]
    exact ⟨(hperm.trans hw).mem_iff.mp (List.getElem_mem hlt), rfl⟩
  have hmono : ∀ q r : ℚ, q ≤ r → r ≤ 1 → sorted.getD (indexForPercentile sorted.length q) 0 ≤
      sorted.getD (indexForPercentile sorted.length r) 0 := fun q r hqr hr =>
    getD_mono hsorted (indexForPercentile_mono hlen hqr hr) (indexForPercentile_eq hlen hr).2 0
  dsimp only
  rw [hfirst, hlast]
  refine ⟨⟨sorted, hperm.trans hw, hsorted, ?_⟩, ?_, ?_, ?_, ?_, ?_⟩
  · intro q v hqv
    simp only [ranks, List.mem_cons, Prod.mk.injEq, List.not_mem_nil, or_false] at hqv
    rcases hqv with ⟨rfl, rfl⟩ | ⟨rfl, rfl⟩ | ⟨rfl, rfl⟩ | ⟨rfl, rfl⟩ | ⟨rfl, rfl⟩ | ⟨rfl, rfl⟩
    · exact hplace 0 (by norm_num)
    · exact hplace 0.50 (by norm_num)
    · exact hplace 0.90 (by norm_num)
    · exact hplace 0.95 (by norm_num)
    · exact hplace 0.99 (by norm_num)
    · exact hplace 1 (by norm_num)
  · exact hmono _ _ (by norm_num) (by norm_num)
  · exact hmono _ _ (by norm_num) (by norm_num)
  · exact hmono _ _ (by norm_num) (by norm_num)
  · exact hmono _ _ (by norm_num) (by norm_num)
  · exact hmono _ _ (by norm_num) (by norm_num)

/-! ## Every sequence of observations -/

structure Slides (maxSamples : Nat) (xs : List α) (h : Histogram α) : Prop where
  window : List.Perm h.samples (latest (capacity maxSamples) xs)
  index : h.nextIndex < capacity maxSamples
  /-- once the window is full, the next index is that of the oldest value -/
  oldest : capacity maxSamples ≤ xs.length → h.samples[h.nextIndex]? = (latest (capacity maxSamples) xs).head?
  ranks : xs ≠ [] → Ranks (latest (capacity maxSamples) xs) h.snapshot
  reported : h.snapshot.count = h.totalCount

theorem Fits.slides {maxSamples : Nat} {xs : List α} {h : Histogram α} (hf : Fits maxSamples xs h) :
    Slides maxSamples xs h where
  window := hf.ring.perm
  index := hf.ring.next_lt
  oldest := hf.ring.oldest
  ranks hne := by
    have hlen := hf.ring.length
    have hcap := capacity_pos maxSamples
    have hxs := List.length_pos_iff.mpr hne
    refine snapshot_ranks ?_ hf.ring.perm
    rw [← List.length_pos_iff, hlen]
    omega
  reported := by
    unfold snapshot
    split <;> rfl

/-- The window slides over the observations; they are counted in a `std::uint64_t`. -/
theorem window_slides (maxSamples : Nat) (xs : List α) :
    Slides maxSamples xs (observed maxSamples xs) ∧ (observed maxSamples xs).totalCount.toNat = xs.length % 2 ^ 64 := by
  have hf := observed_fits maxSamples xs
  refine ⟨hf.slides, ?_⟩
  rw [hf.count, UInt64.toNat_ofNat']

/-- The counter begins anew after `2^64` observations. -/
theorem the_count_wraps : ¬ ∀ (maxSamples : Nat) (xs : List Int),
    Slides maxSamples xs (observed maxSamples xs) ∧ (observed maxSamples xs).totalCount.toNat = xs.length := by
  intro h
  have hcount := (h 1 (List.replicate (2 ^ 64) 0)).2
  have hlt := (observed 1 (List.replicate (2 ^ 64) (0 : Int))).totalCount.toNat_lt
  rw [hcount, List.length_replicate] at hlt
  exact lt_irrefl _ hlt

end Dbase.Metrics.Histogram
