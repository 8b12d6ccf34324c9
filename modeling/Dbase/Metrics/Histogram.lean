/-
  Dbase.Metrics.Histogram — `Histogram` (`histogram.h`): the last values observed, and what a snapshot says of them.

  Every member locks the mutex of the object, so observations come one after the other. The values are of any linear
  order, its zero the default of a snapshot's fields; percentiles are rational numbers. The sum and the average are left
  out. Where the constructor cannot reserve room for the samples there is no histogram.
-/

import Mathlib

namespace Dbase.Metrics

structure Histogram (α : Type) where
  maxSamples : Nat
  samples : List α
  nextIndex : Nat
  totalCount : UInt64
  deriving Repr

structure HistogramSnapshot (α : Type) where
  count : UInt64
  min : α
  max : α
  p50 : α
  p90 : α
  p95 : α
  p99 : α
  deriving Repr

namespace Histogram

variable {α : Type}

def make (maxSamples : Nat := 4096) : Histogram α := ⟨if maxSamples = 0 then 1 else maxSamples, [], 0, 0⟩

def observe (h : Histogram α) (value : α) : Histogram α :=
  let h := { h with totalCount := h.totalCount + 1 }
  if h.samples.length < h.maxSamples then { h with samples := h.samples ++ [value] }
  else
    let samples := h.samples.set h.nextIndex value
    let nextIndex := h.nextIndex + 1
    { h with samples, nextIndex := if nextIndex ≥ h.maxSamples then 0 else nextIndex }

/-- The cast to `std::size_t` rounds toward zero. -/
def indexForPercentile (size : Nat) (percentile : ℚ) : Nat :=
  if size = 0 then 0
  else
    let raw := percentile * (size - 1 : Nat)
    let idx := ⌊raw⌋.toNat
    if idx ≥ size then size - 1 else idx

/-- `sorted[i]` is read where it exists (`Dbase.Metrics.Histogram.Ranks`). -/
def snapshot [LinearOrder α] [Zero α] (h : Histogram α) : HistogramSnapshot α :=
  if h.samples.isEmpty then ⟨h.totalCount, 0, 0, 0, 0, 0, 0⟩
  else
    let sorted := h.samples.mergeSort (fun a b => a ≤ b)
    let sortedAt (i : Nat) := sorted.getD i 0
    { count := h.totalCount
      min := sorted.headD 0
      max := sorted.getLastD 0
      p50 := sortedAt (indexForPercentile sorted.length 0.50)
      p90 := sortedAt (indexForPercentile sorted.length 0.90)
      p95 := sortedAt (indexForPercentile sorted.length 0.95)
      p99 := sortedAt (indexForPercentile sorted.length 0.99) }

end Histogram

end Dbase.Metrics
