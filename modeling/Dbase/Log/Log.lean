/-
  Dbase.Log.Log — `replaceAllInPlace` (`log.cpp`), which edits the string it searches.

  `str::replaceAll` copies from a text that does not change; here each replacement moves what has not been searched yet,
  and `pos` goes behind what was put in, so that it is not searched itself. `from'` and `to'` are no views of `text`:
  the callers pass literals.

  Proved:
  - `replaceInPlaceFrom_eq`: the text up to `pos` stays, and the pieces of the rest are joined by the replacement.
  - `replace_loops_agree`: the result of `str::replaceAll`, whatever the three strings are.
-/

import Dbase.Str.StrProofs

namespace Dbase.Log

open Dbase.Lib.Matches
open Dbase.Str (find find_first find_none replaceAll replaceAll_eq)

variable {α : Type} [DecidableEq α]

/-- The loop from `pos` on. -/
def replaceInPlaceFrom (from' to' : List α) : Nat → Nat → List α → Option (List α)
  | 0, _, _ => none
  | n + 1, pos, text =>
    match find text from' pos with
    | none => some text
    | some pos =>
      replaceInPlaceFrom from' to' n (pos + to'.length) (text.take pos ++ to' ++ text.drop (pos + from'.length))

def replaceAllInPlace (n : Nat) (text from' to' : List α) : Option (List α) :=
  if from'.isEmpty then some text else replaceInPlaceFrom from' to' n 0 text

/-- What one replacement leaves behind `pos` is what stood behind the occurrence. -/
theorem replaceInPlaceFrom_eq {d to' s : List α} {ps : List (List α)} (hd : d ≠ []) (h : Pieces d s ps) :
    ∀ (n pos : Nat) (text : List α), pos ≤ text.length → text.drop pos = s → ps.length ≤ n →
      replaceInPlaceFrom d to' n pos text = some (text.take pos ++ to'.intercalate ps) := by
  induction h with
  | @last s hin =>
    intro n pos text hpos hs hn
    obtain ⟨n, rfl⟩ : ∃ m, n = m + 1 := ⟨n - 1, by simp at hn; omega⟩
    unfold replaceInPlaceFrom
    rw [find_none (hs ▸ hin), List.intercalate_singleton, ← hs, List.take_append_drop]
  | @cut s k ps hk hps ih =>
    intro n pos text hpos hs hn
    obtain ⟨n, rfl⟩ : ∃ m, n = m + 1 := ⟨n - 1, by simp at hn; omega⟩
    have hle := hk.le hd
    rw [← hs, List.length_drop] at hle
    have hlen : (text.take (pos + k) ++ to').length = pos + k + to'.length := by
      rw [List.length_append, List.length_take, Nat.min_eq_left (by omega)]
    have hrest : (text.take (pos + k) ++ to' ++ text.drop (pos + k + d.length)).drop (pos + k + to'.length) =
        s.drop (k + d.length) := by
      rw [← hlen, List.drop_left, ← hs, List.drop_drop, Nat.add_assoc]
    have hedited : (text.take (pos + k) ++ to' ++ text.drop (pos + k + d.length)).take (pos + k + to'.length) =
        text.take pos ++ s.take k ++ to' := by
      rw [← hlen, List.take_left, ← hs, List.take_add]
    unfold replaceInPlaceFrom
    rw [find_first hd (hs ▸ hk)]
    dsimp only
    rw [ih n _ _ (by rw [List.length_append, hlen]; omega) hrest (by simpa using hn), hedited,
      List.intercalate_cons_of_ne_nil hps.ne_nil]
    simp only [List.append_assoc]

/-- Both loops end, after at most one turn more than the text has characters, and with the same text. -/
theorem replace_loops_agree (text from' to' : List α) :
    ∃ r, ∀ n > text.length, replaceAllInPlace n text from' to' = some r ∧ replaceAll n text from' to' = some r := by
  by_cases hd : from' = []
  · subst hd
    exact ⟨text, fun n _ => ⟨rfl, rfl⟩⟩
  · obtain ⟨ps, hps⟩ := Pieces.exists hd text
    have hl := hps.length_le hd
    refine ⟨to'.intercalate ps, fun n hn => ⟨?_, replaceAll_eq hd hps hn⟩⟩
    unfold replaceAllInPlace
    rw [if_neg (by simpa using hd), replaceInPlaceFrom_eq hd hps n 0 text (by omega) rfl (by omega), List.take_zero,
      List.nil_append]

/-- What is put in contains the word, and is not searched. -/
example : replaceAllInPlace 4 ['a', 'a', 'a'] ['a', 'a'] ['a', 'a', 'b'] = some ['a', 'a', 'b', 'a'] := by decide

end Dbase.Log
