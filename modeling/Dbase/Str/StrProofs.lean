/-
  Dbase.Str.StrProofs — the laws of `split`, `join` and `replaceAll`.

  Every loop walks down the one cutting of the text at the leftmost occurrences that do not overlap
  (`Dbase.Lib.Matches`): `splitFrom` collects its pieces and `replaceFrom` puts the replacement between them. A turn for
  each piece is enough, and there is at most one more of them than there are characters.

  Proved:
  - `find_first`, `find_none`: `find` answers with the first occurrence.
  - `splitFrom_eq`, `replaceFrom_eq`: what the two loops return on a text with given pieces.
  - `split_laws`: joined with the delimiter the pieces are the text, none contains it, without `keepEmpty` the empty
    ones are missing, and replacing is splitting and joining.
-/

import Dbase.Lib.Matches
import Dbase.Str.Str

namespace Dbase.Str

open Dbase.Lib.Matches

variable {α : Type}

/-! ## Parts -/

/-- What `keepEmpty` leaves of the pieces. -/
def kept (keepEmpty : Bool) (ps : List (List α)) : List (List α) := if keepEmpty then ps else ps.filter (· ≠ [])

theorem kept_cons (keepEmpty : Bool) (p : List α) (ps : List (List α)) (out : List (List α)) :
    (if p.length ≠ 0 ∨ keepEmpty then out ++ [p] else out) ++ kept keepEmpty ps = out ++ kept keepEmpty (p :: ps) := by
  cases keepEmpty
  · by_cases hp : p = []
    · simp [kept, hp]
    · simp [kept, hp]
  · simp [kept]

/-- Copies, one after the other. -/
theorem copies_eq (views : List (List α)) : views.foldl (fun out part => out ++ [part]) [] = views := by
  have h : ∀ out : List (List α), views.foldl (fun out part => out ++ [part]) out = out ++ views := by
    induction views with
    | nil => simp
    | cons v views ih =>
      intro out
      rw [List.foldl_cons, ih, List.append_assoc, List.singleton_append]
  exact h []

/-- From the second part on each has the delimiter in front. -/
theorem join_from (delim : List α) (parts : List (List α)) (i : Nat) (out : List α) :
    (parts.zipIdx (i + 1)).foldl (fun out (part, i) => (if i ≠ 0 then out ++ delim else out) ++ part) out =
      out ++ (parts.map (delim ++ ·)).flatten := by
  induction parts generalizing i out with
  | nil => simp
  | cons p parts ih =>
    rw [List.zipIdx_cons, List.foldl_cons, ih]
    simp

theorem intercalate_cons (delim p : List α) (parts : List (List α)) :
    delim.intercalate (p :: parts) = p ++ (parts.map (delim ++ ·)).flatten := by
  induction parts generalizing p with
  | nil => simp
  | cons q parts ih =>
    rw [List.intercalate_cons_cons, ih, List.map_cons, List.flatten_cons]
    simp only [List.append_assoc]

theorem join_eq (parts : List (List α)) (delim : List α) : join parts delim = delim.intercalate parts := by
  cases parts with
  | nil => rfl
  | cons p parts =>
    unfold join
    rw [if_neg (by simp), List.zipIdx_cons, List.foldl_cons, join_from, intercalate_cons]
    simp

variable [DecidableEq α] {str d : List α}

/-! ## Searching -/

theorem find_first {pos k : Nat} (hd : d ≠ []) (h : FirstAt d (str.drop pos) k) : find str d pos = some (pos + k) := by
  have hle := h.le hd
  have hp := List.length_pos_iff.mpr hd
  rw [List.length_drop] at hle
  unfold find
  rw [List.find?_range'_eq_some]
  refine ⟨?_, ?_, ?_⟩
  · rw [List.isPrefixOf_iff_prefix, ← List.drop_drop]
    exact h.here
  · rw [List.mem_range'_1]
    omega
  · intro j hj hlt
    have hb := h.before (j - pos) (by omega)
    rw [List.drop_drop, Nat.add_sub_cancel' hj] at hb
    rw [Bool.not_eq_true', ← Bool.not_eq_true, List.isPrefixOf_iff_prefix]
    exact hb

theorem find_none {pos : Nat} (h : ¬ d <:+: str.drop pos) : find str d pos = none := by
  unfold find
  rw [List.find?_eq_none]
  intro i hi hp
  rw [List.isPrefixOf_iff_prefix] at hp
  rw [List.mem_range'_1] at hi
  refine h (infix_iff_drop.mpr ⟨i - pos, ?_⟩)
  rw [List.drop_drop, Nat.add_sub_cancel' hi.1]
  exact hp

/-! ## Splitting -/

theorem splitFrom_eq {keepEmpty : Bool} (hd : d ≠ []) {s : List α} {ps : List (List α)} (h : Pieces d s ps) :
    ∀ (n begin : Nat) (out : List (List α)), begin ≤ str.length → str.drop begin = s → ps.length ≤ n →
      splitFrom str d d.length keepEmpty n begin out = some (out ++ kept keepEmpty ps) := by
  induction h with
  | @last s hin =>
    intro n begin out hb hs hn
    obtain ⟨n, rfl⟩ : ∃ m, n = m + 1 := ⟨n - 1, by simp at hn; omega⟩
    have hlen : (substr str begin (str.length - begin)).length = str.length - begin := by simp [substr]
    have hsub : substr str begin (str.length - begin) = s := by
      rw [substr, hs, List.take_of_length_le]
      rw [← hs, List.length_drop]
    unfold splitFrom
    rw [if_pos hb, find_none (hs ▸ hin)]
    have hk := kept_cons keepEmpty (substr str begin (str.length - begin)) [] out
    rw [hlen] at hk
    rw [← hsub, ← hk]
    simp [kept]
  | @cut s k ps hk hps ih =>
    intro n begin out hb hs hn
    obtain ⟨n, rfl⟩ : ∃ m, n = m + 1 := ⟨n - 1, by simp at hn; omega⟩
    have hle := hk.le hd
    rw [← hs, List.length_drop] at hle
    have hlen : (substr str begin k).length = k := by
      rw [substr, List.length_take, List.length_drop]
      omega
    have hkept := kept_cons keepEmpty (substr str begin k) ps out
    rw [hlen] at hkept
    unfold splitFrom
    rw [if_pos hb, find_first hd (hs ▸ hk)]
    simp only [Nat.add_sub_cancel_left]
    rw [ih n _ _ (by omega) (by rw [← hs, List.drop_drop, Nat.add_assoc]) (by simpa using hn), hkept, substr, hs]

theorem split_eq {keepEmpty : Bool} {n : Nat} {ps : List (List α)} (hd : d ≠ []) (h : Pieces d str ps)
    (hn : str.length < n) : split n str d keepEmpty = some (kept keepEmpty ps) := by
  have hl := h.length_le hd
  unfold split splitView
  rw [if_neg (by simpa using hd), splitFrom_eq hd h n 0 [] (by omega) rfl (by omega), List.nil_append, Option.map_some,
    copies_eq]

theorem splitChar_eq {keepEmpty : Bool} {n : Nat} {c : α} {ps : List (List α)} (h : Pieces [c] str ps)
    (hn : str.length < n) : splitChar n str c keepEmpty = some (kept keepEmpty ps) := by
  have hl := h.length_le (List.cons_ne_nil c [])
  unfold splitChar splitViewChar
  rw [← List.length_singleton (a := c), splitFrom_eq (List.cons_ne_nil c []) h n 0 [] (by omega) rfl (by omega),
    List.nil_append, Option.map_some, copies_eq]

/-- The empty delimiter cuts nothing. -/
theorem split_nil (n : Nat) (keepEmpty : Bool) : split n str [] keepEmpty = some (kept keepEmpty [str]) := by
  unfold split splitView
  rw [if_pos (by rfl), Option.map_some, copies_eq]
  cases keepEmpty
  · cases str <;> simp [kept]
  · simp [kept]

/-! ## Replacing -/

theorem replaceFrom_eq {to' : List α} (hd : d ≠ []) {s : List α} {ps : List (List α)} (h : Pieces d s ps) :
    ∀ (n begin : Nat) (out : List α), begin ≤ str.length → str.drop begin = s → ps.length ≤ n →
      replaceFrom str d to' n begin out = some (out ++ to'.intercalate ps) := by
  induction h with
  | @last s hin =>
    intro n begin out hb hs hn
    obtain ⟨n, rfl⟩ : ∃ m, n = m + 1 := ⟨n - 1, by simp at hn; omega⟩
    unfold replaceFrom
    rw [List.intercalate_singleton, ← hs]
    by_cases hlt : begin < str.length
    · rw [if_pos hlt, find_none (hs ▸ hin)]
    · rw [if_neg hlt, List.drop_of_length_le (by omega), List.append_nil]
  | @cut s k ps hk hps ih =>
    intro n begin out hb hs hn
    obtain ⟨n, rfl⟩ : ∃ m, n = m + 1 := ⟨n - 1, by simp at hn; omega⟩
    have hle := hk.le hd
    have hp := List.length_pos_iff.mpr hd
    rw [← hs, List.length_drop] at hle
    unfold replaceFrom
    rw [if_pos (by omega), find_first hd (hs ▸ hk)]
    simp only [Nat.add_sub_cancel_left]
    rw [ih n _ _ (by omega) (by rw [← hs, List.drop_drop, Nat.add_assoc]) (by simpa using hn),
      List.intercalate_cons_of_ne_nil hps.ne_nil, substr, hs]
    simp only [List.append_assoc]

theorem replaceAll_eq {n : Nat} {to' : List α} {ps : List (List α)} (hd : d ≠ []) (h : Pieces d str ps)
    (hn : str.length < n) : replaceAll n str d to' = some (to'.intercalate ps) := by
  have hl := h.length_le hd
  unfold replaceAll
  rw [if_neg (by simpa using hd), replaceFrom_eq hd h n 0 [] (by omega) rfl (by omega), List.nil_append]

/-! ## The laws -/

/-- What a `split` makes of a text: pieces that the delimiter joins to the text, with the empty ones or without, and none
that contains the delimiter; a turn for each character and one more is enough. -/
def SplitsBy (split : Nat → Bool → Option (List (List α))) (str delim : List α) : Prop :=
  ∃ ps, (∀ n > str.length, split n true = some ps ∧ split n false = some (ps.filter (· ≠ []))) ∧
    join ps delim = str ∧ (delim ≠ [] → ∀ p ∈ ps, ¬ delim <:+: p)

omit [DecidableEq α] in
theorem SplitsBy.of_pieces {split : Nat → Bool → Option (List (List α))} {ps : List (List α)} (hd : d ≠ [])
    (h : Pieces d str ps) (hs : ∀ n > str.length, ∀ keepEmpty, split n keepEmpty = some (kept keepEmpty ps)) :
    SplitsBy split str d := by
  refine ⟨ps, ?_, ?_, fun _ => h.free hd⟩
  · intro n hn
    exact ⟨hs n hn true, hs n hn false⟩
  · rw [join_eq, h.intercalate]

/-- The laws of splitting by a character and by a string, and of replacing. -/
theorem split_laws (str : List α) :
    (∀ delim : α, SplitsBy (splitChar · str delim ·) str [delim]) ∧
      (∀ delim : List α, SplitsBy (split · str delim ·) str delim) ∧
      ∀ from' to' : List α, from' ≠ [] →
        ∃ ps, ∀ n > str.length, split n str from' true = some ps ∧ replaceAll n str from' to' = some (join ps to') := by
  refine ⟨?_, ?_, ?_⟩
  · intro delim
    obtain ⟨ps, hps⟩ := Pieces.exists (List.cons_ne_nil delim []) str
    exact SplitsBy.of_pieces (List.cons_ne_nil delim []) hps (fun n hn _ => splitChar_eq hps hn)
  · intro delim
    by_cases hd : delim = []
    · subst hd
      refine ⟨[str], ?_, ?_, fun h => absurd rfl h⟩
      · intro n _
        exact ⟨split_nil n true, split_nil n false⟩
      · rw [join_eq, List.intercalate_singleton]
    · obtain ⟨ps, hps⟩ := Pieces.exists hd str
      exact SplitsBy.of_pieces hd hps (fun n hn _ => split_eq hd hps hn)
  · intro from' to' hd
    obtain ⟨ps, hps⟩ := Pieces.exists hd str
    refine ⟨ps, fun n hn => ⟨split_eq hd hps hn, ?_⟩⟩
    rw [join_eq, replaceAll_eq hd hps hn]

/-- `aaa` by `aa`: the occurrences overlap, and the left one cuts. -/
theorem split_laws_overlap : ∃ ps, ∀ n > 3, split n ['a', 'a', 'a'] ['a', 'a'] true = some ps ∧
    replaceAll n ['a', 'a', 'a'] ['a', 'a'] ['a', 'a', 'b'] = some (join ps ['a', 'a', 'b']) :=
  (split_laws ['a', 'a', 'a']).2.2 ['a', 'a'] ['a', 'a', 'b'] (by decide)

end Dbase.Str
