/-
  Dbase.Lib.Framing — incremental decoding of a stream of frames.

  A decoder looks at the bytes received so far and answers: not enough yet, one frame
  and what follows it, or malformed. It decodes an encoding (`Frames`) when it returns
  every whole frame at the front of the input, whatever follows, and asks for more on
  every proper part of one.

  `Drains` is the receiver's loop: decode until more is needed. However a stream of
  encodings is cut, draining what has arrived delivers exactly the frames that are
  complete and leaves a proper part of the next one (`drains_prefix`).
-/

import Mathlib

namespace Dbase.Lib.Framing

variable {α β : Type}

inductive Verdict (α β : Type) where
  | needMore
  | frame (p : β) (rest : List α)
  | malformed

structure Frames (enc : β → List α) (dec : List α → Verdict α β) (ok : β → Prop) : Prop where
  whole : ∀ p rest, ok p → dec (enc p ++ rest) = .frame p rest
  part : ∀ p l s, ok p → l ++ s = enc p → s ≠ [] → dec l = .needMore
  empty : dec [] = .needMore

/-- Decoding `l` until more is needed delivers `ps` and leaves `l'`. -/
inductive Drains (dec : List α → Verdict α β) : List α → List β → List α → Prop
  | done {l : List α} : dec l = .needMore → Drains dec l [] l
  | next {l rest l' : List α} {p : β} {ps : List β} : dec l = .frame p rest → Drains dec rest ps l' →
      Drains dec l (p :: ps) l'

/-- What is left of a stream: nothing, or a proper part of the encoding of its first message. -/
def Partial (enc : β → List α) (rest : List β) (l : List α) : Prop :=
  (rest = [] ∧ l = []) ∨ ∃ m ms t, rest = m :: ms ∧ t ≠ [] ∧ l ++ t = enc m

def stream (enc : β → List α) (ms : List β) : List α := (ms.map enc).flatten

@[simp] theorem stream_nil (enc : β → List α) : stream enc [] = [] := rfl

@[simp] theorem stream_cons (enc : β → List α) (m : β) (ms : List β) : stream enc (m :: ms) = enc m ++ stream enc ms := rfl

/-- Two lists that extend to the same one: the first is a proper part of the second, or extends it. -/
theorem append_eq_append_cases {l s a b : List α} (h : l ++ s = a ++ b) :
    (∃ t, t ≠ [] ∧ l ++ t = a) ∨ ∃ r, l = a ++ r ∧ r ++ s = b := by
  rcases List.append_eq_append_iff.mp h with ⟨t, ha, hs⟩ | ⟨r, hl, hb⟩
  · by_cases ht : t = []
    · subst ht
      exact Or.inr ⟨[], by simpa using ha.symm, by simpa using hs⟩
    · exact Or.inl ⟨t, ht, ha.symm⟩
  · exact Or.inr ⟨r, hl, hb.symm⟩

/-- However much of a stream has arrived, draining it delivers the complete messages in order
    and leaves a proper part of the next. -/
theorem drains_prefix {enc : β → List α} {dec : List α → Verdict α β} {ok : β → Prop} (hf : Frames enc dec ok) :
    ∀ (ms : List β) (l s : List α), (∀ m ∈ ms, ok m) → l ++ s = stream enc ms →
      ∃ done rest l', ms = done ++ rest ∧ Drains dec l done l' ∧ l' ++ s = stream enc rest ∧ Partial enc rest l' := by
  intro ms
  induction ms with
  | nil =>
    intro l s _ h
    obtain ⟨rfl, rfl⟩ := List.append_eq_nil_iff.mp h
    exact ⟨[], [], [], rfl, .done hf.empty, rfl, Or.inl ⟨rfl, rfl⟩⟩
  | cons m ms ih =>
    intro l s hok h
    have hm := hok m (by simp)
    rcases append_eq_append_cases h with ⟨t, ht, hl⟩ | ⟨r, rfl, hr⟩
    · exact ⟨[], m :: ms, l, rfl, .done (hf.part m l t hm hl ht), h, Or.inr ⟨m, ms, t, rfl, ht, hl⟩⟩
    · obtain ⟨done, rest, l', hms, hd, hs, hp⟩ := ih r s (fun x hx => hok x (by simp [hx])) hr
      exact ⟨m :: done, rest, l', by simp [hms], .next (hf.whole m r hm) hd, hs, hp⟩

end Dbase.Lib.Framing
