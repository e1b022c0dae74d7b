-- SUMMARY: Streams that are concatenations of frames, and what a reader has split off such a stream.
import Mathlib.Data.List.Basic

/-!
# Framing

A prefix-free set of frames can be read off a stream in one way only. `Splits` says
that a reader has split as many frames off a stream as there are; what is left does not
start with a frame.
-/

namespace Framing

variable {α : Type} {IsFrame : List α → Prop}

/-- Of two streams that start with a frame, equal streams start with the same one. -/
structure PrefixFree (IsFrame : List α → Prop) : Prop where
  ne_nil : ¬IsFrame []
  eq_of_append : ∀ {f g x y : List α}, IsFrame f → IsFrame g → f ++ x = g ++ y → f = g

/-- The stream is these frames and a rest that does not start with one. -/
structure Splits (IsFrame : List α → Prop) (stream : List α) (frames : List (List α))
    (rest : List α) : Prop where
  eq : stream = frames.flatten ++ rest
  frames : ∀ f ∈ frames, IsFrame f
  rest : ∀ f, IsFrame f → ¬f <+: rest

namespace Splits

variable {stream rest rest' x : List α} {frames frames' : List (List α)}

theorem nil (hpf : PrefixFree IsFrame) : Splits IsFrame [] [] [] where
  eq := rfl
  frames := by simp
  rest := by
    rintro f hf hinit
    rw [List.prefix_nil.1 hinit] at hf
    exact hpf.ne_nil hf

/-- More of the stream arrives, and completes no frame. -/
theorem more (h : Splits IsFrame stream frames rest)
    (hrest : ∀ f, IsFrame f → ¬f <+: rest ++ x) : Splits IsFrame (stream ++ x) frames (rest ++ x) where
  eq := by rw [h.eq, List.append_assoc]
  frames := h.frames
  rest := hrest

/-- More of the stream arrives, and completes a frame. -/
theorem complete (hpf : PrefixFree IsFrame) (h : Splits IsFrame stream frames rest)
    (hframe : IsFrame (rest ++ x)) : Splits IsFrame (stream ++ x) (frames ++ [rest ++ x]) [] where
  eq := by simp [h.eq]
  frames := by
    intro f hf
    rcases List.mem_append.1 hf with hf | hf
    · exact h.frames f hf
    · obtain rfl := List.mem_singleton.1 hf
      exact hframe
  rest := (nil hpf).rest

/-- What was split off comes first in every sequence of frames that the stream begins. -/
theorem prefix_of_prefix (hpf : PrefixFree IsFrame) (h : Splits IsFrame stream frames rest)
    (hframes : ∀ f ∈ frames', IsFrame f) (hstream : stream <+: frames'.flatten) :
    frames <+: frames' := by
  obtain ⟨y, hy⟩ := hstream
  have heq : frames.flatten ++ (rest ++ y) = frames'.flatten := by
    rw [← hy, h.eq, List.append_assoc]
  have hall := h.frames
  clear h hy
  induction frames generalizing frames' with
  | nil => exact List.nil_prefix
  | cons f frames ih =>
      have hf := hall f (.head _)
      cases frames' with
      | nil =>
          have hnil : f = [] := by
            have hflat := congrArg List.length heq
            simp only [List.flatten_cons, List.flatten_nil, List.length_append, List.length_nil] at hflat
            exact List.eq_nil_of_length_eq_zero (by omega)
          exact absurd (hnil ▸ hf) hpf.ne_nil
      | cons g frames' =>
          simp only [List.flatten_cons, List.append_assoc] at heq
          obtain rfl := hpf.eq_of_append hf (hframes g (.head _)) heq
          have htail := ih (fun f hf => hframes f (.tail _ hf)) (List.append_cancel_left heq)
            fun f hf => hall f (.tail _ hf)
          exact List.cons_prefix_cons.2 ⟨rfl, htail⟩

/-- From a stream of whole frames all are split off. -/
theorem eq_of_flatten (hpf : PrefixFree IsFrame) (h : Splits IsFrame stream frames rest)
    (hframes : ∀ f ∈ frames', IsFrame f) (hstream : stream = frames'.flatten) : frames = frames' := by
  obtain ⟨l, rfl⟩ := h.prefix_of_prefix hpf hframes ⟨[], by rw [hstream, List.append_nil]⟩
  have hrest : rest = l.flatten := by
    have heq := h.eq.symm.trans hstream
    rw [List.flatten_append] at heq
    exact List.append_cancel_left heq
  cases l with
  | nil => simp
  | cons f l =>
      refine absurd ?_ (h.rest f (hframes f (by simp)))
      rw [hrest, List.flatten_cons]
      exact List.prefix_append f _

end Splits
end Framing
