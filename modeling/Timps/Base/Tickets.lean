-- SUMMARY: Tickets that are issued once, redeemed once and dropped when they are overdue, read off a log.
import Mathlib.Data.Option.Basic
import Mathlib.Data.List.Basic

/-!
# Tickets

A log says which tickets were issued, which were redeemed, and when the overdue ones were
dropped. `outstanding` replays it; in a legal log, where no ticket is issued while one of
its key is outstanding, the outstanding tickets are those that were issued and neither
redeemed nor dropped since.
-/

namespace Tickets

inductive Event (κ ν τ : Type) where
  | issued (k : κ) (v : ν) (t : τ)
  | redeemed (k : κ)
  /-- what was overdue at that time is dropped -/
  | swept (now : τ)
  | idle

variable {κ ν τ : Type} [DecidableEq κ] (overdue : τ → τ → Bool)

/-- What is outstanding for a key after one more event. -/
def after (s : κ → Option (ν × τ)) (e : Event κ ν τ) (k : κ) : Option (ν × τ) :=
  match e with
  | .issued k' v t => if k' = k then some (v, t) else s k
  | .redeemed k' => if k' = k then none else s k
  | .swept now => (s k).filter fun p => !overdue p.2 now
  | .idle => s k

/-- What is outstanding for a key at the end of a log. -/
def outstanding (l : List (Event κ ν τ)) : κ → Option (ν × τ) :=
  l.foldl (after overdue) fun _ => none

/-- No ticket is issued while one of its key is outstanding. -/
inductive Legal : List (Event κ ν τ) → Prop
  | nil : Legal []
  | snoc {l : List (Event κ ν τ)} {e : Event κ ν τ} :
      Legal l → (∀ k v t, e = .issued k v t → outstanding overdue l k = none) → Legal (l ++ [e])

/-- The event leaves a ticket of that key and time alone. -/
def Spares (k : κ) (t : τ) (e : Event κ ν τ) : Prop :=
  e ≠ .redeemed k ∧ ∀ now, e = .swept now → overdue t now = false

/-- The ticket was issued and has been left alone since. -/
def Unspent (l : List (Event κ ν τ)) (k : κ) (v : ν) (t : τ) : Prop :=
  ∃ l₁ l₂, l = l₁ ++ .issued k v t :: l₂ ∧ ∀ e ∈ l₂, Spares overdue k t e

variable {overdue} {l : List (Event κ ν τ)} {e : Event κ ν τ} {k : κ} {v : ν} {t : τ}

@[simp] theorem outstanding_nil : outstanding overdue ([] : List (Event κ ν τ)) k = none := rfl

theorem outstanding_snoc :
    outstanding overdue (l ++ [e]) k = after overdue (outstanding overdue l) e k := by
  simp only [outstanding, List.foldl_append, List.foldl_cons, List.foldl_nil]

omit [DecidableEq κ] in
theorem unspent_snoc : Unspent overdue (l ++ [e]) k v t ↔
    e = .issued k v t ∨ Unspent overdue l k v t ∧ Spares overdue k t e := by
  constructor
  · rintro ⟨l₁, l₂, heq, hspares⟩
    rcases List.eq_nil_or_concat l₂ with rfl | ⟨l₂, e', rfl⟩
    · obtain ⟨-, hlast⟩ := List.append_inj' heq rfl
      exact .inl (List.cons_eq_cons.1 hlast).1
    · rw [List.concat_eq_append, ← List.cons_append, ← List.append_assoc] at heq
      obtain ⟨hinit, hlast⟩ := List.append_inj' heq rfl
      cases hlast
      exact .inr ⟨⟨l₁, l₂, hinit, fun e he => hspares e (by simp [he])⟩, hspares e (by simp)⟩
  · rintro (rfl | ⟨⟨l₁, l₂, rfl, hspares⟩, he⟩)
    · exact ⟨l, [], rfl, by simp⟩
    · refine ⟨l₁, l₂ ++ [e], by simp, fun e' he' => ?_⟩
      rcases List.mem_append.1 he' with he' | he'
      · exact hspares e' he'
      · obtain rfl := List.mem_singleton.1 he'
        exact he

/-- In a legal log a ticket is outstanding when it is unspent. -/
theorem outstanding_iff (hlegal : Legal overdue l) :
    outstanding overdue l k = some (v, t) ↔ Unspent overdue l k v t := by
  induction hlegal with
  | nil => simp [Unspent]
  | snoc hlegal hfresh ih =>
      rename_i l e
      rw [outstanding_snoc, unspent_snoc, ← ih]
      cases e with
      | issued k' v' t' =>
          by_cases hk : k' = k
          · subst hk
            have hnone := hfresh k' v' t' rfl
            simp [after, hnone]
          · simp [after, hk, Spares]
      | redeemed k' =>
          by_cases hk : k' = k <;> simp [after, hk, Spares]
      | swept now =>
          simp [after, Option.filter_eq_some_iff, Spares]
      | idle => simp [after, Spares]

end Tickets
