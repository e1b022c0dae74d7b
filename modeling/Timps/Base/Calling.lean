-- SUMMARY: Callers that may hang up and call somebody else, and the called, who hold the line until the caller is gone.
import Mathlib.Logic.Function.Basic

/-!
# Calling

A party is a caller or is called. `Calling.Redial` lists how the lines change when only
callers let go of somebody who is there: a party enters, somebody who is free or a caller
is coupled with a new party of the other side, a caller lets go, a party leaves, and whoever
points to one that left lets go of it. The called stay with their caller then.
-/

/-- Which parties are there, whether they are callers, and whom they point to. -/
abbrev Calling (α : Type) := α → Option (Bool × Option α)

namespace Calling

variable {α : Type} {l l' : Calling α}

/-- Whom a caller points to is called, and points back. -/
def Held (l : Calling α) : Prop :=
  ∀ a e b x, l a = some (true, some e) → l e = some (b, x) → b = false ∧ x = some a

/-- Not there, and not pointed to. -/
structure Fresh (l : Calling α) (n : α) : Prop where
  closed : l n = none
  unknown : ∀ a b, l a ≠ some (b, some n)

open Function (update update_apply)

inductive Redial [DecidableEq α] : Calling α → Calling α → Prop
  | enter {l : Calling α} {n : α} {b : Bool} : Fresh l n → Redial l (update l n (some (b, none)))
  | couple {l : Calling α} {a n : α} {b : Bool} {x : Option α} : l a = some (b, x) →
      (x.isSome → b = true) → Fresh l n →
      Redial l (update (update l a (some (b, some n))) n (some (!b, some a)))
  | drop {l : Calling α} {a : α} {b : Bool} {x : Option α} : l a = some (b, x) →
      (x.isSome → b = true) → Redial l (update l a (some (b, none)))
  | leave {l : Calling α} {d : α} : Redial l (update l d none)
  | forget {l : Calling α} {a d : α} {b : Bool} : l a = some (b, some d) → l d = none →
      Redial l (update l a (some (b, none)))

/-- Who is called by a party that is there is not one that may let go. -/
theorem Held.ne {a e k : α} {b : Bool} {x : Option α} (hl : Held l) (hk : l k = some (true, some e))
    (ha : l a = some (b, x)) (hx : x.isSome → b = true) : e ≠ a := by
  rintro rfl
  obtain ⟨rfl, rfl⟩ := hl k e b x hk ha
  exact absurd (hx rfl) Bool.false_ne_true

variable [DecidableEq α]

theorem Redial.held (h : Redial l l') (hl : Held l) : Held l' := by
  intro k e b x hk he
  cases h with
  | @enter n c hn =>
      rw [update_apply] at hk he
      split at hk
      · cases hk
      · split at he
        · rename_i hen
          exact absurd (hen ▸ hk) (hn.unknown k true)
        · exact hl k e b x hk he
  | @couple a n c y ha hy hn =>
      simp only [update_apply] at hk he
      split at hk
      · -- the new party calls the one it was coupled with
        rename_i hkn
        simp only [Option.some.injEq, Prod.mk.injEq, Bool.not_eq_true'] at hk
        obtain ⟨rfl, rfl⟩ := hk
        have hne : a ≠ n := by
          rintro rfl
          rw [hn.closed] at ha
          cases ha
        rw [if_neg hne, if_pos rfl] at he
        cases he
        exact ⟨rfl, by rw [hkn]⟩
      · split at hk
        · rename_i hka
          cases hk
          rw [if_pos rfl] at he
          cases he
          rw [hka]
          exact ⟨rfl, rfl⟩
        · split at he
          · rename_i hen
            exact absurd (hen ▸ hk) (hn.unknown k true)
          · rw [if_neg (hl.ne hk ha hy)] at he
            exact hl k e b x hk he
  | @drop a c y ha hy =>
      rw [update_apply] at hk he
      split at hk
      · cases hk
      · rw [if_neg (hl.ne hk ha hy)] at he
        exact hl k e b x hk he
  | @leave d =>
      rw [update_apply] at hk he
      split at hk
      · cases hk
      · split at he
        · cases he
        · exact hl k e b x hk he
  | @forget a d c ha hd =>
      rw [update_apply] at hk he
      split at hk
      · cases hk
      · split at he
        · rename_i hea
          obtain ⟨rfl, hback⟩ := hl k a c _ (hea ▸ hk) ha
          obtain rfl : d = k := Option.some.inj hback
          rw [hd] at hk
          cases hk
        · exact hl k e b x hk he

/-- The called hold the line as long as both are there. -/
theorem Redial.keeps {a e : α} (h : Redial l l') (he : l e = some (false, some a)) (ha : l a ≠ none)
    (he' : l' e ≠ none) : l' e = some (false, some a) := by
  cases h with
  | @enter n c hn =>
      have hne : e ≠ n := fun heq => by rw [heq, hn.closed] at he; cases he
      rw [update_apply, if_neg hne, he]
  | @couple k n c y hk hy hn =>
      have hne : e ≠ n := fun heq => by rw [heq, hn.closed] at he; cases he
      have hne' : e ≠ k := by
        rintro rfl
        rw [he] at hk
        cases hk
        exact absurd (hy rfl) Bool.false_ne_true
      rw [update_apply, if_neg hne, update_apply, if_neg hne', he]
  | @drop k c y hk hy =>
      have hne : e ≠ k := by
        rintro rfl
        rw [he] at hk
        cases hk
        exact absurd (hy rfl) Bool.false_ne_true
      rw [update_apply, if_neg hne, he]
  | @leave d =>
      rw [update_apply] at he' ⊢
      split at he'
      · exact absurd rfl he'
      · rename_i hne
        rw [if_neg hne, he]
  | @forget c d b hc hd =>
      have hne : e ≠ c := by
        rintro rfl
        rw [he] at hc
        cases hc
        exact ha hd
      rw [update_apply, if_neg hne, he]

end Calling
