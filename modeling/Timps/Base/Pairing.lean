-- SUMMARY: Parties that point to one another in pairs, come and go, and let go of those that are gone.
import Mathlib.Logic.Function.Basic

/-!
# Pairing

`Ends α` says which parties are open and whom each of them points to. `Relink` lists
the changes under which pointing stays mutual: a party that nobody points to enters, a
free party is coupled with a new one, a party leaves, and a party that points to one
that left lets go of it.
-/

/-- Who is open, and whom each open party points to. -/
abbrev Ends (α : Type) := α → Option (Option α)

namespace Ends

variable {α : Type} {e e' : Ends α}

/-- Whoever points to an open party is pointed back to. -/
def Paired (e : Ends α) : Prop := ∀ a b x, e a = some (some b) → e b = some x → x = some a

/-- A party has one partner. -/
theorem Paired.unique {s t c : α} (hp : Paired e) (hs : e s = some (some c))
    (ht : e t = some (some c)) (hc : e c ≠ none) : s = t := by
  obtain ⟨x, hx⟩ := Option.ne_none_iff_exists'.1 hc
  have h₁ := hp s c x hs hx
  have h₂ := hp t c x ht hx
  rw [h₁] at h₂
  exact Option.some.inj h₂

/-- Neither open nor pointed to. -/
structure Fresh (e : Ends α) (n : α) : Prop where
  closed : e n = none
  unknown : ∀ a, e a ≠ some (some n)

open Function (update update_apply)

inductive Relink [DecidableEq α] : Ends α → Ends α → Prop
  | enter {e : Ends α} {n : α} : Fresh e n → Relink e (update e n (some none))
  | couple {e : Ends α} {l n : α} : e l = some none → Fresh e n →
      Relink e (update (update e l (some (some n))) n (some (some l)))
  | leave {e : Ends α} {d : α} : Relink e (update e d none)
  | forget {e : Ends α} {a d : α} : e a = some (some d) → e d = none →
      Relink e (update e a (some none))

variable [DecidableEq α]

/-- Pointing stays mutual. -/
theorem Relink.paired (h : Relink e e') (hp : Paired e) : Paired e' := by
  intro a b x ha hb
  cases h with
  | @enter n hn =>
      rw [update_apply] at ha hb
      split at ha
      · cases ha
      · split at hb
        · rename_i hbn
          exact absurd (hbn ▸ ha) (hn.unknown a)
        · exact hp a b x ha hb
  | @couple l n hl hn =>
      simp only [update_apply] at ha hb
      split at ha
      · -- the new party points to the one it was coupled with
        rename_i han
        obtain rfl : l = b := Option.some.inj (Option.some.inj ha)
        rw [if_neg (fun hln => by rw [hln, hn.closed] at hl; cases hl), if_pos rfl] at hb
        cases hb
        rw [han]
      · split at ha
        · rename_i hal
          obtain rfl : n = b := Option.some.inj (Option.some.inj ha)
          rw [if_pos rfl] at hb
          cases hb
          rw [hal]
        · split at hb
          · rename_i hbn
            exact absurd (hbn ▸ ha) (hn.unknown a)
          · split at hb
            · -- who pointed to a free party would have been pointed back to
              rename_i hbl
              cases hp a b none ha (hbl ▸ hl)
            · exact hp a b x ha hb
  | @leave d =>
      rw [update_apply] at ha hb
      split at ha
      · cases ha
      · split at hb
        · cases hb
        · exact hp a b x ha hb
  | @forget c d hc hd =>
      rw [update_apply] at ha hb
      split at ha
      · cases ha
      · split at hb
        · rename_i hbc
          have hca := hp a b _ ha (hbc ▸ hc)
          obtain rfl : d = a := Option.some.inj hca
          rw [hd] at ha
          cases ha
        · exact hp a b x ha hb

/-- Who points to an open party keeps pointing to it until one of them leaves. -/
theorem Relink.keeps {a b : α} (h : Relink e e') (ha : e a = some (some b)) (hb : e b ≠ none)
    (ha' : e' a ≠ none) : e' a = some (some b) := by
  cases h with
  | @enter n hn =>
      have hne : a ≠ n := fun heq => by rw [heq, hn.closed] at ha; cases ha
      rw [update_apply, if_neg hne, ha]
  | @couple l n hl hn =>
      have hne : a ≠ n := fun heq => by rw [heq, hn.closed] at ha; cases ha
      have hne' : a ≠ l := fun heq => by rw [heq, hl] at ha; cases ha
      rw [update_apply, if_neg hne, update_apply, if_neg hne', ha]
  | @leave d =>
      rw [update_apply] at ha' ⊢
      split at ha'
      · exact absurd rfl ha'
      · rename_i hne
        rw [if_neg hne, ha]
  | @forget c d hc hd =>
      have hne : a ≠ c := by
        rintro rfl
        rw [ha] at hc
        cases hc
        exact hb hd
      rw [update_apply, if_neg hne, ha]

end Ends
