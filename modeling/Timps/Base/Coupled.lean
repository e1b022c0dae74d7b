-- SUMMARY: Two programs side by side: what the one does, the other does as well.
import Timps.Base.Prog

/-!
# Coupled programs

`Coupled R x y` says that `y` can do what `x` does: where `x` returns, `y` returns a related value from
the same state, and leaves the same state behind. Nothing is said where `x` stops.
-/

namespace Prog

variable {ε σ α α' β β' : Type}

def Coupled (R : α → α' → Prop) (x : Prog ε σ α) (y : Prog ε σ α') : Prop :=
  ∀ s a s', x s = .ok (a, s') → ∃ a', y s = .ok (a', s') ∧ R a a'

namespace Coupled

variable {R : α → α' → Prop} {S : β → β' → Prop} {x : Prog ε σ α} {y : Prog ε σ α'}

theorem pure {a : α} {a' : α'} (h : R a a') :
    Coupled R (Pure.pure a : Prog ε σ α) (Pure.pure a' : Prog ε σ α') := by
  intro s b s' hr
  cases pure_ok.1 hr
  exact ⟨a', rfl, h⟩

theorem refl (x : Prog ε σ α) : Coupled Eq x x := fun _ a _ hr => ⟨a, hr, rfl⟩

theorem fault {e : ε} : Coupled R (Prog.fault e) y := fun _ _ _ hr => (fault_ok.1 hr).elim

theorem bind {f : α → Prog ε σ β} {g : α' → Prog ε σ β'} (hx : Coupled R x y)
    (hf : ∀ a a', R a a' → Coupled S (f a) (g a')) : Coupled S (x >>= f) (y >>= g) := by
  intro s b s' hr
  obtain ⟨a, s₁, hx₁, hf₁⟩ := bind_ok.1 hr
  obtain ⟨a', hy₁, ha⟩ := hx s a s₁ hx₁
  obtain ⟨b', hg₁, hb⟩ := hf a a' ha s₁ b s' hf₁
  exact ⟨b', (bind_of_ok hy₁).trans hg₁, hb⟩

theorem ite {c : Prop} [Decidable c] {x' : Prog ε σ α} {y' : Prog ε σ α'} (h : c → Coupled R x y)
    (h' : ¬c → Coupled R x' y') : Coupled R (if c then x else x') (if c then y else y') := by
  by_cases hc : c
  · rw [if_pos hc, if_pos hc]
    exact h hc
  · rw [if_neg hc, if_neg hc]
    exact h' hc

end Coupled

end Prog
