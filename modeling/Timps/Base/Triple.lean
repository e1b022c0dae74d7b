-- SUMMARY: Triples of programs that may stop: a precondition, the faults that are tolerated, a postcondition.
import Timps.Base.Prog

/-!
# Triples

`Triple E P x Q` says of every run of `x` from a state with `P` that it stops with a fault
of `E`, or returns with `Q`. The postcondition speaks about the value and the state.
-/

namespace Prog

variable {ε σ τ α β : Type}

def Triple (E : ε → Prop) (P : σ → Prop) (x : Prog ε σ α) (Q : α → σ → Prop) : Prop :=
  ∀ s, P s → StopsFrom E x s ∧ ∀ a s', x s = .ok (a, s') → Q a s'

namespace Triple

variable {E : ε → Prop} {P P' I : σ → Prop} {x y : Prog ε σ α} {f : α → Prog ε σ β}
  {Q Q' : α → σ → Prop} {T : β → σ → Prop}

theorem pre (h : Triple E P x Q) (hP : ∀ s, P' s → P s) : Triple E P' x Q := fun s hs => h s (hP s hs)

theorem post (h : Triple E P x Q) (hQ : ∀ a s, Q a s → Q' a s) : Triple E P x Q' := fun s hs =>
  ⟨(h s hs).1, fun a s' hr => hQ a s' ((h s hs).2 a s' hr)⟩

theorem pure {a : α} (h : ∀ s, P s → Q a s) : Triple E P (Pure.pure a) Q := by
  refine fun s hs => ⟨.pure a, fun a' s' hr => ?_⟩
  cases pure_ok.1 hr
  exact h s hs

theorem read {g : σ → α} (h : ∀ s, P s → Q (g s) s) : Triple E P (Prog.read g) Q := by
  refine fun s hs => ⟨.read g, fun a s' hr => ?_⟩
  cases read_ok.1 hr
  exact h s hs

theorem update {g : σ → σ} {Q : Unit → σ → Prop} (h : ∀ s, P s → Q () (g s)) : Triple E P (Prog.update g) Q := by
  refine fun s hs => ⟨.update g, fun u s' hr => ?_⟩
  cases update_ok.1 hr
  exact h s hs

theorem fault {e : ε} (he : E e) : Triple E P (Prog.fault e : Prog ε σ α) Q := fun _ _ =>
  ⟨.fault he, fun _ _ hr => (fault_ok.1 hr).elim⟩

theorem bind (hx : Triple E P x Q) (hf : ∀ a, Triple E (Q a) (f a) T) : Triple E P (x >>= f) T := by
  refine fun s hs => ⟨.bind (hx s hs).1 fun a s₁ h₁ => (hf a s₁ ((hx s hs).2 a s₁ h₁)).1, fun b s' hr => ?_⟩
  obtain ⟨a, s₁, h₁, h₂⟩ := bind_ok.1 hr
  exact (hf a s₁ ((hx s hs).2 a s₁ h₁)).2 b s' h₂

theorem map {g : α → β} (hx : Triple E P x fun a s => T (g a) s) : Triple E P (g <$> x) T := by
  rw [map_eq_pure_bind]
  exact .bind hx fun a => .pure fun _ hs => hs

theorem ite {c : Prop} [Decidable c] (hx : c → Triple E P x Q) (hy : ¬c → Triple E P y Q) :
    Triple E P (if c then x else y) Q := by
  by_cases h : c
  · simpa only [h, if_true] using hx h
  · simpa only [h, if_false] using hy h

/-- What the precondition says whatever the state may be used as a fact. -/
theorem fact {p : Prop} (hp : ∀ s, P s → p) (h : p → Triple E P x Q) : Triple E P x Q :=
  fun s hs => h (hp s hs) s hs

/-- A precondition may be taken apart. -/
theorem of_exists {γ : Type} {P : γ → σ → Prop} (h : ∀ c, Triple E (P c) x Q) :
    Triple E (fun s => ∃ c, P c s) x Q := fun s ⟨c, hs⟩ => h c s hs

/-- What is known of the values that `x` returns. -/
theorem gives {R : α → Prop} (h : Triple E P x Q) (hg : Gives x R) : Triple E P x fun a s => Q a s ∧ R a :=
  fun s hs => ⟨(h s hs).1, fun a s' hr => ⟨(h s hs).2 a s' hr, hg s a s' hr⟩⟩

/-- The rule for loops over a list. -/
theorem each {γ : Type} {g : γ → Prog ε σ Unit} (l : List γ) (h : ∀ c ∈ l, Triple E I (g c) fun _ => I) :
    Triple E I (Prog.each g l) fun _ => I := by
  induction l with
  | nil => exact .pure fun _ hs => hs
  | cons c l ih =>
      exact .bind (h c List.mem_cons_self) fun _ => ih fun d hd => h d (List.mem_cons_of_mem c hd)

/-- A program over a component. -/
theorem focus {get : σ → τ} {set : τ → σ → σ} {y : Prog ε τ α} (hy : ∀ t, StopsFrom E y t)
    (hset : ∀ s t, P s → P (set t s)) : Triple E P (Prog.focus get set y) fun _ => P := by
  refine fun s hs => ⟨.focus (hy (get s)), fun a s' hr => ?_⟩
  obtain ⟨a', t, -, hr⟩ := focus_ok.1 hr
  cases hr
  exact hset s t hs

end Triple

end Prog
