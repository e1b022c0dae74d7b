-- SUMMARY: Programs over a state that may stop with a fault: inversion rules, effect relations and invariants.
import Mathlib.Logic.Relation

/-!
# Programs with a state and faults

`Prog ε σ α` is the shallow embedding of imperative code: it reads and changes a
state `σ` and either returns an `α` or stops with a fault `ε`. Nothing in this
module depends on what the state or the faults are.

Two styles of reasoning are offered. The inversion rules (`bind_ok` and its
companions) take a run apart from its first statement on. The effect relation
`DoesFrom R x s` says that every run of `x` from `s` that returns is a sequence of
`R`-steps; it is closed under the program constructors, so an invariant of `R` is
an invariant of each program built from `R`-steps. `Gives x Q` bounds the values that
`x` returns, whatever state it runs from.
-/

/-- A program over the state `σ` that returns an `α` or stops with a fault `ε`. -/
abbrev Prog (ε σ α : Type) := StateT σ (Except ε) α

namespace Prog

variable {ε σ τ α β : Type}

/-- Read a value off the state. -/
def read (f : σ → α) : Prog ε σ α := fun s => .ok (f s, s)

/-- Change the state. -/
def update (f : σ → σ) : Prog ε σ Unit := fun s => .ok ((), f s)

/-- Stop with a fault. -/
def fault (e : ε) : Prog ε σ α := fun _ => .error e

/-- Run a program on every element of a list, in order. -/
def each {γ : Type} (g : γ → Prog ε σ Unit) : List γ → Prog ε σ Unit
  | [] => pure ()
  | c :: l => do
      g c
      each g l

/-- Run a program over a component of the state. -/
def focus (get : σ → τ) (set : τ → σ → σ) (x : Prog ε τ α) : Prog ε σ α := fun s =>
  match x (get s) with
  | .ok (a, t) => .ok (a, set t s)
  | .error e => .error e

/-! ## Taking a run apart -/

theorem pure_run (a : α) (s : σ) : (pure a : Prog ε σ α) s = .ok (a, s) := rfl

@[simp] theorem pure_ok {a : α} {s : σ} {r : α × σ} :
    (pure a : Prog ε σ α) s = .ok r ↔ r = (a, s) := by
  rw [pure_run, Except.ok.injEq]
  exact eq_comm

@[simp] theorem pure_ne_error {a : α} {s : σ} {e : ε} :
    (pure a : Prog ε σ α) s ≠ .error e := by
  simp [pure_run]

@[simp] theorem read_ok {f : σ → α} {s : σ} {r : α × σ} :
    (read f : Prog ε σ α) s = .ok r ↔ r = (f s, s) := by
  simp only [read, Except.ok.injEq]
  exact eq_comm

@[simp] theorem update_ok {f : σ → σ} {s : σ} {r : Unit × σ} :
    (update f : Prog ε σ Unit) s = .ok r ↔ r = ((), f s) := by
  simp only [update, Except.ok.injEq]
  exact eq_comm

@[simp] theorem fault_ok {e : ε} {s : σ} {r : α × σ} :
    (fault e : Prog ε σ α) s = .ok r ↔ False := by
  simp [fault]

/-- A sequence that came to its end did so in both its parts. -/
theorem bind_ok {x : Prog ε σ α} {f : α → Prog ε σ β} {s : σ} {r : β × σ} :
    (x >>= f) s = .ok r ↔ ∃ a s₁, x s = .ok (a, s₁) ∧ f a s₁ = .ok r := by
  simp only [bind, StateT.bind, Except.bind]
  cases x s with
  | error e => simp
  | ok p =>
      obtain ⟨a, s₁⟩ := p
      constructor
      · intro h
        exact ⟨a, s₁, rfl, h⟩
      · rintro ⟨a', s', h, hf⟩
        cases h
        exact hf

theorem bind_of_ok {x : Prog ε σ α} {f : α → Prog ε σ β} {s s₁ : σ} {a : α}
    (h : x s = .ok (a, s₁)) : (x >>= f) s = f a s₁ := by
  simp only [bind, StateT.bind, Except.bind, h]

/-- What is behind a fault is not run. -/
theorem bind_of_error {x : Prog ε σ α} {f : α → Prog ε σ β} {s : σ} {e : ε}
    (h : x s = .error e) : (x >>= f) s = .error e := by
  simp only [bind, StateT.bind, Except.bind, h]

/-- Programs that do the same from a state do the same in front of another. -/
theorem bind_congr_left {x y : Prog ε σ α} {f : α → Prog ε σ β} {s : σ} (h : x s = y s) :
    (x >>= f) s = (y >>= f) s := by
  simp only [bind, StateT.bind, Except.bind, h]

/-- A sequence stops with a fault in its first part or in its second. -/
theorem bind_error {x : Prog ε σ α} {f : α → Prog ε σ β} {s : σ} {e : ε} :
    (x >>= f) s = .error e ↔
      x s = .error e ∨ ∃ a s₁, x s = .ok (a, s₁) ∧ f a s₁ = .error e := by
  cases hx : x s with
  | error e' => simp [bind_of_error hx]
  | ok p =>
      obtain ⟨a, s₁⟩ := p
      rw [bind_of_ok hx]
      constructor
      · intro h
        exact .inr ⟨a, s₁, rfl, h⟩
      · rintro (h | ⟨a', s', h, hf⟩)
        · cases h
        · cases h
          exact hf

theorem map_ok {g : α → β} {x : Prog ε σ α} {s : σ} {r : β × σ} :
    (g <$> x) s = .ok r ↔ ∃ a s₁, x s = .ok (a, s₁) ∧ r = (g a, s₁) := by
  simp only [map_eq_pure_bind, bind_ok, pure_ok]

/-- A call on a part of the state changes that part. -/
theorem focus_ok {get : σ → τ} {set : τ → σ → σ} {x : Prog ε τ α} {s : σ} {r : α × σ} :
    focus get set x s = .ok r ↔ ∃ a t, x (get s) = .ok (a, t) ∧ r = (a, set t s) := by
  unfold focus
  cases x (get s) with
  | error e => simp
  | ok p =>
      obtain ⟨a, t⟩ := p
      simp only [Except.ok.injEq, Prod.mk.injEq]
      constructor
      · intro h
        exact ⟨a, t, ⟨rfl, rfl⟩, h.symm⟩
      · rintro ⟨a', t', ⟨rfl, rfl⟩, rfl⟩
        rfl

theorem focus_of_ok {get : σ → τ} {set : τ → σ → σ} {x : Prog ε τ α} {s : σ} {a : α} {t : τ}
    (h : x (get s) = .ok (a, t)) : focus get set x s = .ok (a, set t s) := by
  simp only [focus, h]

/-- It faults where the call on the part does. -/
theorem focus_error {get : σ → τ} {set : τ → σ → σ} {x : Prog ε τ α} {s : σ} {e : ε} :
    focus get set x s = .error e ↔ x (get s) = .error e := by
  unfold focus
  cases x (get s) <;> simp

/-! ## Values returned -/

/-- Every value that a run of `x` returns satisfies `Q`. -/
def Gives (x : Prog ε σ α) (Q : α → Prop) : Prop := ∀ s a s', x s = .ok (a, s') → Q a

namespace Gives

variable {x : Prog ε σ α} {f : α → Prog ε σ β} {P Q : α → Prop} {T : β → Prop}

theorem mono (h : Gives x P) (hPQ : ∀ a, P a → Q a) : Gives x Q :=
  fun s a s' hx => hPQ a (h s a s' hx)

theorem and (hP : Gives x P) (hQ : Gives x Q) : Gives x fun a => P a ∧ Q a :=
  fun s a s' hx => ⟨hP s a s' hx, hQ s a s' hx⟩

theorem trivial : Gives x fun _ => True := fun _ _ _ _ => True.intro

theorem pure {a : α} (h : Q a) : Gives (Pure.pure a : Prog ε σ α) Q := by
  intro s a' s' hx
  cases pure_ok.1 hx
  exact h

theorem fault {e : ε} : Gives (Prog.fault e : Prog ε σ α) Q := by
  intro s a s' hx
  exact (fault_ok.1 hx).elim

theorem bind (hx : Gives x P) (hf : ∀ a, P a → Gives (f a) T) : Gives (x >>= f) T := by
  intro s b s' h
  obtain ⟨a, s₁, h₁, h₂⟩ := bind_ok.1 h
  exact hf a (hx s a s₁ h₁) s₁ b s' h₂

theorem map {g : α → β} (hx : Gives x P) (hg : ∀ a, P a → T (g a)) : Gives (g <$> x) T := by
  intro s b s' h
  obtain ⟨a, s₁, h₁, hr⟩ := map_ok.1 h
  cases hr
  exact hg a (hx s a _ h₁)

theorem ite {c : Prop} [Decidable c] {y : Prog ε σ α} (hx : c → Gives x Q)
    (hy : ¬c → Gives y Q) : Gives (if c then x else y) Q := by
  by_cases h : c
  · simpa only [h, if_true] using hx h
  · simpa only [h, if_false] using hy h

theorem focus {get : σ → τ} {set : τ → σ → σ} {x : Prog ε τ α} (hx : Gives x Q) :
    Gives (Prog.focus get set x) Q := by
  intro s a s' h
  obtain ⟨a', t, h₁, hr⟩ := focus_ok.1 h
  cases hr
  exact hx _ _ _ h₁

end Gives

/-! ## Effect relations -/

open Relation (ReflTransGen)

/-- What every step keeps, a sequence of steps keeps. -/
theorem keep {R : σ → σ → Prop} {I : σ → Prop} {s s' : σ} (step : ∀ s s', R s s' → I s → I s')
    (h : ReflTransGen R s s') (hs : I s) : I s' := by
  induction h with
  | refl => exact hs
  | tail _ h ih => exact step _ _ h ih

/-- Every run of `x` from `s` that returns is a sequence of `R`-steps. -/
def DoesFrom (R : σ → σ → Prop) (x : Prog ε σ α) (s : σ) : Prop :=
  ∀ a s', x s = .ok (a, s') → ReflTransGen R s s'

/-- `x` only ever takes `R`-steps. -/
def Does (R : σ → σ → Prop) (x : Prog ε σ α) : Prop := ∀ s, DoesFrom R x s

namespace DoesFrom

variable {R R' : σ → σ → Prop} {x : Prog ε σ α} {f : α → Prog ε σ β} {s : σ}

theorem mono (h : DoesFrom R x s) (hR : ∀ s s', R s s' → R' s s') : DoesFrom R' x s :=
  fun a s' hx => ReflTransGen.mono hR _ _ (h a s' hx)

theorem pure (a : α) : DoesFrom R (Pure.pure a : Prog ε σ α) s := by
  intro a' s' h
  cases pure_ok.1 h
  exact .refl

theorem read (g : σ → α) : DoesFrom R (Prog.read g : Prog ε σ α) s := by
  intro a' s' h
  cases read_ok.1 h
  exact .refl

theorem fault (e : ε) : DoesFrom R (Prog.fault e : Prog ε σ α) s := by
  intro a' s' h
  exact (fault_ok.1 h).elim

theorem update {g : σ → σ} (h : R s (g s)) : DoesFrom R (Prog.update g : Prog ε σ Unit) s := by
  intro a' s' hx
  cases update_ok.1 hx
  exact .single h

theorem bind (hx : DoesFrom R x s)
    (hf : ∀ a s₁, x s = .ok (a, s₁) → DoesFrom R (f a) s₁) : DoesFrom R (x >>= f) s := by
  intro b s' h
  obtain ⟨a, s₁, h₁, h₂⟩ := bind_ok.1 h
  exact (hx a s₁ h₁).trans (hf a s₁ h₁ b s' h₂)

theorem ite {c : Prop} [Decidable c] {y : Prog ε σ α}
    (hx : c → DoesFrom R x s) (hy : ¬c → DoesFrom R y s) :
    DoesFrom R (if c then x else y) s := by
  by_cases h : c
  · simpa only [h, if_true] using hx h
  · simpa only [h, if_false] using hy h

/-- A loop whose body may rely on what every step keeps. -/
theorem each {γ : Type} {g : γ → Prog ε σ Unit} {I : σ → Prop}
    (hg : ∀ c s, I s → DoesFrom R (g c) s) (hI : ∀ s s', R s s' → I s → I s') :
    ∀ (l : List γ) {s : σ}, I s → DoesFrom R (Prog.each g l) s
  | [], _, _ => .pure ()
  | c :: l, s, hs => .bind (hg c s hs) fun a s₁ h₁ => each hg hI l (keep hI (hg c s hs a s₁ h₁) hs)

end DoesFrom

namespace Does

variable {R R' : σ → σ → Prop} {x : Prog ε σ α} {f : α → Prog ε σ β}

theorem mono (h : Does R x) (hR : ∀ s s', R s s' → R' s s') : Does R' x :=
  fun s => (h s).mono hR

theorem pure (a : α) : Does R (Pure.pure a : Prog ε σ α) := fun _ => .pure a

theorem read (g : σ → α) : Does R (Prog.read g : Prog ε σ α) := fun _ => .read g

theorem fault (e : ε) : Does R (Prog.fault e : Prog ε σ α) := fun _ => .fault e

theorem update {g : σ → σ} (h : ∀ s, R s (g s)) : Does R (Prog.update g : Prog ε σ Unit) :=
  fun s => .update (h s)

theorem bind (hx : Does R x) (hf : ∀ a, Does R (f a)) : Does R (x >>= f) :=
  fun s => .bind (hx s) fun a s₁ _ => hf a s₁

/-- `bind` with what is known of the value in between. -/
theorem bind_gives {P : α → Prop} (hx : Does R x) (hg : Gives x P) (hf : ∀ a, P a → Does R (f a)) :
    Does R (x >>= f) :=
  fun s => .bind (hx s) fun a s₁ h => hf a (hg s a s₁ h) s₁

theorem map {g : α → β} (hx : Does R x) : Does R (g <$> x) := by
  rw [map_eq_pure_bind]
  exact .bind hx fun a => .pure (g a)

theorem ite {c : Prop} [Decidable c] {y : Prog ε σ α} (hx : c → Does R x) (hy : ¬c → Does R y) :
    Does R (if c then x else y) :=
  fun s => .ite (fun h => hx h s) (fun h => hy h s)

/-- A program over a component takes the steps its results allow. -/
theorem focus {get : σ → τ} {set : τ → σ → σ} {x : Prog ε τ α} (h : ∀ s t, R s (set t s)) :
    Does R (Prog.focus get set x) := by
  intro s a s' hx
  obtain ⟨a', t, -, hr⟩ := focus_ok.1 hx
  cases hr
  exact .single (h s t)

theorem each {γ : Type} {g : γ → Prog ε σ Unit} (h : ∀ c, Does R (g c)) :
    ∀ l : List γ, Does R (each g l)
  | [] => .pure ()
  | c :: l => .bind (h c) fun _ => each h l

end Does

/-! ## Faults -/

/-- A run of `x` from `s` that stops with a fault stops with one of `E`. -/
def StopsFrom (E : ε → Prop) (x : Prog ε σ α) (s : σ) : Prop := ∀ e, x s = .error e → E e

namespace StopsFrom

variable {E : ε → Prop} {x : Prog ε σ α} {f : α → Prog ε σ β} {s : σ}

theorem pure (a : α) : StopsFrom E (Pure.pure a : Prog ε σ α) s := fun _ h => (pure_ne_error h).elim

theorem read (g : σ → α) : StopsFrom E (Prog.read g : Prog ε σ α) s := by
  intro e h
  cases h

theorem update (g : σ → σ) : StopsFrom E (Prog.update g : Prog ε σ Unit) s := by
  intro e h
  cases h

theorem fault {e : ε} (he : E e) : StopsFrom E (Prog.fault e : Prog ε σ α) s := by
  intro e' h
  cases h
  exact he

theorem bind (hx : StopsFrom E x s) (hf : ∀ a s₁, x s = .ok (a, s₁) → StopsFrom E (f a) s₁) :
    StopsFrom E (x >>= f) s := by
  intro e h
  obtain hstop | ⟨a, s₁, h₁, h₂⟩ := bind_error.1 h
  · exact hx e hstop
  · exact hf a s₁ h₁ e h₂

theorem map {g : α → β} (hx : StopsFrom E x s) : StopsFrom E (g <$> x) s := by
  rw [map_eq_pure_bind]
  exact .bind hx fun _ _ _ => .pure _

theorem ite {c : Prop} [Decidable c] {y : Prog ε σ α} (hx : c → StopsFrom E x s)
    (hy : ¬c → StopsFrom E y s) : StopsFrom E (if c then x else y) s := by
  by_cases h : c
  · simpa only [h, if_true] using hx h
  · simpa only [h, if_false] using hy h

theorem focus {get : σ → τ} {set : τ → σ → σ} {y : Prog ε τ α} (hy : StopsFrom E y (get s)) :
    StopsFrom E (Prog.focus get set y) s := fun e h => hy e (focus_error.1 h)

end StopsFrom

/-- Every run of `x` takes `R`-steps, and stops with a fault of `E` or returns. -/
structure Obeys (R : σ → σ → Prop) (E : ε → Prop) (x : Prog ε σ α) : Prop where
  does : Does R x
  stops : ∀ s, StopsFrom E x s

namespace Obeys

variable {R : σ → σ → Prop} {E : ε → Prop} {x : Prog ε σ α} {f : α → Prog ε σ β}

theorem pure (a : α) : Obeys R E (Pure.pure a : Prog ε σ α) := ⟨.pure a, fun _ => .pure a⟩

theorem fault {e : ε} (he : E e) : Obeys R E (Prog.fault e : Prog ε σ α) :=
  ⟨.fault e, fun _ => .fault he⟩

theorem bind (hx : Obeys R E x) (hf : ∀ a, Obeys R E (f a)) : Obeys R E (x >>= f) :=
  ⟨.bind hx.does fun a => (hf a).does, fun s => .bind (hx.stops s) fun a s₁ _ => (hf a).stops s₁⟩

theorem map {g : α → β} (hx : Obeys R E x) : Obeys R E (g <$> x) :=
  ⟨.map hx.does, fun s => .map (hx.stops s)⟩

theorem ite {c : Prop} [Decidable c] {y : Prog ε σ α} (hx : c → Obeys R E x)
    (hy : ¬c → Obeys R E y) : Obeys R E (if c then x else y) :=
  ⟨.ite (fun h => (hx h).does) fun h => (hy h).does,
    fun s => .ite (fun h => (hx h).stops s) fun h => (hy h).stops s⟩

/-- A program that reads a bound for its work off the state. -/
theorem of_state {g : σ → Prog ε σ α} (h : ∀ t, Obeys R E (g t)) : Obeys R E fun s => g s s :=
  ⟨fun s a s' hx => (h s).does s a s' hx, fun s e hx => (h s).stops s e hx⟩

end Obeys

/-- What holds before an `R`-program and is kept by every `R`-step holds after it. -/
theorem DoesFrom.invariant {R : σ → σ → Prop} {x : Prog ε σ α} {s s' : σ} {a : α} {I : σ → Prop}
    (hx : DoesFrom R x s) (hr : x s = .ok (a, s')) (hI : I s)
    (step : ∀ s s', R s s' → I s → I s') : I s' :=
  keep step (hx a s' hr) hI

end Prog
