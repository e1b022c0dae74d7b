-- SUMMARY: Runs of a deterministic machine with their history, and the induction rules for them.

/-!
# Runs

A machine is a function `next` that takes an input and a state to the next state,
or stops. `Run next start h s` says that `s` is reached from a start state by the
steps `h`, listed oldest first; a step is the state it was taken from together
with its input. Properties of a run may refer to the whole history.
-/

section

variable {ε σ ι : Type}

/-- `s` is reached from a start state by the steps `h`. -/
inductive Run (next : ι → σ → Except ε σ) (start : σ → Prop) : List (σ × ι) → σ → Prop
  | start {s : σ} : start s → Run next start [] s
  | step {h : List (σ × ι)} {s s' : σ} {i : ι} :
      Run next start h s → next i s = .ok s' → Run next start (h ++ [(s, i)]) s'

/-- Take the inputs one after the other, and keep the steps. -/
def replayInputs (next : ι → σ → Except ε σ) : List ι → σ → Except ε (List (σ × ι) × σ)
  | [], s => .ok ([], s)
  | i :: l, s =>
      match next i s with
      | .error e => .error e
      | .ok s₁ =>
          match replayInputs next l s₁ with
          | .error e => .error e
          | .ok (h, s₂) => .ok ((s, i) :: h, s₂)

namespace Run

variable {next : ι → σ → Except ε σ} {start : σ → Prop} {h : List (σ × ι)} {s : σ}

/-- What holds at the start and is kept by every step holds at the end of a run. -/
theorem invariant {I : σ → Prop} (hrun : Run next start h s) (init : ∀ s, start s → I s)
    (step : ∀ i s s', I s → next i s = .ok s' → I s') : I s := by
  induction hrun with
  | start hs => exact init _ hs
  | step _ hstep ih => exact step _ _ _ ih hstep

/-- The history form of `invariant`: the property may speak about the steps taken,
and a step may use the run that led to it and a condition `G` that all steps of the
run meet. -/
theorem invariant_history {I : List (σ × ι) → σ → Prop} {G : σ → ι → Prop}
    (hrun : Run next start h s) (hG : ∀ p ∈ h, G p.1 p.2) (init : ∀ s, start s → I [] s)
    (step : ∀ h i s s', Run next start h s → I h s → G s i → next i s = .ok s' →
      I (h ++ [(s, i)]) s') : I h s := by
  induction hrun with
  | start hs => exact init _ hs
  | step hrun hstep ih =>
      rename_i h s s' i
      exact step h i s s' hrun (ih fun p hp => hG p (by simp [hp])) (hG (s, i) (by simp)) hstep

/-- Every step of a history was taken from a state that the run reached. -/
theorem of_mem {p : σ × ι} (hrun : Run next start h s) (hp : p ∈ h) :
    ∃ h₁ h₂ s', h = h₁ ++ p :: h₂ ∧ Run next start h₁ p.1 ∧ next p.2 p.1 = .ok s' := by
  induction hrun with
  | start _ => cases hp
  | step hrun hstep ih =>
      rename_i h s s' i
      rcases List.mem_append.1 hp with hp | hp
      · obtain ⟨h₁, h₂, t, rfl, hr, hn⟩ := ih hp
        exact ⟨h₁, h₂ ++ [(s, i)], t, by simp, hr, hn⟩
      · obtain rfl : p = (s, i) := by simpa using hp
        exact ⟨h, [], s', rfl, hrun, hstep⟩

/-- A replay goes on with a run. -/
theorem replay {l : List ι} {h' : List (σ × ι)} {s' : σ} (hrun : Run next start h s)
    (hr : replayInputs next l s = .ok (h', s')) :
    Run next start (h ++ h') s' ∧ h'.map (·.2) = l := by
  induction l generalizing h h' s with
  | nil =>
      cases hr
      exact ⟨by simpa using hrun, rfl⟩
  | cons i l ih =>
      simp only [replayInputs] at hr
      cases hnext : next i s with
      | error e =>
          rw [hnext] at hr
          cases hr
      | ok s₁ =>
          rw [hnext] at hr
          dsimp only at hr
          cases hrest : replayInputs next l s₁ with
          | error e =>
              rw [hrest] at hr
              cases hr
          | ok r =>
              rw [hrest] at hr
              cases hr
              obtain ⟨hrun', hinputs⟩ := ih (hrun.step hnext) hrest
              exact ⟨by simpa using hrun', by simp [hinputs]⟩

/-- What can be computed of a replay holds of a run. -/
theorem exists_of_replay {l : List ι} {q : List (σ × ι) × σ → Bool} (hs : start s)
    (hq : (replayInputs next l s).toOption.any q = true) :
    ∃ h s', Run next start h s' ∧ h.map (·.2) = l ∧ q (h, s') = true := by
  cases hr : replayInputs next l s with
  | error e =>
      rw [hr] at hq
      cases hq
  | ok r =>
      rw [hr] at hq
      have hrun : Run next start [] s := .start hs
      obtain ⟨hrun', hinputs⟩ := hrun.replay hr
      exact ⟨r.1, r.2, hrun', hinputs, hq⟩

end Run

end
