-- SUMMARY: The hooks of the OSCAR module let the connections be, so its closes are cascades.
import Timps.Naf.Cascade
import Timps.Oscar.StepActs

/-!
# Closing the connections of the proxy

The module has no connkill hook, and its tag destructor changes the node table only.
-/

namespace Timps.Oscar

open Naf.Conn (Reached free free_closed)

theorem ops_quiet : Naf.Conn.Quiet ops where
  connkill mod f dead w hf := by
    unfold ops at hf
    split at hf <;> cases hf
  freetag f dead tag w hf := by
    by_cases howner : tag.owner = module
    · simp only [ops, howner, if_true, Option.some.injEq] at hf
      subst hf
      exact ⟨_, freetag_eq howner, rfl, rfl⟩
    · simp only [ops, if_neg howner] at hf
      cases hf

/-- Whatever connection of the proxy is closed, the connections that are freed with it are
those reached from it. -/
theorem close_reached {w : World} {d : Nat} (hd : (w.conn? d).isSome) :
    ∃ w', free ops d w = .ok ((), w') ∧
      ∀ k, (w'.conn? k).isSome ↔ (w.conn? k).isSome ∧ ¬Reached w d k := by
  obtain ⟨X, w', hw', hclosed⟩ := free_closed ops_quiet hd
  refine ⟨w', hw', fun k => ?_⟩
  rw [hclosed.open_iff, hclosed.mem_iff]

end Timps.Oscar
