-- SUMMARY: Comparison of screen names: when it stays inside both strings, and when it agrees with the comparison of nodes.
import Mathlib.Data.List.TakeWhile
import Timps.Gnr.Normal
import Timps.Oscar.Flap

/-!
# Comparison of screen names

The inner loops of `toscar_sncmp` skip spaces up to the terminator. When both names end
there at once the outer loop steps past both terminators and reads on.
-/

namespace Timps.Oscar

open Gnr (namecmp namecmp_iff normalised trailing trailing_cons uppercased uppercased_cons uppercased_eq_iff
  uppercased_space of_all_spaces)
open Naf (lit toupper)

variable {s t : CStr}

/-- Both names end in spaces, and they are the same up to case and space. -/
def Bothtrailing (s t : CStr) : Prop := normalised s = normalised t ∧ 0 < trailing s ∧ 0 < trailing t

instance : Decidable (Bothtrailing s t) := inferInstanceAs (Decidable (_ ∧ _))

/-- Spaces are skipped to the end of a name that has nothing else. -/
theorem dropWhile_spaces {c : UInt8} (hall : (c :: s).all (· = 32) = true) :
    (c :: s).dropWhile (· = 32) = [] ∧ uppercased (c :: s) = [] ∧ 0 < trailing (c :: s) := by
  obtain ⟨hupper, htrailing, -⟩ := of_all_spaces hall
  refine ⟨?_, hupper, ?_⟩
  · simpa [List.dropWhile_eq_nil_iff] using hall
  · rw [htrailing]
    exact Nat.succ_pos _

/-- Spaces are skipped up to a letter. -/
theorem dropWhile_letter {c : UInt8} (hall : ¬(c :: s).all (· = 32) = true) :
    ∃ d s', (c :: s).dropWhile (· = 32) = d :: s' ∧ s'.length ≤ s.length ∧
      uppercased (c :: s) = toupper d :: uppercased s' ∧ trailing (c :: s) = trailing s' := by
  induction s generalizing c with
  | nil =>
      have hc : c ≠ 32 := by simpa using hall
      exact ⟨c, [], by simp [hc], Nat.le_refl _, uppercased_cons hc _, trailing_cons hc _⟩
  | cons b s ih =>
      by_cases hc : c = 32
      · subst hc
        have hdrop : (32 :: b :: s).dropWhile (· = 32) = (b :: s).dropWhile (· = 32) := by simp
        have hskip : trailing (32 :: b :: s) = trailing (b :: s) := if_neg hall
        obtain ⟨d, s', hcons, hlen, hupper, htrailing⟩ := ih (c := b) (by simpa using hall)
        exact ⟨d, s', hdrop.trans hcons, Nat.le_succ_of_le hlen, (uppercased_space _).trans hupper,
          hskip.trans htrailing⟩
      · exact ⟨c, b :: s, by simp [hc], Nat.le_refl _, uppercased_cons hc _, trailing_cons hc _⟩

theorem uppercased_nil : uppercased [] = [] := rfl

theorem trailing_nil : trailing [] = 0 := rfl

/-- A name of spaces is not the empty one. -/
theorem trailing_ne_zero {c : UInt8} (hupper : uppercased (c :: s) = []) : trailing (c :: s) ≠ 0 := by
  by_cases hall : (c :: s).all (· = 32) = true
  · exact Nat.ne_of_gt (dropWhile_spaces hall).2.2
  · obtain ⟨d, s', -, -, hcons, -⟩ := dropWhile_letter hall
    rw [hcons] at hupper
    cases hupper

/-- What the loop comes to: it passes the ends of both names, or it answers as it should. -/
theorem sncmpLoop_eq {fuel : Nat} (hfuel : s.length + t.length < fuel) :
    sncmpLoop fuel s t =
      if uppercased s = uppercased t then
        if 0 < trailing s ∧ 0 < trailing t then none else if trailing s = trailing t then some 0 else some 1
      else some 1 := by
  induction fuel generalizing s t with
  | zero => omega
  | succ fuel ih =>
      match s, t with
      | [], [] => rfl
      | [], d :: t =>
          have hend : uppercased (d :: t) = [] → trailing (d :: t) ≠ 0 := trailing_ne_zero
          have hone : sncmpLoop (fuel + 1) [] (d :: t) = some 1 := rfl
          rw [hone, uppercased_nil, trailing_nil]
          split
          · rename_i hupper
            rw [if_neg (by omega), if_neg (hend hupper.symm).symm]
          · rfl
      | c :: s, [] =>
          have hend : uppercased (c :: s) = [] → trailing (c :: s) ≠ 0 := trailing_ne_zero
          have hone : sncmpLoop (fuel + 1) (c :: s) [] = some 1 := rfl
          rw [hone, uppercased_nil, trailing_nil]
          split
          · rename_i hupper
            rw [if_neg (by omega), if_neg (hend hupper)]
          · rfl
      | c :: s, d :: t =>
          simp only [List.length_cons] at hfuel
          unfold sncmpLoop
          -- spaces are skipped first: what is left of a name is empty or starts with a letter
          by_cases hs : (c :: s).all (· = 32) = true <;> by_cases ht : (d :: t).all (· = 32) = true
          · obtain ⟨hdrop, hupper, htrailing⟩ := dropWhile_spaces hs
            obtain ⟨hdrop', hupper', htrailing'⟩ := dropWhile_spaces ht
            rw [hdrop, hdrop', hupper, hupper', if_pos rfl, if_pos ⟨htrailing, htrailing'⟩]
          · obtain ⟨hdrop, hupper, htrailing⟩ := dropWhile_spaces hs
            obtain ⟨b, t', hdrop', -, hupper', -⟩ := dropWhile_letter ht
            rw [hdrop, hdrop', hupper, hupper', if_neg (List.cons_ne_nil _ _).symm]
          · obtain ⟨a, s', hdrop, -, hupper, -⟩ := dropWhile_letter hs
            obtain ⟨hdrop', hupper', htrailing'⟩ := dropWhile_spaces ht
            rw [hdrop, hdrop', hupper, hupper', if_neg (List.cons_ne_nil _ _)]
          · obtain ⟨a, s', hdrop, hlen, hupper, htrailing⟩ := dropWhile_letter hs
            obtain ⟨b, t', hdrop', hlen', hupper', htrailing'⟩ := dropWhile_letter ht
            rw [hdrop, hdrop', hupper, hupper', htrailing, htrailing']
            dsimp only
            by_cases hab : toupper a = toupper b
            · rw [if_neg (not_not.2 hab), ih (by omega), hab]
              simp only [List.cons.injEq, true_and]
            · rw [if_pos hab, if_neg fun h => hab (List.cons.inj h).1]

/-- The comparison reads past the ends of both names. -/
def Overruns (s t : CStr) : Prop := sncmpLoop (s.length + t.length + 1) s t = none

/-- It stays inside both names, and finds them equal just when the comparison of nodes does. -/
def Agrees (s t : CStr) : Prop := ¬Overruns s t ∧ ∀ overrun, sncmp overrun s t = 0 ↔ namecmp s t = 0

/-- That is so unless both names end in spaces and are the same up to space and case. -/
theorem agrees_iff : Agrees s t ↔ ¬Bothtrailing s t := by
  have hloop := sncmpLoop_eq (s := s) (t := t) (Nat.lt_succ_self _)
  unfold Agrees Overruns Bothtrailing sncmp
  rw [namecmp_iff, ← uppercased_eq_iff, hloop]
  constructor
  · rintro ⟨hinside, -⟩ ⟨hupper, htrailing⟩
    exact hinside (by rw [if_pos hupper, if_pos htrailing])
  · intro hnot
    by_cases hupper : uppercased s = uppercased t
    · have hneg : ¬(0 < trailing s ∧ 0 < trailing t) := fun h => hnot ⟨hupper, h⟩
      rw [if_pos hupper, if_neg hneg]
      by_cases hsame : trailing s = trailing t
      · simp [hupper, hsame]
      · simp [hsame]
    · simp [hupper]

/-- Two names that both end in a space. -/
theorem overruns_trailing : ¬Agrees (lit "alice ") (lit "alice ") := by
  rintro ⟨hinside, -⟩
  exact hinside rfl

end Timps.Oscar
