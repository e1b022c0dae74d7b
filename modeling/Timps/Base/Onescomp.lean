-- SUMMARY: Ones-complement sums of 16-bit words: end-around carry, folding, and byte order.
import Mathlib.Algebra.GroupWithZero.Nat
import Mathlib.Data.List.Basic

/-!
# Ones-complement sums

Addition of 16-bit words with end-around carry is addition modulo 65535, where the residue 0
is written 65535 unless nothing was added. It does not depend on the byte order. A sum that
was taken in wider words is brought back by folding its upper half onto its lower one, until
nothing carries.
-/

namespace Onescomp

/-- Addition with end-around carry. -/
def add (a b : Nat) : Nat := if a + b < 65536 then a + b else a + b - 65535

/-- The sum of words, with every carry brought back in. -/
def sum (l : List Nat) : Nat := l.foldr add 0

/-- A word with its two bytes exchanged. -/
def swap (w : Nat) : Nat := w % 256 * 256 + w / 256 % 256

/-- The upper half is added to the lower one, once. -/
def fold (n : Nat) : Nat := n / 65536 + n % 65536

/-- The word that stands for a number. -/
def residue (n : Nat) : Nat := if n = 0 then 0 else (n - 1) % 65535 + 1

theorem residue_lt (n : Nat) : residue n < 65536 := by
  unfold residue
  split <;> omega

theorem residue_mod (n : Nat) : residue n % 65535 = n % 65535 := by
  unfold residue
  split <;> omega

theorem residue_eq_zero {n : Nat} : residue n = 0 ↔ n = 0 := by
  unfold residue
  split <;> omega

/-- A word is the residue of a number that it is congruent to. -/
theorem eq_residue {w n : Nat} (hw : w < 65536) (hmod : w % 65535 = n % 65535) (hzero : w = 0 ↔ n = 0) :
    w = residue n := by
  unfold residue
  split <;> omega

/-! ## Sums -/

theorem add_residue {a : Nat} (n : Nat) (ha : a < 65536) : add a (residue n) = residue (a + n) := by
  have hlt := residue_lt n
  have hmod := residue_mod n
  have hzero := @residue_eq_zero n
  apply eq_residue
  · unfold add
    split <;> omega
  · unfold add
    split <;> omega
  · unfold add
    split <;> omega

theorem sum_eq {l : List Nat} (hl : ∀ w ∈ l, w < 65536) : sum l = residue l.sum := by
  induction l with
  | nil => rfl
  | cons w l ih =>
      have hrest := ih fun w hw => hl w (List.mem_cons_of_mem _ hw)
      calc sum (w :: l) = add w (sum l) := rfl
        _ = add w (residue l.sum) := by rw [hrest]
        _ = residue (w + l.sum) := add_residue _ (hl w List.mem_cons_self)
        _ = residue (w :: l).sum := by rw [List.sum_cons]

/-! ## Folding -/

/-- A sum that folds into a word is that word. -/
theorem residue_of_fold_lt {n : Nat} (hfold : fold n < 65536) : residue n = fold n := by
  refine (eq_residue hfold ?_ ?_).symm <;> unfold fold <;> omega

/-- A sum that carries once more wants the carry added. -/
theorem residue_of_le_fold {n : Nat} (hn : n < 2 ^ 32) (hfold : 65536 ≤ fold n) :
    residue n = fold n % 65536 + 1 := by
  have hcarry : fold n % 65536 + 1 = fold n - 65535 := by
    unfold fold at hfold ⊢
    omega
  have hsum : n = fold n - 65535 + 65535 * (n / 65536 + 1) := by
    unfold fold at hfold ⊢
    omega
  rw [hcarry]
  refine (eq_residue ?_ ?_ ?_).symm
  · unfold fold
    omega
  · conv_rhs => rw [hsum, Nat.add_mul_mod_self_left]
  · omega

/-! ## Byte order -/

theorem swap_lt (w : Nat) : swap w < 65536 := by
  unfold swap
  omega

theorem swap_inj {v w : Nat} (hv : v < 65536) (hw : w < 65536) : swap v = swap w ↔ v = w := by
  unfold swap
  omega

theorem swap_eq_zero {w : Nat} (hw : w < 65536) : swap w = 0 ↔ w = 0 := by
  unfold swap
  omega

/-- Exchanging the bytes is multiplication by 256. -/
theorem swap_mod {w : Nat} (hw : w < 65536) : swap w % 65535 = 256 * w % 65535 := by
  have hbytes : 256 * w = swap w + 65535 * (w / 256) := by
    unfold swap
    omega
  rw [hbytes, Nat.add_mul_mod_self_left]

theorem sum_swap_mod {l : List Nat} (hl : ∀ w ∈ l, w < 65536) :
    (l.map swap).sum % 65535 = 256 * l.sum % 65535 := by
  induction l with
  | nil => rfl
  | cons w l ih =>
      have hrest := ih fun w hw => hl w (List.mem_cons_of_mem _ hw)
      have hword := swap_mod (hl w List.mem_cons_self)
      rw [List.map_cons, List.sum_cons, List.sum_cons]
      omega

theorem sum_swap_eq_zero {l : List Nat} (hl : ∀ w ∈ l, w < 65536) : (l.map swap).sum = 0 ↔ l.sum = 0 := by
  induction l with
  | nil => simp
  | cons w l ih =>
      have hrest := ih fun w hw => hl w (List.mem_cons_of_mem _ hw)
      have hword := swap_eq_zero (hl w List.mem_cons_self)
      rw [List.map_cons, List.sum_cons, List.sum_cons]
      omega

/-- A sum taken in the other byte order is the sum, in the other byte order. -/
theorem residue_sum_swap {l : List Nat} (hl : ∀ w ∈ l, w < 65536) :
    residue (l.map swap).sum = swap (residue l.sum) := by
  have hword := swap_mod (residue_lt l.sum)
  have hsum := sum_swap_mod hl
  have hres := residue_mod l.sum
  refine (eq_residue (swap_lt _) ?_ ?_).symm
  · omega
  · rw [swap_eq_zero (residue_lt _), residue_eq_zero, sum_swap_eq_zero hl]

end Onescomp
