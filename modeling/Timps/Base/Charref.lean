-- SUMMARY: Decimal character references: a decoder for sequences of code units, and where a sequence can be cut.
import Mathlib.Data.List.Basic

/-!
# Character references

`decode` replaces each reference `&#N;` with a decimal `N` by the unit `N` and leaves all
else as it is. It goes through the units once and keeps back what may still become a
reference.
-/

namespace Charref

/-- `0` to `9` -/
def IsDigit (c : Nat) : Prop := 48 ≤ c ∧ c ≤ 57

instance (c : Nat) : Decidable (IsDigit c) := inferInstanceAs (Decidable (_ ∧ _))

/-- The number that decimal digits denote. -/
def number (digits : List Nat) : Nat := digits.foldl (fun n c => 10 * n + (c - 48)) 0

/-- Decode the units, with `pending` kept back: nothing, `&`, or `&#` and digits. -/
def decodeFrom : List Nat → List Nat → List Nat
  | pending, [] => pending
  | pending, c :: cs =>
      if c = 38 then pending ++ decodeFrom [38] cs
      else if pending = [38] ∧ c = 35 then decodeFrom [38, 35] cs
      else if 2 ≤ pending.length ∧ IsDigit c then decodeFrom (pending ++ [c]) cs
      else if 3 ≤ pending.length ∧ c = 59 then number (pending.drop 2) :: decodeFrom [] cs
      else pending ++ c :: decodeFrom [] cs

def decode (cs : List Nat) : List Nat := decodeFrom [] cs

/-- A unit that no reference goes on with. -/
def Breaks (c : Nat) : Prop := c ≠ 35 ∧ c ≠ 59 ∧ ¬IsDigit c

theorem decodeFrom_break {c : Nat} (pending cs : List Nat) (hbreaks : Breaks c) :
    decodeFrom pending (c :: cs) = pending ++ decode (c :: cs) := by
  obtain ⟨hhash, hend, hdigit⟩ := hbreaks
  unfold decode
  simp only [decodeFrom, hhash, hend, hdigit, and_false, if_false, List.nil_append]
  split <;> rfl

/-- Units can be cut in front of one that no reference goes on with. -/
theorem decodeFrom_append {c : Nat} (pending ds cs : List Nat) (hbreaks : Breaks c) :
    decodeFrom pending (ds ++ c :: cs) = decodeFrom pending ds ++ decode (c :: cs) := by
  induction ds generalizing pending with
  | nil => exact decodeFrom_break pending cs hbreaks
  | cons d ds ih =>
      simp only [List.cons_append, decodeFrom, ih]
      split
      · rw [List.append_assoc]
      · split
        · rfl
        · split
          · rfl
          · split
            · rfl
            · rw [List.append_assoc, List.cons_append]

theorem decode_append {c : Nat} (ds cs : List Nat) (hbreaks : Breaks c) :
    decode (ds ++ c :: cs) = decode ds ++ decode (c :: cs) := decodeFrom_append [] ds cs hbreaks

/-- Such a unit stands for itself, unless it starts a reference. -/
theorem decode_cons {c : Nat} (cs : List Nat) (hbreaks : Breaks c) (hamp : c ≠ 38) :
    decode (c :: cs) = c :: decode cs := by
  obtain ⟨hhash, hend, hdigit⟩ := hbreaks
  simp [decode, decodeFrom, hamp]

/-- What looks like a reference but has another character behind its digits is none. -/
theorem decodeFrom_literal {c : Nat} {pending digits : List Nat} (cs : List Nat)
    (hpending : 2 ≤ pending.length) (hdigits : ∀ d ∈ digits, IsDigit d) (hbreaks : Breaks c)
    (hamp : c ≠ 38) : decodeFrom pending (digits ++ c :: cs) = pending ++ digits ++ c :: decode cs := by
  induction digits generalizing pending with
  | nil =>
      rw [List.nil_append, decodeFrom_break pending cs hbreaks, decode_cons cs hbreaks hamp,
        List.append_nil]
  | cons d digits ih =>
      have hd := hdigits d (.head _)
      have hamp' : d ≠ 38 := by
        have := hd.1
        omega
      have hhash : d ≠ 35 := by
        have := hd.1
        omega
      simp only [List.cons_append, decodeFrom, hamp', hhash, and_false, if_false, hpending, hd, and_self,
        if_true]
      rw [ih (by rw [List.length_append]; omega) fun d hd => hdigits d (.tail _ hd)]
      simp

/-- Digits behind `&#`, with a semicolon behind them, are a reference. -/
theorem decodeFrom_reference {pending digits : List Nat} (cs : List Nat)
    (hpending : 2 ≤ pending.length) (hlen : 3 ≤ pending.length + digits.length)
    (hdigits : ∀ d ∈ digits, IsDigit d) :
    decodeFrom pending (digits ++ 59 :: cs) = number (pending.drop 2 ++ digits) :: decode cs := by
  induction digits generalizing pending with
  | nil =>
      rw [List.length_nil] at hlen
      have hlen' : 3 ≤ pending.length := hlen
      simp [decodeFrom, IsDigit, decode, hlen']
  | cons d digits ih =>
      have hd := hdigits d (.head _)
      have hamp' : d ≠ 38 := by
        have := hd.1
        omega
      have hhash : d ≠ 35 := by
        have := hd.1
        omega
      simp only [List.cons_append, decodeFrom, hamp', hhash, and_false, if_false, hpending, hd, and_self,
        if_true]
      have hlen' : 3 ≤ (pending ++ [d]).length + digits.length := by
        rw [List.length_append, List.length_singleton]
        simp only [List.length_cons] at hlen
        omega
      rw [ih (by rw [List.length_append]; omega) hlen' fun d hd => hdigits d (.tail _ hd),
        List.drop_append_of_le_length hpending]
      simp

/-- Up to the first element without a property all have it. -/
theorem exists_first {α : Type} {P : α → Prop} {l : List α} (h : ¬∀ x ∈ l, P x) :
    ∃ ds d rest, l = ds ++ d :: rest ∧ (∀ x ∈ ds, P x) ∧ ¬P d := by
  induction l with
  | nil => exact absurd (by simp) h
  | cons x l ih =>
      by_cases hx : P x
      · obtain ⟨ds, d, rest, rfl, hds, hd⟩ := ih fun hall => h (by simpa [hx] using hall)
        exact ⟨x :: ds, d, rest, rfl, by simpa [hx] using hds, hd⟩
      · exact ⟨[], x, l, rfl, by simp, hx⟩

end Charref
