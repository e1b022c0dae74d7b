-- SUMMARY: Numbers as text: what `atoi` makes of decimal digits, and dotted addresses.
import Timps.Naf.Conn

/-!
# Numerals

`atoi` reads the digits at the start of a string, so it reads back what `%d` prints. An internet
address is four of these numbers with dots between them.
-/

namespace Timps.Naf

open Naf.Conn (atoi)

/-! ## Decimal digits -/

def Digit (c : UInt8) : Prop := 48 ≤ c ∧ c ≤ 57

instance : DecidablePred Digit := fun c => inferInstanceAs (Decidable (48 ≤ c ∧ c ≤ 57))

/-- The value of a string of digits. -/
def digits (s : CStr) : Nat := s.foldl (fun n c => 10 * n + (c.toNat - 48)) 0

theorem digit_iff {c : UInt8} : (48 ≤ c && c ≤ 57) = true ↔ Digit c := by
  rw [Bool.and_eq_true, decide_eq_true_eq, decide_eq_true_eq, Digit]

/-- `atoi` takes the digits in front of anything else, if they make an `int`. -/
theorem atoi_append {s t : CStr} (hne : s ≠ []) (hs : ∀ c ∈ s, Digit c) (ht : ∀ c, t.head? = some c → ¬Digit c)
    (hint : digits s < 2 ^ 31) : atoi (s ++ t) = digits s := by
  have hrest : (t.takeWhile fun c => 48 ≤ c && c ≤ 57) = [] := by
    cases t with
    | nil => rfl
    | cons c t => exact List.takeWhile_cons_of_neg (mt digit_iff.1 (ht c rfl))
  have htake : ((s ++ t).takeWhile fun c => 48 ≤ c && c ≤ 57) = s := by
    rw [List.takeWhile_append_of_pos fun c hc => digit_iff.2 (hs c hc), hrest, List.append_nil]
  obtain ⟨c, s, rfl⟩ := List.exists_cons_of_ne_nil hne
  have hc := hs c List.mem_cons_self
  have hspace : ¬(c = 32 || (9 ≤ c && c ≤ 13)) = true := by
    unfold Digit at hc
    simp only [Bool.or_eq_true, Bool.and_eq_true, decide_eq_true_eq]
    rintro (rfl | ⟨-, hle⟩)
    · exact absurd hc.1 (by decide)
    · exact absurd (UInt8.le_trans hc.1 hle) (by decide)
  rw [List.cons_append] at htake ⊢
  have hdrop : ((c :: (s ++ t)).dropWhile fun c => c = 32 || (9 ≤ c && c ≤ 13)) = c :: (s ++ t) :=
    List.dropWhile_cons_of_neg hspace
  unfold atoi Naf.Conn.strtol
  dsimp only
  rw [hdrop]
  split
  · rename_i heq
    rw [List.cons.injEq] at heq
    rw [heq.1] at hc
    exact absurd hc (by decide)
  · rename_i heq
    rw [List.cons.injEq] at heq
    rw [heq.1] at hc
    exact absurd hc (by decide)
  · rw [htake]
    change int (max (-2 ^ 63) (min (digits (c :: s) : Int) (2 ^ 63 - 1))) = _
    rw [min_eq_left (by omega), max_eq_right (by omega), int_natCast hint]

/-! ## Printed numbers -/

theorem toNat_digit {d : Char} (hd : d.isDigit = true) :
    d.toNat.toUInt8.toNat = d.toNat ∧ 48 ≤ d.toNat ∧ d.toNat ≤ 57 := by
  have hbounds : 48 ≤ d.toNat ∧ d.toNat ≤ 57 := by
    simp only [Char.isDigit, Bool.and_eq_true, decide_eq_true_eq, ge_iff_le, UInt32.le_iff_toNat_le] at hd
    exact hd
  refine ⟨?_, hbounds⟩
  rw [UInt8.toNat_ofNat']
  exact Nat.mod_eq_of_lt (by omega)

theorem digit_of_mem_decimal {n : Nat} {c : UInt8} (hc : c ∈ decimal n) : Digit c := by
  obtain ⟨d, hd, rfl⟩ := List.mem_map.1 hc
  obtain ⟨heq, hlow, hhigh⟩ := toNat_digit (Nat.isDigit_of_mem_toDigits (by decide) (by decide) hd)
  constructor
  · rw [UInt8.le_iff_toNat_le, heq]
    exact hlow
  · rw [UInt8.le_iff_toNat_le, heq]
    exact hhigh

theorem decimal_ne_nil (n : Nat) : decimal n ≠ [] := by
  rw [decimal, ne_eq, List.map_eq_nil_iff]
  exact Nat.toDigits_ne_nil

/-- A number that is printed and read is the same. -/
theorem digits_decimal (n : Nat) : digits (decimal n) = n := by
  have hchar : ∀ (m : Nat), ∀ d ∈ Nat.toDigits 10 n,
      10 * m + (d.toNat.toUInt8.toNat - 48) = 10 * m + (d.toNat - '0'.toNat) := by
    intro m d hd
    rw [(toNat_digit (Nat.isDigit_of_mem_toDigits (by decide) (by decide) hd)).1]
    rfl
  rw [digits, decimal, List.foldl_map, List.foldl_ext _ _ 0 hchar, ← Nat.ofDigitChars_eq_foldl]
  exact Nat.ofDigitChars_ten_toDigits

theorem le_foldl_digits (s : CStr) (m : Nat) : m ≤ s.foldl (fun n c => 10 * n + (c.toNat - 48)) m := by
  induction s generalizing m with
  | nil => exact Nat.le_refl m
  | cons c s ih => exact (by omega : m ≤ 10 * m + (c.toNat - 48)).trans (ih _)

/-- The first digits of a number make no greater one. -/
theorem digits_le_of_append {n : Nat} {s t : CStr} (h : s ++ t = decimal n) : digits s ≤ n := by
  have hn : digits (s ++ t) = n := by rw [h, digits_decimal]
  rw [digits, List.foldl_append] at hn
  exact hn ▸ le_foldl_digits t (digits s)

/-- The first digits of a number make a smaller one. -/
theorem digits_lt_of_append {n : Nat} {s t : CStr} (h : s ++ t = decimal n) (hs : s ≠ []) (ht : t ≠ []) :
    digits s < n := by
  obtain ⟨c, t, rfl⟩ := List.exists_cons_of_ne_nil ht
  have hn : digits (s ++ c :: t) = n := by rw [h, digits_decimal]
  have hle := le_foldl_digits t (10 * digits s + (c.toNat - 48))
  have heq : digits (s ++ c :: t) =
      t.foldl (fun n c => 10 * n + (c.toNat - 48)) (10 * digits s + (c.toNat - 48)) := by
    rw [digits, List.foldl_append, List.foldl_cons, digits]
  have hpos : n ≠ 0 := by
    rintro rfl
    have hlen := congrArg List.length h
    rw [List.length_append, List.length_cons, decimal, Nat.toDigits_zero, List.length_map,
      List.length_singleton] at hlen
    have := List.length_pos_iff.2 hs
    omega
  omega

/-- `atoi` reads the `int` that `%d` printed. -/
theorem atoi_decimal {n : Nat} (hn : n < 2 ^ 31) : atoi (decimal n) = n := by
  have h := atoi_append (decimal_ne_nil n) (fun c hc => digit_of_mem_decimal hc) (t := []) (fun c hc => nomatch hc)
    (by rwa [digits_decimal])
  rw [List.append_nil, digits_decimal] at h
  exact h

/-! ## Dotted addresses -/

/-- `struct in_addr`, byte by byte -/
structure InAddr where
  a : UInt8
  b : UInt8
  c : UInt8
  d : UInt8
  deriving DecidableEq

/-- `INADDR_ANY` -/
def InAddr.any : InAddr := ⟨0, 0, 0, 0⟩

def inetNtop (x : InAddr) : CStr :=
  decimal x.a.toNat ++ 46 :: (decimal x.b.toNat ++ 46 :: (decimal x.c.toNat ++ 46 :: decimal x.d.toNat))

/-- A number below 256, without more zeros than it needs. -/
def octet (s : CStr) : Option UInt8 :=
  let n := (atoi s).toNat
  if decimal n = s ∧ n < 256 then some (UInt8.ofNat n) else none

def inetPton (s : CStr) : Option InAddr :=
  match s.splitOn 46 with
  | [a, b, c, d] => do
      let a ← octet a
      let b ← octet b
      let c ← octet c
      let d ← octet d
      pure ⟨a, b, c, d⟩
  | _ => none

/-- An octet is read from its own decimal form and no other. -/
theorem octet_eq_some {s : CStr} {x : UInt8} : octet s = some x ↔ s = decimal x.toNat := by
  constructor
  · intro h
    simp only [octet] at h
    split at h
    · rename_i hn
      cases h
      rw [UInt8.toNat_ofNat', Nat.mod_eq_of_lt hn.2, hn.1]
    · cases h
  · rintro rfl
    have hn : (atoi (decimal x.toNat)).toNat = x.toNat := by
      rw [atoi_decimal (x.toNat_lt.trans (by decide)), Int.toNat_natCast]
    rw [octet, hn, if_pos ⟨rfl, x.toNat_lt⟩, UInt8.ofNat_toNat]

theorem dot_notMem_decimal (n : Nat) : 46 ∉ decimal n :=
  fun hmem => absurd (digit_of_mem_decimal hmem) (by decide)

/-- An address in dots falls apart into its octets. -/
theorem splitOn_inetNtop (x : InAddr) : (inetNtop x).splitOn 46 =
    [decimal x.a.toNat, decimal x.b.toNat, decimal x.c.toNat, decimal x.d.toNat] := by
  rw [inetNtop, List.splitOn_append_cons_self_of_not_mem (dot_notMem_decimal _),
    List.splitOn_append_cons_self_of_not_mem (dot_notMem_decimal _),
    List.splitOn_append_cons_self_of_not_mem (dot_notMem_decimal _),
    List.splitOn_eq_singleton (dot_notMem_decimal _)]

/-- The two conversions are inverse to each other. -/
theorem inetPton_eq_some {s : CStr} {x : InAddr} : inetPton s = some x ↔ s = inetNtop x := by
  constructor
  · intro h
    unfold inetPton at h
    split at h
    · rename_i a b c d hsplit
      simp only [Option.bind_eq_bind, Option.bind_eq_some_iff, Option.pure_def, Option.some.injEq] at h
      obtain ⟨a', ha, b', hb, c', hc, d', hd, rfl⟩ := h
      rw [octet_eq_some] at ha hb hc hd
      subst ha hb hc hd
      have hjoin := @List.intercalate_splitOn _ s _ _ 46
      rw [hsplit] at hjoin
      rw [← hjoin, inetNtop]
      simp [List.intercalate]
    · cases h
  · rintro rfl
    rw [inetPton, splitOn_inetNtop]
    simp only [octet_eq_some.2 rfl]
    rfl

end Timps.Naf
