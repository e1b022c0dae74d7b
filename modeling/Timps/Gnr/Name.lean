-- SUMMARY: Names of nodes: comparison up to case and spaces, and the hash that goes with it.
import Timps.Naf.Memory

/-!
# Names

`gnr_node_namecmp` ignores case and spaces, except that spaces at the end have to
agree in number: the loop stops at the first end of string. The canonical form of a
name keeps exactly what the comparison looks at, so equality of names is equality of
canonical forms, and the hash of a name is the hash of its canonical form.
-/

namespace Timps.Gnr

open Naf (toupper tolower)

/-- The loop of `gnr_node_namecmp`; each round uses up a character of either name. -/
def namecmpLoop : Nat → CStr → CStr → Nat
  | 0, _, _ => 1
  | fuel + 1, c :: s, d :: t =>
      if c = 32 ∨ d = 32 then
        namecmpLoop fuel (if c = 32 then s else c :: s) (if d = 32 then t else d :: t)
      else if toupper c ≠ toupper d then 1
      else namecmpLoop fuel s t
  | _ + 1, [], [] => 0
  | _ + 1, _, _ => 1

/-- 0 when the names are the same up to case and spaces, else 1. -/
def namecmp (sn1 sn2 : CStr) : Nat := namecmpLoop (sn1.length + sn2.length + 1) sn1 sn2

/-- A `char` is signed: `(gnr_nhkey_t)tolower(*name)` extends the sign to 16 bits. -/
def widen (c : UInt8) : Nat := if c < 128 then c.toNat else c.toNat + 65280

def hashGetkey (name : CStr) : Nat :=
  name.foldl (fun key c => if c = 32 then key else ((key ^^^ widen (tolower c)) <<< 1) % 65536) 0

/-- GNR_NODE_HASH_SIZE buckets. -/
def hashGetidx (name : CStr) : Fin 64 := ⟨hashGetkey name % 64, Nat.mod_lt _ (by decide)⟩

/-! ## Canonical forms -/

/-- Upper case, and without the spaces that a letter follows. -/
def canon : CStr → CStr
  | [] => []
  | c :: s =>
      if c = 32 then (if s.all (· = 32) then 32 :: canon s else canon s) else toupper c :: canon s

/-- A property of all characters can be checked one by one. -/
theorem forall_char {p : UInt8 → Prop} (h : ∀ n : Fin 256, p (UInt8.ofNat n)) (c : UInt8) : p c := by
  have hc := h ⟨c.toNat, c.toNat_lt⟩
  rwa [UInt8.ofNat_toNat] at hc

theorem toupper_ne_space {c : UInt8} (h : c ≠ 32) : toupper c ≠ 32 := by
  revert h
  exact forall_char (p := fun c => c ≠ 32 → toupper c ≠ 32) (by decide +kernel) c

theorem tolower_toupper (c : UInt8) : tolower (toupper c) = tolower c :=
  forall_char (p := fun c => tolower (toupper c) = tolower c) (by decide +kernel) c

/-- A canonical form consists of spaces just when the name does. -/
theorem all_canon (s : CStr) : (canon s).all (· = 32) = s.all (· = 32) := by
  induction s with
  | nil => rfl
  | cons c s ih =>
      simp only [canon]
      by_cases hc : c = 32
      · rw [if_pos hc]
        by_cases hall : s.all (· = 32) = true
        · simp [hall, hc, ih]
        · simp only [hall, Bool.false_eq_true, if_false, ih, List.all_cons, hc, decide_true,
            Bool.true_and]
      · simp [hc, toupper_ne_space hc]

theorem canon_eq_nil {s : CStr} : canon s = [] ↔ s = [] := by
  constructor
  · intro h
    cases s with
    | nil => rfl
    | cons c s =>
        simp only [canon] at h
        split at h
        · split at h
          · cases h
          · rename_i hall
            have hcanon := all_canon s
            rw [h] at hcanon
            exact absurd hcanon.symm hall
        · cases h
  · rintro rfl
    rfl

/-- A space in front does not make names equal or different. -/
theorem canon_space_congr {s t : CStr} : canon (32 :: s) = canon (32 :: t) ↔ canon s = canon t := by
  have hs := all_canon s
  have ht := all_canon t
  simp only [canon, if_true]
  by_cases has : s.all (· = 32) = true <;> by_cases hat : t.all (· = 32) = true
  · simp [has, hat]
  · rw [if_pos has, if_neg hat]
    constructor <;> intro h
    · exact absurd (by rw [← ht, ← h]; simpa [has] using hs) hat
    · exact absurd (by rw [← ht, ← h, hs]; exact has) hat
  · rw [if_neg has, if_pos hat]
    constructor <;> intro h
    · exact absurd (by rw [← hs, h]; simpa [hat] using ht) has
    · exact absurd (by rw [← hs, h, ht]; exact hat) has
  · rw [if_neg has, if_neg hat]

/-- A space in front of one name only does not matter when a letter comes first in the
other. -/
theorem canon_space_letter {s t : CStr} {d : UInt8} (hd : d ≠ 32) :
    canon (32 :: s) = canon (d :: t) ↔ canon s = canon (d :: t) := by
  have hletter : ∀ l : CStr, l.all (· = 32) = true → l ≠ canon (d :: t) := by
    rintro l hl rfl
    simp [canon, hd, toupper_ne_space hd] at hl
  have hs := all_canon s
  by_cases has : s.all (· = 32) = true
  · constructor <;> intro h
    · refine absurd h (hletter _ ?_)
      simp only [canon, if_true, has]
      simpa [has] using hs
    · exact absurd h (hletter _ (hs.trans has))
  · simp only [canon, if_true, has, Bool.false_eq_true, if_false]

theorem namecmpLoop_eq_zero {fuel : Nat} {s t : CStr} (hfuel : s.length + t.length < fuel) :
    namecmpLoop fuel s t = 0 ↔ canon s = canon t := by
  induction fuel generalizing s t with
  | zero => omega
  | succ fuel ih =>
      match s, t with
      | [], [] => simp [namecmpLoop]
      | [], d :: t =>
          simp only [namecmpLoop, Nat.one_ne_zero, false_iff]
          intro h
          exact absurd (canon_eq_nil.1 h.symm) (by simp)
      | c :: s, [] =>
          simp only [namecmpLoop, Nat.one_ne_zero, false_iff]
          intro h
          exact absurd (canon_eq_nil.1 h) (by simp)
      | c :: s, d :: t =>
          simp only [List.length_cons] at hfuel
          simp only [namecmpLoop]
          by_cases hc : c = 32 <;> by_cases hd : d = 32
          · subst hc hd
            rw [if_pos (.inl rfl), if_pos rfl, if_pos rfl, ih (by omega), canon_space_congr]
          · subst hc
            rw [if_pos (.inl rfl), if_pos rfl, if_neg hd, ih (by simp only [List.length_cons]; omega),
              canon_space_letter hd]
          · subst hd
            rw [if_pos (.inr rfl), if_neg hc, if_pos rfl, ih (by simp only [List.length_cons]; omega),
              eq_comm, ← canon_space_letter hc, eq_comm]
          · rw [if_neg (by simp [hc, hd])]
            by_cases hcd : toupper c = toupper d
            · rw [if_neg (by simp [hcd]), ih (by omega)]
              simp [canon, hc, hd, hcd]
            · rw [if_pos hcd]
              simp [canon, hc, hd, hcd]

/-- Names compare as equal just when their canonical forms are equal. -/
theorem namecmp_eq_zero {s t : CStr} : namecmp s t = 0 ↔ canon s = canon t :=
  namecmpLoop_eq_zero (Nat.lt_succ_self _)

@[simp] theorem namecmp_self (s : CStr) : namecmp s s = 0 := namecmp_eq_zero.2 rfl

theorem namecmp_comm {s t : CStr} (h : namecmp s t = 0) : namecmp t s = 0 :=
  namecmp_eq_zero.2 (namecmp_eq_zero.1 h).symm

theorem namecmp_trans {s t u : CStr} (h₁ : namecmp s t = 0) (h₂ : namecmp t u = 0) :
    namecmp s u = 0 :=
  namecmp_eq_zero.2 ((namecmp_eq_zero.1 h₁).trans (namecmp_eq_zero.1 h₂))

/-! ## The hash -/

private theorem foldl_canon (s : CStr) (key : Nat) :
    (canon s).foldl (fun key c =>
        if c = 32 then key else ((key ^^^ widen (tolower c)) <<< 1) % 65536) key =
      s.foldl (fun key c =>
        if c = 32 then key else ((key ^^^ widen (tolower c)) <<< 1) % 65536) key := by
  induction s generalizing key with
  | nil => rfl
  | cons c s ih =>
      by_cases hc : c = 32
      · by_cases hall : s.all (· = 32) = true
        · simp only [canon, hc, if_true, hall, List.foldl_cons, ih]
        · simp only [canon, hc, if_true, hall, Bool.false_eq_true, if_false, List.foldl_cons, ih]
      · simp only [canon, hc, if_false, List.foldl_cons, toupper_ne_space hc, tolower_toupper, ih]

/-- Names that compare as equal are in the same bucket. -/
theorem hashGetidx_congr {s t : CStr} (h : namecmp s t = 0) : hashGetidx s = hashGetidx t := by
  have hkey : ∀ u, hashGetkey (canon u) = hashGetkey u := fun u => foldl_canon u 0
  simp only [hashGetidx, ← hkey s, ← hkey t, namecmp_eq_zero.1 h]

end Timps.Gnr
