-- SUMMARY: Escapes: texts in which a table of codes stands for characters, how they are read, and where they are torn.
import Mathlib.Data.List.Basic

/-!
# Escapes

A table lists characters that are not written as themselves, each with its code. `encode`
writes a text, `decode` reads one. In a marked table each code starts with one character
that is nowhere else in a code and has a code itself, and no code starts another; then what was
written is read back. `Reads` takes a text apart: codes and plain characters, and what is
left when it ends within a code.
-/

namespace Escape

/-- The characters that have a code, and their codes. -/
abbrev Table (α : Type) := List (α × List α)

variable {α : Type} [DecidableEq α] {t : Table α} {m : α}

/-- What is written for a character. -/
def encodeChar (t : Table α) (c : α) : List α :=
  match t.find? fun e => e.1 = c with
  | some e => e.2
  | none => [c]

def encode (t : Table α) (s : List α) : List α := s.flatMap (encodeChar t)

/-- The entry whose code the text starts with. -/
def entryAt (t : Table α) (s : List α) : Option (α × List α) := t.find? fun e => e.2.isPrefixOf s

/-- Read a text behind its first `n` characters. -/
def decodeFrom (t : Table α) : Nat → List α → List α
  | _, [] => []
  | n + 1, _ :: s => decodeFrom t n s
  | 0, c :: s =>
      match entryAt t (c :: s) with
      | some e => e.1 :: decodeFrom t (e.2.length - 1) s
      | none => c :: decodeFrom t 0 s

def decode (t : Table α) (s : List α) : List α := decodeFrom t 0 s

/-- Each code starts with the mark, which is nowhere else in a code and has a code of its
own, and no code starts another. -/
structure Marked (t : Table α) (m : α) : Prop where
  codes : ∀ e ∈ t, ∃ l, e.2 = m :: l ∧ m ∉ l
  free : ∀ e ∈ t, ∀ e' ∈ t, e.2 <+: e'.2 → e = e'
  self : ∃ e ∈ t, e.1 = m

/-! ## Reading -/

theorem entryAt_some {s : List α} {e : α × List α} (h : entryAt t s = some e) : e ∈ t ∧ e.2 <+: s :=
  ⟨List.mem_of_find?_eq_some h, by simpa using List.find?_some h⟩

theorem entryAt_none {s : List α} : entryAt t s = none ↔ ∀ e ∈ t, ¬e.2 <+: s := by
  simp [entryAt]

theorem decodeFrom_eq (n : Nat) (s : List α) : decodeFrom t n s = decode t (s.drop n) := by
  induction n generalizing s with
  | zero => rfl
  | succ n ih =>
      cases s with
      | nil => rfl
      | cons c s => exact ih s

theorem decode_plain {c : α} {s : List α} (h : entryAt t (c :: s) = none) :
    decode t (c :: s) = c :: decode t s := by
  simp only [decode, decodeFrom, h]

namespace Marked

variable {e : α × List α} {s : List α}

omit [DecidableEq α] in
theorem ne_nil (ht : Marked t m) (he : e ∈ t) : e.2 ≠ [] := by
  obtain ⟨l, hl, -⟩ := ht.codes e he
  rw [hl]
  exact List.cons_ne_nil _ _

omit [DecidableEq α] in
/-- At most one code starts a text. -/
theorem eq_of_prefix (ht : Marked t m) {e' : α × List α} (he : e ∈ t) (he' : e' ∈ t)
    (hs : e.2 <+: s) (hs' : e'.2 <+: s) : e = e' := by
  rcases List.prefix_or_prefix_of_prefix hs hs' with hle | hle
  · exact ht.free e he e' he' hle
  · exact (ht.free e' he' e he hle).symm

theorem entryAt_of_prefix (ht : Marked t m) (he : e ∈ t) (hs : e.2 <+: s) : entryAt t s = some e := by
  cases h : entryAt t s with
  | none => exact absurd hs (entryAt_none.1 h e he)
  | some e' =>
      obtain ⟨he', hs'⟩ := entryAt_some h
      rw [ht.eq_of_prefix he he' hs hs']

/-- A code starts only where the mark is. -/
theorem entryAt_of_ne (ht : Marked t m) {c : α} (hc : c ≠ m) : entryAt t (c :: s) = none := by
  rw [entryAt_none]
  intro e he hs
  obtain ⟨l, hl, -⟩ := ht.codes e he
  rw [hl] at hs
  exact hc (List.cons_prefix_cons.1 hs).1.symm

theorem decode_code (ht : Marked t m) (he : e ∈ t) : decode t (e.2 ++ s) = e.1 :: decode t s := by
  have hentry := ht.entryAt_of_prefix he (List.prefix_append e.2 s)
  obtain ⟨l, hl, -⟩ := ht.codes e he
  rw [hl, List.cons_append] at hentry
  rw [hl, List.cons_append, decode, decodeFrom]
  simp only [hentry, decodeFrom_eq, hl, List.length_cons, Nat.add_sub_cancel, List.drop_left]

end Marked

/-! ## Torn texts -/

/-- The text ends within a code: something of it is there, and something is missing. -/
def Torn (t : Table α) (s : List α) : Prop := s ≠ [] ∧ ∃ e ∈ t, s <+: e.2 ∧ s ≠ e.2

/-- A text taken apart: what its codes and plain characters are read as, and the torn code
at its end, if there is one. -/
inductive Reads (t : Table α) : List α → List α → List α → Prop
  | nil : Reads t [] [] []
  | code {e s d r} : e ∈ t → Reads t s d r → Reads t (e.2 ++ s) (e.1 :: d) r
  | plain {c s d r} : entryAt t (c :: s) = none → ¬Torn t (c :: s) → Reads t s d r →
      Reads t (c :: s) (c :: d) r
  | torn {s} : Torn t s → Reads t s [] s

namespace Torn

variable {s : List α}

omit [DecidableEq α] in
/-- A torn code starts with the mark. -/
theorem eq_cons (ht : Marked t m) (h : Torn t s) : ∃ l, s = m :: l ∧ m ∉ l := by
  obtain ⟨hne, e, he, hs, -⟩ := h
  obtain ⟨l, hl, hm⟩ := ht.codes e he
  obtain ⟨c, s, rfl⟩ := List.exists_cons_of_ne_nil hne
  rw [hl, List.cons_prefix_cons] at hs
  obtain ⟨rfl, hs⟩ := hs
  exact ⟨s, rfl, fun hmem => hm (hs.subset hmem)⟩

/-- No code is whole in a torn one. -/
theorem entryAt (ht : Marked t m) (h : Torn t s) : entryAt t s = none := by
  obtain ⟨-, e, he, hs, hne⟩ := h
  rw [entryAt_none]
  intro e' he' hs'
  obtain rfl := ht.free e' he' e he (hs'.trans hs)
  exact hne (hs.eq_of_length (Nat.le_antisymm hs.length_le hs'.length_le))

end Torn

theorem Marked.decode_of_notMem (ht : Marked t m) {s : List α} (hs : m ∉ s) : decode t s = s := by
  induction s with
  | nil => rfl
  | cons c s ih =>
      have hc : c ≠ m := fun heq => hs (heq ▸ List.mem_cons_self)
      rw [decode_plain (ht.entryAt_of_ne hc), ih fun hmem => hs (List.mem_cons_of_mem _ hmem)]

/-- Every text can be taken apart. -/
theorem exists_reads (ht : Marked t m) (s : List α) : ∃ d r, Reads t s d r := by
  induction hn : s.length using Nat.strongRecOn generalizing s with
  | ind n ih =>
      subst hn
      cases s with
      | nil => exact ⟨[], [], .nil⟩
      | cons c s =>
          by_cases htorn : Torn t (c :: s)
          · exact ⟨[], c :: s, .torn htorn⟩
          cases hentry : entryAt t (c :: s) with
          | none =>
              obtain ⟨d, r, hreads⟩ := ih s.length (by simp) s rfl
              exact ⟨c :: d, r, .plain hentry htorn hreads⟩
          | some e =>
              obtain ⟨he, s', hs'⟩ := entryAt_some hentry
              have hpos := List.length_pos_iff.2 (ht.ne_nil he)
              have hlen := congrArg List.length hs'
              simp only [List.length_append, List.length_cons] at hlen
              obtain ⟨d, r, hreads⟩ := ih s'.length (by simp only [List.length_cons]; omega) s' rfl
              exact ⟨e.1 :: d, r, hs' ▸ .code he hreads⟩

/-- What was written is read back, and is not torn. -/
theorem reads_encode (ht : Marked t m) (s : List α) : Reads t (encode t s) s [] := by
  induction s with
  | nil => exact .nil
  | cons c s ih =>
      have hsplit : encode t (c :: s) = encodeChar t c ++ encode t s := rfl
      rw [hsplit, encodeChar]
      cases hfind : t.find? fun e => decide (e.1 = c) with
      | some e =>
          have hchar : e.1 = c := by simpa using List.find?_some hfind
          exact hchar ▸ .code (List.mem_of_find?_eq_some hfind) ih
      | none =>
          have hc : c ≠ m := by
            obtain ⟨e, he, hself⟩ := ht.self
            rintro rfl
            simp only [List.find?_eq_none, decide_eq_true_eq] at hfind
            exact hfind e he hself
          refine .plain (ht.entryAt_of_ne hc) (fun htorn => ?_) ih
          obtain ⟨l, hl, -⟩ := htorn.eq_cons ht
          exact hc (List.cons.inj hl).1

namespace Reads

variable {s d r : List α}

/-- A torn code is read as it stands. -/
theorem decode_eq (ht : Marked t m) (h : Reads t s d r) : decode t s = d ++ r := by
  induction h with
  | nil => rfl
  | code he _ ih => rw [ht.decode_code he, ih, List.cons_append]
  | plain hentry _ _ ih => rw [decode_plain hentry, ih, List.cons_append]
  | torn htorn =>
      have hentry := htorn.entryAt ht
      obtain ⟨l, rfl, hl⟩ := htorn.eq_cons ht
      rw [decode_plain hentry, ht.decode_of_notMem hl, List.nil_append]

theorem length_le (h : Reads t s d r) : r.length ≤ s.length := by
  induction h with
  | nil => exact Nat.le_refl _
  | code _ _ ih =>
      rw [List.length_append]
      omega
  | plain _ _ _ ih =>
      rw [List.length_cons]
      omega
  | torn _ => exact Nat.le_refl _

theorem length_add_le (ht : Marked t m) (h : Reads t s d r) : d.length + r.length ≤ s.length := by
  induction h with
  | nil => exact Nat.le_refl _
  | code he _ ih =>
      have hpos := List.length_pos_iff.2 (ht.ne_nil he)
      rw [List.length_append, List.length_cons]
      omega
  | plain _ _ _ ih =>
      rw [List.length_cons, List.length_cons]
      omega
  | torn _ => exact Nat.le_of_eq (Nat.zero_add _)

/-- A text of which nothing is a code stays as it is. -/
theorem append_eq (h : Reads t s d r) (hplain : ∀ e ∈ t, ¬e.2 <:+: s) : d ++ r = s := by
  induction h with
  | nil => rfl
  | @code e s _ _ he _ _ => exact absurd (List.prefix_append e.2 s).isInfix (hplain e he)
  | plain _ _ _ ih =>
      rw [List.cons_append, ih fun e he hin => hplain e he (hin.trans (List.suffix_cons _ _).isInfix)]
  | torn _ => rfl

/-- Only what has a code in it is shorter when it was read. -/
theorem length_add_eq (ht : Marked t m) (hlong : ∀ e ∈ t, 2 ≤ e.2.length) (h : Reads t s d r)
    (heq : d.length + r.length = s.length) : ∀ e ∈ t, ¬e.2 <:+: s := by
  induction h with
  | nil =>
      intro e he hin
      exact ht.ne_nil he (List.infix_nil.1 hin)
  | code he hreads _ =>
      have hle := hreads.length_add_le ht
      have htwo := hlong _ he
      rw [List.length_append, List.length_cons] at heq
      omega
  | plain hentry _ _ ih =>
      intro e he hin
      rcases List.infix_cons_iff.1 hin with hpre | hin
      · exact entryAt_none.1 hentry e he hpre
      · refine ih ?_ e he hin
        rw [List.length_cons, List.length_cons] at heq
        omega
  | torn htorn =>
      intro e he hin
      obtain ⟨l, rfl, hm⟩ := htorn.eq_cons ht
      rcases List.infix_cons_iff.1 hin with hpre | hin
      · exact entryAt_none.1 (htorn.entryAt ht) e he hpre
      · obtain ⟨l', hl', -⟩ := ht.codes e he
        rw [hl'] at hin
        exact hm (hin.subset List.mem_cons_self)

theorem eq_nil (h : Reads t s [] []) : s = [] := by
  cases h with
  | nil => rfl
  | torn htorn => exact absurd rfl htorn.1

/-- What is left is torn. -/
theorem torn_of_ne_nil (h : Reads t s d r) (hr : r ≠ []) : Torn t r ∧ r <:+ s := by
  induction h with
  | nil => exact absurd rfl hr
  | code _ _ ih => exact ⟨(ih hr).1, (ih hr).2.trans (List.suffix_append _ _)⟩
  | plain _ _ _ ih => exact ⟨(ih hr).1, (ih hr).2.trans (List.suffix_cons _ _)⟩
  | torn htorn => exact ⟨htorn, List.suffix_refl _⟩

/-- A text has no torn end but the one that is left. -/
theorem eq_of_torn (ht : Marked t m) (h : Reads t s d r) {r' : List α} (htorn' : Torn t r')
    (hsuffix : r' <:+ s) : r' = r := by
  induction h with
  | nil => exact absurd (List.suffix_nil.1 hsuffix) htorn'.1
  | @code e s d r he _ ih =>
      obtain ⟨l, hl, hm⟩ := ht.codes e he
      obtain ⟨l', rfl, -⟩ := htorn'.eq_cons ht
      have hwhole := entryAt_none.1 (htorn'.entryAt ht) e he
      rw [hl, List.cons_append] at hsuffix
      rcases List.suffix_cons_iff.1 hsuffix with heq | hrest
      · exact absurd ⟨s, by rw [hl, List.cons_append, heq]⟩ hwhole
      -- the mark at its head is not in the rest of the code
      rcases List.suffix_or_suffix_of_suffix hrest (List.suffix_append l s) with hold | ⟨x, hx⟩
      · exact ih hold
      · cases x with
        | nil => exact ih (hx ▸ List.suffix_refl _)
        | cons c x =>
            obtain ⟨rfl, -⟩ := List.cons.inj hx
            obtain ⟨y, hy⟩ := hrest
            rw [← hx, ← List.append_assoc] at hy
            have hcode := List.append_cancel_right hy
            exact absurd (hcode ▸ by simp) hm
  | plain _ hnot _ ih =>
      rcases List.suffix_cons_iff.1 hsuffix with rfl | hold
      · exact absurd htorn' hnot
      · exact ih hold
  | @torn s htorn =>
      obtain ⟨l, rfl, hl⟩ := htorn.eq_cons ht
      obtain ⟨l', rfl, -⟩ := htorn'.eq_cons ht
      rcases List.suffix_cons_iff.1 hsuffix with heq | hold
      · exact heq
      · exact absurd (hold.subset List.mem_cons_self) hl

end Reads
end Escape
