-- SUMMARY: Normal forms of names: what the comparison, the hash and the normalised copy have in common, and where spaces at the end matter.
import Timps.Gnr.Name

/-!
# Normal forms

Without its spaces and in lower case a name is in normal form. The hash and the copy that
`totr_mknormalisedsn` makes depend on the normal form only. The comparison also depends on
the spaces at the end: it stops at the first end of string, and what the other name has
left there counts as a difference.
-/

namespace Timps.Gnr

open Naf (Block Heap Mem cstring cstring_append lit malloc toupper tolower)
open Prog (bind_of_ok)

/-! ## Normal forms -/

/-- The name in lower case, without its spaces. -/
def normalised (s : CStr) : CStr := (s.filter (· ≠ 32)).map tolower

/-- The name in upper case, without its spaces. -/
def uppercased (s : CStr) : CStr := (s.filter (· ≠ 32)).map toupper

/-- The number of spaces at the end. -/
def trailing : CStr → Nat
  | [] => 0
  | c :: s => if (c :: s).all (· = 32) then s.length + 1 else trailing s

theorem toupper_tolower (c : UInt8) : toupper (tolower c) = toupper c :=
  forall_char (p := fun c => toupper (tolower c) = toupper c) (by decide +kernel) c

theorem uppercased_normalised (s : CStr) : (normalised s).map toupper = uppercased s := by
  simp [normalised, uppercased, toupper_tolower]

theorem normalised_uppercased (s : CStr) : (uppercased s).map tolower = normalised s := by
  simp [normalised, uppercased, tolower_toupper]

/-- Either case tells the same names apart. -/
theorem uppercased_eq_iff {s t : CStr} : uppercased s = uppercased t ↔ normalised s = normalised t := by
  constructor
  · intro h
    rw [← normalised_uppercased, h, normalised_uppercased]
  · intro h
    rw [← uppercased_normalised, h, uppercased_normalised]

theorem uppercased_cons {c : UInt8} (hc : c ≠ 32) (s : CStr) : uppercased (c :: s) = toupper c :: uppercased s := by
  simp [uppercased, hc]

theorem uppercased_space (s : CStr) : uppercased (32 :: s) = uppercased s := by
  simp [uppercased]

theorem trailing_cons {c : UInt8} (hc : c ≠ 32) (s : CStr) : trailing (c :: s) = trailing s := by
  simp [trailing, hc]

/-- A name of spaces has nothing else. -/
theorem of_all_spaces {s : CStr} (hall : s.all (· = 32) = true) :
    uppercased s = [] ∧ trailing s = s.length ∧ canon s = List.replicate s.length 32 := by
  induction s with
  | nil => exact ⟨rfl, rfl, rfl⟩
  | cons c s ih =>
      have hrest := hall
      simp only [List.all_cons, Bool.and_eq_true, decide_eq_true_eq] at hrest
      obtain ⟨rfl, hs⟩ := hrest
      obtain ⟨hupper, -, hcanon⟩ := ih hs
      refine ⟨(uppercased_space s).trans hupper, if_pos hall, ?_⟩
      simp only [canon, if_true, hs, hcanon, List.length_cons, List.replicate_succ]

/-- The canonical form of a name is its upper case, with the spaces at the end behind it. -/
theorem canon_eq (s : CStr) : canon s = uppercased s ++ List.replicate (trailing s) 32 := by
  induction s with
  | nil => rfl
  | cons c s ih =>
      by_cases hc : c = 32
      · subst hc
        by_cases hall : s.all (· = 32) = true
        · obtain ⟨hupper, htrailing, hcanon⟩ := of_all_spaces (s := 32 :: s) (by simpa using hall)
          rw [hcanon, hupper, htrailing]
          rfl
        · have htrailing : trailing (32 :: s) = trailing s := if_neg (by simpa using hall)
          rw [uppercased_space, htrailing, ← ih]
          simp only [canon, if_true, if_neg hall]
      · rw [uppercased_cons hc, trailing_cons hc, List.cons_append, ← ih]
        simp only [canon, if_neg hc]

theorem not_mem_uppercased (s : CStr) : (32 : UInt8) ∉ uppercased s := by
  intro hmem
  obtain ⟨c, hc, hupper⟩ := List.mem_map.1 hmem
  have hne : c ≠ 32 := by simpa using (List.mem_filter.1 hc).2
  exact toupper_ne_space hne hupper

/-- Names compare as equal when their normal forms are equal, and the spaces at their ends
agree in number. -/
theorem namecmp_iff {s t : CStr} : namecmp s t = 0 ↔ normalised s = normalised t ∧ trailing s = trailing t := by
  rw [namecmp_eq_zero, canon_eq, canon_eq, ← uppercased_eq_iff]
  constructor
  · intro h
    have hfilter := congrArg (List.filter (· ≠ 32)) h
    have hself : ∀ u : CStr, (uppercased u).filter (· ≠ 32) = uppercased u := fun u => by
      rw [List.filter_eq_self]
      intro c hc
      have hne : c ≠ 32 := fun heq => not_mem_uppercased u (heq ▸ hc)
      simpa using hne
    have hnone : ∀ n, (List.replicate n (32 : UInt8)).filter (· ≠ 32) = [] := fun n => by simp
    rw [List.filter_append, List.filter_append, hself, hself, hnone, hnone, List.append_nil,
      List.append_nil] at hfilter
    refine ⟨hfilter, ?_⟩
    rw [hfilter] at h
    simpa using congrArg List.length (List.append_cancel_left h)
  · rintro ⟨hupper, htrailing⟩
    rw [hupper, htrailing]

theorem foldl_normalised (s : CStr) (key : Nat) :
    s.foldl (fun key c => if c = 32 then key else ((key ^^^ widen (tolower c)) <<< 1) % 65536) key =
      (normalised s).foldl (fun key c => ((key ^^^ widen c) <<< 1) % 65536) key := by
  induction s generalizing key with
  | nil => rfl
  | cons c s ih =>
      rw [List.foldl_cons, ih]
      by_cases hc : c = 32
      · simp [normalised, hc]
      · simp [normalised, hc]

/-- The hash depends on the normal form only. -/
theorem hashGetidx_normalised {s t : CStr} (h : normalised s = normalised t) : hashGetidx s = hashGetidx t := by
  simp only [hashGetidx, hashGetkey, foldl_normalised, h]

/-! ## The normalised copy -/

/-- The loop of `totr_mknormalisedsn`: the copy so far, and where it goes on. -/
def normaliseLoop : CStr → Block × Nat → Mem (Block × Nat)
  | [], d => pure d
  | c :: s, (osn, d) =>
      if c ≠ 32 then do
        let osn ← osn.store d [tolower c]
        normaliseLoop s (osn, d + 1)
      else normaliseLoop s (osn, d)

/-- `totr_mknormalisedsn`: none without memory. -/
def mknormalisedsn (isn : CStr) : Mem (Option CStr) := do
  match ← malloc (isn.length + 1) with
  | none => pure none
  | some osn => do
      let (osn, d) ← normaliseLoop isn (osn, 0)
      let osn ← osn.store d [0]
      pure (some (cstring (osn.bytes 0 osn.size)))

section

variable {s : CStr} {osn : Block} {d : Nat} {h : Heap}

theorem length_normalised_le (s : CStr) : (normalised s).length ≤ s.length := by
  simpa [normalised] using List.length_filter_le _ s

/-- The loop appends the normal form, as long as there is room. -/
theorem normaliseLoop_eq (hroom : d + s.length ≤ osn.size) :
    ∃ osn', normaliseLoop s (osn, d) h = .ok ((osn', d + (normalised s).length), h) ∧ osn'.size = osn.size ∧
      osn'.bytes 0 (d + (normalised s).length) = osn.bytes 0 d ++ normalised s := by
  induction s generalizing osn d with
  | nil => exact ⟨osn, rfl, rfl, by simp [normalised]⟩
  | cons c s ih =>
      rw [List.length_cons] at hroom
      unfold normaliseLoop
      by_cases hc : c = 32
      · rw [if_neg (not_not.2 hc)]
        have hnormal : normalised (c :: s) = normalised s := by simp [normalised, hc]
        rw [hnormal]
        exact ih (by omega)
      · have hnormal : normalised (c :: s) = tolower c :: normalised s := by simp [normalised, hc]
        have hroom' : d + 1 + s.length ≤ (osn.fill d [tolower c]).size := by
          rw [Block.size_fill]
          omega
        obtain ⟨osn', hr, hsize, hbytes⟩ := ih hroom'
        have hlen : d + 1 + (normalised s).length = d + (normalised (c :: s)).length := by
          rw [hnormal, List.length_cons]
          omega
        rw [if_pos hc, bind_of_ok (Block.store_of_le (by rw [List.length_singleton]; omega))]
        rw [hlen] at hr hbytes
        refine ⟨osn', hr, hsize, ?_⟩
        rw [hbytes, Block.bytes_add, Block.bytes_fill_before _ _ (Nat.le_of_eq (Nat.zero_add _)), Nat.zero_add,
          hnormal]
        have hself := Block.bytes_fill_same osn d [tolower c]
        rw [List.length_singleton] at hself
        rw [hself]
        simp

theorem tolower_ne_zero {c : UInt8} (hc : c ≠ 0) : tolower c ≠ 0 := by
  revert hc
  exact forall_char (p := fun c => c ≠ 0 → tolower c ≠ 0) (by decide +kernel) c

theorem normalised_nulfree (hnul : 0 ∉ s) : 0 ∉ normalised s := by
  intro hmem
  obtain ⟨c, hc, hlower⟩ := List.mem_map.1 hmem
  exact tolower_ne_zero (ne_of_mem_of_not_mem (List.mem_of_mem_filter hc) hnul) hlower

/-- The copy is the normal form, when there is memory for it. -/
theorem mknormalisedsn_eq (hnul : 0 ∉ s) :
    mknormalisedsn s h = .ok (if h.unwilling then none else some (normalised s), h.next) := by
  unfold mknormalisedsn
  cases hun : h.unwilling with
  | true =>
      rw [bind_of_ok (Naf.malloc_refused hun)]
      rfl
  | false =>
      rw [bind_of_ok (Naf.malloc_granted hun)]
      dsimp only
      have hroom : 0 + s.length ≤ (⟨s.length + 1, h.junk (s.length + 1)⟩ : Block).size := by
        rw [Nat.zero_add]
        exact Nat.le_succ _
      obtain ⟨osn, hloop, hsize, hbytes⟩ := normaliseLoop_eq (h := h.next) hroom
      rw [Nat.zero_add] at hloop hbytes
      have hlen := length_normalised_le s
      have hsplit : osn.size = (normalised s).length + (1 + (osn.size - (normalised s).length - 1)) := by
        rw [hsize]
        dsimp only
        omega
      have hend : (normalised s).length + [(0 : UInt8)].length ≤ osn.size := by
        rw [hsize]
        dsimp only [List.length_singleton]
        omega
      rw [bind_of_ok hloop]
      dsimp only
      rw [bind_of_ok (Block.store_of_le hend), Block.size_fill]
      have hstring : cstring ((osn.fill (normalised s).length [0]).bytes 0 osn.size) = normalised s := by
        have hself := Block.bytes_fill_same osn (normalised s).length [0]
        have hnonzero : ∀ b ∈ normalised s, b ≠ 0 := fun b hb => ne_of_mem_of_not_mem hb (normalised_nulfree hnul)
        rw [List.length_singleton] at hself
        rw [hsplit, Block.bytes_add, Block.bytes_add, Block.bytes_fill_before _ _ (Nat.le_of_eq (Nat.zero_add _)),
          Nat.zero_add, hself, hbytes, Block.bytes_zero, List.nil_append, cstring_append hnonzero]
        simp [cstring]
      rw [hstring]
      rfl

end

/-! ## The comparison -/

/-- The comparison ignores space and case, as the hash and the normalised copies do. -/
structure Ignores (a b : CStr) : Prop where
  normal : namecmp a b = 0 ↔ normalised a = normalised b
  copies : ∀ h h' s t h₁ h₁', mknormalisedsn a h = .ok (some s, h₁) → mknormalisedsn b h' = .ok (some t, h₁') →
    (namecmp a b = 0 ↔ s = t)
  hash : normalised a = normalised b → hashGetidx a = hashGetidx b

/-- It does, unless the names differ in the number of spaces at the end and in nothing else. -/
theorem ignores_iff {a b : CStr} (ha : 0 ∉ a) (hb : 0 ∉ b) :
    Ignores a b ↔ (normalised a = normalised b → trailing a = trailing b) := by
  constructor
  · intro hignores hnormal
    exact (namecmp_iff.1 (hignores.normal.2 hnormal)).2
  · intro htrailing
    have hnormal : namecmp a b = 0 ↔ normalised a = normalised b := by
      rw [namecmp_iff]
      exact ⟨And.left, fun h => ⟨h, htrailing h⟩⟩
    refine ⟨hnormal, ?_, hashGetidx_normalised⟩
    intro h h' s t h₁ h₁' hs ht
    have hcopy : ∀ {a h s h₁}, 0 ∉ a → mknormalisedsn a h = .ok (some s, h₁) → s = normalised a := by
      intro a h s h₁ ha hs
      rw [mknormalisedsn_eq ha] at hs
      obtain ⟨hs, -⟩ := Prod.mk.inj (Except.ok.inj hs)
      split at hs
      · cases hs
      · exact (Option.some.inj hs).symm
    rw [hcopy ha hs, hcopy hb ht]
    exact hnormal

/-- Names that differ in case and in the spaces between their letters. -/
theorem ignores_alice : Ignores (lit "Alice B") (lit "aliceb") := (ignores_iff (by decide) (by decide)).2 (by decide)

/-- With a space at its end a name is another one. -/
theorem not_ignores_trailing : ¬Ignores (lit "alice ") (lit "alice") := by
  rintro ⟨hnormal, -, -⟩
  exact absurd (hnormal.2 (by decide)) (by decide)

end Timps.Gnr
