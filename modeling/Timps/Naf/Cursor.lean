-- SUMMARY: What lies in a block from a pointer on, and how it is read, written and taken for a string.
import Timps.Naf.Cstring

/-!
# Pointers into a block

A loop that walks through a buffer is followed by the bytes that lie between its pointer and the
end of the block. Reading takes the first of them, and writing replaces one in their midst.
-/

namespace Timps.Naf.Block

/-- What lies from `p` to the end of the block. -/
def rest (b : Block) (p : Nat) : Bytes := b.bytes p (b.size - p)

/-- The string at `p`. It is read up to its terminator. -/
def strAt (b : Block) (p : Nat) : Mem CStr := fun h =>
  let s := cstring (b.rest p)
  if p + s.length < b.size then .ok (s, h) else .error .outOfBounds

/-- A string in memory of its own. -/
def ofString (s : CStr) : Block := { size := s.length + 1, byte := fun i => s.getD i 0 }

/-- A string in memory has its terminator behind it. -/
theorem rest_ofString (s : CStr) : (ofString s).rest 0 = s ++ [0] := by
  have hlen : ((ofString s).bytes 0 (s.length + 1)).length = (s ++ [0]).length := by simp
  apply List.ext_getElem hlen
  intro i h₁ h₂
  rw [getElem_bytes, Nat.zero_add]
  by_cases hlt : i < s.length
  · rw [List.getElem_append_left hlt]
    exact List.getD_eq_getElem s 0 hlt
  · rw [List.getElem_append_right (Nat.le_of_not_lt hlt), List.getElem_singleton]
    exact List.getD_eq_default s 0 (Nat.le_of_not_lt hlt)

variable {b : Block} {p : Nat} {x y : UInt8} {l t : Bytes} {h : Heap}

theorem size_sub_of_rest (hrest : b.rest p = l) : b.size - p = l.length := by
  rw [← hrest, rest, length_bytes]

/-- What stands behind a text is read behind its length. -/
theorem rest_append (hrest : b.rest p = l ++ t) : b.rest (p + l.length) = t := by
  have hlen := size_sub_of_rest hrest
  rw [List.length_append] at hlen
  rw [rest, hlen, bytes_add] at hrest
  have hsize : b.size - (p + l.length) = t.length := by omega
  rw [rest, hsize]
  exact (List.append_inj hrest (length_bytes _ _ _)).2

theorem rest_succ (hrest : b.rest p = x :: t) : b.rest (p + 1) = t :=
  rest_append (l := [x]) hrest

theorem peek_rest (hrest : b.rest p = x :: t) : b.peek p h = .ok (x, h) := by
  have hlen := size_sub_of_rest hrest
  rw [List.length_cons] at hlen
  rw [rest, hlen, bytes_succ, List.cons.injEq] at hrest
  rw [peek_of_lt (by omega), hrest.1]

/-- Nothing is read behind the end of the block. -/
theorem peek_end (hrest : b.rest p = []) : b.peek p h = .error .outOfBounds := by
  have hlen := size_sub_of_rest hrest
  rw [List.length_nil] at hlen
  exact peek_of_le (by omega)

theorem store_rest (hrest : b.rest p = x :: t) : b.store p [y] h = .ok (b.fill p [y], h) := by
  have hlen := size_sub_of_rest hrest
  rw [List.length_cons] at hlen
  exact store_of_le (by rw [List.length_singleton]; omega)

/-- A byte is replaced by another. -/
theorem rest_fill (hrest : b.rest p = l ++ x :: t) :
    (b.fill (p + l.length) [y]).rest p = l ++ y :: t := by
  have hlen := size_sub_of_rest hrest
  have hsplit : l.length + (t.length + 1) = (l ++ x :: t).length := by simp
  rw [rest, hlen, ← hsplit, bytes_add, bytes_succ] at hrest
  obtain ⟨hl, ht⟩ := List.append_inj hrest (length_bytes _ _ _)
  rw [List.cons.injEq] at ht
  have hy : (b.fill (p + l.length) [y]).byte (p + l.length) = y := by simp [fill]
  have hafter : (b.fill (p + l.length) [y]).bytes (p + l.length + 1) t.length = t :=
    (bytes_fill_after b [y] (Nat.le_refl _)).trans ht.2
  rw [rest, size_fill, hlen, ← hsplit, bytes_add, bytes_succ, bytes_fill_before _ _ (Nat.le_refl _), hl, hy, hafter]

theorem cstring_append_zero (l t : Bytes) : cstring (l ++ 0 :: t) = cstring l := by
  induction l with
  | nil => rfl
  | cons c l ih =>
      unfold cstring at ih ⊢
      rw [List.cons_append, List.takeWhile_cons, List.takeWhile_cons, ih]

/-- A string is read up to the first terminator. -/
theorem strAt_rest (hrest : b.rest p = l ++ 0 :: t) : b.strAt p h = .ok (cstring l, h) := by
  have hlen := size_sub_of_rest hrest
  rw [List.length_append, List.length_cons] at hlen
  have hle : (cstring l).length ≤ l.length := (List.takeWhile_prefix _).length_le
  unfold strAt
  rw [hrest, cstring_append_zero]
  exact if_pos (by omega)

end Timps.Naf.Block
