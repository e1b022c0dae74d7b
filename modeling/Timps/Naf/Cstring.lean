-- SUMMARY: C strings in blocks: reading byte by byte, comparing, and laying down text with its terminator.
import Mathlib.Data.List.GetD
import Mathlib.Data.List.TakeWhile
import Timps.Naf.Memory

/-!
# C strings in blocks

The parts of the C library that look at strings in memory or write them there. A read or a
write outside the block is a fault; `strncmp` reads no further than the first difference.
-/

namespace Timps.Naf

/-- A string that is read has no terminator in it. -/
theorem cstring_zero (b : Bytes) : 0 ∉ cstring b := fun hmem => by
  simpa using List.mem_takeWhile_imp hmem

namespace Block

/-- `*p` -/
def peek (b : Block) (p : Nat) : Mem UInt8 := fun h =>
  if p < b.size then .ok (b.byte p, h) else .error .outOfBounds

theorem peek_of_lt {b : Block} {p : Nat} {h : Heap} (hp : p < b.size) :
    b.peek p h = .ok (b.byte p, h) := if_pos hp

theorem peek_of_le {b : Block} {p : Nat} {h : Heap} (hp : b.size ≤ p) :
    b.peek p h = .error .outOfBounds := if_neg (Nat.not_lt.2 hp)

theorem peek_ok {b : Block} {p : Nat} {h : Heap} {r : UInt8 × Heap} :
    b.peek p h = .ok r ↔ p < b.size ∧ r = (b.byte p, h) := by
  by_cases hlt : p < b.size
  · simp [peek, hlt, eq_comm]
  · simp [peek, hlt]

/-- The memory up to offset `n`. -/
def cut (b : Block) (n : Nat) : Block := { b with size := n }

/-- The block with a string and its terminator at offset `off`. -/
def lay (b : Block) (off : Nat) (s : CStr) : Block := b.fill off (s ++ [0])

@[simp] theorem size_lay (b : Block) (off : Nat) (s : CStr) : (b.lay off s).size = b.size := rfl

/-- A later write covers what of an earlier one lies behind its start. -/
theorem fill_fill (b : Block) (off : Nat) {s v w : Bytes} (hlen : v.length ≤ w.length) :
    (b.fill off (s ++ v)).fill (off + s.length) w = b.fill off (s ++ w) := by
  simp only [fill, Block.mk.injEq, true_and]
  funext i
  simp only [List.length_append]
  by_cases hw : off + s.length ≤ i ∧ i < off + s.length + w.length
  · rw [if_pos hw, if_pos (by omega), List.getD_append_right _ _ _ _ (by omega)]
    congr 1
    omega
  · rw [if_neg hw]
    by_cases hs : off ≤ i ∧ i < off + s.length
    · rw [if_pos (by omega), if_pos (by omega), List.getD_append _ _ _ _ (by omega),
        List.getD_append _ _ _ _ (by omega)]
    · rw [if_neg (by omega), if_neg (by omega)]

/-- A text that is written behind another one overwrites its terminator. -/
theorem lay_lay (b : Block) (off : Nat) (s t : CStr) :
    (b.lay off s).lay (off + s.length) t = b.lay off (s ++ t) := by
  have h := b.fill_fill off (s := s) (v := [0]) (w := t ++ [0]) (by simp)
  simp only [lay, h, List.append_assoc]

theorem fill_lay (b : Block) (off : Nat) (s t : CStr) :
    (b.fill off s).lay (off + s.length) t = b.lay off (s ++ t) := by
  have h := b.fill_fill off (s := s) (v := []) (w := t ++ [0]) (by simp)
  rw [List.append_nil] at h
  simp only [lay, h, List.append_assoc]

theorem lay_bytes (b : Block) (off : Nat) (s : CStr) : (b.lay off s).bytes off s.length = s := by
  have h := bytes_fill_same b off (s ++ [0])
  rw [List.length_append, bytes_add] at h
  exact (List.append_inj h (by simp)).1

theorem lay_terminator (b : Block) (off : Nat) (s : CStr) : (b.lay off s).byte (off + s.length) = 0 := by
  simp [lay, fill]

/-- The string at the start of the block. -/
def string (b : Block) : CStr := cstring (b.bytes 0 b.size)

/-- A text with its terminator behind it is the string of the block. -/
theorem string_of_terminated {b : Block} {s : CStr} (hbytes : b.bytes 0 s.length = s) (hzero : 0 ∉ s)
    (hend : b.byte s.length = 0) (hsize : s.length < b.size) : b.string = s := by
  obtain ⟨n, hn⟩ := Nat.exists_eq_add_of_lt hsize
  have hsplit : b.bytes 0 b.size = s ++ 0 :: b.bytes (s.length + 1) n := by
    rw [hn, Nat.add_assoc, bytes_add, hbytes, Nat.zero_add, bytes_succ, hend]
  have hrest : cstring (0 :: b.bytes (s.length + 1) n) = [] := rfl
  rw [string, hsplit, cstring_append fun c hc => ne_of_mem_of_not_mem hc hzero, hrest, List.append_nil]

end Block

/-- `strchr`, and a NUL in place of the character that was found: the string in front of it and
the one behind it. -/
def cutAt (c : UInt8) : CStr → Option (CStr × CStr)
  | [] => none
  | d :: s => if d = c then some ([], s) else (cutAt c s).map fun x => (d :: x.1, x.2)

/-- A text is cut at the first separator. -/
theorem cutAt_append {c : UInt8} {s : CStr} (t : CStr) (hs : c ∉ s) : cutAt c (s ++ c :: t) = some (s, t) := by
  induction s with
  | nil => exact if_pos rfl
  | cons d s ih =>
      rw [List.mem_cons, not_or] at hs
      rw [List.cons_append, cutAt, if_neg (Ne.symm hs.1), ih hs.2]
      rfl

theorem cutAt_of_notMem {c : UInt8} {s : CStr} (hs : c ∉ s) : cutAt c s = none := by
  induction s with
  | nil => rfl
  | cons d s ih =>
      rw [List.mem_cons, not_or] at hs
      rw [cutAt, if_neg (Ne.symm hs.1), ih hs.2]
      rfl

/-- What is cut off had no separator in it. -/
theorem cutAt_some {c : UInt8} {s x y : CStr} (h : cutAt c s = some (x, y)) : s = x ++ c :: y ∧ c ∉ x := by
  by_cases hmem : c ∈ s
  · obtain ⟨a, b, rfl, ha⟩ := List.eq_append_cons_of_mem hmem
    rw [cutAt_append b ha, Option.some.injEq, Prod.mk.injEq] at h
    obtain ⟨rfl, rfl⟩ := h
    exact ⟨rfl, ha⟩
  · rw [cutAt_of_notMem hmem] at h
    cases h

/-- `strncmp` of a string with what is at `p` finds no difference in the first `n` characters. -/
def strncmp (b : Block) : CStr → Nat → Nat → Mem Bool
  | _, _, 0 => pure true
  | s, p, n + 1 => do
      let c ← b.peek p
      if c = s.headD 0 then
        if c = 0 then pure true else strncmp b s.tail (p + 1) n
      else pure false

/-- A comparison needs to read where no difference was found before. -/
theorem strncmp_eq {b : Block} {s : CStr} {p n : Nat} {h : Heap} (hn : n ≤ s.length) (hs : 0 ∉ s)
    (hread : ∀ i, i < n → b.bytes p i = s.take i → p + i < b.size) :
    strncmp b s p n h = .ok (decide (b.bytes p n = s.take n), h) := by
  induction n generalizing s p with
  | zero => rfl
  | succ n ih =>
      cases s with
      | nil => cases hn
      | cons c s =>
          have hc : c ≠ 0 := fun heq => hs (heq ▸ List.mem_cons_self)
          have hp : p < b.size := hread 0 (Nat.succ_pos n) rfl
          rw [strncmp, Prog.bind_of_ok (Block.peek_of_lt hp)]
          simp only [Block.bytes_succ, List.take_succ_cons, List.cons.injEq]
          by_cases heq : b.byte p = c
          · have hrest : ∀ i, i < n → b.bytes (p + 1) i = s.take i → p + 1 + i < b.size := by
              intro i hi hsame
              have hin := hread (i + 1) (Nat.succ_lt_succ hi) (by
                rw [Block.bytes_succ, List.take_succ_cons, heq, hsame])
              omega
            rw [if_pos (show b.byte p = (c :: s).headD 0 from heq), if_neg (by rw [heq]; exact hc),
              List.tail_cons, ih (Nat.le_of_succ_le_succ hn) (fun hmem => hs (List.mem_cons_of_mem _ hmem)) hrest]
            simp only [heq, true_and]
          · rw [if_neg (show ¬b.byte p = (c :: s).headD 0 from heq)]
            simp [heq, Prog.pure_run]

/-- `strdup`: a copy, or null -/
def strdup (s : CStr) : Mem (Option CStr) := do
  match ← malloc (s.length + 1) with
  | none => pure none
  | some _ => pure (some s)

theorem strdup_refused {s : CStr} {h : Heap} (hh : h.unwilling = true) : strdup s h = .ok (none, h.next) := by
  rw [strdup, Prog.bind_of_ok (malloc_refused hh)]
  rfl

theorem strdup_granted {s : CStr} {h : Heap} (hh : h.unwilling = false) : strdup s h = .ok (some s, h.next) := by
  rw [strdup, Prog.bind_of_ok (malloc_granted hh)]
  rfl

theorem strdup_of_willing {s : CStr} {h : Heap} (hh : h.refuse = []) : strdup s h = .ok (some s, h) := by
  rw [strdup, Prog.bind_of_ok (malloc_of_willing hh)]
  rfl

/-- `snprintf` of a string: the number of characters it would take, and the block with what of
them has room in `size` bytes. A negative size is a huge one. -/
def snprintf (b : Block) (off : Nat) (size : Int) (s : CStr) : Mem (Nat × Block) :=
  if size = 0 then pure (s.length, b)
  else do
    let b ← b.store off ((if 0 < size then s.take (size.toNat - 1) else s) ++ [0])
    pure (s.length, b)

/-- With room for the string and its terminator all of it is written. -/
theorem snprintf_of_room {h : Heap} (b : Block) (off : Nat) (size : Int) (s : CStr)
    (hroom : s.length < size) (hfits : off + s.length + 1 ≤ b.size) :
    snprintf b off size s h = .ok ((s.length, b.lay off s), h) := by
  have hpos : 0 < size := by omega
  have htake : s.take (size.toNat - 1) = s := List.take_of_length_le (by omega)
  have hstore : b.store off (s ++ [0]) h = .ok (b.lay off s, h) :=
    Block.store_of_le (by simp only [List.length_append, List.length_singleton]; omega)
  rw [snprintf, if_neg (by omega), if_pos hpos, htake, Prog.bind_of_ok hstore]
  rfl

end Timps.Naf
