-- SUMMARY: Pools of blocks of one length: what the calls do to the allocation map, and which frees are caught.
import Mathlib.Data.UInt
import Timps.Base.Bitmap
import Timps.Naf.Cstring

/-!
# Fixed-length memory pools

The blocks of a pool are cut from one mapped region. The allocation map has a bit for each of
them, the most significant bit of its first byte for the first block.
-/

namespace Timps.Naf

open Bitmap (bit setbit flipbit FirstClear)
open Prog (bind_of_ok bind_of_error)

structure Flmp where
  blklen : Nat
  blkcount : Nat
  region : Nat
  regionlen : Nat
  allocmap : Block
  allocmaplen : Nat

/-- What `mmap` answers when there is no room. -/
def mapFailed : UInt64 := 2 ^ 64 - 1

namespace Flmp

/-! ## Calls -/

/-- `mmap` gives the address of a mapping of the length it is asked for. -/
def alloc (mmap : Nat → UInt64) (blklen blkcount : Int32) : Mem (Option Flmp) :=
  if blklen ≤ 0 ∨ blklen &&& (blklen - 1) ≠ 0 then pure none
  else if blkcount ≤ 0 ∨ blkcount % 8 > 0 then pure none
  else do
    -- sizeof(naf_flmempool_t)
    match ← malloc 48 with
    | none => pure none
    | some _ =>
        let regionlen := blklen.toNatClampNeg * blkcount.toNatClampNeg % 2 ^ 64
        let allocmaplen := blkcount.toNatClampNeg / 8
        match ← malloc allocmaplen with
        | none => pure none
        | some allocmap =>
            -- a mapping that fails is not null
            if mmap regionlen = 0 then pure none
            else do
              let allocmap ← allocmap.store 0 (List.replicate allocmaplen 0)
              pure (some
                { blklen := blklen.toNatClampNeg
                  blkcount := blkcount.toNatClampNeg
                  region := (mmap regionlen).toNat
                  regionlen
                  allocmap
                  allocmaplen })

/-- The first byte from `i` on that is not full, of the `n` bytes there. -/
def findbyte (allocmap : Block) : Nat → Nat → Mem Nat
  | 0, i => pure i
  | n + 1, i => do
      let v ← allocmap.peek i
      if v.toNat < 255 then pure i else findbyte allocmap n (i + 1)

/-- The highest of the lower `n` bits that is clear. -/
def findbit (v : UInt8) : Nat → Option Nat
  | 0 => none
  | j + 1 => if (v.toNat >>> j) &&& 1 = 0 then some j else findbit v j

/-- The address of a block. -/
def addr (flmp : Flmp) (n : Nat) : Nat := (flmp.region + n * flmp.blklen) % 2 ^ 64

def blkalloc (flmp : Flmp) : Mem (Exit (Option Nat) × Flmp) := do
  let i ← findbyte flmp.allocmap flmp.allocmaplen 0
  if i = flmp.allocmaplen then pure (.ret none, flmp)
  else do
    let v ← flmp.allocmap.peek i
    match findbit v 8 with
    | none => pure (.abort, flmp)
    | some j => do
        let allocmap ← flmp.allocmap.store i [setbit v j]
        pure (.ret (some (flmp.addr (i * 8 + (7 - j)))), { flmp with allocmap })

def blkfree (flmp : Flmp) (block : Nat) : Mem (Exit Unit × Flmp) :=
  if block = 0 then pure (.ret (), flmp)
  else if block < flmp.region then pure (.abort, flmp)
  else
    let blknum := (block - flmp.region) / flmp.blklen
    if blknum > flmp.blkcount then pure (.abort, flmp)
    else do
      let i := blknum / 8
      let j := 7 - blknum % 8
      let v ← flmp.allocmap.peek i
      if (v.toNat >>> j) &&& 1 = 0 then pure (.abort, flmp)
      else do
        let allocmap ← flmp.allocmap.store i [flipbit v j]
        pure (.ret (), { flmp with allocmap })

/-! ## Pool states -/

/-- A pool in some state: one that was made, after any calls. -/
inductive Reached (mmap : Nat → UInt64) : Flmp → Prop
  | alloc {blklen blkcount : Int32} {flmp : Flmp} {h h' : Heap} :
      Flmp.alloc mmap blklen blkcount h = .ok (some flmp, h') → Reached mmap flmp
  | blkalloc {flmp flmp' : Flmp} {r : Exit (Option Nat)} {h h' : Heap} :
      Reached mmap flmp → flmp.blkalloc h = .ok ((r, flmp'), h') → Reached mmap flmp'
  | blkfree {flmp flmp' : Flmp} {block : Nat} {r : Exit Unit} {h h' : Heap} :
      Reached mmap flmp → flmp.blkfree block h = .ok ((r, flmp'), h') → Reached mmap flmp'

/-- The map has one bit for each block, and the blocks are not longer than the address space. -/
structure Wf (flmp : Flmp) : Prop where
  blklen : 0 < flmp.blklen
  regionlen : flmp.regionlen = flmp.blklen * flmp.blkcount
  space : flmp.regionlen < 2 ^ 64
  region : flmp.region < 2 ^ 64
  count : flmp.blkcount = 8 * flmp.allocmaplen
  map : flmp.allocmap.size = flmp.allocmaplen

/-- The map says that block `n` is allocated. -/
def used (flmp : Flmp) (n : Nat) : Bool := bit flmp.allocmap.byte n

/-- An address the pool gave away and did not get back. -/
def Outstanding (flmp : Flmp) (p : Nat) : Prop := ∃ n < flmp.blkcount, flmp.used n = true ∧ p = flmp.addr n

/-! ## The map -/

theorem byte_fill_singleton (b : Block) (i : Nat) (v : UInt8) :
    (b.fill i [v]).byte = Function.update b.byte i v := by
  funext k
  simp only [Block.fill, List.length_singleton, Function.update_apply]
  by_cases hk : k = i
  · subst hk
    rw [if_pos (by omega), if_pos rfl, Nat.sub_self]
    rfl
  · rw [if_neg (by omega), if_neg hk]

theorem shiftRight_and_one_eq_zero {v j : Nat} : (v >>> j) &&& 1 = 0 ↔ v.testBit j = false := by
  rw [Nat.testBit, Nat.and_comm, bne_eq_false_iff_eq]

/-- The pool with block `n` marked as allocated. -/
def mark (flmp : Flmp) (n : Nat) : Flmp :=
  { flmp with allocmap := flmp.allocmap.fill (n / 8) [setbit (flmp.allocmap.byte (n / 8)) (7 - n % 8)] }

/-- The pool with the mark of block `n` turned over. -/
def unmark (flmp : Flmp) (n : Nat) : Flmp :=
  { flmp with allocmap := flmp.allocmap.fill (n / 8) [flipbit (flmp.allocmap.byte (n / 8)) (7 - n % 8)] }

theorem used_mark (flmp : Flmp) (n i : Nat) : (flmp.mark n).used i = (decide (i = n) || flmp.used i) := by
  rw [used, mark, byte_fill_singleton]
  exact Bitmap.bit_setbit _ n i

theorem used_unmark (flmp : Flmp) (n i : Nat) : (flmp.unmark n).used i = (decide (i = n) ^^ flmp.used i) := by
  rw [used, unmark, byte_fill_singleton]
  exact Bitmap.bit_flipbit _ n i

namespace Wf

variable {flmp : Flmp}

theorem mark (wf : flmp.Wf) (n : Nat) : (flmp.mark n).Wf :=
  ⟨wf.blklen, wf.regionlen, wf.space, wf.region, wf.count, wf.map⟩

theorem unmark (wf : flmp.Wf) (n : Nat) : (flmp.unmark n).Wf :=
  ⟨wf.blklen, wf.regionlen, wf.space, wf.region, wf.count, wf.map⟩

/-- The byte of a block lies in the map. -/
theorem byte_lt (wf : flmp.Wf) {n : Nat} (hn : n < flmp.blkcount) : n / 8 < flmp.allocmap.size := by
  have hcount := wf.count
  have hmap := wf.map
  omega

/-- A block ends inside the region. -/
theorem end_le (wf : flmp.Wf) {n : Nat} (hn : n < flmp.blkcount) :
    n * flmp.blklen + flmp.blklen ≤ flmp.regionlen := by
  rw [wf.regionlen, Nat.mul_comm flmp.blklen, ← Nat.succ_mul]
  exact Nat.mul_le_mul_right _ hn

/-- Different blocks have different addresses. -/
theorem addr_inj (wf : flmp.Wf) {n m : Nat} (hn : n < flmp.blkcount) (hm : m < flmp.blkcount)
    (haddr : flmp.addr n = flmp.addr m) : n = m := by
  have hspace := wf.space
  have hblklen := wf.blklen
  have hendn := wf.end_le hn
  have hendm := wf.end_le hm
  have hoff : n * flmp.blklen = m * flmp.blklen := by
    simp only [addr] at haddr
    omega
  exact Nat.eq_of_mul_eq_mul_right hblklen hoff

end Wf

/-! ## Allocation -/

theorem findbyte_eq (allocmap : Block) (n i : Nat) (hsize : i + n ≤ allocmap.size) (h : Heap) :
    ∃ k, findbyte allocmap n i h = .ok (k, h) ∧ i ≤ k ∧ k ≤ i + n ∧
      (∀ l, i ≤ l → l < k → ¬(allocmap.byte l).toNat < 255) ∧
      (k < i + n → (allocmap.byte k).toNat < 255) := by
  induction n generalizing i with
  | zero => exact ⟨i, rfl, Nat.le_refl _, Nat.le_refl _, by omega, by omega⟩
  | succ n ih =>
      rw [findbyte, bind_of_ok (Block.peek_of_lt (by omega))]
      by_cases hfree : (allocmap.byte i).toNat < 255
      · rw [if_pos hfree]
        exact ⟨i, rfl, Nat.le_refl _, by omega, by omega, fun _ => hfree⟩
      · rw [if_neg hfree]
        obtain ⟨k, hscan, hle, hend, hfull, hfound⟩ := ih (i + 1) (by omega)
        refine ⟨k, hscan, by omega, by omega, ?_, fun hk => hfound (by omega)⟩
        intro l hil hlk
        rcases Nat.eq_or_lt_of_le hil with rfl | hlt
        · exact hfree
        · exact hfull l hlt hlk

theorem findbit_some {v : UInt8} {n j : Nat} (hfind : findbit v n = some j) :
    j < n ∧ v.toNat.testBit j = false ∧ ∀ l < n, j < l → v.toNat.testBit l = true := by
  induction n with
  | zero => cases hfind
  | succ n ih =>
      rw [findbit] at hfind
      split at hfind
      · rename_i hclear
        cases hfind
        exact ⟨Nat.lt_succ_self _, shiftRight_and_one_eq_zero.1 hclear, by omega⟩
      · rename_i hset
        obtain ⟨hj, hclear, habove⟩ := ih hfind
        refine ⟨Nat.lt_succ_of_lt hj, hclear, fun l hl hjl => ?_⟩
        rcases Nat.lt_succ_iff_lt_or_eq.1 hl with hlt | rfl
        · exact habove l hlt hjl
        · rw [shiftRight_and_one_eq_zero] at hset
          exact Bool.eq_true_of_not_eq_false hset

theorem findbit_none {v : UInt8} {n : Nat} (hfind : findbit v n = none) : ∀ l < n, v.toNat.testBit l = true := by
  induction n with
  | zero => exact fun l hl => absurd hl (Nat.not_lt_zero l)
  | succ n ih =>
      rw [findbit] at hfind
      split at hfind
      · cases hfind
      · rename_i hset
        intro l hl
        rcases Nat.lt_succ_iff_lt_or_eq.1 hl with hlt | rfl
        · exact ih hfind l hlt
        · rw [shiftRight_and_one_eq_zero] at hset
          exact Bool.eq_true_of_not_eq_false hset

/-- The pool is full, or its first free block is given away. -/
theorem blkalloc_cases {flmp : Flmp} (wf : flmp.Wf) (h : Heap) :
    (flmp.blkalloc h = .ok ((.ret none, flmp), h) ∧ ∀ n < flmp.blkcount, flmp.used n = true) ∨
      ∃ n < flmp.blkcount, FirstClear flmp.allocmap.byte n ∧
        flmp.blkalloc h = .ok ((.ret (some (flmp.addr n)), flmp.mark n), h) := by
  have hcount := wf.count
  have hmap := wf.map
  obtain ⟨i, hscan, -, hle, hfull, hfree⟩ := findbyte_eq flmp.allocmap flmp.allocmaplen 0 (by omega) h
  rw [blkalloc, bind_of_ok hscan]
  by_cases hend : i = flmp.allocmaplen
  · refine .inl ⟨by rw [if_pos hend]; rfl, fun n hn => ?_⟩
    exact Bitmap.bit_of_full (fun l hl => hfull l (Nat.zero_le l) hl) (by omega)
  · refine .inr ?_
    have hi : i < flmp.allocmap.size := by omega
    rw [if_neg hend, bind_of_ok (Block.peek_of_lt hi)]
    cases hfind : findbit (flmp.allocmap.byte i) 8 with
    | none =>
        obtain ⟨j, hj, hclear⟩ := (Bitmap.lt_iff_clear _).1 (hfree (by omega))
        rw [findbit_none hfind j hj] at hclear
        cases hclear
    | some j =>
        obtain ⟨hj, hclear, habove⟩ := findbit_some hfind
        refine ⟨i * 8 + (7 - j), by omega,
          Bitmap.firstClear_of_scan (fun l hl => hfull l (Nat.zero_le l) hl) hj hclear habove, ?_⟩
        dsimp only
        rw [bind_of_ok (Block.store_of_le (by simp only [List.length_singleton]; omega)), mark,
          show (i * 8 + (7 - j)) / 8 = i by omega, show 7 - (i * 8 + (7 - j)) % 8 = j by omega]
        rfl

/-! ## Release -/

section

variable {flmp : Flmp} {p : Nat}

/-- A block whose bit is set is released, and one whose bit is clear is not. -/
theorem blkfree_inside (wf : flmp.Wf) (hnull : p ≠ 0) (hregion : flmp.region ≤ p)
    (hn : (p - flmp.region) / flmp.blklen < flmp.blkcount) (h : Heap) :
    flmp.blkfree p h =
      if flmp.used ((p - flmp.region) / flmp.blklen) then
        .ok ((.ret (), flmp.unmark ((p - flmp.region) / flmp.blklen)), h)
      else .ok ((.abort, flmp), h) := by
  rw [blkfree, if_neg hnull, if_neg (by omega)]
  dsimp only
  rw [if_neg (by omega), bind_of_ok (Block.peek_of_lt (wf.byte_lt hn))]
  simp only [shiftRight_and_one_eq_zero]
  rw [used, bit]
  split
  · rename_i hclear
    rw [hclear]
    rfl
  · rename_i hset
    rw [Bool.eq_true_of_not_eq_false hset, if_pos rfl, bind_of_ok (Block.store_of_le (wf.byte_lt hn))]
    rfl

/-- The block number one past the last is let through, and the map is read behind its end. -/
theorem blkfree_end (wf : flmp.Wf) (hnull : p ≠ 0) (hregion : flmp.region ≤ p)
    (hn : (p - flmp.region) / flmp.blklen = flmp.blkcount) (h : Heap) :
    flmp.blkfree p h = .error .outOfBounds := by
  have hcount := wf.count
  have hmap := wf.map
  rw [blkfree, if_neg hnull, if_neg (by omega)]
  dsimp only
  rw [if_neg (by omega), bind_of_error (Block.peek_of_le (by omega))]

theorem blkfree_below (hnull : p ≠ 0) (hregion : p < flmp.region) (h : Heap) :
    flmp.blkfree p h = .ok ((.abort, flmp), h) := by
  rw [blkfree, if_neg hnull, if_pos hregion]
  rfl

theorem blkfree_above (hnull : p ≠ 0) (hregion : flmp.region ≤ p)
    (hn : flmp.blkcount < (p - flmp.region) / flmp.blklen) (h : Heap) :
    flmp.blkfree p h = .ok ((.abort, flmp), h) := by
  rw [blkfree, if_neg hnull, if_neg (by omega)]
  dsimp only
  rw [if_pos hn]
  rfl

/-- A release leaves the pool as it is, or turns one bit of the map over. -/
theorem blkfree_does {flmp' : Flmp} {r : Exit Unit} {h h' : Heap}
    (hcall : flmp.blkfree p h = .ok ((r, flmp'), h')) : flmp' = flmp ∨ ∃ n, flmp' = flmp.unmark n := by
  unfold blkfree at hcall
  split at hcall
  · cases hcall
    exact .inl rfl
  split at hcall
  · cases hcall
    exact .inl rfl
  dsimp only at hcall
  split at hcall
  · cases hcall
    exact .inl rfl
  simp only [Prog.bind_ok, Block.peek_ok] at hcall
  obtain ⟨v, h₁, ⟨-, hv⟩, hcall⟩ := hcall
  cases hv
  split at hcall
  · cases hcall
    exact .inl rfl
  · simp only [Prog.bind_ok, Block.store_ok, Prog.pure_ok] at hcall
    obtain ⟨allocmap, h₂, ⟨-, hmap⟩, hcall⟩ := hcall
    cases hmap
    cases hcall
    exact .inr ⟨_, rfl⟩

end

/-! ## What is made -/

/-- A pool as it was made: over a mapping, with no block allocated. -/
structure Fresh (mmap : Nat → UInt64) (blklen blkcount : Int32) (flmp : Flmp) : Prop where
  wf : flmp.Wf
  regionlen : flmp.regionlen = blklen.toNatClampNeg * blkcount.toNatClampNeg
  region : flmp.region = (mmap flmp.regionlen).toNat
  positive : 0 < flmp.region
  clear : ∀ n < flmp.blkcount, flmp.used n = false

/-- The counts that are let through. -/
theorem blkcount_of_checked {blkcount : Int32} (hcount : ¬(blkcount ≤ 0 ∨ blkcount % 8 > 0)) :
    blkcount.toNatClampNeg = 8 * (blkcount.toNatClampNeg / 8) := by
  rw [not_or, gt_iff_lt, Int32.le_iff_toInt_le, Int32.lt_iff_toInt_lt, Int32.toInt_mod] at hcount
  obtain ⟨hpos, hmod⟩ := hcount
  rw [show (0 : Int32).toInt = 0 from rfl] at hpos hmod
  rw [show (8 : Int32).toInt = 8 from rfl, Int.tmod_eq_emod_of_nonneg (by omega)] at hmod
  rw [← Int32.toNat_toInt]
  omega

theorem bit_fill_zero (b : Block) {n len : Nat} (hn : n < 8 * len) :
    bit (b.fill 0 (List.replicate len 0)).byte n = false := by
  have hbyte : (b.fill 0 (List.replicate len 0)).byte (n / 8) = 0 := by
    simp only [Block.fill, List.length_replicate]
    rw [if_pos (by omega), List.getD_replicate _ (by omega)]
  rw [bit, hbyte]
  exact Nat.zero_testBit _

theorem alloc_fresh {mmap : Nat → UInt64} {blklen blkcount : Int32} {flmp : Flmp} {h h' : Heap}
    (hmade : alloc mmap blklen blkcount h = .ok (some flmp, h')) : Fresh mmap blklen blkcount flmp := by
  unfold alloc at hmade
  split at hmade
  · cases hmade
  split at hmade
  · cases hmade
  rename_i hlen hcount
  simp only [Prog.bind_ok] at hmade
  obtain ⟨a, h₁, -, hmade⟩ := hmade
  cases a with
  | none => cases hmade
  | some a =>
      simp only [Prog.bind_ok] at hmade
      obtain ⟨allocmap, h₂, hmap, hmade⟩ := hmade
      cases allocmap with
      | none => cases hmade
      | some allocmap =>
          dsimp only at hmade
          split at hmade
          · cases hmade
          rename_i hregion
          simp only [Prog.bind_ok, Block.store_ok, Prog.pure_ok, Prod.mk.injEq, Option.some.injEq] at hmade
          obtain ⟨zeroed, h₃, ⟨hsize, rfl, rfl⟩, rfl, rfl⟩ := hmade
          have hroom := malloc_size _ _ _ _ hmap allocmap rfl
          have hblklen : 0 < blklen.toNatClampNeg := by
            rw [not_or, Int32.le_iff_toInt_le, show (0 : Int32).toInt = 0 from rfl] at hlen
            rw [← Int32.toNat_toInt]
            omega
          have hspace : blklen.toNatClampNeg * blkcount.toNatClampNeg < 2 ^ 31 * 2 ^ 31 :=
            Nat.mul_lt_mul'' blklen.toNatClampNeg_lt blkcount.toNatClampNeg_lt
          have hregionlen := Nat.mod_eq_of_lt (Nat.lt_trans hspace (by decide : 2 ^ 31 * 2 ^ 31 < 2 ^ 64))
          have hpositive : (mmap (blklen.toNatClampNeg * blkcount.toNatClampNeg % 2 ^ 64)).toNat ≠ 0 :=
            fun hzero => hregion (UInt64.toNat_inj.1 hzero)
          refine ⟨⟨hblklen, hregionlen, Nat.mod_lt _ (by decide), UInt64.toNat_lt _,
            blkcount_of_checked hcount, hroom⟩, hregionlen, rfl, Nat.pos_of_ne_zero hpositive,
            fun n hn => bit_fill_zero allocmap ?_⟩
          rw [← blkcount_of_checked hcount]
          exact hn

theorem Reached.wf {mmap : Nat → UInt64} {flmp : Flmp} (hpool : Reached mmap flmp) : flmp.Wf := by
  induction hpool with
  | alloc hmade => exact (alloc_fresh hmade).wf
  | blkalloc _ hcall wf =>
      obtain ⟨hfull, -⟩ | ⟨n, -, -, hgiven⟩ := blkalloc_cases wf _
      · cases hfull.symm.trans hcall
        exact wf
      · cases hgiven.symm.trans hcall
        exact wf.mark n
  | blkfree _ hcall wf =>
      obtain rfl | ⟨n, rfl⟩ := blkfree_does hcall
      · exact wf
      · exact wf.unmark n

/-! ## Invalid frees -/

/-- An address of the region behind the first byte of a block that is outstanding. -/
def Interior (flmp : Flmp) (p : Nat) : Prop :=
  ∃ n < flmp.blkcount, flmp.used n = true ∧
    flmp.region + n * flmp.blklen < p ∧ p < flmp.region + (n + 1) * flmp.blklen

/-- An address in the block that would follow the last one. -/
def Beyond (flmp : Flmp) (p : Nat) : Prop :=
  flmp.region + flmp.regionlen ≤ p ∧ p < flmp.region + flmp.regionlen + flmp.blklen

section

variable {flmp : Flmp} {p : Nat}

/-- The block an address lies in. -/
theorem blknum_eq_iff (wf : flmp.Wf) {n : Nat} (hregion : flmp.region ≤ p) :
    (p - flmp.region) / flmp.blklen = n ↔
      flmp.region + n * flmp.blklen ≤ p ∧ p < flmp.region + (n + 1) * flmp.blklen := by
  have hblklen := wf.blklen
  rw [Nat.div_eq_iff hblklen, Nat.succ_mul]
  omega

theorem beyond_iff (wf : flmp.Wf) (hregion : flmp.region ≤ p) :
    flmp.Beyond p ↔ (p - flmp.region) / flmp.blklen = flmp.blkcount := by
  rw [blknum_eq_iff wf hregion, Beyond, wf.regionlen, Nat.succ_mul, Nat.mul_comm flmp.blklen, Nat.add_assoc]

/-- An address that is no block given away is inside one if the bit of its block is set. -/
theorem interior_iff (wf : flmp.Wf) (hp : p < 2 ^ 64) (hregion : flmp.region ≤ p)
    (hinvalid : ¬flmp.Outstanding p) :
    flmp.Interior p ↔ (p - flmp.region) / flmp.blklen < flmp.blkcount ∧
      flmp.used ((p - flmp.region) / flmp.blklen) = true := by
  constructor
  · rintro ⟨n, hn, hused, hlt, hend⟩
    rw [(blknum_eq_iff wf hregion).2 ⟨Nat.le_of_lt hlt, hend⟩]
    exact ⟨hn, hused⟩
  · rintro ⟨hn, hused⟩
    obtain ⟨hle, hend⟩ := (blknum_eq_iff wf hregion).1 rfl
    refine ⟨_, hn, hused, Nat.lt_of_le_of_ne hle fun heq => hinvalid ⟨_, hn, hused, ?_⟩, hend⟩
    rw [addr, heq, Nat.mod_eq_of_lt hp]

end

/-- Mappings are granted up to some length. -/
def mapped (len : Nat) : UInt64 := if len ≤ 1048576 then 4096 else mapFailed

/-- A pool of eight blocks, as it is made. -/
theorem eight_made : ∃ flmp h, alloc mapped 64 8 Heap.zeroed = .ok (some flmp, h) ∧
    flmp.region = 4096 ∧ flmp.blklen = 64 ∧ flmp.blkcount = 8 := by
  exact ⟨_, _, rfl, rfl, rfl, rfl⟩

/-- An address that is no block given away is caught unless it is null, or in the block behind the
last one, or inside a block that is outstanding. -/
theorem invalid_free_caught {mmap : Nat → UInt64} {flmp : Flmp} (hpool : Reached mmap flmp) {block : UInt64}
    (hinvalid : ¬flmp.Outstanding block.toNat) (h : Heap) :
    flmp.blkfree block.toNat h = .ok ((.abort, flmp), h) ↔
      block.toNat ≠ 0 ∧ ¬flmp.Beyond block.toNat ∧ ¬flmp.Interior block.toNat := by
  have wf := hpool.wf
  have hp := block.toNat_lt
  generalize block.toNat = p at hinvalid hp ⊢
  by_cases hnull : p = 0
  · rw [blkfree, if_pos hnull]
    exact iff_of_false (fun hcall => nomatch hcall) fun hcond => hcond.1 hnull
  rcases Nat.lt_or_ge p flmp.region with hbelow | hregion
  · refine iff_of_true (blkfree_below hnull hbelow h) ⟨hnull, ?_, ?_⟩
    · rintro ⟨hle, -⟩
      omega
    · rintro ⟨n, -, -, hlt, -⟩
      omega
  rw [beyond_iff wf hregion, interior_iff wf hp hregion hinvalid]
  rcases Nat.lt_trichotomy ((p - flmp.region) / flmp.blklen) flmp.blkcount with hlt | heq | hgt
  · rw [blkfree_inside wf hnull hregion hlt]
    cases hused : flmp.used ((p - flmp.region) / flmp.blklen) with
    | true => exact iff_of_false (fun hcall => nomatch hcall) fun hcond => hcond.2.2 ⟨hlt, rfl⟩
    | false => exact iff_of_true rfl ⟨hnull, Nat.ne_of_lt hlt, fun hinside => nomatch hinside.2⟩
  · rw [blkfree_end wf hnull hregion heq]
    exact iff_of_false (fun hcall => nomatch hcall) fun hcond => hcond.2.1 heq
  · exact iff_of_true (blkfree_above hnull hregion hgt h)
      ⟨hnull, Nat.ne_of_gt hgt, fun hinside => Nat.lt_asymm hgt hinside.1⟩

/-- A pool of eight blocks that gave away the first of them. -/
theorem eight_given : ∃ flmp, Reached mapped flmp ∧ flmp.region = 4096 ∧ flmp.blklen = 64 ∧ flmp.regionlen = 512 ∧
    flmp.blkcount = 8 ∧ ∀ n < 8, flmp.used n = decide (n = 0) := by
  obtain ⟨flmp₁, flmp, h, hmade, hgiven, hpool⟩ : ∃ flmp₁ flmp h, alloc mapped 64 8 Heap.zeroed = .ok (some flmp₁, h) ∧
      flmp₁.blkalloc h = .ok ((.ret (some 4096), flmp), h) ∧ flmp.region = 4096 ∧ flmp.blklen = 64 ∧
      flmp.regionlen = 512 ∧ flmp.blkcount = 8 ∧ ∀ n < 8, flmp.used n = decide (n = 0) :=
    ⟨_, _, _, rfl, rfl, rfl, rfl, rfl, rfl, by decide⟩
  exact ⟨flmp, .blkalloc (.alloc hmade) hgiven, hpool⟩

/-- Its second block, which is free, is caught. -/
theorem invalid_free_caught_second : ∃ flmp, Reached mapped flmp ∧ flmp.Outstanding 4096 ∧
    flmp.blkfree (4160 : UInt64).toNat Heap.zeroed = .ok ((.abort, flmp), Heap.zeroed) := by
  obtain ⟨flmp, hpool, hregion, hblklen, hregionlen, hblkcount, hused⟩ := eight_given
  have hp : (4160 : UInt64).toNat = 4160 := rfl
  have hfirst (n : Nat) (hn : n < flmp.blkcount) (husedn : flmp.used n = true) : n = 0 := by
    rw [hblkcount] at hn
    rw [hused n hn] at husedn
    exact of_decide_eq_true husedn
  have hinvalid : ¬flmp.Outstanding (4160 : UInt64).toNat := by
    rintro ⟨n, hn, husedn, haddr⟩
    obtain rfl := hfirst n hn husedn
    rw [addr, hregion, hp] at haddr
    omega
  refine ⟨flmp, hpool, ⟨0, by omega, hused 0 (by decide), by rw [addr, hregion]; omega⟩,
    (invalid_free_caught hpool hinvalid _).2 ⟨by decide, ?_, ?_⟩⟩
  · rintro ⟨hle, -⟩
    rw [hregion, hregionlen, hp] at hle
    omega
  · rintro ⟨n, hn, husedn, -, hlt⟩
    obtain rfl := hfirst n hn husedn
    rw [hregion, hblklen, hp] at hlt
    omega

/-- The address right behind the region makes the call look at the byte behind the map. -/
theorem invalid_free_missed : ∃ flmp, Reached mapped flmp ∧ ¬flmp.Outstanding (4608 : UInt64).toNat ∧
    flmp.blkfree (4608 : UInt64).toNat Heap.zeroed = .error .outOfBounds := by
  obtain ⟨flmp, h, hmade, hregion, hblklen, hblkcount⟩ := eight_made
  have hpool : Reached mapped flmp := .alloc hmade
  have hp : (4608 : UInt64).toNat = 4608 := rfl
  refine ⟨flmp, hpool, ?_, ?_⟩
  · rintro ⟨n, hn, -, haddr⟩
    rw [addr, hregion, hblklen, hp] at haddr
    omega
  · exact blkfree_end hpool.wf (by decide) (by rw [hregion, hp]; decide) (by rw [hregion, hblklen, hblkcount, hp]) _

end Flmp
end Timps.Naf
