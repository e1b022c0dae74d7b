-- SUMMARY: The IPv4 header checksum as the code takes it, against the Internet checksum.
import Timps.Base.Onescomp
import Timps.Naf.Cstring

/-!
# The header checksum

The words of the header are added in the byte order of the host, here the little-endian one,
and the sum is folded once. The Internet checksum adds them in network order and folds until
nothing carries.
-/

namespace Timps.Ipv4

open Naf (Block Heap Mem byteGet16)
open Onescomp (fold residue swap)
open Prog (bind_of_ok)

/-! ## The code -/

/-- The loop over the words from offset `p` on, and the odd byte behind them. A sum of at most
2^15 words fits in 32 bits. -/
def hdrcsumFrom (b : Block) : Nat → Nat → Nat → Mem Nat
  | len + 2, p, sum => do
      let w ← b.load p 2
      hdrcsumFrom b len (p + 2) (sum + ((w.getD 0 0).toNat + (w.getD 1 0).toNat * 256))
  | 1, p, sum => do
      let byte ← b.peek p
      pure (sum + byte.toNat)
  | 0, _, sum => pure sum

def htons (w : Nat) : Nat := swap w

def hdrcsum (b : Block) (len : Nat) : Mem Nat := do
  let sum ← hdrcsumFrom b len 0 0
  let sum := sum / 65536 + sum % 65536
  let sum := htons (sum % 65536)
  -- `~sum`, in 16 bits
  pure (65535 - sum)

/-! ## The words of a header -/

/-- The words in the byte order of the host. -/
def hostWords : Bytes → List Nat
  | c :: d :: l => (c.toNat + d.toNat * 256) :: hostWords l
  | [c] => [c.toNat]
  | [] => []

/-- The words in network byte order, an odd byte padded with 0. -/
def netWords : Bytes → List Nat
  | c :: d :: l => byteGet16 c d :: netWords l
  | [c] => [byteGet16 c 0]
  | [] => []

/-- The Internet checksum: the ones-complement of the ones-complement sum. -/
def rfc1071 (l : Bytes) : Nat := 65535 - Onescomp.sum (netWords l)

theorem hostWords_lt {l : Bytes} : ∀ w ∈ hostWords l, w < 65536 := by
  induction l using hostWords.induct with
  | case1 c d l ih =>
      intro w hw
      rcases List.mem_cons.1 hw with rfl | hw
      · have hc := c.toNat_lt
        have hd := d.toNat_lt
        omega
      · exact ih w hw
  | case2 c =>
      intro w hw
      have hc := c.toNat_lt
      rw [hostWords, List.mem_singleton] at hw
      omega
  | case3 => exact fun _ hw => nomatch hw

theorem netWords_eq (l : Bytes) : netWords l = (hostWords l).map swap := by
  induction l using hostWords.induct with
  | case1 c d l ih =>
      have hc := c.toNat_lt
      have hd := d.toNat_lt
      have hword : c.toNat * 256 + d.toNat = swap (c.toNat + d.toNat * 256) := by
        unfold swap
        omega
      rw [netWords, hostWords, List.map_cons, ih, Naf.byteGet16_eq, hword]
  | case2 c =>
      have hc := c.toNat_lt
      have hword : c.toNat * 256 + UInt8.toNat 0 = swap c.toNat := by
        unfold swap
        rw [UInt8.toNat_zero]
        omega
      rw [netWords, hostWords, List.map_singleton, Naf.byteGet16_eq, hword]
  | case3 => rfl

theorem sum_hostWords_le (l : Bytes) : (hostWords l).sum ≤ 32768 * (l.length + 1) := by
  induction l using hostWords.induct with
  | case1 c d l ih =>
      have hc := c.toNat_lt
      have hd := d.toNat_lt
      simp only [hostWords, List.sum_cons, List.length_cons]
      omega
  | case2 c =>
      have hc := c.toNat_lt
      simp only [hostWords, List.sum_cons, List.sum_nil, List.length_cons, List.length_nil]
      omega
  | case3 => exact Nat.zero_le _

/-! ## What the code computes -/

section

variable {b : Block} {len : Nat} {h : Heap}

theorem hdrcsumFrom_eq {p sum : Nat} (hsize : p + len ≤ b.size) :
    hdrcsumFrom b len p sum h = .ok (sum + (hostWords (b.bytes p len)).sum, h) := by
  induction len, p, sum using hdrcsumFrom.induct with
  | case3 p sum => rfl
  | case2 p sum =>
      rw [hdrcsumFrom, bind_of_ok (Block.peek_of_lt (by omega))]
      rfl
  | case1 len p sum ih =>
      have hrest := ih (b.bytes p 2) (by omega)
      rw [hdrcsumFrom, bind_of_ok (Block.load_of_le (by omega)), hrest, Block.bytes_succ b p (len + 1),
        Block.bytes_succ b (p + 1) len, hostWords, List.sum_cons, Nat.add_assoc sum]
      rfl

/-- The value that the code computes. -/
def csum (l : Bytes) : Nat := 65535 - swap (fold (hostWords l).sum % 65536)

theorem csum_lt (l : Bytes) : csum l < 65536 := by
  unfold csum
  omega

theorem hdrcsum_eq (hsize : len ≤ b.size) : hdrcsum b len h = .ok (csum (b.bytes 0 len), h) := by
  rw [hdrcsum, bind_of_ok (hdrcsumFrom_eq (by omega)), Nat.zero_add]
  rfl

/-- The sum of the words folds into a word at once. -/
def FoldsOnce (l : Bytes) : Prop := fold (hostWords l).sum < 65536

instance (l : Bytes) : Decidable (FoldsOnce l) := inferInstanceAs (Decidable (_ < _))

theorem rfc1071_eq (l : Bytes) : rfc1071 l = 65535 - swap (residue (hostWords l).sum) := by
  have hlt : ∀ w ∈ netWords l, w < 65536 := by
    intro w hw
    rw [netWords_eq] at hw
    obtain ⟨v, -, rfl⟩ := List.mem_map.1 hw
    exact Onescomp.swap_lt v
  rw [rfc1071, Onescomp.sum_eq hlt, netWords_eq, Onescomp.residue_sum_swap hostWords_lt]

/-- The second carry is dropped, so that the value is right if and only if there is none. -/
theorem csum_eq_rfc1071 {l : Bytes} (hl : l.length < 65536) : csum l = rfc1071 l ↔ FoldsOnce l := by
  have hsum := sum_hostWords_le l
  have hres := Onescomp.residue_lt (hostWords l).sum
  have hswap := Onescomp.swap_lt (residue (hostWords l).sum)
  have hswap' := Onescomp.swap_lt (fold (hostWords l).sum % 65536)
  have hinj := Onescomp.swap_inj (v := fold (hostWords l).sum % 65536) (Nat.mod_lt _ (by decide)) hres
  have hiff : csum l = rfc1071 l ↔ fold (hostWords l).sum % 65536 = residue (hostWords l).sum := by
    rw [rfc1071_eq, csum, ← hinj]
    omega
  rw [hiff, FoldsOnce]
  by_cases hfold : fold (hostWords l).sum < 65536
  · rw [Onescomp.residue_of_fold_lt hfold, Nat.mod_eq_of_lt hfold]
    exact iff_of_true rfl hfold
  · rw [Onescomp.residue_of_le_fold (by omega) (Nat.le_of_not_lt hfold)]
    exact iff_of_false (by omega) hfold

end

end Timps.Ipv4
