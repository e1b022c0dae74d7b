-- SUMMARY: Heap blocks, the allocator, byte order macros and C strings, as the rest of the model uses them.
import Mathlib.Algebra.Group.Int.Defs
import Mathlib.Algebra.GroupWithZero.Nat
import Mathlib.Data.List.Basic
import Timps.Base.Prog

/-!
# Memory

A heap block is a size and the bytes at its offsets. Every access goes through
`Block.load` and `Block.store`, which stop with a fault when they leave the block.
The allocator answers from the state: `Heap.refuse` says which of the coming
allocations are refused (none when it is empty), and `Heap.junk n` is what a fresh
block of `n` bytes holds.
-/

namespace Timps

abbrev Bytes := List UInt8

/-- The characters of a `char *`, terminator not included. -/
abbrev CStr := List UInt8

/-- The ways in which the C code leaves the behaviour its authors defined. -/
inductive Fault where
  /-- a null `struct nafconn *` is dereferenced -/
  | nullConn
  /-- a null `struct gnrmsg *` is dereferenced -/
  | nullMsg
  /-- a null `struct gnrnode *` is dereferenced -/
  | nullNode
  /-- a connection is used after `naf_conn_free` -/
  | staleConn
  /-- a variable is read before it was set -/
  | uninitialised
  /-- an access outside the allocated block -/
  | outOfBounds
  /-- a loop that does not end -/
  | diverge
  deriving DecidableEq, Repr

namespace Naf

/-- How a call ends: it returns, or `abort()` ends the program. -/
inductive Exit (α : Type) where
  | abort
  | ret (a : α)
  deriving DecidableEq

/-- What an `int` keeps of a number: its low 32 bits, in two's complement. -/
def int (n : Int) : Int := n.bmod (2 ^ 32)

theorem int_of_lt {n : Int} (hlow : -2 ^ 31 ≤ n) (hhigh : n < 2 ^ 31) : int n = n :=
  Int.bmod_eq_of_le (by omega) (by omega)

theorem int_natCast {n : Nat} (hn : n < 2 ^ 31) : int n = n := int_of_lt (by omega) (by omega)

theorem int_add_int (n m : Int) : int (n + int m) = int (n + m) := Int.add_bmod_bmod

structure Block where
  size : Nat
  byte : Nat → UInt8

structure Heap where
  refuse : List Bool
  junk : Nat → Nat → UInt8

/-- A heap that grants every allocation, with zeroed blocks. -/
def Heap.zeroed : Heap := { refuse := [], junk := fun _ _ => 0 }

/-- Programs that only allocate and access memory. -/
abbrev Mem := Prog Fault Heap

/-- The next allocation is refused. -/
def Heap.unwilling (h : Heap) : Bool := h.refuse.head? == some true

/-- The state after one allocation. -/
def Heap.next (h : Heap) : Heap := { h with refuse := h.refuse.tail }

/-- `naf_malloc`: a fresh block, or null. -/
def malloc (n : Nat) : Mem (Option Block) := fun h =>
  .ok (if h.unwilling then none else some ⟨n, h.junk n⟩, h.next)

namespace Block

/-- The `n` bytes from offset `off` on. -/
def bytes (b : Block) (off n : Nat) : Bytes := (List.range n).map fun i => b.byte (off + i)

/-- The block with `v` at offset `off`. -/
def fill (b : Block) (off : Nat) (v : Bytes) : Block :=
  { b with byte := fun i => if off ≤ i ∧ i < off + v.length then v.getD (i - off) 0 else b.byte i }

/-- What a pointer `k` bytes into the block can reach. -/
def suffix (b : Block) (k : Nat) : Block :=
  { size := b.size - k, byte := fun i => b.byte (k + i) }

def load (b : Block) (off n : Nat) : Mem Bytes := fun h =>
  if off + n ≤ b.size then .ok (b.bytes off n, h) else .error .outOfBounds

def store (b : Block) (off : Nat) (v : Bytes) : Mem Block := fun h =>
  if off + v.length ≤ b.size then .ok (b.fill off v, h) else .error .outOfBounds

@[simp] theorem length_bytes (b : Block) (off n : Nat) : (b.bytes off n).length = n := by
  simp [bytes]

@[simp] theorem bytes_zero (b : Block) (off : Nat) : b.bytes off 0 = [] := rfl

@[simp] theorem size_fill (b : Block) (off : Nat) (v : Bytes) : (b.fill off v).size = b.size := rfl

@[simp] theorem size_suffix (b : Block) (k : Nat) : (b.suffix k).size = b.size - k := rfl

theorem bytes_add (b : Block) (off n m : Nat) :
    b.bytes off (n + m) = b.bytes off n ++ b.bytes (off + n) m := by
  simp only [bytes, List.range_add, List.map_append, List.map_map]
  congr 1
  apply List.map_congr_left
  intro i _
  simp [Nat.add_assoc]

theorem bytes_succ (b : Block) (off n : Nat) :
    b.bytes off (n + 1) = b.byte off :: b.bytes (off + 1) n := by
  rw [Nat.add_comm, bytes_add]
  rfl

theorem getElem_bytes (b : Block) {off n i : Nat} (h : i < (b.bytes off n).length) :
    (b.bytes off n)[i] = b.byte (off + i) := by
  simp [bytes]

/-- Bytes that agree at each offset are equal. -/
theorem bytes_congr {b b' : Block} {off off' n : Nat}
    (h : ∀ i, i < n → b.byte (off + i) = b'.byte (off' + i)) :
    b.bytes off n = b'.bytes off' n := by
  apply List.map_congr_left
  intro i hi
  exact h i (List.mem_range.1 hi)

@[simp] theorem fill_nil (b : Block) (off : Nat) : b.fill off [] = b := by
  cases b
  simp only [fill, List.length_nil, Nat.add_zero, Block.mk.injEq, true_and]
  funext i
  rw [if_neg (by omega)]

/-- What was written is read back. -/
theorem bytes_fill_same (b : Block) (off : Nat) (v : Bytes) :
    (b.fill off v).bytes off v.length = v := by
  apply List.ext_getElem
  · simp
  · intro i h₁ h₂
    rw [getElem_bytes]
    simp [fill, h₂]

/-- Everything before the write is kept. -/
theorem bytes_fill_before (b : Block) {off start n : Nat} (v : Bytes) (h : start + n ≤ off) :
    (b.fill off v).bytes start n = b.bytes start n :=
  bytes_congr fun i hi => by
    have : ¬ off ≤ start + i := by omega
    simp [fill, this]

/-- Everything after the write is kept. -/
theorem bytes_fill_after (b : Block) {off start n : Nat} (v : Bytes) (h : off + v.length ≤ start) :
    (b.fill off v).bytes start n = b.bytes start n :=
  bytes_congr fun i hi => by
    have : ¬ start + i < off + v.length := by omega
    simp [fill, this]

theorem load_ok {b : Block} {off n : Nat} {h : Heap} {r : Bytes × Heap} :
    b.load off n h = .ok r ↔ off + n ≤ b.size ∧ r = (b.bytes off n, h) := by
  by_cases hle : off + n ≤ b.size
  · simp [load, hle, eq_comm]
  · simp [load, hle]

theorem load_of_le {b : Block} {off n : Nat} {h : Heap} (hle : off + n ≤ b.size) :
    b.load off n h = .ok (b.bytes off n, h) := if_pos hle

theorem store_ok {b : Block} {off : Nat} {v : Bytes} {h : Heap} {r : Block × Heap} :
    b.store off v h = .ok r ↔ off + v.length ≤ b.size ∧ r = (b.fill off v, h) := by
  by_cases hle : off + v.length ≤ b.size
  · simp [store, hle, eq_comm]
  · simp [store, hle]

theorem store_of_le {b : Block} {off : Nat} {v : Bytes} {h : Heap}
    (hle : off + v.length ≤ b.size) : b.store off v h = .ok (b.fill off v, h) := if_pos hle

end Block

/-! ## The allocator -/

theorem Heap.next_of_willing {h : Heap} (hh : h.refuse = []) : h.next = h := by
  cases h
  simp only [Heap.next] at hh ⊢
  rw [hh]
  rfl

theorem Heap.willing {h : Heap} (hh : h.refuse = []) : h.unwilling = false := by
  simp [Heap.unwilling, hh]

theorem malloc_refused {n : Nat} {h : Heap} (hh : h.unwilling = true) :
    malloc n h = .ok (none, h.next) := by
  simp [malloc, hh]

theorem malloc_granted {n : Nat} {h : Heap} (hh : h.unwilling = false) :
    malloc n h = .ok (some ⟨n, h.junk n⟩, h.next) := by
  simp [malloc, hh]

/-- When nothing is refused the allocator gives the block and stays as it is. -/
theorem malloc_of_willing {n : Nat} {h : Heap} (hh : h.refuse = []) :
    malloc n h = .ok (some ⟨n, h.junk n⟩, h) := by
  rw [malloc_granted (Heap.willing hh), Heap.next_of_willing hh]

theorem malloc_later {n : Nat} {h h' : Heap} {r : Option Block} (hr : malloc n h = .ok (r, h')) :
    h' = h.next := by
  cases hr
  rfl

/-- A block is as long as it was asked for. -/
theorem malloc_size (n : Nat) : Prog.Gives (malloc n) fun r => ∀ b, r = some b → b.size = n := by
  intro h r h' hr b heq
  subst heq
  simp only [malloc, Except.ok.injEq, Prod.mk.injEq] at hr
  obtain ⟨hb, -⟩ := hr
  split at hb
  · cases hb
  · cases hb
    rfl

/-- The allocator itself never faults. -/
theorem malloc_ne_error {n : Nat} {h : Heap} {e : Fault} : malloc n h ≠ .error e := by
  simp [malloc]

/-! ## Byte order

`naf_byte_get32` computes in `int` and its value is converted to the 64-bit
`naf_u32_t`, so a word with its top bit set comes out sign-extended. -/

def byteGet16 (b₀ b₁ : UInt8) : Nat := (b₀.toNat <<< 8) ||| b₁.toNat

def byteGet32 (b₀ b₁ b₂ b₃ : UInt8) : Nat :=
  let w := (b₀.toNat <<< 24) ||| (b₁.toNat <<< 16) ||| (b₂.toNat <<< 8) ||| b₃.toNat
  if w < 2 ^ 31 then w else w + (2 ^ 64 - 2 ^ 32)

def bytePut8 (v : Nat) : Bytes := [UInt8.ofNat v]

def bytePut16 (v : Nat) : Bytes := [UInt8.ofNat (v >>> 8), UInt8.ofNat v]

def bytePut32 (v : Nat) : Bytes :=
  [UInt8.ofNat (v >>> 24), UInt8.ofNat (v >>> 16), UInt8.ofNat (v >>> 8), UInt8.ofNat v]

@[simp] theorem length_bytePut8 (v : Nat) : (bytePut8 v).length = 1 := rfl
@[simp] theorem length_bytePut16 (v : Nat) : (bytePut16 v).length = 2 := rfl
@[simp] theorem length_bytePut32 (v : Nat) : (bytePut32 v).length = 4 := rfl

theorem byteGet16_eq (b₀ b₁ : UInt8) : byteGet16 b₀ b₁ = b₀.toNat * 256 + b₁.toNat := by
  have h : b₁.toNat < 2 ^ 8 := b₁.toNat_lt
  rw [byteGet16, ← Nat.shiftLeft_add_eq_or_of_lt h, Nat.shiftLeft_eq]

theorem byteGet16_lt (b₀ b₁ : UInt8) : byteGet16 b₀ b₁ < 65536 := by
  have h₀ := b₀.toNat_lt
  have h₁ := b₁.toNat_lt
  rw [byteGet16_eq]
  omega

/-- Reading back what `bytePut16` wrote. -/
theorem byteGet16_bytePut16 {v : Nat} (h : v < 65536) :
    byteGet16 (UInt8.ofNat (v >>> 8)) (UInt8.ofNat v) = v := by
  simp only [byteGet16_eq, UInt8.toNat_ofNat', Nat.shiftRight_eq_div_pow]
  omega

/-- A pair of bytes is the encoding of its value. -/
theorem bytePut16_byteGet16 (b₀ b₁ : UInt8) : bytePut16 (byteGet16 b₀ b₁) = [b₀, b₁] := by
  have h₀ := b₀.toNat_lt
  have h₁ := b₁.toNat_lt
  simp only [bytePut16, byteGet16_eq, List.cons.injEq, and_true]
  constructor <;> apply UInt8.toNat_inj.1 <;>
    simp only [UInt8.toNat_ofNat', Nat.shiftRight_eq_div_pow] <;> omega

/-! ## C strings -/

/-- The string a reader of these bytes sees: everything up to the first NUL. -/
def cstring (b : Bytes) : CStr := b.takeWhile (· != 0)

/-- What has no NUL is read to its end. -/
theorem cstring_append {l r : Bytes} (hl : ∀ b ∈ l, b ≠ 0) : cstring (l ++ r) = l ++ cstring r := by
  induction l with
  | nil => rfl
  | cons b l ih =>
      have hb := hl b (.head _)
      have hrest := ih fun b hb => hl b (.tail _ hb)
      simpa [cstring, hb] using hrest

theorem cstring_self {l : Bytes} (hl : 0 ∉ l) : cstring l = l := by
  have h := cstring_append (r := []) fun b hb => ne_of_mem_of_not_mem hb hl
  rwa [List.append_nil, show cstring [] = [] from rfl, List.append_nil] at h

/-- A string literal. -/
def lit (s : String) : CStr := s.toList.map fun c => c.toNat.toUInt8

/-- `%u` -/
def decimal (n : Nat) : CStr := (Nat.toDigits 10 n).map fun c => c.toNat.toUInt8

/-- `toupper` and `tolower` in the C locale. -/
def toupper (c : UInt8) : UInt8 := if 97 ≤ c ∧ c ≤ 122 then c - 32 else c
def tolower (c : UInt8) : UInt8 := if 65 ≤ c ∧ c ≤ 90 then c + 32 else c

/-- `strcasecmp` finds no difference. -/
def strcaseeq (a b : CStr) : Bool := a.map tolower == b.map tolower

end Naf
end Timps
