-- SUMMARY: The memory figures of the modules: what they count, and when they stay balanced.
import Mathlib.Algebra.Order.BigOperators.Group.List
import Mathlib.Algebra.Order.Group.Nat
import Mathlib.Logic.Function.Basic
import Timps.Base.Run
import Timps.Naf.Tag

/-!
# Memory accounting

Each module has figures for all its buffers and for the buffers of two types. An allocation counts
with what was requested, a release with what the header of the buffer says.
-/

namespace Timps.Naf

/-- `struct memory_stats` -/
structure MemoryStats where
  regions : Nat
  current : Nat
  maximum : Nat
  deriving DecidableEq

/-- `struct module_memory_stats` -/
structure ModuleMemoryStats where
  totals : MemoryStats
  typeGeneric : MemoryStats
  typeNetbuf : MemoryStats
  deriving DecidableEq

/-- `struct naf_mem_header` -/
structure MemHeader where
  hdrmagic1 : Nat
  hdrlen : Nat
  type : Nat
  owner : Option Nafmodule
  buflen : Nat
  hdrmagic2 : Nat

/-- An allocated buffer: the pointer that was handed out, the header in front of it, and the bytes behind it. -/
structure Membuf where
  ptr : Nat
  hdr : MemHeader
  ftr : Bytes

structure Memory where
  /-- `mod->memorystats` -/
  memorystats : Nafmodule → Option ModuleMemoryStats
  bufs : List Membuf
  /-- the next pointer that is handed out -/
  ptr : Nat
  heap : Heap

def hdrMagicStart : Nat := 0xbeefbeef
def hdrMagicEnd : Nat := 0xfeebfeeb
def ftrMagicEnd : Bytes := [0xde, 0xad, 0xbe, 0xef]

/-- sizeof(struct naf_mem_header) -/
def memHeaderLen : Nat := 40

/-- NAF_MEM_TYPE_ -/
def memTypeGeneric : Nat := 0
def memTypeNetbuf : Nat := 1

/-! ## Figures -/

/-- Subtraction of `naf_u32_t`, an `unsigned long`. -/
def sub64 (a b : Nat) : Nat := (a + 2 ^ 64 - b) % 2 ^ 64

theorem sub64_add {a b : Nat} (ha : a + b < 2 ^ 64) : sub64 (a + b) b = a := by
  unfold sub64
  omega

namespace MemoryStats

def zero : MemoryStats := ⟨0, 0, 0⟩

def add (n : Nat) (ms : MemoryStats) : MemoryStats :=
  let current := (ms.current + n) % 2 ^ 64
  { regions := (ms.regions + 1) % 2 ^ 64
    current
    maximum := if current > ms.maximum then current else ms.maximum }

def sub (n : Nat) (ms : MemoryStats) : MemoryStats :=
  { ms with
    current := sub64 ms.current n
    regions := sub64 ms.regions 1 }

end MemoryStats

namespace ModuleMemoryStats

def zero : ModuleMemoryStats := ⟨.zero, .zero, .zero⟩

/-- The type is an `int` here. -/
def count (type : Int32) (reqsize : Nat) (pms : ModuleMemoryStats) : ModuleMemoryStats :=
  let pms := { pms with totals := pms.totals.add reqsize }
  if type.toInt = memTypeGeneric then { pms with typeGeneric := pms.typeGeneric.add reqsize }
  else if type.toInt = memTypeNetbuf then { pms with typeNetbuf := pms.typeNetbuf.add reqsize }
  else pms

/-- The type is what the header has of it. -/
def discount (type buflen : Nat) (pms : ModuleMemoryStats) : ModuleMemoryStats :=
  let pms := { pms with totals := pms.totals.sub buflen }
  if type = memTypeGeneric then { pms with typeGeneric := pms.typeGeneric.sub buflen }
  else if type = memTypeNetbuf then { pms with typeNetbuf := pms.typeNetbuf.sub buflen }
  else pms

end ModuleMemoryStats

/-! ## Calls -/

namespace Memory

/-- `naf_memory__module_init` -/
def moduleInit (mod : Nafmodule) (s : Memory) : Memory :=
  if (s.memorystats mod).isSome then s
  else if s.heap.unwilling then { s with heap := s.heap.next }
  else
    { s with
      heap := s.heap.next
      memorystats := Function.update s.memorystats mod (some .zero) }

/-- No figures are kept for no module. -/
def init (mod : Option Nafmodule) (s : Memory) : Memory :=
  match mod with
  | none => s
  | some mod => s.moduleInit mod

/-- The figures of a module, if it has any, are changed. -/
def account (f : ModuleMemoryStats → ModuleMemoryStats) (mod : Option Nafmodule) (s : Memory) : Memory :=
  match mod with
  | none => s
  | some mod => { s with memorystats := Function.update s.memorystats mod ((s.memorystats mod).map f) }

/-- A size that went through an `int`, as `malloc` gets it. -/
def intsize (n : Nat) : Nat := if n % 2 ^ 32 < 2 ^ 31 then n % 2 ^ 32 else n % 2 ^ 32 + (2 ^ 64 - 2 ^ 32)

/-- A type that went through the `naf_u16_t` of the header. -/
def hdrtype (type : Int32) : Nat := (type.toInt % 65536).toNat

/-- Header and footer are written where the request says. -/
def mallocReal (mod : Option Nafmodule) (type : Int32) (reqsize : Nat) (s : Memory) :
    Except Fault (Option Nat × Memory) :=
  let s := s.init mod
  let buflen := intsize (memHeaderLen + reqsize + ftrMagicEnd.length)
  if s.heap.unwilling then .ok (none, { s with heap := s.heap.next })
  else if buflen < memHeaderLen + reqsize + ftrMagicEnd.length then .error .outOfBounds
  else
    let hdr : MemHeader :=
      { hdrmagic1 := hdrMagicStart
        hdrlen := memHeaderLen
        type := hdrtype type
        owner := mod
        buflen := reqsize
        hdrmagic2 := hdrMagicEnd }
    let buf : Membuf := { ptr := s.ptr, hdr, ftr := ftrMagicEnd }
    let s := { s with heap := s.heap.next, ptr := s.ptr + 1, bufs := buf :: s.bufs }
    .ok (some buf.ptr, s.account (·.count type reqsize) mod)

/-- The calling module is not looked at: the owner in the header is. What has no header is left to
`free`. -/
def freeReal (_mod : Option Nafmodule) (ptr : Option Nat) (s : Memory) : Exit Memory :=
  match ptr with
  | none => .ret s
  | some ptr =>
      match s.bufs.find? fun b => b.ptr = ptr with
      | none => .ret s
      | some b =>
          let freed := { s with bufs := s.bufs.eraseP fun b => b.ptr = ptr }
          if b.hdr.hdrmagic2 ≠ hdrMagicEnd ∨ b.hdr.hdrmagic1 ≠ hdrMagicStart then .ret freed
          else if b.ftr ≠ ftrMagicEnd then .abort
          else .ret (freed.account (·.discount b.hdr.type b.hdr.buflen) b.hdr.owner)

end Memory

/-! ## What the figures are about -/

/-- What a figure is about. -/
inductive Kind where
  | totals
  | generic
  | netbuf
  deriving DecidableEq

namespace Kind

def figures : Kind → ModuleMemoryStats → MemoryStats
  | totals, pms => pms.totals
  | generic, pms => pms.typeGeneric
  | netbuf, pms => pms.typeNetbuf

/-- The types of the buffers that it counts. -/
def covers : Kind → Int → Bool
  | totals, _ => true
  | generic, type => type = memTypeGeneric
  | netbuf, type => type = memTypeNetbuf

/-- What is said of all figures is said of three. -/
theorem forall_iff {P : Kind → Prop} : (∀ k, P k) ↔ P totals ∧ P generic ∧ P netbuf :=
  ⟨fun h => ⟨h _, h _, h _⟩, fun ⟨htotals, hgeneric, hnetbuf⟩ k => by
    cases k with
    | totals => exact htotals
    | generic => exact hgeneric
    | netbuf => exact hnetbuf⟩

theorem figures_zero (k : Kind) : k.figures .zero = .zero := by cases k <;> rfl

theorem figures_count (k : Kind) (type : Int32) (n : Nat) (pms : ModuleMemoryStats) :
    k.figures (pms.count type n) = if k.covers type.toInt then (k.figures pms).add n else k.figures pms := by
  have hne : (memTypeGeneric : Int) ≠ memTypeNetbuf := by decide
  unfold ModuleMemoryStats.count
  by_cases hgeneric : type.toInt = memTypeGeneric
  · cases k <;> simp [figures, covers, hgeneric, hne]
  · by_cases hnetbuf : type.toInt = memTypeNetbuf
    · cases k <;> simp [figures, covers, hnetbuf, hne.symm]
    · cases k <;> simp [figures, covers, hgeneric, hnetbuf]

theorem covers_natCast (k : Kind) (type : Nat) :
    k.covers type = true ↔ k = totals ∨ k = generic ∧ type = memTypeGeneric ∨ k = netbuf ∧ type = memTypeNetbuf := by
  cases k with
  | totals => exact ⟨fun _ => .inl rfl, fun _ => rfl⟩
  | generic =>
      rw [covers, decide_eq_true_iff, Int.ofNat_inj]
      simp
  | netbuf =>
      rw [covers, decide_eq_true_iff, Int.ofNat_inj]
      simp

theorem figures_discount (k : Kind) (type n : Nat) (pms : ModuleMemoryStats) :
    k.figures (pms.discount type n) = if k.covers type then (k.figures pms).sub n else k.figures pms := by
  have hne : memTypeGeneric ≠ memTypeNetbuf := by decide
  simp only [ModuleMemoryStats.discount, covers_natCast]
  by_cases hgeneric : type = memTypeGeneric
  · cases k <;> simp [figures, hgeneric, hne]
  · by_cases hnetbuf : type = memTypeNetbuf
    · cases k <;> simp [figures, hnetbuf, hne.symm]
    · cases k <;> simp [figures, hgeneric, hnetbuf]

end Kind

namespace Memory

/-- A figure of a module. One that does not exist yet has counted nothing. -/
def figure (s : Memory) (mod : Nafmodule) (k : Kind) : MemoryStats :=
  ((s.memorystats mod).map k.figures).getD .zero

variable {s s' : Memory} {mod : Nafmodule} {k : Kind}

theorem figure_account {f : ModuleMemoryStats → ModuleMemoryStats} {g : MemoryStats → MemoryStats}
    (hf : ∀ pms, k.figures (f pms) = g (k.figures pms)) (hstats : (s.memorystats mod).isSome = true) :
    (s.account f (some mod)).figure mod k = g (s.figure mod k) := by
  obtain ⟨pms, hpms⟩ := Option.isSome_iff_exists.1 hstats
  simp only [figure, account, Function.update_self, hpms, Option.map_some, Option.getD_some, hf]

theorem figure_account_other {f : ModuleMemoryStats → ModuleMemoryStats} {owner : Option Nafmodule}
    (howner : owner ≠ some mod) : (s.account f owner).figure mod k = s.figure mod k := by
  cases owner with
  | none => rfl
  | some other =>
      have hne : mod ≠ other := fun heq => howner (by rw [heq])
      simp only [figure, account, Function.update_of_ne hne]

/-- New figures are those of a module that has counted nothing. -/
theorem figure_init (s : Memory) (owner : Option Nafmodule) (mod : Nafmodule) (k : Kind) :
    (s.init owner).figure mod k = s.figure mod k := by
  cases owner with
  | none => rfl
  | some other =>
      rw [init, moduleInit]
      split
      · rfl
      split
      · rfl
      rename_i habsent _
      by_cases heq : mod = other
      · subst heq
        rw [Option.not_isSome_iff_eq_none] at habsent
        simp only [figure, Function.update_self, habsent, Option.map_some, Option.map_none, Option.getD_some,
          Option.getD_none, k.figures_zero]
      · simp only [figure, Function.update_of_ne heq]

theorem init_bufs (s : Memory) (owner : Option Nafmodule) : (s.init owner).bufs = s.bufs := by
  cases owner with
  | none => rfl
  | some other =>
      rw [init, moduleInit]
      split
      · rfl
      split <;> rfl

/-- Figures that exist stay. -/
theorem init_none {owner : Option Nafmodule} (hnone : (s.init owner).memorystats mod = none) :
    s.memorystats mod = none := by
  cases owner with
  | none => exact hnone
  | some other =>
      rw [init, moduleInit] at hnone
      split at hnone
      · exact hnone
      split at hnone
      · exact hnone
      by_cases heq : mod = other
      · subst heq
        simp only [Function.update_self] at hnone
        cases hnone
      · simpa only [Function.update_of_ne heq] using hnone

/-- A module that is granted a buffer has figures, if it had some or could be given some. -/
theorem init_isSome
    (hcounted : (s.memorystats mod).isSome = true ∨ s.heap.unwilling = false ∨ s.heap.next.unwilling = true)
    (hgranted : ¬(s.init (some mod)).heap.unwilling = true) :
    ((s.init (some mod)).memorystats mod).isSome = true := by
  by_cases hstats : (s.memorystats mod).isSome = true
  · rwa [init, moduleInit, if_pos hstats]
  by_cases hrefused : s.heap.unwilling = true
  · rw [init, moduleInit, if_neg hstats, if_pos hrefused] at hgranted
    rcases hcounted with h | h | h
    · exact absurd h hstats
    · rw [hrefused] at h
      cases h
    · exact absurd h hgranted
  · rw [init, moduleInit, if_neg hstats, if_neg hrefused]
    simp only [Function.update_self, Option.isSome_some]

theorem account_bufs (f : ModuleMemoryStats → ModuleMemoryStats) (owner : Option Nafmodule) (s : Memory) :
    (s.account f owner).bufs = s.bufs := by
  cases owner <;> rfl

theorem account_none {f : ModuleMemoryStats → ModuleMemoryStats} {owner : Option Nafmodule}
    (hnone : (s.account f owner).memorystats mod = none) : s.memorystats mod = none := by
  cases owner with
  | none => exact hnone
  | some other =>
      by_cases heq : mod = other
      · subst heq
        simpa only [account, Function.update_self, Option.map_eq_none_iff] using hnone
      · simpa only [account, Function.update_of_ne heq] using hnone

/-- The buffer that a request makes. -/
def bufOf (ptr : Nat) (mod : Option Nafmodule) (type : Int32) (reqsize : Nat) : Membuf :=
  { ptr
    hdr :=
      { hdrmagic1 := hdrMagicStart
        hdrlen := memHeaderLen
        type := hdrtype type
        owner := mod
        buflen := reqsize
        hdrmagic2 := hdrMagicEnd }
    ftr := ftrMagicEnd }

theorem le_intsize {n : Nat} (hn : n < 2 ^ 32) : n ≤ intsize n := by
  unfold intsize
  split <;> omega

/-- A request returns, if an `int` of 32 bits has its length, header and footer included, or if it is refused. -/
theorem mallocReal_returns (owner : Option Nafmodule) (type : Int32) {n : Nat}
    (hsize : memHeaderLen + n + ftrMagicEnd.length < 2 ^ 32 ∨ (s.init owner).heap.unwilling = true) :
    ∃ r, s.mallocReal owner type n = .ok r := by
  unfold mallocReal
  dsimp only
  by_cases hun : (s.init owner).heap.unwilling = true
  · exact ⟨_, if_pos hun⟩
  · have hle := le_intsize (hsize.resolve_right hun)
    exact ⟨_, (if_neg hun).trans (if_neg (Nat.not_lt.2 hle))⟩

/-- A request is refused, or makes a buffer that its owner has counted. -/
theorem mallocReal_cases {owner : Option Nafmodule} {type : Int32} {n : Nat} {r : Option Nat}
    (hcall : s.mallocReal owner type n = .ok (r, s')) :
    (r = none ∧ s' = { s.init owner with heap := (s.init owner).heap.next }) ∨
      ∃ (ptr : Nat) (m : Memory), r = some ptr ∧ ¬(s.init owner).heap.unwilling = true ∧
        m.memorystats = (s.init owner).memorystats ∧ m.bufs = bufOf ptr owner type n :: s.bufs ∧
        s' = m.account (·.count type n) owner := by
  unfold mallocReal at hcall
  dsimp only at hcall
  split at hcall
  · cases hcall
    exact .inl ⟨rfl, rfl⟩
  split at hcall
  · cases hcall
  · rename_i hgranted _
    cases hcall
    refine .inr ⟨_, _, rfl, hgranted, ?_, ?_, rfl⟩
    · rfl
    · exact congrArg _ (init_bufs s owner)

end Memory

/-! ## The buffers that are out -/

namespace Accounting

/-- A buffer as it was asked for. -/
structure Outbuf where
  ptr : Nat
  owner : Option Nafmodule
  type : Int32
  size : Nat

structure Books where
  memory : Memory
  out : List Outbuf

inductive Call where
  | malloc (mod : Option Nafmodule) (type : Int32) (reqsize : Nat)
  | free (mod : Option Nafmodule) (ptr : Option Nat)

inductive Stop where
  | fault (e : Fault)
  | abort
  /-- a buffer is freed that is not out -/
  | misuse

def next : Call → Books → Except Stop Books
  | .malloc mod type reqsize, s =>
      match s.memory.mallocReal mod type reqsize with
      | .error e => .error (.fault e)
      | .ok (none, memory) => .ok { s with memory }
      | .ok (some ptr, memory) => .ok { memory, out := ⟨ptr, mod, type, reqsize⟩ :: s.out }
  | .free mod ptr, s =>
      if ptr.any fun ptr => !s.out.any fun o => o.ptr = ptr then .error .misuse
      else
        match s.memory.freeReal mod ptr with
        | .abort => .error .abort
        | .ret memory => .ok { memory, out := s.out.eraseP fun o => some o.ptr = ptr }

/-- Nothing was allocated yet, not even figures. -/
def Fresh (s : Books) : Prop := (∀ mod, s.memory.memorystats mod = none) ∧ s.memory.bufs = [] ∧ s.out = []

/-- The buffers of a module that are out. -/
def outstanding (mod : Nafmodule) (k : Kind) (s : Books) : List Outbuf :=
  s.out.filter fun o => o.owner = some mod && k.covers o.type.toInt

/-- The largest value of `f` over some states. -/
def Largest (f : Books → Nat) (states : List Books) (m : Nat) : Prop :=
  (∀ s ∈ states, f s ≤ m) ∧ ∃ s ∈ states, f s = m

/-- The figures are those of the buffers that are out, and each maximum is the largest value that there
was in the run. -/
structure Balanced (history : List (Books × Call)) (s : Books) (mod : Nafmodule) (k : Kind) : Prop where
  regions : (s.memory.figure mod k).regions = (outstanding mod k s).length
  current : (s.memory.figure mod k).current = ((outstanding mod k s).map Outbuf.size).sum
  maximum : Largest (fun t => (t.memory.figure mod k).current) (history.map Prod.fst ++ [s])
    (s.memory.figure mod k).maximum

/-- The sums stay below `2 ^ 32`, and what is freed is out. -/
def Allowed (s : Books) : Call → Prop
  | .malloc _ _ reqsize => (s.out.map Outbuf.size).sum + reqsize < 2 ^ 32 ∧ s.out.length + 1 < 2 ^ 32
  | .free _ ptr => ∀ p, ptr = some p → (s.out.any fun o => o.ptr = p) = true

/-- A buffer is not given for a request whose length, header and footer included, has more than 32 bits;
it is not given to a module for which figures could not be allocated, and its type is in the
header what it was in the request. -/
def Counted (s : Books) : Call → Prop
  | .malloc mod type reqsize =>
      (memHeaderLen + reqsize + ftrMagicEnd.length < 2 ^ 32 ∨ (s.memory.init mod).heap.unwilling = true) ∧
        ∀ m, mod = some m →
          ((s.memory.memorystats m).isSome = true ∨ s.memory.heap.unwilling = false ∨
            s.memory.heap.next.unwilling = true) ∧
          ∀ k : Kind, k.covers (Memory.hdrtype type) = k.covers type.toInt
  | .free _ _ => True

/-! ## Steps -/

/-- The buffer as it lies in memory. -/
def Outbuf.buf (o : Outbuf) : Membuf := Memory.bufOf o.ptr o.owner o.type o.size

section

variable {f : Books → Nat} {states : List Books} {m : Nat} {s : Books}

theorem Largest.snoc_le (hlargest : Largest f states m) (hs : f s ≤ m) : Largest f (states ++ [s]) m := by
  obtain ⟨hle, t, ht, heq⟩ := hlargest
  refine ⟨fun t ht => ?_, t, List.mem_append_left _ ht, heq⟩
  rcases List.mem_append.1 ht with ht | ht
  · exact hle t ht
  · rw [List.mem_singleton.1 ht]
    exact hs

theorem Largest.snoc_ge (hlargest : Largest f states m) (hs : m ≤ f s) : Largest f (states ++ [s]) (f s) := by
  refine ⟨fun t ht => ?_, s, List.mem_append_right _ (.head _), rfl⟩
  rcases List.mem_append.1 ht with ht | ht
  · exact Nat.le_trans (hlargest.1 t ht) hs
  · exact Nat.le_of_eq (congrArg f (List.mem_singleton.1 ht))

end

section

variable {history : List (Books × Call)} {s s' : Books} {c : Call} {mod : Nafmodule} {k : Kind}

theorem states_snoc : (history ++ [(s, c)]).map Prod.fst ++ [s'] = history.map Prod.fst ++ [s] ++ [s'] := by
  rw [List.map_append, List.map_singleton]

/-- A step that does not touch a figure. -/
theorem Balanced.same (balanced : Balanced history s mod k)
    (hfigure : s'.memory.figure mod k = s.memory.figure mod k) (hout : outstanding mod k s' = outstanding mod k s) :
    Balanced (history ++ [(s, c)]) s' mod k where
  regions := by rw [hfigure, hout, balanced.regions]
  current := by rw [hfigure, hout, balanced.current]
  maximum := by
    rw [states_snoc, hfigure]
    refine balanced.maximum.snoc_le ?_
    rw [hfigure]
    exact balanced.maximum.1 s (List.mem_append_right _ (.head _))

/-- A buffer is counted. -/
theorem Balanced.add {o : Outbuf} (balanced : Balanced history s mod k)
    (hfigure : s'.memory.figure mod k = (s.memory.figure mod k).add o.size)
    (hout : outstanding mod k s' = o :: outstanding mod k s)
    (hsum : ((outstanding mod k s).map Outbuf.size).sum + o.size < 2 ^ 32)
    (hlength : (outstanding mod k s).length + 1 < 2 ^ 32) : Balanced (history ++ [(s, c)]) s' mod k := by
  have hregions := balanced.regions
  have hcurrent := balanced.current
  have hcurrent' : (s'.memory.figure mod k).current = (s.memory.figure mod k).current + o.size := by
    rw [hfigure, MemoryStats.add]
    exact Nat.mod_eq_of_lt (by omega)
  refine ⟨?_, ?_, ?_⟩
  · rw [hout, List.length_cons, hfigure, MemoryStats.add, hregions]
    exact Nat.mod_eq_of_lt (by omega)
  · rw [hout, List.map_cons, List.sum_cons, hcurrent', hcurrent, Nat.add_comm]
  · have hmaximum : (s'.memory.figure mod k).maximum =
        if (s'.memory.figure mod k).current > (s.memory.figure mod k).maximum then (s'.memory.figure mod k).current
        else (s.memory.figure mod k).maximum := by
      rw [hfigure, MemoryStats.add]
    rw [states_snoc, hmaximum]
    split
    · rename_i hgt
      exact balanced.maximum.snoc_ge (Nat.le_of_lt hgt)
    · rename_i hle
      exact balanced.maximum.snoc_le (Nat.not_lt.1 hle)

/-- A buffer that was counted is taken off. -/
theorem Balanced.sub {o : Outbuf} (balanced : Balanced history s mod k)
    (hfigure : s'.memory.figure mod k = (s.memory.figure mod k).sub o.size)
    (hout : (outstanding mod k s).Perm (o :: outstanding mod k s'))
    (hsum : ((outstanding mod k s).map Outbuf.size).sum < 2 ^ 32)
    (hlength : (outstanding mod k s).length < 2 ^ 32) : Balanced (history ++ [(s, c)]) s' mod k := by
  have hregions := balanced.regions
  have hcurrent := balanced.current
  have hsize := (hout.map Outbuf.size).sum_nat
  rw [List.map_cons, List.sum_cons] at hsize
  have hcount := hout.length_eq
  rw [List.length_cons] at hcount
  have hcurrent' : (s'.memory.figure mod k).current = ((outstanding mod k s').map Outbuf.size).sum := by
    rw [hfigure, MemoryStats.sub, hcurrent, hsize, Nat.add_comm]
    exact sub64_add (by omega)
  refine ⟨?_, hcurrent', ?_⟩
  · rw [hfigure, MemoryStats.sub, hregions, hcount]
    exact sub64_add (by omega)
  · have hmaximum : (s'.memory.figure mod k).maximum = (s.memory.figure mod k).maximum := by
      rw [hfigure, MemoryStats.sub]
    rw [states_snoc, hmaximum]
    refine balanced.maximum.snoc_le ?_
    have hle := balanced.maximum.1 s (List.mem_append_right _ (.head _))
    dsimp only at hle ⊢
    omega

end

/-! ## Runs -/

/-- What a run keeps: the headers are those of the buffers that are out, and the figures are balanced. -/
structure Kept (history : List (Books × Call)) (s : Books) : Prop where
  bufs : s.memory.bufs = s.out.map Outbuf.buf
  typed : ∀ o ∈ s.out, o.owner.isSome = true →
    ∀ k : Kind, k.covers (Memory.hdrtype o.type) = k.covers o.type.toInt
  absent : ∀ mod, s.memory.memorystats mod = none → ∀ o ∈ s.out, o.owner ≠ some mod
  sum : (s.out.map Outbuf.size).sum < 2 ^ 32
  length : s.out.length < 2 ^ 32
  balanced : ∀ mod k, Balanced history s mod k

section

variable {history : List (Books × Call)} {s s' : Books} {mod : Nafmodule} {k : Kind}

theorem outstanding_sum_le (mod : Nafmodule) (k : Kind) (s : Books) :
    ((outstanding mod k s).map Outbuf.size).sum ≤ (s.out.map Outbuf.size).sum :=
  (List.filter_sublist.map _).sum_le_sum fun _ _ => Nat.zero_le _

theorem outstanding_length_le (mod : Nafmodule) (k : Kind) (s : Books) :
    (outstanding mod k s).length ≤ s.out.length := List.length_filter_le _ _

/-- The buffer that a release finds, in the list and in memory. -/
theorem find_split {out : List Outbuf} {p : Nat} (hout : (out.any fun o => o.ptr = p) = true) :
    ∃ o l₁ l₂, out = l₁ ++ o :: l₂ ∧ (out.find? fun o => o.ptr = p) = some o ∧
      (out.eraseP fun o => o.ptr = p) = l₁ ++ l₂ := by
  obtain ⟨o, ho, hp⟩ := List.any_eq_true.1 hout
  obtain ⟨a, l₁, l₂, hbefore, ha, hsplit, herase⟩ := List.exists_of_eraseP (p := fun o : Outbuf => o.ptr = p) ho hp
  refine ⟨a, l₁, l₂, hsplit, List.find?_eq_some_iff_append.2 ⟨ha, l₁, l₂, hsplit, fun b hb => ?_⟩, herase⟩
  rw [Bool.not_eq_true', Bool.eq_false_iff]
  exact hbefore b hb

/-- A buffer that is out is taken off its owner's figures. -/
theorem next_free (owner : Option Nafmodule) {p : Nat} (hbufs : s.memory.bufs = s.out.map Outbuf.buf)
    (hout : (s.out.any fun o => o.ptr = p) = true) :
    ∃ (o : Outbuf) (l₁ l₂ : List Outbuf) (m : Memory), s.out = l₁ ++ o :: l₂ ∧
      m.memorystats = s.memory.memorystats ∧ m.bufs = (l₁ ++ l₂).map Outbuf.buf ∧
      next (.free owner (some p)) s =
        .ok ⟨m.account (·.discount (Memory.hdrtype o.type) o.size) o.owner, l₁ ++ l₂⟩ := by
  obtain ⟨o, l₁, l₂, hsplit, hfind, herase⟩ := find_split hout
  refine ⟨o, l₁, l₂, { s.memory with bufs := (l₁ ++ l₂).map Outbuf.buf }, hsplit, rfl, rfl, ?_⟩
  have hfind' : (s.memory.bufs.find? fun b => b.ptr = p) = some o.buf := by
    rw [hbufs, List.find?_map]
    exact congrArg (Option.map _) hfind
  have herase' : (s.memory.bufs.eraseP fun b => b.ptr = p) = (l₁ ++ l₂).map Outbuf.buf := by
    rw [hbufs, List.eraseP_map, ← herase]
    rfl
  have hcall : s.memory.freeReal owner (some p) =
      .ret (({ s.memory with bufs := (l₁ ++ l₂).map Outbuf.buf } : Memory).account
        (·.discount (Memory.hdrtype o.type) o.size) o.owner) := by
    simp only [Memory.freeReal, hfind', herase']
    rfl
  have hout' : ¬((some p).any fun ptr => !s.out.any fun o => o.ptr = ptr) = true := by
    rw [Option.any_some, hout]
    exact Bool.false_ne_true
  simp only [next, if_neg hout', hcall, Option.some.injEq, herase]

/-- A buffer of another module, or of a type that is not looked at, does not matter. -/
theorem outstanding_split (mod : Nafmodule) (k : Kind) (m : Memory) {l₁ l₂ : List Outbuf} {o : Outbuf}
    (hsplit : s.out = l₁ ++ o :: l₂) :
    if o.owner = some mod && k.covers o.type.toInt then
      (outstanding mod k s).Perm (o :: outstanding mod k ⟨m, l₁ ++ l₂⟩)
    else outstanding mod k ⟨m, l₁ ++ l₂⟩ = outstanding mod k s := by
  rw [outstanding, outstanding, hsplit, List.filter_append, List.filter_append, List.filter_cons]
  split
  · exact List.perm_middle
  · rfl

/-- A buffer that is given is added to the figures of its owner, and to no others. -/
theorem Kept.counted {owner : Option Nafmodule} {type : Int32} {ptr n : Nat} {m : Memory} (kept : Kept history s)
    (c : Call) (hsmall : (s.out.map Outbuf.size).sum + n < 2 ^ 32 ∧ s.out.length + 1 < 2 ^ 32)
    (hfigure : ∀ mod k, m.figure mod k = s.memory.figure mod k)
    (hstats : ∀ mod, owner = some mod → (m.memorystats mod).isSome = true) :
    Balanced (history ++ [(s, c)]) ⟨m.account (·.count type n) owner, ⟨ptr, owner, type, n⟩ :: s.out⟩ mod k := by
  by_cases howner : owner = some mod
  · subst howner
    have hcount := Memory.figure_account (g := fun ms => if k.covers type.toInt then ms.add n else ms)
      (fun pms => k.figures_count type n pms) (hstats mod rfl)
    rw [hfigure] at hcount
    by_cases hcovers : k.covers type.toInt = true
    · refine (kept.balanced mod k).add (o := ⟨ptr, some mod, type, n⟩) ?_ ?_ ?_ ?_
      · rw [hcount, if_pos hcovers]
      · exact List.filter_cons_of_pos (by simp [hcovers])
      · exact Nat.lt_of_le_of_lt (Nat.add_le_add_right (outstanding_sum_le mod k s) n) hsmall.1
      · exact Nat.lt_of_le_of_lt (Nat.add_le_add_right (outstanding_length_le mod k s) 1) hsmall.2
    · refine (kept.balanced mod k).same ?_ ?_
      · rw [hcount, if_neg hcovers]
      · exact List.filter_cons_of_neg (by simp [hcovers])
  · refine (kept.balanced mod k).same ((Memory.figure_account_other howner).trans (hfigure mod k)) ?_
    exact List.filter_cons_of_neg (by simp [howner])

/-- A buffer that is released is taken off the figures that it was added to. -/
theorem Kept.discounted {o : Outbuf} {l₁ l₂ : List Outbuf} {m : Memory} (kept : Kept history s) (c : Call)
    (hsplit : s.out = l₁ ++ o :: l₂) (hm : m.memorystats = s.memory.memorystats) :
    Balanced (history ++ [(s, c)])
      ⟨m.account (·.discount (Memory.hdrtype o.type) o.size) o.owner, l₁ ++ l₂⟩ mod k := by
  have ho : o ∈ s.out := by
    rw [hsplit]
    exact List.mem_append_right _ (.head _)
  have hfigure : m.figure mod k = s.memory.figure mod k := by rw [Memory.figure, Memory.figure, hm]
  have hrest := outstanding_split mod k (m.account (·.discount (Memory.hdrtype o.type) o.size) o.owner) hsplit
  by_cases howner : o.owner = some mod
  · have hstats : (m.memorystats mod).isSome = true := by
      rw [hm, Option.isSome_iff_ne_none]
      exact fun hnone => kept.absent mod hnone o ho howner
    have htyped := kept.typed o ho (by rw [howner]; rfl) k
    rw [howner] at hrest ⊢
    have hdiscount := Memory.figure_account
      (g := fun ms => if k.covers (Memory.hdrtype o.type) then ms.sub o.size else ms)
      (fun pms => k.figures_discount (Memory.hdrtype o.type) o.size pms) hstats
    rw [hfigure, htyped] at hdiscount
    by_cases hcovers : k.covers o.type.toInt = true
    · rw [if_pos (by simp [hcovers])] at hrest
      refine (kept.balanced mod k).sub ?_ hrest ?_ ?_
      · rw [hdiscount, if_pos hcovers]
      · exact Nat.lt_of_le_of_lt (outstanding_sum_le mod k s) kept.sum
      · exact Nat.lt_of_le_of_lt (outstanding_length_le mod k s) kept.length
    · rw [if_neg (by simp [hcovers])] at hrest
      refine (kept.balanced mod k).same ?_ hrest
      rw [hdiscount, if_neg hcovers]
  · rw [if_neg (by simp [howner])] at hrest
    exact (kept.balanced mod k).same ((Memory.figure_account_other howner).trans hfigure) hrest

/-- What a request keeps. -/
theorem Kept.malloc {owner : Option Nafmodule} {type : Int32} {n : Nat} (kept : Kept history s)
    (hsmall : Allowed s (.malloc owner type n)) (hcounted : Counted s (.malloc owner type n))
    (hnext : next (.malloc owner type n) s = .ok s') : Kept (history ++ [(s, .malloc owner type n)]) s' := by
  simp only [next] at hnext
  cases hcall : s.memory.mallocReal owner type n with
  | error e =>
      rw [hcall] at hnext
      cases hnext
  | ok r =>
      obtain ⟨r, memory⟩ := r
      rw [hcall] at hnext
      rcases Memory.mallocReal_cases hcall with ⟨rfl, rfl⟩ | ⟨ptr, m, rfl, hgranted, hm, hbufs, rfl⟩
      · cases hnext
        refine ⟨?_, kept.typed, ?_, kept.sum, kept.length, fun mod k => (kept.balanced mod k).same ?_ rfl⟩
        · exact (Memory.init_bufs _ _).trans kept.bufs
        · exact fun mod hnone => kept.absent mod (Memory.init_none hnone)
        · exact Memory.figure_init s.memory owner mod k
      · cases hnext
        have hstats (mod : Nafmodule) (howner : owner = some mod) : (m.memorystats mod).isSome = true := by
          subst howner
          rw [hm]
          exact Memory.init_isSome (hcounted.2 mod rfl).1 hgranted
        have hfigure (mod : Nafmodule) (k : Kind) : m.figure mod k = s.memory.figure mod k := by
          rw [Memory.figure, hm]
          exact Memory.figure_init s.memory owner mod k
        refine ⟨?_, ?_, ?_, ?_, hsmall.2, fun mod k => ?_⟩
        · rw [Memory.account_bufs, hbufs, List.map_cons, kept.bufs]
          rfl
        · intro o ho hmod k
          rcases List.mem_cons.1 ho with rfl | ho
          · obtain ⟨mod, rfl⟩ := Option.isSome_iff_exists.1 hmod
            exact (hcounted.2 mod rfl).2 k
          · exact kept.typed o ho hmod k
        · intro mod hnone o ho
          have hnone' := Memory.account_none hnone
          rcases List.mem_cons.1 ho with rfl | ho
          · intro howner
            have hsome := hstats mod howner
            rw [hnone'] at hsome
            cases hsome
          · rw [hm] at hnone'
            exact kept.absent mod (Memory.init_none hnone') o ho
        · rw [List.map_cons, List.sum_cons, Nat.add_comm]
          exact hsmall.1
        · exact kept.counted _ hsmall hfigure hstats

/-- What a release keeps. -/
theorem Kept.free {owner : Option Nafmodule} {ptr : Option Nat} (kept : Kept history s)
    (hnext : next (.free owner ptr) s = .ok s') : Kept (history ++ [(s, .free owner ptr)]) s' := by
  cases ptr with
  | none =>
      have hnone : (s.out.eraseP fun o => some o.ptr = none) = s.out :=
        List.eraseP_of_forall_not fun o _ h => nomatch of_decide_eq_true h
      obtain rfl : s = s' := by
        have hsame : next (.free owner none) s = .ok { s with out := s.out.eraseP fun o => some o.ptr = none } := rfl
        rw [hsame, hnone] at hnext
        exact Except.ok.inj hnext
      exact ⟨kept.bufs, kept.typed, kept.absent, kept.sum, kept.length,
        fun mod k => (kept.balanced mod k).same rfl rfl⟩
  | some p =>
      by_cases hout : (s.out.any fun o => o.ptr = p) = true
      · obtain ⟨o, l₁, l₂, m, hsplit, hm, hbufs, heq⟩ := next_free owner kept.bufs hout
        cases heq.symm.trans hnext
        have hmem (b : Outbuf) (hb : b ∈ l₁ ++ l₂) : b ∈ s.out := by
          rw [hsplit, List.mem_append, List.mem_cons]
          rcases List.mem_append.1 hb with hb | hb
          · exact .inl hb
          · exact .inr (.inr hb)
        have hsum := kept.sum
        have hlength := kept.length
        rw [hsplit, List.map_append, List.sum_append, List.map_cons, List.sum_cons] at hsum
        rw [hsplit, List.length_append, List.length_cons] at hlength
        refine ⟨?_, fun b hb => kept.typed b (hmem b hb), ?_, ?_, ?_, fun mod k => ?_⟩
        · rw [Memory.account_bufs, hbufs]
        · intro mod hnone b hb
          have hnone' := Memory.account_none hnone
          rw [hm] at hnone'
          exact kept.absent mod hnone' b (hmem b hb)
        · rw [List.map_append, List.sum_append]
          omega
        · rw [List.length_append]
          omega
        · exact kept.discounted _ hsplit hm
      · simp only [next, Option.any_some, hout] at hnext
        cases hnext

/-- What one step keeps. -/
theorem Kept.next {c : Call} (kept : Kept history s) (hstep : Allowed s c ∧ Counted s c)
    (hnext : Accounting.next c s = .ok s') : Kept (history ++ [(s, c)]) s' := by
  cases c with
  | malloc owner type n => exact kept.malloc hstep.1 hstep.2 hnext
  | free owner ptr => exact kept.free hnext

/-- A call that is allowed returns. -/
theorem Kept.returns {c : Call} (kept : Kept history s) (hallowed : Allowed s c) (hcounted : Counted s c) :
    ∃ s', Accounting.next c s = .ok s' := by
  cases c with
  | malloc owner type n =>
      obtain ⟨⟨r, memory⟩, hcall⟩ := Memory.mallocReal_returns owner type hcounted.1
      simp only [Accounting.next, hcall]
      cases r with
      | none => exact ⟨_, rfl⟩
      | some ptr => exact ⟨_, rfl⟩
  | free owner ptr =>
      cases ptr with
      | none => exact ⟨_, rfl⟩
      | some p =>
          obtain ⟨_, _, _, _, _, _, _, hnext⟩ := next_free owner kept.bufs (hallowed p rfl)
          exact ⟨_, hnext⟩

end

theorem Fresh.kept {s : Books} (fresh : Fresh s) : Kept [] s := by
  obtain ⟨hstats, hbufs, hout⟩ := fresh
  have hfigure (mod : Nafmodule) (k : Kind) : s.memory.figure mod k = .zero := by
    rw [Memory.figure, hstats]
    rfl
  have houtstanding (mod : Nafmodule) (k : Kind) : outstanding mod k s = [] := by
    rw [outstanding, hout]
    rfl
  refine ⟨?_, ?_, ?_, ?_, ?_, fun mod k => ⟨?_, ?_, ?_⟩⟩
  · rw [hbufs, hout]
    rfl
  · rw [hout]
    exact fun _ ho => nomatch ho
  · rw [hout]
    exact fun _ _ _ ho => nomatch ho
  · rw [hout]
    decide
  · rw [hout]
    decide
  · rw [hfigure, houtstanding]
    rfl
  · rw [hfigure, houtstanding]
    rfl
  · refine ⟨fun t ht => ?_, s, .head _, ?_⟩
    · dsimp only
      rw [List.mem_singleton.1 ht, hfigure]
      exact Nat.le_refl 0
    · dsimp only
      rw [hfigure]
      rfl

/-- The figures of every module are balanced after any calls, and each next one returns, when figures could
be made for the modules and sizes and types of the buffers fit their headers. -/
theorem memory_balanced {history : List (Books × Call)} {s : Books} (hrun : Run next Fresh history s)
    (hallowed : ∀ p ∈ history, Allowed p.1 p.2) (hcounted : ∀ p ∈ history, Counted p.1 p.2) :
    (∀ mod k, Balanced history s mod k) ∧ ∀ c, Allowed s c → Counted s c → ∃ s', next c s = .ok s' := by
  have kept : Kept history s := hrun.invariant_history (fun p hp => ⟨hallowed p hp, hcounted p hp⟩)
    (fun _ fresh => fresh.kept) fun _ _ _ _ _ kept hstep hnext => kept.next hstep hnext
  exact ⟨kept.balanced, fun c => kept.returns⟩

/-- Modules for the runs here. -/
def probe : Nafmodule := ⟨lit "core"⟩

def client : Nafmodule := ⟨lit "timps-oscar"⟩

/-- Books without an entry, and the answers that the allocator will give. -/
def blank (refuse : List Bool) : Books := ⟨⟨fun _ => none, [], 1, { Heap.zeroed with refuse }⟩, []⟩

theorem blank_fresh (refuse : List Bool) : Fresh (blank refuse) := ⟨fun _ => rfl, rfl, rfl⟩

instance (s : Books) : (c : Call) → Decidable (Allowed s c)
  | .malloc _ _ _ => inferInstanceAs (Decidable (_ ∧ _))
  | .free _ none => .isTrue fun _ h => nomatch h
  | .free _ (some p) => decidable_of_iff ((s.out.any fun o => o.ptr = p) = true)
      ⟨fun h _ hq => Option.some.inj hq ▸ h, fun h => h p rfl⟩

instance (type : Int32) : Decidable (∀ k : Kind, k.covers (Memory.hdrtype type) = k.covers type.toInt) :=
  decidable_of_iff _ Kind.forall_iff.symm

instance (s : Books) : (c : Call) → Decidable (Counted s c)
  | .malloc none _ _ => decidable_of_iff (_ ∨ _) ⟨fun h => ⟨h, fun _ h => nomatch h⟩, And.left⟩
  | .malloc (some m) type _ =>
      decidable_of_iff ((_ ∨ _) ∧ ((s.memory.memorystats m).isSome = true ∨ s.memory.heap.unwilling = false ∨
          s.memory.heap.next.unwilling = true) ∧ ∀ k : Kind, k.covers (Memory.hdrtype type) = k.covers type.toInt)
        ⟨fun h => ⟨h.1, fun _ hm => Option.some.inj hm ▸ h.2⟩, fun h => ⟨h.1, h.2 m rfl⟩⟩
  | .free _ _ => inferInstanceAs (Decidable True)

/-- Two modules allocate, and the second one frees the buffer of the first: it is taken off its owner. -/
theorem memory_balanced_two : ∃ history s, Run next Fresh history s ∧
    history.map Prod.snd =
      [.malloc (some probe) 0 10, .malloc (some client) 1 20, .free (some client) (some 1)] ∧
    (s.memory.figure probe .generic).current = 0 ∧ (s.memory.figure probe .generic).maximum = 10 ∧
    (s.memory.figure client .netbuf).current = 20 ∧
    (∀ mod k, Balanced history s mod k) ∧ ∀ c, Allowed s c → Counted s c → ∃ s', next c s = .ok s' := by
  have hreach : (replayInputs next
      [.malloc (some probe) 0 10, .malloc (some client) 1 20, .free (some client) (some 1)]
      (blank [])).toOption.any (fun r => (r.1.all fun p => decide (Allowed p.1 p.2 ∧ Counted p.1 p.2)) &&
        decide ((r.2.memory.figure probe .generic).current = 0 ∧ (r.2.memory.figure probe .generic).maximum = 10 ∧
          (r.2.memory.figure client .netbuf).current = 20)) = true := by
    decide +kernel
  obtain ⟨history, s, hrun, hcalls, hq⟩ := Run.exists_of_replay (blank_fresh []) hreach
  rw [Bool.and_eq_true, decide_eq_true_eq, List.all_eq_true] at hq
  obtain ⟨hsteps, hprobe, hmaximum, hclient⟩ := hq
  have hbalanced := memory_balanced hrun (fun p hp => (of_decide_eq_true (hsteps p hp)).1) fun p hp =>
    (of_decide_eq_true (hsteps p hp)).2
  exact ⟨history, s, hrun, hcalls, hprobe, hmaximum, hclient, hbalanced⟩

/-- Figures are refused to a module at first and granted later, and the buffer of the time before is taken
off them; and a request whose length wraps is written outside its buffer. -/
theorem memory_unbalanced : (∃ history s, Run next Fresh history s ∧ (∀ p ∈ history, Allowed p.1 p.2) ∧
      ¬Balanced history s probe .totals) ∧
    Allowed (blank []) (.malloc (some probe) 0 4294967252) ∧
      next (.malloc (some probe) 0 4294967252) (blank []) = .error (.fault .outOfBounds) := by
  have hreach : (replayInputs next
      [.malloc (some probe) 0 10, .malloc (some probe) 0 20, .free (some probe) (some 1)]
      (blank [true])).toOption.any (fun r => (r.1.all fun p => decide (Allowed p.1 p.2)) &&
        decide ((r.2.memory.figure probe .totals).regions = 0 ∧
          (outstanding probe .totals r.2).length = 1)) = true := by
    decide +kernel
  obtain ⟨history, s, hrun, -, hq⟩ := Run.exists_of_replay (blank_fresh [true]) hreach
  rw [Bool.and_eq_true, decide_eq_true_eq, List.all_eq_true] at hq
  obtain ⟨hallowed, hregions, hlength⟩ := hq
  refine ⟨⟨history, s, hrun, fun p hp => of_decide_eq_true (hallowed p hp), fun balanced => ?_⟩, by decide, rfl⟩
  have hcount := balanced.regions
  rw [hregions, hlength] at hcount
  cases hcount

end Accounting

end Timps.Naf
