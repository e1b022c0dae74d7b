-- SUMMARY: Pools whose users give back only what they have: which blocks are out, and which comes next.
import Mathlib.Data.List.Nodup
import Timps.Base.Run
import Timps.Naf.Flmp

/-!
# Use of a memory pool

The users of a pool take blocks, and give back only blocks that are out. The invariant of such
runs is that the bits of the map are the blocks that are out.
-/

namespace Timps.Naf

open Bitmap (FirstClear)

namespace Flmp

/-! ## Users of a pool -/

/-- What the users of a pool have of it: the addresses they got and did not give back. -/
structure Pool where
  flmp : Flmp
  heap : Heap
  out : List Nat

inductive Call where
  | blkalloc
  | blkfree (block : Nat)

inductive Stop where
  | fault (e : Fault)
  | abort
  /-- a block is given back that is not outstanding -/
  | misuse

def Pool.next : Call → Pool → Except Stop Pool
  | .blkalloc, s =>
      match s.flmp.blkalloc s.heap with
      | .error e => .error (.fault e)
      | .ok ((.abort, _), _) => .error .abort
      | .ok ((.ret none, flmp), heap) => .ok { flmp, heap, out := s.out }
      | .ok ((.ret (some b), flmp), heap) => .ok { flmp, heap, out := b :: s.out }
  | .blkfree b, s =>
      if b ∈ s.out then
        match s.flmp.blkfree b s.heap with
        | .error e => .error (.fault e)
        | .ok ((.abort, _), _) => .error .abort
        | .ok ((.ret (), flmp), heap) => .ok { flmp, heap, out := s.out.erase b }
      else .error .misuse

/-- A pool right after it was made. -/
def Pool.Made (mmap : Nat → UInt64) (blklen blkcount : Int32) (s : Pool) : Prop :=
  (∃ h, alloc mmap blklen blkcount h = .ok (some s.flmp, s.heap)) ∧ s.out = []

/-- The block at `b` and the block at `b'` have no byte in common. -/
def Apart (flmp : Flmp) (b b' : Nat) : Prop := b + flmp.blklen ≤ b' ∨ b' + flmp.blklen ≤ b

/-- The pool serves its users. -/
structure Pool.Disciplined (s : Pool) : Prop where
  disjoint : s.out.Pairwise s.flmp.Apart
  aligned : ∀ b ∈ s.out, s.flmp.blklen ∣ b - s.flmp.region
  inside : ∀ b ∈ s.out, s.flmp.region ≤ b ∧ b + s.flmp.blklen ≤ s.flmp.region + s.flmp.regionlen
  marked : ∀ n < s.flmp.blkcount, s.flmp.used n = true ↔ s.flmp.region + n * s.flmp.blklen ∈ s.out
  full : (∃ flmp' h', s.flmp.blkalloc s.heap = .ok ((.ret none, flmp'), h')) ↔
    ∀ n < s.flmp.blkcount, s.flmp.region + n * s.flmp.blklen ∈ s.out
  lowest : ∀ b flmp' h', s.flmp.blkalloc s.heap = .ok ((.ret (some b), flmp'), h') →
    ∃ n < s.flmp.blkcount, b = s.flmp.region + n * s.flmp.blklen ∧ b ∉ s.out ∧
      ∀ m < n, s.flmp.region + m * s.flmp.blklen ∈ s.out
  serves : ∀ c, (∀ b, c = .blkfree b → b ∈ s.out) → ∃ s', s.next c = .ok s'

theorem outstanding_mark {flmp : Flmp} {n : Nat} (hn : n < flmp.blkcount) (b : Nat) :
    (flmp.mark n).Outstanding b ↔ b = flmp.addr n ∨ flmp.Outstanding b := by
  constructor
  · rintro ⟨m, hm, hused, rfl⟩
    rw [used_mark, Bool.or_eq_true, decide_eq_true_eq] at hused
    rcases hused with rfl | hused
    · exact .inl rfl
    · exact .inr ⟨m, hm, hused, rfl⟩
  · rintro (rfl | ⟨m, hm, hused, rfl⟩)
    · exact ⟨n, hn, by rw [used_mark, decide_eq_true rfl, Bool.true_or], rfl⟩
    · exact ⟨m, hm, by rw [used_mark, hused, Bool.or_true], rfl⟩

theorem outstanding_unmark {flmp : Flmp} (wf : flmp.Wf) {n : Nat} (hn : n < flmp.blkcount)
    (hset : flmp.used n = true) (b : Nat) :
    (flmp.unmark n).Outstanding b ↔ b ≠ flmp.addr n ∧ flmp.Outstanding b := by
  constructor
  · rintro ⟨m, hm, hused, rfl⟩
    have hne : m ≠ n := by
      rintro rfl
      rw [used_unmark, hset, decide_eq_true rfl] at hused
      cases hused
    rw [used_unmark, decide_eq_false hne, Bool.false_xor] at hused
    exact ⟨fun haddr => hne (wf.addr_inj hm hn haddr), m, hm, hused, rfl⟩
  · rintro ⟨hne, m, hm, hused, rfl⟩
    have hmn : m ≠ n := fun heq => hne (congrArg _ heq)
    exact ⟨m, hm, by rw [used_unmark, decide_eq_false hmn, Bool.false_xor, hused], rfl⟩

/-- The region is in the address space, and the blocks whose bits are set are those that are out. -/
structure Pool.Kept (s : Pool) : Prop where
  wf : s.flmp.Wf
  positive : 0 < s.flmp.region
  fits : s.flmp.region + s.flmp.regionlen ≤ 2 ^ 64
  nodup : s.out.Nodup
  outstanding : ∀ b, b ∈ s.out ↔ s.flmp.Outstanding b

namespace Pool.Kept

variable {s : Pool}

theorem addr_eq (kept : s.Kept) {n : Nat} (hn : n < s.flmp.blkcount) :
    s.flmp.addr n = s.flmp.region + n * s.flmp.blklen := by
  have hend := kept.wf.end_le hn
  have hblklen := kept.wf.blklen
  have hfits := kept.fits
  exact Nat.mod_eq_of_lt (by omega)

/-- A bit is set if and only if its block is out. -/
theorem used_iff (kept : s.Kept) {n : Nat} (hn : n < s.flmp.blkcount) :
    s.flmp.used n = true ↔ s.flmp.addr n ∈ s.out := by
  rw [kept.outstanding]
  constructor
  · exact fun hused => ⟨n, hn, hused, rfl⟩
  · rintro ⟨m, hm, hused, haddr⟩
    rw [kept.wf.addr_inj hn hm haddr]
    exact hused

/-- A block is given away, if one is left. -/
theorem next_blkalloc (kept : s.Kept) :
    s.next .blkalloc = .ok s ∨ ∃ n < s.flmp.blkcount, FirstClear s.flmp.allocmap.byte n ∧
      s.next .blkalloc = .ok { s with flmp := s.flmp.mark n, out := s.flmp.addr n :: s.out } := by
  rcases blkalloc_cases kept.wf s.heap with ⟨hcall, -⟩ | ⟨n, hn, hfirst, hcall⟩
  · refine .inl ?_
    simp only [next, hcall]
  · refine .inr ⟨n, hn, hfirst, ?_⟩
    simp only [next, hcall]

/-- A block that is out is taken back. -/
theorem next_blkfree (kept : s.Kept) {b : Nat} (hb : b ∈ s.out) :
    ∃ n < s.flmp.blkcount, s.flmp.used n = true ∧ b = s.flmp.addr n ∧
      s.next (.blkfree b) = .ok { s with flmp := s.flmp.unmark n, out := s.out.erase b } := by
  obtain ⟨n, hn, hused, rfl⟩ := (kept.outstanding b).1 hb
  refine ⟨n, hn, hused, rfl, ?_⟩
  have hpositive := kept.positive
  have haddr := kept.addr_eq hn
  have hnum : (s.flmp.addr n - s.flmp.region) / s.flmp.blklen = n := by
    rw [haddr, Nat.add_sub_cancel_left, Nat.mul_div_cancel _ kept.wf.blklen]
  have hcall := blkfree_inside (p := s.flmp.addr n) kept.wf (by omega) (by omega) (by rw [hnum]; exact hn) s.heap
  rw [hnum, hused, if_pos rfl] at hcall
  simp only [next, if_pos hb, hcall]

theorem next {s' : Pool} {c : Call} (kept : s.Kept) (hnext : s.next c = .ok s') : s'.Kept := by
  cases c with
  | blkalloc =>
      rcases kept.next_blkalloc with heq | ⟨n, hn, hfirst, heq⟩
      · cases heq.symm.trans hnext
        exact kept
      · cases heq.symm.trans hnext
        have hfree : s.flmp.addr n ∉ s.out := by
          rw [← kept.used_iff hn, used, hfirst.clear]
          exact Bool.false_ne_true
        refine ⟨kept.wf.mark n, kept.positive, kept.fits, List.nodup_cons.2 ⟨hfree, kept.nodup⟩, fun b => ?_⟩
        rw [outstanding_mark hn, List.mem_cons, kept.outstanding]
  | blkfree b =>
      by_cases hb : b ∈ s.out
      · obtain ⟨n, hn, hused, rfl, heq⟩ := kept.next_blkfree hb
        cases heq.symm.trans hnext
        refine ⟨kept.wf.unmark n, kept.positive, kept.fits, kept.nodup.erase _, fun b => ?_⟩
        rw [outstanding_unmark kept.wf hn hused, kept.nodup.mem_erase_iff, kept.outstanding]
      · simp only [Pool.next, if_neg hb] at hnext
        cases hnext

/-- Blocks that are out do not overlap. -/
theorem disjoint (kept : s.Kept) : s.out.Pairwise s.flmp.Apart := by
  refine List.Nodup.pairwise_of_forall_ne kept.nodup fun b hb b' hb' hne => ?_
  obtain ⟨n, hn, -, rfl⟩ := (kept.outstanding b).1 hb
  obtain ⟨m, hm, -, rfl⟩ := (kept.outstanding b').1 hb'
  rw [Apart, kept.addr_eq hn, kept.addr_eq hm, Nat.add_assoc, Nat.add_assoc, ← Nat.succ_mul, ← Nat.succ_mul]
  rcases Nat.lt_trichotomy n m with hlt | rfl | hgt
  · exact .inl (Nat.add_le_add_left (Nat.mul_le_mul_right _ hlt) _)
  · exact absurd rfl hne
  · exact .inr (Nat.add_le_add_left (Nat.mul_le_mul_right _ hgt) _)

theorem disciplined (kept : s.Kept) : s.Disciplined where
  disjoint := kept.disjoint
  aligned := by
    intro b hb
    obtain ⟨n, hn, -, rfl⟩ := (kept.outstanding b).1 hb
    rw [kept.addr_eq hn, Nat.add_sub_cancel_left]
    exact Nat.dvd_mul_left _ _
  inside := by
    intro b hb
    obtain ⟨n, hn, -, rfl⟩ := (kept.outstanding b).1 hb
    have hend := kept.wf.end_le hn
    rw [kept.addr_eq hn]
    omega
  marked := by
    intro n hn
    rw [kept.used_iff hn, kept.addr_eq hn]
  full := by
    constructor
    · rintro ⟨flmp', h', hcall⟩ n hn
      rw [← kept.addr_eq hn, ← kept.used_iff hn]
      -- a call that finds nothing has seen every block in use
      rcases blkalloc_cases kept.wf s.heap with ⟨-, hfull⟩ | ⟨m, -, -, hgiven⟩
      · exact hfull n hn
      · cases hgiven.symm.trans hcall
    · intro hout
      rcases blkalloc_cases kept.wf s.heap with ⟨hcall, -⟩ | ⟨m, hm, hfirst, -⟩
      · exact ⟨_, _, hcall⟩
      · have hused := hout m hm
        rw [← kept.addr_eq hm, ← kept.used_iff hm, used, hfirst.clear] at hused
        cases hused
  lowest := by
    intro b flmp' h' hcall
    rcases blkalloc_cases kept.wf s.heap with ⟨hnone, -⟩ | ⟨n, hn, hfirst, hgiven⟩
    · cases hnone.symm.trans hcall
    · cases hgiven.symm.trans hcall
      refine ⟨n, hn, kept.addr_eq hn, ?_, fun m hm => ?_⟩
      · rw [← kept.used_iff hn, used, hfirst.clear]
        exact Bool.false_ne_true
      · have hlt := Nat.lt_trans hm hn
        rw [← kept.addr_eq hlt, ← kept.used_iff hlt]
        exact hfirst.set m hm
  serves := by
    intro c hc
    cases c with
    | blkalloc =>
        rcases kept.next_blkalloc with heq | ⟨n, -, -, heq⟩
        · exact ⟨_, heq⟩
        · exact ⟨_, heq⟩
    | blkfree b =>
        obtain ⟨n, -, -, -, heq⟩ := kept.next_blkfree (hc b rfl)
        exact ⟨_, heq⟩

end Pool.Kept

/-- A pool over a mapping starts with nothing given away. -/
theorem Pool.Made.kept {mmap : Nat → UInt64} {blklen blkcount : Int32} {s : Pool}
    (hmade : s.Made mmap blklen blkcount)
    (hos : ∀ len, mmap len ≠ mapFailed → (mmap len).toNat + len ≤ 2 ^ 64)
    (hgranted : mmap (blklen.toNatClampNeg * blkcount.toNatClampNeg) ≠ mapFailed) : s.Kept := by
  obtain ⟨⟨h, hmade⟩, hout⟩ := hmade
  have fresh := alloc_fresh hmade
  refine ⟨fresh.wf, fresh.positive, ?_, ?_, fun b => ?_⟩
  · rw [fresh.region, fresh.regionlen]
    exact hos _ hgranted
  · rw [hout]
    exact .nil
  · rw [hout]
    refine iff_of_false List.not_mem_nil ?_
    rintro ⟨n, hn, hused, -⟩
    rw [fresh.clear n hn] at hused
    cases hused

theorem mapped_fits (len : Nat) (hmapped : mapped len ≠ mapFailed) : (mapped len).toNat + len ≤ 2 ^ 64 := by
  unfold mapped at hmapped ⊢
  split
  · rw [show (4096 : UInt64).toNat = 4096 from rfl]
    omega
  · rename_i hlong
    rw [if_neg hlong] at hmapped
    exact absurd rfl hmapped

/-- The state does not survive a call. -/
def Pool.abortsOn (c : Call) (s : Pool) : Bool :=
  match s.next c with
  | .error .abort => true
  | _ => false

/-- The states that some calls lead to, when a pool can be made. -/
def Pool.after (mmap : Nat → UInt64) (blklen blkcount : Int32) (calls : List Call) : Option Pool :=
  (alloc mmap blklen blkcount Heap.zeroed).toOption.bind fun r => r.1.bind fun flmp =>
    (replayInputs Pool.next calls { flmp, heap := r.2, out := [] }).toOption.map (·.2)

/-- What can be computed of such a state holds of a run. -/
theorem Pool.exists_run {mmap : Nat → UInt64} {blklen blkcount : Int32} {calls : List Call} {q : Pool → Bool}
    (hq : (Pool.after mmap blklen blkcount calls).any q = true) :
    ∃ history s, Run Pool.next (Pool.Made mmap blklen blkcount) history s ∧ q s = true := by
  unfold Pool.after at hq
  cases hmade : alloc mmap blklen blkcount Heap.zeroed with
  | error e =>
      rw [hmade] at hq
      cases hq
  | ok r =>
      obtain ⟨flmp, h⟩ := r
      rw [hmade] at hq
      cases flmp with
      | none => cases hq
      | some flmp =>
          have hstart : Pool.Made mmap blklen blkcount { flmp, heap := h, out := [] } := ⟨⟨_, hmade⟩, rfl⟩
          change ((replayInputs Pool.next calls ⟨flmp, h, []⟩).toOption.map (·.2)).any q = true at hq
          rw [Option.any_map] at hq
          obtain ⟨history, s, hrun, -, hs⟩ := Run.exists_of_replay hstart hq
          exact ⟨history, s, hrun, hs⟩

/-- When the region could be mapped, a pool serves its users after any calls in which only blocks that
are out are given back. -/
theorem pool_disciplined {mmap : Nat → UInt64} {blklen blkcount : Int32} {history : List (Pool × Call)} {s : Pool}
    (hos : ∀ len, mmap len ≠ mapFailed → (mmap len).toNat + len ≤ 2 ^ 64)
    (hgranted : mmap (blklen.toNatClampNeg * blkcount.toNatClampNeg) ≠ mapFailed)
    (hrun : Run Pool.next (Pool.Made mmap blklen blkcount) history s) : s.Disciplined :=
  Pool.Kept.disciplined
    (hrun.invariant (fun _ hmade => hmade.kept hos hgranted) fun _ _ _ kept hnext => kept.next hnext)

/-- The first block is given away, then the second, and the first is given back. -/
theorem pool_disciplined_eight : ∃ history s, Run Pool.next (Pool.Made mapped 64 8) history s ∧
    s.out = [4160] ∧ s.Disciplined := by
  have hafter : (Pool.after mapped 64 8 [.blkalloc, .blkalloc, .blkfree 4096]).any
      (fun s => decide (s.out = [4160])) = true := by decide +kernel
  obtain ⟨history, s, hrun, hout⟩ := Pool.exists_run hafter
  exact ⟨history, s, hrun, of_decide_eq_true hout, pool_disciplined mapped_fits (by decide +kernel) hrun⟩

/-- A region that could not be mapped is not noticed, and the second block does not come back. -/
theorem pool_undisciplined : ∃ history s, Run Pool.next (Pool.Made (fun _ => mapFailed) 64 8) history s ∧
    ¬s.Disciplined := by
  have hafter : (Pool.after (fun _ => mapFailed) 64 8 [.blkalloc, .blkalloc]).any
      (fun s => decide (63 ∈ s.out) && s.abortsOn (.blkfree 63)) = true := by decide +kernel
  obtain ⟨history, s, hrun, hq⟩ := Pool.exists_run hafter
  rw [Bool.and_eq_true, decide_eq_true_eq] at hq
  obtain ⟨hout, haborts⟩ := hq
  refine ⟨history, s, hrun, fun disciplined => ?_⟩
  obtain ⟨s', hnext⟩ := disciplined.serves (.blkfree 63) (by rintro b ⟨⟩; exact hout)
  rw [Pool.abortsOn, hnext] at haborts
  cases haborts

end Flmp
end Timps.Naf
