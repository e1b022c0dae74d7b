-- SUMMARY: When the TLV parser returns, how many TLVs it creates, and that the model gives it rounds enough.
import Timps.Naf.Tlv

/-!
# Termination of the TLV parser

Each round consumes its TLV, so the loop ends, except on one kind of input: when one
byte is left behind the complete TLVs (or three, the first two of which become an
empty TLV), neither `get16` moves and the round adds an empty TLV without reading
anything. With memory enough, only the limit stops the loop then.
-/

namespace Timps.Naf.Tlv

/-- One or three bytes are left behind the last complete TLV. -/
inductive Ragged : Bytes → Prop
  | one (a : UInt8) : Ragged [a]
  | three (a b c : UInt8) : Ragged [a, b, c]
  | tlv {a b c d : UInt8} {v rest : Bytes} :
      v.length = byteGet16 c d → Ragged rest → Ragged (a :: b :: c :: d :: (v ++ rest))

/-- The parser returns, with no more TLVs than there were bytes. -/
def Returns (sb : Sbuf) (limit : Int) (h : Heap) : Prop :=
  ∃ fuel tlvs sb' h', parseWithin fuel sb limit h = .ok ((tlvs, sb'), h') ∧
    tlvs.length ≤ sb.rest.length

/-! ## Ragged input -/

theorem next_long (a b c d : UInt8) (v : Bytes) :
    next (a :: b :: c :: d :: v) =
      if byteGet16 c d = 0 then some (⟨byteGet16 a b, 0, none⟩, 4)
      else if byteGet16 c d ≤ v.length then
        some (⟨byteGet16 a b, byteGet16 c d, some (v.take (byteGet16 c d))⟩, 4 + byteGet16 c d)
      else none := rfl

theorem ragged_long {a b c d : UInt8} {v : Bytes} :
    Ragged (a :: b :: c :: d :: v) ↔ byteGet16 c d ≤ v.length ∧ Ragged (v.drop (byteGet16 c d)) := by
  constructor
  · intro h
    cases h with
    | tlv hlen hrest =>
        rw [← hlen, List.drop_left]
        exact ⟨by simp, hrest⟩
  · rintro ⟨hle, hrest⟩
    rw [← List.take_append_drop (byteGet16 c d) v]
    exact .tlv (by rw [List.length_take, Nat.min_eq_left hle]) hrest

/-- A round that creates a TLV leaves ragged what was ragged, and only that. -/
theorem ragged_next {bs : Bytes} {tlv : Tlv} {n : Nat} (hnext : next bs = some (tlv, n)) :
    Ragged bs ↔ Ragged (bs.drop n) := by
  match bs with
  | [] => cases hnext; exact Iff.rfl
  | [a] => cases hnext; exact Iff.rfl
  | [a, b] =>
      cases hnext
      constructor <;> intro h <;> cases h
  | [a, b, c] =>
      cases hnext
      exact ⟨fun _ => .one c, fun _ => .three a b c⟩
  | a :: b :: c :: d :: v =>
      rw [ragged_long]
      rw [next_long] at hnext
      split at hnext
      · rename_i hl
        cases hnext
        simp [hl]
      · split at hnext
        · rename_i hle
          cases hnext
          rw [show 4 + byteGet16 c d = byteGet16 c d + 4 by omega]
          simpa using fun _ => hle
        · cases hnext

/-- Ragged input always has a next TLV. -/
theorem next_of_ragged {bs : Bytes} (hr : Ragged bs) : ∃ tlv n, next bs = some (tlv, n) := by
  cases hr with
  | one a => exact ⟨_, _, rfl⟩
  | three a b c => exact ⟨_, _, rfl⟩
  | tlv hlen _ =>
      rw [next_long]
      split
      · exact ⟨_, _, rfl⟩
      · rw [if_pos (by simp [hlen])]
        exact ⟨_, _, rfl⟩

/-- A round that does not move is on the last byte. -/
theorem length_of_stuck {bs : Bytes} {tlv : Tlv} (hne : bs ≠ []) (hnext : next bs = some (tlv, 0)) :
    bs.length = 1 := by
  match bs with
  | [] => exact absurd rfl hne
  | [_] => rfl
  | [_, _] => cases hnext
  | [_, _, _] => cases hnext
  | a :: b :: c :: d :: v =>
      rw [next_long] at hnext
      split at hnext
      · cases hnext
      · split at hnext
        · simp only [Option.some.injEq, Prod.mk.injEq] at hnext
          omega
        · cases hnext

theorem ragged_of_length_one {bs : Bytes} (hlen : bs.length = 1) : Ragged bs := by
  obtain ⟨a, rfl⟩ := List.length_eq_one_iff.1 hlen
  exact .one a

section

variable {sb : Sbuf} {h : Heap}

theorem ragged_ne_nil (hr : Ragged sb.rest) : sb.rest ≠ [] := by
  intro hnil
  rw [hnil] at hr
  cases hr

/-! ## Where the loop ends -/

/-- Without ragged ends the loop ends and creates no more TLVs than it reads bytes. -/
theorem parseLoop_of_even {len : Nat} (ok : sb.Readable) (hlen : sb.rest.length ≤ len)
    (heven : ¬Ragged sb.rest) (limit : Int) :
    ∃ fuel tlvs sb' h', parseLoop fuel limit sb h = .ok ((tlvs, sb'), h') ∧
      tlvs.length ≤ sb.rest.length := by
  induction len generalizing sb h limit with
  | zero =>
      have hend : sb.rest = [] := List.length_eq_zero_iff.1 (by omega)
      exact ⟨1, [], sb, h, parseLoop_of_end ok hend, Nat.zero_le _⟩
  | succ len ih =>
      by_cases hend : sb.rest = []
      · exact ⟨1, [], sb, h, parseLoop_of_end ok hend, Nat.zero_le _⟩
      rcases parseLoop_round limit h ok hend with
        ⟨sb', h', hstop, -, -⟩ | ⟨tlv, n, h', hnext, ok', -, -, hround⟩
      · exact ⟨1, [], sb', h', hstop 0, Nat.zero_le _⟩
      have hpos : 0 < n := by
        rcases Nat.eq_zero_or_pos n with rfl | hpos
        · exact absurd (ragged_of_length_one (length_of_stuck hend hnext)) heven
        · exact hpos
      have hn := next_le hnext
      have hrest := Sbuf.rest_skip hn
      have hlen' : (sb.skip n).rest.length = sb.rest.length - n := by
        rw [hrest, List.length_drop]
      cases hlim : limitAfter limit with
      | none =>
          refine ⟨1, [tlv], sb.skip n, h', by rw [hround, hlim], ?_⟩
          simp only [List.length_singleton]
          omega
      | some limit' =>
          rw [ragged_next hnext, ← hrest] at heven
          obtain ⟨fuel, tlvs, sb', h'', hloop, hcount⟩ := ih (h := h') ok' (by omega) heven limit'
          refine ⟨fuel + 1, tlv :: tlvs, sb', h'', by rw [hround, hlim]; simp only [hloop], ?_⟩
          simp only [List.length_cons]
          omega

/-- A positive limit always ends the loop, at so many TLVs at the latest. -/
theorem parseLoop_of_limit (ok : sb.Readable) (limit : Nat) (hpos : 0 < limit) :
    ∃ fuel tlvs sb' h', parseLoop fuel limit sb h = .ok ((tlvs, sb'), h') ∧
      tlvs.length ≤ limit := by
  induction limit generalizing sb h with
  | zero => omega
  | succ limit ih =>
      by_cases hend : sb.rest = []
      · exact ⟨1, [], sb, h, parseLoop_of_end ok hend, Nat.zero_le _⟩
      rcases parseLoop_round ((limit + 1 : Nat) : Int) h ok hend with
        ⟨sb', h', hstop, -, -⟩ | ⟨tlv, n, h', hnext, ok', -, -, hround⟩
      · exact ⟨1, [], sb', h', hstop 0, Nat.zero_le _⟩
      by_cases hlast : limit = 0
      · subst hlast
        exact ⟨1, [tlv], sb.skip n, h', by rw [hround]; rfl, by simp⟩
      · have hlim : limitAfter ((limit + 1 : Nat) : Int) = some (limit : Int) := by
          simp only [limitAfter]
          rw [if_neg (by omega), if_pos (by omega)]
          congr 1
          omega
        obtain ⟨fuel, tlvs, sb', h'', hloop, hcount⟩ := ih (h := h') ok' (by omega)
        refine ⟨fuel + 1, tlv :: tlvs, sb', h'', by rw [hround, hlim]; simp only [hloop], ?_⟩
        simp only [List.length_cons]
        omega

/-- On ragged input, and with memory for every TLV, only the limit ends the loop. -/
theorem parseLoop_of_ragged {fuel : Nat} {limit : Int} {tlvs : List Tlv} {sb' : Sbuf} {h' : Heap}
    (ok : sb.Readable) (hr : Ragged sb.rest) (hwilling : h.refuse = []) (hlimit : limit = -1 ∨ 0 < limit)
    (hloop : parseLoop fuel limit sb h = .ok ((tlvs, sb'), h')) :
    limit = (tlvs.length : Int) := by
  induction fuel generalizing sb limit tlvs with
  | zero => cases hloop
  | succ fuel ih =>
      rcases parseLoop_round limit h ok (ragged_ne_nil hr) with
        ⟨sb', h', -, -, hnone⟩ | ⟨tlv, n, h₁, hnext, ok', -, hh, hround⟩
      · obtain ⟨tlv, n, hsome⟩ := next_of_ragged hr
        rw [(hnone hwilling).2] at hsome
        cases hsome
      obtain rfl := hh hwilling
      have hr' : Ragged (sb.skip n).rest := by
        rw [Sbuf.rest_skip (next_le hnext), ← ragged_next hnext]
        exact hr
      rw [hround] at hloop
      simp only [limitAfter] at hloop
      split at hloop
      · rename_i hlim
        split at hlim
        · cases hloop
          simp only [List.length_singleton]
          omega
        · cases hlim
      · rename_i limit' hlim
        split at hlim
        · cases hlim
        · cases hlim
          split at hloop
          · rename_i tlvs' sb'' h'' hrest
            cases hloop
            have := ih ok' hr' (by split <;> omega) hrest
            simp only [List.length_cons]
            split at this <;> omega
          · cases hloop

end

/-- The parser returns for every allocator, with no more TLVs than bytes, if and only
if the limit is not above the number of bytes or the bytes are not ragged. -/
theorem returns_iff {sb : Sbuf} {limit : Int} (ok : sb.Ok) (hlimit : -1 ≤ limit) :
    (∀ h, Returns sb limit h) ↔
      (0 ≤ limit ∧ limit ≤ sb.rest.length) ∨ ¬Ragged sb.rest := by
  constructor
  · intro hall
    by_cases hr : Ragged sb.rest
    · left
      obtain ⟨fuel, tlvs, sb', h', hparse, hcount⟩ := hall Heap.zeroed
      by_cases hzero : limit = 0
      · omega
      · rw [parseWithin, if_neg hzero] at hparse
        have := parseLoop_of_ragged ok.readable hr rfl (by omega) hparse
        omega
    · exact .inr hr
  · intro hcond h
    by_cases hzero : limit = 0
    · exact ⟨0, [], sb, h, by rw [parseWithin, if_pos hzero]; rfl, Nat.zero_le _⟩
    rcases hcond with ⟨hpos, hle⟩ | heven
    · obtain ⟨n, rfl⟩ := Int.eq_ofNat_of_zero_le hpos
      obtain ⟨fuel, tlvs, sb', h', hloop, hcount⟩ := parseLoop_of_limit (h := h) ok.readable n (by omega)
      exact ⟨fuel, tlvs, sb', h', by rw [parseWithin, if_neg hzero]; exact hloop, by omega⟩
    · obtain ⟨fuel, tlvs, sb', h', hloop, hcount⟩ :=
        parseLoop_of_even (h := h) ok.readable (Nat.le_refl _) heven limit
      exact ⟨fuel, tlvs, sb', h', by rw [parseWithin, if_neg hzero]; exact hloop, hcount⟩

/-- A buffer of one zero byte. -/
def single : Sbuf :=
  { autoresize := false, freebuf := false, block := ⟨1, fun _ => 0⟩, buflen := 1, pos := 0 }

theorem single_ok : single.Ok := ⟨rfl, by decide, by decide⟩

theorem returns_iff_single : Returns single 1 Heap.zeroed :=
  (returns_iff single_ok (by decide)).2 (.inl ⟨by decide, by decide⟩) Heap.zeroed

/-- A lone byte and no limit: the parser never returns when memory lasts. -/
theorem single_never_returns : single.Ok ∧ ¬Returns single (-1) Heap.zeroed := by
  refine ⟨single_ok, ?_⟩
  rintro ⟨fuel, tlvs, sb', h', hparse, -⟩
  have hcount := parseLoop_of_ragged single_ok.readable (.one 0) rfl (.inl rfl) hparse
  omega

/-! ## Rounds enough -/

private theorem parseLoop_enough {fuel fuel' : Nat} {limit : Int} {sb : Sbuf} {h : Heap}
    {r : (List Tlv × Sbuf) × Heap} (ok : sb.Readable) (hlimit : limit = -1 ∨ 0 < limit)
    (hfuel : sb.rest.length + limit.toNat + h.refuse.length < fuel')
    (hloop : parseLoop fuel limit sb h = .ok r) : parseLoop fuel' limit sb h = .ok r := by
  induction fuel generalizing fuel' limit sb h r with
  | zero => cases hloop
  | succ fuel ih =>
      obtain ⟨fuel', rfl⟩ : ∃ k, fuel' = k + 1 := ⟨fuel' - 1, by omega⟩
      by_cases hend : sb.rest = []
      · rw [parseLoop_of_end ok hend] at hloop ⊢
        exact hloop
      rcases parseLoop_round limit h ok hend with
        ⟨sb', h', hstop, -, -⟩ | ⟨tlv, n, h', hnext, ok', hrefuse, hwilling, hround⟩
      · rw [hstop] at hloop ⊢
        exact hloop
      rw [hround] at hloop ⊢
      cases hlim : limitAfter limit with
      | none => rwa [hlim] at hloop
      | some limit' =>
          rw [hlim] at hloop
          dsimp only at hloop ⊢
          cases hrest : parseLoop fuel limit' (sb.skip n) h' with
          | error e =>
              rw [hrest] at hloop
              cases hloop
          | ok r' =>
              have hn := next_le hnext
              have hlen : (sb.skip n).rest.length = sb.rest.length - n := by
                rw [Sbuf.rest_skip hn, List.length_drop]
              have hlimit' : limit' = -1 ∧ limit = -1 ∨ 0 < limit' ∧ limit' = limit - 1 := by
                simp only [limitAfter] at hlim
                split at hlim
                · cases hlim
                · cases hlim
                  split <;> omega
              have hless : (sb.skip n).rest.length + limit'.toNat + h'.refuse.length < fuel' := by
                rcases hlimit' with ⟨h₁, h₂⟩ | ⟨h₁, h₂⟩
                · -- no limit: the round read something or used an answer of the allocator
                  by_cases hzero : n = 0
                  · subst hzero
                    have hlong := length_of_stuck hend hnext
                    by_cases hempty : h.refuse = []
                    · obtain rfl := hwilling hempty
                      have hcount := parseLoop_of_ragged ok' (ragged_of_length_one (by omega))
                        hempty (.inl h₁) hrest
                      omega
                    · have := List.length_pos_iff.2 hempty
                      omega
                  · have := List.length_pos_iff.2 hend
                    omega
                · omega
              rw [ih ok' (by omega) hless hrest]
              rwa [hrest] at hloop

/-- `parseLimit` gives the loop rounds enough: it returns what the loop returns. -/
theorem parseLimit_of_within {fuel : Nat} {limit : Int} {sb : Sbuf} {h : Heap}
    {r : (List Tlv × Sbuf) × Heap} (ok : sb.Readable) (hlimit : -1 ≤ limit)
    (hparse : parseWithin fuel sb limit h = .ok r) : parseLimit sb limit h = .ok r := by
  simp only [parseLimit, parseWithin] at hparse ⊢
  split at hparse
  · rename_i hzero
    rwa [if_pos hzero]
  · rename_i hzero
    rw [if_neg hzero]
    refine parseLoop_enough ok (by omega) ?_ hparse
    have hrem : sb.bytesremaining.toNat = sb.rest.length := by
      rw [ok.bytesremaining, Sbuf.length_rest, Int.toNat_natCast]
    simp only [rounds, hrem]
    omega

end Timps.Naf.Tlv
