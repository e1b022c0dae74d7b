-- SUMMARY: Bytes that end in the middle of a TLV: what the parser makes of them, and when it invents nothing.
import Timps.Naf.Chain

/-!
# Torn input

A value that is cut off ends the parser's loop. A type or a length word that is cut
off does not: the getter gives 0, and the loop adds a TLV without a value, which the
bytes do not hold. Whether it comes so far depends on the allocator as well.
-/

namespace Timps.Naf

/-- The next `n` allocations are granted. -/
def Heap.Grants (n : Nat) (h : Heap) : Prop := ∀ refused ∈ h.refuse.take n, refused = false

instance (n : Nat) (h : Heap) : Decidable (h.Grants n) := inferInstanceAs (Decidable (∀ _ ∈ _, _))

/-- The state after `n` allocations. -/
def Heap.later (n : Nat) (h : Heap) : Heap := { h with refuse := h.refuse.drop n }

theorem Heap.grants_one (h : Heap) : h.Grants 1 ↔ h.unwilling = false := by
  obtain ⟨refuse, junk⟩ := h
  cases refuse with
  | nil => simp [Grants, unwilling]
  | cons refused refuse => cases refused <;> simp [Grants, unwilling]

theorem Heap.grants_add (n m : Nat) (h : Heap) :
    h.Grants (n + m) ↔ h.Grants n ∧ (h.later n).Grants m := by
  simp only [Grants, later, List.take_add, List.forall_mem_append]

theorem Heap.later_one (h : Heap) : h.later 1 = h.next := by
  simp [later, next]

theorem Heap.later_two (h : Heap) : h.later 2 = h.next.next := by
  simp only [later, next, ← List.drop_one, List.drop_drop]

theorem Heap.grants_two (h : Heap) :
    h.Grants 2 ↔ h.unwilling = false ∧ h.next.unwilling = false := by
  rw [← grants_one, ← grants_one, ← later_one]
  exact grants_add 1 1 h

namespace Tlv

open Prog (bind_of_ok)

/-- What a TLV takes of the allocator: itself, and the value when there is one. -/
def allocations (length : Nat) : Nat := if length = 0 then 1 else 2

/-- Behind complete TLVs the bytes end inside a type or a length word. `n` allocations
make the complete TLVs, and one more of what is left behind them. -/
inductive Torn : Bytes → Nat → Prop
  | word {bs : Bytes} : bs ≠ [] → bs.length < 4 → Torn bs 1
  | tlv {a b c d : UInt8} {v rest : Bytes} {n : Nat} :
      v.length = byteGet16 c d → Torn rest n →
        Torn (a :: b :: c :: d :: (v ++ rest)) (allocations v.length + n)

/-! ## One round, exactly -/

section

variable {sb : Sbuf} {h : Heap} {tlv : Tlv} {n : Nat}

/-- A round that finds a TLV and is granted its memory. -/
theorem parseOne_granted (ok : sb.Readable) (hnext : next sb.rest = some (tlv, n))
    (hgrants : h.Grants (allocations tlv.length)) :
    parseOne sb h = .ok ((some tlv, sb.skip n), h.later (allocations tlv.length)) := by
  obtain ⟨t, l, m, okm, hrest, hwords, hone⟩ := parseOne_words h ok
  rw [hone]
  rw [hwords] at hnext
  by_cases hl : l = 0
  · rw [if_pos hl] at hnext ⊢
    cases hnext
    rw [allocations, if_pos rfl, Heap.grants_one] at hgrants
    rw [bind_of_ok new_eq, hgrants, allocations, if_pos rfl, Heap.later_one, hl]
    rfl
  · rw [if_neg hl] at hnext ⊢
    split at hnext
    · rename_i hlen
      cases hnext
      rw [allocations, if_neg hl, Heap.grants_two] at hgrants
      have hraw := Sbuf.getraw_rest (n := l) (h := h) okm
      rw [hrest, hgrants.1, if_neg (by decide), if_pos hlen] at hraw
      rw [bind_of_ok hraw]
      dsimp only
      rw [bind_of_ok new_eq, hgrants.2, allocations, if_neg hl, Heap.later_two]
      simp [Sbuf.skip, Nat.add_assoc, Prog.pure_run]
    · cases hnext

/-- A round without memory, or with a value that is cut off, ends the loop. -/
theorem parseOne_refused (ok : sb.Readable)
    (hnot : ∀ tlv n, next sb.rest = some (tlv, n) → ¬h.Grants (allocations tlv.length)) :
    ∃ sb' h', parseOne sb h = .ok ((none, sb'), h') := by
  obtain ⟨t, l, m, okm, hrest, hwords, hone⟩ := parseOne_words h ok
  rw [hone]
  rw [hwords] at hnot
  by_cases hl : l = 0
  · rw [if_pos hl] at hnot ⊢
    have hun := hnot _ _ rfl
    rw [allocations, if_pos rfl, Heap.grants_one, Bool.not_eq_false] at hun
    rw [bind_of_ok new_eq, hun]
    exact ⟨_, _, rfl⟩
  · rw [if_neg hl] at hnot ⊢
    have hraw := Sbuf.getraw_rest (n := l) (h := h) okm
    rw [hrest] at hraw
    cases hun : h.unwilling with
    | true =>
        rw [hun, if_pos rfl] at hraw
        rw [bind_of_ok hraw]
        exact ⟨_, _, rfl⟩
    | false =>
        rw [hun, if_neg (by decide)] at hraw
        by_cases hlen : l ≤ (sb.rest.drop m).length
        · rw [if_pos hlen] at hraw hnot
          have hun' := hnot _ _ rfl
          rw [allocations, if_neg hl, Heap.grants_two, not_and, Bool.not_eq_false] at hun'
          rw [bind_of_ok hraw]
          dsimp only
          rw [bind_of_ok new_eq, hun' hun]
          exact ⟨_, _, rfl⟩
        · rw [if_neg hlen] at hraw
          rw [bind_of_ok hraw]
          exact ⟨_, _, rfl⟩

end

/-! ## What is complete and what is torn -/

section

variable {bs : Bytes} {tlv : Tlv} {n k : Nat}

/-- Less than two words are left, but not nothing: the round makes a TLV without a value. -/
theorem next_of_short (hne : bs ≠ []) (hshort : bs.length < 4) :
    ∃ t n, next bs = some (⟨t, 0, none⟩, n) := by
  match bs with
  | [] => exact absurd rfl hne
  | [_] => exact ⟨_, _, rfl⟩
  | [_, _] => exact ⟨_, _, rfl⟩
  | [_, _, _] => exact ⟨_, _, rfl⟩
  | _ :: _ :: _ :: _ :: v =>
      simp only [List.length_cons] at hshort
      omega

/-- Where both words are there, the round takes the encoding of the TLV that it makes. -/
theorem next_of_long (hlong : ¬bs.length < 4) (hnext : next bs = some (tlv, n)) :
    bs = encodeOne tlv ++ bs.drop n := by
  match bs with
  | a :: b :: c :: d :: v =>
      rw [next_long] at hnext
      split at hnext
      · rename_i hzero
        cases hnext
        have hlength : bytePut16 0 = [c, d] := by rw [← hzero, bytePut16_byteGet16]
        simp [encodeOne, bytePut16_byteGet16, hlength]
      · split at hnext
        · cases hnext
          rw [Nat.add_comm 4]
          simp [encodeOne, bytePut16_byteGet16]
        · cases hnext
  | [] | [_] | [_, _] | [_, _, _] => simp at hlong

/-- Torn bytes always have a next TLV. -/
theorem next_of_torn (htorn : Torn bs k) :
    ∃ tlv n m, next bs = some (tlv, n) ∧ k = allocations tlv.length + m := by
  cases htorn with
  | word hne hshort =>
      obtain ⟨t, n, hnext⟩ := next_of_short hne hshort
      exact ⟨_, n, 0, hnext, rfl⟩
  | @tlv a b c d v rest m hlen hrest =>
      rw [next_long, ← hlen]
      by_cases hzero : v.length = 0
      · rw [if_pos hzero]
        exact ⟨_, _, m, rfl, by rw [hzero]⟩
      · rw [if_neg hzero, if_pos (by simp)]
        exact ⟨_, _, m, rfl, rfl⟩

/-- Behind a complete TLV the bytes are torn as before. -/
theorem torn_next (hlong : ¬bs.length < 4) (hnext : next bs = some (tlv, n)) :
    Torn bs k ↔ ∃ m, k = allocations tlv.length + m ∧ Torn (bs.drop n) m := by
  match bs with
  | a :: b :: c :: d :: v =>
      constructor
      · intro htorn
        cases htorn with
        | word _ hshort => exact absurd hshort hlong
        | @tlv _ _ _ _ v rest m hlen hrest =>
            rw [next_long, ← hlen] at hnext
            split at hnext
            · rename_i hzero
              cases hnext
              rw [List.eq_nil_of_length_eq_zero hzero]
              exact ⟨m, rfl, hrest⟩
            · rw [if_pos (by simp)] at hnext
              cases hnext
              refine ⟨m, rfl, ?_⟩
              rw [Nat.add_comm 4]
              simpa using hrest
      · rintro ⟨m, rfl, hrest⟩
        rw [next_long] at hnext
        split at hnext
        · rename_i hzero
          cases hnext
          exact .tlv (v := []) hzero.symm hrest
        · split at hnext
          · rename_i hle
            cases hnext
            rw [Nat.add_comm 4] at hrest
            have hlen : (v.take (byteGet16 c d)).length = byteGet16 c d := by
              rw [List.length_take, Nat.min_eq_left hle]
            have htorn := Torn.tlv (a := a) (b := b) hlen (by simpa using hrest)
            rw [List.take_append_drop, hlen] at htorn
            exact htorn
          · cases hnext
  | [] | [_] | [_, _] | [_, _, _] => simp at hlong

end

/-! ## The loop -/

/-- What the loop makes of the bytes is a part of them, unless they are torn and the
allocator grants all that it takes to come to the torn word. -/
theorem parseLoop_prefix {fuel : Nat} {sb sb' : Sbuf} {h h' : Heap} {tlvs : List Tlv}
    (ok : sb.Readable) (hloop : parseLoop fuel (-1) sb h = .ok ((tlvs, sb'), h')) :
    encode tlvs <+: sb.rest ↔ ¬∃ n, Torn sb.rest n ∧ h.Grants n := by
  induction fuel generalizing sb h tlvs with
  | zero => cases hloop
  | succ fuel ih =>
      by_cases hend : sb.rest = []
      · rw [parseLoop_of_end ok hend] at hloop
        cases hloop
        refine iff_of_true (List.nil_prefix) ?_
        rintro ⟨n, htorn, -⟩
        rw [hend] at htorn
        cases htorn with
        | word hne _ => exact hne rfl
      have hrem : sb.bytesremaining > 0 := by
        have := List.length_pos_iff.2 hend
        rw [ok.bytesremaining, ← Sbuf.length_rest]
        omega
      unfold parseLoop at hloop
      rw [if_pos hrem] at hloop
      by_cases hgo : ∃ tlv n, next sb.rest = some (tlv, n) ∧ h.Grants (allocations tlv.length)
      · obtain ⟨tlv, n, hnext, hgrants⟩ := hgo
        rw [bind_of_ok (parseOne_granted ok hnext hgrants)] at hloop
        dsimp only at hloop
        rw [if_neg (by decide)] at hloop
        obtain ⟨⟨tlvs', sb''⟩, h'', hrest, hloop⟩ := Prog.bind_ok.1 hloop
        cases hloop
        by_cases hshort : sb.rest.length < 4
        · -- the TLV is longer than what it was made of
          obtain ⟨t, n', hnext'⟩ := next_of_short hend hshort
          rw [hnext] at hnext'
          cases hnext'
          refine iff_of_false ?_ ?_
          · intro hprefix
            have hle := hprefix.length_le
            rw [encode_cons, List.length_append, length_encodeOne] at hle
            omega
          · exact fun hnot => hnot ⟨1, .word hend hshort, hgrants⟩
        · have hn := next_le hnext
          have hsplit := next_of_long hshort hnext
          have := ih (ok.skip hn) hrest
          rw [Sbuf.rest_skip hn] at this
          rw [encode_cons]
          conv_lhs => rw [hsplit]
          rw [List.prefix_append_right_inj, this, not_iff_not]
          constructor
          · rintro ⟨m, htorn, hgrants'⟩
            exact ⟨_, (torn_next hshort hnext).2 ⟨m, rfl, htorn⟩,
              (Heap.grants_add _ _ _).2 ⟨hgrants, hgrants'⟩⟩
          · rintro ⟨k, htorn, hgrants'⟩
            obtain ⟨m, rfl, hbehind⟩ := (torn_next hshort hnext).1 htorn
            exact ⟨m, hbehind, ((Heap.grants_add _ _ _).1 hgrants').2⟩
      · obtain ⟨sb₁, h₁, hone⟩ := parseOne_refused ok fun tlv n hnext hgrants =>
          hgo ⟨tlv, n, hnext, hgrants⟩
        rw [bind_of_ok hone] at hloop
        cases hloop
        refine iff_of_true (List.nil_prefix) ?_
        rintro ⟨k, htorn, hgrants⟩
        obtain ⟨tlv, n, m, hnext, rfl⟩ := next_of_torn htorn
        exact hgo ⟨tlv, n, hnext, ((Heap.grants_add _ _ _).1 hgrants).1⟩

/-- The parser invents nothing if and only if the bytes do not end inside a type or a
length word, or the memory does not last so far. -/
theorem parse_prefix {sb sb' : Sbuf} {h h' : Heap} {tlvs : List Tlv} (ok : sb.Readable)
    (hparse : parse sb h = .ok ((tlvs, sb'), h')) :
    encode tlvs <+: sb.rest ↔ ¬∃ n, Torn sb.rest n ∧ h.Grants n :=
  parseLoop_prefix ok hparse

/-- A buffer of the two bytes `00 01`. -/
def couple : Sbuf :=
  { autoresize := false, freebuf := false, block := ⟨2, fun i => if i = 1 then 1 else 0⟩,
    buflen := 2, pos := 0 }

theorem couple_ok : couple.Ok := ⟨rfl, by decide, by decide⟩

theorem parse_couple : parse couple Heap.zeroed = .ok (([⟨1, 0, none⟩], couple.skip 2), Heap.zeroed) := rfl

theorem parse_prefix_couple :
    encode [⟨1, 0, none⟩] <+: couple.rest ↔ ¬∃ n, Torn couple.rest n ∧ Heap.zeroed.Grants n :=
  parse_prefix couple_ok.readable parse_couple

/-- Two bytes are left, and become a TLV of type 1 and length 0, of four bytes. -/
theorem couple_invented : couple.Readable ∧ ∃ tlvs sb' h',
    parse couple Heap.zeroed = .ok ((tlvs, sb'), h') ∧ ¬encode tlvs <+: couple.rest :=
  ⟨couple_ok.readable, _, _, _, parse_couple, by decide⟩

end Tlv
end Timps.Naf
