-- SUMMARY: Message blocks: what their sections say, as a function of the bytes, and the loops that read and write their characters.
import Timps.Naf.Chain
import Timps.Oscar.Icbm

/-!
# Message blocks

A message block is a list of sections. Each of them asks for room behind the text so far,
and most of them fill it. A section that is cut off is given its room, but nothing is
written there: the terminator in front of the room stays, and hides what comes behind it.
`pieces` and `showPiece` say so of the bytes of a block.
-/

namespace Timps.Oscar

open Naf (Block Heap Mem Sbuf Tlv byteGet16 cstring malloc)
open Naf.Sbuf (Readable get_rest getrawbuf_rest rest_skip)
open Naf.Tlv (word get16_word word_le)
open Prog (bind_of_ok)

/-! ## Blocks -/

/-- What a section does to the text. -/
inductive Piece where
  /-- too short for the encoding flags -/
  | short
  /-- room for so many characters, and what is written there, unless it is cut off -/
  | chars (n : Nat) (v : Option Bytes)
  | unrepresentable

/-- The characters of a 16-bit unit. -/
def unitchars (c : Nat) : Bytes := if c < 128 then [UInt8.ofNat c] else entity c

/-- The 16-bit units in these bytes. -/
def units : Bytes → List Nat
  | a :: b :: bs => byteGet16 a b :: units bs
  | _ => []

/-- A section behind its encoding flags. -/
def readtext (f1 n : Nat) (bs : Bytes) : Option (Piece × Bytes) :=
  if f1 = 0x0000 ∨ f1 = 0x0003 then
    if n ≤ bs.length then some (.chars n (some (bs.take n)), bs.drop n)
    else some (.chars n none, bs)
  else if f1 = 0x0002 ∧ n % 2 = 0 then
    if n ≤ bs.length then
      let v := (units (bs.take n)).flatMap unitchars
      some (.chars v.length (some v), bs.drop n)
    else none
  else some (.unrepresentable, if n ≤ bs.length then bs.drop n else bs)

/-- A word off the front, 0 when there are not two bytes, and what is left. -/
def takeword (bs : Bytes) : Nat × Bytes := ((word bs).1, bs.drop (word bs).2)

/-- One section off the front of the bytes; `none` ends the block with an error. -/
def readsection : Bytes → Option (Piece × Bytes)
  | a :: b :: bs =>
      if a = 0x01 ∧ b = 0x01 then
        let (plen, bs) := takeword bs
        if plen < 4 then some (.short, bs)
        else
          let (f1, bs) := takeword bs
          let (_, bs) := takeword bs
          readtext f1 (plen - 4) bs
      else none
  | _ => none

/-- The sections of a block, in at most so many rounds. -/
def piecesWithin : Nat → Bytes → Option (List Piece)
  | 0, _ => none
  | fuel + 1, bs =>
      if bs = [] then some []
      else
        match readsection bs with
        | none => none
        | some (piece, bs) => (piecesWithin fuel bs).map (piece :: ·)

def pieces (bs : Bytes) : Option (List Piece) := piecesWithin (bs.length + 1) bs

/-- The text so far, and whether what follows is still seen. -/
abbrev Shown := Bytes × Bool

def Shown.add (shown : Shown) (v : Option Bytes) : Shown :=
  if shown.2 then (shown.1 ++ v.getD [], v.isSome) else shown

/-- The text after a section; none as long as no section had any. -/
def showPiece (shown : Option Shown) : Piece → Option Shown
  | .chars _ v => some ((shown.getD ([], true)).add v)
  | _ => shown

def Piece.isUnrepresentable : Piece → Bool
  | .unrepresentable => true
  | _ => false

/-- The section asks for memory. -/
def Piece.asks : Piece → Bool
  | .chars _ _ => true
  | _ => false

/-! ## Buffers that do not grow -/

section

variable {sb : Sbuf} {h : Heap} {n : Nat}

/-- A buffer that does not grow, with these bytes ahead. -/
structure Fixed (sb : Sbuf) (bs : Bytes) : Prop where
  ok : sb.Readable
  autoresize : sb.autoresize = false
  rest : sb.rest = bs

variable {bs : Bytes} {a : UInt8}

theorem Fixed.skip (fixed : Fixed sb bs) (hn : n ≤ bs.length) : Fixed (sb.skip n) (bs.drop n) := by
  obtain ⟨ok, hauto, rfl⟩ := fixed
  exact ⟨ok.skip hn, hauto, rest_skip hn⟩

theorem Fixed.get8_nil (fixed : Fixed sb []) : sb.get8 h = .ok ((0, sb), h) := by
  rw [Sbuf.get8, get_rest fixed.ok, fixed.rest]
  rfl

theorem Fixed.get8 (fixed : Fixed sb (a :: bs)) :
    ∃ sb', sb.get8 h = .ok ((a.toNat, sb'), h) ∧ Fixed sb' bs := by
  refine ⟨sb.skip 1, ?_, fixed.skip (by simp)⟩
  rw [Sbuf.get8, get_rest fixed.ok, fixed.rest, if_pos (by simp)]
  rfl

theorem Fixed.get16 (fixed : Fixed sb bs) :
    ∃ sb', sb.get16 h = .ok (((takeword bs).1, sb'), h) ∧ Fixed sb' (takeword bs).2 := by
  refine ⟨sb.skip (word bs).2, ?_, fixed.skip (word_le bs)⟩
  rw [get16_word fixed.ok, fixed.rest]
  rfl

/-- What is in the buffer is given as it lies. -/
theorem Fixed.getrawbuf (fixed : Fixed sb bs) (hn : n ≤ bs.length) :
    sb.getrawbuf n h = .ok ((some (bs.take n), sb.skip n), h) := by
  rw [getrawbuf_rest fixed.ok, fixed.rest, if_pos hn]

/-- A buffer with fewer bytes gives none of them. -/
theorem Fixed.getrawbuf_short (fixed : Fixed sb bs) (hn : ¬n ≤ bs.length) :
    sb.getrawbuf n h = .ok ((none, sb), h) := by
  rw [getrawbuf_rest fixed.ok, fixed.rest, if_neg hn]

theorem Fixed.advance (fixed : Fixed sb bs) :
    ∃ b sb', sb.advance n h = .ok ((b, sb'), h) ∧
      Fixed sb' (if n ≤ bs.length then bs.drop n else bs) := by
  have hpos := fixed.ok.pos_le
  have hlt := fixed.ok.lt
  have hlen : bs.length = sb.buflen - sb.pos := by rw [← fixed.rest, Sbuf.length_rest]
  have hshort : sb.bytesremaining < n ↔ bs.length < n := by
    rw [Sbuf.bytesremaining_lt fixed.ok, fixed.rest]
  unfold Sbuf.advance
  by_cases hn : n ≤ bs.length
  · refine ⟨true, sb.skip n, ?_, by rw [if_pos hn]; exact fixed.skip hn⟩
    rw [bind_of_ok (Sbuf.reserve_of_room (by rw [hshort]; omega))]
    dsimp only
    rw [Nat.mod_eq_of_lt (by omega)]
    rfl
  · have href : sb.reserve n h = .ok (none, h) := by
      rw [Sbuf.reserve_of_short (by rw [hshort]; omega)]
      unfold Sbuf.extendbuf
      rw [if_pos fixed.autoresize]
      rfl
    refine ⟨false, sb, ?_, by rw [if_neg hn]; exact fixed⟩
    rw [bind_of_ok href]
    rfl

/-! ## Units -/

theorem length_unitchars (c : Nat) : (unitchars c).length = unitlen c := by
  unfold unitchars unitlen
  split <;> rfl

theorem units_take_succ {bs : Bytes} {rounds : Nat} (hlen : 2 * (rounds + 1) ≤ bs.length) :
    units (bs.take (2 * (rounds + 1))) =
      byteGet16 (bs.getD 0 0) (bs.getD 1 0) :: units ((bs.drop 2).take (2 * rounds)) := by
  match bs with
  | [] | [_] =>
      simp only [List.length_nil, List.length_singleton] at hlen
      omega
  | a :: b :: bs => rfl

theorem word_of_two {bs : Bytes} (hlen : 2 ≤ bs.length) :
    word bs = (byteGet16 (bs.getD 0 0) (bs.getD 1 0), 2) := by
  match bs with
  | [] | [_] => simp at hlen
  | a :: b :: bs => rfl

/-- The counting loop counts the characters of the units ahead. -/
theorem countunits_rest (rounds : Nat) (ok : sb.Readable) (hlen : 2 * rounds ≤ sb.rest.length) :
    countunits rounds n sb h =
      .ok ((n + ((units (sb.rest.take (2 * rounds))).flatMap unitchars).length,
        sb.skip (2 * rounds)), h) := by
  induction rounds generalizing sb n with
  | zero => rfl
  | succ rounds ih =>
      have htwo : word sb.rest = _ := word_of_two (by omega)
      have hrest : (sb.skip 2).rest = sb.rest.drop 2 := rest_skip (by omega)
      unfold countunits
      rw [bind_of_ok (get16_word ok), htwo]
      dsimp only
      rw [ih (ok.skip (by omega)) (by rw [hrest, List.length_drop]; omega), hrest, units_take_succ hlen,
        List.flatMap_cons, List.length_append, length_unitchars]
      simp only [Sbuf.skip, Except.ok.injEq, Prod.mk.injEq, Sbuf.mk.injEq, and_true, true_and]
      omega

/-- `s'` is `s` with `v` written at `e`, and room for a terminator behind it. -/
structure Wrote (s : Block) (e : Nat) (v : Bytes) (s' : Block) : Prop where
  size : s'.size = s.size
  before : ∀ i, i < e → s'.byte i = s.byte i
  bytes : s'.bytes e v.length = v

theorem wrote_fill (s : Block) (e : Nat) (v tail : Bytes) : Wrote s e v (s.fill e (v ++ tail)) where
  size := rfl
  before i hi := by
    have hout : ¬(e ≤ i ∧ i < e + (v ++ tail).length) := by omega
    simp only [Block.fill, if_neg hout]
  bytes := by
    have hsame := Block.bytes_fill_same s e (v ++ tail)
    rw [List.length_append, Block.bytes_add] at hsame
    exact (List.append_inj hsame (by simp)).1

/-- Two texts that are written one behind the other are one. -/
theorem Wrote.trans {s s₁ s₂ : Block} {e : Nat} {u v : Bytes} (h₁ : Wrote s e u s₁)
    (h₂ : Wrote s₁ (e + u.length) v s₂) : Wrote s e (u ++ v) s₂ where
  size := h₂.size.trans h₁.size
  before i hi := (h₂.before i (by omega)).trans (h₁.before i hi)
  bytes := by
    have hfirst : s₂.bytes e u.length = s₁.bytes e u.length :=
      Block.bytes_congr fun i hi => h₂.before _ (by omega)
    rw [List.length_append, Block.bytes_add, h₂.bytes, hfirst, h₁.bytes]

/-- The writing loop writes the characters of the units ahead. -/
theorem putunits_rest (rounds : Nat) {e : Nat} {s : Block} (ok : sb.Readable)
    (hlen : 2 * rounds ≤ sb.rest.length)
    (hroom : e + ((units (sb.rest.take (2 * rounds))).flatMap unitchars).length < s.size) :
    ∃ s', putunits rounds (s, e) sb h =
        .ok (((s', e + ((units (sb.rest.take (2 * rounds))).flatMap unitchars).length),
          sb.skip (2 * rounds)), h) ∧
      Wrote s e ((units (sb.rest.take (2 * rounds))).flatMap unitchars) s' := by
  induction rounds generalizing sb s e with
  | zero => exact ⟨s, rfl, rfl, fun _ _ => rfl, rfl⟩
  | succ rounds ih =>
      have htwo : word sb.rest = _ := word_of_two (by omega)
      have hrest : (sb.skip 2).rest = sb.rest.drop 2 := rest_skip (by omega)
      have ok' : (sb.skip 2).Readable := ok.skip (by omega)
      have hlen' : 2 * rounds ≤ (sb.skip 2).rest.length := by
        rw [hrest, List.length_drop]
        omega
      rw [units_take_succ hlen, List.flatMap_cons, List.length_append] at hroom ⊢
      rw [← hrest] at hroom ⊢
      have hskip : (sb.skip 2).skip (2 * rounds) = sb.skip (2 * (rounds + 1)) := by
        simp only [Sbuf.skip, Sbuf.mk.injEq, true_and]
        omega
      unfold putunits
      rw [bind_of_ok (get16_word ok), htwo]
      dsimp only
      generalize byteGet16 (sb.rest.getD 0 0) (sb.rest.getD 1 0) = c at *
      -- the rest goes behind one character, or behind an entity
      have hone : ∀ s₁, Wrote s e (unitchars c) s₁ →
          ∃ s', putunits rounds (s₁, e + (unitchars c).length) (sb.skip 2) h =
            .ok (((s', e + ((unitchars c).length +
                ((units ((sb.skip 2).rest.take (2 * rounds))).flatMap unitchars).length)),
              sb.skip (2 * (rounds + 1))), h) ∧
            Wrote s e (unitchars c ++ (units ((sb.skip 2).rest.take (2 * rounds))).flatMap unitchars) s' := by
        intro s₁ hwrote
        obtain ⟨s', hput, hwrote'⟩ := ih (s := s₁) (e := e + (unitchars c).length) ok' hlen'
          (by rw [hwrote.size]; omega)
        rw [hskip, Nat.add_assoc] at hput
        exact ⟨s', hput, hwrote.trans hwrote'⟩
      by_cases hascii : c < 128
      · have hchars : unitchars c = [UInt8.ofNat c] := if_pos hascii
        rw [hchars] at hone hroom ⊢
        have hwrote : Wrote s e [UInt8.ofNat c] (s.fill e [UInt8.ofNat c]) := wrote_fill s e _ []
        obtain ⟨s', hput, hwrote'⟩ := hone _ hwrote
        have hstore : s.store e [UInt8.ofNat c] h = _ := Block.store_of_le
          (by simp only [List.length_singleton] at hroom ⊢; omega)
        rw [if_pos hascii, bind_of_ok hstore]
        exact ⟨s', hput, hwrote'⟩
      · have hchars : unitchars c = entity c := if_neg hascii
        rw [hchars] at hone hroom ⊢
        obtain ⟨s', hput, hwrote'⟩ := hone _ (wrote_fill s e _ [0])
        have hstore : s.store e (entity c ++ [0]) h = _ := Block.store_of_le
          (by simp only [List.length_append, List.length_singleton] at hroom ⊢; omega)
        rw [if_neg hascii, bind_of_ok hstore]
        exact ⟨s', hput, hwrote'⟩

end

end Timps.Oscar
