-- SUMMARY: Records of typed fields: what is put into a growing buffer, and what the getters make of it.
import Timps.Naf.Growing

/-!
# Fields

A record is written by a sequence of putters, rewound, and read by the getters of the same
types. Bytes, halfwords and raw bytes come back as they were. The word getter shifts its first
byte in an `int`, so that the upper half of the words comes back with the sign extended.
-/

namespace Timps.Naf

open Prog (bind_of_ok)
open Sbuf (Appends)

/-! ## Calls -/

/-- A value and its type, which says what call puts it and what call gets it. -/
inductive Field where
  | u8 (v : UInt8)
  | u16 (v : UInt16)
  | u32 (v : UInt32)
  | raw (v : Bytes)
  deriving DecidableEq

/-- What a getter answers: a number, or the bytes copied out. -/
inductive Got where
  | word (v : Nat)
  | raw (v : Option Bytes)
  deriving DecidableEq

namespace Field

def put : Field → Sbuf → Mem (Nat × Sbuf)
  | u8 v, sb => sb.put8 v.toNat
  | u16 v, sb => sb.put16 v.toNat
  | u32 v, sb => sb.put32 v.toNat
  | raw v, sb => sb.putraw v

/-- The call that gets a field of the same type and length. -/
def get : Field → Sbuf → Mem (Got × Sbuf)
  | u8 _, sb => do let (v, sb) ← sb.get8; pure (.word v, sb)
  | u16 _, sb => do let (v, sb) ← sb.get16; pure (.word v, sb)
  | u32 _, sb => do let (v, sb) ← sb.get32; pure (.word v, sb)
  | raw v, sb => do let (v, sb) ← sb.getrawbuf v.length; pure (.raw v, sb)

/-- The value that was written. -/
def value : Field → Got
  | u8 v => .word v.toNat
  | u16 v => .word v.toNat
  | u32 v => .word v.toNat
  | raw v => .raw (some v)

/-- The bytes of the field. -/
def bytes : Field → Bytes
  | u8 v => bytePut8 v.toNat
  | u16 v => bytePut16 v.toNat
  | u32 v => bytePut32 v.toNat
  | raw v => v

/-- Put the fields one behind the other, whatever the calls answer: the ones that were taken. -/
def putAll : List Field → Sbuf → Mem (List Field × Sbuf)
  | [], sb => pure ([], sb)
  | f :: fields, sb => do
      let (n, sb) ← f.put sb
      let (taken, sb) ← putAll fields sb
      pure (if n = f.bytes.length then f :: taken else taken, sb)

def getAll : List Field → Sbuf → Mem (List Got × Sbuf)
  | [], sb => pure ([], sb)
  | f :: fields, sb => do
      let (v, sb) ← f.get sb
      let (vs, sb) ← getAll fields sb
      pure (v :: vs, sb)

/-- Rewind, and read what was written. -/
def readback (fields : List Field) (sb : Sbuf) : Mem (List Got × Sbuf) := do
  let (_, sb) ← sb.setpos 0
  getAll fields sb

end Field

/-! ## Words -/

/-- A word is an upper and a lower halfword. -/
theorem or_bytes_eq (b₀ b₁ b₂ b₃ : UInt8) :
    (b₀.toNat <<< 24) ||| (b₁.toNat <<< 16) ||| (b₂.toNat <<< 8) ||| b₃.toNat =
      byteGet16 b₀ b₁ * 65536 + byteGet16 b₂ b₃ := by
  have hlow : byteGet16 b₂ b₃ < 2 ^ 16 := byteGet16_lt b₂ b₃
  have hhigh : (b₀.toNat <<< 24) ||| (b₁.toNat <<< 16) = byteGet16 b₀ b₁ <<< 16 := by
    rw [byteGet16, Nat.shiftLeft_or_distrib, ← Nat.shiftLeft_add]
  rw [hhigh, Nat.or_assoc]
  change byteGet16 b₀ b₁ <<< 16 ||| byteGet16 b₂ b₃ = _
  rw [← Nat.shiftLeft_add_eq_or_of_lt hlow, Nat.shiftLeft_eq]

/-- A word that was written, as `int` shifts read it. -/
def extend (v : Nat) : Nat := if v < 2 ^ 31 then v else v + (2 ^ 64 - 2 ^ 32)

/-- Reading back what `bytePut32` wrote. -/
theorem byteGet32_bytePut32 {v : Nat} (hv : v < 2 ^ 32) :
    byteGet32 (UInt8.ofNat (v >>> 24)) (UInt8.ofNat (v >>> 16)) (UInt8.ofNat (v >>> 8)) (UInt8.ofNat v) =
      extend v := by
  have hword : byteGet16 (UInt8.ofNat (v >>> 24)) (UInt8.ofNat (v >>> 16)) * 65536 +
      byteGet16 (UInt8.ofNat (v >>> 8)) (UInt8.ofNat v) = v := by
    simp only [byteGet16_eq, UInt8.toNat_ofNat', Nat.shiftRight_eq_div_pow]
    omega
  rw [byteGet32, or_bytes_eq, hword]
  rfl

theorem extend_eq_self {v : Nat} : extend v = v ↔ v < 2 ^ 31 := by
  unfold extend
  split <;> omega

theorem extend_mod {v : Nat} (hv : v < 2 ^ 32) : extend v % 2 ^ 32 = v := by
  unfold extend
  split <;> omega

namespace Field

/-! ## Reading -/

/-- What the getter makes of a field. -/
def seen : Field → Got
  | u32 v => .word (extend v.toNat)
  | f => f.value

theorem seen_eq_value (f : Field) : f.seen = f.value ↔ ∀ v, f = u32 v → v.toNat < 2 ^ 31 := by
  cases f with
  | u32 v =>
      rw [seen, value, Got.word.injEq, extend_eq_self]
      constructor
      · rintro hv _ ⟨⟩
        exact hv
      · exact fun hall => hall v rfl
  | u8 v => exact iff_of_true rfl fun _ h => nomatch h
  | u16 v => exact iff_of_true rfl fun _ h => nomatch h
  | raw v => exact iff_of_true rfl fun _ h => nomatch h

section

variable {sb sb' : Sbuf} {h h' : Heap} {tail : Bytes}

/-- A field at the head of the unread bytes is read. -/
theorem get_eq (f : Field) (ok : sb.Readable) (hrest : sb.rest = f.bytes ++ tail) :
    f.get sb h = .ok ((f.seen, sb.skip f.bytes.length), h) := by
  have hlen : f.bytes.length ≤ sb.rest.length := by
    rw [hrest, List.length_append]
    exact Nat.le_add_right _ _
  have htake : sb.rest.take f.bytes.length = f.bytes := by rw [hrest, List.take_left]
  have hget : ∀ dec, sb.get f.bytes.length dec h = .ok ((dec f.bytes, sb.skip f.bytes.length), h) := by
    intro dec
    rw [Sbuf.get_rest ok, if_pos hlen, htake]
  cases f with
  | u8 v =>
      have hword : (UInt8.ofNat v.toNat).toNat = v.toNat := by rw [UInt8.ofNat_toNat]
      refine (bind_of_ok (hget _)).trans ?_
      change Except.ok ((Got.word (UInt8.ofNat v.toNat).toNat, _), h) = _
      rw [hword]
      rfl
  | u16 v =>
      refine (bind_of_ok (hget _)).trans ?_
      change Except.ok ((Got.word (byteGet16 (UInt8.ofNat (v.toNat >>> 8)) (UInt8.ofNat v.toNat)), _), h) = _
      rw [byteGet16_bytePut16 v.toNat_lt]
      rfl
  | u32 v =>
      refine (bind_of_ok (hget _)).trans ?_
      change Except.ok ((Got.word (byteGet32 (UInt8.ofNat (v.toNat >>> 24)) (UInt8.ofNat (v.toNat >>> 16))
        (UInt8.ofNat (v.toNat >>> 8)) (UInt8.ofNat v.toNat)), _), h) = _
      rw [byteGet32_bytePut32 v.toNat_lt]
      rfl
  | raw v =>
      have hraw : sb.getrawbuf v.length h = .ok ((some v, sb.skip v.length), h) := by
        have htake' : sb.rest.take v.length = v := htake
        rw [Sbuf.getrawbuf_rest ok, if_pos (show v.length ≤ sb.rest.length from hlen), htake']
      exact bind_of_ok hraw

/-- So are fields one behind the other. -/
theorem getAll_eq (fields : List Field) (ok : sb.Readable) (hrest : sb.rest = fields.flatMap bytes ++ tail) :
    getAll fields sb h = .ok ((fields.map seen, sb.skip (fields.flatMap bytes).length), h) := by
  induction fields generalizing sb with
  | nil => rfl
  | cons f fields ih =>
      rw [List.flatMap_cons, List.append_assoc] at hrest
      have hlen : f.bytes.length ≤ sb.rest.length := by
        rw [hrest, List.length_append]
        exact Nat.le_add_right _ _
      have hskip : (sb.skip f.bytes.length).rest = fields.flatMap bytes ++ tail := by
        rw [Sbuf.rest_skip hlen, hrest, List.drop_left]
      rw [getAll, bind_of_ok (get_eq f ok hrest)]
      dsimp only
      rw [bind_of_ok (ih (ok.skip hlen) hskip), List.flatMap_cons, List.length_append]
      simp only [Sbuf.skip, Nat.add_assoc]
      rfl

/-! ## Writing -/

theorem put_eq (f : Field) (sb : Sbuf) : f.put sb = sb.put f.bytes := by
  cases f <;> rfl

/-- With memory for its growth a small buffer takes what is put into it. -/
theorem shape_put_isSome {n : Nat} (hauto : sb.autoresize = true) (ok : sb.Ok) (hroom : sb.pos + n ≤ 16000)
    (hwilling : h.refuse = []) : (sb.shape h).put n ≠ none := by
  have hpos := ok.pos_le
  unfold Sbuf.Shape.put Sbuf.shape
  dsimp only
  split
  · exact Option.some_ne_none _
  · have hmax : ¬32768 < sb.buflen + 256 * Sbuf.steps n := by
      simp only [Sbuf.steps]
      omega
    simp [hauto, hwilling, hmax]

/-- What is taken stands behind the cursor; the rest found no memory. -/
theorem putAll_eq (fields : List Field) (hauto : sb.autoresize = true) (ok : sb.Ok)
    (htotal : sb.pos + (fields.flatMap bytes).length ≤ 16000) :
    ∃ taken sb' h', putAll fields sb h = .ok ((taken, sb'), h') ∧ Appends sb (taken.flatMap bytes) sb' ∧
      (h.refuse = [] → taken = fields) := by
  induction fields generalizing sb h with
  | nil => exact ⟨[], sb, h, rfl, .refl ok, fun _ => rfl⟩
  | cons f fields ih =>
      rw [List.flatMap_cons, List.length_append] at htotal
      have hsmall : sb.Small f.bytes.length := .inl (by omega)
      rw [putAll, put_eq]
      cases hshape : (sb.shape h).put f.bytes.length with
      | some s =>
          obtain ⟨sb₁, h₁, hput, happ₁, rfl⟩ := Sbuf.put_of_shape ok hshape
          have hpos₁ := happ₁.pos
          have hauto₁ := (Sbuf.Shape.put_autoresize hshape).1.trans hauto
          obtain ⟨taken, sb₂, h₂, hrest, happ₂, hall⟩ := ih (h := h₁) hauto₁ happ₁.ok (by omega)
          refine ⟨f :: taken, sb₂, h₂, ?_, ?_, fun hwilling => ?_⟩
          · rw [bind_of_ok hput]
            dsimp only
            rw [bind_of_ok hrest, if_pos rfl]
            rfl
          · rw [List.flatMap_cons]
            exact happ₁.trans happ₂
          · obtain rfl := (Sbuf.put_plain sb f.bytes).steady hwilling hput
            rw [hall hwilling]
      | none =>
          obtain ⟨h₁, hput⟩ := Sbuf.put_of_no_shape ok (hsmall.unwrapped ok) hshape
          have hne : 0 ≠ f.bytes.length := by
            intro hzero
            rw [← hzero, Sbuf.Shape.put_of_room (show sb.pos + 0 ≤ sb.buflen from ok.pos_le)] at hshape
            cases hshape
          obtain ⟨taken, sb₂, h₂, hrest, happ₂, -⟩ := ih (h := h₁) hauto ok (by omega)
          refine ⟨taken, sb₂, h₂, ?_, happ₂, fun hwilling => ?_⟩
          · rw [bind_of_ok hput]
            dsimp only
            rw [bind_of_ok hrest, if_neg hne]
            rfl
          · exact absurd hshape (shape_put_isSome hauto ok (by omega) hwilling)

end

/-! ## Round trip -/

/-- What was taken is read back, with the cursor where the writes ended, if and only if no word
has its top bit set; and everything is taken when memory lasts. -/
theorem fields_read_back {fields : List Field} {buflen : Nat} {sb : Sbuf} {h₀ h : Heap} (hlt : buflen < 65536)
    (hinit : Sbuf.init none buflen h₀ = .ok (some sb, h)) (htotal : (fields.flatMap bytes).length ≤ 16000) :
    ∃ taken sb' h', putAll fields sb h = .ok ((taken, sb'), h') ∧ (h.refuse = [] → taken = fields) ∧
      (readback taken sb' h' = .ok ((taken.map value, sb'), h') ↔ ∀ v, u32 v ∈ taken → v.toNat < 2 ^ 31) := by
  obtain ⟨ok, hpos⟩ := Sbuf.init_ok hlt (by simp) hinit
  have hauto : sb.autoresize = true := Sbuf.init_autoresize _ _ _ hinit _ rfl
  obtain ⟨taken, sb', h', hput, happ, hall⟩ := putAll_eq (h := h) fields hauto ok (by omega)
  refine ⟨taken, sb', h', hput, hall, ?_⟩
  have hpos' : sb'.pos = (taken.flatMap bytes).length := by rw [happ.pos, hpos, Nat.zero_add]
  have hwritten : sb'.block.bytes 0 sb'.pos = taken.flatMap bytes := by
    have hw := happ.written
    rw [Sbuf.written, Sbuf.written, hpos] at hw
    exact hw
  have hrest : ({ sb' with pos := 0 } : Sbuf).rest =
      taken.flatMap bytes ++ sb'.block.bytes sb'.pos (sb'.buflen - sb'.pos) := by
    have hsplit := Block.bytes_add sb'.block 0 sb'.pos (sb'.buflen - sb'.pos)
    have hle := happ.ok.pos_le
    rw [hwritten, Nat.zero_add, show sb'.pos + (sb'.buflen - sb'.pos) = sb'.buflen by omega] at hsplit
    exact hsplit
  have hreadable : ({ sb' with pos := 0 } : Sbuf).Readable := ⟨happ.ok.readable.size, happ.ok.lt, Nat.zero_le _⟩
  have hback : readback taken sb' h' = .ok ((taken.map seen, sb'), h') := by
    have hskip : ({ sb' with pos := 0 } : Sbuf).skip (taken.flatMap bytes).length = sb' := by
      rw [← hpos', Sbuf.skip]
      simp only [Nat.zero_add]
    rw [readback, bind_of_ok (Sbuf.setpos_of_le (Nat.zero_le _))]
    dsimp only
    rw [getAll_eq taken hreadable hrest, hskip]
  rw [hback]
  constructor
  · intro heq v hv
    have hmap : taken.map seen = taken.map value := congrArg (fun r => r.1.1) (Except.ok.inj heq)
    exact (seen_eq_value _).1 (List.map_inj_left.1 hmap _ hv) v rfl
  · intro hwords
    have hmap : taken.map seen = taken.map value :=
      List.map_inj_left.2 fun f hf => (seen_eq_value f).2 fun v hfv => hwords v (hfv ▸ hf)
    rw [hmap]

/-- A buffer of the default length. -/
def fresh : Sbuf := ⟨true, true, ⟨512, fun _ => 0⟩, 512, 0⟩

/-- A word with its top bit set comes back as another number. -/
theorem fields_read_back_extended :
    Sbuf.init none 0 .zeroed = .ok (some fresh, .zeroed) ∧
      ∃ sb, putAll [u32 0x80000000] fresh .zeroed = .ok (([u32 0x80000000], sb), .zeroed) ∧
        readback [u32 0x80000000] sb .zeroed = .ok (([.word 0xffffffff80000000], sb), .zeroed) ∧
        value (u32 0x80000000) = .word 0x80000000 :=
  ⟨rfl, _, rfl, rfl, rfl⟩

theorem fields_read_back_three :
    ∃ taken sb' h', putAll [u8 1, u32 7, raw [2, 3]] fresh .zeroed = .ok ((taken, sb'), h') ∧
      (Heap.zeroed.refuse = [] → taken = [u8 1, u32 7, raw [2, 3]]) ∧
      (readback taken sb' h' = .ok ((taken.map value, sb'), h') ↔ ∀ v, u32 v ∈ taken → v.toNat < 2 ^ 31) :=
  fields_read_back (show 0 < 65536 by decide) (show Sbuf.init none 0 .zeroed = .ok (some fresh, .zeroed) from rfl)
    (by decide)

end Field
end Timps.Naf
