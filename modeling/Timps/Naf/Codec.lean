-- SUMMARY: The TLV codec in both directions, and chains nested as the value of a TLV.
import Timps.Naf.Chain

/-!
# The TLV codec

The renderer stops where the buffer is full, the parser where the bytes end or where so
many TLVs are made. Between a chain of well-formed TLVs and a string of complete TLVs
the two are inverse to each other, when the allocator grants what the parser asks for.
-/

namespace Timps.Naf

open Prog (bind_of_ok)

/-! ## Buffers over memory of the caller -/

namespace Sbuf

/-- The buffer that `naf_sbuf_init` makes of a whole block. -/
def fixed (b : Block) : Sbuf :=
  { autoresize := false, freebuf := false, block := b, buflen := b.size, pos := 0 }

variable {b : Block} {h : Heap}

theorem init_fixed : init (some b) b.size h = .ok (some (fixed b), h) := rfl

theorem fixed_ok (hsize : b.size ≤ 65535) : (fixed b).Ok := ⟨rfl, Nat.lt_succ_of_le hsize, Nat.zero_le _⟩

@[simp] theorem rest_fixed : (fixed b).rest = b.bytes 0 b.size := rfl

end Sbuf

namespace Tlv

/-- A string of complete TLVs. -/
inductive Whole : Bytes → Prop
  | nil : Whole []
  | tlv {a b c d : UInt8} {v rest : Bytes} :
      v.length = byteGet16 c d → Whole rest → Whole (a :: b :: c :: d :: (v ++ rest))

/-- The parser gets the chain from these bytes, to their end or, with the limit, up to
whatever follows them. -/
structure ReadBack (tlvs : List Tlv) (bytes : Bytes) (h : Heap) : Prop where
  parse : ∀ sb : Sbuf, sb.Readable → sb.rest = bytes →
    parse sb h = .ok ((tlvs, sb.skip bytes.length), h)
  parseLimit : ∀ (sb : Sbuf) (more : Bytes), sb.Readable → sb.rest = bytes ++ more →
    parseLimit sb tlvs.length h = .ok ((tlvs, sb.skip bytes.length), h)

/-- A buffer over just enough memory takes the chain and is full. -/
def Fills (tlvs : List Tlv) (bytes : Bytes) (h : Heap) : Prop :=
  ∀ b : Block, b.size = getrenderedsize tlvs → ∃ sb, render tlvs (Sbuf.fixed b) h = .ok ((b.size, sb), h) ∧
    sb.Ok ∧ sb.pos = sb.buflen ∧ sb.buflen = b.size ∧ sb.written = bytes

section

variable {tlvs chain : List Tlv} {bs : Bytes} {h : Heap}

theorem readBack_encode (hwilling : h.refuse = []) (hwf : ∀ tlv ∈ tlvs, tlv.Wf) :
    ReadBack tlvs (encode tlvs) h where
  parse _ ok hrest := parse_encode ok hwilling hwf hrest
  parseLimit _ _ ok hrest := parseLimit_encode ok hwilling hwf hrest

theorem fills_encode (hwilling : h.refuse = []) (hwf : ∀ tlv ∈ tlvs, tlv.Wf)
    (hsize : getrenderedsize tlvs ≤ 65535) : Fills tlvs (encode tlvs) h := by
  intro b hb
  have hlen := length_encode_of_wf hwf
  have ok : (Sbuf.fixed b).Ok := Sbuf.fixed_ok (by omega)
  have hshape : shape tlvs ((Sbuf.fixed b).shape h) = _ :=
    shape_of_room (show 0 + (encode tlvs).length ≤ b.size by omega)
  obtain ⟨sb, h', hrender, happ, hend⟩ := render_of_shape ok hshape
  obtain rfl := (render_plain tlvs _).steady hwilling hrender
  have hbuflen : sb.buflen = b.size := congrArg Sbuf.Shape.buflen hend
  have hpos : sb.pos = b.size := by
    rw [happ.pos, hlen, hb]
    exact Nat.zero_add _
  refine ⟨sb, ?_, happ.ok, hpos.trans hbuflen.symm, hbuflen, happ.written⟩
  rw [hrender, hlen, hb]

/-! ## Complete TLVs -/

/-- A string of complete TLVs is the encoding of a well-formed chain. -/
theorem exists_of_whole (hwhole : Whole bs) :
    ∃ tlvs, (∀ tlv ∈ tlvs, tlv.Wf) ∧ encode tlvs = bs := by
  induction hwhole with
  | nil => exact ⟨[], by simp, rfl⟩
  | @tlv a b c d v rest hlen _ ih =>
      obtain ⟨tlvs, hwf, rfl⟩ := ih
      have hfirst : Wf ⟨byteGet16 a b, v.length, if v.length = 0 then none else some v⟩ := by
        by_cases hzero : v.length = 0
        · exact ⟨byteGet16_lt a b, by simp [hzero], by simp [hzero], by simp [hzero]⟩
        · exact ⟨byteGet16_lt a b, hlen ▸ byteGet16_lt c d, by simp [hzero], by simp [hzero]⟩
      refine ⟨⟨byteGet16 a b, v.length, if v.length = 0 then none else some v⟩ :: tlvs, ?_, ?_⟩
      · intro t ht
        rcases List.mem_cons.1 ht with rfl | ht
        · exact hfirst
        · exact hwf t ht
      · have hvalue : (if v.length = 0 then none else some v : Option Bytes).getD [] = v := by
          split
          · rename_i hzero
            exact (List.eq_nil_of_length_eq_zero hzero).symm
          · rfl
        rw [encode_cons, encodeOne, hvalue, bytePut16_byteGet16, hlen, bytePut16_byteGet16]
        simp

/-! ## A chain as a value -/

/-- The chain is nested with all its bytes. -/
theorem addtlv_willing (type : Nat) (hwilling : h.refuse = []) (hwf : ∀ tlv ∈ tlvs, tlv.Wf)
    (hsize : getrenderedsize tlvs ≤ 65535) :
    addtlv chain type tlvs h = .ok ((true, chain ++ [⟨type, getrenderedsize tlvs,
      if getrenderedsize tlvs = 0 then none else some (encode tlvs)⟩]), h) := by
  have hmod : getrenderedsize tlvs % 65536 = getrenderedsize tlvs := Nat.mod_eq_of_lt (by omega)
  have hlen := length_encode_of_wf hwf
  obtain ⟨sb, hrender, ok, hpos, hbuflen, hwritten⟩ :=
    fills_encode hwilling hwf hsize ⟨getrenderedsize tlvs, h.junk (getrenderedsize tlvs)⟩ rfl
  have hbytes : sb.block.bytes 0 (getrenderedsize tlvs) = encode tlvs := by
    rw [← hwritten, Sbuf.written, hpos, hbuflen]
  unfold addtlv
  rw [hmod, bind_of_ok (malloc_of_willing hwilling)]
  dsimp only
  rw [bind_of_ok (Sbuf.init_fixed (b := ⟨getrenderedsize tlvs, h.junk (getrenderedsize tlvs)⟩))]
  dsimp only
  rw [bind_of_ok hrender]
  dsimp only
  have hle : 0 + getrenderedsize tlvs ≤ sb.block.size := by
    rw [ok.size, hbuflen]
    exact Nat.le_of_eq (Nat.zero_add _)
  rw [bind_of_ok (Block.load_of_le hle), hbytes,
    bind_of_ok (addraw_willing type (encode tlvs) hwilling), hlen]
  rfl

/-- Rendering and parsing are inverse to each other, and a chain that was nested in a TLV
comes out of its value. -/
theorem codec (hwilling : h.refuse = []) (hwf : ∀ tlv ∈ tlvs, tlv.Wf)
    (hsize : getrenderedsize tlvs ≤ 65535) :
    (∃ bytes, Fills tlvs bytes h ∧ ReadBack tlvs bytes h) ∧
    (∀ sb : Sbuf, sb.Readable → Whole sb.rest →
      ∃ tlvs', parse sb h = .ok ((tlvs', sb.skip sb.rest.length), h) ∧ Fills tlvs' sb.rest h) ∧
    (tlvs ≠ [] → ∀ chain type, ∃ value,
      addtlv chain type tlvs h = .ok ((true, chain ++ [⟨type, getrenderedsize tlvs, some value⟩]), h) ∧
        ReadBack tlvs value h) := by
  refine ⟨⟨encode tlvs, fills_encode hwilling hwf hsize, readBack_encode hwilling hwf⟩, ?_, ?_⟩
  · intro sb ok hwhole
    obtain ⟨tlvs', hwf', hbytes⟩ := exists_of_whole hwhole
    have hlong : getrenderedsize tlvs' ≤ 65535 := by
      have hlt := ok.lt
      rw [← length_encode_of_wf hwf', hbytes, Sbuf.length_rest]
      omega
    rw [← hbytes]
    exact ⟨tlvs', (readBack_encode hwilling hwf').parse sb ok hbytes.symm,
      fills_encode hwilling hwf' hlong⟩
  · intro hne chain type
    have hzero : ¬getrenderedsize tlvs = 0 := by
      cases tlvs with
      | nil => exact absurd rfl hne
      | cons tlv tlvs =>
          simp only [getrenderedsize, List.map_cons, List.sum_cons]
          omega
    refine ⟨encode tlvs, ?_, readBack_encode hwilling hwf⟩
    rw [addtlv_willing type hwilling hwf hsize, if_neg hzero]

end

/-- A TLV with a value of two bytes, and one without a value. -/
def pair : List Tlv := [⟨1, 2, some [7, 8]⟩, ⟨5, 0, none⟩]

theorem pair_wf : ∀ tlv ∈ pair, tlv.Wf := by
  intro tlv htlv
  simp only [pair, List.mem_cons, List.not_mem_nil, or_false] at htlv
  rcases htlv with rfl | rfl
  · exact ⟨by decide, by decide, rfl, rfl⟩
  · exact ⟨by decide, by decide, rfl, rfl⟩

theorem codec_pair :
    (∃ bytes, Fills pair bytes Heap.zeroed ∧ ReadBack pair bytes Heap.zeroed) ∧
    (∀ sb : Sbuf, sb.Readable → Whole sb.rest →
      ∃ tlvs', parse sb Heap.zeroed = .ok ((tlvs', sb.skip sb.rest.length), Heap.zeroed) ∧
        Fills tlvs' sb.rest Heap.zeroed) ∧
    (pair ≠ [] → ∀ chain type, ∃ value,
      addtlv chain type pair Heap.zeroed =
          .ok ((true, chain ++ [⟨type, getrenderedsize pair, some value⟩]), Heap.zeroed) ∧
        ReadBack pair value Heap.zeroed) :=
  codec rfl pair_wf (by decide)

/-- An allocator that refuses the first time. -/
def stingy : Heap := { refuse := [true], junk := fun _ _ => 0 }

/-- An allocator whose blocks hold four zeros and then ones only. -/
def unclean : Heap := { refuse := [], junk := fun _ i => if i < 4 then 0 else 255 }

/-- A buffer over an encoding, and an allocator that refuses: the parser returns nothing.
An empty chain becomes a TLV without a value, and a buffer that is set up over no value
has 512 bytes of its own, in which the parser finds a TLV. -/
theorem codec_fails :
    (∃ sb : Sbuf, sb.Readable ∧ sb.rest = encode [⟨1, 0, none⟩] ∧
      ∃ sb' h', parse sb stingy = .ok (([], sb'), h')) ∧
    addtlv [] 5 [] unclean = .ok ((true, [⟨5, 0, none⟩]), unclean) ∧
    ∃ sb sb', Sbuf.init none 0 unclean = .ok (some sb, unclean) ∧
      parse sb unclean = .ok (([⟨0, 0, none⟩], sb'), unclean) :=
  ⟨⟨Sbuf.fixed ⟨4, fun i => if i = 1 then 1 else 0⟩, ⟨by decide, by decide, by decide⟩, by decide,
      _, _, rfl⟩,
    rfl, _, _, rfl, rfl⟩

end Tlv
end Timps.Naf
