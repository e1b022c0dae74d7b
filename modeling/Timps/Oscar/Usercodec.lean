-- SUMMARY: User info blocks in both directions: what was rendered is read back, up to whatever follows it.
import Timps.Oscar.Relay

/-!
# The user info codec

A name with its length in front, the warning level, and a chain with the number of its
TLVs in front. Neither end of the block is marked: where the reader stops is up to the
two counts.
-/

namespace Timps.Oscar

open Naf (Heap Sbuf Tlv bytePut8 bytePut16)
open Naf.Sbuf (Appends)
open Naf.Tlv (encode renderEach)
open Prog (bind_of_ok)

/-! ## Bytes ahead -/

/-- A buffer with these bytes ahead. -/
structure Ahead (sb : Sbuf) (bs : Bytes) : Prop where
  ok : sb.Readable
  rest : sb.rest = bs

section

variable {sb : Sbuf} {h : Heap} {v bs : Bytes}

theorem Ahead.skip (ahead : Ahead sb (v ++ bs)) : Ahead (sb.skip v.length) bs := by
  have hle : v.length ≤ sb.rest.length := by
    rw [ahead.rest, List.length_append]
    omega
  refine ⟨ahead.ok.skip hle, ?_⟩
  rw [Sbuf.rest_skip hle, ahead.rest, List.drop_left]

/-- A getter of so many bytes decodes them. -/
theorem Ahead.get (dec : Bytes → Nat) (ahead : Ahead sb (v ++ bs)) :
    sb.get v.length dec h = .ok ((dec v, sb.skip v.length), h) := by
  rw [Sbuf.get_rest ahead.ok, ahead.rest, if_pos (by simp), List.take_left]

theorem Ahead.get8 {n : Nat} (hlt : n < 256) (ahead : Ahead sb (bytePut8 n ++ bs)) :
    sb.get8 h = .ok ((n, sb.skip 1), h) := by
  have hn : (UInt8.ofNat n).toNat = n := by simp [Nat.mod_eq_of_lt hlt]
  refine (ahead.get fun v => (v.getD 0 0).toNat).trans ?_
  simp only [bytePut8, List.getD_cons_zero, hn, List.length_singleton]

theorem Ahead.get16 {n : Nat} (hlt : n < 65536) (ahead : Ahead sb (bytePut16 n ++ bs)) :
    sb.get16 h = .ok ((n, sb.skip 2), h) := by
  have hn : Naf.byteGet16 (UInt8.ofNat (n >>> 8)) (UInt8.ofNat n) = n := Naf.byteGet16_bytePut16 hlt
  refine (ahead.get fun v => Naf.byteGet16 (v.getD 0 0) (v.getD 1 0)).trans ?_
  simp only [bytePut16, List.getD_cons_zero, List.getD_cons_succ, hn, List.length_cons, List.length_nil]

theorem Ahead.getrawbuf (ahead : Ahead sb (v ++ bs)) :
    sb.getrawbuf v.length h = .ok ((some v, sb.skip v.length), h) := by
  rw [Sbuf.getrawbuf_rest ahead.ok, ahead.rest, if_pos (by simp), List.take_left]

theorem Ahead.getraw (hwilling : h.refuse = []) (ahead : Ahead sb (v ++ bs)) :
    sb.getraw v.length h = .ok ((some v, sb.skip v.length), h) :=
  (bind_of_ok (Naf.malloc_of_willing hwilling)).trans ahead.getrawbuf

/-- A string without a NUL is read as it is. -/
theorem Ahead.getstr (hwilling : h.refuse = []) (hnul : 0 ∉ v) (ahead : Ahead sb (v ++ bs)) :
    sb.getstr v.length h = .ok ((some v, sb.skip v.length), h) := by
  unfold Sbuf.getstr
  rw [bind_of_ok (Naf.malloc_of_willing hwilling)]
  dsimp only
  rw [bind_of_ok ahead.getrawbuf]
  dsimp only [Option.map]
  rw [Naf.cstring_self hnul]
  rfl

end

/-! ## User info -/

namespace Touserinfo

/-- Both counts fit their words, and the name is one. -/
structure Fits (toui : Touserinfo) : Prop where
  name_le : toui.sn.length ≤ 255
  nulfree : 0 ∉ toui.sn
  evillevel_lt : toui.evillevel < 65536
  count_le : toui.tlvh.length ≤ 65535
  wf : ∀ tlv ∈ toui.tlvh, tlv.Wf

/-- What is in front of the TLVs. -/
def pieces (toui : Touserinfo) : List Bytes :=
  [bytePut8 toui.sn.length, toui.sn, bytePut16 toui.evillevel, bytePut16 toui.tlvh.length]

/-- The block. -/
def encode (toui : Touserinfo) : Bytes := toui.pieces.flatten ++ Tlv.encode toui.tlvh

theorem length_encode {toui : Touserinfo} (fits : toui.Fits) :
    toui.encode.length = 1 + toui.sn.length + 2 + 2 + Tlv.getrenderedsize toui.tlvh := by
  rw [encode, List.length_append, Tlv.length_encode_of_wf fits.wf]
  simp only [pieces, List.flatten_cons, List.flatten_nil, List.length_append, Naf.length_bytePut8,
    Naf.length_bytePut16, List.length_nil]
  omega

end Touserinfo

section

variable {toui : Touserinfo} {sb : Sbuf} {h : Heap} {bs : Bytes}

/-- The block is read as it was written, and nothing behind it. -/
theorem touserinfoExtract_encode (hwilling : h.refuse = []) (fits : toui.Fits)
    (ahead : Ahead sb (toui.encode ++ bs)) :
    touserinfoExtract sb h = .ok ((some toui, sb.skip toui.encode.length), h) := by
  have hsplit : toui.encode ++ bs = bytePut8 toui.sn.length ++ (toui.sn ++ (bytePut16 toui.evillevel ++
      (bytePut16 toui.tlvh.length ++ (Tlv.encode toui.tlvh ++ bs)))) := by
    simp [Touserinfo.encode, Touserinfo.pieces]
  rw [hsplit] at ahead
  have ahead₁ : Ahead (sb.skip 1) _ := ahead.skip
  have ahead₂ := ahead₁.skip
  have ahead₃ : Ahead (((sb.skip 1).skip toui.sn.length).skip 2) _ := ahead₂.skip
  have ahead₄ : Ahead ((((sb.skip 1).skip toui.sn.length).skip 2).skip 2) _ := ahead₃.skip
  have hend : ((((sb.skip 1).skip toui.sn.length).skip 2).skip 2).skip (Tlv.encode toui.tlvh).length =
      sb.skip toui.encode.length := by
    rw [Touserinfo.length_encode fits, Tlv.length_encode_of_wf fits.wf]
    simp only [Sbuf.skip, Nat.add_assoc]
  unfold touserinfoExtract
  rw [bind_of_ok (Naf.malloc_of_willing hwilling)]
  dsimp only
  rw [bind_of_ok (ahead.get8 (Nat.lt_succ_of_le fits.name_le))]
  dsimp only
  rw [bind_of_ok (ahead₁.getstr hwilling fits.nulfree)]
  dsimp only
  rw [bind_of_ok (ahead₂.get16 fits.evillevel_lt)]
  dsimp only
  rw [bind_of_ok (ahead₃.get16 (Nat.lt_succ_of_le fits.count_le))]
  dsimp only
  rw [bind_of_ok (Tlv.parseLimit_encode ahead₄.ok hwilling fits.wf ahead₄.rest)]
  rw [← hend]
  rfl

/-- With room for it the block is appended. -/
theorem touserinfoRender_of_room (hwilling : h.refuse = []) (fits : toui.Fits) (ok : sb.Ok)
    (hroom : sb.pos + toui.encode.length ≤ sb.buflen) :
    ∃ sb', touserinfoRender toui sb h = .ok (sb', h) ∧ Appends sb toui.encode sb' := by
  have hlen : toui.encode.length = toui.pieces.flatten.length + (Tlv.encode toui.tlvh).length :=
    List.length_append
  obtain ⟨sb₁, hput, happ₁, -⟩ := Sbuf.putEach_of_room (h := h) toui.pieces ok
    (show sb.pos + toui.pieces.flatten.length ≤ sb.buflen by omega)
  have hpieces : [bytePut8 (toui.sn.length % 256), toui.sn, bytePut16 toui.evillevel,
      bytePut16 (Tlv.gettotallength toui.tlvh % 65536)] = toui.pieces := by
    rw [Nat.mod_eq_of_lt (Nat.lt_succ_of_le fits.name_le), Tlv.gettotallength,
      Nat.mod_eq_of_lt (Nat.lt_succ_of_le fits.count_le)]
    rfl
  have hshape : Tlv.shape toui.tlvh (sb₁.shape h) = _ := Tlv.shape_of_room (by
    have hpos := happ₁.pos
    have hle := happ₁.le
    simp only [Sbuf.shape]
    omega)
  obtain ⟨sb₂, h', hrender, happ₂, -⟩ := Tlv.render_of_shape happ₁.ok hshape
  obtain rfl := (Tlv.render_plain _ _).steady hwilling hrender
  refine ⟨sb₂, ?_, happ₁.trans happ₂⟩
  rw [touserinfoRender_eq, hpieces, bind_of_ok hput]
  unfold renderEach
  rw [bind_of_ok hrender]
  rfl

/-- User info that was rendered is extracted again, and the cursor is at what follows it: a
chain that comes there is parsed from its first TLV on. -/
theorem touserinfo_codec (hwilling : h.refuse = []) (fits : toui.Fits) (ok : sb.Ok)
    (hroom : sb.pos + (1 + toui.sn.length + 2 + 2 + Tlv.getrenderedsize toui.tlvh) ≤ sb.buflen) :
    ∃ sb' bytes, touserinfoRender toui sb h = .ok (sb', h) ∧ Appends sb bytes sb' ∧
      ∀ (rd : Sbuf) (more : Bytes), rd.Readable → rd.rest = bytes ++ more →
        touserinfoExtract rd h = .ok ((some toui, rd.skip bytes.length), h) ∧
          (rd.skip bytes.length).rest = more ∧
          ∀ tlvs : List Tlv, (∀ tlv ∈ tlvs, tlv.Wf) → more = Tlv.encode tlvs →
            Tlv.parse (rd.skip bytes.length) h = .ok ((tlvs, (rd.skip bytes.length).skip more.length), h) := by
  rw [← Touserinfo.length_encode fits] at hroom
  obtain ⟨sb', hrender, happ⟩ := touserinfoRender_of_room hwilling fits ok hroom
  refine ⟨sb', toui.encode, hrender, happ, ?_⟩
  intro rd more okrd hrest
  have ahead : Ahead rd (toui.encode ++ more) := ⟨okrd, hrest⟩
  refine ⟨touserinfoExtract_encode hwilling fits ahead, ahead.skip.rest, ?_⟩
  rintro tlvs hwf rfl
  exact Tlv.parse_encode ahead.skip.ok hwilling hwf ahead.skip.rest

end

/-- A client with one TLV about it. -/
def onlineinfo : Touserinfo := { sn := [98, 111, 98], evillevel := 5, tlvh := [⟨1, 2, some [0, 16]⟩] }

theorem onlineinfo_fits : onlineinfo.Fits where
  name_le := by decide
  nulfree := by decide
  evillevel_lt := by decide
  count_le := by decide
  wf := by
    intro tlv htlv
    rw [List.mem_singleton.1 htlv]
    exact ⟨by decide, by decide, rfl, rfl⟩

/-- A fixed buffer of twenty bytes. -/
def twenty : Sbuf :=
  { autoresize := false, freebuf := false, block := ⟨20, fun _ => 0⟩, buflen := 20, pos := 0 }

theorem twenty_ok : twenty.Ok := ⟨rfl, by decide, by decide⟩

theorem touserinfo_codec_online :
    ∃ sb' bytes, touserinfoRender onlineinfo twenty Heap.zeroed = .ok (sb', Heap.zeroed) ∧
      Appends twenty bytes sb' ∧
      ∀ (rd : Sbuf) (more : Bytes), rd.Readable → rd.rest = bytes ++ more →
        touserinfoExtract rd Heap.zeroed = .ok ((some onlineinfo, rd.skip bytes.length), Heap.zeroed) ∧
          (rd.skip bytes.length).rest = more ∧
          ∀ tlvs : List Tlv, (∀ tlv ∈ tlvs, tlv.Wf) → more = Tlv.encode tlvs →
            Tlv.parse (rd.skip bytes.length) Heap.zeroed =
              .ok ((tlvs, (rd.skip bytes.length).skip more.length), Heap.zeroed) :=
  touserinfo_codec rfl onlineinfo_fits twenty_ok (by decide)

/-- Without memory nothing is extracted, and the cursor stays where it was. -/
theorem touserinfo_refused : onlineinfo.Fits ∧ ∃ rd : Sbuf, rd.Readable ∧ rd.rest = onlineinfo.encode ∧
    touserinfoExtract rd ⟨[true], fun _ _ => 0⟩ = .ok ((none, rd), Heap.zeroed) :=
  ⟨onlineinfo_fits, ⟨false, false, ⟨14, fun i => onlineinfo.encode.getD i 0⟩, 14, 0⟩,
    ⟨by decide, by decide, by decide⟩, by decide, rfl⟩

end Timps.Oscar
