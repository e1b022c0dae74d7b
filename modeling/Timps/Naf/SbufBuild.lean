-- SUMMARY: Building in a buffer: what every putter keeps, and what a putter with room appends.
import Timps.Naf.Sbuf

/-!
# Building

A frame is built by a chain of putters whose results nobody looks at. Two facts carry
over such a chain: the bytes put first stay at the head of the buffer, and as long as
there is room each putter appends exactly its bytes.
-/

namespace Timps.Naf.Sbuf

open Prog (Gives bind_ok pure_ok)

/-- `p` is at the head of the buffer, before the cursor. -/
structure Head (sb : Sbuf) (p : Bytes) : Prop where
  ok : sb.Ok
  le : p.length ≤ sb.pos
  bytes : sb.block.bytes 0 p.length = p

section

variable {sb sb' : Sbuf} {n : Nat} {h h' : Heap} {p v : Bytes}

/-- Growth, when it returns a buffer, keeps the old one at its head. -/
theorem Head.extendbuf (hhead : Head sb p) (hn : n < 65536)
    (hr : sb.extendbuf n h = .ok (some sb', h')) : Head sb' p ∧ sb'.pos = sb.pos := by
  have hgrant : ¬Refused sb n h := by
    intro href
    obtain ⟨h₁, hnone⟩ := extendbuf_refused hhead.ok.lt hn href
    rw [hnone] at hr
    cases hr
  rw [extendbuf_granted hhead.ok.lt hn hgrant hhead.ok.size] at hr
  split at hr
  · rename_i hfits
    cases hr
    have hpos := hhead.ok.pos_le
    have hlt : grown sb.buflen n < 65536 := by
      rw [grown_eq hhead.ok.lt hn]
      exact Nat.mod_lt _ (by decide)
    refine ⟨⟨⟨rfl, hlt, Nat.le_trans hpos hfits⟩, hhead.le, ?_⟩, rfl⟩
    rw [extended_bytes (by have := hhead.le; omega)]
    exact hhead.bytes
  · cases hr

theorem Head.reserve (hhead : Head sb p) (hr : sb.reserve n h = .ok (some sb', h')) :
    Head sb' p ∧ sb'.pos = sb.pos := by
  by_cases hshort : sb.bytesremaining < n
  · rw [reserve_of_short hshort] at hr
    exact hhead.extendbuf (Nat.mod_lt _ (by decide)) hr
  · rw [reserve_of_room hshort] at hr
    cases hr
    exact ⟨hhead, rfl⟩

/-- What is before the cursor survives a write at the cursor. -/
theorem Head.fill (hhead : Head sb p) (hroom : sb.pos + v.length ≤ sb.block.size) :
    Head { sb with block := sb.block.fill sb.pos v, pos := sb.pos + v.length } p where
  ok := ⟨hhead.ok.size, hhead.ok.lt, by simpa only [hhead.ok.size] using hroom⟩
  le := Nat.le_trans hhead.le (Nat.le_add_right _ _)
  bytes := by
    have hle := hhead.le
    rw [Block.bytes_fill_before _ _ (by omega)]
    exact hhead.bytes

theorem Head.put (hhead : Head sb p) : Gives (sb.put v) fun r => Head r.2 p := by
  intro h r h' hr
  simp only [Sbuf.put] at hr
  obtain ⟨o, h₁, hres, hr⟩ := bind_ok.1 hr
  cases o with
  | none =>
      cases pure_ok.1 hr
      exact hhead
  | some sb' =>
      obtain ⟨hhead', -⟩ := hhead.reserve hres
      obtain ⟨block, h₂, hstore, hr⟩ := bind_ok.1 hr
      obtain ⟨hroom, hblock⟩ := Block.store_ok.1 hstore
      cases hblock
      cases pure_ok.1 hr
      have hsize := hhead'.ok.size
      have hlt := hhead'.ok.lt
      rw [Nat.mod_eq_of_lt (by omega)]
      exact hhead'.fill hroom

theorem Head.put8 (hhead : Head sb p) (v : Nat) : Gives (sb.put8 v) fun r => Head r.2 p := hhead.put

theorem Head.put16 (hhead : Head sb p) (v : Nat) : Gives (sb.put16 v) fun r => Head r.2 p :=
  hhead.put

theorem Head.put32 (hhead : Head sb p) (v : Nat) : Gives (sb.put32 v) fun r => Head r.2 p :=
  hhead.put

theorem Head.putraw (hhead : Head sb p) (v : Bytes) : Gives (sb.putraw v) fun r => Head r.2 p :=
  hhead.put

theorem Head.putstr (hhead : Head sb p) (v : CStr) : Gives (sb.putstr v) fun r => Head r.2 p :=
  hhead.put

end

/-- A place in the buffer is reached without growth. -/
theorem setpos_of_le {sb : Sbuf} {npos : Nat} {h : Heap} (hle : npos ≤ sb.buflen) :
    sb.setpos npos h = .ok ((true, { sb with pos := npos }), h) := by
  rw [setpos, if_neg (Nat.not_lt.2 hle)]
  rfl

/-- A buffer without memory of its own resizes itself. -/
theorem init_autoresize {n : Nat} : Gives (init none n) fun r => ∀ sb, r = some sb → sb.autoresize = true := by
  intro h r h' hr sb heq
  obtain ⟨b, h₁, -, hr⟩ := bind_ok.1 hr
  cases pure_ok.1 hr
  obtain ⟨block, -, rfl⟩ := Option.map_eq_some_iff.1 heq
  rfl

/-- The cursor is a 16-bit number, whatever is put. -/
theorem put_pos_lt {sb : Sbuf} {v : Bytes} (hpos : sb.pos < 65536) :
    Gives (sb.put v) fun r => r.2.pos < 65536 := by
  refine .bind (P := fun _ => True) .trivial fun b _ => ?_
  cases b with
  | none => exact .pure hpos
  | some sb => exact .bind (P := fun _ => True) .trivial fun block _ => .pure (Nat.mod_lt _ (by decide))

/-- The buffer holds exactly `p`, with room for `room` bytes more. -/
structure Holds (sb : Sbuf) (p : Bytes) (room : Nat) : Prop extends Head sb p where
  pos : sb.pos = p.length
  room : sb.pos + room ≤ sb.buflen

section

variable {sb : Sbuf} {room : Nat} {p v : Bytes}

/-- A putter with room appends its bytes. -/
theorem Holds.put (hold : Holds sb p room) (hroom : v.length ≤ room) :
    Gives (sb.put v) fun r => Holds r.2 (p ++ v) (room - v.length) := by
  intro h r h' hr
  have hle := hold.room
  have hsize := hold.ok.size
  have hlt := hold.ok.lt
  have hpos := hold.pos
  have henough : ¬sb.bytesremaining < v.length := by
    rw [hold.ok.bytesremaining]
    omega
  rw [put_of_reserved (reserve_of_room henough) (by omega) (by omega)] at hr
  cases hr
  have hfill := hold.toHead.fill (v := v) (by omega)
  refine ⟨⟨hfill.ok, by simp [hpos], ?_⟩, by simp [hpos], by simp only; omega⟩
  have hown := Block.bytes_fill_same sb.block sb.pos v
  have hold' := hfill.bytes
  simp only [hpos] at hown hold' ⊢
  rw [List.length_append, Block.bytes_add, hold', Nat.zero_add, hown]

/-- A buffer that was just allocated for building. -/
theorem init_holds {n : Nat} (hn : n < 65536) : Gives (init none n)
    fun r => ∀ sb, r = some sb → Holds sb [] (if n = 0 then 512 else n) := by
  intro h r h' hr sb heq
  subst heq
  obtain ⟨ok, hpos⟩ := init_ok hn (by simp) hr
  refine ⟨⟨ok, Nat.zero_le _, rfl⟩, hpos, ?_⟩
  simp only [init] at hr
  obtain ⟨b, h₁, hb, hr⟩ := bind_ok.1 hr
  cases b with
  | none => cases pure_ok.1 hr
  | some b =>
      cases pure_ok.1 hr
      simp

end

end Timps.Naf.Sbuf
