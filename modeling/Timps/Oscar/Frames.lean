-- SUMMARY: Outgoing frames: what the builders leave at the head of a buffer, and the one way in which a frame is queued.
import Timps.Naf.SbufBuild
import Timps.Oscar.Snac

/-!
# Outgoing frames

Bodies are built in many places, the header is filled in at one. Every builder leaves
its FLAP header, and a SNAC builder its SNAC head as well, at the head of the buffer;
`sendraw` makes a frame of any buffer with room for the header.
-/

namespace Timps.Oscar

open Naf (Block Mem Sbuf Tlv bytePut8 bytePut16 bytePut32)
open Naf.Sbuf (Head Holds)
open Prog (Gives bind_ok pure_ok read_ok update_ok focus_ok)
open Sys (mem)

/-- A frame: magic, channel, sequence number, the length of the body, the body. -/
def Framed (seq : Nat) (frame : Bytes) : Prop :=
  ∃ chan body, body.length < 65536 ∧
    frame = 42 :: chan :: (bytePut16 seq ++ bytePut16 body.length ++ body)

/-- The header that `puthdr` leaves. -/
def flaphdr (chan : Nat) : Bytes := [42, UInt8.ofNat chan, 0, 0, 0, 4]

/-- The head of a SNAC frame that `newsnacsb` leaves. -/
def snachead (group subtype flags id : Nat) : Bytes :=
  flaphdr 0x02 ++ bytePut16 group ++ bytePut16 subtype ++ bytePut16 flags ++ bytePut32 id

/-! ## Builders -/

section

variable {sb : Sbuf} {p : Bytes}

/-- A head takes six bytes of the room. -/
theorem puthdr_holds {room chan : Nat} (hold : Holds sb p room) (hroom : 6 ≤ room) :
    Gives (puthdr sb chan) fun sb => Holds sb (p ++ flaphdr chan) (room - 6) := by
  unfold puthdr
  refine .bind (hold.put (v := bytePut8 42) (by simp; omega)) fun r₁ h₁ => ?_
  refine .bind (h₁.put (v := bytePut8 chan) (by simp; omega)) fun r₂ h₂ => ?_
  refine .bind (h₂.put (v := bytePut16 0) (by simp; omega)) fun r₃ h₃ => ?_
  refine .bind (h₃.put (v := bytePut16 4) (by simp; omega)) fun r₄ h₄ => ?_
  refine .pure ?_
  have hhdr : p ++ flaphdr chan = p ++ bytePut8 42 ++ bytePut8 chan ++ bytePut16 0 ++ bytePut16 4 := by
    simp [flaphdr, bytePut8, bytePut16]
  rw [hhdr]
  simpa only [Naf.length_bytePut8, Naf.length_bytePut16, Nat.sub_sub] using h₄

/-- A new SNAC begins with its head. -/
theorem newsnacsb_head {group subtype flags id : Nat} : Gives (newsnacsb group subtype flags id)
    fun r => ∀ sb, r = some sb → Head sb (snachead group subtype flags id) := by
  unfold newsnacsb
  refine .bind (Sbuf.init_holds (by decide)) fun r hinit => ?_
  cases r with
  | none => exact .pure (by simp)
  | some sb =>
      refine .bind (puthdr_holds (hinit sb rfl) (by simp)) fun sb h₀ => ?_
      refine .bind (h₀.put (v := bytePut16 group) (by simp)) fun r₁ h₁ => ?_
      refine .bind (h₁.put (v := bytePut16 subtype) (by simp)) fun r₂ h₂ => ?_
      refine .bind (h₂.put (v := bytePut16 flags) (by simp)) fun r₃ h₃ => ?_
      refine .bind (h₃.put (v := bytePut32 id) (by simp)) fun r₄ h₄ => ?_
      refine .pure ?_
      rintro sb' ⟨⟩
      exact h₄.toHead

/-- What is put behind a head leaves it as it is. -/
theorem render_head (tlvs : List Tlv) (hhead : Head sb p) :
    Gives (Tlv.render tlvs sb) fun r => Head r.2 p := by
  induction tlvs generalizing sb with
  | nil => exact .pure hhead
  | cons tlv tlvs ih =>
      simp only [Tlv.render]
      refine .ite (fun _ => ?_) fun _ => .pure hhead
      refine .bind (hhead.put16 _) fun r₁ h₁ => ?_
      refine .bind (h₁.put16 _) fun r₂ h₂ => ?_
      refine .bind (P := fun r : Nat × Sbuf => Head r.2 p) ?_ fun r₃ h₃ => ?_
      · cases tlv.value with
        | none => exact .pure h₂
        | some v => exact h₂.putraw v
      · exact .bind (ih h₃) fun r₄ h₄ => .pure h₄

theorem touserinfoRender_head (toui : Touserinfo) (hhead : Head sb p) :
    Gives (touserinfoRender toui sb) fun sb => Head sb p := by
  unfold touserinfoRender
  refine .bind (hhead.put8 _) fun r₁ h₁ => ?_
  refine .bind (h₁.putstr _) fun r₂ h₂ => ?_
  refine .bind (h₂.put16 _) fun r₃ h₃ => ?_
  refine .bind (h₃.put16 _) fun r₄ h₄ => ?_
  exact .bind (render_head _ h₄) fun r₅ h₅ => .pure h₅

theorem renderchan1_head (gm : Msg) (hhead : Head sb p) :
    Gives (renderchan1 gm sb) fun sb => Head sb p := by
  unfold renderchan1
  refine .bind (P := fun r : Nat × Sbuf => Head r.2 p) ?_ fun r₁ h₁ => ?_
  · split
    · exact render_head _ hhead
    · exact .bind .trivial fun msgtlv _ => render_head _ hhead
  refine .bind .trivial fun flags _ => .bind .trivial fun flags _ => ?_
  refine .bind (render_head flags h₁) fun (_, sb) h₂ => ?_
  dsimp only
  split
  · exact .bind (render_head _ h₂) fun (_, sb) h₃ => .pure h₃
  · exact .pure h₂

theorem putcookie_head (n : Nat) (hhead : Head sb p) :
    Gives (putcookie n sb) fun sb => Head sb p := by
  induction n generalizing sb with
  | zero => exact .pure hhead
  | succ n ih =>
      simp only [putcookie]
      refine .bind .trivial fun r _ => ?_
      exact .bind (.focus (hhead.put8 _)) fun r h => ih h

theorem putmsgck_head (gm : Msg) (hhead : Head sb p) :
    Gives (putmsgck gm sb) fun sb => Head sb p := by
  unfold putmsgck
  split
  · exact .map (.focus (hhead.putraw _)) fun r h => h
  · exact putcookie_head _ hhead

theorem putsrcinfo_head (gm : Msg) (hhead : Head sb p) :
    Gives (putsrcinfo gm sb) fun r => ∀ sb, r = some sb → Head sb p := by
  have hsome : ∀ toui : Touserinfo, Gives (some <$> touserinfoRender toui sb)
      fun r => ∀ sb, r = some sb → Head sb p := by
    intro toui
    refine .map (touserinfoRender_head toui hhead) fun sb h => ?_
    rintro sb' ⟨⟩
    exact h
  unfold putsrcinfo
  split
  · exact hsome _
  · refine .bind .trivial fun r _ => ?_
    cases r with
    | none => exact .pure (by simp)
    | some toui => exact hsome toui

end

/-! ## Queueing -/

/-- The frame that `sendraw` makes of a buffer. -/
def frameOf (buf : Block) (seq buflen : Nat) : Bytes :=
  42 :: buf.byte 1 :: (bytePut16 seq ++ bytePut16 (buflen - 6) ++ buf.bytes 6 (buflen - 6))

/-- With its number and length written in, a buffer is a frame. -/
theorem framed_frameOf {buf : Block} {seq buflen : Nat} (hlt : buflen < 65536) :
    Framed seq (frameOf buf seq buflen) :=
  ⟨buf.byte 1, buf.bytes 6 (buflen - 6), by simp; omega, by simp [frameOf]⟩

/-- Filling in the header makes the frame. -/
theorem fill_header {buf : Block} {seq buflen : Nat} (hhdr : 6 ≤ buflen) :
    (((buf.fill 0 (bytePut8 42)).fill 2 (bytePut16 seq)).fill 4 (bytePut16 (buflen - 6))).bytes 0 buflen =
      frameOf buf seq buflen := by
  obtain ⟨n, rfl⟩ := Nat.exists_eq_add_of_le hhdr
  rw [Block.bytes_add, Nat.add_sub_cancel_left]
  have hbody : ((((buf.fill 0 (bytePut8 42)).fill 2 (bytePut16 seq)).fill 4 (bytePut16 n)).bytes 6 n) =
      buf.bytes 6 n := by
    rw [Block.bytes_fill_after _ _ (by simp), Block.bytes_fill_after _ _ (by simp),
      Block.bytes_fill_after _ _ (by simp)]
  rw [Nat.zero_add, hbody]
  simp [frameOf, Block.bytes_succ, Block.fill, bytePut8, bytePut16]

/-- What is asked of the outside leaves the clock and the memory behind two names alone. -/
structure Same (e e' : Env) : Prop where
  now : e'.now = e.now
  overrun : e'.overrun = e.overrun

/-- The world after a frame was offered to a connection, with the answer `b`. -/
def sent (w : World) (cid : Nat) (b : Bool) (frame : Bytes) (env : Env) : World :=
  { w.modify cid (fun c =>
      { c with
        lasttxSoft := w.env.now
        nextseqnum := if b then (c.nextseqnum + 1) % 65536 else c.nextseqnum }) with
    env
    trace := w.trace ++ [if b then .queued cid frame else .refused cid] }

/-- What became of a write request. -/
def asked (w : World) (cid : Nat) (b : Bool) (frame : Bytes) (env : Env) : World :=
  { w.modify cid (fun c => { c with lasttxSoft := w.env.now }) with
    env
    trace := w.trace ++ [if b then .queued cid frame else .refused cid] }

theorem reqwrite_ok {cid : Nat} {frame : Bytes} {w w' : World} {b : Bool} (hne : frame ≠ [])
    (hr : Naf.Conn.reqwrite cid frame w = .ok (b, w')) :
    ∃ env, Same w.env env ∧ w' = asked w cid b frame env := by
  simp only [Naf.Conn.reqwrite, if_neg hne, Sys.now, Sys.observe, bind_ok, read_ok, Sys.modify_ok,
    Sys.writeRefused_ok, Prod.mk.injEq] at hr
  obtain ⟨_, w, ⟨rfl, rfl⟩, _, _, ⟨-, -, rfl⟩, refused, _, ⟨-, rfl⟩, hr⟩ := hr
  refine ⟨{ w.env with writeRefused := w.env.writeRefused.tail }, ⟨rfl, rfl⟩, ?_⟩
  split at hr
  · obtain ⟨_, _, hobs, hr⟩ := bind_ok.1 hr
    cases update_ok.1 hobs
    cases pure_ok.1 hr
    rfl
  · obtain ⟨_, _, hobs, hr⟩ := bind_ok.1 hr
    cases update_ok.1 hobs
    cases pure_ok.1 hr
    rfl

/-- Every frame is queued here. -/
theorem sendraw_ok {cid : Nat} {buf : Block} {buflen : Nat} {w w' : World} {b : Bool}
    (hhdr : 6 ≤ buflen) (hlt : buflen < 65536)
    (hr : sendraw (some cid) buf buflen w = .ok (b, w')) :
    ∃ c env, w.conn? cid = some c ∧ Same w.env env ∧
      w' = sent w cid b (frameOf buf c.nextseqnum buflen) env := by
  have hlen : (buflen + 65536 - flaphdrlen) % 65536 = buflen - 6 := by
    simp only [flaphdrlen]
    omega
  simp only [sendraw, hlen, bind_ok, Sys.conn_ok, Sys.mem_store_ok, Sys.mem_load_ok,
    Prod.mk.injEq] at hr
  obtain ⟨c, w, ⟨hc, rfl⟩, _, _, ⟨-, rfl, rfl⟩, _, _, ⟨-, rfl, rfl⟩, _, _, ⟨-, rfl, rfl⟩, _, _,
    ⟨-, rfl, rfl⟩, accepted, w₁, hwrite, hr⟩ := hr
  rw [fill_header hhdr] at hwrite
  obtain ⟨env, hsame, rfl⟩ := reqwrite_ok (by simp [frameOf]) hwrite
  refine ⟨c, env, hc, hsame, ?_⟩
  cases accepted with
  | true =>
      obtain ⟨_, _, hmod, hr⟩ := bind_ok.1 hr
      obtain ⟨-, hmod⟩ := Sys.modify_ok.1 hmod
      cases hmod
      cases pure_ok.1 hr
      simp only [sent, asked, World.modify, World.mk.injEq, List.map_map, and_true]
      apply List.map_congr_left
      intro d _
      by_cases hd : d.cid = cid <;> simp [hd]
  | false =>
      cases pure_ok.1 hr
      rfl

end Timps.Oscar
