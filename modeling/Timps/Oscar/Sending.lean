-- SUMMARY: Sending ICBMs with memory enough: how many bytes the buffer takes, and the frame that is queued.
import Timps.Oscar.Transit
import Timps.Oscar.Incoming
import Timps.Oscar.Online

/-!
# Sending ICBMs

With memory enough the builders of ICBMs get as far as their frame. It is a SNAC of the
builder's kind, and as long as what the buffer took says, and it is queued if the write
request is granted.
-/

namespace Timps.Oscar

open Naf (Block Heap Mem Plain Sbuf Tlv bytePut16)
open Naf.Sbuf (Head)
open Naf.Tlv (laidEach renderEach)
open Prog (Gives bind_ok bind_of_ok pure_ok read_ok)
open Sys (mem)

/-- The bytes that the buffer takes behind the head of a SNAC. -/
def taken (pieces : List Bytes) (chains : List (List Tlv)) : Nat :=
  (snacshape.takeEach pieces).1 + laidEach chains (snacshape.takeEach pieces).2

section

variable {w w' : World} {b : Bool} {gm : Msg} {ck : Bytes}

/-- A frame is queued when the write request is granted. -/
theorem sendraw_granted {e : Nat} {buf : Block} {buflen : Nat} (hlen : 0 < buflen)
    (hwrite : w.env.writeRefused = []) (hr : sendraw (some e) buf buflen w = .ok (b, w')) : b = true := by
  simp only [sendraw, bind_ok, Sys.conn_ok, Sys.mem_store_ok, Sys.mem_load_ok, Prod.mk.injEq] at hr
  obtain ⟨c, w, ⟨-, rfl⟩, _, _, ⟨-, rfl, rfl⟩, _, _, ⟨-, rfl, rfl⟩, _, _, ⟨-, rfl, rfl⟩, frame, _,
    ⟨-, rfl, rfl⟩, accepted, w₁, hreq, hr⟩ := hr
  have hne : (((buf.fill 0 (Naf.bytePut8 42)).fill 2 (bytePut16 c.nextseqnum)).fill 4
      (bytePut16 ((buflen + 65536 - flaphdrlen) % 65536))).bytes 0 buflen ≠ [] := by
    rw [← List.length_pos_iff, Block.length_bytes]
    exact hlen
  simp only [Naf.Conn.reqwrite, if_neg hne, Sys.now, Sys.observe, bind_ok, read_ok, Sys.modify_ok,
    Sys.writeRefused_ok, Prod.mk.injEq] at hreq
  obtain ⟨_, w, ⟨rfl, rfl⟩, _, _, ⟨-, -, rfl⟩, refused, _, ⟨hrefused, rfl⟩, hreq⟩ := hreq
  have hgranted : refused = false := by
    rw [hrefused]
    simp [World.modify, hwrite]
  rw [hgranted, if_neg Bool.false_ne_true] at hreq
  obtain ⟨_, _, -, hreq⟩ := bind_ok.1 hreq
  cases pure_ok.1 hreq
  rw [if_pos rfl] at hr
  obtain ⟨_, _, -, hr⟩ := bind_ok.1 hr
  cases pure_ok.1 hr
  rfl

/-- A buffer with a SNAC head becomes a frame of that SNAC. -/
theorem snacframe_frameOf {sb : Sbuf} {group subtype flags id seq : Nat}
    (hhead : Head sb (snachead group subtype flags id)) :
    Snacframe group subtype (frameOf sb.block seq sb.pos) := by
  have hlen : (snachead group subtype flags id).length = 16 := by simp [snachead, flaphdr]
  have hle := hhead.le
  rw [hlen] at hle
  have hbytes : sb.block.bytes 0 6 ++ (sb.block.bytes 6 4 ++ sb.block.bytes 10 6) =
      flaphdr 0x02 ++ (bytePut16 group ++ bytePut16 subtype ++ (bytePut16 flags ++ Naf.bytePut32 id)) := by
    have hhead' := hhead.bytes
    rw [hlen] at hhead'
    rw [← Block.bytes_add, ← Block.bytes_add]
    exact hhead'.trans (by simp [snachead])
  obtain ⟨hflap, hsnac⟩ := List.append_inj hbytes (by simp [flaphdr])
  obtain ⟨hgroup, -⟩ := List.append_inj hsnac (by simp)
  constructor
  · simp only [flaphdr, Block.bytes_succ, List.cons.injEq] at hflap
    simp [frameOf, hflap.2.1]
  · have hsplit : sb.pos - 6 = 4 + (sb.pos - 10) := by omega
    have hdrop : (frameOf sb.block seq sb.pos).drop flaphdrlen = sb.block.bytes 6 (sb.pos - 6) := by
      simp [frameOf, flaphdrlen, bytePut16]
    rw [hdrop, hsplit, Block.bytes_add, List.take_left' (by simp), hgroup]

/-- Whatever is rendered, the head of the buffer stays. -/
theorem renderEach_head (chains : List (List Tlv)) {sb : Sbuf} {p : Bytes} (hhead : Head sb p) :
    Gives (renderEach chains sb) fun sb => Head sb p := by
  induction chains generalizing sb with
  | nil => exact .pure hhead
  | cons tlvs chains ih => exact .bind (render_head tlvs hhead) fun r h => ih h

theorem putEach_head (pieces : List Bytes) {sb : Sbuf} {p : Bytes} (hhead : Head sb p) :
    Gives (sb.putEach pieces) fun sb => Head sb p := by
  induction pieces generalizing sb with
  | nil => exact .pure hhead
  | cons v vs ih => exact .bind (hhead.putraw v) fun r h => ih h

/-- A SNAC with these pieces and chains behind its head, as far as the buffer takes them. -/
structure Built (sb : Sbuf) (group subtype : Nat) (pieces : List Bytes) (chains : List (List Tlv)) : Prop where
  head : ∃ id, Head sb (snachead group subtype 0x0000 id)
  pos : sb.pos = 16 + taken pieces chains

/-- With memory enough the SNAC is built of its pieces and its chains. -/
theorem built {h h₁ h₂ h₃ : Heap} {sb₀ sb₁ sb₂ : Sbuf} {group subtype id : Nat} {pieces : List Bytes}
    {chains : List (List Tlv)} (hwilling : h.refuse = [])
    (hnew : newsnacsb group subtype 0x0000 id h = .ok (some sb₀, h₁))
    (hput : sb₀.putEach pieces h₁ = .ok (sb₁, h₂)) (hrender : renderEach chains sb₁ h₂ = .ok (sb₂, h₃)) :
    Built sb₂ group subtype pieces chains := by
  obtain ⟨sb, hnew', -, hshape, growing⟩ := newsnacsb_growing group subtype 0x0000 id (n := 0) (by decide) hwilling
  cases hnew'.symm.trans hnew
  have hhead := newsnacsb_head _ _ _ hnew _ rfl
  have took := growing.elastic.putEach hput
  obtain rfl := took.same
  have hpos := Tlv.renderEach_took took.elastic hrender
  rw [took.shape, took.pos, hshape] at hpos
  refine ⟨⟨id, renderEach_head chains (putEach_head pieces hhead _ _ _ hput) _ _ _ hrender⟩, ?_⟩
  have hsixteen : sb₀.pos = 16 := congrArg Naf.Sbuf.Shape.pos hshape
  rw [hpos, hsixteen, taken]
  omega

/-- With memory enough the cookie that a message carries is put, and nothing else happens. -/
theorem putmsgck_bind {α : Type} {sb : Sbuf} {f : Sbuf → Sys α} {r : α × World} (carries : Carries gm ck)
    (hwilling : w.env.heap.refuse = []) (hr : (putmsgck gm sb >>= f) w = .ok r) :
    ∃ r₁, sb.put ck w.env.heap = .ok (r₁, w.env.heap) ∧ f r₁.2 w = .ok r := by
  rw [putmsgck_eq carries] at hr
  obtain ⟨sb₁, w₁, hput, hr⟩ := bind_ok.1 hr
  obtain ⟨r₁, w₂, hput, heq⟩ := Prog.map_ok.1 hput
  cases heq
  obtain ⟨heq, hput⟩ := mem_steady (Naf.Sbuf.put_plain _ _) hwilling hput
  rw [heq] at hr
  exact ⟨r₁, hput, hr⟩

/-- With memory enough an outgoing message gets as far as its frame. -/
theorem sendoutgoing_built {cid : Option Nat} (carries : Carries gm ck) (hwilling : w.env.heap.refuse = [])
    (hr : sendoutgoing cid gm w = .ok (b, w')) :
    ∃ sb msg, msgtlvs gm w.env.heap = .ok (msg, w.env.heap) ∧
      Built sb 0x0004 0x0006 (outgoinghead ck (gm.destname.getD [])) [msg, flagtlvs gm.msgflags, extratlvs gm] ∧
      sendsbufConsume cid sb w = .ok (b, w') := by
  unfold sendoutgoing at hr
  rw [icbmchan_eq carries] at hr
  obtain ⟨sb₀, hnew, -, -, -⟩ := newsnacsb_growing 0x0004 0x0006 0x0000 (snacidOf gm &&& 0x7fffffff) (n := 0)
    (by decide) hwilling
  dsimp only at hr
  rw [bind_of_ok (Sys.mem_of_steady hnew)] at hr
  obtain ⟨r₁, hck, hr⟩ := putmsgck_bind carries hwilling hr
  obtain ⟨r₂, hchan, hr⟩ := mem_bind_steady (Naf.Sbuf.put_plain _ _) hwilling hr
  obtain ⟨r₃, hlen, hr⟩ := mem_bind_steady (Naf.Sbuf.put_plain _ _) hwilling hr
  obtain ⟨r₄, hname, hr⟩ := mem_bind_steady (Naf.Sbuf.put_plain _ _) hwilling hr
  have hput : sb₀.putEach (outgoinghead ck (gm.destname.getD [])) w.env.heap = .ok (r₄.2, w.env.heap) :=
    (bind_of_ok hck).trans ((bind_of_ok hchan).trans ((bind_of_ok hlen).trans (bind_of_ok hname)))
  rw [renderchains_bind gm _ hwilling] at hr
  obtain ⟨msg, hmsg, hr⟩ := mem_bind_steady (msgtlvs_plain gm) hwilling hr
  obtain ⟨sb, hrender, hr⟩ := mem_bind_steady (Tlv.renderEach_plain _ _) hwilling hr
  exact ⟨sb, msg, hmsg, built hwilling hnew hput hrender, hr⟩

/-- With memory enough an incoming message gets as far as its frame. -/
theorem sendincoming_built {cid : Option Nat} {r : Bool × Msg} (carries : Carries gm ck)
    (hwilling : w.env.heap.refuse = []) (hr : sendincoming cid gm w = .ok (r, w')) :
    ∃ sb msg, msgtlvs gm w.env.heap = .ok (msg, w.env.heap) ∧
      Built sb 0x0004 0x0007 (incominghead ck (srcinfoOf gm))
        [(srcinfoOf gm).tlvh, msg, flagtlvs (unacked gm).msgflags, extratlvs gm] ∧
      sendsbufConsume cid sb w = .ok (r.1, w') := by
  unfold sendincoming at hr
  rw [icbmchan_eq carries] at hr
  obtain ⟨sb₀, hnew, -, -, -⟩ := newsnacsb_growing 0x0004 0x0007 0x0000 (snacidOf gm ||| 0x80000000) (n := 0)
    (by decide) hwilling
  dsimp only at hr
  rw [bind_of_ok (Sys.mem_of_steady hnew)] at hr
  obtain ⟨r₁, hck, hr⟩ := putmsgck_bind carries hwilling hr
  obtain ⟨r₂, hchan, hr⟩ := mem_bind_steady (Naf.Sbuf.put_plain _ _) hwilling hr
  rw [mem_congr (putsrcinfo_eq hwilling), touserinfoRender_eq] at hr
  obtain ⟨r₃, hinfo, hr⟩ := mem_bind_steady
    (.map (.bind (Naf.Sbuf.putEach_plain _ _) fun _ => Tlv.renderEach_plain _ _)) hwilling hr
  obtain ⟨sb₃, h₃, hinfo, heq⟩ := Prog.map_ok.1 hinfo
  cases heq
  obtain ⟨sb₂, h₂, hputinfo, hinfo⟩ := bind_ok.1 hinfo
  obtain rfl := (Naf.Sbuf.putEach_plain _ _).steady hwilling hputinfo
  have hput : sb₀.putEach (incominghead ck (srcinfoOf gm)) w.env.heap = .ok (sb₂, w.env.heap) :=
    (bind_of_ok hck).trans ((bind_of_ok hchan).trans hputinfo)
  replace hr := (renderchains_bind (unacked gm) _ hwilling).symm.trans hr
  obtain ⟨msg, hmsg, hr⟩ := mem_bind_steady (msgtlvs_plain (unacked gm)) hwilling hr
  obtain ⟨sb, hrender, hr⟩ := mem_bind_steady (Tlv.renderEach_plain _ _) hwilling hr
  obtain ⟨b, w₁, hsend, hr⟩ := bind_ok.1 hr
  cases pure_ok.1 hr
  have happend := Tlv.renderEach_append [(srcinfoOf gm).tlvh]
    [msg, flagtlvs (unacked gm).msgflags, extratlvs (unacked gm)] sb₂
  have hall := (congrFun happend _).trans ((bind_of_ok hinfo).trans hrender)
  exact ⟨sb, msg, hmsg, built hwilling hnew hput hall, hsend⟩

/-- The frame that is queued when the write request is granted. -/
structure Frames (frame : Bytes) (group subtype : Nat) (pieces : List Bytes) (chains : List (List Tlv)) : Prop where
  snacframe : Snacframe group subtype frame
  flap : Flap frame ↔ snachdrlen + taken pieces chains ≤ maxsnaclen

/-- A frame on the SNAC channel is accepted when it is not too long. -/
theorem flap_frameOf {buf : Block} {seq buflen : Nat} (hchan : buf.byte 1 = 0x02) :
    Flap (frameOf buf seq buflen) ↔ buflen - 6 ≤ maxsnaclen := by
  constructor
  · rintro ⟨chan, seq₁, seq₂, body, -, hle, heq⟩
    have hlen := congrArg List.length heq
    simp [frameOf] at hlen
    omega
  · intro hle
    exact ⟨buf.byte 1, UInt8.ofNat (seq >>> 8), UInt8.ofNat seq, buf.bytes 6 (buflen - 6), .inr (.inl hchan),
      by simpa using hle, by simp [frameOf, bytePut16]⟩

/-- What is queued of a SNAC that was built, unless the request is refused. -/
theorem Built.sent {sb : Sbuf} {e group subtype : Nat} {pieces : List Bytes} {chains : List (List Tlv)}
    (built : Built sb group subtype pieces chains) (hr : sendsbufConsume (some e) sb w = .ok (b, w')) :
    (w.env.writeRefused = [] → b = true) ∧
    ∃ frame, w'.trace = w.trace ++ [if b then .queued e frame else .refused e] ∧
      Frames frame group subtype pieces chains := by
  obtain ⟨id, hhead⟩ := built.head
  have hsix := Nat.le_trans (six_le_snachead group subtype 0 id) hhead.le
  have hlt := Nat.lt_of_le_of_lt hhead.ok.pos_le hhead.ok.lt
  refine ⟨fun hwrite => sendraw_granted (Nat.lt_of_lt_of_le (by decide) hsix) hwrite hr, ?_⟩
  obtain ⟨c, env, -, -, rfl⟩ := sendraw_ok hsix hlt hr
  have hsnac : Snacframe group subtype (frameOf sb.block c.nextseqnum sb.pos) := snacframe_frameOf hhead
  refine ⟨_, rfl, hsnac, ?_⟩
  have hchan : sb.block.byte 1 = 0x02 := by simpa [frameOf] using hsnac.1
  have hlen : sb.pos - 6 = snachdrlen + taken pieces chains := by
    rw [built.pos, snachdrlen]
    omega
  rw [flap_frameOf hchan, hlen]

end

/-! ## Relaying -/

namespace Icbm

/-- The pieces behind the head of the SNAC, by the way it takes. -/
def pieces (icbm : Icbm) : Way → List Bytes
  | .incoming _ => incominghead icbm.ck icbm.srcinfo
  | .outgoing _ => outgoinghead icbm.ck icbm.destsn

/-- The chains behind these, with `msg` for the message. -/
def chains (icbm : Icbm) (msg : List Tlv) : Way → List (List Tlv)
  | .incoming _ => [icbm.srcinfo.tlvh, msg, icbm.autotlvs, icbm.others]
  | .outgoing _ => [msg, icbm.acktlvs ++ icbm.autotlvs, icbm.others]

/-- What is seen when the message is sent on its way. -/
def Sends (icbm : Icbm) (msg : List Tlv) (granted : Prop) (way : Option Way) (obs : List Obs) : Prop :=
  match way with
  | some (.incoming (some e)) => ∃ (b : Bool) (frame : Bytes), (granted → b = true) ∧
      obs = [if b then .queued e frame else .refused e] ∧
      Frames frame 0x0004 0x0007 (icbm.pieces (.incoming (some e))) (icbm.chains msg (.incoming (some e)))
  | some (.outgoing k) => ∃ (b : Bool) (frame : Bytes), (granted → b = true) ∧
      obs = [if b then .queued k frame else .refused k] ∧
      Frames frame 0x0004 0x0006 (icbm.pieces (.outgoing k)) (icbm.chains msg (.outgoing k))
  | _ => obs = []

end Icbm

/-- With memory enough a message is sent on the way that it has once the name is known. -/
theorem relay_sends {icbm : Icbm} {r : Int × Option CStr} {newname : CStr} {a : Int × Msg} {w w' : World}
    (hwilling : w.env.heap.refuse = []) (hr : relay icbm r newname w = .ok (a, w')) :
    ∃ msg obs, w'.trace = w.trace ++ obs ∧
      (wayOf (known w newname) icbm.srcsn icbm.destsn ≠ none →
        icbm.relayedmsg r w.env.heap = .ok (msg, w.env.heap)) ∧
      icbm.Sends msg (w.env.writeRefused = []) (wayOf (known w newname) icbm.srcsn icbm.destsn) obs := by
  obtain ⟨flags, g, hrelay⟩ := relay_eq icbm r newname hwilling
  have carries : Carries (marked (icbm.message r) flags) icbm.ck := Icbm.message_carries
  rw [hrelay, known_setGnr] at hr
  have hwilling' : ({ w with gnr := g } : World).env.heap.refuse = [] := hwilling
  generalize wayOf (known w newname) icbm.srcsn icbm.destsn = way at hr
  rcases way with _ | e | k
  · cases pure_ok.1 hr
    exact ⟨[], [], (List.append_nil _).symm, fun h => absurd rfl h, rfl⟩
  · obtain ⟨⟨b, gm⟩, w₁, hsend, hr⟩ := bind_ok.1 hr
    cases pure_ok.1 hr
    obtain ⟨sb, msg, hmsg, built, hsend⟩ := sendincoming_built carries hwilling' hsend
    rw [Icbm.msgtlvs_message] at hmsg
    cases e with
    | none =>
        cases pure_ok.1 hsend
        exact ⟨msg, [], (List.append_nil _).symm, fun _ => hmsg, rfl⟩
    | some e =>
        obtain ⟨hgranted, frame, htrace, frames⟩ := built.sent hsend
        rw [Icbm.srcinfoOf_message, Icbm.extratlvs_message] at frames
        exact ⟨msg, _, htrace, fun _ => hmsg, b, frame, hgranted, rfl, frames⟩
  · obtain ⟨b, w₁, hsend, hr⟩ := bind_ok.1 hr
    cases pure_ok.1 hr
    obtain ⟨sb, msg, hmsg, built, hsend⟩ := sendoutgoing_built carries hwilling' hsend
    rw [Icbm.msgtlvs_message] at hmsg
    obtain ⟨hgranted, frame, htrace, frames⟩ := built.sent hsend
    rw [Icbm.extratlvs_message] at frames
    exact ⟨msg, _, htrace, fun _ => hmsg, b, frame, hgranted, rfl, frames⟩

end Timps.Oscar
