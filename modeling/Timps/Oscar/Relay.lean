-- SUMMARY: Relaying a message: the chains that it is rendered as, and the SNACs that are built from it.
import Timps.Naf.Chain
import Timps.Naf.Laying
import Timps.Oscar.Snacframes

/-!
# Relayed messages

A message is put together again from its text, its flags and what its tags kept. With
memory enough the buffer that is sent holds a head of fixed pieces, and behind it the
chains that `Tlv.renderEach` renders there.
-/

namespace Timps.Oscar

open Naf (Heap Mem Plain Sbuf Tlv bytePut8 bytePut16 malloc)
open Naf.Sbuf (Appends Growing Shape putEach)
open Naf.Tlv (encode renderEach)
open Prog (Gives bind_ok bind_of_ok bind_of_error pure_ok)
open Sys (mem)

/-! ## Programs over memory -/

/-- With memory enough a program over memory can be exchanged for one that goes on alike. -/
theorem bind_congr_steady {α β : Type} {x : Mem α} {f g : α → Mem β} {h : Heap} (hx : Plain x)
    (hwilling : h.refuse = []) (hfg : ∀ a, f a h = g a h) : (x >>= f) h = (x >>= g) h := by
  cases hr : x h with
  | error e => rw [bind_of_error hr, bind_of_error hr]
  | ok r =>
      obtain ⟨a, h'⟩ := r
      obtain rfl := hx.steady hwilling hr
      rw [bind_of_ok hr, bind_of_ok hr, hfg a]

/-- The same behind a program over memory. -/
theorem mem_bind_congr {α β : Type} {x : Mem α} {f g : α → Sys β} {w : World} (hx : Plain x)
    (hwilling : w.env.heap.refuse = []) (hfg : ∀ a, f a w = g a w) : (mem x >>= f) w = (mem x >>= g) w := by
  cases hr : x w.env.heap with
  | error e =>
      have herror : mem x w = .error e := Prog.focus_error.2 hr
      rw [bind_of_error herror, bind_of_error herror]
  | ok r =>
      obtain ⟨a, h⟩ := r
      obtain rfl := hx.steady hwilling hr
      rw [bind_of_ok (Sys.mem_of_steady hr), bind_of_ok (Sys.mem_of_steady hr), hfg a]

/-- A program over memory can be run in parts. -/
theorem mem_bind {α β : Type} (x : Mem α) (f : α → Mem β) :
    mem (x >>= f) = mem x >>= fun a => mem (f a) := by
  funext w
  cases hr : x w.env.heap with
  | error e =>
      have hleft : mem (x >>= f) w = .error e := Prog.focus_error.2 (bind_of_error hr)
      have hright : mem x w = .error e := Prog.focus_error.2 hr
      rw [hleft, bind_of_error hright]
  | ok r =>
      obtain ⟨a, h⟩ := r
      have hright : mem x w = .ok (a, w.setHeap h) := Prog.focus_of_ok hr
      rw [bind_of_ok hright]
      simp only [mem, Prog.focus, bind_of_ok hr]
      rfl

/-! ## The chains of a message -/

/-- The chain that the text of a message is rendered as: the message TLV that it came with,
when that says more than the text, or a new one. -/
def msgtlvs (gm : Msg) : Mem (List Tlv) :=
  match Gnr.msgTagFetch module gm (Naf.lit "gnrmsg.oscarmsgtlv") with
  | some ⟨_, _, _, .oscarmsgtlv msgtlv⟩ => pure [msgtlv]
  | _ => addoscarmsgblock [] 0x0002 gm.msgtext

def flagtlvs (flags : Gnr.Msgflags) : List Tlv :=
  (if flags.ackrequested then [⟨0x0003, 0, none⟩] else []) ++
    if flags.autoresponse then [⟨0x0004, 0, none⟩] else []

def extratlvs (gm : Msg) : List Tlv :=
  match Gnr.msgTagFetch module gm (Naf.lit "gnrmsg.extraoscartlvs") with
  | some ⟨_, _, _, .extraoscartlvs tlvs⟩ => tlvs
  | _ => []

/-- Render a message: what is rendered does not depend on what was. -/
def renderchains (gm : Msg) (sb : Sbuf) : Mem Sbuf := do
  let msg ← msgtlvs gm
  renderEach [msg, flagtlvs gm.msgflags, extratlvs gm] sb

theorem addoscarmsgblock_plain (tlvh : List Tlv) (type : Nat) (msgtext : Option CStr) :
    Plain (addoscarmsgblock tlvh type msgtext) := by
  cases msgtext with
  | none => exact .pure _
  | some msgtext =>
      refine .bind (Naf.malloc_plain _) fun buf => ?_
      cases buf with
      | none => exact .pure _
      | some buf =>
          refine .bind (Sbuf.init_plain _ _) fun sb => ?_
          cases sb with
          | none => exact .pure _
          | some sb =>
              iterate 13 refine .bind (Sbuf.put_plain _ _) fun (_, sb) => ?_
              exact .bind (Naf.Block.load_plain _ _ _) fun v => .map (Tlv.addraw_plain _ _ _)

/-- The pieces of a message block with one section of text. -/
def blockpieces (msgtext : CStr) : List Bytes :=
  [bytePut8 0x05, bytePut8 0x01, bytePut16 0x0004, bytePut8 0x01, bytePut8 0x01, bytePut8 0x01, bytePut8 0x02,
    bytePut8 0x01, bytePut8 0x01, bytePut16 ((msgtext.length + 4) % 65536), bytePut16 0x0000, bytePut16 0x0000,
    msgtext]

/-- The message TLV of a text. -/
def texttlv (type : Nat) (msgtext : CStr) : Tlv :=
  ⟨type, 16 + msgtext.length, some (blockpieces msgtext).flatten⟩

theorem length_blockpieces (msgtext : CStr) : (blockpieces msgtext).flatten.length = 16 + msgtext.length := by
  simp [blockpieces, Naf.length_bytePut8, Naf.length_bytePut16]
  omega

/-- The block is put piece by piece into a buffer of its length. -/
theorem addoscarmsgblock_split (tlvh : List Tlv) (type : Nat) (msgtext : CStr) :
    addoscarmsgblock tlvh type (some msgtext) = (do
      match ← malloc (16 + msgtext.length) with
      | none => pure tlvh
      | some buf => do
          let sb : Sbuf := ⟨false, false, buf, (16 + msgtext.length) % 65536, 0⟩
          let sb ← sb.putEach (blockpieces msgtext)
          let v ← sb.block.load 0 sb.pos
          Prod.snd <$> Tlv.addraw tlvh type v) := by
  unfold addoscarmsgblock
  dsimp only
  congr 1
  funext buf
  cases buf with
  | none => rfl
  | some buf =>
      simp only [blockpieces, putEach, bind_assoc, pure_bind, Sbuf.init]
      rfl

/-- With memory enough, a text that is not too long becomes a block of its own. -/
theorem addoscarmsgblock_eq {h : Heap} (tlvh : List Tlv) (type : Nat) {msgtext : CStr} (hwilling : h.refuse = [])
    (hlen : 16 + msgtext.length < 65536) :
    addoscarmsgblock tlvh type (some msgtext) h = .ok (tlvh ++ [texttlv type msgtext], h) := by
  have hblock := length_blockpieces msgtext
  have ok : Sbuf.Ok ⟨false, false, ⟨16 + msgtext.length, h.junk (16 + msgtext.length)⟩, 16 + msgtext.length, 0⟩ :=
    ⟨rfl, hlen, Nat.zero_le _⟩
  obtain ⟨sb, hput, happ, -⟩ :=
    Sbuf.putEach_of_room (h := h) (blockpieces msgtext) ok
      (show 0 + (blockpieces msgtext).flatten.length ≤ _ by rw [hblock]; exact Nat.le_of_eq (Nat.zero_add _))
  have hwritten : sb.block.bytes 0 sb.pos = (blockpieces msgtext).flatten := happ.written
  rw [addoscarmsgblock_split, bind_of_ok (Naf.malloc_of_willing hwilling)]
  dsimp only
  rw [Nat.mod_eq_of_lt hlen, bind_of_ok hput]
  have hle : 0 + sb.pos ≤ sb.block.size := by
    rw [happ.ok.size, Nat.zero_add]
    exact happ.ok.pos_le
  rw [bind_of_ok (Naf.Block.load_of_le hle), hwritten]
  refine Prog.map_ok.2 ⟨_, _, Tlv.addraw_willing type _ hwilling, ?_⟩
  rw [hblock, if_neg (by omega)]
  rfl

/-- Whatever the text, the chain grows by one TLV at most. -/
theorem addoscarmsgblock_gives {type : Nat} (htype : type < 65536) (msgtext : Option CStr) :
    Gives (addoscarmsgblock [] type msgtext) fun msg =>
      msg.length ≤ 1 ∧ ∀ tlv ∈ msg, tlv.type = type ∧ tlv.Wf := by
  have hnil : ([] : List Tlv).length ≤ 1 ∧ ∀ tlv ∈ ([] : List Tlv), tlv.type = type ∧ tlv.Wf :=
    ⟨Nat.zero_le _, fun tlv h => nomatch h⟩
  cases msgtext with
  | none => exact .pure hnil
  | some msgtext =>
      rw [addoscarmsgblock_split]
      refine .bind (P := fun _ => True) .trivial fun buf _ => ?_
      cases buf with
      | none => exact .pure hnil
      | some buf =>
          refine .bind (Sbuf.putEach_pos_lt (show 0 < 65536 by decide)) fun sb hpos => ?_
          refine .bind (P := fun v => v.length < 65536) ?_ fun v hv => ?_
          · intro h v h' hr
            obtain ⟨-, heq⟩ := Naf.Block.load_ok.1 hr
            cases heq
            rwa [Naf.Block.length_bytes]
          · exact .map (Tlv.addraw_gives htype hv) fun r hr => hr

theorem msgtlvs_plain (gm : Msg) : Plain (msgtlvs gm) := by
  unfold msgtlvs
  split
  · exact .pure _
  · exact addoscarmsgblock_plain _ _ _

section

variable {gm : Msg} {sb : Sbuf} {h : Heap}

theorem flagtlvs_eq (hwilling : h.refuse = []) (flags : Gnr.Msgflags) :
    (do
      let tlvh ← (if flags.ackrequested then Prod.snd <$> Tlv.addnoval [] 0x0003 else pure [])
      if flags.autoresponse then Prod.snd <$> Tlv.addnoval tlvh 0x0004 else pure tlvh : Mem (List Tlv)) h =
        .ok (flagtlvs flags, h) := by
  have hadd : ∀ (tlvs : List Tlv) (type : Nat),
      (Prod.snd <$> Tlv.addnoval tlvs type) h = .ok (tlvs ++ [⟨type, 0, none⟩], h) := fun tlvs type =>
    Prog.map_ok.2 ⟨_, _, Tlv.addraw_willing type [] hwilling, rfl⟩
  obtain ⟨auto, ack⟩ := flags
  unfold flagtlvs
  cases ack with
  | true =>
      rw [if_pos rfl, bind_of_ok (hadd [] 0x0003)]
      cases auto with
      | true => exact hadd _ 0x0004
      | false => rfl
  | false =>
      rw [if_neg Bool.false_ne_true, pure_bind]
      cases auto with
      | true => exact hadd [] 0x0004
      | false => rfl

/-- The channel 1 renderer, with its three chains named. -/
theorem renderchan1_split (gm : Msg) (sb : Sbuf) :
    renderchan1 gm sb = (do
      let (_, sb) ← msgtlvs gm >>= fun msg => Tlv.render msg sb
      let tlvh ← (if gm.msgflags.ackrequested then Prod.snd <$> Tlv.addnoval [] 0x0003 else pure [])
      let tlvh ← (if gm.msgflags.autoresponse then Prod.snd <$> Tlv.addnoval tlvh 0x0004 else pure tlvh)
      renderEach [tlvh, extratlvs gm] sb) := by
  unfold renderchan1 msgtlvs extratlvs
  generalize Gnr.msgTagFetch module gm (Naf.lit "gnrmsg.oscarmsgtlv") = msgtlv
  generalize Gnr.msgTagFetch module gm (Naf.lit "gnrmsg.extraoscartlvs") = extra
  rcases msgtlv with _ | ⟨_, _, _, _ | _ | msgtlv | _ | _⟩ <;>
    rcases extra with _ | ⟨_, _, _, _ | _ | _ | extra | _⟩ <;> rfl

/-- With memory enough the channel 1 renderer renders the three chains of the message. -/
theorem renderchan1_eq (hwilling : h.refuse = []) : renderchan1 gm sb h = renderchains gm sb h := by
  have hplain : Plain (msgtlvs gm >>= fun msg => Tlv.render msg sb) :=
    .bind (msgtlvs_plain gm) fun _ => Tlv.render_plain _ _
  rw [renderchan1_split]
  unfold renderchains
  simp only [renderEach]
  rw [← bind_assoc]
  apply bind_congr_steady hplain hwilling
  rintro ⟨n, sb₁⟩
  dsimp only
  rw [← bind_assoc, bind_of_ok (flagtlvs_eq hwilling gm.msgflags)]

end

/-! ## Building the SNAC -/

/-- The user info that is rendered: the one the message came with, or one that only has the name. -/
def srcinfoOf (gm : Msg) : Touserinfo :=
  match Gnr.msgTagFetch module gm (Naf.lit "gnrmsg.srcuserinfo") with
  | some ⟨_, _, _, .srcuserinfo srcinfo⟩ => srcinfo
  | _ => { sn := gm.srcname.getD [], evillevel := 0, tlvh := [] }

/-- The cookie, the channel and the name of the destination. -/
def outgoinghead (ck : Bytes) (destname : CStr) : List Bytes :=
  [ck, bytePut16 0x0001, bytePut8 (destname.length % 256), destname]

/-- The cookie, the channel and the user info up to its TLVs. -/
def incominghead (ck : Bytes) (srcinfo : Touserinfo) : List Bytes :=
  [ck, bytePut16 0x0001, bytePut8 (srcinfo.sn.length % 256), srcinfo.sn, bytePut16 srcinfo.evillevel,
    bytePut16 (Tlv.gettotallength srcinfo.tlvh % 65536)]

/-- The message without its acknowledgement flag. -/
def unacked (gm : Msg) : Msg := { gm with msgflags := { gm.msgflags with ackrequested := false } }

/-- A buffer that holds a SNAC head and the pieces behind it. -/
structure Headed (sb : Sbuf) (h : Heap) (head : Bytes) (pieces : List Bytes) : Prop where
  written : sb.written = head ++ pieces.flatten
  shape : sb.shape h = snacshape.afterEach pieces
  growing : Growing sb h 0

/-- A channel 1 message with a cookie. -/
structure Carries (gm : Msg) (ck : Bytes) : Prop where
  type : gm.type = .im
  cookie : ∃ owner name type,
    Gnr.msgTagFetch module gm (Naf.lit "gnrmsg.oscarmsgcookie") = some ⟨owner, name, type, .oscarmsgcookie ck⟩

section

variable {gm : Msg} {ck : Bytes} {sb : Sbuf} {h : Heap} {w : World}

theorem putmsgck_eq (carries : Carries gm ck) :
    putmsgck gm sb = Prod.snd <$> mem (sb.putraw ck) := by
  obtain ⟨owner, name, type, hck⟩ := carries.cookie
  unfold putmsgck
  rw [hck]

theorem icbmchan_eq (carries : Carries gm ck) : icbmchan gm = some 0x0001 := if_pos carries.type

/-- The head of an ICBM, and the pieces behind it. -/
theorem headed (subtype id : Nat) (pieces : List Bytes) (hlen : pieces.flatten.length ≤ 15000)
    (hwilling : h.refuse = []) :
    ∃ sb₀, newsnacsb 0x0004 subtype 0x0000 id h = .ok (some sb₀, h) ∧
      ∃ sb, sb₀.putEach pieces h = .ok (sb, h) ∧
        Headed sb h (snachead 0x0004 subtype 0x0000 id) pieces := by
  obtain ⟨sb₀, hnew, hwritten₀, hshape₀, growing₀⟩ :=
    newsnacsb_growing 0x0004 subtype 0x0000 id (n := pieces.flatten.length + 0) (by omega) hwilling
  obtain ⟨sb, hput, happ, hshape, growing⟩ := growing₀.putEach
  refine ⟨sb₀, hnew, sb, hput, ?_, ?_, growing⟩
  · rw [happ.written, hwritten₀]
  · rw [hshape, hshape₀]

/-- The two steps of a render: the pieces in front of the TLVs, and the TLVs. -/
theorem touserinfoRender_eq (toui : Touserinfo) (sb : Sbuf) :
    touserinfoRender toui sb = (do
      let sb ← sb.putEach [bytePut8 (toui.sn.length % 256), toui.sn, bytePut16 toui.evillevel,
        bytePut16 (Tlv.gettotallength toui.tlvh % 65536)]
      renderEach [toui.tlvh] sb) := by
  simp only [touserinfoRender, putEach, renderEach, bind_assoc, pure_bind]
  rfl

theorem putsrcinfo_eq (hwilling : h.refuse = []) :
    putsrcinfo gm sb h = (some <$> touserinfoRender (srcinfoOf gm) sb) h := by
  have hnew : touserinfoNew (gm.srcname.getD []) h =
      .ok (some { sn := gm.srcname.getD [], evillevel := 0, tlvh := [] }, h) := by
    unfold touserinfoNew
    rw [bind_of_ok (Naf.malloc_of_willing hwilling)]
    dsimp only
    rw [bind_of_ok (Naf.malloc_of_willing hwilling)]
    rfl
  unfold putsrcinfo srcinfoOf
  generalize Gnr.msgTagFetch module gm (Naf.lit "gnrmsg.srcuserinfo") = srcinfo
  rcases srcinfo with _ | ⟨_, _, _, _ | _ | _ | _ | srcinfo⟩
  · exact bind_of_ok hnew
  · exact bind_of_ok hnew
  · exact bind_of_ok hnew
  · exact bind_of_ok hnew
  · exact bind_of_ok hnew
  · rfl

/-- A program over memory only looks at memory. -/
theorem mem_congr {α β : Type} {x y : Mem α} {f : α → Sys β} (hxy : x w.env.heap = y w.env.heap) :
    (mem x >>= f) w = (mem y >>= f) w := by
  apply Prog.bind_congr_left
  simp only [mem, Prog.focus, hxy]

/-- The chains of a message, rendered one after the other. -/
theorem renderchains_bind (gm : Msg) {α : Type} (f : Sbuf → Sys α) (hwilling : w.env.heap.refuse = []) :
    (mem (renderchan1 gm sb) >>= f) w = (do
      let msg ← mem (msgtlvs gm)
      let sb ← mem (renderEach [msg, flagtlvs gm.msgflags, extratlvs gm] sb)
      f sb) w := by
  rw [mem_congr (renderchan1_eq hwilling)]
  unfold renderchains
  rw [mem_bind, bind_assoc]

/-- An incoming message: its head, and the chains that are sent behind it. -/
theorem sendincoming_eq (cid : Option Nat) (carries : Carries gm ck) (hck : ck.length ≤ msgcookielen)
    (hname : (srcinfoOf gm).sn.length ≤ maxsnaclen) (hwilling : w.env.heap.refuse = []) :
    ∃ sb, Headed sb w.env.heap (snachead 0x0004 0x0007 0x0000 (snacidOf gm ||| 0x80000000))
        (incominghead ck (srcinfoOf gm)) ∧
      sendincoming cid gm w = (do
        let sb ← mem (renderEach [(srcinfoOf gm).tlvh] sb)
        let msg ← mem (msgtlvs gm)
        let sb ← mem (renderEach [msg, flagtlvs (unacked gm).msgflags, extratlvs gm] sb)
        let b ← sendsbufConsume cid sb
        pure (b, unacked gm)) w := by
  have hlen : (incominghead ck (srcinfoOf gm)).flatten.length ≤ 15000 := by
    simp only [incominghead, List.flatten_cons, List.flatten_nil, List.length_append, List.length_nil,
      Naf.length_bytePut8, Naf.length_bytePut16, msgcookielen, maxsnaclen] at *
    omega
  obtain ⟨sb₀, hnew, sb, hput, hheaded⟩ :=
    headed 0x0007 (snacidOf gm ||| 0x80000000) _ hlen hwilling
  refine ⟨sb, hheaded, ?_⟩
  unfold sendincoming
  rw [icbmchan_eq carries]
  dsimp only
  rw [bind_of_ok (Sys.mem_of_steady hnew)]
  dsimp only
  rw [putmsgck_eq carries]
  obtain ⟨n₁, sb₁, hput₁, hput⟩ := Sbuf.putEach_cons_ok hwilling hput
  obtain ⟨n₂, sb₂, hput₂, hput⟩ := Sbuf.putEach_cons_ok hwilling hput
  have hcookie : (Prod.snd <$> mem (sb₀.putraw ck)) w = .ok (sb₁, w) :=
    Prog.map_ok.2 ⟨_, _, Sys.mem_of_steady hput₁, rfl⟩
  unfold Sbuf.put16
  rw [bind_of_ok hcookie, bind_of_ok (Sys.mem_of_steady hput₂)]
  dsimp only
  -- the user info, as far as it is no TLV, is the rest of the pieces
  have hinfo : putsrcinfo gm sb₂ w.env.heap = (some <$> renderEach [(srcinfoOf gm).tlvh] sb) w.env.heap := by
    rw [putsrcinfo_eq hwilling, touserinfoRender_eq, map_bind]
    exact bind_of_ok hput
  rw [mem_congr hinfo, map_eq_pure_bind, mem_bind, bind_assoc]
  refine mem_bind_congr (Tlv.renderEach_plain _ _) hwilling fun sb₃ => ?_
  have hpure : mem (pure (some sb₃)) = pure (some sb₃) := rfl
  rw [hpure, pure_bind]
  exact renderchains_bind (unacked gm) _ hwilling

end

end Timps.Oscar
