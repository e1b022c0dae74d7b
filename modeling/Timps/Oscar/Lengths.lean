-- SUMMARY: How long the SNACs of relayed messages get, whatever the allocator refuses.
import Timps.Oscar.Sending

/-!
# Lengths

The reader takes frames of up to MAXSNACLEN bytes, and the buffers that frames are built in
grow beyond that. Without memory a part of a message is left out, or the message TLV goes
out in the place of its text. In any case the frame is no longer than what it may be built of.
-/

namespace Timps.Oscar

open Naf (Block Mem Sbuf Tlv bytePut8 bytePut16)
open Naf.Sbuf (Head)
open Naf.Tlv (encode renderEach)
open Prog (Does Gives)
open Sys (mem)

/-! ## The buffer -/

/-- A buffer with `p` at its head and no more than `n` bytes in it. -/
structure Within (sb : Sbuf) (p : Bytes) (n : Nat) : Prop where
  head : Head sb p
  le : sb.pos ≤ n

section

variable {sb : Sbuf} {p : Bytes} {n room : Nat} {gm : Msg}

theorem Within.less (within : Within sb p n) {m : Nat} (hle : n ≤ m) : Within sb p m :=
  ⟨within.head, Nat.le_trans within.le hle⟩

theorem Within.put (within : Within sb p n) (v : Bytes) : Gives (sb.put v) fun r => Within r.2 p (n + v.length) :=
  (within.head.put.and (Sbuf.put_bound within.le)).mono fun _ h => ⟨h.1, h.2⟩

theorem Within.putEach (within : Within sb p n) (vs : List Bytes) :
    Gives (sb.putEach vs) fun sb => Within sb p (n + vs.flatten.length) :=
  ((putEach_head vs within.head).and (Sbuf.putEach_bound within.le vs)).mono fun _ h => ⟨h.1, h.2⟩

theorem Within.render (within : Within sb p n) (tlvs : List Tlv) :
    Gives (Tlv.render tlvs sb) fun r => Within r.2 p (n + (encode tlvs).length) :=
  ((render_head tlvs within.head).and (Tlv.render_bound within.le tlvs)).mono fun _ h => ⟨h.1, h.2⟩

theorem Within.renderEach (within : Within sb p n) (chains : List (List Tlv)) :
    Gives (renderEach chains sb) fun sb => Within sb p (n + (encode chains.flatten).length) :=
  ((renderEach_head chains within.head).and (Tlv.renderEach_bound within.le chains)).mono fun _ h => ⟨h.1, h.2⟩

/-- A SNAC starts with its head and nothing else. -/
theorem newsnacsb_within {group subtype flags id : Nat} : Gives (newsnacsb group subtype flags id)
    fun r => ∀ sb, r = some sb → Within sb (snachead group subtype flags id) 16 := by
  have hbound : Gives (newsnacsb group subtype flags id) fun r => ∀ sb, r = some sb → sb.pos ≤ 16 := by
    unfold newsnacsb puthdr
    refine .bind (Sbuf.init_holds (by decide)) fun r hinit => ?_
    cases r with
    | none => exact .pure (by simp)
    | some sb =>
        have hpos : sb.pos ≤ 0 := Nat.le_of_eq (hinit sb rfl).pos
        simp only [bind_assoc, pure_bind]
        refine .bind (Sbuf.put_bound hpos) fun r₁ h₁ => .bind (Sbuf.put_bound h₁) fun r₂ h₂ => ?_
        refine .bind (Sbuf.put_bound h₂) fun r₃ h₃ => .bind (Sbuf.put_bound h₃) fun r₄ h₄ => ?_
        refine .bind (Sbuf.put_bound h₄) fun r₅ h₅ => .bind (Sbuf.put_bound h₅) fun r₆ h₆ => ?_
        refine .bind (Sbuf.put_bound h₆) fun r₇ h₇ => .bind (Sbuf.put_bound h₇) fun r₈ h₈ => .pure ?_
        rintro sb' ⟨⟩
        exact h₈
  exact (newsnacsb_head.and hbound).mono fun r h sb heq => ⟨h.1 sb heq, h.2 sb heq⟩

/-! ## The message -/

/-- The chain of a text takes the text and 20 bytes more. -/
theorem addoscarmsgblock_bound (type : Nat) (msgtext : Option CStr) :
    Gives (addoscarmsgblock [] type msgtext) fun msg =>
      (encode msg).length ≤ msgtext.elim 0 fun text => 20 + text.length := by
  cases msgtext with
  | none => exact .pure (Nat.le_refl _)
  | some msgtext =>
      rw [addoscarmsgblock_split]
      refine .bind (P := fun _ => True) .trivial fun buf _ => ?_
      cases buf with
      | none => exact .pure (Nat.zero_le _)
      | some buf =>
          refine .bind (Sbuf.putEach_bound (Nat.le_refl 0) _) fun sb hpos => ?_
          refine .bind (P := fun v => v.length ≤ 16 + msgtext.length) ?_ fun v hv => ?_
          · intro h v h' hr
            obtain ⟨-, heq⟩ := Block.load_ok.1 hr
            cases heq
            rw [length_blockpieces] at hpos
            rw [Block.length_bytes]
            omega
          · refine .map (Tlv.addraw_bound [] type v) fun r hr => Nat.le_trans hr ?_
            rw [Tlv.encode_nil, List.length_nil, Option.elim_some]
            omega

/-- The chain of a flag takes four bytes. -/
theorem flag_bound (tlvs : List Tlv) (type : Nat) (set : Bool) :
    Gives (if set then Prod.snd <$> Tlv.addnoval tlvs type else pure tlvs : Mem (List Tlv)) fun tlvs' =>
      (encode tlvs').length ≤ (encode tlvs).length + if set then 4 else 0 := by
  cases set with
  | true => exact .map (Tlv.addraw_bound tlvs type []) fun r hr => hr
  | false => exact .pure (Nat.le_refl _)

theorem length_encode_flagtlvs (flags : Gnr.Msgflags) : (encode (flagtlvs flags)).length =
    (if flags.ackrequested then 4 else 0) + if flags.autoresponse then 4 else 0 := by
  obtain ⟨auto, ack⟩ := flags
  cases auto <;> cases ack <;> rfl

/-- The channel 1 renderer takes no more than its three chains. -/
theorem renderchan1_within (hmsg : Gives (msgtlvs gm) fun msg => (encode msg).length ≤ room)
    (within : Within sb p n) : Gives (renderchan1 gm sb) fun sb =>
      Within sb p (n + (room + (encode (flagtlvs gm.msgflags ++ extratlvs gm)).length)) := by
  rw [renderchan1_split]
  refine .bind (P := fun r : Nat × Sbuf => Within r.2 p (n + room)) ?_ fun r₁ within₁ => ?_
  · refine .bind hmsg fun msg hle => (within.render msg).mono fun r h => h.less ?_
    omega
  · refine .bind (flag_bound [] 0x0003 gm.msgflags.ackrequested) fun ack hack => ?_
    refine .bind (flag_bound ack 0x0004 gm.msgflags.autoresponse) fun flags hflags => ?_
    refine (within₁.renderEach [flags, extratlvs gm]).mono fun sb h => h.less ?_
    rw [Tlv.encode_nil, List.length_nil] at hack
    simp only [List.flatten_cons, List.flatten_nil, List.append_nil, Tlv.encode_append, List.length_append,
      length_encode_flagtlvs]
    omega

/-- The bytes that a user info is rendered as. -/
def infobytes (toui : Touserinfo) : Bytes :=
  bytePut8 (toui.sn.length % 256) ++ toui.sn ++ bytePut16 toui.evillevel ++
    bytePut16 (Tlv.gettotallength toui.tlvh % 65536) ++ encode toui.tlvh

theorem touserinfoRender_within (toui : Touserinfo) (within : Within sb p n) :
    Gives (touserinfoRender toui sb) fun sb => Within sb p (n + (infobytes toui).length) := by
  rw [touserinfoRender_eq]
  refine .bind (within.putEach _) fun sb within₁ => (within₁.renderEach [toui.tlvh]).mono fun sb h => h.less ?_
  simp only [infobytes, List.flatten_cons, List.flatten_nil, List.append_nil, List.length_append]
  omega

theorem touserinfoNew_gives (sn : CStr) :
    Gives (touserinfoNew sn) fun r => ∀ toui, r = some toui → toui = { sn, evillevel := 0, tlvh := [] } := by
  refine .bind (P := fun _ => True) .trivial fun p _ => ?_
  cases p with
  | none => exact .pure (by simp)
  | some p =>
      refine .bind (P := fun _ => True) .trivial fun s _ => ?_
      cases s with
      | none => exact .pure (by simp)
      | some s => exact .pure fun toui heq => (Option.some.inj heq).symm

/-- The user info of the message is rendered, or one that has its name. -/
theorem putsrcinfo_within (gm : Msg) (within : Within sb p n) : Gives (putsrcinfo gm sb) fun r =>
    ∀ sb, r = some sb → Within sb p (n + (infobytes (srcinfoOf gm)).length) := by
  have hrender : ∀ toui, Gives (some <$> touserinfoRender toui sb) fun r =>
      ∀ sb, r = some sb → Within sb p (n + (infobytes toui).length) := fun toui =>
    .map (touserinfoRender_within toui within) fun sb h sb' heq => Option.some.inj heq ▸ h
  have hnew : ∀ f : Option Touserinfo → Mem (Option Sbuf), f none = pure none →
      (∀ toui, f (some toui) = some <$> touserinfoRender toui sb) →
      Gives (touserinfoNew (gm.srcname.getD []) >>= f) fun r => ∀ sb, r = some sb →
        Within sb p (n + (infobytes { sn := gm.srcname.getD [], evillevel := 0, tlvh := [] }).length) := by
    intro f hnone hsome
    refine .bind (touserinfoNew_gives _) fun r hr => ?_
    cases r with
    | none =>
        rw [hnone]
        exact .pure (by simp)
    | some toui =>
        rw [hsome, hr toui rfl]
        exact hrender _
  unfold putsrcinfo srcinfoOf
  cases Gnr.msgTagFetch module gm (Naf.lit "gnrmsg.srcuserinfo") with
  | none => exact hnew _ rfl fun _ => rfl
  | some tag =>
      obtain ⟨owner, name, type, data⟩ := tag
      cases data with
      | srcuserinfo toui => exact hrender toui
      | _ => exact hnew _ rfl fun _ => rfl

end

/-! ## Sending -/

/-- What is seen in between satisfies `P`. -/
def Emits (P : Obs → Prop) (w w' : World) : Prop := ∃ obs, w'.trace = w.trace ++ obs ∧ ∀ o ∈ obs, P o

/-- A frame that is queued would be accepted. -/
def Accepted (o : Obs) : Prop := ∀ e frame, o = .queued e frame → Flap frame

theorem Emits.of_trace {P : Obs → Prop} {w w' : World} (htrace : w'.trace = w.trace) : Emits P w w' :=
  ⟨[], by rw [htrace, List.append_nil], fun o ho => nomatch ho⟩

theorem Emits.trans {P : Obs → Prop} {w w₁ w₂ : World} (h₁ : Emits P w w₁) (h₂ : Emits P w₁ w₂) : Emits P w w₂ := by
  obtain ⟨obs₁, htrace₁, hall₁⟩ := h₁
  obtain ⟨obs₂, htrace₂, hall₂⟩ := h₂
  refine ⟨obs₁ ++ obs₂, by rw [htrace₂, htrace₁, List.append_assoc], fun o ho => ?_⟩
  rcases List.mem_append.1 ho with ho | ho
  · exact hall₁ o ho
  · exact hall₂ o ho

/-- What is seen of a sequence of pieces of code. -/
theorem Emits.of_acts {P : Obs → Prop} {w w' : World} (h : Relation.ReflTransGen (Emits P) w w') : Emits P w w' :=
  Prog.keep (I := Emits P w) (fun _ _ hlast hfirst => hfirst.trans hlast) h (.of_trace rfl)

/-- Nothing is seen of a program over memory. -/
theorem mem_emits {P : Obs → Prop} {α : Type} {x : Mem α} : Does (Emits P) (mem x) := .focus fun _ _ => .of_trace rfl

section

variable {gm : Msg} {ck : Bytes} {room : Nat}

theorem putmsgck_within {sb : Sbuf} {p : Bytes} {n : Nat} (carries : Carries gm ck) (within : Within sb p n) :
    Gives (putmsgck gm sb) fun sb => Within sb p (n + ck.length) := by
  rw [putmsgck_eq carries]
  exact .map (.focus (within.put ck)) fun r h => h

theorem putmsgck_emits {P : Obs → Prop} {sb : Sbuf} (carries : Carries gm ck) : Does (Emits P) (putmsgck gm sb) := by
  rw [putmsgck_eq carries]
  exact .map mem_emits

/-- A SNAC that is short enough would be accepted. -/
theorem sendsbufConsume_emits {sb : Sbuf} {group subtype flags id : Nat} (cid : Option Nat)
    (hwithin : cid ≠ none → Within sb (snachead group subtype flags id) (6 + maxsnaclen)) :
    Does (Emits Accepted) (sendsbufConsume cid sb) := by
  cases cid with
  | none => exact .pure false
  | some e =>
      have within := hwithin (Option.some_ne_none e)
      intro w b w' hr
      have hsix := Nat.le_trans (six_le_snachead group subtype flags id) within.head.le
      have hlt := Nat.lt_of_le_of_lt within.head.ok.pos_le within.head.ok.lt
      obtain ⟨c, env, -, -, rfl⟩ := sendraw_ok hsix hlt hr
      refine .single ⟨_, rfl, fun o ho k frame heq => ?_⟩
      rw [List.mem_singleton.1 ho] at heq
      cases b with
      | false => cases heq
      | true =>
          cases heq
          have hsnac : Snacframe group subtype (frameOf sb.block c.nextseqnum sb.pos) := snacframe_frameOf within.head
          have hchan : sb.block.byte 1 = 0x02 := by simpa [frameOf] using hsnac.1
          have hle := within.le
          exact (flap_frameOf hchan).2 (by omega)

/-- The frame of an outgoing message that is short enough would be accepted. -/
theorem sendoutgoing_emits (cid : Option Nat) (carries : Carries gm ck)
    (hmsg : Gives (msgtlvs gm) fun msg => (encode msg).length ≤ room)
    (hshort : cid ≠ none → snachdrlen + ((outgoinghead ck (gm.destname.getD [])).flatten.length +
      (room + (encode (flagtlvs gm.msgflags ++ extratlvs gm)).length)) ≤ maxsnaclen) :
    Does (Emits Accepted) (sendoutgoing cid gm) := by
  unfold sendoutgoing
  rw [icbmchan_eq carries]
  refine .bind_gives mem_emits (.focus newsnacsb_within) fun r hr => ?_
  cases r with
  | none => exact .pure false
  | some sb =>
      refine .bind_gives (putmsgck_emits carries) (putmsgck_within carries (hr sb rfl)) fun sb₁ h₁ => ?_
      refine .bind_gives mem_emits (.focus (h₁.put (bytePut16 0x0001))) fun r₂ h₂ => ?_
      refine .bind_gives mem_emits (.focus (h₂.put (bytePut8 _))) fun r₃ h₃ => ?_
      refine .bind_gives mem_emits (.focus (h₃.put (gm.destname.getD []))) fun r₄ h₄ => ?_
      refine .bind_gives mem_emits (.focus (renderchan1_within hmsg h₄)) fun sb₅ h₅ => ?_
      refine sendsbufConsume_emits cid fun hcid => h₅.less ?_
      replace hshort := hshort hcid
      simp only [outgoinghead, List.flatten_cons, List.flatten_nil, List.append_nil, List.length_append,
        Naf.length_bytePut8, Naf.length_bytePut16, snachdrlen] at hshort ⊢
      omega

/-- The frame of an incoming message that is short enough would be accepted. -/
theorem sendincoming_emits (cid : Option Nat) (carries : Carries gm ck)
    (hmsg : Gives (msgtlvs gm) fun msg => (encode msg).length ≤ room)
    (hshort : cid ≠ none →
      snachdrlen + ((incominghead ck (srcinfoOf gm)).flatten.length + ((encode (srcinfoOf gm).tlvh).length +
        (room + (encode (flagtlvs (unacked gm).msgflags ++ extratlvs gm)).length))) ≤ maxsnaclen) :
    Does (Emits Accepted) (sendincoming cid gm) := by
  unfold sendincoming
  rw [icbmchan_eq carries]
  refine .bind_gives mem_emits (.focus newsnacsb_within) fun r hr => ?_
  cases r with
  | none => exact .pure (false, gm)
  | some sb =>
      refine .bind_gives (putmsgck_emits carries) (putmsgck_within carries (hr sb rfl)) fun sb₁ h₁ => ?_
      refine .bind_gives mem_emits (.focus (h₁.put (bytePut16 0x0001))) fun r₂ h₂ => ?_
      refine .bind_gives mem_emits (.focus (putsrcinfo_within gm h₂)) fun r₃ h₃ => ?_
      cases r₃ with
      | none => exact .pure (false, gm)
      | some sb₃ =>
          have hrender := @renderchan1_within _ _ _ _ (unacked gm) hmsg (h₃ sb₃ rfl)
          refine .bind_gives mem_emits (.focus hrender) fun sb₄ h₄ => ?_
          refine .bind (sendsbufConsume_emits cid fun hcid => h₄.less ?_) fun b => .pure (b, unacked gm)
          replace hshort := hshort hcid
          have hextra : extratlvs (unacked gm) = extratlvs gm := rfl
          rw [hextra]
          simp only [incominghead, infobytes, List.flatten_cons, List.flatten_nil, List.append_nil, List.length_append,
            Naf.length_bytePut8, Naf.length_bytePut16, snachdrlen] at hshort ⊢
          omega

end

end Timps.Oscar
