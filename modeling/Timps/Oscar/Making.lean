-- SUMMARY: What the module sends of its own: every frame that no handler forwarded is of one of a few kinds.
import Timps.Oscar.Lengths

/-!
# Frames of the module's own making

Most of the code sends nothing. What is left sends version numbers and cookies, closing
frames and keepalives, and four kinds of SNAC. A handler that sends something does not
have its frame sent on.
-/

namespace Timps.Oscar

open Naf (Block Mem Nafmodule Sbuf Tag Tlv lit)
open Naf.Conn (tagAdd tagRemove tagFetch schedulekill getlocaladdrstr reqread takeread takewrite)
open Naf.Sbuf (Head)
open Prog (Does Gives bind_ok pure_ok read_ok update_ok)
open Sys (mem conn deref modify)

/-- A frame that the module makes. -/
inductive Own (frame : Bytes) : Prop
  | flap (chan : UInt8) : chan = 0x01 ∨ chan = 0x04 ∨ chan = 0x05 → frame[1]? = some chan → Own frame
  | snac (group subtype : Nat) :
      (group, subtype) ∈ [(0x0004, 0x0006), (0x0004, 0x0007), (0x0017, 0x0003), (0x0017, 0x0006)] →
      Snacframe group subtype frame → Own frame

/-- A frame of the module's own making is offered to a connection. -/
def Made : Obs → Prop
  | .queued _ frame => Own frame
  | .refused _ => True
  | _ => False

/-! ## Code that sends nothing -/

section

variable {α : Type} {P : Obs → Prop}

/-- A call that offers nothing leaves the trace as it is. -/
theorem trace_of_silent {x : Sys α} {w w' : World} {a : α} (hx : Does (Emits fun _ => False) x)
    (hr : x w = .ok (a, w')) : w'.trace = w.trace := by
  obtain ⟨obs, htrace, hnone⟩ := Emits.of_acts (hx w a w' hr)
  rw [htrace, List.eq_nil_iff_forall_not_mem.2 hnone, List.append_nil]

theorem update_silent {f : World → World} (hf : ∀ w, (f w).trace = w.trace) :
    Does (Emits P) (Prog.update f : Sys Unit) := .update fun w => .of_trace (hf w)

theorem modify_silent (cid : Nat) (f : Conn → Conn) : Does (Emits P) (modify cid f) :=
  .bind (conn_does cid) fun _ => update_silent fun _ => rfl

theorem schedulekill_silent (cid : Nat) : Does (Emits P) (schedulekill cid) := modify_silent _ _

theorem readRefused_silent : Does (Emits P) Sys.readRefused := by
  intro w r w' hr
  cases hr
  exact .single (.of_trace rfl)

theorem addfdRefused_silent : Does (Emits P) Sys.addfdRefused := by
  intro w r w' hr
  cases hr
  exact .single (.of_trace rfl)

theorem reqread_silent (cid : Nat) (buf : Option Block) (buflen offset : Nat) :
    Does (Emits P) (reqread cid buf buflen offset) := by
  cases buf with
  | none => exact .pure _
  | some buf =>
      refine .ite (fun _ => .pure _) fun _ => .bind (conn_does cid) fun c => .bind readRefused_silent fun b => ?_
      exact .ite (fun _ => .pure _) fun _ => .bind (modify_silent _ _) fun _ => .pure _

theorem takeread_silent (cid : Nat) : Does (Emits P) (takeread cid) := by
  refine .bind (conn_does cid) fun c => ?_
  cases c.rx with
  | none => exact .pure _
  | some rx => exact .bind (modify_silent _ _) fun _ => .pure _

theorem takewrite_silent (cid : Nat) : Does (Emits P) (takewrite cid) := by
  refine .bind (.read _) fun flushed => .ite (fun _ => ?_) fun _ => .pure _
  exact .bind now_does fun now => .bind (modify_silent _ _) fun _ => .pure _

theorem reqflap_silent (cid : Nat) (oldbuf : Option Block) : Does (Emits P) (reqflap cid oldbuf) := by
  cases oldbuf with
  | none => exact .bind mem_emits fun buf => reqread_silent _ _ _ _
  | some oldbuf => exact .bind (reqread_silent _ _ _ _) fun b => .ite (fun _ => .pure _) fun _ => .fault _

theorem tagAdd_silent (mod : Nafmodule) (cid : Option Nat) (name : CStr) (type : Char) (data : TagData) :
    Does (Emits P) (tagAdd mod cid name type data) := by
  cases cid with
  | none => exact .pure _
  | some cid =>
      refine .bind (conn_does cid) fun c => .bind mem_emits fun taglist => ?_
      cases taglist with
      | none => exact .pure _
      | some taglist => exact .bind (modify_silent _ _) fun _ => .pure _

theorem tagRemove_silent (mod : Nafmodule) (cid : Option Nat) (name : CStr) :
    Does (Emits P) (tagRemove mod cid name) := by
  cases cid with
  | none => exact .pure _
  | some cid =>
      refine .bind (conn_does cid) fun c => ?_
      rcases Tag.remove c.taglist mod name with ⟨tag, taglist⟩
      cases tag with
      | none => exact .pure _
      | some tag => exact .bind (modify_silent _ _) fun _ => .pure _

theorem forceDisconnect_silent (sn : CStr) : Does (Emits P) (forceDisconnect sn) := by
  refine .bind (find_does _) fun found => ?_
  cases found with
  | none => exact .pure _
  | some c => exact .bind (schedulekill_silent _) fun _ => .pure _

theorem detacholdconns_silent (sn : CStr) : Does (Emits P) (detacholdconns sn) := by
  refine find_quiet fun c => .bind (.read _) fun old => ?_
  exact .bind (.ite (fun _ => schedulekill_silent _) fun _ => .pure _) fun _ => .pure _

theorem getlocaladdrstr_silent (cid : Option Nat) : Does (Emits P) (getlocaladdrstr cid) := by
  refine .bind (.read _) fun extipaddr => .bind ?_ fun ip => .bind mem_emits fun b => ?_
  · split
    · exact .pure _
    · exact .bind (deref_does _) fun _ => .pure _
  cases b with
  | none => exact .pure _
  | some b =>
      refine .ite (fun _ => .pure _) fun _ => .bind (deref_does _) fun c => .bind mem_emits fun b => ?_
      cases b <;> exact .pure _

theorem ckcacheRem_silent (ck : Bytes) : Does (Emits P) (ckcacheRem ck) := by
  refine .bind (.read _) fun cache => ?_
  rcases ckcacheRemove cache ck with ⟨ckc, rest⟩
  cases ckc with
  | none => exact .pure _
  | some ckc => exact .bind (update_silent fun _ => rfl) fun _ => .pure _

theorem ckcacheAdd_silent (ck : Option Bytes) (ip sn : CStr) (servtype : Nat) :
    Does (Emits P) (ckcacheAdd ck ip sn servtype) := by
  cases ck with
  | none => exact .pure _
  | some ck =>
      refine .ite (fun _ => .pure _) fun _ => .bind (.read _) fun cache => .ite (fun _ => .pure _) fun _ => ?_
      refine .bind mem_emits fun ckc => ?_
      cases ckc with
      | none => exact .pure _
      | some ckc => exact .bind now_does fun now => .bind (update_silent fun _ => rfl) fun _ => .pure _

theorem addconn_silent (owner : Option Nafmodule) (type : ConnType) :
    Does (Emits P) (Naf.Conn.addconn owner type) := by
  refine .bind mem_emits fun b => ?_
  cases b with
  | none => exact .pure _
  | some b =>
      refine .bind (.read _) fun cid => .bind (update_silent fun _ => rfl) fun _ => ?_
      refine .bind addfdRefused_silent fun refused => .ite (fun _ => ?_) fun _ => ?_
      · exact .bind (update_silent fun _ => rfl) fun _ => .pure _
      · exact .bind (update_silent fun _ => rfl) fun _ => .pure _

/-! ### Nodes and messages -/

theorem nodeOnline_silent (owner : Nafmodule) (name service : CStr) (flags : Nat) (metric : Int) :
    Does (Emits P) (Gnr.nodeOnline owner name service flags metric) :=
  .bind (.read _) fun _ => .bind now_does fun _ => .bind mem_emits fun _ =>
    .bind (update_silent fun _ => rfl) fun _ => .pure _

theorem assumeExternal_silent (name : CStr) : Does (Emits P) (assumeExternal name) := by
  refine .bind (.read _) fun found => ?_
  cases found with
  | some gn => exact .pure _
  | none => exact .bind (nodeOnline_silent _ _ _ _ _) fun _ => .pure _

theorem nodeMsgPostrouting_silent (gm : Msg) (gmhi : Gnr.HandlerInfo) :
    Does (Emits P) (Gnr.nodeMsgPostrouting gm gmhi) := by
  have hhit : ∀ gn, Does (Emits P) (Gnr.nodeUsehit gn) := fun gn => update_silent fun _ => rfl
  refine .bind (.ite (fun _ => .bind ?_ fun _ => ?_) fun _ => .pure _) fun _ => .pure _
  · cases gmhi.srcnode with
    | none => exact .pure _
    | some gn => exact hhit gn
  · cases gmhi.destnode with
    | none => exact .pure _
    | some gn => exact hhit gn

theorem msgNew_silent : Does (Emits P) (Gnr.msgNew : Sys (Option Msg)) := by
  refine .bind mem_emits fun b => ?_
  cases b <;> exact .pure _

theorem msgTagAdd_silent (gm : Msg) (name : CStr) (type : Char) (data : Hint) :
    Does (Emits P) (Gnr.msgTagAdd module gm name type data) := by
  refine .bind mem_emits fun taglist => ?_
  cases taglist <;> exact .pure _

theorem parsechan1_silent (gm : Msg) (tlvh : List Tlv) : Does (Emits P) (parsechan1 gm tlvh) := by
  refine .bind ?_ fun _ => .pure _
  rcases Tlv.remove tlvh 0x0002 with ⟨_ | tlv, rest⟩
  · exact .pure _
  · refine .bind mem_emits fun r => .ite (fun _ => ?_) fun _ => .pure _
    exact .bind (msgTagAdd_silent _ _ _ _) fun _ => .pure _

/-! ### Closing -/

theorem each_silent {γ : Type} {g : γ → Sys Unit} (hg : ∀ c, Does (Emits P) (g c)) (l : List γ) :
    Does (Emits P) (Prog.each g l) := .each hg l

theorem freetag_silent (dead : Conn) (tag : Tag TagData) : Does (Emits P) (freetag dead tag) := by
  refine .ite (fun _ => ?_) fun _ => .pure _
  cases tag.data with
  | int n => exact .pure _
  | tlvs l => exact .pure _
  | string sn =>
      refine .bind (.read _) fun node => ?_
      cases node with
      | none => exact .pure _
      | some node =>
          refine .bind (.map (find_does _)) fun other => .ite (fun _ => .pure _) fun _ => ?_
          exact update_silent fun _ => rfl

theorem detach_silent {free : Nat → Sys Unit} (hfree : ∀ cid, Does (Emits P) (free cid)) (dead : Nat)
    (get : Conn → Option Nat) (clear : Conn → Conn) (cid : Nat) :
    Does (Emits P) (Naf.Conn.detach free dead get clear cid) := by
  refine .bind (.read _) fun found => ?_
  cases found with
  | none => exact .pure _
  | some c =>
      refine .ite (fun _ => .bind (modify_silent _ _) fun _ => ?_) fun _ => .pure _
      exact .ite (fun _ => .pure _) fun _ => hfree _

/-- A close offers no frame, nor do the closes it makes; the induction is on the depth. -/
theorem freeWithin_silent (fuel cid : Nat) : Does (Emits P) (Naf.Conn.freeWithin ops fuel cid) := by
  induction fuel generalizing cid with
  | zero => exact .fault _
  | succ fuel ih =>
      refine .bind (conn_does cid) fun dead => .bind (update_silent fun _ => rfl) fun _ => ?_
      have hnokill : (dead.owner.bind fun owner => (ops owner).connkill) = none := by
        cases dead.owner with
        | none => rfl
        | some owner => by_cases howner : owner = module <;> simp [ops, howner]
      rw [hnokill]
      refine .bind (.pure _) fun _ => .bind (each_silent (fun tag => ?_) _) fun _ => ?_
      · by_cases howner : tag.owner = module
        · simp only [ops, if_pos howner]
          exact freetag_silent dead tag
        · simp only [ops, if_neg howner]
          exact .pure _
      have hdetach : ∀ get clear, Does (Emits P) (do
          let cids ← Prog.read fun w : World => w.conns.map (·.cid)
          Prog.each (Naf.Conn.detach (Naf.Conn.freeWithin ops fuel) cid get clear) cids) := fun get clear =>
        .bind (.read _) fun cids => each_silent (fun k => detach_silent ih cid get clear k) cids
      exact .bind (hdetach _ _) fun _ => hdetach _ _

theorem free_silent (cid : Nat) : Does (Emits P) (Naf.Conn.free ops cid) :=
  .bind (.read _) fun n => freeWithin_silent n cid

end

/-! ## Sending -/

section

variable {sb : Sbuf} {p : Bytes}

/-- A frame that begins with the head of the module is of its own making. -/
theorem own_of_flap {chan seq buflen : Nat} {rest : Bytes} (hhead : Head sb (flaphdr chan ++ rest))
    (hchan : chan = 0x01 ∨ chan = 0x04 ∨ chan = 0x05) : Own (frameOf sb.block seq buflen) := by
  have hbyte : sb.block.byte 1 = UInt8.ofNat chan := by
    have hbytes := hhead.bytes
    have hlen : (flaphdr chan ++ rest).length = 4 + rest.length + 1 + 1 := by
      simp only [flaphdr, List.length_append, List.length_cons, List.length_nil]
      omega
    rw [hlen, Block.bytes_succ, Block.bytes_succ] at hbytes
    exact (List.cons.inj (List.cons.inj hbytes).2).1
  exact .flap (UInt8.ofNat chan) (by rcases hchan with rfl | rfl | rfl <;> decide) (by simp [frameOf, hbyte])

/-- So is one with a SNAC that the module makes. -/
theorem own_of_snac {group subtype flags id seq : Nat}
    (hkind : (group, subtype) ∈ [(0x0004, 0x0006), (0x0004, 0x0007), (0x0017, 0x0003), (0x0017, 0x0006)])
    (hhead : Head sb (snachead group subtype flags id)) : Own (frameOf sb.block seq sb.pos) :=
  .snac group subtype hkind (snacframe_frameOf hhead)

/-- What is queued or refused is a frame of the module's making. -/
theorem sendsbufConsume_made {cid : Option Nat} (hhead : Head sb p) (hsix : 6 ≤ p.length)
    (hown : ∀ seq, Own (frameOf sb.block seq sb.pos)) : Does (Emits Made) (sendsbufConsume cid sb) := by
  cases cid with
  | none => exact .pure _
  | some e =>
      intro w b w' hr
      have hlt := Nat.lt_of_le_of_lt hhead.ok.pos_le hhead.ok.lt
      obtain ⟨c, env, -, -, rfl⟩ := sendraw_ok (Nat.le_trans hsix hhead.le) hlt hr
      refine .single ⟨_, rfl, fun o ho => ?_⟩
      rw [List.mem_singleton.1 ho]
      cases b with
      | true => exact hown _
      | false => exact trivial

/-- The senders that build a frame of their own start with a fresh buffer and a header. -/
theorem sendbuilt_made {n chan : Nat} (hn : n = 0 ∨ 6 ≤ n) (hlt : n < 65536) {k : Sbuf → Sys Bool}
    (hk : ∀ sb, Head sb (flaphdr chan) → Does (Emits Made) (k sb)) :
    Does (Emits Made) (do
      match ← mem (Sbuf.init none n) with
      | none => pure false
      | some sb => do
          let sb ← mem (puthdr sb chan)
          k sb) := by
  refine .bind_gives mem_emits (.focus (Sbuf.init_holds hlt)) fun r hinit => ?_
  cases r with
  | none => exact .pure _
  | some sb =>
      have hput : Gives (puthdr sb chan) _ := puthdr_holds (hinit sb rfl) (by split <;> omega)
      exact .bind_gives mem_emits (.focus hput) fun sb hold => hk sb (by simpa using hold.toHead)

theorem sendflap_made {cid : Option Nat} {chan : Nat} (hhead : Head sb (flaphdr chan))
    (hchan : chan = 0x01 ∨ chan = 0x04 ∨ chan = 0x05) : Does (Emits Made) (sendsbufConsume cid sb) :=
  have hnil : Head sb (flaphdr chan ++ []) := by simpa using hhead
  sendsbufConsume_made hhead (by simp [flaphdr]) fun _ => own_of_flap hnil hchan

theorem sendsnac_made {cid : Option Nat} {group subtype flags id : Nat}
    (hkind : (group, subtype) ∈ [(0x0004, 0x0006), (0x0004, 0x0007), (0x0017, 0x0003), (0x0017, 0x0006)])
    (hhead : Head sb (snachead group subtype flags id)) : Does (Emits Made) (sendsbufConsume cid sb) :=
  sendsbufConsume_made hhead (six_le_snachead ..) fun _ => own_of_snac hkind hhead

theorem sendflapversion_made (cid : Nat) : Does (Emits Made) (sendflapversion cid) :=
  sendbuilt_made (.inr (by decide)) (by decide) fun _ hhead =>
    .bind_gives mem_emits (.focus (hhead.put32 _)) fun _ h => sendflap_made h (.inl rfl)

theorem sendcookie_made (cid : Nat) (tlvh : List Tlv) : Does (Emits Made) (sendcookie cid tlvh) :=
  sendbuilt_made (.inl rfl) (by decide) fun _ hhead =>
    .bind_gives mem_emits (.focus (hhead.put32 _)) fun _ h =>
      .bind_gives mem_emits (.focus (render_head _ h)) fun _ h => sendflap_made h (.inl rfl)

theorem sendconnclose_made (cid reason : Nat) (reasonurl : Option CStr) :
    Does (Emits Made) (sendconnclose cid reason reasonurl) := by
  refine sendbuilt_made (.inl rfl) (by decide) fun sb hhead => ?_
  refine .bind (.ite (fun _ => .map mem_emits) fun _ => .pure _) fun tlvh => ?_
  refine .bind ?_ fun tlvh => ?_
  · cases reasonurl with
    | none => exact .pure _
    | some url => exact .map mem_emits
  · exact .bind_gives mem_emits (.focus (render_head _ hhead)) fun _ h => sendflap_made h (.inr (.inl rfl))

theorem sendnop_made (cid : Nat) : Does (Emits Made) (sendnop cid) :=
  sendbuilt_made (.inl rfl) (by decide) fun _ hhead => sendflap_made hhead (.inr (.inr rfl))

/-- The senders of SNACs start with a buffer that has the head of one. -/
theorem buildsnac_made {α : Type} {group subtype flags id : Nat} {b : α} {k : Sbuf → Sys α}
    (hk : ∀ sb, Head sb (snachead group subtype flags id) → Does (Emits Made) (k sb)) :
    Does (Emits Made) (do
      match ← mem (newsnacsb group subtype flags id) with
      | none => pure b
      | some sb => k sb) := by
  refine .bind_gives mem_emits (.focus newsnacsb_head) fun r hhead => ?_
  cases r with
  | none => exact .pure _
  | some sb => exact hk sb (hhead sb rfl)

theorem authSendfail_made (cid : Nat) (sn : Option CStr) (code : Nat) (errurl : Option CStr) :
    Does (Emits Made) (authSendfail cid sn code errurl) := by
  refine buildsnac_made fun sb hhead => .bind mem_emits fun r₁ => .bind mem_emits fun r₂ => .bind ?_ fun tlvh => ?_
  · cases errurl with
    | none => exact .pure _
    | some errurl => exact .map mem_emits
  · exact .bind_gives mem_emits (.focus (render_head _ hhead)) fun _ h => sendsnac_made (by decide) h

theorem authSendauthinforequest_made (cid snacid : Nat) (tlvh : List Tlv) :
    Does (Emits Made) (authSendauthinforequest cid snacid tlvh) :=
  buildsnac_made fun _ hhead =>
    .bind_gives mem_emits (.focus (render_head _ hhead)) fun _ h => sendsnac_made (by decide) h

theorem putmsgck_made (gm : Msg) (sb : Sbuf) : Does (Emits Made) (putmsgck gm sb) := by
  have hloop : ∀ n sb, Does (Emits Made) (putcookie n sb) := by
    intro n
    induction n with
    | zero => exact fun sb => .pure _
    | succ n ih =>
        have hrand : Does (Emits Made) Sys.rand := by
          intro w r w' hr
          cases hr
          exact .single (.of_trace rfl)
        exact fun sb => .bind hrand fun r => .bind mem_emits fun r => ih _
  unfold putmsgck
  split
  · exact .map mem_emits
  · exact hloop _ _

/-- A message that goes out is a frame of the own making. -/
theorem sendoutgoing_made (cid : Option Nat) (gm : Msg) : Does (Emits Made) (sendoutgoing cid gm) := by
  unfold sendoutgoing
  cases icbmchan gm with
  | none => exact .pure _
  | some chan =>
      refine buildsnac_made fun sb hhead => ?_
      refine .bind_gives (putmsgck_made gm sb) (putmsgck_head gm hhead) fun sb h₁ => ?_
      refine .bind_gives mem_emits (.focus (h₁.put16 _)) fun r h₂ => ?_
      refine .bind_gives mem_emits (.focus (h₂.put8 _)) fun r h₃ => ?_
      refine .bind_gives mem_emits (.focus (h₃.putstr _)) fun r h₄ => ?_
      refine .bind_gives mem_emits (.focus (renderchan1_head gm h₄)) fun sb h₅ => ?_
      exact sendsnac_made (by decide) h₅

theorem sendincoming_made (cid : Option Nat) (gm : Msg) : Does (Emits Made) (sendincoming cid gm) := by
  unfold sendincoming
  cases icbmchan gm with
  | none => exact .pure _
  | some chan =>
      refine buildsnac_made fun sb hhead => ?_
      refine .bind_gives (putmsgck_made gm sb) (putmsgck_head gm hhead) fun sb h₁ => ?_
      refine .bind_gives mem_emits (.focus (h₁.put16 _)) fun r h₂ => ?_
      refine .bind_gives mem_emits (.focus (putsrcinfo_head gm h₂)) fun r h₃ => ?_
      cases r with
      | none => exact .pure _
      | some sb =>
          refine .bind_gives mem_emits (.focus (renderchan1_head _ (h₃ sb rfl))) fun sb h₄ => ?_
          exact .bind (sendsnac_made (by decide) h₄) fun _ => .pure _

end

/-! ## Connecting -/

theorem takeconn_made (cid : Nat) : Does (Emits Made) (takeconn cid) := by
  refine .bind (modify_silent _ _) fun _ => .bind (modify_silent _ _) fun _ => .bind (.read _) fun prorogueall => ?_
  refine .bind (.ite (fun _ => modify_silent _ _) fun _ => .pure _) fun _ => .bind (conn_does cid) fun c => ?_
  refine .bind (.ite (fun _ => sendflapversion_made cid) fun _ => .pure _) fun sent => ?_
  exact .ite (fun _ => reqflap_silent _ _) fun _ => .pure _

theorem startconnect_made (l : Nat) (host : CStr) (port : Nat) : Does (Emits Made) (startconnect l host port) := by
  have hsocket : ∀ inprogress, Does (Emits Made) (Naf.Conn.connectsocket takeconns l inprogress) := by
    intro inprogress
    refine .bind (conn_does l) fun c => .bind (addconn_silent _ _) fun endpoint => ?_
    refine .bind (modify_silent _ _) fun _ => ?_
    cases endpoint with
    | none => exact .pure _
    | some endpoint =>
        refine .bind (.bind ?_ fun _ => ?_) fun _ => ?_
        · cases c.owner with
          | none => exact .pure _
          | some owner =>
              simp only [Option.bind_some, takeconns]
              by_cases howner : owner = module
              · rw [if_pos howner]
                exact .bind (takeconn_made _) fun _ => .pure _
              · rw [if_neg howner]
                exact .pure _
        · exact .ite (fun _ => .bind (modify_silent _ _) fun _ => modify_silent _ _) fun _ => .pure _
        · exact .bind (modify_silent _ _) fun _ => .bind (modify_silent _ _) fun _ => .pure _
  unfold startconnect Naf.Conn.startconnect
  cases Naf.Conn.splithost host port with
  | none => exact .fault _
  | some hostport =>
      refine .bind (.read _) fun status => ?_
      cases status with
      | failed => exact .pure _
      | connected => exact hsocket false
      | inprogress => exact hsocket true

/-! ## The handlers -/

/-- What is sent is of the module's making, and the frame is not sent on. -/
structure Replaces (x : Sys Hret) : Prop where
  made : Does (Emits Made) x
  kept : Gives x fun ret => ret ≠ .forward

theorem Replaces.pure {ret : Hret} (h : ret ≠ .forward) : Replaces (Pure.pure ret) := ⟨.pure ret, .pure h⟩

/-- Frames of the own making may be offered before the answer. -/
theorem Replaces.bind {α : Type} {x : Sys α} {f : α → Sys Hret} (hx : Does (Emits Made) x)
    (hf : ∀ a, Replaces (f a)) : Replaces (x >>= f) :=
  ⟨.bind hx fun a => (hf a).made, .bind .trivial fun a _ => (hf a).kept⟩

/-- What is sent is of the module's making, and nothing is sent for a frame that is to be sent on. -/
def Deals (x : Sys Hret) : Prop :=
  ∀ w ret w', x w = .ok (ret, w') → Emits Made w w' ∧ (ret = .forward → w'.trace = w.trace)

namespace Deals

variable {α : Type} {x : Sys α} {y : Sys Hret} {f : α → Sys Hret}

theorem of_replaces (hy : Replaces y) : Deals y :=
  fun w ret w' hr => ⟨.of_acts (hy.made w _ _ hr), fun h => absurd h (hy.kept w ret w' hr)⟩

/-- A handler that offers nothing may answer anything. -/
theorem of_silent (hy : Does (Emits fun _ => False) y) : Deals y := fun _ _ _ hr =>
  have htrace := trace_of_silent hy hr
  ⟨.of_trace htrace, fun _ => htrace⟩

theorem pure (ret : Hret) : Deals (Pure.pure ret) := .of_silent (.pure ret)

/-- Before a handler something may be done that offers nothing. -/
theorem bind (hx : Does (Emits fun _ => False) x) (hf : ∀ a, Deals (f a)) : Deals (x >>= f) := by
  intro w ret w' hr
  obtain ⟨a, w₁, hfirst, hr⟩ := bind_ok.1 hr
  have htrace := trace_of_silent hx hfirst
  obtain ⟨hmade, hforward⟩ := hf a w₁ ret w' hr
  exact ⟨.trans (.of_trace htrace) hmade, fun h => (hforward h).trans htrace⟩

theorem ite {c : Prop} [Decidable c] {z : Sys Hret} (hy : c → Deals y) (hz : ¬c → Deals z) :
    Deals (if c then y else z) := by
  split
  · exact hy ‹_›
  · exact hz ‹_›

end Deals

theorem handlechan1Conncomplete_deals (cid : Nat) : Deals (handlechan1Conncomplete cid) := by
  refine .bind (tagRemove_silent _ _ _) fun wtag => ?_
  cases wtag with
  | some tag =>
      refine .bind (tagRemove_silent _ _ _) fun idtag => .of_replaces (.bind (sendflapversion_made cid) fun _ => ?_)
      exact .bind (authSendauthinforequest_made _ _ _) fun _ => .pure (by simp)
  | none =>
      refine .bind (tagRemove_silent _ _ _) fun wtag => ?_
      cases wtag with
      | some tag => exact .of_replaces (.bind (sendcookie_made _ _) fun _ => .pure (by simp))
      | none => exact .pure _

theorem handlechan1Newconn_deals (cid : Nat) (tlvh : List Tlv) : Deals (handlechan1Newconn cid tlvh) := by
  unfold handlechan1Newconn
  cases Tlv.get tlvh 0x0006 with
  | none => exact .pure _
  | some cktlv =>
  refine .bind (ckcacheRem_silent _) fun ckc => ?_
  cases ckc with
  | none => exact .pure _
  | some ckc =>
  refine .of_replaces (.bind (startconnect_made _ _ _) fun b => ?_)
  cases b with
  | false => exact .pure (by simp)
  | true =>
  refine .bind (modify_silent _ _) fun _ => .bind (conn_does cid) fun c => .bind (deref_does _) fun e => ?_
  refine .bind (modify_silent _ _) fun _ => .bind (tagAdd_silent _ _ _ _ _) fun b => ?_
  cases b with
  | false => exact .pure (by simp)
  | true =>
  refine .bind (tagAdd_silent _ _ _ _ _) fun b => ?_
  cases b <;> exact .pure (by simp)

theorem handlechan1_deals (cid : Nat) (buf : Block) (buflen : Nat) : Deals (handlechan1 cid buf buflen) := by
  refine .bind mem_emits fun r => ?_
  cases r with
  | none => exact .pure _
  | some tlvh =>
      refine .bind (conn_does cid) fun c => .ite (fun _ => ?_) fun _ => .ite (fun _ => .pure _) fun _ => ?_
      · exact .ite (fun _ => handlechan1Conncomplete_deals cid) fun _ => .pure _
      · exact .ite (fun _ => handlechan1Newconn_deals cid tlvh) fun _ => .pure _

theorem gnroutputfunc_made (gm : Msg) (gmhi : Gnr.HandlerInfo) : Does (Emits Made) (gnroutputfunc gm gmhi) := by
  unfold gnroutputfunc
  cases gmhi.destnode with
  | none => exact .fault _
  | some destnode =>
      refine .ite (fun _ => .bind (find_does _) fun found => ?_) fun _ => ?_
      · cases found with
        | none => exact .pure _
        | some c => exact .bind (sendincoming_made _ _) fun _ => .pure _
      cases gmhi.srcnode with
      | none => exact .fault _
      | some srcnode =>
          refine .ite (fun _ => .bind (find_does _) fun found => ?_) fun _ => .pure _
          cases found with
          | none => exact .pure _
          | some c => exact .bind (sendoutgoing_made _ _) fun _ => .pure _

/-- Routing a message offers frames of the own making only. -/
theorem msgRoute_made (gm : Msg) : Does (Emits Made) (Gnr.msgRoute handlers module gm) := by
  unfold Gnr.msgRoute
  split
  · refine .bind (.read _) fun srcnode => .bind (.read _) fun destnode => ?_
    refine .bind (.pure _) fun r₁ => .bind ?_ fun r₂ => .bind ?_ fun (gm, gmhi) => ?_
    · refine .bind (msgrouting_does _ _) fun r => ?_
      exact .ite (fun _ => .pure _) fun _ => .pure _
    · exact .bind (nodeMsgPostrouting_silent _ _) fun r => .pure _
    · dsimp only
      cases houtput : gmhi.targetmod.bind handlers.outputfunc with
      | none => exact .pure _
      | some outputfunc =>
          refine .bind ?_ fun _ => .pure _
          obtain ⟨mod, -, hmod⟩ := Option.bind_eq_some_iff.1 houtput
          simp only [handlers] at hmod
          split at hmod
          · cases hmod
            exact gnroutputfunc_made _ _
          · cases hmod
  · exact .pure _

theorem snachandler_0001_0002_deals (cid : Nat) (snac : Snac) : Deals (snachandler_0001_0002 cid snac) := by
  refine .bind (conn_does cid) fun c => .ite (fun _ => .pure _) fun _ => .bind (fetchScreenname_does _) fun sn => ?_
  cases sn with
  | none => exact .pure _
  | some sn =>
  refine .bind (detacholdconns_silent sn) fun _ => .bind (nodeOnline_silent _ _ _ _ _) fun gn => ?_
  cases gn <;> exact .pure _

theorem out_0004_0006_deals (gm : Option Msg) (ret : Hret) : Deals (out_0004_0006 gm ret) :=
  .of_silent (out_0004_0006_does gm ret)

theorem out_0004_0007_deals (gm : Option Msg) (ret : Hret) : Deals (out_0004_0007 gm ret) :=
  .of_silent (out_0004_0007_does gm ret)

theorem snachandler_0004_0006_deals (cid : Nat) (snac : Snac) : Deals (snachandler_0004_0006 cid snac) := by
  refine .bind (conn_does cid) fun c => .bind (fetchScreenname_does _) fun srcsn => ?_
  cases srcsn with
  | none => exact out_0004_0006_deals _ _
  | some srcsn =>
  refine .bind mem_emits fun (msgck, sb) => ?_
  cases msgck with
  | none => exact out_0004_0006_deals _ _
  | some msgck =>
  refine .bind mem_emits fun (msgchan, sb) => .bind mem_emits fun (destsnlen, sb) => .bind mem_emits
    fun (destsn, sb) => ?_
  cases destsn with
  | none => exact out_0004_0006_deals _ _
  | some destsn =>
  refine .bind mem_emits fun (tlvh, sb) => .bind msgNew_silent fun gm => ?_
  cases gm with
  | none => exact out_0004_0006_deals _ _
  | some gm =>
  refine .bind (msgTagAdd_silent _ _ _ _) fun (added, gm) => ?_
  cases added with
  | false => exact out_0004_0006_deals _ _
  | true =>
  refine .bind (msgTagAdd_silent _ _ _ _) fun (added, gm) => ?_
  cases added with
  | false => exact out_0004_0006_deals _ _
  | true =>
  refine .ite (fun _ => out_0004_0006_deals _ _) fun _ => .bind (parsechan1_silent _ _) fun (gm, tlvh) => ?_
  refine .bind (msgTagAdd_silent _ _ _ _) fun (_, gm) => .bind (assumeExternal_silent _) fun _ => ?_
  refine .of_replaces (.bind (msgRoute_made _) fun r => .bind ?_ fun _ => .pure (by simp))
  exact .ite (fun _ => msgFree_does _) fun _ => .pure _

theorem snachandler_0004_0007_deals (cid : Nat) (snac : Snac) : Deals (snachandler_0004_0007 cid snac) := by
  refine .bind (fetchScreenname_does _) fun destsn => ?_
  cases destsn with
  | none => exact out_0004_0007_deals _ _
  | some destsn =>
  refine .bind mem_emits fun (msgck, sb) => ?_
  cases msgck with
  | none => exact out_0004_0007_deals _ _
  | some msgck =>
  refine .bind mem_emits fun (msgchan, sb) => .bind mem_emits fun (srcinfo, sb) => ?_
  cases srcinfo with
  | none => exact out_0004_0007_deals _ _
  | some srcinfo =>
  refine .bind mem_emits fun (tlvh, sb) => .bind msgNew_silent fun gm => ?_
  cases gm with
  | none => exact out_0004_0007_deals _ _
  | some gm =>
  refine .bind (msgTagAdd_silent _ _ _ _) fun (added, gm) => ?_
  cases added with
  | false => exact out_0004_0007_deals _ _
  | true =>
  refine .bind (msgTagAdd_silent _ _ _ _) fun (added, gm) => ?_
  cases added with
  | false => exact out_0004_0007_deals _ _
  | true =>
  refine .ite (fun _ => out_0004_0007_deals _ _) fun _ => .bind (parsechan1_silent _ _) fun (gm, tlvh) => ?_
  refine .bind (msgTagAdd_silent _ _ _ _) fun (added, gm) => ?_
  cases added with
  | false => exact out_0004_0007_deals _ _
  | true =>
  refine .bind (msgTagAdd_silent _ _ _ _) fun (_, gm) => .bind (assumeExternal_silent _) fun _ => ?_
  exact .of_replaces (.bind (msgRoute_made _) fun _ => .bind (msgFree_does _) fun _ => .pure (by simp))

theorem snachandler_0017_0003_deals (cid : Nat) (snac : Snac) : Deals (snachandler_0017_0003 cid snac) := by
  refine .bind (conn_does cid) fun c => .bind mem_emits fun (tlvh, sb) => .ite (fun _ => .pure _) fun _ => ?_
  refine .bind mem_emits fun sn => .bind mem_emits fun ip => ?_
  rcases Tlv.get tlvh 0x0006 with _ | cktlv
  · exact .pure _
  rcases ip with _ | ip
  · exact .pure _
  rcases sn with _ | sn
  · exact .pure _
  refine .bind (ckcacheAdd_silent _ _ _ _) fun added => ?_
  cases added with
  | false => exact .pure _
  | true =>
  refine .bind (getlocaladdrstr_silent _) fun las => ?_
  cases las with
  | none => exact .pure _
  | some las =>
  refine .bind mem_emits fun (_, tlvh) => .of_replaces ⟨?_, ?_⟩
  · refine .bind_gives mem_emits (.focus newsnacsb_head) fun sb hhead => ?_
    cases sb with
    | none => exact .pure _
    | some sb =>
        refine .bind_gives mem_emits (.focus (render_head _ (hhead sb rfl))) fun (_, sb) h => ?_
        refine .bind (sendsnac_made (by decide) h) fun b => ?_
        cases b <;> exact .pure _
  · refine .bind .trivial fun sb _ => ?_
    cases sb with
    | none => exact .pure (by simp)
    | some sb =>
        refine .bind .trivial fun (_, sb) _ => .bind .trivial fun b _ => ?_
        cases b <;> exact .pure (by simp)

/-- A login is answered by the module itself, and not forwarded. -/
theorem loginconnect_replaces (cid : Nat) (snac : Snac) (tlvh : List Tlv) :
    Replaces (loginconnect cid snac tlvh) := by
  refine .bind (conn_does cid) fun c => ?_
  by_cases hend : c.endpoint.isSome
  · rw [if_pos hend]
    exact .pure (by simp)
  rw [if_neg hend]
  refine .bind (.read _) fun authorizer => .bind (startconnect_made _ _ _) fun b => ?_
  cases b with
  | false => exact .pure (by simp)
  | true =>
  refine .bind (modify_silent _ _) fun _ => .bind (conn_does cid) fun c => .bind (deref_does _) fun e => ?_
  refine .bind (modify_silent _ _) fun _ => .bind (tagAdd_silent _ _ _ _ _) fun b => ?_
  cases b with
  | false => exact .pure (by simp)
  | true =>
  refine .bind (tagAdd_silent _ _ _ _ _) fun b => ?_
  cases b <;> exact .pure (by simp)

theorem snachandler_0017_0006_deals (cid : Nat) (snac : Snac) : Deals (snachandler_0017_0006 cid snac) := by
  refine .bind mem_emits fun (tlvh, sb) => .bind mem_emits fun sn => .ite (fun _ => .of_replaces ?_) fun _ => ?_
  · refine .bind (authSendfail_made _ _ _ _) fun _ => .bind (sendconnclose_made _ _ _) fun _ => ?_
    exact .bind (schedulekill_silent _) fun _ => .pure (by simp)
  · exact .of_replaces (loginconnect_replaces _ _ _)

/-- Every handler of SNACs forwards its frame and offers none, or keeps it. -/
theorem handlesnac_deals (cid : Nat) (buf : Block) (buflen : Nat) : Deals (handlesnac cid buf buflen) := by
  refine .ite (fun _ => .pure _) fun _ => .bind mem_emits fun snac => ?_
  cases hfind : snachandlers.find? fun i => i.1 = snac.group && i.2.1 = snac.subtype with
  | none => exact .pure _
  | some entry =>
      have hmem := List.mem_of_find?_eq_some hfind
      simp only [snachandlers, List.mem_cons, List.not_mem_nil, or_false] at hmem
      rcases hmem with rfl | rfl | rfl | rfl | rfl | rfl | rfl
      · exact snachandler_0001_0002_deals _ _
      · exact .bind (modify_silent _ _) fun _ => .pure _
      · exact .of_silent (snachandler_0001_000b_does _ _)
      · exact snachandler_0004_0006_deals _ _
      · exact snachandler_0004_0007_deals _ _
      · exact snachandler_0017_0003_deals _ _
      · exact snachandler_0017_0006_deals _ _

/-- Whatever a handler sends is of the module's making, and it is sent in place of the frame. -/
theorem dispatch_deals (cid : Nat) (buf : Block) (buflen : Nat) : Deals (dispatch cid buf buflen) := by
  refine .ite (fun _ => handlechan1_deals _ _ _) fun _ => .ite (fun _ => handlesnac_deals _ _ _) fun _ => ?_
  exact .ite (fun _ => .pure _) fun _ => .pure _

end Timps.Oscar
