-- SUMMARY: The reader, closing, the timers and the events: every step of the proxy is a sequence of acts.
import Timps.Oscar.SnacActs

/-!
# The acts of a step

`received` and `completes` read off the state and the event which buffer the reader is
called with and which frame it hands on. From them `permOf` computes what the step may
do beyond the ordinary, and `step_acts` says that it does no more than that.
-/

namespace Timps.Oscar

open Naf (Block Mem Nafmodule Sbuf Tag Tlv lit byteGet16 bytePut16)
open Naf.Conn (Ops Ready schedulekill reqread takeread takewrite)
open Prog (Does DoesFrom Gives keep bind_ok pure_ok map_ok read_ok update_ok)
open Relation (ReflTransGen)
open Sys (mem conn modify)

variable {p : Perm} {w w' : World}

/-! ## The reader -/

theorem reqread_acts {cid buflen offset : Nat} {buf : Option Block} (hown : p.own = some cid) :
    Does (Act p) (reqread cid buf buflen offset) := by
  cases buf with
  | none => exact .pure _
  | some buf =>
      refine .ite (fun _ => .pure _) fun _ => .bind (conn_does cid) fun c => .bind ?_ fun refused => ?_
      · intro w r w' hr
        cases hr
        exact .single (.quiet (.env _ ⟨rfl, rfl⟩))
      refine .ite (fun _ => .pure _) fun _ => .bind ?_ fun _ => .pure _
      intro w r w' hr
      obtain ⟨-, hr⟩ := Sys.modify_ok.1 hr
      cases hr
      exact .single (.read hown)

theorem reqflap_acts {cid : Nat} {oldbuf : Option Block} (hown : p.own = some cid) :
    Does (Act p) (reqflap cid oldbuf) := by
  cases oldbuf with
  | none => exact .bind (Quiet.act (mem_quiet _)) fun buf => reqread_acts hown
  | some oldbuf => exact .bind (reqread_acts hown) fun b => .ite (fun _ => .pure _) fun _ => .fault _

/-- A complete frame goes to the handler of its channel. -/
theorem dispatch_acts {cid : Nat} {buf : Block} {buflen : Nat} (wf : w.Wf)
    (hstart : p.start ≤ w.nextcid) (hname : ∀ ckc ∈ w.ckcache, p.name ckc.sn)
    (hcookie : ∀ ckc, buf.byte 1 = 0x02 →
      snaccookie w (buf.suffix flaphdrlen) (buflen - flaphdrlen) ckc → p.cookie ckc)
    (hperm : buf.byte 1 = 0x01 → Relogs w cid buf buflen → p.reconnect) :
    DoesFrom (Act p) (dispatch cid buf buflen) w := by
  refine .ite (fun hchan => handlechan1_acts wf hstart hname (hperm hchan)) fun _ => ?_
  refine .ite (fun hchan => handlesnac_acts wf hstart fun ckc => hcookie ckc hchan) fun _ => ?_
  exact .ite (fun _ => .pure _) fun _ => .pure _

/-- A frame that is sent on is the received one with another sequence number. -/
theorem rewritten_frameOf {buf : Block} {seq buflen : Nat} (hhdr : hdrok buf = true)
    (hlen : buflen = flaphdrLen buf + flaphdrlen) :
    Rewritten (buf.bytes 0 buflen) (frameOf buf seq buflen) := by
  simp only [hdrok, Bool.and_eq_true, decide_eq_true_eq] at hhdr
  have hword : bytePut16 (flaphdrLen buf) = [buf.byte 4, buf.byte 5] := Naf.bytePut16_byteGet16 _ _
  have hsplit : buf.bytes 0 buflen = buf.byte 0 :: buf.byte 1 :: buf.byte 2 :: buf.byte 3 ::
      buf.byte 4 :: buf.byte 5 :: buf.bytes 6 (flaphdrLen buf) := by
    rw [hlen, flaphdrlen]
    simp only [Block.bytes_succ, Nat.zero_add]
  have hframe : frameOf buf seq buflen = buf.byte 0 :: buf.byte 1 :: (bytePut16 seq ++
      [buf.byte 4, buf.byte 5] ++ buf.bytes 6 (flaphdrLen buf)) := by
    rw [frameOf, hlen, flaphdrlen, Nat.add_sub_cancel, hword, hhdr.1.1]
  rw [hsplit, hframe]
  refine ⟨by simp; omega, fun i h₂ h₃ => ?_⟩
  obtain _ | _ | _ | _ | n := i
  · simp [bytePut16]
  · simp [bytePut16]
  · exact absurd rfl h₂
  · exact absurd rfl h₃
  · simp [bytePut16]

/-- What becomes of a frame that was answered, from the world that shows the answer on. -/
inductive Concluded (cid : Nat) (buf : Block) (buflen : Nat) (c : Conn) (w : World) : Hret → Bool → World → Prop
  | error : Concluded cid buf buflen c w .error false w
  | reused {hret : Hret} {b : Bool} {w' : World} :
      (hret = .digested ∨ hret = .forward ∧ c.endpoint = none) → reqflap cid (some buf) w = .ok (b, w') →
      Concluded cid buf buflen c w hret b w'
  | unsent {e : Nat} {d : Conn} {env : Env} :
      c.endpoint = some e → w.conn? e = some d → Same w.env env →
      Concluded cid buf buflen c w .forward false (sent w e false (frameOf buf d.nextseqnum buflen) env)
  | sent {e : Nat} {d : Conn} {env : Env} {b : Bool} {w' : World} :
      c.endpoint = some e → w.conn? e = some d → Same w.env env →
      reqflap cid none (sent w e true (frameOf buf d.nextseqnum buflen) env) = .ok (b, w') →
      Concluded cid buf buflen c w .forward b w'

/-- What becomes of a complete frame and its buffer, by the answer of the handler. -/
theorem conclude_cases {cid : Nat} {buf : Block} {buflen : Nat} {hret : Hret} {b : Bool} (hhdr : 6 ≤ buflen)
    (hlt : buflen < 65536) (hr : conclude cid buf buflen hret w = .ok (b, w')) :
    ∃ c, w.conn? cid = some c ∧
      Concluded cid buf buflen c (w.observe (.answered cid (buf.bytes 0 buflen) hret c.endpoint)) hret b w' := by
  obtain ⟨c, w₁, hconn, hrest⟩ := bind_ok.1 hr
  obtain ⟨hc, rfl⟩ := Sys.conn_ok.1 hconn
  clear hr
  refine ⟨c, hc, ?_⟩
  obtain ⟨_, w₂, hobs, hr⟩ := bind_ok.1 hrest
  cases update_ok.1 hobs
  cases hret with
  | error =>
      cases pure_ok.1 hr
      exact .error
  | digested => exact .reused (.inl rfl) hr
  | forward =>
      cases hend : c.endpoint with
      | none =>
          rw [hend] at hr
          exact .reused (.inr ⟨rfl, hend⟩) hr
      | some e =>
          rw [hend] at hr
          obtain ⟨accepted, w₃, hsend, hr⟩ := bind_ok.1 hr
          obtain ⟨d, env, hd, hsame, rfl⟩ := sendraw_ok hhdr hlt hsend
          cases accepted with
          | false =>
              cases pure_ok.1 hr
              exact .unsent hend hd hsame
          | true => exact .sent hend hd hsame hr

/-- The frames that the reader takes are neither shorter than their header nor longer than a buffer. -/
theorem length_of_hdrok {buf : Block} {buflen : Nat} (hhdr : hdrok buf = true)
    (hlen : buflen = flaphdrLen buf + flaphdrlen) : 6 ≤ buflen ∧ buflen < 65536 := by
  have hbound : flaphdrLen buf ≤ maxsnaclen := by
    simp only [hdrok, Bool.and_eq_true, decide_eq_true_eq] at hhdr
    exact hhdr.2
  simp only [maxsnaclen, flaphdrlen] at hbound hlen
  omega

theorem conclude_acts {cid : Nat} {buf : Block} {buflen : Nat} {hret : Hret}
    (hown : p.own = some cid) (hhdr : hdrok buf = true)
    (hlen : buflen = flaphdrLen buf + flaphdrlen) : Does (Act p) (conclude cid buf buflen hret) := by
  intro w b w' hr
  obtain ⟨hle, hlt⟩ := length_of_hdrok hhdr hlen
  obtain ⟨c, hc, hconcluded⟩ := conclude_cases hle hlt hr
  have hanswer (h : hret = .forward → c.endpoint = none) :
      Act p w (w.observe (.answered cid (buf.bytes 0 buflen) hret c.endpoint)) := .answer hown h
  cases hconcluded with
  | error => exact .single (hanswer (by simp))
  | reused hreused hflap =>
      refine .head (hanswer fun hforward => ?_) (reqflap_acts hown _ _ _ hflap)
      obtain rfl | ⟨-, hend⟩ := hreused
      · cases hforward
      · exact hend
  | unsent hend hd hsame =>
      exact .single (hend ▸ .forward hown hd hsame (framed_frameOf hlt) (rewritten_frameOf hhdr hlen))
  | sent hend hd hsame hflap =>
      refine .head ?_ (reqflap_acts hown _ _ _ hflap)
      exact hend ▸ .forward hown hd hsame (framed_frameOf hlt) (rewritten_frameOf hhdr hlen)

theorem takeread_acts {cid : Nat} (hown : p.own = some cid) : Does (Act p) (takeread cid) := by
  refine .bind (conn_does cid) fun c => ?_
  cases c.rx with
  | none => exact .pure _
  | some rx =>
      refine .bind ?_ fun _ => .pure _
      intro w r w' hr
      obtain ⟨-, hr⟩ := Sys.modify_ok.1 hr
      cases hr
      exact .single (.read hown)

/-- The reader takes the buffer of the connection, if it has one. -/
theorem takeread_ok {cid : Nat} {r : Option (Block × Nat)} (hr : takeread cid w = .ok (r, w')) :
    ∃ c, w.conn? cid = some c ∧ (c.rx = none ∧ r = none ∧ w' = w ∨
      ∃ rx, c.rx = some rx ∧ r = some (rx.buf, rx.len) ∧ w' = w.modify cid (.setRx none)) := by
  obtain ⟨c, w, hconn, hrest⟩ := bind_ok.1 hr
  obtain ⟨hc, rfl⟩ := Sys.conn_ok.1 hconn
  refine ⟨c, hc, ?_⟩
  cases hrx : c.rx with
  | none =>
      rw [hrx] at hrest
      cases pure_ok.1 hrest
      exact .inl ⟨rfl, rfl, rfl⟩
  | some rx =>
      rw [hrx] at hrest
      obtain ⟨_, _, hmod, hrest⟩ := bind_ok.1 hrest
      obtain ⟨-, hmod⟩ := Sys.modify_ok.1 hmod
      cases hmod
      cases pure_ok.1 hrest
      exact .inr ⟨rx, rfl, rfl, rfl⟩

/-- What a frame has to do with the world does not depend on the read request. -/
theorem relogs_setRx {cid : Nat} {buf : Block} {buflen : Nat} {rx : Option Rx}
    (h : Relogs (w.modify cid (.setRx rx)) cid buf buflen) : Relogs w cid buf buflen := by
  obtain ⟨c, tlvh, g, hc, hrest⟩ := h
  rw [World.conn?_modify (Conn.setRx_cid _), if_pos rfl, Option.map_eq_some_iff] at hc
  obtain ⟨d, hd, rfl⟩ := hc
  exact ⟨d, tlvh, g, hd, hrest⟩

/-- The reader on a buffer: `own` is its connection, and what the frame in the buffer is
permitted the reader is permitted. -/
theorem handleread_acts {cid : Nat} (wf : w.Wf) (hstart : p.start ≤ w.nextcid)
    (hown : p.own = some cid) (hname : ∀ ckc ∈ w.ckcache, p.name ckc.sn)
    (hcookie : ∀ c rx ckc, w.conn? cid = some c → c.rx = some rx → hdrok rx.buf = true →
      rx.len = flaphdrLen rx.buf + flaphdrlen → rx.buf.byte 1 = 0x02 →
      snaccookie w (rx.buf.suffix flaphdrlen) (rx.len - flaphdrlen) ckc → p.cookie ckc)
    (hperm : ∀ c rx, w.conn? cid = some c → c.rx = some rx → hdrok rx.buf = true →
      rx.len = flaphdrLen rx.buf + flaphdrlen → rx.buf.byte 1 = 0x01 →
      Relogs w cid rx.buf rx.len → p.reconnect) :
    DoesFrom (Act p) (handleread cid) w := by
  refine .bind (takeread_acts hown w) fun taken w₁ htake => ?_
  obtain ⟨c, hc, ⟨-, rfl, rfl⟩ | ⟨rx, hrx, rfl, rfl⟩⟩ := takeread_ok htake
  · exact .pure _
  refine .bind (Quiet.act (mem_quiet _) _) fun _ w₁ hload => ?_
  obtain ⟨-, hload⟩ := Sys.mem_load_ok.1 hload
  cases hload
  refine .ite (fun _ => .pure _) fun hhdr => .ite (fun _ => reqread_acts hown _) fun hlen => ?_
  simp only [Bool.not_eq_false, ne_eq, Decidable.not_not] at hhdr hlen
  refine .bind (.update (.hand hown)) fun _ w₁ hobs => ?_
  cases update_ok.1 hobs
  refine .bind (dispatch_acts ?_ hstart hname ?_ ?_) fun hret w₁ _ => conclude_acts hown hhdr hlen _
  · exact (wf.modify (Conn.setRx_cid _)).congr rfl (Nat.le_refl _)
  · exact fun ckc hchan hsnac => hcookie c rx ckc hc hrx hhdr hlen hchan hsnac
  · exact fun hchan hrelogs => hperm c rx hc hrx hhdr hlen hchan (relogs_setRx hrelogs)

/-! ## Closing -/

/-- The destructor of one tag. -/
theorem freetag_eq {dead : Conn} {g : Gnr} {tag : Tag TagData} (howner : tag.owner = module) :
    freetag dead tag { w with gnr := g } =
      .ok ((), { w with gnr := freedTag w dead.cid g tag }) := by
  unfold freetag freedTag
  by_cases hname : tag.name = lit "conn.screenname"
  · rw [if_pos hname, if_pos ⟨howner, hname⟩]
    cases tag.data with
    | int n => rfl
    | tlvs l => rfl
    | string sn =>
        dsimp only
        rw [Prog.bind_of_ok (show Gnr.findnode sn (some oscarservice) { w with gnr := g } =
          .ok (g.findbyname sn (some oscarservice), { w with gnr := g }) from rfl)]
        cases g.findbyname sn (some oscarservice) with
        | none => rfl
        | some node =>
            have hother : userhasotherclient sn dead.cid { w with gnr := g } =
                .ok (w.conns.any (userhasotherclientMatcher w.env.overrun sn dead.cid),
                  { w with gnr := g }) := by
              have hany : w.conns.any (userhasotherclientMatcher w.env.overrun sn dead.cid) =
                  (w.conns.find? (userhasotherclientMatcher w.env.overrun sn dead.cid)).isSome := by
                rw [Bool.eq_iff_iff, List.find?_isSome, List.any_eq_true]
              rw [userhasotherclient, map_ok, hany]
              exact ⟨_, _, Naf.Conn.find_eq _, rfl⟩
            dsimp only
            rw [Prog.bind_of_ok hother]
            split <;> rfl
  · rw [if_neg hname, if_neg fun h => hname h.2]
    rfl

/-- The destructors of all tags. -/
theorem tagFreelist_eq (dead : Conn) :
    Naf.Conn.tagFreelist ops dead w = .ok ((), { w with gnr := freed w dead }) := by
  have hlist : ∀ f : Tag TagData → Sys Unit,
      (∀ tag g, f tag { w with gnr := g } = .ok ((), { w with gnr := freedTag w dead.cid g tag })) →
      ∀ (tags : List (Tag TagData)) (g : Gnr), Prog.each f tags { w with gnr := g } =
        .ok ((), { w with gnr := tags.foldl (freedTag w dead.cid) g }) := by
    intro f hf tags
    induction tags with
    | nil => exact fun g => rfl
    | cons tag tags ih =>
        intro g
        rw [Prog.each, Prog.bind_of_ok (hf tag g), List.foldl_cons]
        exact ih _
  refine hlist _ (fun tag g => ?_) dead.taglist w.gnr
  by_cases howner : tag.owner = module
  · simpa [ops, howner] using freetag_eq howner
  · simp [ops, howner, freedTag, Prog.pure_run]

/-- A connection that is gone, whose number is not given away again. -/
structure Gone (k : Nat) (w : World) : Prop where
  wf : w.Wf
  lt : k < w.nextcid
  none : w.conn? k = none

theorem Gone.modify {k cid : Nat} {f : Conn → Conn} (hk : Gone k w) (hf : ∀ c, (f c).cid = c.cid) :
    Gone k (w.modify cid f) where
  wf := hk.wf.modify hf
  lt := hk.lt
  none := by
    rw [World.conn?_modify hf, hk.none]
    simp

/-- A number that is gone is not given again. -/
theorem Gone.insert {k pos : Nat} {c : Conn} (hk : Gone k w) (hnew : New w c) :
    Gone k (w.insert pos c) where
  wf := hk.wf.insert hnew.cid
  lt := by
    have := hk.lt
    have := hnew.cid
    simp only [World.insert]
    omega
  none := by
    rw [hk.wf.conn?_insert hnew.cid, if_neg (Nat.ne_of_lt hk.lt)]
    exact hk.none

theorem Gone.close {k cid : Nat} (hk : Gone k w) : Gone k (w.close cid) where
  wf := hk.wf.close
  lt := hk.lt
  none := by
    rw [World.conn?_close, hk.none]
    simp

theorem Gone.congr {k : Nat} (hk : Gone k w) (hconns : w'.conns = w.conns)
    (hnext : w.nextcid ≤ w'.nextcid) : Gone k w' where
  wf := hk.wf.congr hconns hnext
  lt := Nat.lt_of_lt_of_le hk.lt hnext
  none := by
    have hnone := hk.none
    simp only [World.conn?] at hnone ⊢
    rw [hconns]
    exact hnone

theorem Gone.sent {k cid : Nat} {b : Bool} {frame : Bytes} {env : Env} (hk : Gone k w) :
    Gone k (sent w cid b frame env) where
  wf := wf_sent hk.wf
  lt := hk.lt
  none := by
    rw [conn?_sent, hk.none]
    simp

theorem Quiet.gone (h : Quiet p w w') {k : Nat} (hk : Gone k w) : Gone k w' := by
  cases h with
  | env _ _ => exact hk.congr rfl (Nat.le_refl _)
  | count _ _ hle => exact hk.congr rfl hle
  | touch _ ht => exact hk.modify ht.cid
  | send _ _ _ => exact hk.sent
  | request _ _ _ _ => exact hk.modify (Conn.setRx_cid _)

/-- What is gone stays so in every step. -/
theorem Act.gone (h : Act p w w') {k : Nat} (hk : Gone k w) : Gone k w' := by
  cases h with
  | quiet h => exact h.gone hk
  | accept hnew => exact hk.insert hnew
  | connect _ _ _ hnew _ hquiet =>
      have hk' := keep (fun _ _ h => h.gone) hquiet
        ((hk.insert hnew).modify (Conn.setEndpoint_cid _))
      exact (hk'.modify (Conn.setOwner_cid _)).modify (Conn.setEndpoint_cid _)
  | disconnect _ _ | unlink _ _ _ => exact hk.modify (Conn.setEndpoint_cid _)
  | read _ => exact hk.modify (Conn.setRx_cid _)
  | name _ _ _ _ _ => exact hk.modify (Conn.setTaglist_cid _)
  | bury _ => exact hk.close.congr rfl (Nat.le_refl _)
  | forward _ _ _ _ _ =>
      have hobs : ∀ o, Gone k (w.observe o) := fun o => hk.congr rfl (Nat.le_refl _)
      exact (hobs _).sent
  | cookieAdd _ | cookieDrop _ | online _ _ | usehit | timeout | confchange | hand _ | answer _ _ =>
      exact hk.congr rfl (Nat.le_refl _)

/-- `detach` at one connection, given that the connection it points to is gone. -/
theorem detach_acts {free : Nat → Sys Unit} {dead cid : Nat} {get : Conn → Option Nat}
    {clear : Conn → Conn} (hfree : ∀ w, w.Wf → DoesFrom (Act p) (free cid) w) (hgone : Gone dead w)
    (hclear : ∀ w c, w.conn? cid = some c → get c = some dead → w.conn? dead = none →
      Act p w (w.modify cid clear)) :
    DoesFrom (Act p) (Naf.Conn.detach free dead get clear cid) w := by
  refine .bind (.read _) fun found w hfound => ?_
  cases hfound
  dsimp only
  cases hc : w.conn? cid with
  | none => exact .pure _
  | some c =>
      refine .ite (fun hget => ?_) fun _ => .pure _
      refine .bind (fun _ w₁ hmod => ?_) fun _ w₁ hmod => ?_
      · obtain ⟨-, hmod⟩ := Sys.modify_ok.1 hmod
        cases hmod
        exact .single (hclear w c hc hget hgone.none)
      · obtain ⟨-, hmod⟩ := Sys.modify_ok.1 hmod
        cases hmod
        exact .ite (fun _ => .pure _) fun _ => hfree _ ((hclear w c hc hget hgone.none).wf hgone.wf)

theorem remchildren_acts {free : Nat → Sys Unit} {dead : Nat}
    (hfree : ∀ cid w, w.Wf → DoesFrom (Act p) (free cid) w) (hgone : Gone dead w) :
    DoesFrom (Act p) (Naf.Conn.remchildren free dead) w := by
  refine .bind (.read _) fun cids w hcids => ?_
  cases hcids
  refine .each (fun cid w hw => ?_) (fun _ _ h => h.gone) _ hgone
  exact detach_acts (hfree cid) hw fun w c hc _ _ =>
    .quiet (.touch hc ⟨fun _ => rfl, rfl, rfl, rfl, rfl, fun _ => .inl, rfl, rfl⟩)

theorem remendpoint_acts {free : Nat → Sys Unit} {dead : Nat}
    (hfree : ∀ cid w, w.Wf → DoesFrom (Act p) (free cid) w) (hgone : Gone dead w) :
    DoesFrom (Act p) (Naf.Conn.remendpoint free dead) w := by
  refine .bind (.read _) fun cids w hcids => ?_
  cases hcids
  refine .each (fun cid w hw => ?_) (fun _ _ h => h.gone) _ hgone
  exact detach_acts (hfree cid) hw fun w c hc hget hnone => .unlink hc hget hnone

/-- Closing a connection, and with it those that hang on it. -/
theorem freeWithin_ok {fuel cid : Nat} {u : Unit} (wf : w.Wf)
    (hr : Naf.Conn.freeWithin ops fuel cid w = .ok (u, w')) :
    ReflTransGen (Act p) w w' ∧ Gone cid w' := by
  induction fuel generalizing cid u w w' with
  | zero => exact (Prog.fault_ok.1 hr).elim
  | succ fuel ih =>
      simp only [Naf.Conn.freeWithin, bind_ok, Sys.conn_ok] at hr
      obtain ⟨dead, w, ⟨hdead, rfl⟩, _, w₁, hclose, _, w₂, hkill, _, w₃, htags, _, w₄,
        hchildren, hendpoint⟩ := hr
      cases update_ok.1 hclose
      have hnokill : (dead.owner.bind fun owner => (ops owner).connkill) = none := by
        cases dead.owner with
        | none => rfl
        | some owner => by_cases howner : owner = module <;> simp [ops, howner]
      rw [hnokill] at hkill
      cases pure_ok.1 hkill
      rw [tagFreelist_eq] at htags
      cases htags
      have hbury : Act p w { w.close cid with gnr := freed (w.close cid) dead } := .bury hdead
      have hgone : Gone cid { w.close cid with gnr := freed (w.close cid) dead } := by
        refine ⟨hbury.wf wf, wf.lt_nextcid hdead, ?_⟩
        have hnone : (w.close cid).conn? cid = none := by simp [World.conn?_close]
        exact hnone
      have hfree : ∀ k w, w.Wf → DoesFrom (Act p) (Naf.Conn.freeWithin ops fuel k) w :=
        fun k w wf _ _ hr => (ih wf hr).1
      have hacts := remchildren_acts hfree hgone _ _ hchildren
      have hgone' : Gone cid w₄ := keep (fun _ _ h => h.gone) hacts hgone
      have hacts' := remendpoint_acts hfree hgone' _ _ hendpoint
      exact ⟨.head hbury (hacts.trans hacts'), keep (fun _ _ h => h.gone) hacts' hgone'⟩

/-- A close is a row of steps, and the connection is gone behind it. -/
theorem free_ok {cid : Nat} {u : Unit} (wf : w.Wf) (hr : Naf.Conn.free ops cid w = .ok (u, w')) :
    ReflTransGen (Act p) w w' ∧ Gone cid w' := by
  obtain ⟨n, w, hn, hr⟩ := bind_ok.1 hr
  cases read_ok.1 hn
  exact freeWithin_ok wf hr

theorem free_acts (cid : Nat) (wf : w.Wf) : DoesFrom (Act p) (Naf.Conn.free ops cid) w :=
  fun _ _ hr => (free_ok wf hr).1

/-! ## The step -/

/-- The buffer and the length that the reader is called with, and its connection. -/
def received (w : World) : Event → Option (Nat × Block × Nat)
  | .readable cid bytes =>
      match w.conn? cid with
      | none => none
      | some c =>
          if c.type.connecting || c.type.detecting || c.owner ≠ some module then none
          else
            match c.rx with
            | none => none
            | some rx =>
                if rx.offset + bytes.length = rx.len then
                  some (cid, rx.buf.fill rx.offset bytes, rx.len)
                else none
  | _ => none

/-- The frame that the reader hands on: its connection, buffer and length. -/
def completes (w : World) (e : Event) : Option (Nat × Block × Nat) :=
  (received w e).filter fun f => hdrok f.2.1 && f.2.2 = flaphdrLen f.2.1 + flaphdrlen

/-- A client that has an endpoint redeems a cookie. -/
def Relogin (w : World) (i : Input) : Prop :=
  ∃ cid buf buflen, completes w i.event = some (cid, buf, buflen) ∧ buf.byte 1 = 0x01 ∧
    Relogs { w with env := i.env } cid buf buflen

/-- What a step may do beyond the ordinary. -/
def permOf (w : World) (i : Input) : Perm where
  start := w.nextcid
  own := match i.event with
    | .readable cid _ => some cid
    | _ => none
  cookie ckc := ∃ cid buf buflen, completes w i.event = some (cid, buf, buflen) ∧
    buf.byte 1 = 0x02 ∧
    snaccookie { w with env := i.env } (buf.suffix flaphdrlen) (buflen - flaphdrlen) ckc
  name sn := ∃ ckc ∈ w.ckcache, ckc.sn = sn
  reconnect := Relogin w i

theorem keepaliveMatcher_quiet (now : Int) (c : Conn) : Does (Quiet p) (keepaliveMatcher now c) := by
  refine .ite (fun _ => .bind (.read _) fun config => ?_) fun _ => .pure _
  refine .bind (.ite (fun _ => ?_) fun _ => .pure _) fun _ => ?_
  · exact .bind (sendnop_quiet _) fun _ => .pure _
  · exact .bind (.ite (fun _ => schedulekill_quiet _) fun _ => .pure _) fun _ => .pure _

theorem timerhandler_acts : Does (Act p) timerhandler := by
  refine .bind now_does fun now => .bind (.update fun w => ?_) fun _ => ?_
  · exact .cookieDrop List.filter_sublist
  · exact .bind (Quiet.act (find_quiet fun c => keepaliveMatcher_quiet now c)) fun _ => .pure _

theorem connhandlerIncomingconn_acts (hstart : p.start ≤ w.nextcid) :
    DoesFrom (Act p) (Naf.Conn.connhandlerIncomingconn ops module) w := by
  refine .bind (fun r w' hadd => ?_) fun r w' hadd => ?_
  · obtain ⟨env, hsame, ⟨-, nextcid, openconns, hnext, rfl⟩ | ⟨-, pos, c, hnew, -, rfl⟩⟩ :=
      addconn_ok hadd
    · exact .head (.quiet (.env env hsame)) (.single (.quiet (.count nextcid openconns hnext)))
    · exact .head (.accept hnew) (.single (.quiet (.env env hsame)))
  · obtain ⟨env, hsame, ⟨rfl, -⟩ | ⟨rfl, -⟩⟩ := addconn_ok hadd
    · exact .pure _
    · have howner : ∀ c, Touch c (.setOwner (some module)) :=
        fun _ => ⟨Conn.setOwner_cid _, rfl, rfl, rfl, rfl, fun _ => .inl, rfl, rfl⟩
      refine Quiet.act (.bind (modify_quiet howner) fun _ => ?_) _
      simp only [ops, if_true]
      exact .bind (takeconn_quiet hstart) fun _ => .pure _

/-- The event handlers close a connection when the module answers -1. -/
theorem orfree_acts {x : Sys Bool} {cid : Nat} (wf : w.Wf) (hx : DoesFrom (Act p) x w) :
    DoesFrom (Act p) (do if ← x then pure () else Naf.Conn.free ops cid) w := by
  refine .bind hx fun b w₁ hr => .ite (fun _ => .pure _) fun _ => ?_
  exact free_acts cid (keep (fun _ _ h => h.wf) (hx _ _ hr) wf)

/-- Only connections of the module have its hook. -/
theorem connready_of_owner (c : Conn) :
    (c.owner.bind fun owner => (ops owner).connready) =
      if c.owner = some module then some connready else none := by
  cases c.owner with
  | none => simp
  | some owner => by_cases howner : owner = module <;> simp [ops, howner]

theorem finishconnect_quiet (cid : Nat) : Does (Quiet p) (Naf.Conn.finishconnect ops cid) := by
  refine .bind (.read _) fun connected => .ite (fun _ => ?_) fun _ => .pure _
  refine .bind (.read _) fun sockname => .bind (modify_quiet fun _ => ?_) fun _ => ?_
  · exact ⟨fun _ => rfl, rfl, rfl, rfl, rfl, fun _ => .inl, rfl, rfl⟩
  refine .bind (conn_does cid) fun c => ?_
  rw [connready_of_owner]
  by_cases howner : c.owner = some module
  · rw [if_pos howner]
    exact .pure _
  · rw [if_neg howner]
    exact .pure _

theorem connhandlerWrite_acts (cid : Nat) (wf : w.Wf) :
    DoesFrom (Act p) (Naf.Conn.connhandlerWrite ops cid) w := by
  refine .bind (conn_does cid w) fun c w hconn => ?_
  obtain ⟨hc, rfl⟩ := Sys.conn_ok.1 hconn
  refine .ite (fun _ => orfree_acts wf (Quiet.act (finishconnect_quiet cid) w)) fun _ => ?_
  rw [connready_of_owner]
  by_cases howner : c.owner = some module
  · rw [if_pos howner]
    exact orfree_acts wf (Quiet.act (takewrite_quiet cid) w)
  · rw [if_neg howner]
    exact free_acts cid wf

/-- Bytes on a connection go to the detection of its protocol, or to its owner. -/
theorem connhandlerRead_ok {cid : Nat} {u : Unit} {c : Conn} (hc : w.conn? cid = some c)
    (hconnecting : c.type.connecting = false)
    (hr : Naf.Conn.connhandlerRead ops cid w = .ok (u, w')) :
    (c.type.detecting || c.owner ≠ some module) = true ∧ Naf.Conn.free ops cid w = .ok (u, w') ∨
      (c.type.detecting || c.owner ≠ some module) = false ∧
        (do if ← handleread cid then pure () else Naf.Conn.free ops cid) w = .ok (u, w') := by
  obtain ⟨c', w, hconn, hrest⟩ := bind_ok.1 hr
  obtain ⟨hc', rfl⟩ := Sys.conn_ok.1 hconn
  obtain rfl : c = c' := by
    rw [hc] at hc'
    exact Option.some.inj hc'
  rw [if_neg (by simp [hconnecting]), connready_of_owner] at hrest
  cases hdet : c.type.detecting with
  | true => exact .inl ⟨rfl, by simpa [hdet] using hrest⟩
  | false =>
      rw [if_neg (by simp [hdet])] at hrest
      by_cases howner : c.owner = some module
      · rw [if_pos howner] at hrest
        exact .inr ⟨by simp [howner], hrest⟩
      · rw [if_neg howner] at hrest
        exact .inl ⟨by simp [howner], hrest⟩

/-- The world in which the reader is called: the bytes are in the buffer. -/
def stored (w : World) (cid : Nat) (rx : Rx) (bytes : Bytes) : World :=
  w.modify cid (.setRx (some { rx with buf := rx.buf.fill rx.offset bytes }))

theorem conn?_stored {cid : Nat} {rx : Rx} {bytes : Bytes} {c : Conn} (hc : w.conn? cid = some c) :
    (stored w cid rx bytes).conn? cid =
      some (c.setRx (some { rx with buf := rx.buf.fill rx.offset bytes })) := by
  rw [stored, World.conn?_modify (Conn.setRx_cid _), if_pos rfl, hc]
  rfl

theorem received_readable {cid : Nat} {bytes : Bytes} {c : Conn} {rx : Rx}
    (hc : w.conn? cid = some c) (hrx : c.rx = some rx) :
    received w (.readable cid bytes) =
      if c.type.connecting || (c.type.detecting || c.owner ≠ some module) then none
      else if rx.offset + bytes.length = rx.len then
        some (cid, rx.buf.fill rx.offset bytes, rx.len)
      else none := by
  simp only [received, hc, hrx, Bool.or_assoc]

/-- Nothing is received where no buffer was asked for. -/
theorem received_none {cid : Nat} {bytes : Bytes}
    (h : ∀ c, w.conn? cid = some c → c.type.connecting = true ∨ c.rx = none) :
    received w (.readable cid bytes) = none := by
  simp only [received]
  cases hc : w.conn? cid with
  | none => rfl
  | some c =>
      obtain hconnecting | hrx := h c hc
      · simp [hconnecting]
      · simp [hrx]

/-- Bytes that arrive are not wanted, or close the connection, or the reader sees them. -/
theorem completeread_ok {cid : Nat} {bytes : Bytes} {u : Unit}
    (hr : completeread cid bytes w = .ok (u, w')) :
    received w (.readable cid bytes) = none ∧ w' = w ∨
      ∃ c rx, w.conn? cid = some c ∧ c.rx = some rx ∧ rx.offset + bytes.length = rx.len ∧
        rx.offset + bytes.length ≤ rx.buf.size ∧
        (received w (.readable cid bytes) = none ∧
            Naf.Conn.free ops cid (stored w cid rx bytes) = .ok (u, w') ∨
          received w (.readable cid bytes) = some (cid, rx.buf.fill rx.offset bytes, rx.len) ∧
            (do if ← handleread cid then pure () else Naf.Conn.free ops cid)
              (stored w cid rx bytes) = .ok (u, w')) := by
  obtain ⟨found, w, hfound, hrest⟩ := bind_ok.1 hr
  cases read_ok.1 hfound
  cases hc : w.conn? cid with
  | none =>
      rw [hc] at hrest
      cases pure_ok.1 hrest
      exact .inl ⟨received_none (by simp [hc]), rfl⟩
  | some c =>
      simp only [hc] at hrest
      -- a connection that is still being set up is not read from
      cases hconnecting : c.type.connecting with
      | true =>
          rw [if_pos hconnecting] at hrest
          obtain ⟨c', w, hconn, hrest⟩ := bind_ok.1 hrest
          obtain ⟨hc', rfl⟩ := Sys.conn_ok.1 hconn
          rw [hc] at hc'
          cases hc'
          rw [if_pos hconnecting] at hrest
          cases pure_ok.1 hrest
          exact .inl ⟨received_none (by simp [hc, hconnecting]), rfl⟩
      | false =>
          rw [if_neg (by simp [hconnecting])] at hrest
          cases hrx : c.rx with
          | none =>
              rw [hrx] at hrest
              cases pure_ok.1 hrest
              exact .inl ⟨received_none (by simp [hc, hrx]), rfl⟩
          | some rx =>
              simp only [hrx] at hrest
              rw [received_readable hc hrx, hconnecting]
              -- less than the request leaves it outstanding
              by_cases hlen : rx.offset + bytes.length = rx.len
              · rw [if_pos hlen] at hrest
                simp only [bind_ok, Sys.mem_store_ok, Sys.modify_ok, Prod.mk.injEq] at hrest
                obtain ⟨_, w, ⟨hsize, rfl, rfl⟩, _, _, ⟨-, -, rfl⟩, hrest⟩ := hrest
                refine .inr ⟨c, rx, rfl, hrx, hlen, hsize, ?_⟩
                obtain ⟨hno, hfree⟩ | ⟨hyes, hread⟩ :=
                  connhandlerRead_ok (conn?_stored hc) hconnecting hrest
                · exact .inl ⟨if_pos hno, hfree⟩
                · refine .inr ⟨?_, hread⟩
                  rw [if_neg, if_pos hlen]
                  exact fun h => Bool.false_ne_true (hyes.symm.trans h)
              · rw [if_neg hlen] at hrest
                cases pure_ok.1 hrest
                exact .inl ⟨by rw [if_neg hlen]; split <;> rfl, rfl⟩

/-- Bytes that arrive may complete a frame, and that is then handled. -/
theorem completeread_acts {i : Input} {cid : Nat} {bytes : Bytes}
    (hevent : i.event = .readable cid bytes) (wf : w.Wf) :
    DoesFrom (Act (permOf w i)) (completeread cid bytes) { w with env := i.env } := by
  intro u w' hr
  have hown : (permOf w i).own = some cid := by simp [permOf, hevent]
  obtain ⟨-, rfl⟩ | ⟨c, rx, hc, hrx, -, -, hrun⟩ := completeread_ok hr
  · exact .refl
  have wf₀ : ({ w with env := i.env } : World).Wf := wf.congr rfl (Nat.le_refl _)
  have wf₁ : (stored { w with env := i.env } cid rx bytes).Wf := wf₀.modify (Conn.setRx_cid _)
  suffices hrest : ReflTransGen (Act (permOf w i)) (stored { w with env := i.env } cid rx bytes) w'
    from .head (.read hown) hrest
  obtain ⟨-, hfree⟩ | ⟨hreceived, hread⟩ := hrun
  · exact free_acts cid wf₁ _ _ hfree
  refine orfree_acts wf₁ (handleread_acts wf₁ (Nat.le_refl _) hown ?_ ?_ ?_) _ _ hread
  · exact fun ckc hckc => ⟨ckc, hckc, rfl⟩
  · intro c' rx' ckc hc' hrx' hhdr hlen hchan hsnac
    rw [conn?_stored hc] at hc'
    cases hc'
    cases hrx'
    refine ⟨cid, _, _, ?_, hchan, hsnac⟩
    have hreceived : received w (.readable cid bytes) = _ := hreceived
    simp only [completes, hevent, hreceived]
    exact Option.filter_some_pos (by simpa using ⟨hhdr, hlen⟩)
  · intro c' rx' hc' hrx' hhdr hlen hchan hrelogs
    rw [conn?_stored hc] at hc'
    cases hc'
    cases hrx'
    refine ⟨cid, _, _, ?_, hchan, relogs_setRx hrelogs⟩
    have hreceived : received w (.readable cid bytes) = _ := hreceived
    simp only [completes, hevent, hreceived]
    exact Option.filter_some_pos (by simpa using ⟨hhdr, hlen⟩)

theorem ifopen_acts {cid : Nat} {x : Sys Unit} (hx : DoesFrom (Act p) x w) :
    DoesFrom (Act p) (ifopen cid x) w := by
  refine .bind (.read _) fun found w hfound => ?_
  cases hfound
  exact .ite (fun _ => hx) fun _ => .pure _

/-- Every step is a sequence of acts, and does nothing beyond what its input permits. -/
theorem step_acts {i : Input} (wf : w.Wf) (hstep : step i w = .ok w') :
    ReflTransGen (Act (permOf w i)) { w with env := i.env } w' := by
  have wf' : ({ w with env := i.env } : World).Wf := wf.congr rfl (Nat.le_refl _)
  simp only [step] at hstep
  cases hrun : handle i.event { w with env := i.env } with
  | error e =>
      rw [hrun] at hstep
      cases hstep
  | ok r =>
      obtain ⟨u, w₁⟩ := r
      rw [hrun] at hstep
      cases hstep
      revert hrun
      suffices hdoes : DoesFrom (Act (permOf w i)) (handle i.event) { w with env := i.env } from
        hdoes _ _
      cases hevent : i.event with
      | accept => exact connhandlerIncomingconn_acts (Nat.le_refl _)
      | readable cid bytes => exact completeread_acts hevent wf
      | writable cid => exact ifopen_acts (connhandlerWrite_acts cid wf')
      | closed cid => exact ifopen_acts (free_acts cid wf')
      | gnrTimer => exact .update .timeout
      | oscarTimer => exact timerhandler_acts _
      | confchange config => exact .update .confchange
      | disconnectuser sn => exact Quiet.act (.bind (forceDisconnect_quiet sn) fun _ => .pure _) _

/-- The numbering of connections is sound in every state that a run reaches. -/
theorem step_wf {i : Input} (wf : w.Wf) (hstep : step i w = .ok w') : w'.Wf :=
  keep (fun _ _ h => h.wf) (step_acts wf hstep) (wf.congr rfl (Nat.le_refl _))

end Timps.Oscar
