-- SUMMARY: What the handlers of channel 1 and of SNACs do, act by act.
import Timps.Oscar.Act

/-!
# The acts of the handlers

Each function of the module is shown to do nothing but acts, in an order that a caller
need not know. What a later act relies on (a connection that was just made, a cookie
that was just taken out of the cache) is carried from one statement to the next.
-/

namespace Timps

namespace World

variable {w : World}

theorem Wf.congr {w' : World} (wf : w.Wf) (hconns : w'.conns = w.conns)
    (hnext : w.nextcid ≤ w'.nextcid) : w'.Wf where
  nodup := hconns ▸ wf.nodup
  lt := fun c hc => Nat.lt_of_lt_of_le (wf.lt c (hconns ▸ hc)) hnext

end World

namespace Oscar

open Naf (Block Mem Nafmodule Sbuf Tag Tlv lit)
open Naf.Conn (tagAdd tagRemove tagFetch schedulekill getlocaladdrstr)
open Gnr (flagNone metricLocal metricMax)
open Prog (Does DoesFrom Gives keep bind_ok pure_ok map_ok read_ok update_ok)
open Relation (ReflTransGen)
open Sys (mem conn deref modify)

variable {p : Perm} {w w' : World}

/-! ## What acts keep -/

/-- What quiet acts do not change of a connection. -/
def view (c : Conn) : Option Nat × Bool × Bool × Option CStr :=
  (c.endpoint, c.type.client, c.type.server, screennameOf c)

theorem Touch.view {c : Conn} {f : Conn → Conn} (h : Touch c f) : view (f c) = view c := by
  simp only [Oscar.view, h.endpoint, h.client, h.server, h.screenname]

theorem conn?_sent {cid k : Nat} {b : Bool} {frame : Bytes} {env : Env} :
    (sent w cid b frame env).conn? k = if k = cid then (w.conn? k).map (fun c =>
      { c with
        lasttxSoft := w.env.now
        nextseqnum := if b then (c.nextseqnum + 1) % 65536 else c.nextseqnum }) else w.conn? k :=
  World.conn?_modify fun _ => rfl

/-- A change at one connection that keeps its view keeps all views. -/
theorem map_view_modify {cid : Nat} {c : Conn} {f : Conn → Conn} (hf : ∀ d, (f d).cid = d.cid)
    (hc : w.conn? cid = some c) (hview : view (f c) = view c) (k : Nat) :
    ((w.modify cid f).conn? k).map view = (w.conn? k).map view := by
  rw [World.conn?_modify hf]
  split
  · rename_i heq
    rw [heq, hc]
    simp [hview]
  · rfl

/-- A quiet step leaves what others see of a connection. -/
theorem Quiet.view (h : Quiet p w w') (k : Nat) : (w'.conn? k).map view = (w.conn? k).map view := by
  cases h with
  | env _ _ => rfl
  | count _ _ _ => rfl
  | touch hc ht => exact map_view_modify ht.cid hc ht.view k
  | send hc _ _ =>
      rw [conn?_sent]
      split
      · rename_i heq
        rw [heq, hc]
        rfl
      · rfl
  | request hc _ _ _ => refine map_view_modify (fun _ => ?_) hc ?_ k <;> rfl

theorem wf_sent {cid : Nat} {b : Bool} {frame : Bytes} {env : Env} (wf : w.Wf) :
    (sent w cid b frame env).Wf := by
  have wf' : (w.modify cid fun c =>
      { c with
        lasttxSoft := w.env.now
        nextseqnum := if b then (c.nextseqnum + 1) % 65536 else c.nextseqnum }).Wf :=
    wf.modify fun _ => rfl
  exact ⟨wf'.nodup, wf'.lt⟩

theorem Quiet.wf (h : Quiet p w w') (wf : w.Wf) : w'.Wf := by
  cases h with
  | env _ _ => exact wf.congr rfl (Nat.le_refl _)
  | count _ _ hle => exact wf.congr rfl hle
  | touch _ ht => exact wf.modify ht.cid
  | send _ _ _ => exact wf_sent wf
  | request _ _ _ _ => exact wf.modify fun _ => rfl

/-- Numbers stay apart in every step. -/
theorem Act.wf (h : Act p w w') (wf : w.Wf) : w'.Wf := by
  cases h with
  | quiet h => exact h.wf wf
  | accept hnew => exact wf.insert hnew.cid
  | connect _ _ _ hnew _ hquiet =>
      have wf' := keep (fun _ _ h => h.wf) hquiet
        ((wf.insert hnew.cid).modify (Conn.setEndpoint_cid _))
      exact (wf'.modify (Conn.setOwner_cid _)).modify (Conn.setEndpoint_cid _)
  | disconnect _ _ | unlink _ _ _ | read _ => exact wf.modify fun _ => rfl
  | name _ _ _ _ _ => exact wf.modify fun _ => rfl
  | bury _ => exact wf.close.congr rfl (Nat.le_refl _)
  | forward _ _ _ _ _ => exact wf_sent (wf.congr rfl (Nat.le_refl _))
  | cookieAdd _ | cookieDrop _ | online _ _ | usehit | timeout | confchange | hand _ | answer _ _ =>
      exact wf.congr rfl (Nat.le_refl _)

/-! ## Connecting -/

/-- `l` has the new server connection `e` as its endpoint, which is nobody's yet. -/
def Linked (p : Perm) (l e : Nat) (w : World) : Prop :=
  ∃ c n, w.conn? l = some c ∧ c.endpoint = some e ∧ p.start ≤ e ∧ w.conn? e = some n ∧
    n.type.server = true ∧ screennameOf n = none

theorem takenew_quiet {l e : Nat} {c : Conn} (hnew : p.start ≤ e) :
    Does (Quiet p) (Naf.Conn.takenew takeconns c l e) := by
  have hraw : ∀ k, Does (Quiet p)
      (modify k fun c => { c with type := { c.type with rawwaiting := false } }) :=
    fun k => modify_quiet fun _ => ⟨fun _ => rfl, rfl, rfl, rfl, rfl, fun _ => .inl, rfl, rfl⟩
  refine .bind ?_ fun _ => .ite (fun _ => .bind (hraw l) fun _ => hraw e) fun _ => .pure _
  cases c.owner with
  | none => exact .pure _
  | some owner =>
      simp only [Option.bind_some, takeconns]
      by_cases howner : owner = module
      · rw [if_pos howner]
        exact .bind (takeconn_quiet hnew) fun _ => .pure _
      · rw [if_neg howner]
        exact .pure _

/-- A connection that is opened becomes the endpoint of the one it is opened for. -/
theorem connectsocket_acts {l : Nat} {inprogress b : Bool} (wf : w.Wf)
    (hstart : p.start ≤ w.nextcid)
    (hperm : ∀ c, w.conn? l = some c → c.endpoint.isSome → c.type.client = true ∧ p.reconnect)
    (hr : Naf.Conn.connectsocket takeconns l inprogress w = .ok (b, w')) :
    ReflTransGen (Act p) w w' ∧ (b = true → ∃ e, Linked p l e w') := by
  simp only [Naf.Conn.connectsocket, bind_ok, Sys.conn_ok] at hr
  obtain ⟨c, w, ⟨hc, rfl⟩, endpoint, w₁, hadd, _, w₂, hpoint, hr⟩ := hr
  obtain ⟨-, hpoint⟩ := Sys.modify_ok.1 hpoint
  cases hpoint
  obtain ⟨env, hsame, ⟨rfl, nextcid, openconns, hnext, rfl⟩ | ⟨rfl, pos, n, hnew, htype, rfl⟩⟩ :=
    addconn_ok hadd
  · cases pure_ok.1 hr
    refine ⟨.head (.quiet (.env env hsame)) (.head (.quiet (.count nextcid openconns hnext)) (.single ?_)), by simp⟩
    exact .disconnect (c := c) hc (hperm c hc)
  · simp only [bind_ok, Sys.modify_ok, Prod.mk.injEq] at hr
    obtain ⟨_, w₃, htake, _, _, ⟨-, -, rfl⟩, _, _, ⟨-, -, rfl⟩, hr⟩ := hr
    cases pure_ok.1 hr
    -- what is left of the set-up touches no user and no endpoint
    have hquiet : ReflTransGen (Quiet p)
        ((w.insert pos n).modify l (.setEndpoint (some n.cid))) w₃ := by
      refine .head (.env env hsame) ?_
      rw [hnew.cid]
      exact takenew_quiet hstart _ _ _ htake
    have hserver : n.type.server = true := by rw [htype]
    have hclient : n.type.client = !c.type.client := by rw [htype]
    have hacts := Act.connect c.owner hc (hperm c hc) hnew ⟨hserver, hclient⟩ hquiet
    rw [hnew.cid] at hacts
    refine ⟨.single hacts, fun _ => ?_⟩
    have hle : l ≠ w.nextcid := Nat.ne_of_lt (wf.lt_nextcid hc)
    have hviews := fun k => keep (I := fun v => (v.conn? k).map view =
      (((w.insert pos n).modify l (.setEndpoint (some n.cid))).conn? k).map view)
      (fun _ _ h heq => (h.view k).trans heq) hquiet rfl
    have hl := hviews l
    have he := hviews w.nextcid
    rw [World.conn?_modify (Conn.setEndpoint_cid _), wf.conn?_insert hnew.cid] at hl he
    simp only [if_true, hnew.cid, if_neg hle, if_neg (Ne.symm hle), hc, Option.map_some,
      Option.map_eq_some_iff] at hl he
    obtain ⟨c', hc', hcview⟩ := hl
    obtain ⟨n', hn', hnview⟩ := he
    simp only [view, Prod.mk.injEq, Conn.setEndpoint_endpoint] at hcview hnview
    refine ⟨w.nextcid, c', (n'.setOwner c.owner).setEndpoint (some l), ?_, hcview.1, hstart, ?_, ?_, ?_⟩
    · rw [World.conn?_modify (Conn.setEndpoint_cid _), if_neg hle,
        World.conn?_modify (Conn.setOwner_cid _), if_neg hle]
      exact hc'
    · rw [World.conn?_modify (Conn.setEndpoint_cid _), if_pos rfl,
        World.conn?_modify (Conn.setOwner_cid _), if_pos rfl, hn']
      rfl
    · simpa [hnview.2.2.1] using hserver
    · have hempty : screennameOf n = none := by simp [screennameOf, tagstring, Tag.fetch, hnew.taglist]
      rw [← hempty, ← hnview.2.2.2]
      rfl

theorem Linked.quiet {l e : Nat} (h : Linked p l e w) (hq : Quiet p w w') : Linked p l e w' := by
  obtain ⟨c, n, hc, hce, hstart, hn, hserver, hnone⟩ := h
  have hl := hq.view l
  have he := hq.view e
  simp only [hc, hn, Option.map_some, Option.map_eq_some_iff] at hl he
  obtain ⟨c', hc', hcview⟩ := hl
  obtain ⟨n', hn', hnview⟩ := he
  simp only [view, Prod.mk.injEq] at hcview hnview
  exact ⟨c', n', hc', hcview.1.trans hce, hstart, hn', hnview.2.2.1.trans hserver,
    hnview.2.2.2.trans hnone⟩

/-- A connection attempt to the host gets as far as a socket. -/
def Reaches (w : World) (host : CStr) (port : Nat) : Prop :=
  ∃ newhost newport, Naf.Conn.splithost host port = some (newhost, newport) ∧
    w.env.connect newhost newport ≠ .failed

theorem startconnect_acts {l port : Nat} {host : CStr} {b : Bool} (wf : w.Wf)
    (hstart : p.start ≤ w.nextcid)
    (hperm : Reaches w host port → ∀ c, w.conn? l = some c → c.endpoint.isSome → c.type.client = true ∧ p.reconnect)
    (hr : startconnect l host port w = .ok (b, w')) :
    ReflTransGen (Act p) w w' ∧ (b = true → ∃ e, Linked p l e w') := by
  unfold startconnect Naf.Conn.startconnect at hr
  cases hsplit : Naf.Conn.splithost host port with
  | none =>
      rw [hsplit] at hr
      cases hr
  | some hostport =>
      simp only [hsplit, bind_ok, read_ok, Prod.mk.injEq] at hr
      obtain ⟨status, w, ⟨hstatus, rfl⟩, hr⟩ := hr
      cases status with
      | failed =>
          cases pure_ok.1 hr
          exact ⟨.refl, by simp⟩
      | connected =>
          exact connectsocket_acts wf hstart (hperm ⟨_, _, hsplit, by simp [← hstatus]⟩) hr
      | inprogress =>
          exact connectsocket_acts wf hstart (hperm ⟨_, _, hsplit, by simp [← hstatus]⟩) hr

/-- The new server connection gets the name of its user. -/
theorem tagAddScreenname_acts {e : Nat} {n : Conn} {sn : CStr} (he : w.conn? e = some n)
    (hstart : p.start ≤ e) (hserver : n.type.server = true) (hnone : screennameOf n = none)
    (hname : p.name sn) :
    DoesFrom (Act p) (tagAdd module (some e) (lit "conn.screenname") 'S' (.string sn)) w := by
  intro b w' hr
  simp only [tagAdd, bind_ok, Sys.conn_ok, Sys.mem_ok, Prod.mk.injEq] at hr
  obtain ⟨c, w, ⟨hc, rfl⟩, r, _, ⟨_, h, hadd, rfl, rfl⟩, hr⟩ := hr
  obtain rfl : n = c := by rw [hc] at he; exact (Option.some.inj he).symm
  refine .head (.quiet (.env { w.env with heap := h } ⟨rfl, rfl⟩)) ?_
  cases r with
  | none =>
      cases pure_ok.1 hr
      exact .refl
  | some taglist =>
      obtain ⟨-, rfl⟩ := Tag.add_ok hadd
      obtain ⟨_, _, hmod, hr⟩ := bind_ok.1 hr
      obtain ⟨-, hmod⟩ := Sys.modify_ok.1 hmod
      cases hmod
      cases pure_ok.1 hr
      exact .single (.name (c := n) hc hstart hserver hnone hname)

/-- A cookie is taken out of the cache at its first use. -/
theorem ckcacheRem_ok {ck : Bytes} {r : Option Ckcache} (hr : ckcacheRem ck w = .ok (r, w')) :
    r = none ∧ w' = w ∨ ∃ ckc, r = some ckc ∧ (ckcacheRemove w.ckcache ck).1 = some ckc ∧
      w' = { w with ckcache := (ckcacheRemove w.ckcache ck).2 } := by
  simp only [ckcacheRem, bind_ok, read_ok, Prod.mk.injEq] at hr
  obtain ⟨cache, w, ⟨rfl, rfl⟩, hr⟩ := hr
  rcases hrem : ckcacheRemove w.ckcache ck with ⟨ckc, rest⟩
  rw [hrem] at hr
  cases ckc with
  | none =>
      cases pure_ok.1 hr
      exact .inl ⟨rfl, rfl⟩
  | some ckc =>
      simp only [bind_ok, update_ok, pure_ok, Prod.mk.injEq] at hr
      obtain ⟨_, _, ⟨-, rfl⟩, rfl, rfl⟩ := hr
      exact .inr ⟨ckc, rfl, rfl, rfl⟩

/-! ## Channel 1 -/

theorem handlechan1Conncomplete_quiet (cid : Nat) :
    Does (Quiet p) (handlechan1Conncomplete cid) := by
  refine .bind (tagRemove_quiet (by decide)) fun wtag => ?_
  cases wtag with
  | some tag =>
      refine .bind (tagRemove_quiet (by decide)) fun idtag => ?_
      refine .bind (sendflapversion_quiet cid) fun _ => ?_
      exact .bind (authSendauthinforequest_quiet _ _ _) fun _ => .pure _
  | none =>
      refine .bind (tagRemove_quiet (by decide)) fun wtag => ?_
      cases wtag with
      | some tag => exact .bind (sendcookie_quiet _ _) fun _ => .pure _
      | none => exact .pure _

/-- The TLVs name a cookie that is cached, and its server can be reached. -/
def Redeems (w : World) (tlvh : List Tlv) : Prop :=
  ∃ cktlv ckc, Tlv.get tlvh 0x0006 = some cktlv ∧
    (ckcacheRemove w.ckcache (cktlv.value.getD [])).1 = some ckc ∧ Reaches w ckc.ip defaultport

/-- Once the two connections are looped together, the server's gets its user's name. -/
theorem attach_acts {cid e servtype : Nat} {sn : CStr} {tlvh : List Tlv}
    (hlinked : Linked p cid e w) (hname : p.name sn) : DoesFrom (Act p) (do
      modify cid fun c => { c with servtype }
      let c ← conn cid
      let e ← deref c.endpoint
      modify e.cid fun e => { e with servtype }
      let .true ← tagAdd module c.endpoint (lit "conn.screenname") 'S' (.string sn) | pure .error
      let .true ← tagAdd module c.endpoint (lit "conn.cookietlvs") 'V' (.tlvs tlvh) | pure .error
      pure Hret.digested : Sys Hret) w := by
  have htouch : ∀ k, Does (Quiet p) (modify k fun c => { c with servtype }) :=
    fun k => modify_quiet fun _ => ⟨fun _ => rfl, rfl, rfl, rfl, rfl, fun _ => .inl, rfl, rfl⟩
  have hkeep : ∀ {k w₁ w₂}, modify k (fun c => { c with servtype }) w₁ = .ok ((), w₂) →
      Linked p cid e w₁ → Linked p cid e w₂ :=
    fun hr h => keep (fun _ _ hq hl => hl.quiet hq) (htouch _ _ _ _ hr) h
  refine .bind (Quiet.act (htouch cid) w) fun _ w₁ h₁ => ?_
  have hlinked₁ := hkeep h₁ hlinked
  refine .bind (conn_does cid _) fun c w₁ h₂ => ?_
  obtain ⟨hc, rfl⟩ := Sys.conn_ok.1 h₂
  have hce : c.endpoint = some e := by
    obtain ⟨c', -, hc', hce, -⟩ := hlinked₁
    rw [hc] at hc'
    cases hc'
    exact hce
  refine .bind (deref_does _ _) fun e₁ w₂ h₃ => ?_
  obtain ⟨-, -, -, rfl⟩ := Sys.deref_ok.1 h₃
  refine .bind (Quiet.act (htouch _) _) fun _ w₂ h₄ => ?_
  obtain ⟨-, n, -, -, hstart, hn, hserver, hnone⟩ := hkeep h₄ hlinked₁
  rw [hce]
  refine .bind (tagAddScreenname_acts hn hstart hserver hnone hname) fun b w₃ _ => ?_
  cases b with
  | false => exact .pure _
  | true =>
      refine .bind (Quiet.act (tagAdd_quiet (by decide)) _) fun b w₄ _ => ?_
      cases b <;> exact .pure _

/-- A client that shows a cookie gets its name and a connection to its server. -/
theorem handlechan1Newconn_acts {cid : Nat} {tlvh : List Tlv} (wf : w.Wf)
    (hstart : p.start ≤ w.nextcid) (hname : ∀ ckc ∈ w.ckcache, p.name ckc.sn)
    (hperm : Redeems w tlvh → ∀ c, w.conn? cid = some c → c.endpoint.isSome → c.type.client = true ∧ p.reconnect) :
    DoesFrom (Act p) (handlechan1Newconn cid tlvh) w := by
  unfold handlechan1Newconn
  cases hcktlv : Tlv.get tlvh 0x0006 with
  | none => exact .pure _
  | some cktlv =>
      refine .bind ?_ fun r w₁ hrem => ?_
      · intro r w₁ hrem
        obtain ⟨-, rfl⟩ | ⟨ckc, -, -, rfl⟩ := ckcacheRem_ok hrem
        · exact .refl
        · exact .single (.cookieDrop (ckcacheRemove_sublist _ _))
      obtain ⟨rfl, rfl⟩ | ⟨ckc, rfl, hckc, rfl⟩ := ckcacheRem_ok hrem
      · exact .pure _
      have hconn : ∀ {b w₂}, startconnect cid ckc.ip defaultport
          { w with ckcache := (ckcacheRemove w.ckcache (cktlv.value.getD [])).2 } = .ok (b, w₂) →
          ReflTransGen (Act p) _ w₂ ∧ (b = true → ∃ e, Linked p cid e w₂) :=
        startconnect_acts (wf.congr rfl (Nat.le_refl _)) hstart
          fun hreach => hperm ⟨cktlv, ckc, hcktlv, hckc, hreach⟩
      refine .bind (fun b w₂ h => (hconn h).1) fun b w₂ h₂ => ?_
      cases b with
      | false => exact .pure _
      | true =>
          obtain ⟨e, hlinked⟩ := (hconn h₂).2 rfl
          exact attach_acts hlinked (hname ckc (ckcacheRemove_mem hckc).1)

/-- A client that has an endpoint presents a cookie that would get it another. -/
def Relogs (w : World) (cid : Nat) (buf : Block) (buflen : Nat) : Prop :=
  ∃ c tlvh h, w.conn? cid = some c ∧ c.type.client = true ∧ c.endpoint.isSome ∧
    chan1tlvs buf buflen w.env.heap = .ok (some tlvh, h) ∧ flaphdrLen buf ≠ 4 ∧
    (Tlv.get tlvh 0x0001).isSome = false ∧ Redeems w tlvh

theorem handlechan1_acts {cid : Nat} {buf : Block} {buflen : Nat} (wf : w.Wf)
    (hstart : p.start ≤ w.nextcid) (hname : ∀ ckc ∈ w.ckcache, p.name ckc.sn)
    (hperm : Relogs w cid buf buflen → p.reconnect) :
    DoesFrom (Act p) (handlechan1 cid buf buflen) w := by
  refine .bind (Quiet.act (mem_quiet _) _) fun r w₁ hmem => ?_
  obtain ⟨_, h, htlvs, hr⟩ := Sys.mem_ok.1 hmem
  cases hr
  cases r with
  | none => exact .pure _
  | some tlvh =>
      refine .bind (conn_does cid _) fun c w₁ hconn => ?_
      obtain ⟨hc, rfl⟩ := Sys.conn_ok.1 hconn
      refine .ite (fun _ => ?_) fun hlen => .ite (fun _ => .pure _) fun hxor => ?_
      · exact .ite (fun _ => Quiet.act (handlechan1Conncomplete_quiet cid) _) fun _ => .pure _
      refine .ite (fun hnew => ?_) fun _ => .pure _
      simp only [Bool.and_eq_true] at hnew hxor
      refine handlechan1Newconn_acts (wf.congr rfl (Nat.le_refl _)) hstart hname ?_
      rintro hredeem c' hc' hend
      obtain rfl : c' = c := by
        rw [hc] at hc'
        exact (Option.some.inj hc').symm
      exact ⟨hnew.1, hperm ⟨c', tlvh, h, hc', hnew.1, hend, htlvs, hlen,
        by simpa [hnew.1] using hxor, hredeem⟩⟩

/-! ## Nodes and messages -/

/-- The name of a connection is the one in its tag. -/
theorem fetchScreenname_ok {cid : Option Nat} {r : Option CStr × World}
    (hr : fetchScreenname cid w = .ok r) :
    r = ((cid.bind w.conn?).bind screennameOf, w) ∧ ∀ e, cid = some e → (w.conn? e).isSome := by
  cases cid with
  | none =>
      cases hr
      exact ⟨rfl, by simp⟩
  | some e =>
      simp only [fetchScreenname, tagFetch, map_ok, bind_ok, Sys.conn_ok, pure_ok,
        Prod.mk.injEq] at hr
      obtain ⟨tag, _, ⟨c, w, ⟨hc, rfl⟩, rfl, rfl⟩, rfl⟩ := hr
      refine ⟨by simp [hc, screennameOf], ?_⟩
      rintro e' ⟨⟩
      simp [hc]

/-- A node is looked up, and made if there is none. -/
theorem nodeOnline_acts {sn : CStr} {metric : Int}
    (hmetric : metric = metricLocal ∧ (∃ e c, w.conn? e = some c ∧ screennameOf c = some sn) ∨
      metric = metricMax) :
    DoesFrom (Act p) (Gnr.nodeOnline module sn oscarservice flagNone metric) w := by
  intro r w' hr
  simp only [Gnr.nodeOnline, Sys.now, bind_ok, read_ok, Sys.mem_ok, update_ok, pure_ok,
    Prod.mk.injEq] at hr
  obtain ⟨_, w, ⟨rfl, rfl⟩, _, w, ⟨rfl, rfl⟩, ⟨gn, g⟩, _, ⟨_, h, honline, rfl, rfl⟩, _, _,
    ⟨-, rfl⟩, -, rfl⟩ := hr
  refine .head (.quiet (.env { w.env with heap := h } ⟨rfl, rfl⟩)) ?_
  obtain ⟨n, -, -, rfl⟩ | ⟨hnone, ⟨-, rfl⟩ | ⟨-, rfl⟩⟩ := Gnr.online_ok honline
  · exact .refl
  · exact .refl
  · exact .single (.online (w := { w with env := { w.env with heap := h } }) hnone hmetric)

theorem assumeExternal_acts (name : CStr) : Does (Act p) (assumeExternal name) := by
  refine .bind (.read _) fun found => ?_
  cases found with
  | some gn => exact .pure _
  | none => exact fun w => .bind (nodeOnline_acts (.inr rfl)) fun _ _ _ => .pure _

theorem nodeMsgPostrouting_acts (gm : Msg) (gmhi : Gnr.HandlerInfo) :
    Does (Act p) (Gnr.nodeMsgPostrouting gm gmhi) := by
  have hhit : ∀ gn, Does (Act p) (Gnr.nodeUsehit gn) := fun gn => .update fun w => .usehit
  refine .bind (.ite (fun _ => .bind ?_ fun _ => ?_) fun _ => .pure _) fun _ => .pure _
  · cases gmhi.srcnode with
    | none => exact .pure _
    | some gn => exact hhit gn
  · cases gmhi.destnode with
    | none => exact .pure _
    | some gn => exact hhit gn

theorem msgrouting_does {R : World → World → Prop} (gm : Msg) (gmhi : Gnr.HandlerInfo) :
    Does R (msgrouting gm gmhi) := by
  unfold msgrouting
  split
  · exact .ite (fun _ => .pure _) fun _ => .ite (fun _ => .pure _) fun _ => .pure _
  · exact .pure _

theorem gnroutputfunc_acts (gm : Msg) (gmhi : Gnr.HandlerInfo) :
    Does (Act p) (gnroutputfunc gm gmhi) := by
  unfold gnroutputfunc
  cases gmhi.destnode with
  | none => exact .fault _
  | some destnode =>
      refine .ite (fun _ => .bind (find_does _) fun found => ?_) fun _ => ?_
      · cases found with
        | none => exact .pure _
        | some c => exact .bind (Quiet.act (sendincoming_quiet _ _)) fun _ => .pure _
      cases gmhi.srcnode with
      | none => exact .fault _
      | some srcnode =>
          refine .ite (fun _ => .bind (find_does _) fun found => ?_) fun _ => .pure _
          cases found with
          | none => exact .pure _
          | some c => exact .bind (Quiet.act (sendoutgoing_quiet _ _)) fun _ => .pure _

/-- Routing puts nodes online and writes to their connections. -/
theorem msgRoute_acts (gm : Msg) : Does (Act p) (Gnr.msgRoute handlers module gm) := by
  unfold Gnr.msgRoute
  split
  · refine .bind (.read _) fun srcnode => .bind (.read _) fun destnode => ?_
    refine .bind (.pure _) fun r₁ => .bind ?_ fun r₂ => .bind ?_ fun (gm, gmhi) => ?_
    · refine .bind (msgrouting_does _ _) fun r => ?_
      exact .ite (fun _ => .pure _) fun _ => .pure _
    · exact .bind (nodeMsgPostrouting_acts _ _) fun r => .pure _
    · dsimp only
      cases houtput : gmhi.targetmod.bind handlers.outputfunc with
      | none => exact .pure _
      | some outputfunc =>
          refine .bind ?_ fun _ => .pure _
          obtain ⟨mod, -, hmod⟩ := Option.bind_eq_some_iff.1 houtput
          simp only [handlers] at hmod
          split at hmod
          · cases hmod
            exact gnroutputfunc_acts _ _
          · cases hmod
  · exact .pure _

end Oscar
end Timps
