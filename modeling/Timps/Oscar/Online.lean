-- SUMMARY: Going online: what has been done when a client's announcement is sent on, and how long its user's node is local.
import Timps.Oscar.Seats

/-!
# Going online

A client that announces itself gets a node for its user, unless the user has one already.
`wentonline` lists the connections of the clients whose announcement was sent on, with the
server connections that they had then.
-/

namespace Timps.Oscar

open Naf (Block bytePut8 bytePut16 lit)
open Naf.Conn (takeread)
open Gnr (Node flagNone metricLocal metricMax namecmp)
open Prog (Does DoesFrom keep bind_ok pure_ok read_ok update_ok)
open Relation (ReflTransGen)
open Sys (mem conn modify)

variable {p : Perm} {w w' : World} {cid : Nat}

/-! ## Announcements -/

/-- A frame on channel 2 that starts with the group and the subtype of a SNAC. -/
def Snacframe (group subtype : Nat) (frame : Bytes) : Prop :=
  frame[1]? = some 0x02 ∧ (frame.drop flaphdrlen).take 4 = bytePut16 group ++ bytePut16 subtype

instance (group subtype : Nat) (frame : Bytes) : Decidable (Snacframe group subtype frame) :=
  inferInstanceAs (Decidable (_ ∧ _))

/-- The frame of a client that announces itself. -/
abbrev Clientonline (frame : Bytes) : Prop := Snacframe 0x0001 0x0002 frame

/-- The client connections whose announcement was sent on, each with its server connection. -/
def wentonline (obs : List Obs) : List (Nat × Nat) :=
  obs.filterMap fun
    | .answered k frame .forward (some e) => if Clientonline frame then some (k, e) else none
    | _ => none

theorem mem_wentonline {obs : List Obs} {k e : Nat} :
    (k, e) ∈ wentonline obs ↔ ∃ frame, .answered k frame .forward (some e) ∈ obs ∧ Clientonline frame := by
  unfold wentonline
  rw [List.mem_filterMap]
  constructor
  · rintro ⟨o, ho, hsome⟩
    split at hsome
    · split at hsome
      · rename_i hone
        cases hsome
        exact ⟨_, ho, hone⟩
      · cases hsome
    · cases hsome
  · rintro ⟨frame, ho, hone⟩
    exact ⟨_, ho, if_pos hone⟩

theorem wentonline_append {obs obs' : List Obs} : wentonline (obs ++ obs') = wentonline obs ++ wentonline obs' :=
  List.filterMap_append

theorem wentonline_sent {b : Bool} {frame : Bytes} {env : Env} :
    wentonline (sent w cid b frame env).trace = wentonline w.trace := by
  have hnil : wentonline [if b then .queued cid frame else .refused cid] = [] := by
    cases b <;> rfl
  exact wentonline_append.trans (by rw [hnil, List.append_nil])

theorem Quiet.wentonline (h : Quiet p w w') : wentonline w'.trace = wentonline w.trace := by
  cases h with
  | env _ _ | count _ _ _ | touch _ _ | request _ _ _ _ => rfl
  | send _ _ _ => exact wentonline_sent

/-- Nobody but a reader announces anything. -/
theorem Act.wentonline (h : Act p w w') (hown : p.own = none) : wentonline w'.trace = wentonline w.trace := by
  have hno : ∀ {k}, p.own ≠ some k := by
    intro k hk
    rw [hown] at hk
    cases hk
  cases h with
  | quiet h => exact h.wentonline
  | connect _ _ _ _ _ hquiet =>
      exact keep (I := fun v => Oscar.wentonline v.trace = Oscar.wentonline w.trace)
        (fun _ _ h heq => h.wentonline.trans heq) hquiet rfl
  | read hk | hand hk | answer hk _ | forward hk _ _ _ _ => exact absurd hk hno
  | accept _ | disconnect _ _ | cookieAdd _ | cookieDrop _ | name _ _ _ _ _ | online _ _ | usehit
  | timeout | bury _ | unlink _ _ _ | confchange => rfl

/-- The permissions of code that is no reader. -/
def aside (p : Perm) : Perm := { p with own := none }

theorem acts_wentonline (h : ReflTransGen (Act (aside p)) w w') : wentonline w'.trace = wentonline w.trace :=
  keep (I := fun v => wentonline v.trace = wentonline w.trace) (fun _ _ h heq => (h.wentonline rfl).trans heq) h rfl

/-! ## The handler -/

/-- What has been done when the frame of a client is sent on: the user of its server
connection has a node, which is a local one unless there was a node before. -/
structure Welcomed (w w' : World) (k e : Nat) : Prop where
  acts : ∀ p, ReflTransGen (Act p) w w'
  client : calls w k = some (true, some e)
  calls : calls w' = calls w
  user : user w' = user w
  node : ∃ s sn, Oscar.user w e = some (s, some sn) ∧ ∃ n ∈ w'.gnr, namecmp n.name sn = 0 ∧
    (n.metric = metricLocal ∨ w.gnr.findbyname sn (some oscarservice) = some n)

theorem snachandler_0001_0002_forward {snac : Snac} (hr : snachandler_0001_0002 cid snac w = .ok (.forward, w')) :
    ∃ e, Welcomed w w' cid e := by
  have hacts : ∀ p, ReflTransGen (Act p) w w' := fun p => snachandler_0001_0002_acts cid snac _ _ _ hr
  obtain ⟨c, w₁, hconn, hrest⟩ := bind_ok.1 hr
  obtain ⟨hc, rfl⟩ := Sys.conn_ok.1 hconn
  clear hr
  by_cases hclient : c.type.client = false
  · rw [if_pos hclient] at hrest
    cases pure_ok.1 hrest
  rw [if_neg hclient] at hrest
  obtain ⟨found, w₂, hfetch, hr⟩ := bind_ok.1 hrest
  obtain ⟨hfound, -⟩ := fetchScreenname_ok hfetch
  cases hfound
  cases hname : (c.endpoint.bind w₁.conn?).bind screennameOf with
  | none =>
      rw [hname] at hr
      cases pure_ok.1 hr
  | some sn =>
  rw [hname] at hr
  obtain ⟨_, w₂, hdetach, hr⟩ := bind_ok.1 hr
  have hquiet := detacholdconns_quiet (p := ⟨0, none, fun _ => True, fun _ => True, True⟩) sn _ _ _ hdetach
  have hcalls := keep (I := fun v => calls v = calls w₁) (fun _ _ h heq => h.calls.trans heq) hquiet rfl
  have huser := keep (I := fun v => user v = user w₁) (fun _ _ h heq => h.user.trans heq) hquiet rfl
  have hgnr := keep (I := fun v => v.gnr = w₁.gnr) (fun _ _ h heq => h.gnr.trans heq) hquiet rfl
  obtain ⟨node, w₃, honline, hr⟩ := bind_ok.1 hr
  simp only [Option.bind_eq_some_iff] at hname
  obtain ⟨d, ⟨e, hend, hd⟩, hsn⟩ := hname
  simp only [Gnr.nodeOnline, Sys.now, bind_ok, read_ok, Sys.mem_ok, update_ok, pure_ok,
    Prod.mk.injEq] at honline
  obtain ⟨_, w₂, ⟨rfl, rfl⟩, _, w₂, ⟨rfl, rfl⟩, ⟨gn, g⟩, _, ⟨_, h, honline, rfl, rfl⟩, _, _,
    ⟨-, rfl⟩, rfl, rfl⟩ := honline
  cases node with
  | none => cases pure_ok.1 hr
  | some node =>
      cases pure_ok.1 hr
      refine ⟨e, hacts, ?_, (calls_congr rfl).trans hcalls, (user_congr rfl).trans huser, d.type.server, sn, ?_, ?_⟩
      · rw [calls_of_conn hc, hend]
        simpa using hclient
      · rw [user_of_conn hd, hsn]
      · obtain ⟨n, hfind, -, hg⟩ | ⟨-, ⟨hnone, -⟩ | ⟨-, hg⟩⟩ := Gnr.online_ok honline
        · obtain ⟨hn, hnname, -⟩ := Gnr.findbyname_some hfind
          exact ⟨n, hg ▸ hn, hnname, .inr (hgnr ▸ hfind)⟩
        · cases hnone
        · exact ⟨_, hg ▸ Gnr.mem_enter.2 (.inl rfl), Gnr.namecmp_self sn, .inl rfl⟩

/-- The head of a frame that announces a client. -/
theorem clientonline_bytes {buf : Block} {buflen : Nat} (hone : Clientonline (buf.bytes 0 buflen)) :
    buf.byte 1 = 0x02 ∧ 10 ≤ buflen ∧
      buf.byte 6 = 0 ∧ buf.byte 7 = 1 ∧ buf.byte 8 = 0 ∧ buf.byte 9 = 2 := by
  obtain ⟨hchan, hhead⟩ := hone
  have hlen := congrArg List.length hhead
  simp only [List.length_take, List.length_drop, Block.length_bytes, flaphdrlen, List.length_append,
    Naf.length_bytePut16] at hlen
  have hle : 10 ≤ buflen := by omega
  obtain ⟨n, rfl⟩ := Nat.exists_eq_add_of_le hle
  rw [Nat.add_comm, Block.bytes_succ] at hchan
  have hbytes : buf.bytes 0 (10 + n) = buf.byte 0 :: buf.byte 1 :: buf.byte 2 :: buf.byte 3 :: buf.byte 4 ::
      buf.byte 5 :: buf.byte 6 :: buf.byte 7 :: buf.byte 8 :: buf.byte 9 :: buf.bytes 10 n := by
    rw [Nat.add_comm]
    simp only [Block.bytes_succ, Nat.zero_add]
  rw [hbytes] at hhead
  simp [flaphdrlen, bytePut16] at hhead
  simp [Block.bytes_succ] at hchan
  exact ⟨hchan, hle, hhead⟩

/-- The handler that an announcement reaches. -/
theorem dispatch_online {buf : Block} {buflen : Nat} (hone : Clientonline (buf.bytes 0 buflen))
    (hr : dispatch cid buf buflen w = .ok (.forward, w')) : ∃ e, Welcomed w w' cid e := by
  obtain ⟨hchan, -, h₆, h₇, h₈, h₉⟩ := clientonline_bytes hone
  simp only [dispatch, hchan, show ¬((0x02 : UInt8) = 0x01) by decide, if_false, if_true] at hr
  unfold handlesnac at hr
  split at hr
  · cases pure_ok.1 hr
  obtain ⟨snac, w₁, hmem, hr⟩ := bind_ok.1 hr
  obtain ⟨_, h, hparse, heq⟩ := Sys.mem_ok.1 hmem
  cases heq
  have hsnac := congrArg Prod.fst (parsesnac_ok hparse)
  obtain rfl : h = w.env.heap := congrArg Prod.snd (parsesnac_ok hparse)
  have hgroup : snac.group = 0x0001 := by
    rw [show snac = _ from hsnac]
    simp [snacOf, Block.suffix, flaphdrlen, h₆, h₇, Naf.byteGet16]
  have hsubtype : snac.subtype = 0x0002 := by
    rw [show snac = _ from hsnac]
    simp [snacOf, Block.suffix, flaphdrlen, h₈, h₉, Naf.byteGet16]
  rw [hgroup, hsubtype] at hr
  exact snachandler_0001_0002_forward hr

/-! ## Steps -/

/-- Nothing is seen of it. -/
def Unseen (w w' : World) : Prop := w'.trace = w.trace

theorem trace_of_unseen (h : ReflTransGen Unseen w w') : w'.trace = w.trace :=
  keep (I := fun v : World => v.trace = w.trace) (fun _ _ h heq => Eq.trans h heq) h rfl

theorem reqread_unseen {buf : Option Block} {buflen offset : Nat} :
    Does Unseen (Naf.Conn.reqread cid buf buflen offset) := by
  cases buf with
  | none => exact .pure _
  | some buf =>
      refine .ite (fun _ => .pure _) fun _ => .bind (conn_does cid) fun c => .bind ?_ fun refused => ?_
      · intro w r w' hr
        cases hr
        exact .single rfl
      refine .ite (fun _ => .pure _) fun _ => .bind ?_ fun _ => .pure _
      intro w r w' hr
      obtain ⟨-, hr⟩ := Sys.modify_ok.1 hr
      cases hr
      exact .single rfl

theorem reqflap_unseen {oldbuf : Option Block} : Does Unseen (reqflap cid oldbuf) := by
  cases oldbuf with
  | none => exact .bind (.focus fun _ _ => rfl) fun buf => reqread_unseen
  | some oldbuf => exact .bind reqread_unseen fun b => .ite (fun _ => .pure _) fun _ => .fault _

/-- An announcement is seen when the answer of its handler is dealt with. -/
theorem conclude_wentonline {buf : Block} {buflen : Nat} {hret : Hret} {b : Bool} (hhdr : 6 ≤ buflen)
    (hlt : buflen < 65536) (hr : conclude cid buf buflen hret w = .ok (b, w')) :
    wentonline w'.trace = wentonline w.trace ∨
      hret = .forward ∧ Clientonline (buf.bytes 0 buflen) ∧
        ∃ c e, w.conn? cid = some c ∧ c.endpoint = some e ∧
          wentonline w'.trace = wentonline w.trace ++ [(cid, e)] := by
  obtain ⟨c, hc, hconcluded⟩ := conclude_cases hhdr hlt hr
  have hanswer : wentonline (w.observe (.answered cid (buf.bytes 0 buflen) hret c.endpoint)).trace =
      wentonline w.trace ++ wentonline [.answered cid (buf.bytes 0 buflen) hret c.endpoint] := wentonline_append
  -- an announcement that is sent on is seen, whether or not it is queued
  have hforward {e : Nat} {accepted : Bool} {frame : Bytes} {env : Env} (hforwarded : hret = .forward)
      (hend : c.endpoint = some e) (hseen : w'.trace = (sent (w.observe (.answered cid (buf.bytes 0 buflen) hret
        c.endpoint)) e accepted frame env).trace) : wentonline w'.trace = wentonline w.trace ∨
      hret = .forward ∧ Clientonline (buf.bytes 0 buflen) ∧
        ∃ c e, w.conn? cid = some c ∧ c.endpoint = some e ∧
          wentonline w'.trace = wentonline w.trace ++ [(cid, e)] := by
    rw [hseen, wentonline_sent, hanswer, hforwarded, hend]
    by_cases hone : Clientonline (buf.bytes 0 buflen)
    · refine .inr ⟨rfl, hone, c, e, hc, hend, ?_⟩
      simp [wentonline, hone]
    · left
      simp [wentonline, hone]
  cases hconcluded with
  | error => exact .inl (hanswer.trans (List.append_nil _))
  | reused hreused hflap =>
      have hnil : wentonline [.answered cid (buf.bytes 0 buflen) hret c.endpoint] = [] := by
        obtain rfl | ⟨rfl, hend⟩ := hreused
        · rfl
        · rw [hend]
          rfl
      exact .inl (by rw [trace_of_unseen (reqflap_unseen _ _ _ hflap), hanswer, hnil, List.append_nil])
  | unsent hend => exact hforward rfl hend rfl
  | sent hend _ _ hflap => exact hforward rfl hend (trace_of_unseen (reqflap_unseen _ _ _ hflap))

/-- The reader announces what its buffer holds, when that is an announcement. -/
theorem handleread_wentonline {c : Conn} {rx : Rx} {b : Bool} (wf : w.Wf) (hc : w.conn? cid = some c)
    (hrx : c.rx = some rx) (hr : handleread cid w = .ok (b, w')) :
    wentonline w'.trace = wentonline w.trace ∨
      hdrok rx.buf = true ∧ rx.len = flaphdrLen rx.buf + flaphdrlen ∧ Clientonline (rx.buf.bytes 0 rx.len) ∧
        ∃ w₁ c e, dispatch cid rx.buf rx.len
            ((w.modify cid (.setRx none)).observe (.handed cid (rx.buf.bytes 0 rx.len))) = .ok (.forward, w₁) ∧
          w₁.conn? cid = some c ∧ c.endpoint = some e ∧
          conclude cid rx.buf rx.len .forward w₁ = .ok (b, w') ∧
          wentonline w'.trace = wentonline w.trace ++ [(cid, e)] := by
  obtain ⟨taken, w₁, htake, hr⟩ := bind_ok.1 hr
  obtain ⟨c', hc', ⟨hnone, -, -⟩ | ⟨rx', hrx', rfl, rfl⟩⟩ := takeread_ok htake
  · rw [hc, Option.some.injEq] at hc'
    rw [← hc', hrx] at hnone
    cases hnone
  obtain rfl : rx = rx' := by
    rw [hc, Option.some.injEq] at hc'
    rw [← hc', hrx] at hrx'
    exact Option.some.inj hrx'
  obtain ⟨_, w₂, hload, hr⟩ := bind_ok.1 hr
  obtain ⟨-, hload⟩ := Sys.mem_load_ok.1 hload
  cases hload
  by_cases hhdr : hdrok rx.buf = false
  · rw [if_pos hhdr] at hr
    cases pure_ok.1 hr
    exact .inl rfl
  rw [if_neg hhdr] at hr
  by_cases hlen : rx.len = flaphdrLen rx.buf + flaphdrlen
  · rw [if_neg (not_not.2 hlen)] at hr
    obtain ⟨_, w₁, hobs, hr⟩ := bind_ok.1 hr
    cases update_ok.1 hobs
    obtain ⟨hret, w₁, hdispatch, hr⟩ := bind_ok.1 hr
    have wf₁ : ((w.modify cid (.setRx none)).observe (.handed cid (rx.buf.bytes 0 rx.len))).Wf :=
      (wf.modify (Conn.setRx_cid _)).congr rfl (Nat.le_refl _)
    have hacts := dispatch_acts (p := aside ⟨w.nextcid, none, fun _ => True, fun _ => True, True⟩) wf₁
      (Nat.le_refl _) (fun _ _ => trivial) (fun _ _ _ => trivial) (fun _ _ => trivial) _ _ hdispatch
    -- the handlers before the frame is passed on put nobody online
    have hsame : wentonline w₁.trace = wentonline w.trace :=
      (acts_wentonline hacts).trans (wentonline_append.trans (List.append_nil _))
    have hhdr' : hdrok rx.buf = true := by simpa using hhdr
    have hmax : flaphdrLen rx.buf ≤ maxsnaclen := by
      simp only [hdrok, Bool.and_eq_true, decide_eq_true_eq] at hhdr'
      exact hhdr'.2
    simp only [maxsnaclen] at hmax
    have hsix : flaphdrlen = 6 := rfl
    obtain hno | ⟨rfl, hone, d, e, hd, hend, htrace⟩ := conclude_wentonline (by omega) (by omega) hr
    · exact .inl (hno.trans hsame)
    · exact .inr ⟨hhdr', hlen, hone, w₁, d, e, hdispatch, hd, hend, hr, by rw [htrace, hsame]⟩
  · rw [if_pos hlen] at hr
    rw [trace_of_unseen (reqread_unseen _ _ _ hr)]
    exact .inl rfl

/-- The frame of the step is an announcement, which was sent on from `w₁`, the world in
which its handler answered. -/
structure Announces (w : World) (i : Input) (w₁ w' : World) (k e : Nat) : Prop where
  frame : ∃ buf buflen, completes w i.event = some (k, buf, buflen) ∧ Clientonline (buf.bytes 0 buflen)
  before : ReflTransGen (Act (permOf w i)) { w with env := i.env } w₁
  after : ReflTransGen (Act (permOf w i)) w₁ w'
  client : calls w k = some (true, some e)
  calls : calls w₁ = calls w
  user : user w₁ = user w
  node : ∃ s sn, Oscar.user w e = some (s, some sn) ∧ ∃ n ∈ w₁.gnr, namecmp n.name sn = 0 ∧
    (n.metric = metricLocal ∨ w.gnr.findbyname sn (some oscarservice) = some n)
  trace : wentonline w'.trace = wentonline w.trace ++ [(k, e)]

/-- When the reader is done, its connection may be closed. -/
theorem orfree_wentonline {b : Bool} {u : Unit} (wf : w.Wf)
    (hr : (if b then pure () else Naf.Conn.free ops cid : Sys Unit) w = .ok (u, w')) :
    (∀ p, ReflTransGen (Act p) w w') ∧ wentonline w'.trace = wentonline w.trace := by
  cases b with
  | true =>
      cases pure_ok.1 hr
      exact ⟨fun p => .refl, rfl⟩
  | false => exact ⟨fun p => free_acts cid wf _ _ hr,
      acts_wentonline (p := ⟨0, none, fun _ => True, fun _ => True, True⟩) (free_acts cid wf _ _ hr)⟩

theorem completeread_wentonline {i : Input} {bytes : Bytes} {u : Unit} (hevent : i.event = .readable cid bytes)
    (wf : w.Wf) (hr : completeread cid bytes { w with env := i.env } = .ok (u, w')) :
    wentonline w'.trace = wentonline w.trace ∨ ∃ e w₁, Announces w i w₁ w' cid e := by
  have hown : (permOf w i).own = some cid := by simp [permOf, hevent]
  have wf₀ : ({ w with env := i.env } : World).Wf := wf.congr rfl (Nat.le_refl _)
  obtain ⟨-, rfl⟩ | ⟨c, rx, hc, hrx, -, -, ⟨-, hfree⟩ | ⟨hreceived, hread⟩⟩ := completeread_ok hr
  · exact .inl rfl
  · have wf₁ : (stored { w with env := i.env } cid rx bytes).Wf := wf₀.modify (Conn.setRx_cid _)
    exact .inl (orfree_wentonline (b := false) wf₁ hfree).2
  have wf₁ : (stored { w with env := i.env } cid rx bytes).Wf := wf₀.modify (Conn.setRx_cid _)
  obtain ⟨b, w₂, hhandle, hrest⟩ := bind_ok.1 hread
  have wf₂ : w₂.Wf := by
    have hacts := handleread_acts (p := ⟨w.nextcid, some cid, fun _ => True, fun _ => True, True⟩) wf₁
      (Nat.le_refl _) rfl (fun _ _ => trivial) (fun _ _ _ _ _ _ _ _ _ => trivial)
      (fun _ _ _ _ _ _ _ _ => trivial) _ _ hhandle
    exact keep (fun _ _ h => h.wf) hacts wf₁
  obtain ⟨hlast, htrace⟩ := orfree_wentonline wf₂ hrest
  obtain hno | ⟨hhdr, hlen, hone, w₁, d, e, hdispatch, hd, hend, hconclude, hnew⟩ :=
    handleread_wentonline wf₁ (conn?_stored hc) rfl hhandle
  · exact .inl (htrace.trans hno)
  right
  obtain ⟨e', hw⟩ := dispatch_online hone hdispatch
  have hcalls₀ : calls (((stored { w with env := i.env } cid rx bytes).modify cid (.setRx none)).observe
      (.handed cid ((rx.buf.fill rx.offset bytes).bytes 0 rx.len))) = calls w := by
    exact Eq.trans (calls_congr rfl) (calls_setRx.trans (calls_setRx.trans (calls_congr rfl)))
  have huser₀ : user (((stored { w with env := i.env } cid rx bytes).modify cid (.setRx none)).observe
      (.handed cid ((rx.buf.fill rx.offset bytes).bytes 0 rx.len))) = user w :=
    Eq.trans (user_congr rfl) (user_setRx.trans (user_setRx.trans (user_congr rfl)))
  obtain rfl : e = e' := by
    have hcall := calls_of_conn hd
    rw [hw.calls, hw.client, hend] at hcall
    simp only [Option.some.injEq, Prod.mk.injEq] at hcall
    exact hcall.2.symm
  refine ⟨e, w₁, ⟨_, _, ?_, hone⟩, ?_, ?_, ?_, hw.calls.trans hcalls₀, hw.user.trans huser₀, ?_,
    htrace.trans hnew⟩
  · have hreceived : received w (.readable cid bytes) = _ := hreceived
    simp only [completes, hevent, hreceived]
    exact Option.filter_some_pos (by simpa using ⟨hhdr, hlen⟩)
  · exact .head (.read hown) (.head (.read hown) (.head (.hand hown) (hw.acts _)))
  · exact (conclude_acts hown hhdr hlen _ _ _ hconclude).trans (hlast _)
  · rw [← hcalls₀]
    exact hw.client
  · obtain ⟨s, sn, huser, hnode⟩ := hw.node
    exact ⟨s, sn, by rw [← huser₀, huser], hnode⟩

/-- Announcements are made by the readers of clients, and by nobody else. -/
theorem step_wentonline {i : Input} (wf : w.Wf) (hstep : step i w = .ok w') :
    wentonline w'.trace = wentonline w.trace ∨ ∃ k e w₁, Announces w i w₁ w' k e := by
  by_cases hevent : ∃ cid bytes, i.event = .readable cid bytes
  · obtain ⟨cid, bytes, hevent⟩ := hevent
    simp only [step, hevent, handle] at hstep
    split at hstep
    · rename_i u w₁ hrun
      cases hstep
      obtain hsame | ⟨e, w₁, h⟩ := completeread_wentonline hevent wf hrun
      · exact .inl hsame
      · exact .inr ⟨cid, e, w₁, h⟩
    · cases hstep
  · have hown : (permOf w i).own = none := by
      simp only [permOf]
      split
      · rename_i cid bytes heq
        exact absurd ⟨cid, bytes, heq⟩ hevent
      · rfl
    exact .inl (keep (I := fun v => wentonline v.trace = wentonline w.trace)
      (fun _ _ h heq => (h.wentonline hown).trans heq) (step_acts wf hstep) rfl)

/-! ## Runs -/

/-- What holds between steps: whoever has gone online sits, as long as both connections are open. -/
structure Present (seats : List (Nat × Nat)) (w : World) : Prop extends Attended w where
  known : Known w
  held : (calls w).Held
  labelled : AllLabelled w
  past : ∀ s ∈ seats, s.1 < w.nextcid ∧ s.2 < w.nextcid
  sits : ∀ s ∈ seats, w.conn? s.1 ≠ none → w.conn? s.2 ≠ none → Sits w s.1 s.2

/-- A connection that is open after an act was open before, or is new. -/
theorem Act.open_of_open (h : Act p w w') (wf : w.Wf) {k : Nat} (hk : k < w.nextcid) (hopen : w'.conn? k ≠ none) :
    w.conn? k ≠ none := fun hnone => hopen (h.gone ⟨wf, hk, hnone⟩).none

theorem Present.act {w₀ : World} {i : Input} {seats : List (Nat × Nat)} (hp : Present seats w)
    (ha : Attending w₀ i.env.overrun w) (wf : w.Wf) (hagree : Agree i.env.overrun w₀)
    (hact : Act (permOf w₀ i) w w') : Present seats w' where
  toAttended := (ha.act wf hagree hact).toAttended
  known := hact.known wf hp.known
  held := by
    obtain heq | hredial := hact.redial wf hp.known
    · rw [heq]
      exact hp.held
    · exact hredial.held hp.held
  labelled := hact.allLabelled wf hp.labelled
  past := fun s hs =>
    ⟨Nat.lt_of_lt_of_le (hp.past s hs).1 hact.nextcid_le, Nat.lt_of_lt_of_le (hp.past s hs).2 hact.nextcid_le⟩
  sits := fun s hs hk' he' => by
    have hk := hact.open_of_open wf (hp.past s hs).1 hk'
    have he := hact.open_of_open wf (hp.past s hs).2 he'
    exact (hp.sits s hs hk he).act ha wf hp.known hp.labelled hagree hact hk he'

/-- The state of a step: the invariant with what was fixed when the step began. -/
structure Underway (w₀ : World) (i : Input) (seats : List (Nat × Nat)) (w : World) : Prop where
  wf : w.Wf
  attending : Attending w₀ i.env.overrun w
  present : Present seats w

theorem Underway.acts {w₀ : World} {i : Input} {seats : List (Nat × Nat)} (hu : Underway w₀ i seats w)
    (hagree : Agree i.env.overrun w₀) (hacts : ReflTransGen (Act (permOf w₀ i)) w w') : Underway w₀ i seats w' :=
  keep (fun _ _ hact hu => ⟨hact.wf hu.wf, hu.attending.act hu.wf hagree hact,
    hu.present.act hu.attending hu.wf hagree hact⟩) hacts hu

theorem Present.underway {i : Input} {seats : List (Nat × Nat)} (hp : Present seats w) (wf : w.Wf) :
    Underway w i seats { w with env := i.env } where
  wf := wf.congr rfl (Nat.le_refl _)
  attending := ⟨⟨hp.table, hp.server, hp.attended⟩, fun _ _ _ hk => mem_names hk, rfl⟩
  present := ⟨⟨hp.table, hp.server, hp.attended⟩, hp.known, hp.held, hp.labelled, hp.past,
    fun s hs hk he => ⟨(hp.sits s hs hk he).line, (hp.sits s hs hk he).node⟩⟩

/-- A client announces itself only where its user's node, if there is one, is local. -/
def Vacant (w : World) (i : Input) : Prop :=
  ∀ f ∈ completes w i.event, Clientonline (f.2.1.bytes 0 f.2.2) →
    ∀ sn ∈ (((w.conn? f.1).bind (·.endpoint)).bind w.conn?).bind screennameOf,
      ∀ n ∈ w.gnr.findbyname sn (some oscarservice), n.metric = metricLocal

instance {i : Input} : Decidable (Vacant w i) :=
  inferInstanceAs (Decidable (∀ f ∈ completes w i.event, _ → ∀ sn ∈ _, ∀ n ∈ _, _))

/-- The client that announces itself sits. -/
theorem Announces.sits {i : Input} {w₁ : World} {k e : Nat} (h : Announces w i w₁ w' k e)
    (hvacant : Vacant w i) (hheld : (Oscar.calls w).Held)
    (hserver : ∀ k s sn, Oscar.user w k = some (s, some sn) → s = true) :
    Sits w₁ k e := by
  obtain ⟨s, sn, huser, n, hn, hname, hnode⟩ := h.node
  obtain ⟨d, hd, hside, hsn⟩ := user_eq_some.1 huser
  obtain rfl := hserver e s sn huser
  refine ⟨?_, sn, by rw [h.user, huser], n, hn, hname, ?_⟩
  · obtain ⟨hclient, hend⟩ := hheld k e _ _ h.client (calls_of_conn hd)
    rw [h.calls, calls_of_conn hd, hclient, hend]
  · obtain hlocal | hfind := hnode
    · exact hlocal
    · obtain ⟨buf, buflen, hcompletes, hone⟩ := h.frame
      obtain ⟨c, hc, -, hend⟩ := calls_eq_some.1 h.client
      exact hvacant _ hcompletes hone sn (by simp [hc, hend, hd, hsn]) n hfind

theorem Present.step {i : Input} (hp : Present (wentonline w.trace) w) (wf : w.Wf)
    (hagree : Agree i.env.overrun w) (hvacant : Vacant w i) (hstep : step i w = .ok w') :
    Present (wentonline w'.trace) w' := by
  have hu := hp.underway (i := i) wf
  obtain hsame | ⟨k, e, w₁, hannounces⟩ := step_wentonline wf hstep
  · rw [hsame]
    exact (hu.acts hagree (step_acts wf hstep)).present
  · have hu₁ := hu.acts hagree hannounces.before
    have hsits := hannounces.sits hvacant hp.held hp.server
    obtain ⟨c, hc, -, hend⟩ := calls_eq_some.1 (hannounces.calls ▸ hannounces.client : calls w₁ k = _)
    have hke : k < w₁.nextcid ∧ e < w₁.nextcid :=
      ⟨hu₁.wf.lt_nextcid hc, hu₁.present.known k e (by rw [ends_of_conn hc, hend])⟩
    have hmem : ∀ s ∈ wentonline w.trace ++ [(k, e)], s ∈ wentonline w.trace ∨ s = (k, e) := by simp
    have hu₂ : Underway w i (wentonline w.trace ++ [(k, e)]) w₁ := by
      refine ⟨hu₁.wf, hu₁.attending, hu₁.present.toAttended, hu₁.present.known, hu₁.present.held,
        hu₁.present.labelled, fun s hs => ?_, fun s hs => ?_⟩
      · obtain hold | rfl := hmem s hs
        · exact hu₁.present.past s hold
        · exact hke
      · obtain hold | rfl := hmem s hs
        · exact hu₁.present.sits s hold
        · exact fun _ _ => hsits
    rw [hannounces.trace]
    exact (hu₂.acts hagree hannounces.after).present

/-- As long as clients only announce themselves where their user's node is local or not there,
and the two comparisons of names agree, whoever has announced itself has a local node while
its connection and its server's are open. -/
theorem online_stays_local {h : List (World × Input)} (hrun : Run step Initial h w)
    (hagree : ∀ s ∈ h, Agree s.2.env.overrun s.1) (hvacant : ∀ s ∈ h, Vacant s.1 s.2) :
    ∀ k e frame, .answered k frame .forward (some e) ∈ w.trace → Clientonline frame →
      ∀ c d, w.conn? k = some c → w.conn? e = some d →
        ∃ sn n, screennameOf d = some sn ∧ w.gnr.findbyname sn (some oscarservice) = some n ∧
          n.metric = metricLocal := by
  have hpresent : Present (wentonline w.trace) w := by
    refine hrun.invariant_history (I := fun _ w => Present (wentonline w.trace) w)
      (G := fun w i => Agree i.env.overrun w ∧ Vacant w i) (fun s hs => ⟨hagree s hs, hvacant s hs⟩)
      (fun w hinit => ?_) fun h i w w' hrun hp hG hstep => hp.step (run_wf hrun) hG.1 hG.2 hstep
    obtain ⟨hconns, -, -, hgnr, -, htrace⟩ := hinit
    have hnone : ∀ k, w.conn? k = none := by
      intro k
      simp [World.conn?, hconns]
    have hnil : wentonline w.trace = [] := by simp [htrace, wentonline]
    rw [hnil]
    refine ⟨⟨⟨hgnr ▸ Gnr.hashInit_ok, fun n hn => ?_⟩, fun k s sn hk => ?_, fun n hn _ => ?_⟩,
      fun a e ha => ?_, fun k e b x hk => ?_, fun k c hc => ?_, by simp, by simp⟩
    · exact absurd (hgnr ▸ hn) (Gnr.mem_hashInit n)
    · simp [user, hnone] at hk
    · exact absurd (hgnr ▸ hn) (Gnr.mem_hashInit n)
    · simp [ends, hnone] at ha
    · simp [calls, hnone] at hk
    · rw [hnone] at hc
      cases hc
  intro k e frame hobs hone c d hc hd
  have hsits := hpresent.sits (k, e) (mem_wentonline.2 ⟨frame, hobs, hone⟩) (by simp [hc]) (by simp [hd])
  obtain ⟨sn, huser, n, hn, hname, hlocal⟩ := hsits.node
  rw [user_of_conn hd, Option.some.injEq, Prod.mk.injEq] at huser
  exact ⟨sn, n, huser.2, hpresent.table.find hn hname, hlocal⟩

/-- A user goes online. -/
theorem online_stays_local_online :
    ∃ h w, Run step Initial h w ∧ h.map (·.2) = onlineframes (lit "alice") [1, 2, 3, 4] ∧
      (∃ k e frame, .answered k frame .forward (some e) ∈ w.trace ∧ Clientonline frame ∧
        (w.conn? k).isSome ∧ (w.conn? e).isSome) ∧
      ∀ k e frame, .answered k frame .forward (some e) ∈ w.trace → Clientonline frame →
        ∀ c d, w.conn? k = some c → w.conn? e = some d →
          ∃ sn n, screennameOf d = some sn ∧ w.gnr.findbyname sn (some oscarservice) = some n ∧
            n.metric = metricLocal := by
  have hreach : (replayInputs step (onlineframes (lit "alice") [1, 2, 3, 4]) started).toOption.any
      (fun r => r.1.all (fun s => Agree s.2.env.overrun s.1 ∧ Vacant s.1 s.2) &&
        decide ((2, 3) ∈ wentonline r.2.trace) && (r.2.conn? 2).isSome && (r.2.conn? 3).isSome) = true := by
    decide +kernel
  obtain ⟨h, w, hrun, hinputs, hw⟩ := Run.exists_of_replay started_initial hreach
  simp only [Bool.and_eq_true, List.all_eq_true, decide_eq_true_eq] at hw
  obtain ⟨⟨⟨hgood, hmem⟩, hk⟩, he⟩ := hw
  obtain ⟨frame, hobs, hone⟩ := mem_wentonline.1 hmem
  exact ⟨h, w, hrun, hinputs, ⟨2, 3, frame, hobs, hone, hk, he⟩,
    online_stays_local hrun (fun s hs => (hgood s hs).1) fun s hs => (hgood s hs).2⟩

/-- A message of one section of text. -/
def imbody (destsn text : Bytes) : Bytes :=
  [1, 2, 3, 4, 5, 6, 7, 8] ++ bytePut16 0x0001 ++ bytePut8 destsn.length ++ destsn ++
    tlvbytes 0x0002 ([5, 1, 0, 0, 1, 1] ++ bytePut16 (text.length + 4) ++ [0, 0, 0, 0] ++ text)

/-- A client logs in, sends its own user a message, and goes online then. -/
def selfmessage : List Input :=
  loginframes (lit "alice") [1, 2, 3, 4] ++ [⟨.closed 0, granting⟩, ⟨.accept, granting⟩] ++
    receiveframe 2 (cookieframe [1, 2, 3, 4]) ++
    receiveframe 2 (snacframe 0x0004 0x0006 (imbody (lit "alice") (lit "hi"))) ++
    receiveframe 2 (snacframe 0x0001 0x0002 [])

/-- The node that the message made is external, and stays so. -/
theorem selfmessage_external :
    ∃ h w, Run step Initial h w ∧ h.map (·.2) = selfmessage ∧
      (∀ s ∈ h, Agree s.2.env.overrun s.1) ∧
      ∃ k e frame c d sn n, .answered k frame .forward (some e) ∈ w.trace ∧ Clientonline frame ∧
        w.conn? k = some c ∧ w.conn? e = some d ∧ screennameOf d = some sn ∧
        w.gnr.findbyname sn (some oscarservice) = some n ∧ n.metric ≠ metricLocal := by
  have hreach : (replayInputs step selfmessage started).toOption.any
      (fun r => r.1.all (fun s => Agree s.2.env.overrun s.1) && decide ((2, 3) ∈ wentonline r.2.trace) &&
        (r.2.conn? 2).isSome && (r.2.conn? 3).any fun d => (screennameOf d).any fun sn =>
          (r.2.gnr.findbyname sn (some oscarservice)).any fun n => n.metric ≠ metricLocal) = true := by
    decide +kernel
  obtain ⟨h, w, hrun, hinputs, hw⟩ := Run.exists_of_replay started_initial hreach
  simp only [Bool.and_eq_true, List.all_eq_true, decide_eq_true_eq, Option.any_eq_true,
    Option.isSome_iff_exists] at hw
  obtain ⟨⟨⟨hagree, hmem⟩, c, hc⟩, d, hd, sn, hsn, n, hn, hmetric⟩ := hw
  obtain ⟨frame, hobs, hone⟩ := mem_wentonline.1 hmem
  exact ⟨h, w, hrun, hinputs, hagree, 2, 3, frame, c, d, sn, n, hobs, hone, hc, hd, hsn, hn, hmetric⟩

end Timps.Oscar
