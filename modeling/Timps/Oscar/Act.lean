-- SUMMARY: The acts a run is made of: one relation that says what each piece of code can do to the world.
import Timps.Oscar.Frames
import Timps.Oscar.Module

/-!
# Acts

Whatever the module does is a sequence of acts. `Act p w w'` lists them with all that is
known when they happen; `p` says what the code at hand may do beyond the ordinary (whose
reader runs, which cookies may be cached). Every property of a run that is about more
than one function is derived from what single acts do.

`Quiet` acts leave the pairing of connections, the tags with screen names, the node
table and the cookie cache alone.
-/

namespace Timps.Oscar

open Naf (Block Mem Nafmodule Sbuf Tag Tlv lit bytePut8 bytePut16 bytePut32)
open Naf.Sbuf (Head Holds)
open Naf.Conn (tagAdd tagRemove tagFetch schedulekill reqread takeread takewrite getlocaladdrstr)
open Gnr (flagNone metricLocal metricMax)
open Prog (Does DoesFrom Gives bind_ok pure_ok read_ok update_ok)
open Relation (ReflTransGen)
open Sys (mem conn deref modify)

/-- The tag that names the user of a server connection. -/
def screennameTag (sn : CStr) : Tag TagData :=
  { owner := module, name := lit "conn.screenname", type := 'S', data := .string sn }

/-- A change of a connection that no property of the proxy looks at. -/
structure Touch (c : Conn) (f : Conn → Conn) : Prop where
  cid : ∀ d, (f d).cid = d.cid
  client : (f c).type.client = c.type.client
  server : (f c).type.server = c.type.server
  endpoint : (f c).endpoint = c.endpoint
  screenname : screennameOf (f c) = screennameOf c
  tags : ∀ tag ∈ (f c).taglist, tag ∈ c.taglist ∨ tag.name ≠ lit "conn.screenname"
  nextseqnum : (f c).nextseqnum = c.nextseqnum
  rx : (f c).rx = c.rx

/-- What the code at hand may do beyond the ordinary. -/
structure Perm where
  /-- connections from this number on are new -/
  start : Nat
  /-- the connection whose reader runs -/
  own : Option Nat
  /-- the entries that may go into the cookie cache -/
  cookie : Ckcache → Prop
  /-- the names that a new server connection may get -/
  name : CStr → Prop
  /-- a client that has an endpoint may be connected once more -/
  reconnect : Prop

/-- A request for a header, into a whole buffer. -/
structure Wanted (rx : Rx) : Prop where
  size : rx.buf.size = maxflaplen
  len : rx.len = flaphdrlen
  offset : rx.offset = 0

inductive Quiet (p : Perm) : World → World → Prop
  | env {w : World} (env : Env) : Same w.env env → Quiet p w { w with env }
  | count {w : World} (nextcid : Nat) (openconns : Int) : w.nextcid ≤ nextcid →
      Quiet p w { w with nextcid, openconns }
  | touch {w : World} {cid : Nat} {c : Conn} {f : Conn → Conn} :
      w.conn? cid = some c → Touch c f → Quiet p w (w.modify cid f)
  | send {w : World} {cid : Nat} {c : Conn} {b : Bool} {frame : Bytes} {env : Env} :
      w.conn? cid = some c → Same w.env env → Framed c.nextseqnum frame →
      Quiet p w (sent w cid b frame env)
  | request {w : World} {cid : Nat} {c : Conn} {rx : Rx} :
      w.conn? cid = some c → p.start ≤ cid → c.rx = none → Wanted rx →
      Quiet p w (w.modify cid (.setRx (some rx)))

/-- A connection that was just made. -/
structure New (w : World) (c : Conn) : Prop where
  cid : c.cid = w.nextcid
  endpoint : c.endpoint = none
  taglist : c.taglist = []
  nextseqnum : c.nextseqnum = 0
  rx : c.rx = none

/-- The node table after the destructor of one tag of the connection `dead`. -/
def freedTag (w : World) (dead : Nat) (g : Gnr) (tag : Tag TagData) : Gnr :=
  if tag.owner = module ∧ tag.name = lit "conn.screenname" then
    match tag.data with
    | .string sn =>
        match g.findbyname sn (some oscarservice) with
        | some node =>
            if w.conns.any (userhasotherclientMatcher w.env.overrun sn dead) then g
            else (g.offline node .disconnected).2
        | none => g
    | _ => g
  else g

/-- The node table after the destructors of all its tags. -/
def freed (w : World) (dead : Conn) : Gnr := dead.taglist.foldl (freedTag w dead.cid) w.gnr

/-- The received frame and the one sent on agree but for the sequence number. -/
def Rewritten (f g : Bytes) : Prop :=
  f.length = g.length ∧ ∀ i, i ≠ 2 → i ≠ 3 → f[i]? = g[i]?

inductive Act (p : Perm) : World → World → Prop
  | quiet {w w' : World} : Quiet p w w' → Act p w w'
  | accept {w : World} {pos : Nat} {c : Conn} : New w c → Act p w (w.insert pos c)
  /-- a new connection is made, and the two are looped together -/
  | connect {w w' : World} {l pos : Nat} {c n : Conn} (owner : Option Nafmodule) :
      w.conn? l = some c → (c.endpoint.isSome → c.type.client = true ∧ p.reconnect) → New w n →
      n.type.server = true ∧ n.type.client = !c.type.client →
      ReflTransGen (Quiet p)
        ((w.insert pos n).modify l (.setEndpoint (some n.cid))) w' →
      Act p w ((w'.modify n.cid (.setOwner owner)).modify n.cid (.setEndpoint (some l)))
  /-- no new connection could be made -/
  | disconnect {w : World} {l : Nat} {c : Conn} :
      w.conn? l = some c → (c.endpoint.isSome → c.type.client = true ∧ p.reconnect) →
      Act p w (w.modify l (.setEndpoint none))
  | cookieAdd {w : World} {ckc : Ckcache} : p.cookie ckc →
      Act p w { w with ckcache := ckc :: w.ckcache }
  | cookieDrop {w : World} {ckcache : List Ckcache} : ckcache.Sublist w.ckcache →
      Act p w { w with ckcache }
  | name {w : World} {e : Nat} {c : Conn} {sn : CStr} :
      w.conn? e = some c → p.start ≤ e → c.type.server = true → screennameOf c = none → p.name sn →
      Act p w (w.modify e (.setTaglist (screennameTag sn :: c.taglist)))
  /-- a node is made: local for the user of a connection, else external -/
  | online {w : World} {sn : CStr} {metric : Int} :
      w.gnr.findbyname sn (some oscarservice) = none →
      (metric = metricLocal ∧ (∃ e c, w.conn? e = some c ∧ screennameOf c = some sn) ∨
        metric = metricMax) →
      Act p w { w with
        gnr := w.gnr.enter (w.gnr.newnode w.env.now module sn oscarservice flagNone metric) }
  | usehit {w : World} {gn : Gnr.Node} : Act p w { w with gnr := w.gnr.usehit w.env.now gn }
  | timeout {w : World} : Act p w { w with gnr := w.gnr.hashTimeout w.env.now }
  /-- a connection is closed and its tags are destroyed -/
  | bury {w : World} {cid : Nat} {dead : Conn} : w.conn? cid = some dead →
      Act p w { w.close cid with gnr := freed (w.close cid) dead }
  /-- the pointer to a connection that is gone is cleared -/
  | unlink {w : World} {a d : Nat} {c : Conn} :
      w.conn? a = some c → c.endpoint = some d → w.conn? d = none →
      Act p w (w.modify a (.setEndpoint none))
  | confchange {w : World} {config : Config} : Act p w { w with config }
  | read {w : World} {cid : Nat} {rx : Option Rx} : p.own = some cid →
      Act p w (w.modify cid (.setRx rx))
  | hand {w : World} {cid : Nat} {frame : Bytes} : p.own = some cid →
      Act p w (w.observe (.handed cid frame))
  | answer {w : World} {cid : Nat} {frame : Bytes} {hret : Hret} {endpoint : Option Nat} :
      p.own = some cid → (hret = .forward → endpoint = none) →
      Act p w (w.observe (.answered cid frame hret endpoint))
  | forward {w : World} {cid e : Nat} {c : Conn} {b : Bool} {f g : Bytes} {env : Env} :
      p.own = some cid → w.conn? e = some c → Same w.env env → Framed c.nextseqnum g →
      Rewritten f g →
      Act p w (sent (w.observe (.answered cid f .forward (some e))) e b g env)

/-! ## Quiet code -/

section

variable {α : Type} {p : Perm} {R : World → World → Prop}

theorem Quiet.act {x : Sys α} (h : Does (Quiet p) x) : Does (Act p) x :=
  h.mono fun _ _ h => .quiet h

theorem conn_does (cid : Nat) : Does R (conn cid) := by
  intro w c w' hr
  obtain ⟨-, rfl⟩ := Sys.conn_ok.1 hr
  exact .refl

theorem deref_does (o : Option Nat) : Does R (deref o) := by
  intro w c w' hr
  obtain ⟨-, -, -, rfl⟩ := Sys.deref_ok.1 hr
  exact .refl

theorem now_does : Does R Sys.now := .read _

/-- A call of the allocator is quiet. -/
theorem mem_quiet (x : Mem α) : Does (Quiet p) (mem x) := .focus fun _ _ => .env _ ⟨rfl, rfl⟩

theorem modify_quiet {cid : Nat} {f : Conn → Conn} (hf : ∀ c, Touch c f) :
    Does (Quiet p) (modify cid f) := by
  intro w _ w' hr
  obtain ⟨⟨c, hc⟩, hr⟩ := Sys.modify_ok.1 hr
  cases hr
  exact .single (.touch hc (hf c))

theorem schedulekill_quiet (cid : Nat) : Does (Quiet p) (schedulekill cid) :=
  modify_quiet fun _ => ⟨fun _ => rfl, rfl, rfl, rfl, rfl, fun _ => .inl, rfl, rfl⟩

theorem takewrite_quiet (cid : Nat) : Does (Quiet p) (takewrite cid) := by
  refine .bind (.read _) fun flushed => .ite (fun _ => ?_) fun _ => .pure _
  refine .bind now_does fun now => ?_
  exact .bind (modify_quiet fun _ => ⟨fun _ => rfl, rfl, rfl, rfl, rfl, fun _ => .inl, rfl, rfl⟩) fun _ => .pure _

/-- A search does what its matcher does. -/
theorem find_quiet {matcher : Conn → Sys Bool} (h : ∀ c, Does R (matcher c)) :
    Does R (Naf.Conn.find matcher) := by
  have hloop : ∀ conns, Does R (Naf.Conn.findLoop matcher conns) := by
    intro conns
    induction conns with
    | nil => exact .pure _
    | cons c conns ih => exact .bind (h c) fun b => .ite (fun _ => .pure _) fun _ => ih
  exact .bind (.read _) hloop

theorem find_does (matcher : Conn → World → Bool) :
    Does R (Naf.Conn.find fun c => Prog.read (matcher c)) := find_quiet fun _ => .read _

theorem forceDisconnect_quiet (sn : CStr) : Does (Quiet p) (forceDisconnect sn) := by
  refine .bind (find_does _) fun found => ?_
  cases found with
  | none => exact .pure _
  | some c => exact .bind (schedulekill_quiet _) fun _ => .pure _

theorem detacholdconns_quiet (sn : CStr) : Does (Quiet p) (detacholdconns sn) := by
  refine find_quiet fun c => .bind (.read _) fun old => ?_
  exact .bind (.ite (fun _ => schedulekill_quiet _) fun _ => .pure _) fun _ => .pure _

/-! ## Sending is quiet -/

theorem sendraw_quiet {cid : Option Nat} {buf : Block} {buflen : Nat} (hhdr : 6 ≤ buflen)
    (hlt : buflen < 65536) : Does (Quiet p) (sendraw cid buf buflen) := by
  cases cid with
  | none => exact .pure _
  | some cid =>
      intro w b w' hr
      obtain ⟨c, env, hc, hsame, rfl⟩ := sendraw_ok hhdr hlt hr
      exact .single (.send hc hsame (framed_frameOf hlt))

/-- A buffer that starts with a FLAP header can be sent. -/
theorem sendsbufConsume_quiet {cid : Option Nat} {sb : Sbuf} {p' : Bytes} (hhead : Head sb p')
    (hlen : 6 ≤ p'.length) : Does (Quiet p) (sendsbufConsume cid sb) := by
  have hle := hhead.le
  have hpos := hhead.ok.pos_le
  have hlt := hhead.ok.lt
  exact sendraw_quiet (by omega) (by omega)

/-- The senders that build a frame of their own start with a fresh buffer and a header. -/
theorem sendbuilt_quiet {n chan : Nat} (hn : n = 0 ∨ 6 ≤ n) (hlt : n < 65536) {k : Sbuf → Sys Bool}
    (hk : ∀ sb, Head sb (flaphdr chan) → Does (Quiet p) (k sb)) :
    Does (Quiet p) (do
      match ← mem (Sbuf.init none n) with
      | none => pure false
      | some sb => do
          let sb ← mem (puthdr sb chan)
          k sb) := by
  refine .bind_gives (mem_quiet _) (.focus (Sbuf.init_holds hlt)) fun r hinit => ?_
  cases r with
  | none => exact .pure _
  | some sb =>
      have hput : Gives (puthdr sb chan) _ := puthdr_holds (hinit sb rfl) (by split <;> omega)
      exact .bind_gives (mem_quiet _) (.focus hput) fun sb hold => hk sb (by simpa using hold.toHead)

theorem sendflapversion_quiet (cid : Nat) : Does (Quiet p) (sendflapversion cid) :=
  sendbuilt_quiet (.inr (by decide)) (by decide) fun _ hhead =>
    .bind_gives (mem_quiet _) (.focus (hhead.put32 _)) fun _ h => sendsbufConsume_quiet h (by decide)

theorem sendcookie_quiet (cid : Nat) (tlvh : List Tlv) : Does (Quiet p) (sendcookie cid tlvh) :=
  sendbuilt_quiet (.inl rfl) (by decide) fun _ hhead =>
    .bind_gives (mem_quiet _) (.focus (hhead.put32 _)) fun _ h =>
      .bind_gives (mem_quiet _) (.focus (render_head _ h)) fun _ h =>
        sendsbufConsume_quiet h (by decide)

theorem sendconnclose_quiet (cid reason : Nat) (reasonurl : Option CStr) :
    Does (Quiet p) (sendconnclose cid reason reasonurl) := by
  refine sendbuilt_quiet (.inl rfl) (by decide) fun sb hhead => ?_
  refine .bind (.ite (fun _ => .map (mem_quiet _)) fun _ => .pure _) fun tlvh => ?_
  refine .bind ?_ fun tlvh => ?_
  · cases reasonurl with
    | none => exact .pure _
    | some url => exact .map (mem_quiet _)
  · exact .bind_gives (mem_quiet _) (.focus (render_head _ hhead)) fun _ h =>
      sendsbufConsume_quiet h (by decide)

theorem sendnop_quiet (cid : Nat) : Does (Quiet p) (sendnop cid) :=
  sendbuilt_quiet (.inl rfl) (by decide) fun _ hhead => sendsbufConsume_quiet hhead (by decide)

/-- The senders of SNACs start with a buffer that has the head of one. -/
theorem sendsnac_quiet {group subtype flags id : Nat} {b : α} {k : Sbuf → Sys α}
    (hk : ∀ sb, Head sb (snachead group subtype flags id) → Does (Quiet p) (k sb)) :
    Does (Quiet p) (do
      match ← mem (newsnacsb group subtype flags id) with
      | none => pure b
      | some sb => k sb) := by
  refine .bind_gives (mem_quiet _) (.focus newsnacsb_head) fun r hhead => ?_
  cases r with
  | none => exact .pure _
  | some sb => exact hk sb (hhead sb rfl)

/-- A SNAC has at least the head of its frame. -/
theorem six_le_snachead (group subtype flags id : Nat) :
    6 ≤ (snachead group subtype flags id).length := by
  simp [snachead, flaphdr]

theorem authSendfail_quiet (cid : Nat) (sn : Option CStr) (code : Nat) (errurl : Option CStr) :
    Does (Quiet p) (authSendfail cid sn code errurl) := by
  refine sendsnac_quiet fun sb hhead => ?_
  refine .bind (mem_quiet _) fun r₁ => .bind (mem_quiet _) fun r₂ => .bind ?_ fun tlvh => ?_
  · cases errurl with
    | none => exact .pure _
    | some errurl => exact .map (mem_quiet _)
  · exact .bind_gives (mem_quiet _) (.focus (render_head _ hhead)) fun _ h =>
      sendsbufConsume_quiet h (six_le_snachead ..)

theorem authSendauthinforequest_quiet (cid snacid : Nat) (tlvh : List Tlv) :
    Does (Quiet p) (authSendauthinforequest cid snacid tlvh) :=
  sendsnac_quiet fun _ hhead =>
    .bind_gives (mem_quiet _) (.focus (render_head _ hhead)) fun _ h =>
      sendsbufConsume_quiet h (six_le_snachead ..)

theorem putcookie_quiet (n : Nat) (sb : Sbuf) : Does (Quiet p) (putcookie n sb) := by
  induction n generalizing sb with
  | zero => exact .pure _
  | succ n ih =>
      have hrand : Does (Quiet p) Sys.rand := by
        intro w r w' hr
        cases hr
        exact .single (.env _ ⟨rfl, rfl⟩)
      exact .bind hrand fun r => .bind (mem_quiet _) fun r => ih _

theorem putmsgck_quiet (gm : Msg) (sb : Sbuf) : Does (Quiet p) (putmsgck gm sb) := by
  unfold putmsgck
  split
  · exact .map (mem_quiet _)
  · exact putcookie_quiet _ _

/-- Putting out a message touches no connection but by its write request. -/
theorem sendoutgoing_quiet (cid : Option Nat) (gm : Msg) : Does (Quiet p) (sendoutgoing cid gm) := by
  unfold sendoutgoing
  cases icbmchan gm with
  | none => exact .pure _
  | some chan =>
      refine sendsnac_quiet fun sb hhead => ?_
      refine .bind_gives (putmsgck_quiet gm sb) (putmsgck_head gm hhead) fun sb h₁ => ?_
      refine .bind_gives (mem_quiet _) (.focus (h₁.put16 _)) fun r h₂ => ?_
      refine .bind_gives (mem_quiet _) (.focus (h₂.put8 _)) fun r h₃ => ?_
      refine .bind_gives (mem_quiet _) (.focus (h₃.putstr _)) fun r h₄ => ?_
      refine .bind_gives (mem_quiet _) (.focus (renderchan1_head gm h₄)) fun sb h₅ => ?_
      exact sendsbufConsume_quiet h₅ (six_le_snachead ..)

theorem sendincoming_quiet (cid : Option Nat) (gm : Msg) : Does (Quiet p) (sendincoming cid gm) := by
  unfold sendincoming
  cases icbmchan gm with
  | none => exact .pure _
  | some chan =>
      refine sendsnac_quiet fun sb hhead => ?_
      refine .bind_gives (putmsgck_quiet gm sb) (putmsgck_head gm hhead) fun sb h₁ => ?_
      refine .bind_gives (mem_quiet _) (.focus (h₁.put16 _)) fun r h₂ => ?_
      refine .bind_gives (mem_quiet _) (.focus (putsrcinfo_head gm h₂)) fun r h₃ => ?_
      cases r with
      | none => exact .pure _
      | some sb =>
          refine .bind_gives (mem_quiet _) (.focus (renderchan1_head _ (h₃ sb rfl))) fun sb h₄ => ?_
          exact .bind (sendsbufConsume_quiet h₄ (six_le_snachead ..)) fun _ => .pure _

/-! ## Tags -/

theorem tagFetch_does (mod : Nafmodule) (cid : Option Nat) (name : CStr) :
    Does R (tagFetch mod cid name) := by
  cases cid with
  | none => exact .pure _
  | some cid => exact .bind (conn_does cid) fun _ => .pure _

theorem fetchScreenname_does (cid : Option Nat) : Does R (fetchScreenname cid) :=
  .map (tagFetch_does _ _ _)

/-- A tag of another name goes to a connection. -/
theorem tagAdd_quiet {cid : Option Nat} {name : CStr} {type : Char} {data : TagData}
    (hname : name.take 64 ≠ lit "conn.screenname") :
    Does (Quiet p) (tagAdd module cid name type data) := by
  cases cid with
  | none => exact .pure _
  | some cid =>
      intro w b w' hr
      simp only [tagAdd, bind_ok, Sys.conn_ok, Sys.mem_ok, Prod.mk.injEq] at hr
      obtain ⟨c, w, ⟨hc, rfl⟩, r, _, ⟨_, h, hadd, rfl, rfl⟩, hr⟩ := hr
      refine .head (.env { w.env with heap := h } ⟨rfl, rfl⟩) ?_
      cases r with
      | none =>
          cases pure_ok.1 hr
          exact .refl
      | some taglist =>
          obtain ⟨-, rfl⟩ := Tag.add_ok hadd
          obtain ⟨_, _, hmod, hr⟩ := bind_ok.1 hr
          obtain ⟨-, hmod⟩ := Sys.modify_ok.1 hmod
          cases hmod
          cases pure_ok.1 hr
          refine .single (.touch (c := c) hc ⟨fun _ => rfl, rfl, rfl, rfl, ?_, fun tag htag => ?_, rfl, rfl⟩)
          · simp [screennameOf, Tag.fetch, Tag.isFor, hname]
          · obtain rfl | htag := List.mem_cons.1 htag
            · exact .inr hname
            · exact .inl htag

/-- To remove any tag but the one with the name is quiet. -/
theorem tagRemove_quiet {cid : Option Nat} {name : CStr} (hname : name ≠ lit "conn.screenname") :
    Does (Quiet p) (tagRemove module cid name) := by
  cases cid with
  | none => exact .pure _
  | some cid =>
      intro w b w' hr
      simp only [tagRemove, bind_ok, Sys.conn_ok] at hr
      obtain ⟨c, w, ⟨hc, rfl⟩, hr⟩ := hr
      rcases hrem : Tag.remove c.taglist module name with ⟨tag, taglist⟩
      rw [hrem] at hr
      cases tag with
      | none =>
          cases pure_ok.1 hr
          exact .refl
      | some tag =>
          obtain ⟨_, _, hmod, hr⟩ := bind_ok.1 hr
          obtain ⟨-, hmod⟩ := Sys.modify_ok.1 hmod
          cases hmod
          cases pure_ok.1 hr
          refine .single (.touch (c := c) hc ⟨fun _ => rfl, rfl, rfl, rfl, ?_, fun tag' htag => ?_, rfl, rfl⟩)
          · have hrest : taglist = (Tag.remove c.taglist module name).2 := by rw [hrem]
            simp only [screennameOf, Conn.setTaglist_taglist, hrest,
              Tag.fetch_remove (show (module, name) ≠ (module, lit "conn.screenname") by simpa using hname)]
          · exact .inl (Tag.mem_of_mem_remove (by rw [hrem]; exact htag))

/-! ## New connections -/

/-- A new connection asks for its first header. -/
theorem reqread_quiet {cid : Nat} {buf : Option Block} (hnew : p.start ≤ cid)
    (hsize : ∀ b, buf = some b → b.size = maxflaplen) :
    Does (Quiet p) (reqread cid buf flaphdrlen 0) := by
  cases buf with
  | none => exact .pure _
  | some buf =>
      intro w b w' hr
      simp only [reqread, show ¬flaphdrlen = 0 by decide, if_false, bind_ok, Sys.conn_ok] at hr
      obtain ⟨c, w, ⟨hc, rfl⟩, refused, _, hrefused, hr⟩ := hr
      cases hrefused
      refine .head (.env { w.env with readRefused := w.env.readRefused.tail } ⟨rfl, rfl⟩) ?_
      split at hr
      · cases pure_ok.1 hr
        exact .refl
      · rename_i hfree
        simp only [Bool.or_eq_true, not_or, Bool.not_eq_true, Option.isSome_eq_false_iff,
          Option.isNone_iff_eq_none] at hfree
        obtain ⟨_, _, hmod, hr⟩ := bind_ok.1 hr
        obtain ⟨-, hmod⟩ := Sys.modify_ok.1 hmod
        cases hmod
        cases pure_ok.1 hr
        exact .single (.request (c := c) hc hnew hfree.2 ⟨hsize buf rfl, rfl, rfl⟩)

theorem prepareconn_quiet {cid : Nat} (hnew : p.start ≤ cid) : Does (Quiet p) (prepareconn cid) := by
  refine .bind (modify_quiet fun _ => ⟨fun _ => rfl, rfl, rfl, rfl, rfl, fun _ => .inl, rfl, rfl⟩) fun _ => ?_
  refine .bind (.read _) fun prorogueall => .bind (.ite (fun _ => ?_) fun _ => .pure _) fun _ => ?_
  · exact modify_quiet fun _ => ⟨fun _ => rfl, rfl, rfl, rfl, rfl, fun _ => .inl, rfl, rfl⟩
  refine .bind (conn_does cid) fun c => ?_
  refine .bind (.ite (fun _ => sendflapversion_quiet cid) fun _ => .pure _) fun sent => ?_
  refine .ite (fun _ => ?_) fun _ => .pure _
  exact .bind_gives (mem_quiet _) (.focus (Naf.malloc_size _)) fun buf hsize => reqread_quiet hnew hsize

theorem takeconn_quiet {cid : Nat} (hnew : p.start ≤ cid) : Does (Quiet p) (takeconn cid) :=
  .bind (modify_quiet fun _ => ⟨fun _ => rfl, rfl, rfl, rfl, rfl, fun _ => .inl, rfl, rfl⟩) fun _ =>
    prepareconn_quiet hnew

/-- A connection is made, or the attempt leaves the numbering ahead. -/
theorem addconn_ok {owner : Option Nafmodule} {type : ConnType} {w w' : World} {r : Option Nat}
    (hr : Naf.Conn.addconn owner type w = .ok (r, w')) :
    ∃ env, Same w.env env ∧
      ((r = none ∧ ∃ nextcid openconns, w.nextcid ≤ nextcid ∧
          w' = { w with env, nextcid, openconns }) ∨
        r = some w.nextcid ∧ ∃ pos c, New w c ∧ c.type = type ∧ w' = { w.insert pos c with env }) := by
  simp only [Naf.Conn.addconn, bind_ok, Sys.mem_ok, Prod.mk.injEq] at hr
  obtain ⟨b, _, ⟨_, h, -, rfl, rfl⟩, hr⟩ := hr
  cases b with
  | none =>
      cases pure_ok.1 hr
      exact ⟨{ w.env with heap := h }, ⟨rfl, rfl⟩,
        .inl ⟨rfl, w.nextcid, w.openconns, Nat.le_refl _, rfl⟩⟩
  | some b =>
      simp only [bind_ok, read_ok, update_ok, Prod.mk.injEq] at hr
      obtain ⟨_, _, ⟨rfl, rfl⟩, _, _, ⟨-, rfl⟩, refused, _, hrefused, hr⟩ := hr
      cases hrefused
      refine ⟨{ w.env with heap := h, addfdRefused := w.env.addfdRefused.tail }, ⟨rfl, rfl⟩, ?_⟩
      split at hr
      · simp only [bind_ok, update_ok, pure_ok, Prod.mk.injEq] at hr
        obtain ⟨_, _, ⟨-, rfl⟩, rfl, rfl⟩ := hr
        exact .inl ⟨rfl, w.nextcid + 1, _, Nat.le_succ _, rfl⟩
      · simp only [bind_ok, update_ok, pure_ok, Prod.mk.injEq] at hr
        obtain ⟨_, _, ⟨-, rfl⟩, rfl, rfl⟩ := hr
        exact .inr ⟨rfl, w.env.fdpos, Naf.Conn.newconn w.nextcid owner type w.env.sockname,
          ⟨rfl, rfl, rfl, rfl, rfl⟩, rfl, rfl⟩

end

end Timps.Oscar
