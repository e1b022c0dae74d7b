-- SUMMARY: Routing a message: which connection it is sent to, as a function of the node table and the open connections.
import Timps.Oscar.Relay
import Timps.Oscar.Snac

/-!
# Routing

The table says whose the nodes of a message are, the connections say where a user is.
What comes of a message is decided by the two together.
-/

namespace Timps.Oscar

open Gnr (flagNone metricLocal metricMax)
open Prog (bind_of_ok read_ok)

/-- Where a message is sent: to what stands behind the connection of a user, or out through one. -/
inductive Way where
  | incoming (cid : Option Nat)
  | outgoing (cid : Nat)

/-- The connection that is found for a user. -/
def userconn (w : World) (sn : CStr) : Option Conn := w.conns.find? (findconnMatcher w.env.overrun sn)

/-- The way between two nodes that one of the routing handlers has taken care of. -/
def nodesway (w : World) (srcnode destnode : Gnr.Node) : Option Way :=
  if destnode.metric = metricLocal then (userconn w destnode.name).map fun c => .incoming c.endpoint
  else if srcnode.metric = metricLocal then (userconn w srcnode.name).map fun c => .outgoing c.cid
  else none

/-- The way of a message between two names. -/
def wayOf (w : World) (srcsn destsn : CStr) : Option Way :=
  match w.gnr.findbyname srcsn (some oscarservice), w.gnr.findbyname destsn (some oscarservice) with
  | some srcnode, some destnode =>
      if isours destnode || isours srcnode then nodesway w srcnode destnode else none
  | _, _ => none

/-- The world in which a name has a node. -/
def known (w : World) (name : CStr) : World :=
  match w.gnr.findbyname name (some oscarservice) with
  | some _ => w
  | none =>
      { w with gnr := w.gnr.enter (w.gnr.newnode w.env.now module name oscarservice flagNone metricMax) }

variable {w : World} {gm : Msg}

theorem assumeExternal_eq (name : CStr) (hwilling : w.env.heap.refuse = []) :
    assumeExternal name w = .ok ((), known w name) := by
  unfold assumeExternal known
  rw [bind_of_ok (show Gnr.findnode name (some oscarservice) w =
    .ok (w.gnr.findbyname name (some oscarservice), w) from rfl)]
  cases hfind : w.gnr.findbyname name (some oscarservice) with
  | some gn => rfl
  | none =>
      have honline : Sys.mem (w.gnr.online w.env.now module name oscarservice flagNone metricMax) w = _ :=
        Sys.mem_of_steady (Gnr.online_of_willing hwilling)
      rw [hfind] at honline
      unfold Gnr.nodeOnline
      dsimp only
      rw [bind_assoc, bind_of_ok (read_ok.2 rfl), bind_assoc,
        bind_of_ok (show Sys.now w = .ok (w.env.now, w) from rfl), bind_assoc, bind_of_ok honline]
      rfl

/-- What the connection of a user is needed for. -/
theorem findconn_bind {α : Type} (sn : CStr) (f : Option Conn → Sys α) :
    (findconn sn >>= f) w = f (userconn w sn) w := bind_of_ok (Naf.Conn.find_eq _)

/-- Send a message on its way. -/
def carry (way : Option Way) (gm : Msg) : Sys (Int × Msg) :=
  match way with
  | none => pure (0, gm)
  | some (.incoming cid) => do
      let (_, gm) ← sendincoming cid gm
      pure (0, gm)
  | some (.outgoing cid) => do
      let _ ← sendoutgoing (some cid) gm
      pure (0, gm)

/-- The output function sends the message on its way. -/
theorem gnroutputfunc_eq {gmhi : Gnr.HandlerInfo} {srcnode destnode : Gnr.Node}
    (hsrc : gmhi.srcnode = some srcnode) (hdest : gmhi.destnode = some destnode) :
    (do
      let (_, gm, _) ← gnroutputfunc gm gmhi
      pure (0, gm) : Sys (Int × Msg)) w = carry (nodesway w srcnode destnode) gm w := by
  unfold gnroutputfunc nodesway
  rw [hdest, hsrc]
  dsimp only
  by_cases hlocal : destnode.metric = metricLocal
  · rw [if_pos hlocal, if_pos hlocal, bind_assoc, findconn_bind]
    cases userconn w destnode.name with
    | none => rfl
    | some c =>
        dsimp only [Option.map, carry]
        rw [bind_assoc]
        rfl
  · rw [if_neg hlocal, if_neg hlocal]
    by_cases hsrclocal : srcnode.metric = metricLocal
    · rw [if_pos hsrclocal, if_pos hsrclocal, bind_assoc, findconn_bind]
      cases userconn w srcnode.name with
      | none => rfl
      | some c =>
          dsimp only [Option.map, carry]
          rw [bind_assoc]
          rfl
    · rw [if_neg hsrclocal, if_neg hsrclocal]
      rfl

/-- The stage behind routing changes the use of nodes and nothing else. -/
theorem postrouting_eq (gm : Msg) (gmhi : Gnr.HandlerInfo) (w : World) :
    ∃ g, Gnr.runAll handlers.postrouting gm gmhi w = .ok ((gm, gmhi), { w with gnr := g }) := by
  have hpost : ∃ g, Gnr.nodeMsgPostrouting gm gmhi w = .ok ((0, gm, gmhi), { w with gnr := g }) := by
    obtain ⟨srcmod, targetmod, srcnode, destnode⟩ := gmhi
    unfold Gnr.nodeMsgPostrouting
    by_cases hrouted : gm.routeflags.isrouted = true
    · rw [if_pos hrouted]
      cases srcnode <;> cases destnode <;> exact ⟨_, rfl⟩
    · rw [if_neg hrouted]
      exact ⟨_, rfl⟩
  obtain ⟨g, hpost⟩ := hpost
  exact ⟨g, bind_of_ok hpost⟩

/-- A message with the mark of a routing handler. -/
def marked (gm : Msg) (flags : Gnr.Routeflags) : Msg := { gm with routeflags := flags }

/-- The routing stage marks a message that one of the handlers has taken care of. -/
theorem routing_eq (gm : Msg) (gmhi : Gnr.HandlerInfo) (w : World) :
    ∃ flags, Gnr.runRouting handlers.routing gm gmhi w =
      .ok (match gmhi.srcnode, gmhi.destnode with
        | some srcnode, some destnode =>
            if isours destnode || isours srcnode then
              (marked gm flags, { gmhi with targetmod := some module })
            else (gm, gmhi)
        | _, _ => (gm, gmhi), w) := by
  obtain ⟨srcmod, targetmod, srcnode, destnode⟩ := gmhi
  cases srcnode with
  | none => exact ⟨gm.routeflags, rfl⟩
  | some srcnode =>
  cases destnode with
  | none => exact ⟨gm.routeflags, rfl⟩
  | some destnode =>
      simp only [handlers, Gnr.runRouting, msgrouting]
      cases hdest : isours destnode with
      | true => exact ⟨_, rfl⟩
      | false =>
          cases hsrc : isours srcnode with
          | true => exact ⟨_, rfl⟩
          | false => exact ⟨gm.routeflags, rfl⟩

/-- A message between two users is sent on its way. -/
theorem msgRoute_eq {srcsn destsn : CStr} (hsrc : gm.srcname = some srcsn)
    (hsrcservice : gm.srcnameservice = some oscarservice) (hdest : gm.destname = some destsn)
    (hdestservice : gm.destnameservice = some oscarservice) :
    ∃ flags g, Gnr.msgRoute handlers module gm w =
      carry (wayOf w srcsn destsn) (marked gm flags) { w with gnr := g } := by
  have hfind : ∀ sn service, Gnr.findnode sn service w = .ok (w.gnr.findbyname sn service, w) :=
    fun _ _ => rfl
  have hpre : ∀ gmhi, Gnr.runAll handlers.prerouting gm gmhi w = .ok ((gm, gmhi), w) := fun _ => rfl
  obtain ⟨flags, hrouting⟩ := routing_eq gm
    ⟨module, none, w.gnr.findbyname srcsn (some oscarservice), w.gnr.findbyname destsn (some oscarservice)⟩ w
  unfold Gnr.msgRoute wayOf
  rw [hsrc, hsrcservice, hdest, hdestservice]
  dsimp only
  rw [bind_of_ok (hfind _ _), bind_of_ok (hfind _ _), bind_of_ok (hpre _)]
  dsimp only
  rw [bind_of_ok hrouting]
  generalize w.gnr.findbyname srcsn (some oscarservice) = srcnode
  generalize w.gnr.findbyname destsn (some oscarservice) = destnode
  dsimp only
  obtain ⟨g, hpost⟩ := postrouting_eq _ _ w
  rw [bind_of_ok hpost]
  cases srcnode with
  | none => exact ⟨gm.routeflags, g, rfl⟩
  | some srcnode =>
  cases destnode with
  | none => exact ⟨gm.routeflags, g, rfl⟩
  | some destnode =>
      dsimp only
      by_cases hours : (isours destnode || isours srcnode) = true
      · rw [if_pos hours, if_pos hours]
        exact ⟨flags, g, gnroutputfunc_eq rfl rfl⟩
      · rw [if_neg hours, if_neg hours]
        exact ⟨gm.routeflags, g, rfl⟩

end Timps.Oscar
