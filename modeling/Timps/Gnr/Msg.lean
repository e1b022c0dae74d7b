-- SUMMARY: Messages of gnr, the stages of routing, and the handler that counts hits on nodes.
import Timps.World

/-!
# Messages

A `struct gnrmsg` passes the handlers of three stages; a routing handler that answers
nonzero makes its module the one that puts the message out. What a message's tags
carry is a parameter.
-/

namespace Timps

open Naf (Nafmodule Tag)

namespace Gnr

/-- GNR_MSG_MSGTYPE_ -/
inductive Msgtype where
  | im
  | groupinvite
  | groupim
  | groupjoin
  | grouppart
  | rendezvous
  deriving DecidableEq

/-- The GNR_MSG_MSGFLAG_ bits that are used. -/
structure Msgflags where
  autoresponse : Bool := false
  ackrequested : Bool := false
  deriving DecidableEq

/-- GNR_MSG_ROUTEFLAG_ -/
structure Routeflags where
  routedLocal : Bool := false
  routedPeer : Bool := false
  routedForward : Bool := false
  routedInternal : Bool := false
  deriving DecidableEq

def Routeflags.isrouted (f : Routeflags) : Bool :=
  f.routedLocal || f.routedPeer || f.routedForward || f.routedInternal

end Gnr

structure Gnrmsg (δ : Type) where
  srcname : Option CStr := none
  srcnameservice : Option CStr := none
  destname : Option CStr := none
  destnameservice : Option CStr := none
  type : Gnr.Msgtype := .im
  msgtexttype : Option CStr := none
  msgtext : Option CStr := none
  msgflags : Gnr.Msgflags := {}
  routeflags : Gnr.Routeflags := {}
  taglist : List (Tag δ) := []

namespace Gnr

/-- `struct gnrmsg_handler_info`; nodes are given by their contents at look-up. -/
structure HandlerInfo where
  srcmod : Nafmodule
  targetmod : Option Nafmodule
  srcnode : Option Node
  destnode : Option Node

/-- A message handler or output function: its answer, and the message and the handler
info after it. -/
abbrev Handler (δ : Type) := Gnrmsg δ → HandlerInfo → Sys (Int × Gnrmsg δ × HandlerInfo)

/-- What the modules have registered: handlers by stage, and output functions. -/
structure Handlers (δ : Type) where
  prerouting : List (Nafmodule × Handler δ)
  routing : List (Nafmodule × Handler δ)
  postrouting : List (Nafmodule × Handler δ)
  outputfunc : Nafmodule → Option (Handler δ)

variable {δ : Type}

/-- The pre- and the post-routing stage: all handlers, their answers ignored. -/
def runAll : List (Nafmodule × Handler δ) → Gnrmsg δ → HandlerInfo → Sys (Gnrmsg δ × HandlerInfo)
  | [], gm, gmhi => pure (gm, gmhi)
  | mh :: l, gm, gmhi => do
      let (_, gm, gmhi) ← mh.2 gm gmhi
      runAll l gm gmhi

/-- The routing stage: the first handler that answers nonzero has its module chosen. -/
def runRouting : List (Nafmodule × Handler δ) → Gnrmsg δ → HandlerInfo →
    Sys (Gnrmsg δ × HandlerInfo)
  | [], gm, gmhi => pure (gm, gmhi)
  | mh :: l, gm, gmhi => do
      let (r, gm, gmhi) ← mh.2 gm gmhi
      if r ≠ 0 then pure (gm, { gmhi with targetmod := some mh.1 }) else runRouting l gm gmhi

/-- `gnr_msg_new`. -/
def msgNew : Sys (Option (Gnrmsg δ)) := do
  match ← Sys.mem (Naf.malloc 136) with
  | none => pure none
  | some _ => pure (some {})

/-- `gnr_msg_free` reads the tag list of its argument first. The destructors of message
tags only give memory back. -/
def msgFree : Option (Gnrmsg δ) → Sys Unit
  | none => Prog.fault .nullMsg
  | some _ => pure ()

/-- `gnr_msg_tag_add`; the message stays as it is when the tag cannot be added. -/
def msgTagAdd (mod : Nafmodule) (gm : Gnrmsg δ) (name : CStr) (type : Char) (data : δ) :
    Sys (Bool × Gnrmsg δ) := do
  match ← Sys.mem (Tag.add gm.taglist mod name type data) with
  | none => pure (false, gm)
  | some taglist => pure (true, { gm with taglist })

def msgTagFetch (mod : Nafmodule) (gm : Gnrmsg δ) (name : CStr) : Option (Tag δ) :=
  Tag.fetch gm.taglist mod name

def findnode (name : CStr) (service : Option CStr) : Sys (Option Node) :=
  Prog.read fun w => w.gnr.findbyname name service

def nodeOnline (owner : Nafmodule) (name service : CStr) (flags : Nat) (metric : Int) :
    Sys (Option Node) := do
  let g ← Prog.read fun w => w.gnr
  let now ← Sys.now
  let (gn, g) ← Sys.mem (g.online now owner name service flags metric)
  Prog.update fun w => { w with gnr := g }
  pure gn

def nodeUsehit (gn : Node) : Sys Unit := Prog.update fun w =>
  { w with gnr := w.gnr.usehit w.env.now gn }

def nodeOffline (gn : Node) (reason : Reason) : Sys Unit := Prog.update fun w =>
  { w with gnr := (w.gnr.offline gn reason).2 }

/-- Only routed messages count towards the time-out of their nodes. -/
def nodeMsgPostrouting : Handler δ := fun gm gmhi => do
  (if gm.routeflags.isrouted then do
    (match gmhi.srcnode with
     | some gn => nodeUsehit gn
     | none => pure ())
    match gmhi.destnode with
    | some gn => nodeUsehit gn
    | none => pure ()
   else pure ())
  pure (0, gm, gmhi)

/-- `gnr_msg_route`: -1 without names, else 0 whatever became of the message. -/
def msgRoute (handlers : Handlers δ) (srcmod : Nafmodule) (gm : Gnrmsg δ) :
    Sys (Int × Gnrmsg δ) :=
  match gm.srcname, gm.srcnameservice, gm.destname, gm.destnameservice with
  | some srcname, some srcnameservice, some destname, some destnameservice => do
      let srcnode ← findnode srcname (some srcnameservice)
      let destnode ← findnode destname (some destnameservice)
      let gmhi : HandlerInfo := { srcmod, targetmod := none, srcnode, destnode }
      let (gm, gmhi) ← runAll handlers.prerouting gm gmhi
      let (gm, gmhi) ← runRouting handlers.routing gm gmhi
      let (gm, gmhi) ← runAll handlers.postrouting gm gmhi
      match gmhi.targetmod.bind handlers.outputfunc with
      | some outputfunc => do
          let (_, gm, _) ← outputfunc gm gmhi
          pure (0, gm)
      | none => pure (0, gm)
  | _, _, _, _ => pure (-1, gm)

end Gnr
end Timps
