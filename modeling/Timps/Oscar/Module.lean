-- SUMMARY: The OSCAR module in its process: tag destructors, timers, the events of a run, and the step of the whole proxy.
import Timps.Oscar.Reader

/-!
# The module and its runs

An event brings the answers of the outside with it. `step` takes the world through one
event, to the state in which the next event finds it.
-/

namespace Timps.Oscar

open Naf (Nafmodule Sbuf Tag lit)
open Naf.Conn (Ops Ready schedulekill connhandlerRead connhandlerWrite connhandlerEof
  connhandlerIncomingconn)
open Sys (mem conn modify)

/-- The destructor of connection tags; all but one only give memory back. A user whose
last connection with a client goes is offline. -/
def freetag (object : Conn) (tag : Tag TagData) : Sys Unit :=
  if tag.name = lit "conn.screenname" then
    match tag.data with
    | .string sn => do
        match ← Gnr.findnode sn (some oscarservice) with
        | none => pure ()
        | some node => do
            if ← userhasotherclient sn object.cid then pure ()
            else Gnr.nodeOffline node .disconnected
    | _ => pure ()
  else pure ()

def connready (cid : Nat) (what : Ready) : Sys Bool :=
  match what with
  | .read => handleread cid
  | .write => handlewrite cid
  | .connected => pure true

/-- The functions of the modules that the connection core may call. -/
def ops (mod : Nafmodule) : Ops :=
  if mod = module then
    { takeconn := some takeconn, connready := some connready, freetag := some freetag }
  else {}

/-! ## Timers -/

def keepaliveMatcher (now : Int) (c : Conn) : Sys Bool := do
  if c.type.flap && c.type.server && c.ready then do
    let config ← Prog.read fun w => w.config
    (if now - c.lasttxSoft > config.keepaliveFrequency then do
      let _ ← sendnop c.cid
     else pure ())
    (if now - c.lasttxHard > config.txtimeout then schedulekill c.cid else pure ())
    pure false
  else pure false

def timerhandler : Sys Unit := do
  let now ← Sys.now
  ckcacheTimer now
  let _ ← Naf.Conn.find (keepaliveMatcher now)

def gnrTimer : Sys Unit := Prog.update fun w => { w with gnr := w.gnr.hashTimeout w.env.now }

/-! ## Events -/

inductive Event where
  /-- a client connects to a listener of the OSCAR module -/
  | accept
  /-- these bytes complete the read request of a connection -/
  | readable (cid : Nat) (bytes : Bytes)
  | writable (cid : Nat)
  /-- the end of a stream, an error, or the end of a flush -/
  | closed (cid : Nat)
  | gnrTimer
  | oscarTimer
  | confchange (config : Config)
  /-- the disconnectuser RPC -/
  | disconnectuser (sn : CStr)

structure Input where
  event : Event
  env : Env

/-- libnbio stores the bytes at their place and calls the handler. A connection that is
still being made is in raw mode: nothing is stored. -/
def completeread (cid : Nat) (bytes : Bytes) : Sys Unit := do
  match ← Prog.read fun w => w.conn? cid with
  | none => pure ()
  | some c =>
      if c.type.connecting then connhandlerRead ops cid
      else
        match c.rx with
        | none => pure ()
        | some rx =>
            if rx.offset + bytes.length = rx.len then do
              let buf ← mem (rx.buf.store rx.offset bytes)
              modify cid (.setRx (some { rx with buf }))
              connhandlerRead ops cid
            else pure ()

/-- Events of connections that are no longer open do not arrive. -/
def ifopen (cid : Nat) (x : Sys Unit) : Sys Unit := do
  if (← Prog.read fun w => w.conn? cid).isSome then x else pure ()

def handle : Event → Sys Unit
  | .accept => connhandlerIncomingconn ops module
  | .readable cid bytes => completeread cid bytes
  | .writable cid => ifopen cid (connhandlerWrite ops cid)
  | .closed cid => ifopen cid (connhandlerEof ops cid)
  | .gnrTimer => gnrTimer
  | .oscarTimer => timerhandler
  | .confchange config => Prog.update fun w => { w with config }
  | .disconnectuser sn => do
      let _ ← forceDisconnect sn

def step (i : Input) (w : World) : Except Fault World :=
  match handle i.event { w with env := i.env } with
  | .ok (_, w) => .ok w
  | .error e => .error e

/-- A proxy that has just started: no connection, no node, no cookie. -/
def Initial (w : World) : Prop :=
  w.conns = [] ∧ w.nextcid = 0 ∧ w.openconns = 0 ∧ w.gnr = Gnr.hashInit ∧ w.ckcache = [] ∧
    w.trace = []

end Timps.Oscar
