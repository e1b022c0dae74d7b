-- SUMMARY: Sending FLAP frames, preparing connections for FLAP, and looking connections up by screen name.
import Timps.Naf.Conn

/-!
# FLAP: sending, preparing, finding

The half of `flap.c` that the SNAC handlers rest on. A frame is built in a buffer with
its header left blank; `sendraw` fills the header in when the frame is queued.
-/

namespace Timps.Oscar

open Naf (Block Mem Nafmodule Sbuf Tag Tlv lit malloc toupper bytePut8 bytePut16)
open Naf.Conn (tagFetch schedulekill reqread reqwrite)
open Sys (mem conn modify)

/-- `timps_oscar__module` -/
def module : Nafmodule := ⟨lit "timps-oscar"⟩

/-- OSCARSERVICE -/
def oscarservice : CStr := lit "AIM"

def flaphdrlen : Nat := 6
def maxsnaclen : Nat := 8192
/-- size of all flap buffers -/
def maxflaplen : Nat := flaphdrlen + maxsnaclen
def defaultport : Nat := 5190

/-- TOSCAR_SERVTYPE_ -/
def servtypeBos : Nat := 0x0009
def servtypeAuth : Nat := 0x0017

/-! ## Sending -/

/-- Fill in magic, sequence number and length, and queue the frame. A refused frame
does not use up a sequence number. -/
def sendraw (cid : Option Nat) (buf : Block) (buflen : Nat) : Sys Bool :=
  match cid with
  | none => pure false
  | some cid => do
      let c ← conn cid
      let buf ← mem (buf.store 0 (bytePut8 42))
      let buf ← mem (buf.store 2 (bytePut16 c.nextseqnum))
      let buf ← mem (buf.store 4 (bytePut16 ((buflen + 65536 - flaphdrlen) % 65536)))
      let frame ← mem (buf.load 0 buflen)
      if ← reqwrite cid frame then do
        modify cid fun c => { c with nextseqnum := (c.nextseqnum + 1) % 65536 }
        pure true
      else pure false

/-- The frame ends at the cursor. -/
def sendsbufConsume (cid : Option Nat) (sb : Sbuf) : Sys Bool := sendraw cid sb.block sb.pos

def puthdr (sb : Sbuf) (chan : Nat) : Mem Sbuf := do
  let (_, sb) ← sb.put8 42
  let (_, sb) ← sb.put8 chan
  -- sequence number and length, filled in later
  let (_, sb) ← sb.put16 0x0000
  let (_, sb) ← sb.put16 4
  pure sb

def sendflapversion (cid : Nat) : Sys Bool := do
  match ← mem (Sbuf.init none (flaphdrlen + 4)) with
  | none => pure false
  | some sb => do
      let sb ← mem (puthdr sb 0x01)
      let (_, sb) ← mem (sb.put32 0x00000001)
      sendsbufConsume (some cid) sb

def sendcookie (cid : Nat) (tlvh : List Tlv) : Sys Bool := do
  match ← mem (Sbuf.init none 0) with
  | none => pure false
  | some sb => do
      let sb ← mem (puthdr sb 0x01)
      let (_, sb) ← mem (sb.put32 0x00000001)
      let (_, sb) ← mem (Tlv.render tlvh sb)
      sendsbufConsume (some cid) sb

def sendconnclose (cid : Nat) (reason : Nat) (reasonurl : Option CStr) : Sys Bool := do
  match ← mem (Sbuf.init none 0) with
  | none => pure false
  | some sb => do
      let sb ← mem (puthdr sb 0x04)
      let tlvh ← (if reason ≠ 0 then Prod.snd <$> mem (Tlv.addu16 [] 0x0009 reason) else pure [])
      let tlvh ← (match reasonurl with
        | some url => Prod.snd <$> mem (Tlv.addstring tlvh 0x000b url)
        | none => pure tlvh)
      -- without a reason and a URL there is nothing to render
      let (_, sb) ← mem (Tlv.render tlvh sb)
      sendsbufConsume (some cid) sb

def sendnop (cid : Nat) : Sys Bool := do
  match ← mem (Sbuf.init none 0) with
  | none => pure false
  | some sb => do
      let sb ← mem (puthdr sb 0x05)
      sendsbufConsume (some cid) sb

/-! ## Preparing a connection -/

/-- Ask for the next header, into the old buffer or into a new one. When the request is
refused the error path looks at `buf`, which was never set if there was an old buffer. -/
def reqflap (cid : Nat) (oldbuf : Option Block) : Sys Bool := do
  match oldbuf with
  | some oldbuf => do
      if ← reqread cid (some oldbuf) flaphdrlen 0 then pure true
      else Prog.fault .uninitialised
  | none => do
      let buf ← mem (malloc maxflaplen)
      reqread cid buf flaphdrlen 0

def prepareconn (cid : Nat) : Sys Bool := do
  modify cid fun c => { c with ready := false }
  let prorogueall ← Prog.read fun w => w.config.enableprorogueall
  (if prorogueall then modify cid fun c => { c with type := { c.type with prorogueDeath := true } }
   else pure ())
  let c ← conn cid
  -- act like a server
  let sent ← (if c.type.client then sendflapversion cid else pure true)
  if sent then reqflap cid none else pure false

/-- `takeconn` of the module. -/
def takeconn (cid : Nat) : Sys Bool := do
  modify cid fun c => { c with type := { c.type with detecting := false, flap := true } }
  prepareconn cid

/-- The `takeconn` functions of all modules. -/
def takeconns (mod : Nafmodule) : Option (Nat → Sys Bool) :=
  if mod = module then some takeconn else none

def startconnect (localconn : Nat) (host : CStr) (port : Nat) : Sys Bool :=
  Naf.Conn.startconnect takeconns localconn host port

/-! ## Screen names -/

/-- The loop of `toscar_sncmp`; `none` when both pointers pass the end of their strings. -/
def sncmpLoop : Nat → CStr → CStr → Option Nat
  | 0, _, _ => some 1
  | fuel + 1, c :: s, d :: t =>
      match (c :: s).dropWhile (· = 32), (d :: t).dropWhile (· = 32) with
      | c :: s, d :: t => if toupper c ≠ toupper d then some 1 else sncmpLoop fuel s t
      -- both characters are the terminator: they compare equal, and `p1++, p2++` pass it
      | [], [] => none
      | _, _ => some 1
  | _ + 1, [], [] => some 0
  | _ + 1, _, _ => some 1

/-- What the comparison finds behind the end of the strings is up to `overrun`. -/
def sncmp (overrun : CStr → CStr → Nat) (sn1 sn2 : CStr) : Nat :=
  (sncmpLoop (sn1.length + sn2.length + 1) sn1 sn2).getD (overrun sn1 sn2)

/-- The data of a tag of type 'S'. -/
def tagstring : Option (Tag TagData) → Option CStr
  | some ⟨_, _, _, .string s⟩ => some s
  | _ => none

/-- The string of a `conn.screenname` tag. -/
def screennameOf (c : Conn) : Option CStr :=
  tagstring (Tag.fetch c.taglist module (lit "conn.screenname"))

def findconnMatcher (overrun : CStr → CStr → Nat) (sn : CStr) (c : Conn) : Bool :=
  c.type.server && (screennameOf c).any fun cursn => sncmp overrun sn cursn = 0

def findconn (sn : CStr) : Sys (Option Conn) :=
  Naf.Conn.find fun c => Prog.read fun w => findconnMatcher w.env.overrun sn c

def forceDisconnect (sn : CStr) : Sys Bool := do
  match ← findconn sn with
  | none => pure false
  | some c => do
      schedulekill c.cid
      pure true

/-- `dying` is the connection whose tag is being freed. -/
def userhasotherclientMatcher (overrun : CStr → CStr → Nat) (sn : CStr) (dying : Nat) (c : Conn) :
    Bool :=
  c.type.server && c.cid ≠ dying &&
    ((screennameOf c).any fun cursn => sncmp overrun sn cursn = 0) && c.endpoint.isSome

def userhasotherclient (sn : CStr) (dying : Nat) : Sys Bool :=
  Option.isSome <$> Naf.Conn.find fun c => Prog.read fun w =>
    userhasotherclientMatcher w.env.overrun sn dying c

def detacholdconnsMatcher (overrun : CStr → CStr → Nat) (sn : CStr) (c : Conn) : Bool :=
  c.type.server && c.endpoint.isNone && (screennameOf c).any fun cursn => sncmp overrun sn cursn = 0

/-- Schedule the death of the user's old server connections that lost their client. -/
def detacholdconns (sn : CStr) : Sys (Option Conn) :=
  Naf.Conn.find fun c => do
    let old ← Prog.read fun w => detacholdconnsMatcher w.env.overrun sn c
    (if old then schedulekill c.cid else pure ())
    pure false

end Timps.Oscar
