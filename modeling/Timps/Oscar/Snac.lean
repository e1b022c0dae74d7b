-- SUMMARY: The SNAC handlers and their dispatch.
import Timps.Oscar.Ckcache
import Timps.Oscar.Icbm

/-!
# SNAC handlers

A handler answers whether its frame goes on to the other side, was dealt with, or ends
the connection. The direction comments in the source (client->server, server->client)
are checked by some handlers and not by others.
-/

namespace Timps.Oscar

open Naf (Block Mem Sbuf Tag Tlv lit byteGet16 byteGet32)
open Naf.Conn (tagAdd tagRemove tagFetch schedulekill getlocaladdrstr)
open Gnr (flagNone metricLocal metricMax)
open Sys (mem conn deref modify)

/-- The `conn.screenname` tag of a connection; none when there is no connection. -/
def fetchScreenname (cid : Option Nat) : Sys (Option CStr) :=
  tagstring <$> tagFetch module cid (lit "conn.screenname")

/-- 0001/0002 (client->server) Client Online -/
def snachandler_0001_0002 (cid : Nat) (_snac : Snac) : Sys Hret := do
  let c ← conn cid
  if c.type.client = false then pure .error
  else
    match ← fetchScreenname c.endpoint with
    | none => pure .error
    | some sn => do
        let _ ← detacholdconns sn
        match ← Gnr.nodeOnline module sn oscarservice flagNone metricLocal with
        | none => pure .error
        | some _ => pure .forward

/-- 0001/0003 (server->client) Host Online -/
def snachandler_0001_0003 (cid : Nat) (_snac : Snac) : Sys Hret := do
  modify cid fun c => { c with ready := true }
  pure .forward

/-- 0001/000b (server->client) Server Pause -/
def snachandler_0001_000b (cid : Nat) (_snac : Snac) : Sys Hret := do
  let _ ← tagFetch module (some cid) (lit "conn.screenname")
  pure .error

/-! ## Instant messages -/

/-- The clean-up of 0004/0006 frees the message if there is one. -/
def out_0004_0006 (gm : Option Msg) (ret : Hret) : Sys Hret := do
  (if gm.isSome then Gnr.msgFree gm else pure ())
  pure ret

/-- The clean-up of 0004/0007 frees the message. -/
def out_0004_0007 (gm : Option Msg) (ret : Hret) : Sys Hret := do
  Gnr.msgFree gm
  pure ret

/-- Create an external node unless the name has one. -/
def assumeExternal (name : CStr) : Sys Unit := do
  match ← Gnr.findnode name (some oscarservice) with
  | some _ => pure ()
  | none => do
      let _ ← Gnr.nodeOnline module name oscarservice flagNone metricMax

/-- 0004/0006 (client->server) Outgoing IM (ICBM) -/
def snachandler_0004_0006 (cid : Nat) (snac : Snac) : Sys Hret := do
  let c ← conn cid
  let some srcsn ← fetchScreenname c.endpoint | out_0004_0006 none .error
  let (some msgck, sb) ← mem (snac.payload.getraw msgcookielen) | out_0004_0006 none .error
  let (msgchan, sb) ← mem sb.get16
  let (destsnlen, sb) ← mem sb.get8
  let (some destsn, sb) ← mem (sb.getstr destsnlen) | out_0004_0006 none .error
  let (tlvh, _) ← mem (Tlv.parse sb)
  let some gm ← Gnr.msgNew | out_0004_0006 none .error
  let (true, gm) ← Gnr.msgTagAdd module gm (lit "gnrmsg.snacid") 'I' (.snacid snac.id)
    | out_0004_0006 (some gm) .error
  let (true, gm) ← Gnr.msgTagAdd module gm (lit "gnrmsg.oscarmsgcookie") 'V' (.oscarmsgcookie msgck)
    | out_0004_0006 (some gm) .error
  -- generic routing info
  let gm := { gm with
    srcname := some srcsn, srcnameservice := some oscarservice
    destname := some destsn, destnameservice := some oscarservice }
  if msgchan ≠ 0x0001 then out_0004_0006 (some gm) .forward
  else do
    let (gm, tlvh) ← parsechan1 gm tlvh
    let (_, gm) ← Gnr.msgTagAdd module gm (lit "gnrmsg.extraoscartlvs") 'V' (.extraoscartlvs tlvh)
    assumeExternal destsn
    let (_, gm) ← Gnr.msgRoute handlers module gm
    out_0004_0006 (some gm) .digested

/-- 0004/0007 (server->client) Incoming IM (ICBM) -/
def snachandler_0004_0007 (cid : Nat) (snac : Snac) : Sys Hret := do
  let some destsn ← fetchScreenname (some cid) | out_0004_0007 none .error
  let (some msgck, sb) ← mem (snac.payload.getraw msgcookielen) | out_0004_0007 none .error
  let (msgchan, sb) ← mem sb.get16
  let (some srcinfo, sb) ← mem (touserinfoExtract sb) | out_0004_0007 none .error
  let (tlvh, _) ← mem (Tlv.parse sb)
  let some gm ← Gnr.msgNew | out_0004_0007 none .error
  let (true, gm) ← Gnr.msgTagAdd module gm (lit "gnrmsg.snacid") 'I' (.snacid snac.id)
    | out_0004_0007 (some gm) .error
  let (true, gm) ← Gnr.msgTagAdd module gm (lit "gnrmsg.oscarmsgcookie") 'V' (.oscarmsgcookie msgck)
    | out_0004_0007 (some gm) .error
  -- generic routing info
  let gm := { gm with
    srcname := some srcinfo.sn, srcnameservice := some oscarservice
    destname := some destsn, destnameservice := some oscarservice }
  if msgchan ≠ 0x0001 then out_0004_0007 (some gm) .forward
  else do
    let (gm, tlvh) ← parsechan1 gm tlvh
    let (true, gm) ← Gnr.msgTagAdd module gm (lit "gnrmsg.srcuserinfo") 'V' (.srcuserinfo srcinfo)
      | out_0004_0007 (some gm) .error
    let (_, gm) ← Gnr.msgTagAdd module gm (lit "gnrmsg.extraoscartlvs") 'V' (.extraoscartlvs tlvh)
    assumeExternal srcinfo.sn
    let (_, gm) ← Gnr.msgRoute handlers module gm
    out_0004_0007 (some gm) .digested

/-! ## Logging in -/

def authSendfail (cid : Nat) (sn : Option CStr) (code : Nat) (errurl : Option CStr) : Sys Bool := do
  match ← mem (newsnacsb 0x0017 0x0003 0x0000 0x00000000) with
  | none => pure false
  | some sb => do
      let (_, tlvh) ← mem (Tlv.addstring [] 0x0001 (sn.getD []))
      let (_, tlvh) ← mem (Tlv.addu16 tlvh 0x0008 code)
      let tlvh ← (match errurl with
        | some errurl => Prod.snd <$> mem (Tlv.addstring tlvh 0x0004 errurl)
        | none => pure tlvh)
      let (_, sb) ← mem (Tlv.render tlvh sb)
      sendsbufConsume (some cid) sb

def authSendauthinforequest (cid : Nat) (snacid : Nat) (tlvh : List Tlv) : Sys Bool := do
  match ← mem (newsnacsb 0x0017 0x0006 0x0000 snacid) with
  | none => pure false
  | some sb => do
      let (_, sb) ← mem (Tlv.render tlvh sb)
      sendsbufConsume (some cid) sb

/-- 0017/0003 (server->client) Authentication success. The cookie goes into the cache,
and the client gets the SNAC with our address in place of the server's. -/
def snachandler_0017_0003 (cid : Nat) (snac : Snac) : Sys Hret := do
  let c ← conn cid
  let (tlvh, _) ← mem (Tlv.parse snac.payload)
  -- login failure
  if (Tlv.get tlvh 0x0004).isSome || (Tlv.get tlvh 0x0008).isSome then pure .forward
  else do
    let sn ← mem (Tlv.getasstring tlvh 0x0001)
    let cktlv := Tlv.get tlvh 0x0006
    let (iptlv, tlvh) := Tlv.remove tlvh 0x0005
    let ip ← mem (Tlv.getasstring iptlv.toList 0x0005)
    match cktlv, ip, sn with
    | some cktlv, some ip, some sn => do
        let .true ← ckcacheAdd cktlv.value ip sn servtypeBos | pure .error
        let some las ← getlocaladdrstr c.endpoint | pure .error
        let (_, tlvh) ← mem (Tlv.addstring tlvh 0x0005 las)
        let some sb ← mem (newsnacsb 0x0017 0x0003 0x0000 snac.id) | pure .error
        let (_, sb) ← mem (Tlv.render tlvh sb)
        let .true ← sendsbufConsume c.endpoint sb | pure .error
        pure .digested
    | _, _, _ => pure .error

/-- The first part of a login that is accepted: connect to the authorizer, once. -/
def loginconnect (cid : Nat) (snac : Snac) (tlvh : List Tlv) : Sys Hret := do
  let c ← conn cid
  if c.endpoint.isSome then pure .digested
  else do
    let authorizer ← Prog.read fun w => w.config.authorizer
    let .true ← startconnect cid authorizer defaultport | pure .error
    modify cid fun c => { c with servtype := servtypeAuth }
    let c ← conn cid
    let e ← deref c.endpoint
    modify e.cid fun e => { e with servtype := servtypeAuth }
    let .true ← tagAdd module c.endpoint (lit "conn.logintlvs") 'V' (.tlvs tlvh) | pure .error
    let .true ← tagAdd module c.endpoint (lit "conn.loginsnacid") 'I' (.int snac.id) | pure .error
    pure .digested

/-- 0017/0006 (client->server) Request authentication data. -/
def snachandler_0017_0006 (cid : Nat) (snac : Snac) : Sys Hret := do
  let (tlvh, _) ← mem (Tlv.parse snac.payload)
  let sn ← mem (Tlv.getasstring tlvh 0x0001)
  if (sn.all fun sn => sn.length < 2 || sn.length > 96) then do
    -- invalid screen name
    let _ ← authSendfail cid sn 0x0004 (some (lit "http://www.aol.com?ccode=us&lang=en"))
    let _ ← sendconnclose cid 0 none
    schedulekill cid
    pure .digested
  else loginconnect cid snac tlvh

/-! ## Dispatch -/

def snachandlers : List (Nat × Nat × (Nat → Snac → Sys Hret)) :=
  [(0x0001, 0x0002, snachandler_0001_0002),
   (0x0001, 0x0003, snachandler_0001_0003),
   (0x0001, 0x000b, snachandler_0001_000b),
   (0x0004, 0x0006, snachandler_0004_0006),
   (0x0004, 0x0007, snachandler_0004_0007),
   (0x0017, 0x0003, snachandler_0017_0003),
   (0x0017, 0x0006, snachandler_0017_0006)]

def snachdrlen : Nat := 10

/-- The 16-bit word at an offset of a block. -/
def wordAt (buf : Block) (off : Nat) : Mem Nat := do
  let v ← buf.load off 2
  pure (byteGet16 (v.getD 0 0) (v.getD 1 0))

/-- What an extended header takes, its length word included. -/
def extended (exthdrlen : Nat) : Nat := if exthdrlen = 0 then 0 else 2 + exthdrlen

/-- The buffer over an extended header behind its length word. -/
def extinfoOf (buf : Block) (exthdrlen : Nat) : Option Sbuf :=
  if exthdrlen = 0 then none
  else some
    { autoresize := false, freebuf := false, block := buf.suffix (snachdrlen + 2)
      buflen := exthdrlen, pos := 0 }

/-- The head of the SNAC in `buf`. The payload's length is computed in 16 bits. -/
def parsesnac (buf : Block) (buflen : Nat) : Mem Snac := do
  let group ← wordAt buf 0
  let subtype ← wordAt buf 2
  let flags ← wordAt buf 4
  let v ← buf.load 6 4
  let id := byteGet32 (v.getD 0 0) (v.getD 1 0) (v.getD 2 0) (v.getD 3 0)
  let exthdrlen ← (if flags.testBit 15 then wordAt buf snachdrlen else pure 0)
  let skipped := snachdrlen + extended exthdrlen
  pure
    { group, subtype, flags, id
      extinfo := extinfoOf buf exthdrlen
      payload :=
        { autoresize := false, freebuf := false, block := buf.suffix skipped
          buflen := (buflen + 131072 - skipped) % 65536, pos := 0 } }

def handlesnac (cid : Nat) (buf : Block) (buflen : Nat) : Sys Hret :=
  if buflen < snachdrlen then pure .error
  else do
    let snac ← mem (parsesnac buf buflen)
    match snachandlers.find? fun i => i.1 = snac.group && i.2.1 = snac.subtype with
    | some (_, _, handler) => handler cid snac
    | none => pure .forward

end Timps.Oscar
