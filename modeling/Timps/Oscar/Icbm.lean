-- SUMMARY: Instant messages: text extraction and rendering, sending ICBMs, and the OSCAR part of message routing.
import Timps.Gnr.Msg
import Timps.Oscar.Userinfo

/-!
# Instant messages

The text of a message comes out of a TLV of sections in several encodings and is put
into a growing string; the string is a heap block with the offset of its end. Routing
asks the OSCAR module whether a message is for a local user or goes out through one.
-/

namespace Timps.Oscar

open Naf (Block Mem Nafmodule Sbuf Tag Tlv cstring lit malloc)
open Gnr (HandlerInfo metricLocal)
open Sys (mem)

/-- What the tags of a message carry from the parser to the renderer. -/
inductive Hint where
  | snacid (id : Nat)
  | oscarmsgcookie (ck : Bytes)
  | oscarmsgtlv (tlv : Tlv)
  | extraoscartlvs (tlvs : List Tlv)
  | srcuserinfo (toui : Touserinfo)

abbrev Msg := Gnrmsg Hint

def msgcookielen : Nat := 8

/-! ## Message text -/

/-- `s` and `e`: a string under construction and the offset of its terminator. -/
abbrev Text := Option (Block × Nat)

/-- Room for `n` more characters; `none` is -1. -/
def extendstr (text : Text) (n : Nat) : Mem (Option (Block × Nat)) :=
  match text with
  | none => do
      match ← malloc (n + 1) with
      | none => pure none
      | some s => do
          let s ← s.store 0 [0]
          pure (some (s, 0))
  | some (s, e) => do
      match ← malloc (e + n + 1) with
      | none => pure none
      | some ns => do
          let old ← s.load 0 (e + 1)
          let ns ← ns.store 0 old
          pure (some (ns, e))

/-- The characters an encoded unit takes in the text. -/
def unitlen (c : Nat) : Nat := if c < 128 then 1 else 7

/-- The counting loop over `rounds` units. -/
def countunits : Nat → Nat → Sbuf → Mem (Nat × Sbuf)
  | 0, n, sb => pure (n, sb)
  | rounds + 1, n, sb => do
      let (c, sb) ← sb.get16
      countunits rounds (n + unitlen c) sb

def hexdigit (n : Nat) : UInt8 := if n < 10 then UInt8.ofNat (48 + n) else UInt8.ofNat (87 + n)

/-- `&#%04x;` -/
def entity (c : Nat) : Bytes :=
  [38, 35, hexdigit (c / 4096 % 16), hexdigit (c / 256 % 16), hexdigit (c / 16 % 16),
    hexdigit (c % 16), 59]

/-- The writing loop over `rounds` units. `snprintf` puts a terminator behind an entity. -/
def putunits : Nat → Block × Nat → Sbuf → Mem ((Block × Nat) × Sbuf)
  | 0, text, sb => pure (text, sb)
  | rounds + 1, (s, e), sb => do
      let (c, sb) ← sb.get16
      if c < 128 then do
        let s ← s.store e [UInt8.ofNat c]
        putunits rounds (s, e + 1) sb
      else do
        let s ← s.store e (entity c ++ [0])
        putunits rounds (s, e + 7) sb

/-- How a section leaves the loop: `goto out`, or on to the next with the text so far. -/
inductive Section where
  | out
  | next (text : Text) (unrepresentable : Nat) (sb : Sbuf)

/-- One section of the message block. -/
def extractsection (text : Text) (unrepresentable : Nat) (sb : Sbuf) : Mem Section := do
  -- 0101
  let (a, sb) ← sb.get8
  if a ≠ 0x01 then pure .out
  else do
    let (b, sb) ← sb.get8
    if b ≠ 0x01 then pure .out
    else do
      let (plen, sb) ← sb.get16
      if plen < 4 then pure (.next text unrepresentable sb)
      else do
        -- encoding flags
        let (f1, sb) ← sb.get16
        let (_, sb) ← sb.get16
        let plen := plen - 4
        if f1 = 0x0000 ∨ f1 = 0x0003 then do
          -- ASCII7, ISO-8859-1
          match ← extendstr text plen with
          | none => pure .out
          | some (s, e) => do
              let (v, sb) ← sb.getrawbuf plen
              -- a section that is cut off leaves these bytes as they are
              let s ← (match v with
                | some v => s.store e v
                | none => pure s)
              let s ← s.store (e + plen) [0]
              pure (.next (some (s, e + plen)) unrepresentable sb)
        else if f1 = 0x0002 ∧ plen % 2 = 0 then do
          -- 16bit UNICODE
          if sb.bytesremaining < plen then pure .out
          else do
            let start := sb.pos
            let (n, sb) ← countunits (plen / 2) 0 sb
            let (_, sb) ← sb.setpos start
            match ← extendstr text n with
            | none => pure .out
            | some text => do
                let ((s, e), sb) ← putunits (plen / 2) text sb
                let s ← s.store e [0]
                pure (.next (some (s, e)) unrepresentable sb)
        else do
          let (_, sb) ← sb.advance plen
          pure (.next text (unrepresentable + 1) sb)

def extractsections : Nat → Text → Nat → Sbuf → Mem (Option (Text × Nat))
  | 0, _, _, _ => Prog.fault .diverge
  | fuel + 1, text, unrepresentable, sb =>
      if sb.bytesremaining > 0 then do
        match ← extractsection text unrepresentable sb with
        | .out => pure none
        | .next text unrepresentable sb => extractsections fuel text unrepresentable sb
      else pure (some (text, unrepresentable))

/-- A C string in a block, as far as it is terminated. -/
def textstring (text : Block × Nat) : CStr := cstring (text.1.bytes 0 text.1.size)

/-- The return code and the text. A message TLV without a value makes `naf_sbuf_init`
allocate a buffer, whose contents are then read. A loop over a buffer of a fixed size
takes at most one round for each byte; the fuel is for buffers that grow. -/
def extractmsgtext (msgtlv : Tlv) : Mem (Int × Option CStr) := do
  match ← Sbuf.init (msgtlv.value.map fun v => (⟨v.length, fun i => v.getD i 0⟩ : Block)) msgtlv.length with
  | none => pure (-1, none)
  | some sb => do
      -- 0501
      let (a, sb) ← sb.get8
      if a ≠ 0x05 then pure (-1, none)
      else do
        let (b, sb) ← sb.get8
        if b ≠ 0x01 then pure (-1, none)
        else do
          -- features
          let (featlen, sb) ← sb.get16
          let (_, sb) ← sb.advance featlen
          match ← fun h => extractsections (2 ^ 24 + h.refuse.length) none 0 sb h with
          | none => pure (-1, none)
          | some (text, unrepresentable) =>
              pure (if unrepresentable = 0 then 0 else 1, text.map textstring)

def addoscarmsgblock (tlvh : List Tlv) (type : Nat) (msgtext : Option CStr) : Mem (List Tlv) :=
  match msgtext with
  | none => pure tlvh
  | some msgtext => do
      let buflen := 2 + 2 + 4 + 2 + 2 + 4 + msgtext.length
      match ← malloc buflen with
      | none => pure tlvh
      | some buf => do
          match ← Sbuf.init (some buf) (buflen % 65536) with
          | none => pure tlvh
          | some sb => do
              let (_, sb) ← sb.put8 0x05
              let (_, sb) ← sb.put8 0x01
              let (_, sb) ← sb.put16 0x0004
              let (_, sb) ← sb.put8 0x01
              let (_, sb) ← sb.put8 0x01
              let (_, sb) ← sb.put8 0x01
              let (_, sb) ← sb.put8 0x02
              let (_, sb) ← sb.put8 0x01
              let (_, sb) ← sb.put8 0x01
              let (_, sb) ← sb.put16 ((msgtext.length + 4) % 65536)
              -- assume ASCII encoding
              let (_, sb) ← sb.put16 0x0000
              let (_, sb) ← sb.put16 0x0000
              let (_, sb) ← sb.putstr msgtext
              let v ← sb.block.load 0 sb.pos
              Prod.snd <$> Tlv.addraw tlvh type v

/-! ## Channel 1 -/

/-- The message and the TLVs it leaves. `parsechan1` always answers 0. -/
def parsechan1 (gm : Msg) (tlvh : List Tlv) : Sys (Msg × List Tlv) := do
  let (gm, tlvh) ← (match Tlv.remove tlvh 0x0002 with
    | (none, tlvh) => pure (gm, tlvh)
    | (some tlv, tlvh) => do
        let (r, msgtext) ← mem (extractmsgtext tlv)
        let gm := { gm with msgtexttype := some (lit "text/html"), msgtext := if r = -1 then gm.msgtext else msgtext }
        if r ≠ 0 then do
          -- what the text could not express is passed along
          let (_, gm) ← Gnr.msgTagAdd module gm (lit "gnrmsg.oscarmsgtlv") 'V' (.oscarmsgtlv tlv)
          pure (gm, tlvh)
        else pure (gm, tlvh))
  let (ack, tlvh) := Tlv.remove tlvh 0x0003
  let gm := if ack.isSome then { gm with msgflags := { gm.msgflags with ackrequested := true } } else gm
  let (auto, tlvh) := Tlv.remove tlvh 0x0004
  let gm := if auto.isSome then { gm with msgflags := { gm.msgflags with autoresponse := true } } else gm
  pure (gm, tlvh)

def renderchan1 (gm : Msg) (sb : Sbuf) : Mem Sbuf := do
  let (_, sb) ← (match Gnr.msgTagFetch module gm (lit "gnrmsg.oscarmsgtlv") with
    | some ⟨_, _, _, .oscarmsgtlv msgtlv⟩ => Tlv.render [msgtlv] sb
    | _ => do
        let msgtlv ← addoscarmsgblock [] 0x0002 gm.msgtext
        Tlv.render msgtlv sb)
  let tlvh ← (if gm.msgflags.ackrequested then Prod.snd <$> Tlv.addnoval [] 0x0003 else pure [])
  let tlvh ← (if gm.msgflags.autoresponse then Prod.snd <$> Tlv.addnoval tlvh 0x0004 else pure tlvh)
  let (_, sb) ← Tlv.render tlvh sb
  match Gnr.msgTagFetch module gm (lit "gnrmsg.extraoscartlvs") with
  | some ⟨_, _, _, .extraoscartlvs extratlvs⟩ => do
      let (_, sb) ← Tlv.render extratlvs sb
      pure sb
  | _ => pure sb

/-! ## Sending -/

/-- Only IMs can be sent. -/
def icbmchan (gm : Msg) : Option Nat := if gm.type = .im then some 0x0001 else none

def snacidOf (gm : Msg) : Nat :=
  match Gnr.msgTagFetch module gm (lit "gnrmsg.snacid") with
  | some ⟨_, _, _, .snacid id⟩ => id
  | _ => 0x42424242

/-- Made-up digits: the putter of the loop, `n` rounds. -/
def putcookie : Nat → Sbuf → Sys Sbuf
  | 0, sb => pure sb
  | n + 1, sb => do
      let r ← Sys.rand
      let (_, sb) ← mem (sb.put8 (48 + r % 256 % 10))
      putcookie n sb

/-- The message's own cookie, or one made up. -/
def putmsgck (gm : Msg) (sb : Sbuf) : Sys Sbuf :=
  match Gnr.msgTagFetch module gm (lit "gnrmsg.oscarmsgcookie") with
  | some ⟨_, _, _, .oscarmsgcookie ck⟩ => Prod.snd <$> mem (sb.putraw ck)
  | _ => putcookie msgcookielen sb

/-- 0004/0006 to the server; `cid` is the connection of a local user. -/
def sendoutgoing (cid : Option Nat) (gm : Msg) : Sys Bool :=
  match icbmchan gm with
  | none => pure false
  | some chan => do
      -- unset server bit
      match ← mem (newsnacsb 0x0004 0x0006 0x0000 (snacidOf gm &&& 0x7fffffff)) with
      | none => pure false
      | some sb => do
          let sb ← putmsgck gm sb
          let (_, sb) ← mem (sb.put16 chan)
          let (_, sb) ← mem (sb.put8 ((gm.destname.getD []).length % 256))
          let (_, sb) ← mem (sb.putstr (gm.destname.getD []))
          let sb ← mem (renderchan1 gm sb)
          sendsbufConsume cid sb

/-- The user info the message came with, or one that only has the name. -/
def putsrcinfo (gm : Msg) (sb : Sbuf) : Mem (Option Sbuf) :=
  match Gnr.msgTagFetch module gm (lit "gnrmsg.srcuserinfo") with
  | some ⟨_, _, _, .srcuserinfo srcinfo⟩ => some <$> touserinfoRender srcinfo sb
  | _ => do
      match ← touserinfoNew (gm.srcname.getD []) with
      | none => pure none
      | some toui => some <$> touserinfoRender toui sb

/-- 0004/0007 to the client `cid`. The message loses its acknowledgement flag. -/
def sendincoming (cid : Option Nat) (gm : Msg) : Sys (Bool × Msg) :=
  match icbmchan gm with
  | none => pure (false, gm)
  | some chan => do
      -- server bit
      match ← mem (newsnacsb 0x0004 0x0007 0x0000 (snacidOf gm ||| 0x80000000)) with
      | none => pure (false, gm)
      | some sb => do
          let sb ← putmsgck gm sb
          let (_, sb) ← mem (sb.put16 chan)
          match ← mem (putsrcinfo gm sb) with
          | none => pure (false, gm)
          | some sb => do
              let gm := { gm with msgflags := { gm.msgflags with ackrequested := false } }
              let sb ← mem (renderchan1 gm sb)
              let sent ← sendsbufConsume cid sb
              pure (sent, gm)

/-! ## Routing -/

/-- A node that is local and one of ours. -/
def isours (gn : Gnr.Node) : Bool := gn.metric = metricLocal && gn.ownermod = module

/-- Take what is for a local user of ours, then what comes from one. -/
def msgrouting : Gnr.Handler Hint := fun gm gmhi =>
  match gmhi.srcnode, gmhi.destnode with
  | some srcnode, some destnode =>
      if isours destnode then
        pure (1, { gm with routeflags := { gm.routeflags with routedLocal := true } }, gmhi)
      else if isours srcnode then
        pure (1, { gm with routeflags := { gm.routeflags with routedForward := true } }, gmhi)
      else pure (0, gm, gmhi)
  | _, _ => pure (0, gm, gmhi)

/-- To the client side of the destination, or to the server side of the source. The
result of sending is ignored. The nodes were checked by `msgrouting`. -/
def gnroutputfunc : Gnr.Handler Hint := fun gm gmhi =>
  match gmhi.destnode with
  | none => Prog.fault .nullNode
  | some destnode =>
      if destnode.metric = metricLocal then do
        match ← findconn destnode.name with
        | none => pure (-1, gm, gmhi)
        | some c => do
            let (_, gm) ← sendincoming c.endpoint gm
            pure (0, gm, gmhi)
      else
        match gmhi.srcnode with
        | none => Prog.fault .nullNode
        | some srcnode =>
            if srcnode.metric = metricLocal then do
              match ← findconn srcnode.name with
              | none => pure (-1, gm, gmhi)
              | some c => do
                  let _ ← sendoutgoing (some c.cid) gm
                  pure (0, gm, gmhi)
            else pure (0, gm, gmhi)

/-- The gnr module itself counts hits; OSCAR routes and puts out. -/
def gnrmodule : Nafmodule := ⟨lit "gnr"⟩

def handlers : Gnr.Handlers Hint where
  prerouting := []
  routing := [(module, msgrouting)]
  postrouting := [(gnrmodule, Gnr.nodeMsgPostrouting)]
  outputfunc mod := if mod = module then some gnroutputfunc else none

end Timps.Oscar
