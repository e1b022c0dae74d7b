-- SUMMARY: Channel 1, and the reader that takes FLAP frames off a connection and hands them to their handlers.
import Timps.Oscar.Snac

/-!
# Reading FLAP frames

The reader asks for a header, then for the body the header announces, into the same
buffer. Which of the two a completed request was shows in its length only.
-/

namespace Timps.Oscar

open Naf (Block Mem Sbuf Tlv lit byteGet16)
open Naf.Conn (tagAdd tagRemove reqread takeread takewrite)
open Sys (mem conn deref modify observe)

/-! ## Channel 1 -/

/-- The server's hello: send on what the client logged in with. -/
def handlechan1Conncomplete (cid : Nat) : Sys Hret := do
  match ← tagRemove module (some cid) (lit "conn.logintlvs") with
  | some tag => do
      let idtag ← tagRemove module (some cid) (lit "conn.loginsnacid")
      let snacid := match idtag with
        | some ⟨_, _, _, .int snacid⟩ => snacid
        | _ => 0
      let _ ← sendflapversion cid
      let _ ← authSendauthinforequest cid snacid (match tag.data with | .tlvs wtlvs => wtlvs | _ => [])
      pure .digested
  | none =>
      match ← tagRemove module (some cid) (lit "conn.cookietlvs") with
      | some tag => do
          let _ ← sendcookie cid (match tag.data with | .tlvs wtlvs => wtlvs | _ => [])
          pure .digested
      | none => pure .digested

/-- XOR login is refused. -/
def handlechan1Xorlogin : Sys Hret := pure .error

/-- A client presents a cookie: connect it to the server the cookie is for. -/
def handlechan1Newconn (cid : Nat) (tlvh : List Tlv) : Sys Hret := do
  let some cktlv := Tlv.get tlvh 0x0006 | pure .error
  let some ckc ← ckcacheRem (cktlv.value.getD []) | pure .error
  let .true ← startconnect cid ckc.ip defaultport | pure .error
  modify cid fun c => { c with servtype := ckc.servtype }
  let c ← conn cid
  let e ← deref c.endpoint
  modify e.cid fun e => { e with servtype := ckc.servtype }
  -- the user information is attached to the server connection
  let .true ← tagAdd module c.endpoint (lit "conn.screenname") 'S' (.string ckc.sn) | pure .error
  -- need to resend these when connection completes
  let .true ← tagAdd module c.endpoint (lit "conn.cookietlvs") 'V' (.tlvs tlvh) | pure .error
  pure .digested

/-- FLAPHDR_LEN -/
def flaphdrLen (buf : Block) : Nat := byteGet16 (buf.byte 4) (buf.byte 5)

/-- The TLVs behind the version number, if that is the right one. -/
def chan1tlvs (buf : Block) (buflen : Nat) : Mem (Option (List Tlv)) := do
  let some sb ← Sbuf.init (some buf) buflen | pure none
  let (_, sb) ← sb.advance flaphdrlen
  let (flapver, sb) ← sb.get32
  if flapver ≠ 0x00000001 then pure none
  else do
    let (tlvh, _) ← Tlv.parse sb
    pure (some tlvh)

def handlechan1 (cid : Nat) (buf : Block) (buflen : Nat) : Sys Hret := do
  match ← mem (chan1tlvs buf buflen) with
  | none => pure .error
  | some tlvh => do
      let c ← conn cid
      if flaphdrLen buf = 4 then
        -- version only
        if c.type.server then handlechan1Conncomplete cid else pure .digested
      else if c.type.client && (Tlv.get tlvh 0x0001).isSome then handlechan1Xorlogin
      else if c.type.client && (Tlv.get tlvh 0x0006).isSome then handlechan1Newconn cid tlvh
      else pure .error

def handlechan4 : Sys Hret := pure .forward

def handlechan5 : Sys Hret := pure .forward

/-! ## The reader -/

/-- The magic, the channel and the length that the reader accepts. -/
def hdrok (buf : Block) : Bool :=
  buf.byte 0 = 42 &&
    (buf.byte 1 = 0x01 || buf.byte 1 = 0x02 || buf.byte 1 = 0x04 || buf.byte 1 = 0x05) &&
    flaphdrLen buf ≤ maxsnaclen

/-- The handler of the frame's channel. -/
def dispatch (cid : Nat) (buf : Block) (buflen : Nat) : Sys Hret :=
  if buf.byte 1 = 0x01 then handlechan1 cid buf buflen
  else if buf.byte 1 = 0x02 then handlesnac cid (buf.suffix flaphdrlen) (buflen - flaphdrlen)
  else if buf.byte 1 = 0x04 then handlechan4
  else handlechan5

/-- What becomes of a frame after its handler answered; then the next header. A frame
that was forwarded is gone with its buffer. -/
def conclude (cid : Nat) (buf : Block) (buflen : Nat) (hret : Hret) : Sys Bool := do
  let c ← conn cid
  observe (.answered cid (buf.bytes 0 buflen) hret c.endpoint)
  match hret with
  | .error => pure false
  | .forward =>
      if c.endpoint.isSome then do
        if ← sendraw c.endpoint buf buflen then reqflap cid none else pure false
      else reqflap cid (some buf)
  | .digested => reqflap cid (some buf)

/-- The header is read off the buffer without a check: each buffer has MAXFLAPLEN bytes. -/
def handleread (cid : Nat) : Sys Bool := do
  match ← takeread cid with
  | none => pure false
  | some (buf, buflen) => do
      let _ ← mem (buf.load 0 flaphdrlen)
      if hdrok buf = false then pure false
      else if buflen ≠ flaphdrLen buf + flaphdrlen then
        -- continue later
        reqread cid (some buf) (buflen + flaphdrLen buf) buflen
      else do
        observe (.handed cid (buf.bytes 0 buflen))
        let hret ← dispatch cid buf buflen
        conclude cid buf buflen hret

def handlewrite (cid : Nat) : Sys Bool := takewrite cid

end Timps.Oscar
