-- SUMMARY: User info blocks and the head of a SNAC: reading them off a buffer and rendering them.
import Timps.Oscar.Flap

/-!
# SNAC heads and user info
-/

namespace Timps.Oscar

open Naf (Mem Sbuf Tlv malloc)

structure Touserinfo where
  sn : CStr
  evillevel : Nat
  tlvh : List Tlv

/-- A parsed SNAC head with the buffer its body is read from. `extinfo` stays cleared
unless an extended header has a length. -/
structure Snac where
  group : Nat
  subtype : Nat
  flags : Nat
  id : Nat
  extinfo : Option Sbuf
  payload : Sbuf

/-- An automatic buffer with the head of a SNAC frame in it. -/
def newsnacsb (group subtype flags id : Nat) : Mem (Option Sbuf) := do
  match ← Sbuf.init none 0 with
  | none => pure none
  | some sb => do
      -- SNAC is always channel 0x02
      let sb ← puthdr sb 0x02
      let (_, sb) ← sb.put16 group
      let (_, sb) ← sb.put16 subtype
      let (_, sb) ← sb.put16 flags
      let (_, sb) ← sb.put32 id
      pure (some sb)

def touserinfoNew (sn : CStr) : Mem (Option Touserinfo) := do
  -- sizeof(struct touserinfo)
  match ← malloc 24 with
  | none => pure none
  | some _ =>
      match ← malloc (sn.length + 1) with
      | none => pure none
      | some _ => pure (some { sn, evillevel := 0, tlvh := [] })

def touserinfoExtract (sb : Sbuf) : Mem (Option Touserinfo × Sbuf) := do
  match ← malloc 24 with
  | none => pure (none, sb)
  | some _ => do
      let (snlen, sb) ← sb.get8
      match ← sb.getstr snlen with
      | (none, sb) => pure (none, sb)
      | (some sn, sb) => do
          let (evillevel, sb) ← sb.get16
          let (tlvcnt, sb) ← sb.get16
          let (tlvh, sb) ← Tlv.parseLimit sb tlvcnt
          pure (some { sn, evillevel, tlvh }, sb)

def touserinfoRender (toui : Touserinfo) (sb : Sbuf) : Mem Sbuf := do
  let (_, sb) ← sb.put8 (toui.sn.length % 256)
  let (_, sb) ← sb.putstr toui.sn
  let (_, sb) ← sb.put16 toui.evillevel
  let (_, sb) ← sb.put16 (Tlv.gettotallength toui.tlvh % 65536)
  let (_, sb) ← Tlv.render toui.tlvh sb
  pure sb

end Timps.Oscar
