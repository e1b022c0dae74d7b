-- SUMMARY: The connection core of naf: tags, read and write requests, connecting, closing, and the event handlers.
import Timps.World

/-!
# Connections

`src/naf/conn.c` over the world. A module takes part through the functions in its
`struct nafmodule`, given here as `Ops`. A connection that was closed is no longer in
the list; a pointer to it that is followed is a `Fault.staleConn`.
-/

namespace Timps.Naf.Conn

open Sys (mem conn deref modify observe)

/-- NAF_CONN_READY_READ, NAF_CONN_READY_WRITE, NAF_CONN_READY_CONNECTED -/
inductive Ready where
  | read
  | write
  | connected
  deriving DecidableEq

/-- The functions of a `struct nafmodule` that the connection core calls. A `false` is -1. -/
structure Ops where
  takeconn : Option (Nat → Sys Bool) := none
  connready : Option (Nat → Ready → Sys Bool) := none
  connkill : Option (Conn → Sys Unit) := none
  freetag : Option (Conn → Tag TagData → Sys Unit) := none

/-! ## Tags of connections -/

def tagAdd (mod : Nafmodule) (cid : Option Nat) (name : CStr) (type : Char) (data : TagData) :
    Sys Bool :=
  match cid with
  | none => pure false
  | some cid => do
      let c ← conn cid
      match ← mem (Tag.add c.taglist mod name type data) with
      | none => pure false
      | some taglist => do
          modify cid (.setTaglist taglist)
          pure true

def tagRemove (mod : Nafmodule) (cid : Option Nat) (name : CStr) : Sys (Option (Tag TagData)) :=
  match cid with
  | none => pure none
  | some cid => do
      let c ← conn cid
      match Tag.remove c.taglist mod name with
      | (none, _) => pure none
      | (some tag, taglist) => do
          modify cid (.setTaglist taglist)
          pure (some tag)

def tagFetch (mod : Nafmodule) (cid : Option Nat) (name : CStr) : Sys (Option (Tag TagData)) :=
  match cid with
  | none => pure none
  | some cid => do
      let c ← conn cid
      pure (Tag.fetch c.taglist mod name)

/-! ## Finding connections -/

def findLoop (matcher : Conn → Sys Bool) : List Conn → Sys (Option Conn)
  | [] => pure none
  | c :: conns => do
      if ← matcher c then pure (some c) else findLoop matcher conns

/-- The first connection for which the matcher answers nonzero. -/
def find (matcher : Conn → Sys Bool) : Sys (Option Conn) := do
  let conns ← Prog.read fun w => w.conns
  findLoop matcher conns

/-- A search that does not change the state looks at the connections in order. -/
theorem find_eq {w : World} (matcher : Conn → World → Bool) :
    find (fun c => Prog.read (matcher c)) w = .ok (w.conns.find? fun c => matcher c w, w) := by
  have hloop : ∀ conns, findLoop (fun c => Prog.read (matcher c)) conns w =
      .ok (conns.find? fun c => matcher c w, w) := by
    intro conns
    induction conns with
    | nil => rfl
    | cons c conns ih =>
        simp only [findLoop]
        rw [Prog.bind_of_ok (show Prog.read (matcher c) w = .ok (matcher c w, w) from rfl)]
        cases hm : matcher c w with
        | true => simp [hm, Prog.pure_run]
        | false => simpa [hm] using ih
  exact hloop w.conns

/-! ## Requests to libnbio -/

def schedulekill (cid : Nat) : Sys Unit := modify cid fun c => { c with closeonflush := true }

/-- `false` is -1: no buffer, no length, or libnbio refuses (it keeps one request). -/
def reqread (cid : Nat) (buf : Option Block) (buflen offset : Nat) : Sys Bool :=
  match buf with
  | none => pure false
  | some buf =>
      if buflen = 0 then pure false
      else do
        let c ← conn cid
        let refused ← Sys.readRefused
        if refused || c.rx.isSome then pure false
        else do
          modify cid (.setRx (some { buf, len := buflen, offset }))
          pure true

def reqwrite (cid : Nat) (buf : Bytes) : Sys Bool :=
  if buf = [] then pure false
  else do
    let now ← Sys.now
    modify cid fun c => { c with lasttxSoft := now }
    let refused ← Sys.writeRefused
    if refused then do
      observe (.refused cid)
      pure false
    else do
      observe (.queued cid buf)
      pure true

/-- The buffer and the length of the completed read request. -/
def takeread (cid : Nat) : Sys (Option (Block × Nat)) := do
  let c ← conn cid
  match c.rx with
  | none => pure none
  | some rx => do
      modify cid (.setRx none)
      pure (some (rx.buf, rx.len))

def takewrite (cid : Nat) : Sys Bool := do
  if ← Prog.read fun w => w.env.flushed then do
    let now ← Sys.now
    modify cid fun c => { c with lasttxHard := now }
    pure true
  else pure false

/-! ## Closing -/

section

variable (ops : Nafmodule → Ops)

/-- `closefdt`: the descriptor leaves the list of open ones. -/
def closefdt (cid : Nat) : Sys Unit := Prog.update fun w => w.close cid

/-- `naf_tag_freelist` on the tags of a connection that is being freed. -/
def tagFreelist (dead : Conn) : Sys Unit :=
  Prog.each (fun tag => match (ops tag.owner).freetag with
    | some freetag => freetag dead tag
    | none => pure ()) dead.taglist

/-- What `remchildren` and `remendpoint` do at one connection of the list: when the
pointer `get` is to `dead`, it is cleared and the connection goes too, unless its death
is prorogued. -/
def detach (free : Nat → Sys Unit) (dead : Nat) (get : Conn → Option Nat) (clear : Conn → Conn)
    (cid : Nat) : Sys Unit := do
  match ← Prog.read fun w => w.conn? cid with
  | none => pure ()
  | some c =>
      if get c = some dead then do
        modify cid clear
        if c.type.prorogueDeath || c.type.islocal then pure () else free cid
      else pure ()

def remchildren (free : Nat → Sys Unit) (dead : Nat) : Sys Unit := do
  let cids ← Prog.read fun w => w.conns.map (·.cid)
  Prog.each (detach free dead (·.parent) fun c => { c with parent := none }) cids

def remendpoint (free : Nat → Sys Unit) (dead : Nat) : Sys Unit := do
  let cids ← Prog.read fun w => w.conns.map (·.cid)
  Prog.each (detach free dead (·.endpoint) (.setEndpoint none)) cids

/-- `naf_conn_free` to a depth of `fuel` nested calls. -/
def freeWithin : Nat → Nat → Sys Unit
  | 0, _ => Prog.fault .diverge
  | fuel + 1, cid => do
      let dead ← conn cid
      closefdt cid
      (match dead.owner.bind fun owner => (ops owner).connkill with
       | some connkill => connkill dead
       | none => pure ())
      tagFreelist ops dead
      -- naf_childproc_cleanconn: no child process holds a connection here
      remchildren (freeWithin fuel) cid
      remendpoint (freeWithin fuel) cid

/-- Each nested call closes a connection more, so the calls nest no deeper than there
are open connections. -/
def free (cid : Nat) : Sys Unit := do
  let n ← Prog.read fun w => w.conns.length
  freeWithin ops n cid

end

/-! ## Opening -/

/-- The cleared structure with the fields that `naf_conn_addconn` sets. -/
def newconn (cid : Nat) (owner : Option Nafmodule) (type : ConnType) (sockname : Sockaddr) : Conn :=
  { cid, type, ready := false, endpoint := none, parent := none, servtype := 0, taglist := [],
    nextseqnum := 0, owner, lasttxSoft := 0, lasttxHard := 0,
    -- fillendpoints, unless the connection is still being made
    localendpoint := if type.connecting then ⟨lit "0.0.0.0", 0⟩ else sockname,
    closeonflush := false, rx := none }

/-- The new connection, if there is memory and libnbio takes the descriptor. -/
def addconn (owner : Option Nafmodule) (type : ConnType) : Sys (Option Nat) := do
  -- sizeof(struct nafconn)
  match ← mem (malloc 200) with
  | none => pure none
  | some _ => do
      let cid ← Prog.read fun w => w.nextcid
      Prog.update fun w => { w with nextcid := w.nextcid + 1, openconns := w.openconns + 1 }
      if ← Sys.addfdRefused then do
        Prog.update fun w => { w with openconns := w.openconns - 1 }
        pure none
      else do
        Prog.update fun w =>
          let c := newconn cid owner type w.env.sockname
          { w with conns := w.conns.take w.env.fdpos ++ c :: w.conns.drop w.env.fdpos }
        pure (some cid)

/-- `strtol` in base 10, which stops at the bounds of a `long`. -/
def strtol (s : CStr) : Int :=
  let digits (s : CStr) : Nat :=
    (s.takeWhile fun c => 48 ≤ c && c ≤ 57).foldl (fun n c => 10 * n + (c.toNat - 48)) 0
  let n : Int := match s.dropWhile fun c => c = 32 || (9 ≤ c && c ≤ 13) with
    | 45 :: s => -(digits s : Int)
    | 43 :: s => digits s
    | s => digits s
  max (-2 ^ 63) (min n (2 ^ 63 - 1))

/-- The `long` of `strtol` as an `int` -/
def atoi (s : CStr) : Int := int (strtol s)

/-- The host and the port of `host[:port]`. The copy in `newhost[256]` has no terminator
when the name fills it, and without a colon `strchr` runs off its end. -/
def splithost (host : CStr) (port : Nat) : Option (CStr × Nat) :=
  let newhost := host.take 256
  if 58 ∈ newhost then
    some (newhost.takeWhile (· ≠ 58), (atoi ((newhost.dropWhile (· ≠ 58)).drop 1) % 65536).toNat)
  else if host.length < 256 then some (newhost, port)
  else none

/-- What the owner's module and the raw mode have to do with a new connection.
`takeconn` is that function of a module, if it has one. -/
def takenew (takeconn : Nafmodule → Option (Nat → Sys Bool)) (c : Conn) (localconn endpoint : Nat) :
    Sys Unit := do
  (match c.owner.bind takeconn with
   | some takeconn => do
       let _ ← takeconn endpoint
   | none => pure ())
  if c.type.rawwaiting then do
    modify localconn fun c => { c with type := { c.type with rawwaiting := false } }
    modify endpoint fun c => { c with type := { c.type with rawwaiting := false } }
  else pure ()

/-- `naf_conn_startconnect` from the socket on. -/
def connectsocket (takeconn : Nafmodule → Option (Nat → Sys Bool)) (localconn : Nat)
    (inprogress : Bool) : Sys Bool := do
  let c ← conn localconn
  let endpoint ← addconn none
    { c.type with
      client := !c.type.client
      server := true
      connecting := c.type.connecting || inprogress }
  modify localconn (.setEndpoint endpoint)
  match endpoint with
  | none => pure false
  | some endpoint => do
      takenew takeconn c localconn endpoint
      modify endpoint (.setOwner c.owner)
      -- loop them together
      modify endpoint (.setEndpoint (some localconn))
      pure true

def startconnect (takeconn : Nafmodule → Option (Nat → Sys Bool)) (localconn : Nat) (host : CStr)
    (port : Nat) : Sys Bool :=
  match splithost host port with
  | none => Prog.fault .outOfBounds
  | some (newhost, port) => do
      match ← Prog.read fun w => w.env.connect newhost port with
      | .failed => pure false
      | .connected => connectsocket takeconn localconn false
      | .inprogress => connectsocket takeconn localconn true

/-! ## The local address -/

/-- The configured external address, or the local one; with the local port when the
address names none. -/
def getlocaladdrstr (cid : Option Nat) : Sys (Option CStr) := do
  let ip ← (match ← Prog.read fun w => w.config.extipaddr with
    | some (b :: ip) => pure (b :: ip)
    | _ => do
        let c ← deref cid
        pure c.localendpoint.ip)
  match ← mem (malloc (ip.length + 1)) with
  | none => pure none
  | some _ =>
      if 58 ∈ ip then pure (some ip)
      else do
        let c ← deref cid
        match ← mem (malloc (ip.length + 1 + 5 + 1)) with
        | none => pure (some ip)
        | some _ => pure (some (ip ++ [58] ++ decimal c.localendpoint.port))

/-! ## Event handlers -/

section

variable (ops : Nafmodule → Ops)

def connhandlerRead (cid : Nat) : Sys Unit := do
  let c ← conn cid
  if c.type.connecting then pure ()
  -- none of the modules modelled here detects protocols
  else if c.type.detecting then free ops cid
  else
    match c.owner.bind fun owner => (ops owner).connready with
    | some connready => do
        if ← connready cid .read then pure () else free ops cid
    | none => free ops cid

def finishconnect (cid : Nat) : Sys Bool := do
  -- a zero-length read shows whether the delayed connect succeeded
  if ← Prog.read fun w => w.env.connected then do
    let sockname ← Prog.read fun w => w.env.sockname
    modify cid fun c =>
      { c with type := { c.type with connecting := false }, localendpoint := sockname }
    let c ← conn cid
    match c.owner.bind fun owner => (ops owner).connready with
    | some connready => connready cid .connected
    | none => pure false
  else pure false

def connhandlerWrite (cid : Nat) : Sys Unit := do
  let c ← conn cid
  if c.type.connecting then do
    if ← finishconnect ops cid then pure () else free ops cid
  else
    match c.owner.bind fun owner => (ops owner).connready with
    | some connready => do
        if ← connready cid .write then pure () else free ops cid
    | none => free ops cid

def connhandlerEof (cid : Nat) : Sys Unit := free ops cid

/-- A connection accepted by a listener that belongs to `owner`. -/
def connhandlerIncomingconn (owner : Nafmodule) : Sys Unit := do
  match ← addconn none { client := true, detecting := true } with
  | none => pure ()
  | some cid => do
      modify cid (.setOwner (some owner))
      match (ops owner).takeconn with
      | some takeconn => do
          let _ ← takeconn cid
      | none => pure ()

end
end Timps.Naf.Conn
