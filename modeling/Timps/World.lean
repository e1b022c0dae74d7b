-- SUMMARY: The state of a running timps: connections, node table, cookie cache, configuration, and what the outside answers.
import Timps.Gnr.Node
import Timps.Naf.Tlv
import Mathlib.Data.List.Nodup
import Mathlib.Tactic.Simps.Basic

/-!
# The world

One state holds what the modules keep in their static variables: the connection
list, the node table, the cookie cache and the configuration. What the code asks of
the outside (memory, the clock, sockets, the event library) is answered by `Env`,
which each event brings along. `trace` records what an observer of the proxy sees;
no definition reads it.
-/

namespace Timps

open Naf (Block Heap Mem Nafmodule Tag Tlv)

/-- The flags of `conn->type` that the modelled code reads or writes. -/
structure ConnType where
  client : Bool := false
  server : Bool := false
  connecting : Bool := false
  detecting : Bool := false
  flap : Bool := false
  prorogueDeath : Bool := false
  islocal : Bool := false
  rawwaiting : Bool := false
  listener : Bool := false
  deriving DecidableEq

/-- The data of a connection's tags: types 'S', 'I' and 'V'. -/
inductive TagData where
  | string (s : CStr)
  | int (n : Nat)
  | tlvs (l : List Tlv)

/-- The read request of a connection: store the stream at `buf[offset..len)`. -/
structure Rx where
  buf : Block
  len : Nat
  offset : Nat

/-- An address as `inet_ntoa` and `ntohs` show it. -/
structure Sockaddr where
  ip : CStr
  port : Nat

structure Conn where
  /-- stands for the connection's address as well -/
  cid : Nat
  type : ConnType
  /-- TOSCAR_FLAG_READY of `conn->flags` -/
  ready : Bool
  endpoint : Option Nat
  parent : Option Nat
  servtype : Nat
  taglist : List (Tag TagData)
  nextseqnum : Nat
  owner : Option Nafmodule
  lasttxSoft : Int
  lasttxHard : Int
  localendpoint : Sockaddr
  closeonflush : Bool
  /-- libnbio keeps one read request for a connection -/
  rx : Option Rx

namespace Conn

@[simps cid endpoint taglist type nextseqnum rx]
def setEndpoint (endpoint : Option Nat) (c : Conn) : Conn := { c with endpoint }

@[simps cid endpoint taglist type nextseqnum rx]
def setOwner (owner : Option Nafmodule) (c : Conn) : Conn := { c with owner }

@[simps cid endpoint taglist type nextseqnum rx]
def setTaglist (taglist : List (Tag TagData)) (c : Conn) : Conn := { c with taglist }

@[simps cid endpoint taglist type nextseqnum rx]
def setRx (rx : Option Rx) (c : Conn) : Conn := { c with rx }

end Conn

/-- A cookie that an authorizer handed out. -/
structure Ckcache where
  ck : Bytes
  ip : CStr
  sn : CStr
  servtype : Nat
  addtime : Int

structure Config where
  extipaddr : Option CStr
  authorizer : CStr
  enableprorogueall : Bool
  keepaliveFrequency : Int
  txtimeout : Int

/-- What resolving and connecting to an address comes to. -/
inductive Connecting where
  | failed
  | connected
  | inprogress
  deriving DecidableEq

/-- The answers of the outside during one event. A list of refusals answers one
request after the other; what lies behind its end is granted. -/
structure Env where
  heap : Heap
  now : Int
  readRefused : List Bool
  writeRefused : List Bool
  addfdRefused : List Bool
  connect : CStr → Nat → Connecting
  /-- a delayed connect has succeeded -/
  connected : Bool
  /-- libnbio has a written buffer to give back -/
  flushed : Bool
  sockname : Sockaddr
  /-- where libnbio puts a new descriptor into its list -/
  fdpos : Nat
  /-- what `toscar_sncmp` finds when it has run over the end of two names -/
  overrun : CStr → CStr → Nat
  rand : List Nat

/-- The answers of a channel or SNAC handler. -/
inductive Hret where
  | error
  | forward
  | digested
  deriving DecidableEq

/-- What an observer sees of a run. -/
inductive Obs where
  /-- a complete frame is handed to the handler of its channel -/
  | handed (cid : Nat) (frame : Bytes)
  /-- the handler answered; the connection had that endpoint then -/
  | answered (cid : Nat) (frame : Bytes) (ret : Hret) (endpoint : Option Nat)
  /-- a write request was accepted -/
  | queued (cid : Nat) (frame : Bytes)
  /-- a write request was refused -/
  | refused (cid : Nat)

structure World where
  /-- the open connections, in the order of libnbio's list -/
  conns : List Conn
  nextcid : Nat
  openconns : Int
  gnr : Gnr
  ckcache : List Ckcache
  config : Config
  env : Env
  trace : List Obs

/-- Programs over the world. -/
abbrev Sys := Prog Fault World

namespace World

def conn? (w : World) (cid : Nat) : Option Conn := w.conns.find? fun c => c.cid = cid

/-- The world with `f` applied to one connection. -/
def modify (w : World) (cid : Nat) (f : Conn → Conn) : World :=
  { w with conns := w.conns.map fun c => if c.cid = cid then f c else c }

def setHeap (h : Heap) (w : World) : World := { w with env := { w.env with heap := h } }

def observe (o : Obs) (w : World) : World := { w with trace := w.trace ++ [o] }

/-- The world with one more connection, `pos` places down the list. -/
def insert (w : World) (pos : Nat) (c : Conn) : World :=
  { w with
    conns := w.conns.take pos ++ c :: w.conns.drop pos
    nextcid := c.cid + 1
    openconns := w.openconns + 1 }

/-- The world without a connection. -/
def close (w : World) (cid : Nat) : World :=
  { w with openconns := w.openconns - 1, conns := w.conns.filter fun c => c.cid ≠ cid }

/-- A world of nothing but connections, in an outside that connects nowhere. -/
def ofConns (conns : List Conn) : World where
  conns := conns
  nextcid := conns.length
  openconns := conns.length
  gnr := Gnr.hashInit
  ckcache := []
  config := ⟨none, [], false, 15, 30⟩
  env := ⟨.zeroed, 0, [], [], [], fun _ _ => .failed, false, false, ⟨[], 0⟩, 0, fun _ _ => 1, []⟩
  trace := []

/-! ## The open connections -/

variable {w : World} {c : Conn} {cid k : Nat}

theorem conn?_some (h : w.conn? cid = some c) : c ∈ w.conns ∧ c.cid = cid :=
  ⟨List.mem_of_find?_eq_some h, by simpa using List.find?_some h⟩

theorem conn?_eq_none : w.conn? cid = none ↔ ∀ c ∈ w.conns, c.cid ≠ cid := by
  simp [conn?]

/-- Only the connection that is changed is another one afterwards. -/
theorem conn?_modify {f : Conn → Conn} (hf : ∀ c, (f c).cid = c.cid) :
    (w.modify cid f).conn? k = if k = cid then (w.conn? k).map f else w.conn? k := by
  simp only [conn?, modify, List.find?_map]
  have hkey : ((fun c : Conn => decide (c.cid = k)) ∘ fun c => if c.cid = cid then f c else c) =
      fun c => decide (c.cid = k) := by
    funext c
    by_cases hc : c.cid = cid
    · simp [hc, hf]
    · simp [hc]
  rw [hkey]
  cases hfind : w.conns.find? fun c => decide (c.cid = k) with
  | none => simp
  | some c =>
      have hck : c.cid = k := by simpa using List.find?_some hfind
      by_cases hk : k = cid
      · simp [hck, hk]
      · simp [hck, hk]

/-- A new connection is found under its number, and all others as before. -/
theorem conn?_insert {pos : Nat} (hfresh : ∀ d ∈ w.conns, d.cid ≠ c.cid) :
    (w.insert pos c).conn? k = if k = c.cid then some c else w.conn? k := by
  simp only [conn?, insert, List.find?_append, List.find?_cons]
  by_cases hk : k = c.cid
  · subst hk
    have hnone : (w.conns.take pos).find? (fun d => decide (d.cid = c.cid)) = none := by
      simp only [List.find?_eq_none, decide_eq_true_eq]
      exact fun d hd => hfresh d (List.mem_of_mem_take hd)
    simp [hnone]
  · have hother : decide (c.cid = k) = false := by simpa using Ne.symm hk
    rw [if_neg hk, hother]
    simp only [← List.find?_append, List.take_append_drop]

/-- What is closed is not found, and all others are. -/
theorem conn?_close : (w.close cid).conn? k = if k = cid then none else w.conn? k := by
  simp only [conn?, close, List.find?_filter]
  by_cases hk : k = cid
  · subst hk
    simp
  · rw [if_neg hk]
    congr 1
    funext c
    by_cases hc : c.cid = k
    · simp [hc, hk]
    · simp [hc]

/-- The numbers of the open connections are distinct, and below the next one. -/
structure Wf (w : World) : Prop where
  nodup : (w.conns.map (·.cid)).Nodup
  lt : ∀ c ∈ w.conns, c.cid < w.nextcid

theorem Wf.conn? (wf : w.Wf) (hc : c ∈ w.conns) : w.conn? c.cid = some c := by
  have hsome : (w.conn? c.cid).isSome := by
    simp only [World.conn?, List.find?_isSome]
    exact ⟨c, hc, by simp⟩
  obtain ⟨d, hd⟩ := Option.isSome_iff_exists.1 hsome
  obtain ⟨hmem, hcid⟩ := conn?_some hd
  rw [hd, List.inj_on_of_nodup_map wf.nodup hmem hc hcid]

/-- Numbers are given in order, and so a connection has one that was given. -/
theorem Wf.lt_nextcid (wf : w.Wf) (h : w.conn? cid = some c) : cid < w.nextcid := by
  obtain ⟨hmem, rfl⟩ := conn?_some h
  exact wf.lt c hmem

theorem Wf.conn?_nextcid (wf : w.Wf) (hk : w.nextcid ≤ k) : w.conn? k = none := by
  rw [conn?_eq_none]
  intro c hc heq
  exact absurd (wf.lt c hc) (by omega)

/-- The number of a new connection is not in use. -/
theorem Wf.conn?_insert {pos : Nat} (wf : w.Wf) (hcid : c.cid = w.nextcid) :
    (w.insert pos c).conn? k = if k = w.nextcid then some c else w.conn? k := by
  have hfresh : ∀ d ∈ w.conns, d.cid ≠ c.cid := by
    intro d hd
    rw [hcid]
    exact Nat.ne_of_lt (wf.lt d hd)
  rw [World.conn?_insert hfresh, hcid]

theorem Wf.modify {f : Conn → Conn} (wf : w.Wf) (hf : ∀ c, (f c).cid = c.cid) :
    (w.modify cid f).Wf where
  nodup := by
    have hcids : (w.modify cid f).conns.map (·.cid) = w.conns.map (·.cid) := by
      simp only [World.modify, List.map_map]
      apply List.map_congr_left
      intro c _
      by_cases hc : c.cid = cid <;> simp [hc, hf]
    rw [hcids]
    exact wf.nodup
  lt := by
    intro c hc
    obtain ⟨d, hd, rfl⟩ := List.mem_map.1 hc
    have hlt := wf.lt d hd
    split
    · rw [hf]
      exact hlt
    · exact hlt

theorem Wf.insert {pos : Nat} (wf : w.Wf) (hcid : c.cid = w.nextcid) : (w.insert pos c).Wf where
  nodup := by
    have hsplit : (w.conns.take pos ++ w.conns.drop pos).map (·.cid) = w.conns.map (·.cid) := by
      rw [List.take_append_drop]
    have hfresh : c.cid ∉ w.conns.map (·.cid) := by
      rintro hmem
      obtain ⟨d, hd, heq⟩ := List.mem_map.1 hmem
      exact absurd (wf.lt d hd) (by omega)
    have hnodup := wf.nodup
    rw [← hsplit, List.map_append] at hnodup hfresh
    simp only [World.insert, List.map_append, List.map_cons]
    rw [List.perm_middle.nodup_iff]
    exact List.nodup_cons.2 ⟨hfresh, hnodup⟩
  lt := by
    intro d hd
    simp only [World.insert, List.mem_append, List.mem_cons] at hd ⊢
    rcases hd with hd | rfl | hd
    · exact (wf.lt d (List.mem_of_mem_take hd)).trans (by omega)
    · omega
    · exact (wf.lt d (List.mem_of_mem_drop hd)).trans (by omega)

theorem Wf.close (wf : w.Wf) : (w.close cid).Wf where
  nodup := wf.nodup.sublist (List.Sublist.map _ List.filter_sublist)
  lt := fun c hc => wf.lt c (List.mem_of_mem_filter hc)

end World

namespace Sys

/-- Run a program over memory. -/
def mem {α : Type} (x : Mem α) : Sys α := Prog.focus (fun w => w.env.heap) World.setHeap x

/-- Follow a pointer to a connection. -/
def conn (cid : Nat) : Sys Conn := fun w =>
  match w.conn? cid with
  | some c => .ok (c, w)
  | none => .error .staleConn

/-- Follow a pointer that may be null. -/
def deref : Option Nat → Sys Conn
  | none => Prog.fault .nullConn
  | some cid => conn cid

/-- Write to a connection. -/
def modify (cid : Nat) (f : Conn → Conn) : Sys Unit := do
  let _ ← conn cid
  Prog.update fun w => w.modify cid f

def observe (o : Obs) : Sys Unit := Prog.update (World.observe o)

def now : Sys Int := Prog.read fun w => w.env.now

/-- The next answer to a read request. -/
def readRefused : Sys Bool := fun w =>
  .ok (w.env.readRefused.head?.getD false,
    { w with env := { w.env with readRefused := w.env.readRefused.tail } })

/-- The next answer to a write request. -/
def writeRefused : Sys Bool := fun w =>
  .ok (w.env.writeRefused.head?.getD false,
    { w with env := { w.env with writeRefused := w.env.writeRefused.tail } })

/-- The next answer of `nbio_addfd`. -/
def addfdRefused : Sys Bool := fun w =>
  .ok (w.env.addfdRefused.head?.getD false,
    { w with env := { w.env with addfdRefused := w.env.addfdRefused.tail } })

/-- The next value of `rand`. -/
def rand : Sys Nat := fun w =>
  .ok (w.env.rand.head?.getD 0, { w with env := { w.env with rand := w.env.rand.tail } })

/-! ## Taking a run apart -/

section

variable {α : Type} {w : World} {cid : Nat}

/-- A call of the allocator changes the heap of the world and nothing else. -/
theorem mem_ok {x : Mem α} {r : α × World} :
    mem x w = .ok r ↔ ∃ a h, x w.env.heap = .ok (a, h) ∧ r = (a, w.setHeap h) := Prog.focus_ok

/-- A program that leaves the memory alone leaves the world alone. -/
theorem mem_of_steady {x : Mem α} {a : α} (hx : x w.env.heap = .ok (a, w.env.heap)) : mem x w = .ok (a, w) :=
  Prog.focus_of_ok hx

theorem mem_load_ok {b : Block} {off n : Nat} {r : Bytes × World} :
    mem (b.load off n) w = .ok r ↔ off + n ≤ b.size ∧ r = (b.bytes off n, w) := by
  simp only [mem_ok, Block.load_ok, Prod.mk.injEq]
  constructor
  · rintro ⟨_, _, ⟨hle, rfl, rfl⟩, rfl⟩
    exact ⟨hle, rfl⟩
  · rintro ⟨hle, rfl⟩
    exact ⟨_, _, ⟨hle, rfl, rfl⟩, rfl⟩

theorem mem_store_ok {b : Block} {off : Nat} {v : Bytes} {r : Block × World} :
    mem (b.store off v) w = .ok r ↔ off + v.length ≤ b.size ∧ r = (b.fill off v, w) := by
  simp only [mem_ok, Block.store_ok, Prod.mk.injEq]
  constructor
  · rintro ⟨_, _, ⟨hle, rfl, rfl⟩, rfl⟩
    exact ⟨hle, rfl⟩
  · rintro ⟨hle, rfl⟩
    exact ⟨_, _, ⟨hle, rfl, rfl⟩, rfl⟩

theorem conn_ok {c : Conn} {w' : World} :
    conn cid w = .ok (c, w') ↔ w.conn? cid = some c ∧ w' = w := by
  simp only [conn]
  cases hc : w.conn? cid with
  | none => simp
  | some d => simp [eq_comm]

/-- A pointer is followed where the connection still is. -/
theorem deref_ok {o : Option Nat} {c : Conn} {w' : World} :
    deref o w = .ok (c, w') ↔ ∃ cid, o = some cid ∧ w.conn? cid = some c ∧ w' = w := by
  cases o with
  | none => simp [deref]
  | some cid => simp [deref, conn_ok]

theorem modify_ok {f : Conn → Conn} {r : Unit × World} :
    modify cid f w = .ok r ↔ (∃ c, w.conn? cid = some c) ∧ r = ((), w.modify cid f) := by
  simp only [modify, Prog.bind_ok, conn_ok, Prog.update_ok]
  constructor
  · rintro ⟨c, _, ⟨hc, rfl⟩, rfl⟩
    exact ⟨⟨c, hc⟩, rfl⟩
  · rintro ⟨⟨c, hc⟩, rfl⟩
    exact ⟨c, w, ⟨hc, rfl⟩, rfl⟩

theorem writeRefused_ok {r : Bool × World} :
    writeRefused w = .ok r ↔ r = (w.env.writeRefused.head?.getD false,
      { w with env := { w.env with writeRefused := w.env.writeRefused.tail } }) := by
  simp [writeRefused, eq_comm]

end

end Sys
end Timps
