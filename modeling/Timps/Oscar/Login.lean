-- SUMMARY: Login redirection: what the client gets for the authorizer's answer, and when it is what the server sent with another address.
import Timps.Naf.Laying
import Timps.Naf.Torn
import Timps.Oscar.Cookies
import Timps.Oscar.Snacframes

/-!
# Login redirection

The authorizer's answer names the server to go to and the cookie to show there. The
handler keeps both, and sends the answer on with the address of the proxy at the end of
the list. It takes one address out of the list; and the list goes through the renderer,
which stops at a TLV that finds the buffer full.
-/

namespace Timps.Oscar

open Naf (Heap Sbuf Tlv cstring decimal lit)
open Naf.Conn (getlocaladdrstr)
open Naf.Sbuf (Shape)
open Naf.Tlv (encode fitting lasting taken)
open Prog (bind_ok bind_of_ok bind_congr_left pure_ok read_ok)
open Sys (mem)

/-! ## The proxy's own address -/

/-- The configured external address, or the local one of a connection. -/
def localip (config : Config) (c : Conn) : CStr :=
  match config.extipaddr with
  | some (b :: ip) => b :: ip
  | _ => c.localendpoint.ip

/-- An address with a port. -/
def withport (ip : CStr) (c : Conn) : CStr :=
  if 58 ∈ ip then ip else ip ++ [58] ++ decimal c.localendpoint.port

def localaddrstr (config : Config) (c : Conn) : CStr := withport (localip config c) c

variable {w w' : World} {e : Nat} {d : Conn}

/-- The part of `getlocaladdrstr` that prints the address. -/
def printaddr (cid : Option Nat) (ip : CStr) : Sys (Option CStr) := do
  match ← mem (Naf.malloc (ip.length + 1)) with
  | none => pure none
  | some _ =>
      if 58 ∈ ip then pure (some ip)
      else do
        let c ← Sys.deref cid
        match ← mem (Naf.malloc (ip.length + 1 + 5 + 1)) with
        | none => pure (some ip)
        | some _ => pure (some (ip ++ [58] ++ decimal c.localendpoint.port))

/-- The string that an address becomes once there is memory for it, and the memory behind it:
without memory for its port the address goes alone. -/
def addrstr (ip : CStr) (c : Conn) (h : Heap) : CStr × Heap :=
  if 58 ∈ ip then (ip, h)
  else if h.unwilling then (ip, h.next)
  else (withport ip c, h.next)

theorem length_addrstr_le (ip : CStr) (c : Conn) (h : Heap) :
    (addrstr ip c h).1.length ≤ (withport ip c).length := by
  unfold addrstr withport
  split
  · exact Nat.le_refl _
  · split
    · simp only [List.length_append]
      omega
    · exact Nat.le_refl _

theorem getlocaladdrstr_eq (hd : w.conn? e = some d) :
    getlocaladdrstr (some e) w = printaddr (some e) (localip w.config d) w := by
  have hderef : Sys.deref (some e) w = .ok (d, w) := Sys.deref_ok.2 ⟨e, rfl, hd, rfl⟩
  unfold getlocaladdrstr localip
  rw [bind_of_ok (read_ok.2 rfl)]
  rcases w.config.extipaddr with _ | (_ | ⟨b, ip⟩)
  · dsimp only
    rw [bind_assoc, bind_of_ok hderef, pure_bind]
    rfl
  · dsimp only
    rw [bind_assoc, bind_of_ok hderef, pure_bind]
    rfl
  · dsimp only
    rw [pure_bind]
    rfl

theorem printaddr_refused (o : Option Nat) (ip : CStr) (hun : w.env.heap.unwilling = true) :
    printaddr o ip w = .ok (none, w.setHeap w.env.heap.next) := by
  unfold printaddr
  rw [bind_of_ok (Sys.mem_ok.2 ⟨_, _, Naf.malloc_refused hun, rfl⟩)]
  rfl

theorem printaddr_granted (hd : w.conn? e = some d) (ip : CStr) (hun : w.env.heap.unwilling = false) :
    printaddr (some e) ip w =
      .ok (some (addrstr ip d w.env.heap.next).1, w.setHeap (addrstr ip d w.env.heap.next).2) := by
  unfold printaddr addrstr
  rw [bind_of_ok (Sys.mem_ok.2 ⟨_, _, Naf.malloc_granted hun, rfl⟩)]
  dsimp only
  by_cases hport : 58 ∈ ip
  · rw [if_pos hport, if_pos hport]
    rfl
  · have hderef : Sys.deref (some e) (w.setHeap w.env.heap.next) = .ok (d, w.setHeap w.env.heap.next) :=
      Sys.deref_ok.2 ⟨e, rfl, hd, rfl⟩
    rw [if_neg hport, if_neg hport, bind_of_ok hderef]
    cases hun' : w.env.heap.next.unwilling with
    | true =>
        rw [bind_of_ok (Sys.mem_ok.2 ⟨_, _, Naf.malloc_refused hun', rfl⟩)]
        rfl
    | false =>
        rw [bind_of_ok (Sys.mem_ok.2 ⟨_, _, Naf.malloc_granted hun', rfl⟩)]
        simp [withport, hport]
        rfl

/-! ## What is sent on -/

/-- The string that a TLV of the type carries, if there is one. -/
def stringof (tlvs : List Tlv) (type : Nat) : Option CStr :=
  (Tlv.get tlvs type).map fun tlv => cstring (tlv.value.getD [])

/-- The first TLV of a type, on its own, says what the chain says. -/
theorem stringof_removed (tlvs : List Tlv) (type : Nat) :
    stringof (Tlv.remove tlvs type).1.toList type = stringof tlvs type := by
  unfold stringof
  rw [Tlv.remove_fst]
  cases hget : Tlv.get tlvs type with
  | none => rfl
  | some tlv =>
      have htype : tlv.type = type := by simpa using List.find?_some hget
      have hself : Tlv.get (some tlv).toList type = some tlv := by simp [Tlv.get, htype]
      rw [hself]

/-- The chain that the handler renders, and the memory behind it: without its first address, and
with the proxy's if there is memory for that. -/
def sentchain (config : Config) (c : Conn) (tlvs : List Tlv) (h : Heap) : List Tlv × Heap :=
  Tlv.withstring (Tlv.remove tlvs 0x0005).2 0x0005 (addrstr (localip config c) c h).1
    (addrstr (localip config c) c h).2

/-- The numbers of the buffer that it is rendered into. -/
def sentshape (config : Config) (c : Conn) (tlvs : List Tlv) (h : Heap) : Shape :=
  { snacshape with refuse := (sentchain config c tlvs h).2.next.refuse }

/-- The frame that the client gets. -/
def redirection (config : Config) (c : Conn) (id : Nat) (tlvs : List Tlv) (h : Heap) : Bytes :=
  queuedsnac c.nextseqnum 0x0017 0x0003 0x0000 id
    (taken (sentchain config c tlvs h).1 (sentshape config c tlvs h))

/-- The proxy's own address, as `naf_tlv_addstring` puts it into a TLV. -/
def addrtlv (las : CStr) : Tlv := ⟨0x0005, las.length + 1, some (las ++ [0])⟩

theorem addrtlv_wf {las : CStr} (hlas : las.length + 1 < 65536) : (addrtlv las).Wf :=
  ⟨by simp [addrtlv], hlas, by simp [addrtlv], by simp [addrtlv]⟩

theorem length_encodeOne_addrtlv (las : CStr) : (Tlv.encodeOne (addrtlv las)).length = las.length + 5 := by
  rw [Tlv.length_encodeOne]
  simp [addrtlv]
  omega

/-- The chain has the address of the proxy at its end, or no address was added. -/
theorem sentchain_cases (config : Config) (c : Conn) (tlvs : List Tlv) (h : Heap) :
    ∃ las : CStr, las.length ≤ (localaddrstr config c).length ∧
      ((sentchain config c tlvs h).1 = (Tlv.remove tlvs 0x0005).2 ∨
        (sentchain config c tlvs h).1 = (Tlv.remove tlvs 0x0005).2 ++ [addrtlv las]) := by
  refine ⟨_, length_addrstr_le (localip config c) c h, ?_⟩
  unfold sentchain Tlv.withstring
  split
  · exact .inl rfl
  · split
    · exact .inl rfl
    · exact .inr rfl

variable {config : Config} {tlvs : List Tlv} {h : Heap}

theorem sentchain_wf (hwf : ∀ tlv ∈ tlvs, tlv.Wf) (hown : (localaddrstr config d).length + 1 < 65536) :
    ∀ tlv ∈ (sentchain config d tlvs h).1, tlv.Wf := by
  obtain ⟨las, hle, heq | heq⟩ := sentchain_cases config d tlvs h
  · rw [heq]
    exact fun tlv htlv => hwf tlv ((Tlv.remove_sublist _ _).subset htlv)
  · rw [heq]
    intro tlv htlv
    rcases List.mem_append.1 htlv with htlv | htlv
    · exact hwf tlv ((Tlv.remove_sublist _ _).subset htlv)
    · rw [List.mem_singleton.1 htlv]
      exact addrtlv_wf (by omega)

theorem length_sentchain (config : Config) (d : Conn) (tlvs : List Tlv) (h : Heap) :
    (encode (sentchain config d tlvs h).1).length ≤
      (encode tlvs).length + ((localaddrstr config d).length + 5) := by
  have hrest := Tlv.length_encode_sublist (Tlv.remove_sublist tlvs 0x0005)
  obtain ⟨las, hle, heq | heq⟩ := sentchain_cases config d tlvs h
  · rw [heq]
    omega
  · have hone := length_encodeOne_addrtlv las
    rw [heq, Tlv.encode_append, List.length_append, Tlv.encode_cons, Tlv.encode_nil, List.append_nil]
    omega

/-- But for the addresses the chain is the one that was parsed. -/
theorem filter_sentchain (config : Config) (d : Conn) (tlvs : List Tlv) (h : Heap) :
    (sentchain config d tlvs h).1.filter (fun tlv => decide (tlv.type ≠ 0x0005)) =
      tlvs.filter fun tlv => decide (tlv.type ≠ 0x0005) := by
  obtain ⟨las, -, heq | heq⟩ := sentchain_cases config d tlvs h
  · rw [heq, Tlv.filter_remove]
  · rw [heq, List.filter_append, Tlv.filter_remove]
    simp [addrtlv]

/-! ## The handler -/

section

variable {cid : Nat} {snac : Snac} {sb : Sbuf} {parsed : List Tlv} {ret : Hret}

/-- A string that was got took one allocation. -/
theorem getasstring_ok {type : Nat} {r : Option CStr} (hr : mem (Tlv.getasstring tlvs type) w = .ok (r, w')) :
    (∃ g, w' = w.setHeap g) ∧
      ∀ s, r = some s → stringof tlvs type = some s ∧ w' = w.setHeap w.env.heap.next := by
  obtain ⟨a, g, hget, heq⟩ := Sys.mem_ok.1 hr
  cases heq
  refine ⟨⟨g, rfl⟩, ?_⟩
  rintro s rfl
  unfold Tlv.getasstring at hget
  unfold stringof
  cases hfind : Tlv.get tlvs type with
  | none =>
      rw [hfind] at hget
      cases hget
  | some tlv =>
      rw [hfind] at hget
      dsimp only at hget
      cases hun : w.env.heap.unwilling with
      | true =>
          rw [bind_of_ok (Naf.malloc_refused hun)] at hget
          cases hget
      | false =>
          rw [bind_of_ok (Naf.malloc_granted hun)] at hget
          cases hget
          exact ⟨rfl, rfl⟩

/-- The cache with the cookie, the address and the name that the chain carries. -/
def cachedlogin (w : World) (ck : Bytes) (ip sn : CStr) : World :=
  { w with ckcache := { ck, ip, sn, servtype := 0, addtime := w.env.now } :: w.ckcache }

/-- What the rest of the handler does once the cookie is cached. -/
theorem redirect_ok (hd : w.conn? e = some d)
    (hroom : (encode tlvs).length + ((localaddrstr w.config d).length + 5) ≤ 15984)
    (hown : (localaddrstr w.config d).length + 1 < 65536)
    (hr : (do
      let some las ← getlocaladdrstr (some e) | pure .error
      let (_, tlvh) ← mem (Tlv.addstring (Tlv.remove tlvs 0x0005).2 0x0005 las)
      let some sb ← mem (newsnacsb 0x0017 0x0003 0x0000 snac.id) | pure .error
      let (_, sb) ← mem (Tlv.render tlvh sb)
      let .true ← sendsbufConsume (some e) sb | pure .error
      pure Hret.digested : Sys Hret) w = .ok (ret, w')) :
    ret = .error ∧ w'.ckcache = w.ckcache ∨
      ret = .digested ∧ ∃ env,
        w' = sent w e true (redirection w.config d snac.id tlvs w.env.heap.next) env := by
  have hlas := length_addrstr_le (localip w.config d) d w.env.heap.next
  have hlen := length_sentchain w.config d tlvs w.env.heap.next
  rw [bind_congr_left (getlocaladdrstr_eq hd)] at hr
  cases hun : w.env.heap.unwilling with
  | true =>
      rw [bind_of_ok (printaddr_refused _ _ hun)] at hr
      cases pure_ok.1 hr
      exact .inl ⟨rfl, rfl⟩
  | false =>
  rw [bind_of_ok (printaddr_granted hd _ hun)] at hr
  dsimp only at hr
  obtain ⟨b, hadd⟩ := Tlv.addstring_eq (Tlv.remove tlvs 0x0005).2 0x0005
    (show (addrstr (localip w.config d) d w.env.heap.next).1.length + 1 < 65536 from
      Nat.lt_of_le_of_lt (Nat.succ_le_succ hlas) hown) (addrstr (localip w.config d) d w.env.heap.next).2
  rw [bind_of_ok (Sys.mem_ok.2 ⟨_, _, hadd, rfl⟩)] at hr
  dsimp only at hr
  unfold redirection sentshape
  have hchain : Tlv.withstring (Tlv.remove tlvs 0x0005).2 0x0005
      (addrstr (localip w.config d) d w.env.heap.next).1 (addrstr (localip w.config d) d w.env.heap.next).2 =
      sentchain w.config d tlvs w.env.heap.next := rfl
  rw [hchain] at hr
  -- from here the chain is opaque: only what it is rendered to counts
  generalize sentchain w.config d tlvs w.env.heap.next = chain at *
  cases hun' : chain.2.unwilling with
  | true =>
      rw [bind_of_ok (Sys.mem_ok.2 ⟨_, _, newsnacsb_refused _ _ _ _ hun', rfl⟩)] at hr
      cases pure_ok.1 hr
      exact .inl ⟨rfl, rfl⟩
  | false =>
  obtain ⟨sb, hnew, ok, hwritten, hshape⟩ := newsnacsb_granted 0x0017 0x0003 0x0000 snac.id hun'
  rw [bind_of_ok (Sys.mem_ok.2 ⟨_, _, hnew, rfl⟩)] at hr
  dsimp only at hr
  have hpos : sb.pos = 16 := congrArg Shape.pos hshape
  obtain ⟨n, sb', h', hrender, happ⟩ :=
    Tlv.render_taken (h := chain.2.next) chain.1 ok (congrArg Shape.autoresize hshape) (by omega)
  rw [hshape] at happ
  rw [bind_of_ok (Sys.mem_ok.2 ⟨_, _, hrender, rfl⟩)] at hr
  dsimp only at hr
  obtain ⟨b, w₁, hsend, hr⟩ := bind_ok.1 hr
  have hwritten' := happ.written
  rw [hwritten] at hwritten'
  obtain ⟨d', env, hd', -, rfl⟩ := sendsbufConsume_snac happ.ok hwritten' hsend
  obtain rfl : d' = d := Option.some.inj (hd'.symm.trans hd)
  cases b with
  | true =>
      cases pure_ok.1 hr
      exact .inr ⟨rfl, env, rfl⟩
  | false =>
      cases pure_ok.1 hr
      exact .inl ⟨rfl, rfl⟩

/-- An answer of an authorizer on a connection whose endpoint is `d`, with the chain `tlvs`, as the
parser makes it with memory enough, which is no login failure. The address of the proxy is no longer
than a line of its configuration can be. -/
structure Answer (w : World) (cid e : Nat) (d : Conn) (snac : Snac) (tlvs : List Tlv) : Prop where
  endpoint : ∃ c, w.conn? cid = some c ∧ c.endpoint = some e
  client : w.conn? e = some d
  own : (localaddrstr w.config d).length ≤ 4096
  size : snac.payload.block.size ≤ maxsnaclen
  received : ∃ g sb g', g.refuse = [] ∧ Tlv.parse snac.payload g = .ok ((tlvs, sb), g')
  nofailure : Tlv.get tlvs 0x0004 = none ∧ Tlv.get tlvs 0x0008 = none

/-- What was parsed is a first part of what was received, and with the proxy's address there is
room for it. -/
theorem Answer.of_parse (answer : Answer w cid e d snac tlvs)
    (hparse : Tlv.parse snac.payload w.env.heap = .ok ((parsed, sb), h)) :
    parsed <+: tlvs ∧ (∀ tlv ∈ tlvs, tlv.Wf) ∧
      (encode parsed).length + ((localaddrstr w.config d).length + 5) ≤ 15984 := by
  obtain ⟨g, sb', g', hwilling, hreceived⟩ := answer.received
  have hless := Tlv.parse_less hparse hwilling hreceived
  have hsize := answer.size
  have hown := answer.own
  simp only [maxsnaclen] at hsize
  obtain ⟨-, hwf, hlen⟩ := Tlv.parse_made (by omega) hwilling hreceived
  have hle := Tlv.length_encode_sublist hless.sublist
  exact ⟨hless, hwf, by omega⟩

theorem get_extends {type : Nat} {tlv : Tlv} (hless : parsed <+: tlvs) (hget : Tlv.get parsed type = some tlv) :
    Tlv.get tlvs type = some tlv := by
  obtain ⟨lost, rfl⟩ := hless
  unfold Tlv.get at *
  rw [List.find?_append, hget]
  rfl

/-- A chain without a type has no first part with it. -/
theorem get_none_extends {type : Nat} (hless : parsed <+: tlvs) (hget : Tlv.get tlvs type = none) :
    Tlv.get parsed type = none := by
  cases hparsed : Tlv.get parsed type with
  | none => rfl
  | some tlv =>
      rw [get_extends hless hparsed] at hget
      cases hget

theorem stringof_extends {type : Nat} {s : CStr} (hless : parsed <+: tlvs) (hs : stringof parsed type = some s) :
    stringof tlvs type = some s := by
  obtain ⟨tlv, hget, rfl⟩ := Option.map_eq_some_iff.1 hs
  unfold stringof
  rw [get_extends hless hget]
  rfl

/-- The handler without a login failure in the chain: it fails with the cache and the trace as they
are, or it caches the cookie. Then it fails, or the redirection is queued to the client. -/
theorem snachandler_0017_0003_ok (answer : Answer w cid e d snac tlvs)
    (hparse : Tlv.parse snac.payload w.env.heap = .ok ((parsed, sb), h))
    (hr : snachandler_0017_0003 cid snac w = .ok (ret, w')) :
    ret = .error ∧ w'.ckcache = w.ckcache ∧ w'.trace = w.trace ∨
      ∃ ck ip sn, (Tlv.get parsed 0x0006).bind (·.value) = some ck ∧ stringof parsed 0x0005 = some ip ∧
        stringof parsed 0x0001 = some sn ∧
        (ret = .error ∧ w'.ckcache = (cachedlogin w ck ip sn).ckcache ∨
          ret = .digested ∧ ∃ env,
            w' = sent (cachedlogin w ck ip sn) e true (redirection w.config d snac.id parsed (h.later 7)) env) := by
  obtain ⟨hless, -, hroom⟩ := answer.of_parse hparse
  obtain ⟨⟨c, hc, he⟩, hd, hown, -, -, hfailure⟩ := answer
  have hshort := Nat.lt_of_le_of_lt (Nat.succ_le_succ hown) (show 4096 + 1 < 65536 by decide)
  unfold snachandler_0017_0003 at hr
  rw [bind_of_ok (Sys.conn_ok.2 ⟨hc, rfl⟩), bind_of_ok (Sys.mem_ok.2 ⟨_, _, hparse, rfl⟩)] at hr
  simp only [get_none_extends hless hfailure.1, get_none_extends hless hfailure.2, Option.isSome_none,
    Bool.or_self, Bool.false_eq_true, if_false] at hr
  obtain ⟨sn, w₁, hgotsn, hr⟩ := bind_ok.1 hr
  obtain ⟨⟨g₁, hw₁⟩, hsn⟩ := getasstring_ok hgotsn
  obtain ⟨ip, w₂, hgotip, hr⟩ := bind_ok.1 hr
  obtain ⟨⟨g₂, hw₂⟩, hip⟩ := getasstring_ok hgotip
  rw [stringof_removed] at hip
  have hkept : w₂.ckcache = w.ckcache ∧ w₂.trace = w.trace := by
    rw [hw₂, hw₁]
    exact ⟨rfl, rfl⟩
  cases hcktlv : Tlv.get parsed 0x0006 with
  | none =>
      rw [hcktlv] at hr
      cases pure_ok.1 hr
      exact .inl ⟨rfl, hkept⟩
  | some cktlv =>
  cases ip with
  | none =>
      rw [hcktlv] at hr
      cases pure_ok.1 hr
      exact .inl ⟨rfl, hkept⟩
  | some ip =>
  cases sn with
  | none =>
      rw [hcktlv] at hr
      cases pure_ok.1 hr
      exact .inl ⟨rfl, hkept⟩
  | some sn =>
  rw [hcktlv] at hr
  dsimp only at hr
  -- two strings were got, which took two allocations
  obtain ⟨hname, rfl⟩ := hsn sn rfl
  obtain ⟨haddress, rfl⟩ := hip ip rfl
  obtain ⟨added, w₃, hadd, hr⟩ := bind_ok.1 hr
  rcases ckcacheAdd_ok hadd with ⟨rfl, g₃, rfl⟩ | ⟨rfl, ck, hck, -, rfl⟩
  · cases pure_ok.1 hr
    exact .inl ⟨rfl, rfl, rfl⟩
  · refine .inr ⟨ck, ip, sn, hck, haddress, hname, ?_⟩
    have hlater : h.next.next.next.next.next.next.next = h.later 7 := by
      simp only [Heap.next, Heap.later, ← List.drop_one, List.drop_drop]
    rw [he] at hr
    rcases redirect_ok (w := cachedlogin (w.setHeap h.next.next.next.next.next.next) ck ip sn)
      hd hroom hshort hr with ⟨hret, hcache⟩ | ⟨hret, env, hw'⟩
    · exact .inl ⟨hret, hcache⟩
    · refine .inr ⟨hret, env, ?_⟩
      rw [← hlater, hw']
      rfl

/-! ## Redirection -/

/-- The chain is the received one with another address: each address in it is the proxy's, there is
one, and the other TLVs are the received ones. -/
structure Readdressed (own : CStr) (tlvs tlvs' : List Tlv) : Prop where
  addresses : ∀ tlv ∈ tlvs', tlv.type = 0x0005 → tlv.value = some (own ++ [0])
  address : ∃ tlv ∈ tlvs', tlv.type = 0x0005
  others : tlvs'.filter (fun tlv => tlv.type ≠ 0x0005) = tlvs.filter fun tlv => tlv.type ≠ 0x0005

/-- The frame is the answer as the client is to get it: with the same id and another address. -/
def Redirects (own : CStr) (tlvs : List Tlv) (id : Nat) (frame : Bytes) : Prop :=
  ∃ seq tlvs', (∀ tlv ∈ tlvs', tlv.Wf) ∧
    frame = queuedsnac seq 0x0017 0x0003 0x0000 id (encode tlvs') ∧ Readdressed own tlvs tlvs'

/-- The cache maps the cookie of the chain to its address and its name. -/
def Remembers (cache : List Ckcache) (tlvs : List Tlv) : Prop :=
  ∃ ck ckc, (Tlv.get tlvs 0x0006).bind (·.value) = some ck ∧ ckcacheFind cache ck = some ckc ∧
    stringof tlvs 0x0005 = some ckc.ip ∧ stringof tlvs 0x0001 = some ckc.sn

/-- No growth of the buffer is refused. What was not parsed for want of memory is an address; so is
what finds the buffer full; and in front of that there is an address, and none but the proxy's. -/
structure Intact (own : CStr) (tlvs parsed chain : List Tlv) (s : Shape) : Prop where
  lasting : lasting chain s = true
  parsed : ∀ tlv ∈ tlvs.drop parsed.length, tlv.type = 0x0005
  rendered : ∀ tlv ∈ chain.drop (fitting chain s).length, tlv.type = 0x0005
  addresses : ∀ tlv ∈ fitting chain s, tlv.type = 0x0005 → tlv.value = some (own ++ [0])
  address : ∃ tlv ∈ fitting chain s, tlv.type = 0x0005

/-- Growth of the buffer is refused, there is a second address, and what the buffer takes all the
same, without the pieces that are lost, happens to be the encoding of a chain with another address. -/
def Coincides (own : CStr) (tlvs parsed chain : List Tlv) (s : Shape) : Prop :=
  lasting chain s = false ∧ (∃ tlv ∈ (Tlv.remove parsed 0x0005).2, tlv.type = 0x0005) ∧
    ∃ tlvs', (∀ tlv ∈ tlvs', tlv.Wf) ∧ taken chain s = encode tlvs' ∧ Readdressed own tlvs tlvs'

/-- When what is received as `tlvs` and parsed as `parsed`, with the memory `h` behind it, can be
sent on as it should. Seven allocations are behind the parser: the name and the address, the four of
the cache, and the first of the proxy's address. -/
def Redirectable (config : Config) (d : Conn) (tlvs parsed : List Tlv) (h : Heap) : Prop :=
  Intact (localaddrstr config d) tlvs parsed (sentchain config d parsed (h.later 7)).1
      (sentshape config d parsed (h.later 7)) ∨
    Coincides (localaddrstr config d) tlvs parsed (sentchain config d parsed (h.later 7)).1
      (sentshape config d parsed (h.later 7))

/-- What is left out of a chain is addresses if and only if the other TLVs are still there. -/
theorem filter_fitting_eq {chain fit : List Tlv} (hless : parsed <+: tlvs) (hfit : fit <+: chain)
    (hchain : chain.filter (fun tlv => decide (tlv.type ≠ 0x0005)) =
      parsed.filter fun tlv => decide (tlv.type ≠ 0x0005)) :
    fit.filter (fun tlv => decide (tlv.type ≠ 0x0005)) = tlvs.filter (fun tlv => decide (tlv.type ≠ 0x0005)) ↔
      (∀ tlv ∈ tlvs.drop parsed.length, tlv.type = 0x0005) ∧
        ∀ tlv ∈ chain.drop fit.length, tlv.type = 0x0005 := by
  have hlost := congrArg (List.filter fun tlv => decide (tlv.type ≠ 0x0005)) (List.prefix_iff_eq_append.1 hless)
  have hdropped := congrArg (List.filter fun tlv => decide (tlv.type ≠ 0x0005)) (List.prefix_iff_eq_append.1 hfit)
  rw [List.filter_append] at hlost hdropped
  rw [← hlost, ← hchain, ← hdropped, List.append_assoc, List.self_eq_append_right, List.append_eq_nil_iff,
    List.filter_eq_nil_iff, List.filter_eq_nil_iff]
  simp only [ne_eq, decide_not, Bool.not_eq_true', decide_eq_false_iff_not, not_not]
  exact and_comm

/-- A chain of which a piece is lost carries another address only if a second one was received. -/
theorem address_of_lost {own las : CStr} {rest chain tlvs' : List Tlv} {s : Shape}
    (hrefused : lasting chain s = false) (hchain : chain = rest ∨ chain = rest ++ [addrtlv las])
    (hle : las.length ≤ own.length) (htaken : taken chain s = encode tlvs')
    (hreaddressed : Readdressed own tlvs tlvs')
    (hless : rest.filter (fun tlv => decide (tlv.type ≠ 0x0005)) <+:
      tlvs.filter fun tlv => decide (tlv.type ≠ 0x0005)) : ∃ tlv ∈ rest, tlv.type = 0x0005 := by
  by_contra hnone
  have hothers : rest.filter (fun tlv => decide (tlv.type ≠ 0x0005)) = rest :=
    List.filter_eq_self.2 fun tlv htlv => by simpa using fun htype => hnone ⟨tlv, htlv, htype⟩
  have hshort : (encode tlvs').length < (encode rest).length + (own.length + 5) := by
    have hlost := Tlv.length_taken_lt hrefused
    have hone := length_encodeOne_addrtlv las
    rw [htaken] at hlost
    rcases hchain with rfl | rfl
    · omega
    · rw [Tlv.encode_append, List.length_append, Tlv.encode_cons, Tlv.encode_nil, List.append_nil] at hlost
      omega
  rw [hothers, ← hreaddressed.others] at hless
  have hrest := Tlv.length_encode_sublist hless.sublist
  -- beside the other TLVs there is the address
  obtain ⟨tlv, htlv, htype⟩ := hreaddressed.address
  have hvalue := hreaddressed.addresses tlv htlv htype
  have hone : (Tlv.encodeOne tlv).length = own.length + 5 := by
    rw [Tlv.length_encodeOne, hvalue]
    simp
    omega
  have hperm := (List.filter_append_perm (fun tlv : Tlv => decide (tlv.type ≠ 0x0005)) tlvs').flatMap_right
    Tlv.encodeOne
  have hsplit : (encode (tlvs'.filter fun tlv => decide (tlv.type ≠ 0x0005))).length +
      (encode (tlvs'.filter fun tlv => !decide (tlv.type ≠ 0x0005))).length = (encode tlvs').length := by
    rw [← List.length_append, ← Tlv.encode_append]
    exact hperm.length_eq
  have hmem : tlv ∈ tlvs'.filter fun tlv => !decide (tlv.type ≠ 0x0005) :=
    List.mem_filter.2 ⟨htlv, by simp [htype]⟩
  have hthere := Tlv.length_encode_sublist (List.singleton_sublist.2 hmem)
  rw [Tlv.encode_cons, Tlv.encode_nil, List.append_nil] at hthere
  omega

/-- The frame is right just when the list was redirectable. -/
theorem redirects_redirection (id : Nat) (hless : parsed <+: tlvs) (hwf : ∀ tlv ∈ tlvs, tlv.Wf)
    (hown : (localaddrstr config d).length + 1 < 65536) :
    Redirects (localaddrstr config d) tlvs id (redirection config d id parsed (h.later 7)) ↔
      Redirectable config d tlvs parsed h := by
  have hchainwf := sentchain_wf (d := d) (h := h.later 7) (fun tlv htlv => hwf tlv (hless.subset htlv)) hown
  have hchain := filter_sentchain config d parsed (h.later 7)
  obtain ⟨las, hlas, hcases⟩ := sentchain_cases config d parsed (h.later 7)
  unfold Redirectable redirection
  generalize (sentchain config d parsed (h.later 7)).1 = chain at *
  generalize sentshape config d parsed (h.later 7) = s
  -- the frame is compared by what is behind the head of the SNAC
  have hbody : Redirects (localaddrstr config d) tlvs id
      (queuedsnac d.nextseqnum 0x0017 0x0003 0x0000 id (taken chain s)) ↔
      ∃ tlvs', (∀ tlv ∈ tlvs', tlv.Wf) ∧ taken chain s = encode tlvs' ∧
        Readdressed (localaddrstr config d) tlvs tlvs' := by
    constructor
    · rintro ⟨seq, tlvs', hwf', hframe, hreaddressed⟩
      have htaken := congrArg (List.drop 16) hframe
      rw [drop_queuedsnac, drop_queuedsnac] at htaken
      exact ⟨tlvs', hwf', htaken, hreaddressed⟩
    · rintro ⟨tlvs', hwf', htaken, hreaddressed⟩
      exact ⟨_, tlvs', hwf', by rw [htaken], hreaddressed⟩
  rw [hbody]
  cases hlasting : lasting chain s with
  | false =>
      constructor
      · rintro ⟨tlvs', hwf', htaken, hreaddressed⟩
        have hothers : (Tlv.remove parsed 0x0005).2.filter (fun tlv => decide (tlv.type ≠ 0x0005)) <+:
            tlvs.filter fun tlv => decide (tlv.type ≠ 0x0005) := by
          rw [Tlv.filter_remove]
          exact hless.filter _
        have hsecond := address_of_lost hlasting hcases hlas htaken hreaddressed hothers
        exact .inr ⟨hlasting, hsecond, tlvs', hwf', htaken, hreaddressed⟩
      · rintro (hintact | ⟨-, -, hcoincides⟩)
        · exact absurd hintact.lasting (by simp [hlasting])
        · exact hcoincides
  | true =>
      have hbegins := Tlv.fitting_prefix chain s
      have hfilter := filter_fitting_eq hless hbegins hchain
      rw [Tlv.taken_of_lasting hlasting]
      constructor
      · rintro ⟨tlvs', hwf', htaken, haddresses, haddress, hothers⟩
        obtain rfl := Tlv.encode_injective (fun tlv htlv => hchainwf tlv (hbegins.subset htlv)) hwf' htaken
        obtain ⟨hlost, hdropped⟩ := hfilter.1 hothers
        exact .inl ⟨hlasting, hlost, hdropped, haddresses, haddress⟩
      · rintro (hintact | ⟨hfalse, -, -⟩)
        · exact ⟨_, fun tlv htlv => hchainwf tlv (hbegins.subset htlv), rfl, hintact.addresses, hintact.address,
            hfilter.2 ⟨hintact.parsed, hintact.rendered⟩⟩
        · rw [hlasting] at hfalse
          cases hfalse

theorem remembers_cachedlogin {ck : Bytes} {ip sn : CStr}
    (hck : (Tlv.get tlvs 0x0006).bind (·.value) = some ck) (hip : stringof tlvs 0x0005 = some ip)
    (hsn : stringof tlvs 0x0001 = some sn) : Remembers (cachedlogin w ck ip sn).ckcache tlvs :=
  ⟨ck, { ck, ip, sn, servtype := 0, addtime := w.env.now }, hck,
    by simp [cachedlogin, ckcacheFind], hip, hsn⟩

/-- The cookie that was parsed was received. -/
theorem cookie_extends {ck : Bytes} (hless : parsed <+: tlvs)
    (hck : (Tlv.get parsed 0x0006).bind (·.value) = some ck) :
    (Tlv.get tlvs 0x0006).bind (·.value) = some ck := by
  obtain ⟨tlv, hget, hvalue⟩ := Option.bind_eq_some_iff.1 hck
  rw [get_extends hless hget]
  exact hvalue

/-- A digested answer reaches the client as it should when its chain is redirectable. -/
theorem redirects_of_digested (answer : Answer w cid e d snac tlvs)
    (hparse : Tlv.parse snac.payload w.env.heap = .ok ((parsed, sb), h))
    (hr : snachandler_0017_0003 cid snac w = .ok (.digested, w')) :
    (∃ frame, w'.trace = w.trace ++ [.queued e frame] ∧
        Redirects (localaddrstr w.config d) tlvs snac.id frame ∧ Remembers w'.ckcache tlvs) ↔
      Redirectable w.config d tlvs parsed h := by
  obtain ⟨hless, hwf, -⟩ := answer.of_parse hparse
  have hown := answer.own
  rw [← redirects_redirection snac.id hless hwf (by omega)]
  rcases snachandler_0017_0003_ok answer hparse hr with
    ⟨hret, -⟩ | ⟨ck, ip, sn, hck, hip, hsn, ⟨hret, -⟩ | ⟨-, env, rfl⟩⟩
  · cases hret
  · cases hret
  constructor
  · rintro ⟨frame, htrace, hredirects, -⟩
    have hframe : frame = redirection w.config d snac.id parsed (h.later 7) := by
      simpa [sent, cachedlogin, World.modify, eq_comm] using htrace
    rwa [hframe] at hredirects
  · intro hredirects
    exact ⟨_, rfl, hredirects, remembers_cachedlogin (cookie_extends hless hck)
      (stringof_extends hless hip) (stringof_extends hless hsn)⟩

/-- When the handler fails with the cache as it was, nothing is queued. -/
theorem trace_of_error (answer : Answer w cid e d snac tlvs)
    (hparse : Tlv.parse snac.payload w.env.heap = .ok ((parsed, sb), h))
    (hr : snachandler_0017_0003 cid snac w = .ok (.error, w')) (hcache : w'.ckcache = w.ckcache) :
    w'.trace = w.trace := by
  rcases snachandler_0017_0003_ok answer hparse hr with
    ⟨-, -, htrace⟩ | ⟨ck, ip, sn, -, -, -, ⟨-, hcached⟩ | ⟨hret, -⟩⟩
  · exact htrace
  · -- the cookie was cached, so the cache is longer
    have hlonger := congrArg List.length (hcached.symm.trans hcache)
    simp [cachedlogin] at hlonger
  · cases hret

end

/-- A client (connection 0) that logs in. -/
def loginclient : Conn :=
  { Naf.Conn.newconn 0 (some module) { client := true, flap := true } ⟨lit "10.0.0.1", defaultport⟩ with
    endpoint := some 1, servtype := servtypeAuth }

/-- Its authorizer is connection 1. -/
def authorizing : World :=
  { started with
    conns := [loginclient,
      { Naf.Conn.newconn 1 (some module) { server := true, flap := true } ⟨lit "10.0.0.1", 4000⟩ with
        endpoint := some 0, servtype := servtypeAuth }]
    nextcid := 2
    openconns := 2 }

/-- A SNAC with these bytes behind its head. -/
def loginsnac (bs : Bytes) : Snac :=
  { group := 0x0017, subtype := 0x0003, flags := 0, id := 7, extinfo := none
    payload := ⟨false, false, ⟨bs.length, fun i => bs.getD i 0⟩, bs.length, 0⟩ }

/-- A name, addresses and a cookie. -/
def loginchain (addresses : List CStr) : List Tlv :=
  ⟨0x0001, 5, some (lit "alice")⟩ :: addresses.map (fun a => ⟨0x0005, a.length, some a⟩) ++
    [⟨0x0006, 4, some [1, 2, 3, 4]⟩]

/-- With memory enough the parser leaves the memory as it was. -/
theorem parse_of_map {addresses : List CStr}
    (hparse : ((Tlv.parse (loginsnac (encode (loginchain addresses))).payload Heap.zeroed).toOption.map
      fun r => r.1.1) = some (loginchain addresses)) :
    ∃ sb, Tlv.parse (loginsnac (encode (loginchain addresses))).payload Heap.zeroed =
      .ok ((loginchain addresses, sb), Heap.zeroed) := by
  cases hr : Tlv.parse (loginsnac (encode (loginchain addresses))).payload Heap.zeroed with
  | error e =>
      rw [hr] at hparse
      cases hparse
  | ok r =>
      rw [hr] at hparse
      obtain ⟨⟨tlvs, sb⟩, h⟩ := r
      cases Option.some.inj hparse
      obtain rfl := (Tlv.parse_plain _).steady rfl hr
      exact ⟨sb, rfl⟩

theorem answer_of_parse {addresses : List CStr} {sb : Sbuf}
    (hsize : (encode (loginchain addresses)).length ≤ maxsnaclen)
    (hparse : Tlv.parse (loginsnac (encode (loginchain addresses))).payload Heap.zeroed =
      .ok ((loginchain addresses, sb), Heap.zeroed))
    (hfailure : Tlv.get (loginchain addresses) 0x0004 = none ∧
      Tlv.get (loginchain addresses) 0x0008 = none) :
    Answer authorizing 1 0 loginclient
      (loginsnac (encode (loginchain addresses))) (loginchain addresses) where
  endpoint := ⟨_, rfl, rfl⟩
  client := rfl
  own := by decide
  size := hsize
  received := ⟨_, sb, _, rfl, hparse⟩
  nofailure := hfailure

theorem parse_one : ∃ sb, Tlv.parse (loginsnac (encode (loginchain [lit "10.0.0.2:5190"]))).payload Heap.zeroed =
    .ok ((loginchain [lit "10.0.0.2:5190"], sb), Heap.zeroed) := parse_of_map (by decide +kernel)

theorem parse_two : ∃ sb,
    Tlv.parse (loginsnac (encode (loginchain [lit "10.0.0.2", lit "10.0.0.3"]))).payload Heap.zeroed =
      .ok ((loginchain [lit "10.0.0.2", lit "10.0.0.3"], sb), Heap.zeroed) := parse_of_map (by decide +kernel)

theorem exists_of_digested (w : World) (cid : Nat) (snac : Snac)
    (hr : (snachandler_0017_0003 cid snac w).toOption.map (·.1) = some .digested) :
    ∃ w', snachandler_0017_0003 cid snac w = .ok (.digested, w') := by
  cases h : snachandler_0017_0003 cid snac w with
  | error e =>
      rw [h] at hr
      cases hr
  | ok r =>
      rw [h] at hr
      obtain ⟨ret, w'⟩ := r
      cases Option.some.inj hr
      exact ⟨w', rfl⟩

end Timps.Oscar
