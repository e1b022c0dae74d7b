-- SUMMARY: Sending an IPv4 datagram: route, defaults, header and checksum, and what the input side makes of the bytes.
import Timps.Ipv4.Input
import Timps.Naf.Fields

/-!
# IPv4 output

A packet goes to the interface of its route in a buffer of its own: a header of twenty bytes, in
which the fields that the packet leaves unset have their defaults, the data behind it, and the
checksum patched in at last.
-/

namespace Timps.Ipv4

open Naf (Block Heap Mem Sbuf byteGet16 byteGet32 bytePut8 bytePut16 bytePut32)
open Prog (bind_of_ok)

/-! ## The code -/

/-- `struct nafnet_if`: the addresses of the interface, and the function that sends on it, which
answers 0 (`true` here) or not -/
structure Iface where
  ifAddrs : List Nat
  ifOutputf : Option (Sbuf → Bool)

/-- `struct nafnet_rt` -/
structure Rt where
  rtIf : Option Iface

/-- `naf_ipv4_getroute`, which does not look at the address. -/
def getroute (routetable : List Rt) : Option Rt := routetable.head?

/-- The fields that the packet leaves unset. -/
def fillfields (iff : Iface) (ip : Ip) : Mem Ip := do
  let saddr ←
    if ip.ipFields &&& 0x0020 = 0 then
      match iff.ifAddrs with
      | addr :: _ => pure addr
      -- `if_addrs` is null
      | [] => Prog.fault .outOfBounds
    else pure ip.ipSaddr
  pure { ip with
         ipSaddr := saddr
         ipTtl := if ip.ipFields &&& 0x0008 = 0 then 255 else ip.ipTtl
         ipTos := if ip.ipFields &&& 0x0001 = 0 then 0 else ip.ipTos
         ipId := if ip.ipFields &&& 0x0002 = 0 then 0 else ip.ipId
         ipFragoff := if ip.ipFlags &&& 0x2 ≠ 0 then 0x4000 else 0 }

/-- The datagram, in a buffer of the length that it takes. -/
def putip (ip : Ip) : Mem (Option Sbuf) := do
  let totlen := (20 + ip.ipData.buflen) % 65536
  match ← Sbuf.init none totlen with
  | none => pure none
  | some ips => do
      let (_, ips) ← ips.put8 (4 * 16 + 5)
      let (_, ips) ← ips.put8 ip.ipTos
      let (_, ips) ← ips.put16 totlen
      let (_, ips) ← ips.put16 ip.ipId
      let (_, ips) ← ips.put16 ip.ipFragoff
      let (_, ips) ← ips.put8 ip.ipTtl
      let (_, ips) ← ips.put8 ip.ipProtocol
      let ckpos := ips.pos
      let (_, ips) ← ips.put16 0
      let (_, ips) ← ips.put32 ip.ipSaddr
      let (_, ips) ← ips.put32 ip.ipDaddr
      let (_, data) ← ip.ipData.setpos 0
      let v ← data.block.load data.pos data.bytesremaining.toNat
      let (_, ips) ← ips.putraw v
      let (_, ips) ← ips.setpos ckpos
      let csum ← hdrcsum ips.block 20
      let (_, ips) ← ips.put16 csum
      let (_, ips) ← ips.setpos 0
      pure (some ips)

/-- `naf_ipv4_output`: whether the packet was taken, and what the interface was given. -/
def output (routetable : List Rt) (ipRt : Option Rt) (ip : Ip) : Mem (Bool × Option Sbuf) :=
  if ip.ipFields &&& 0x0040 = 0 ∨ ip.ipFields &&& 0x0010 = 0 then pure (false, none)
  else
    match (ipRt.or (getroute routetable)).bind Rt.rtIf with
    | none => pure (false, none)
    | some iff => do
        let ip ← fillfields iff ip
        match ← putip ip with
        | none => pure (false, none)
        | some ips =>
            match iff.ifOutputf with
            | none => pure (false, none)
            | some outputf => pure (outputf ips, some ips)

/-! ## The datagram -/

/-- The header in front of the checksum. -/
def hdrhead (ip : Ip) (totlen : Nat) : List Bytes :=
  [bytePut8 (4 * 16 + 5), bytePut8 ip.ipTos, bytePut16 totlen, bytePut16 ip.ipId, bytePut16 ip.ipFragoff,
    bytePut8 ip.ipTtl, bytePut8 ip.ipProtocol]

/-- The header behind the checksum. -/
def hdrtail (ip : Ip) : List Bytes := [bytePut32 ip.ipSaddr, bytePut32 ip.ipDaddr]

/-- The header with a given checksum. -/
def hdr (ip : Ip) (totlen sum : Nat) : Bytes :=
  (hdrhead ip totlen).flatten ++ (bytePut16 sum ++ (hdrtail ip).flatten)

theorem putip_pieces (ip : Ip) : putip ip = (do
    let totlen := (20 + ip.ipData.buflen) % 65536
    match ← Sbuf.init none totlen with
    | none => pure none
    | some ips => do
        let ips ← ips.putEach (hdrhead ip totlen)
        let ckpos := ips.pos
        let ips ← ips.putEach (bytePut16 0 :: hdrtail ip)
        let (_, data) ← ip.ipData.setpos 0
        let v ← data.block.load data.pos data.bytesremaining.toNat
        let ips ← ips.putEach [v]
        let (_, ips) ← ips.setpos ckpos
        let csum ← hdrcsum ips.block 20
        let (_, ips) ← ips.put16 csum
        let (_, ips) ← ips.setpos 0
        pure (some ips)) := by
  simp only [putip, Sbuf.putEach, hdrhead, hdrtail, bind_assoc, pure_bind]
  rfl

section

variable {ip : Ip} {n : Nat} {h : Heap}

/-- What stands in a block is overwritten in place. -/
theorem bytes_overwrite {b : Block} {p v w r : Bytes} (hlen : v.length = w.length)
    (hb : b.bytes 0 (p ++ (w ++ r)).length = p ++ (w ++ r)) :
    (b.fill p.length v).bytes 0 (p ++ (w ++ r)).length = p ++ (v ++ r) := by
  have hsplit : (p ++ (w ++ r)).length = p.length + (v.length + r.length) := by
    simp only [List.length_append, hlen]
  rw [hsplit, Block.bytes_add, Block.bytes_add, Nat.zero_add] at hb
  obtain ⟨hp, hrest⟩ := List.append_inj hb (Block.length_bytes _ _ _)
  obtain ⟨-, hr⟩ := List.append_inj hrest (by rw [Block.length_bytes, hlen])
  rw [hsplit, Block.bytes_add, Block.bytes_add, Nat.zero_add, Block.bytes_fill_before _ _ (by omega),
    Block.bytes_fill_same, Block.bytes_fill_after _ _ (Nat.le_refl _), hp, hr]

/-- The puts into a buffer that was just allocated: the header without a checksum, and the data. -/
theorem putpieces_eq (ips : Sbuf) {v : Bytes} (ok : ips.Ok) (hpos : ips.pos = 0)
    (hlen : ips.buflen = 20 + v.length) :
    ∃ ips₁ ips₂ ips₃, ips.putEach (hdrhead ip ips.buflen) h = .ok (ips₁, h) ∧
      ips₁.putEach (bytePut16 0 :: hdrtail ip) h = .ok (ips₂, h) ∧ ips₂.putEach [v] h = .ok (ips₃, h) ∧
      ips₁.pos = 10 ∧ ips₃.Ok ∧ ips₃.buflen = ips.buflen ∧
      ips₃.block.bytes 0 (20 + v.length) = hdr ip ips.buflen 0 ++ v := by
  have hhead : (hdrhead ip ips.buflen).flatten.length = 10 := rfl
  have htail : (bytePut16 0 :: hdrtail ip).flatten.length = 10 := rfl
  have hlast : [v].flatten.length = v.length := by simp
  obtain ⟨ips₁, hput₁, happ₁, hlen₁, -⟩ := Sbuf.putEach_of_room (h := h) (hdrhead ip ips.buflen) ok (by omega)
  have hpos₁ := happ₁.pos
  obtain ⟨ips₂, hput₂, happ₂, hlen₂, -⟩ :=
    Sbuf.putEach_of_room (h := h) (bytePut16 0 :: hdrtail ip) happ₁.ok (by omega)
  have hpos₂ := happ₂.pos
  obtain ⟨ips₃, hput₃, happ₃, hlen₃, -⟩ := Sbuf.putEach_of_room (h := h) [v] happ₂.ok (by omega)
  have hpos₃ := happ₃.pos
  refine ⟨ips₁, ips₂, ips₃, hput₁, hput₂, hput₃, by omega, happ₃.ok, by omega, ?_⟩
  have hwritten := ((happ₁.trans happ₂).trans happ₃).written
  rw [Sbuf.written, Sbuf.written, hpos, Block.bytes_zero, show ips₃.pos = 20 + v.length by omega] at hwritten
  rw [hwritten]
  simp [hdr]

/-- The datagram is the header, with the checksum of the header without one, and the data. -/
theorem putip_eq (hwilling : h.unwilling = false) (hn : ip.ipData.buflen = n) (hle : n ≤ 65515)
    (hsize : n ≤ ip.ipData.block.size) :
    ∃ ips, putip ip h = .ok (some ips, h.next) ∧ ips.buflen = 20 + n ∧ ips.block.size = 20 + n ∧
      ips.block.bytes 0 (20 + n) =
        hdr ip (20 + n) (csum (hdr ip (20 + n) 0)) ++ ip.ipData.block.bytes 0 n := by
  subst hn
  generalize hv : ip.ipData.block.bytes 0 ip.ipData.buflen = v
  have hvlen : v.length = ip.ipData.buflen := by rw [← hv, Block.length_bytes]
  rw [← hvlen] at hle hsize ⊢
  have hinit : Sbuf.init none (20 + v.length) h =
      .ok (some ⟨true, true, ⟨20 + v.length, h.junk (20 + v.length)⟩, 20 + v.length, 0⟩, h.next) := by
    rw [Sbuf.init, if_neg (by omega), bind_of_ok (Naf.malloc_granted hwilling)]
    rfl
  obtain ⟨ips₁, ips₂, ips₃, hput₁, hput₂, hput₃, hpos₁, ok₃, hlen₃, hbytes⟩ :=
    putpieces_eq (h := h.next) (v := v)
      ⟨true, true, ⟨20 + v.length, h.junk (20 + v.length)⟩, 20 + v.length, 0⟩
      ⟨rfl, show 20 + v.length < 65536 by omega, Nat.zero_le _⟩ rfl rfl
  dsimp only at hput₁ hlen₃ hbytes
  have hload : ip.ipData.block.load 0 (({ ip.ipData with pos := 0 } : Sbuf).bytesremaining.toNat) h.next =
      .ok (v, h.next) := by
    have hremaining : ({ ip.ipData with pos := 0 } : Sbuf).bytesremaining.toNat = ip.ipData.buflen := by
      simp only [Sbuf.bytesremaining]
      omega
    rw [hremaining, Block.load_of_le (by omega), hv]
  -- the checksum goes to its place
  have hsize₃ : ips₃.block.size = 20 + v.length := ok₃.size.trans hlen₃
  have hhdr : ips₃.block.bytes 0 20 = hdr ip (20 + v.length) 0 := by
    rw [Block.bytes_add] at hbytes
    exact (List.append_inj hbytes (Block.length_bytes _ _ _)).1
  have hroom : ¬({ ips₃ with pos := 10 } : Sbuf).bytesremaining <
      (bytePut16 (csum (hdr ip (20 + v.length) 0))).length := by
    simp only [Sbuf.bytesremaining, Naf.length_bytePut16]
    omega
  have hput := Sbuf.put_of_reserved (Sbuf.reserve_of_room (h := h.next) hroom)
    (show 10 + 2 ≤ ips₃.block.size by omega) (show 10 + 2 < 65536 by decide)
  have hover := bytes_overwrite (b := ips₃.block) (p := (hdrhead ip (20 + v.length)).flatten)
    (v := bytePut16 (csum (hdr ip (20 + v.length) 0))) (w := bytePut16 0) (r := (hdrtail ip).flatten ++ v) rfl
  have htotal : ((hdrhead ip (20 + v.length)).flatten ++ (bytePut16 0 ++ ((hdrtail ip).flatten ++ v))).length =
      20 + v.length := by
    rw [← List.append_assoc (bytePut16 0), ← List.append_assoc, List.length_append]
    rfl
  rw [htotal] at hover
  have hdone := hover (hbytes.trans (by simp [hdr]))
  refine ⟨{ ips₃ with block := ips₃.block.fill 10 (bytePut16 (csum (hdr ip (20 + v.length) 0))), pos := 0 },
    ?_, hlen₃, hsize₃, hdone.trans (by simp [hdr])⟩
  rw [putip_pieces, ← hvlen, Nat.mod_eq_of_lt (by omega), bind_of_ok hinit]
  dsimp only
  rw [bind_of_ok hput₁, bind_of_ok hput₂, bind_of_ok (Sbuf.setpos_of_le (Nat.zero_le _))]
  dsimp only
  rw [bind_of_ok hload, bind_of_ok hput₃, hpos₁, bind_of_ok (Sbuf.setpos_of_le (by omega))]
  dsimp only
  rw [bind_of_ok (hdrcsum_eq (by omega)), hhdr, Sbuf.put16, bind_of_ok hput]
  dsimp only
  rw [bind_of_ok (Sbuf.setpos_of_le (Nat.zero_le _))]
  rfl

/-! ## Reading it -/

/-- The fields have the widths of their types, and the addresses are addresses. -/
structure Ip.Typed (ip : Ip) : Prop where
  tos : ip.ipTos < 256
  id : ip.ipId < 65536
  ttl : ip.ipTtl < 256
  protocol : ip.ipProtocol < 256
  saddr : ip.ipSaddr < 2 ^ 32
  daddr : ip.ipDaddr < 2 ^ 32

theorem byte_of_bytes {b : Block} {l : Bytes} {m i : Nat} (hb : b.bytes 0 m = l) (hi : i < m) :
    b.byte i = l.getD i 0 := by
  rw [← hb, List.getD_eq_getElem _ _ (by rwa [Block.length_bytes]), Block.getElem_bytes, Nat.zero_add]

theorem toNat_ofNat_of_lt {v : Nat} (hv : v < 256) : (UInt8.ofNat v).toNat = v := by
  rw [UInt8.toNat_ofNat', Nat.mod_eq_of_lt hv]

variable {b : Block} {m sum : Nat} {v : Bytes}

/-- The header is read field by field as it was put. -/
theorem iphdr_of_hdr (hip : ip.Typed) (hoff : ip.ipFragoff < 65536) (hm : m < 65536) (hle : 20 ≤ m)
    (hsum : sum < 65536) (hb : b.bytes 0 m = hdr ip m sum ++ v) :
    iphdr b = { ipV := 4, ipHl := 5, ipTos := ip.ipTos, ipLen := m, ipId := ip.ipId, ipOff := ip.ipFragoff,
                ipTtl := ip.ipTtl, ipP := ip.ipProtocol, ipSum := sum, ipSrc := ip.ipSaddr,
                ipDst := ip.ipDaddr } := by
  have hbyte : ∀ i < 20, b.byte i = (hdr ip m sum ++ v).getD i 0 := fun i hi => byte_of_bytes hb (by omega)
  have hword : ∀ w < 2 ^ 32, byteGet32 (UInt8.ofNat (w >>> 24)) (UInt8.ofNat (w >>> 16)) (UInt8.ofNat (w >>> 8))
      (UInt8.ofNat w) % 2 ^ 32 = w := by
    intro w hw
    rw [Naf.byteGet32_bytePut32 hw, Naf.extend_mod hw]
  unfold iphdr
  rw [hbyte 0 (by decide), hbyte 1 (by decide), hbyte 2 (by decide), hbyte 3 (by decide), hbyte 4 (by decide),
    hbyte 5 (by decide), hbyte 6 (by decide), hbyte 7 (by decide), hbyte 8 (by decide), hbyte 9 (by decide),
    hbyte 10 (by decide), hbyte 11 (by decide), hbyte 12 (by decide), hbyte 13 (by decide), hbyte 14 (by decide),
    hbyte 15 (by decide), hbyte 16 (by decide), hbyte 17 (by decide), hbyte 18 (by decide), hbyte 19 (by decide)]
  have htos := toNat_ofNat_of_lt hip.tos
  have httl := toNat_ofNat_of_lt hip.ttl
  have hprotocol := toNat_ofNat_of_lt hip.protocol
  have hlen := Naf.byteGet16_bytePut16 hm
  have hid := Naf.byteGet16_bytePut16 hip.id
  have hoff := Naf.byteGet16_bytePut16 hoff
  have hsum := Naf.byteGet16_bytePut16 hsum
  have hsaddr := hword _ hip.saddr
  have hdaddr := hword _ hip.daddr
  have hversion : (UInt8.ofNat (4 * 16 + 5)).toNat / 16 % 16 = 4 := by decide
  have hhl : (UInt8.ofNat (4 * 16 + 5)).toNat % 16 = 5 := by decide
  simp only [Ipraw.mk.injEq]
  exact ⟨hversion, hhl, htos, hlen, hid, hoff, httl, hprotocol, hsum, hsaddr, hdaddr⟩

/-- Without its checksum the header is the one that the checksum was taken of. -/
theorem unsummed_hdr (hle : 20 ≤ m) (hb : b.bytes 0 m = hdr ip m sum ++ v) :
    (unsummed b).bytes 0 20 = hdr ip m 0 := by
  have hfirst : b.bytes 0 20 = hdr ip m sum := by
    have hsplit := Block.bytes_add b 0 20 (m - 20)
    rw [show 20 + (m - 20) = m by omega, hb] at hsplit
    exact (List.append_inj hsplit (Block.length_bytes _ _ _).symm).1.symm
  exact bytes_overwrite (b := b) (p := (hdrhead ip m).flatten) (v := [0, 0]) (w := bytePut16 sum)
    (r := (hdrtail ip).flatten) rfl hfirst

/-- A datagram of a header and data reaches the handlers of its protocol. -/
theorem input_of_hdr (protlist : List Prot) (hip : ip.Typed) (hoff : ip.ipFragoff < 65536) (hm : m < 65536)
    (hlen : m = 20 + v.length) (hsize : b.size = m) (httl : ip.ipTtl ≠ 0)
    (hb : b.bytes 0 m = hdr ip m (csum (hdr ip m 0)) ++ v) :
    input protlist b m h = callhandler protlist (packet b 0) h ∧ (packet b 0).ipData.rest = v := by
  have hle : 20 ≤ m := by omega
  have hiphdr := iphdr_of_hdr hip hoff hm hle (csum_lt _) hb
  have hunsummed := unsummed_hdr hle hb
  have hhl : (iphdr b).ipHl = 5 := by rw [hiphdr]
  have hiplen : (iphdr b).ipLen = m := by rw [hiphdr]
  constructor
  · apply input_of_parsed protlist hsize hm hle (by omega) (by omega)
    · rw [hiphdr]
    · rw [hiphdr]
      exact httl
    · rw [hhl, hunsummed, hiphdr]
    · rw [hhl]
      rfl
  · have hrest := rest_packet (b := b) 0 (by omega) (by omega) (by omega)
    rw [hhl, hiplen, show m - 5 * 4 = v.length by omega] at hrest
    rw [hrest]
    rw [hlen, Block.bytes_add] at hb
    exact (List.append_inj hb (Block.length_bytes _ _ _)).2

end

/-! ## Round trip -/

/-- What the handler is given of a packet that was sent: the defaults are those of the fields
left unset. -/
structure Delivered (ip ip' : Ip) : Prop where
  tos : ip'.ipTos = if ip.ipFields &&& 0x0001 = 0 then 0 else ip.ipTos
  id : ip'.ipId = if ip.ipFields &&& 0x0002 = 0 then 0 else ip.ipId
  ttl : ip'.ipTtl = if ip.ipFields &&& 0x0008 = 0 then 255 else ip.ipTtl
  protocol : ip'.ipProtocol = ip.ipProtocol
  saddr : ip'.ipSaddr = ip.ipSaddr
  daddr : ip'.ipDaddr = ip.ipDaddr
  flags : ip'.ipFlags = if ip.ipFlags &&& 0x2 ≠ 0 then 0x2 else 0
  fragoff : ip'.ipFragoff = 0
  options : ip'.ipOptions = 0
  data : ip'.ipData.rest = ip.ipData.block.bytes 0 ip.ipData.buflen

/-- The packet with its defaults. -/
def filled (ip : Ip) : Ip :=
  { ip with
    ipTtl := if ip.ipFields &&& 0x0008 = 0 then 255 else ip.ipTtl
    ipTos := if ip.ipFields &&& 0x0001 = 0 then 0 else ip.ipTos
    ipId := if ip.ipFields &&& 0x0002 = 0 then 0 else ip.ipId
    ipFragoff := if ip.ipFlags &&& 0x2 ≠ 0 then 0x4000 else 0 }

section

variable {ip : Ip} {h : Heap}

theorem fillfields_eq {iff : Iface} (hsaddr : ip.ipFields &&& 0x0020 ≠ 0) :
    fillfields iff ip h = .ok (filled ip, h) := by
  rw [fillfields, if_neg hsaddr]
  rfl

theorem Ip.Typed.filled (hip : ip.Typed) : (filled ip).Typed where
  tos := by
    unfold Ipv4.filled
    have := hip.tos
    dsimp only
    split <;> omega
  id := by
    unfold Ipv4.filled
    have := hip.id
    dsimp only
    split <;> omega
  ttl := by
    unfold Ipv4.filled
    have := hip.ttl
    dsimp only
    split <;> omega
  protocol := hip.protocol
  saddr := hip.saddr
  daddr := hip.daddr

theorem fragoff_lt (ip : Ip) : (filled ip).ipFragoff < 65536 := by
  unfold filled
  dsimp only
  split <;> decide

/-- The packet that a datagram with such a header makes. -/
theorem delivered_of_hdr {b : Block} {m : Nat} {v : Bytes} (hip : ip.Typed) (hm : m < 65536)
    (hlen : m = 20 + v.length) (hv : ip.ipData.block.bytes 0 ip.ipData.buflen = v)
    (hb : b.bytes 0 m = hdr (filled ip) m (csum (hdr (filled ip) m 0)) ++ v)
    (hrest : (packet b 0).ipData.rest = v) : Delivered ip (packet b 0) := by
  have hiphdr := iphdr_of_hdr hip.filled (fragoff_lt ip) hm (by omega) (csum_lt _) hb
  have hoff : (iphdr b).ipOff = if ip.ipFlags &&& 0x2 ≠ 0 then 0x4000 else 0 := congrArg Ipraw.ipOff hiphdr
  constructor
  · exact congrArg Ipraw.ipTos hiphdr
  · exact congrArg Ipraw.ipId hiphdr
  · exact congrArg Ipraw.ipTtl hiphdr
  · exact congrArg Ipraw.ipP hiphdr
  · exact congrArg Ipraw.ipSrc hiphdr
  · exact congrArg Ipraw.ipDst hiphdr
  · dsimp only [packet, ipOf]
    rw [hoff]
    split <;> decide
  · dsimp only [packet, ipOf]
    rw [hoff]
    split <;> rfl
  · rfl
  · rw [hrest, hv]

/-- Without memory there is no datagram. -/
theorem putip_refused (ip : Ip) (hunwilling : h.unwilling = true) : putip ip h = .ok (none, h.next) := by
  have hinit : ∀ n, Sbuf.init none n h = .ok (none, h.next) := by
    intro n
    rw [Sbuf.init, bind_of_ok (Naf.malloc_refused hunwilling)]
    rfl
  exact bind_of_ok (hinit _)

/-- A packet with a source address is passed on or not, but nothing goes wrong. -/
theorem output_returns (routetable : List Rt) (ipRt : Option Rt) (hsaddr : ip.ipFields &&& 0x0020 ≠ 0)
    (hle : ip.ipData.buflen ≤ 65515) (hsize : ip.ipData.buflen ≤ ip.ipData.block.size) :
    ∃ r h', output routetable ipRt ip h = .ok (r, h') := by
  have hput : ∃ ips h', putip (filled ip) h = .ok (ips, h') := by
    cases hun : h.unwilling with
    | true => exact ⟨none, _, putip_refused _ hun⟩
    | false =>
        obtain ⟨ips, hput, -⟩ := putip_eq hun (show (filled ip).ipData.buflen = ip.ipData.buflen from rfl) hle hsize
        exact ⟨some ips, _, hput⟩
  obtain ⟨ips, h', hput⟩ := hput
  unfold output
  split_ifs
  · exact ⟨_, _, rfl⟩
  cases (ipRt.or (getroute routetable)).bind Rt.rtIf with
  | none => exact ⟨_, _, rfl⟩
  | some iff =>
      dsimp only
      rw [bind_of_ok (fillfields_eq hsaddr), bind_of_ok hput]
      cases ips with
      | none => exact ⟨_, _, rfl⟩
      | some ips =>
          cases hout : iff.ifOutputf with
          | none => exact ⟨_, _, rfl⟩
          | some outputf => exact ⟨_, _, rfl⟩

/-- What the interface is given comes back through the input side, unless there is no memory for it. -/
theorem output_readable {routetable : List Rt} {ipRt : Option Rt} {iff : Iface} {outputf : Sbuf → Bool}
    (hip : ip.Typed) (hdaddr : ip.ipFields &&& 0x0040 ≠ 0) (hprotocol : ip.ipFields &&& 0x0010 ≠ 0)
    (hsaddr : ip.ipFields &&& 0x0020 ≠ 0) (httl : ip.ipFields &&& 0x0008 ≠ 0 → ip.ipTtl ≠ 0)
    (hroute : (ipRt.or (getroute routetable)).bind Rt.rtIf = some iff) (hout : iff.ifOutputf = some outputf)
    (hle : ip.ipData.buflen ≤ 65515) (hsize : ip.ipData.buflen ≤ ip.ipData.block.size) :
    (h.unwilling = true → output routetable ipRt ip h = .ok ((false, none), h.next)) ∧
    (h.unwilling = false → ∃ ips, output routetable ipRt ip h = .ok ((outputf ips, some ips), h.next) ∧
      ∀ protlist h', ∃ calls, input protlist ips.block ips.buflen h' = .ok (calls, h') ∧
        (calls = [] ↔ ∀ nip ∈ protlist, nip.nipProtocol ≠ ip.ipProtocol) ∧
        ∀ ip' ∈ calls.head?, Delivered ip ip') := by
  have hchecked : ¬(ip.ipFields &&& 0x0040 = 0 ∨ ip.ipFields &&& 0x0010 = 0) := not_or.2 ⟨hdaddr, hprotocol⟩
  constructor
  · intro hunwilling
    rw [output, if_neg hchecked, hroute]
    dsimp only
    rw [bind_of_ok (fillfields_eq hsaddr), bind_of_ok (putip_refused _ hunwilling)]
    rfl
  · intro hwilling
    obtain ⟨ips, hput, hbuflen, hblock, hbytes⟩ :=
      putip_eq hwilling (show (filled ip).ipData.buflen = ip.ipData.buflen from rfl) hle hsize
    refine ⟨ips, ?_, fun protlist h' => ?_⟩
    · rw [output, if_neg hchecked, hroute]
      dsimp only
      rw [bind_of_ok (fillfields_eq hsaddr), bind_of_ok hput]
      dsimp only
      rw [hout]
      rfl
    · have httl' : (filled ip).ipTtl ≠ 0 := by
        unfold filled
        dsimp only
        split
        · decide
        · exact httl ‹_›
      have hlen : 20 + ip.ipData.buflen = 20 + (ip.ipData.block.bytes 0 ip.ipData.buflen).length := by
        rw [Block.length_bytes]
      obtain ⟨hinput, hrest⟩ := input_of_hdr (h := h') protlist hip.filled (fragoff_lt ip) (by omega) hlen hblock
        httl' hbytes
      obtain ⟨calls, hcalls, hnil, hfirst⟩ := callhandler_head protlist (packet ips.block 0) h'
      have hdelivered := delivered_of_hdr hip (by omega) hlen rfl hbytes hrest
      refine ⟨calls, ?_, ?_, fun ip' hip' => hfirst ip' hip' ▸ hdelivered⟩
      · rw [hbuflen, hinput, hcalls]
      · rw [hnil, hdelivered.protocol]

/-- A packet with two bytes of data, sent with the default time to live. -/
def probe : Ip :=
  { ipFlags := 0x2, ipFields := 0x0070, ipOptions := 0, ipTos := 0, ipId := 0, ipFragoff := 0, ipTtl := 0,
    ipProtocol := 1, ipSaddr := 0x0a000001, ipDaddr := 0x0a000002, ipData := window (arrived [8, 0]) 2 0 }

theorem output_readable_probe :
    ∃ ips, output [⟨some ⟨[], some fun _ => true⟩⟩] none probe .zeroed = .ok ((true, some ips), .zeroed) ∧
      ∀ protlist h', ∃ calls, input protlist ips.block ips.buflen h' = .ok (calls, h') ∧
        (calls = [] ↔ ∀ nip ∈ protlist, nip.nipProtocol ≠ 1) ∧ ∀ ip' ∈ calls.head?, Delivered probe ip' :=
  (output_readable (h := .zeroed)
    ⟨by decide, by decide, by decide, by decide, by decide, by decide⟩ (by decide) (by decide) (by decide)
    (by decide) rfl rfl (by decide) (by decide)).2 rfl

end

end Timps.Ipv4
