-- SUMMARY: Receiving an IPv4 datagram: reading the header, the checks, the options, and the protocol handlers.
import Timps.Ipv4.Checksum
import Timps.Naf.SbufBuild

/-!
# IPv4 input

A datagram is read through a buffer over the memory it came in. Three lengths have to agree:
the number of bytes received, the header length in words, and the total length the header
names. What is left behind the header is handed to the handlers of the protocol one after
another until one of them takes it.
-/

namespace Timps.Ipv4

open Naf (Block Heap Mem Sbuf byteGet16 byteGet32)
open Prog (bind_of_ok)

/-! ## The code -/

/-- `struct nafnet_ipraw` -/
structure Ipraw where
  ipV : Nat
  ipHl : Nat
  ipTos : Nat
  ipLen : Nat
  ipId : Nat
  ipOff : Nat
  ipTtl : Nat
  ipP : Nat
  ipSum : Nat
  ipSrc : Nat
  ipDst : Nat

/-- `struct nafnet_ip`, without the route of outgoing packets -/
structure Ip where
  ipFlags : Nat
  ipFields : Nat
  ipOptions : Nat
  ipTos : Nat
  ipId : Nat
  ipFragoff : Nat
  ipTtl : Nat
  ipProtocol : Nat
  ipSaddr : Nat
  ipDaddr : Nat
  ipData : Sbuf

/-- `struct naf_ipv4_prot`. A handler answers 0 (`true` here) or not, and leaves the packet
as the next one finds it. -/
structure Prot where
  nipProtocol : Nat
  nipHandler : Ip → Bool × Ip

/-- The checksum field is read and set to 0 in place. -/
def getiphdr (sb : Sbuf) : Mem (Option Ipraw × Sbuf) :=
  -- MINIPHDRLEN
  if sb.bytesremaining < 20 then pure (none, sb)
  else do
    let (b, sb) ← sb.get8
    let (ipTos, sb) ← sb.get8
    let (ipLen, sb) ← sb.get16
    let (ipId, sb) ← sb.get16
    let (ipOff, sb) ← sb.get16
    let (ipTtl, sb) ← sb.get8
    let (ipP, sb) ← sb.get8
    let (ipSum, sb) ← sb.get16
    let (_, sb) ← sb.setpos (sb.pos - 2)
    let (_, sb) ← sb.put16 0
    let (src, sb) ← sb.get32
    let (dst, sb) ← sb.get32
    pure (some { ipV := b / 16 % 16, ipHl := b % 16, ipTos, ipLen, ipId, ipOff, ipTtl, ipP, ipSum,
                 ipSrc := src % 2 ^ 32, ipDst := dst % 2 ^ 32 }, sb)

/-- The option `opt`, with its length in a byte of its own. The difference passed to
`naf_sbuf_advance` has 16 bits. -/
def sizedoption (opt : Nat) (sb : Sbuf) (ip : Ip) : Mem (Sbuf × Ip) := do
  let (len, sb) ← sb.get8
  let (_, sb) ← sb.advance ((len + 65534) % 65536)
  pure (sb, { ip with ipOptions := ip.ipOptions ||| opt })

/-- The option `opt`, followed by `len` bytes. -/
def fixedoption (opt len : Nat) (sb : Sbuf) (ip : Ip) : Mem (Sbuf × Ip) := do
  let (_, sb) ← sb.advance len
  pure (sb, { ip with ipOptions := ip.ipOptions ||| opt })

/-- One round of the loop, behind the type: `none` breaks. -/
def parseoption (type : Nat) (sb : Sbuf) (ip : Ip) : Mem (Option (Sbuf × Ip)) :=
  if type = 0 then pure none
  else if type = 1 then pure (some (sb, ip))
  else if type = 130 then some <$> fixedoption 0x0001 11 sb ip
  else if type = 131 then some <$> sizedoption 0x0002 sb ip
  else if type = 137 then some <$> sizedoption 0x0004 sb ip
  else if type = 7 then some <$> sizedoption 0x0008 sb ip
  else if type = 136 then some <$> fixedoption 0x0010 4 sb ip
  else if type = 68 then some <$> sizedoption 0x0020 sb ip
  else pure none

/-- `naf_ipv4__parseoptions`, which always answers 0 -/
def parseoptions : Nat → Sbuf → Ip → Mem Ip
  | 0, _, _ => Prog.fault .diverge
  | fuel + 1, sb, ip =>
      if sb.bytesremaining = 0 then pure ip
      else do
        let (type, sb) ← sb.get8
        match ← parseoption type sb ip with
        | none => pure ip
        | some (sb, ip) => parseoptions fuel sb ip

/-- The packets as the handlers called get them. -/
def callhandler : List Prot → Ip → Mem (List Ip)
  | [], _ => pure []
  | nip :: protlist, ip =>
      if nip.nipProtocol = ip.ipProtocol then
        match nip.nipHandler ip with
        | (true, _) => pure [ip]
        | (false, ip') => do
            let (_, data) ← ip'.ipData.setpos 0
            let calls ← callhandler protlist { ip' with ipData := data }
            pure (ip :: calls)
      else callhandler protlist ip

/-- The packet of a header, with the data behind it. -/
def ipOf (iph : Ipraw) (data : Sbuf) : Ip :=
  { ipFlags := (if iph.ipOff &&& 0x4000 ≠ 0 then 0x2 else 0) ||| (if iph.ipOff &&& 0x2000 ≠ 0 then 0x1 else 0)
    ipFields := 0x0001 ||| 0x0002 ||| 0x0004 ||| 0x0008 ||| 0x0010 ||| 0x0020 ||| 0x0040
    ipOptions := 0
    ipTos := iph.ipTos
    ipId := iph.ipId
    -- `&= ~0xe000`
    ipFragoff := iph.ipOff % 8192
    ipTtl := iph.ipTtl
    ipProtocol := iph.ipP
    ipSaddr := iph.ipSrc
    ipDaddr := iph.ipDst
    ipData := data }

/-- `naf_ipv4_input` of a datagram of `buflen` bytes: the calls of handlers it makes. -/
def input (protlist : List Prot) (buf : Block) (buflen : Nat) : Mem (List Ip) := do
  match ← Sbuf.init (some buf) buflen with
  | none => pure []
  | some sb => do
      match ← getiphdr sb with
      | (none, _) => pure []
      | (some iph, sb) =>
          let hdrlen := iph.ipHl * 4
          if hdrlen > buflen ∨ iph.ipLen > buflen then pure []
          else
            let buf := sb.block
            let sb := { sb with buflen := hdrlen }
            if iph.ipV ≠ 4 then pure []
            else if iph.ipTtl = 0 then pure []
            else do
              let csum ← hdrcsum buf hdrlen
              if csum ≠ iph.ipSum then pure []
              else do
                -- the length is a `naf_u16_t`
                match ← Sbuf.init (some (buf.suffix hdrlen)) ((iph.ipLen + 65536 - hdrlen) % 65536) with
                | none => pure []
                | some data => do
                    let ip ← parseoptions (hdrlen + 1) sb (ipOf iph data)
                    callhandler protlist ip

/-! ## The header -/

/-- The header at the start of a datagram. -/
def iphdr (b : Block) : Ipraw :=
  { ipV := (b.byte 0).toNat / 16 % 16
    ipHl := (b.byte 0).toNat % 16
    ipTos := (b.byte 1).toNat
    ipLen := byteGet16 (b.byte 2) (b.byte 3)
    ipId := byteGet16 (b.byte 4) (b.byte 5)
    ipOff := byteGet16 (b.byte 6) (b.byte 7)
    ipTtl := (b.byte 8).toNat
    ipP := (b.byte 9).toNat
    ipSum := byteGet16 (b.byte 10) (b.byte 11)
    ipSrc := byteGet32 (b.byte 12) (b.byte 13) (b.byte 14) (b.byte 15) % 2 ^ 32
    ipDst := byteGet32 (b.byte 16) (b.byte 17) (b.byte 18) (b.byte 19) % 2 ^ 32 }

/-- The datagram with a checksum field of 0. -/
def unsummed (b : Block) : Block := b.fill 10 [0, 0]

/-- A buffer over memory that somebody else owns. -/
def window (b : Block) (buflen pos : Nat) : Sbuf := ⟨false, false, b, buflen, pos⟩

section

variable {b : Block} {n pos k : Nat} {h : Heap}

theorem get_window {dec : Bytes → Nat} (hsize : n ≤ b.size) (hn : n < 65536) (hk : pos + k ≤ n) :
    (window b n pos).get k dec h = .ok ((dec (b.bytes pos k), window b n (pos + k)), h) := by
  have hroom : ¬(window b n pos).bytesremaining < k := by
    simp only [Sbuf.bytesremaining, window]
    omega
  exact Sbuf.get_of_room hroom (show pos + k ≤ b.size by omega) (show pos + k < 65536 by omega)

theorem put_window {v : Bytes} (hsize : n ≤ b.size) (hn : n < 65536) (hk : pos + v.length ≤ n) :
    (window b n pos).put v h = .ok ((v.length, window (b.fill pos v) n (pos + v.length)), h) := by
  have hroom : ¬(window b n pos).bytesremaining < v.length := by
    simp only [Sbuf.bytesremaining, window]
    omega
  exact Sbuf.put_of_reserved (Sbuf.reserve_of_room hroom) (show pos + v.length ≤ b.size by omega)
    (show pos + v.length < 65536 by omega)

theorem getiphdr_of_short (hn : n < 20) : getiphdr (window b n 0) h = .ok ((none, window b n 0), h) := by
  have hshort : (window b n 0).bytesremaining < 20 := by
    simp only [Sbuf.bytesremaining, window]
    omega
  rw [getiphdr, if_pos hshort]
  rfl

theorem getiphdr_eq (hsize : n ≤ b.size) (hn : n < 65536) (hhdr : 20 ≤ n) :
    getiphdr (window b n 0) h = .ok ((some (iphdr b), window (unsummed b) n 20), h) := by
  have hroom : ¬(window b n 0).bytesremaining < 20 := by
    simp only [Sbuf.bytesremaining, window]
    omega
  have hsrc : (unsummed b).bytes 12 4 = b.bytes 12 4 := Block.bytes_fill_after b _ (by decide)
  have hdst : (unsummed b).bytes 16 4 = b.bytes 16 4 := Block.bytes_fill_after b _ (by decide)
  have hput : (window b n 10).put16 0 h = .ok ((2, window (unsummed b) n 12), h) :=
    put_window hsize hn (by simp only [Naf.length_bytePut16]; omega)
  have hset : (window b n 12).setpos ((window b n 12).pos - 2) h = .ok ((true, window b n 10), h) :=
    Sbuf.setpos_of_le (show 10 ≤ n by omega)
  have hsize' : n ≤ (unsummed b).size := hsize
  rw [getiphdr, if_neg hroom]
  simp only [Sbuf.get8, Sbuf.get16, Sbuf.get32]
  rw [bind_of_ok (get_window hsize hn (by omega))]
  dsimp only
  rw [bind_of_ok (get_window hsize hn (by omega))]
  dsimp only
  rw [bind_of_ok (get_window hsize hn (by omega))]
  dsimp only
  rw [bind_of_ok (get_window hsize hn (by omega))]
  dsimp only
  rw [bind_of_ok (get_window hsize hn (by omega))]
  dsimp only
  rw [bind_of_ok (get_window hsize hn (by omega))]
  dsimp only
  rw [bind_of_ok (get_window hsize hn (by omega))]
  dsimp only
  rw [bind_of_ok (get_window hsize hn (by omega))]
  dsimp only
  rw [bind_of_ok hset]
  dsimp only
  rw [bind_of_ok hput]
  dsimp only
  rw [bind_of_ok (get_window hsize' hn (by omega))]
  dsimp only
  rw [bind_of_ok (get_window hsize' hn (by omega)), hsrc, hdst]
  rfl

end

/-! ## The options -/

section

variable {b : Block} {n pos k : Nat} {h : Heap}

/-- A byte is read unless the end is reached. -/
theorem get8_window (hsize : n ≤ b.size) (hn : n < 65536) (hpos : pos ≤ n) :
    ∃ v pos', (window b n pos).get8 h = .ok ((v, window b n pos'), h) ∧
      pos ≤ pos' ∧ pos' ≤ n ∧ (pos < n → pos < pos') := by
  by_cases hlt : pos < n
  · exact ⟨_, pos + 1, get_window hsize hn hlt, by omega, by omega, fun _ => by omega⟩
  · have hshort : (window b n pos).bytesremaining < 1 := by
      simp only [Sbuf.bytesremaining, window]
      omega
    exact ⟨_, pos, Sbuf.get_of_short hshort, Nat.le_refl _, hpos, fun h => absurd h hlt⟩

/-- What does not fit is not passed. -/
theorem advance_window (hn : n < 65536) (hpos : pos ≤ n) :
    ∃ ok pos', (window b n pos).advance k h = .ok ((ok, window b n pos'), h) ∧ pos ≤ pos' ∧ pos' ≤ n := by
  by_cases hroom : (window b n pos).bytesremaining < k
  · refine ⟨false, pos, ?_, Nat.le_refl _, hpos⟩
    rw [Sbuf.advance, Sbuf.reserve_of_short hroom]
    rfl
  · have hk : pos + k ≤ n := by
      simp only [Sbuf.bytesremaining, window] at hroom
      omega
    refine ⟨true, pos + k, ?_, by omega, hk⟩
    rw [Sbuf.advance, bind_of_ok (Sbuf.reserve_of_room hroom)]
    dsimp only [window]
    rw [Nat.mod_eq_of_lt (by omega)]
    rfl

theorem sizedoption_eq (opt : Nat) (ip : Ip) (hsize : n ≤ b.size) (hn : n < 65536) (hpos : pos ≤ n) :
    ∃ pos' o, sizedoption opt (window b n pos) ip h = .ok ((window b n pos', { ip with ipOptions := o }), h) ∧
      pos ≤ pos' ∧ pos' ≤ n := by
  obtain ⟨len, pos₁, hget, hle₁, hn₁, -⟩ := get8_window (h := h) hsize hn hpos
  obtain ⟨ok, pos₂, hadvance, hle₂, hn₂⟩ := advance_window (b := b) (h := h) (k := (len + 65534) % 65536) hn hn₁
  refine ⟨pos₂, ip.ipOptions ||| opt, ?_, by omega, hn₂⟩
  rw [sizedoption, bind_of_ok hget]
  dsimp only
  rw [bind_of_ok hadvance]
  rfl

theorem fixedoption_eq (opt k : Nat) (ip : Ip) (hn : n < 65536) (hpos : pos ≤ n) :
    ∃ pos' o, fixedoption opt k (window b n pos) ip h = .ok ((window b n pos', { ip with ipOptions := o }), h) ∧
      pos ≤ pos' ∧ pos' ≤ n := by
  obtain ⟨ok, pos', hadvance, hle, hn'⟩ := advance_window (b := b) (h := h) (k := k) hn hpos
  refine ⟨pos', ip.ipOptions ||| opt, ?_, hle, hn'⟩
  rw [fixedoption, bind_of_ok hadvance]
  rfl

/-- An option is passed, or ends the loop; of the packet it changes the options only. -/
theorem parseoption_eq (type : Nat) (ip : Ip) (hsize : n ≤ b.size) (hn : n < 65536) (hpos : pos ≤ n) :
    parseoption type (window b n pos) ip h = .ok (none, h) ∨
      ∃ pos' o, parseoption type (window b n pos) ip h =
        .ok (some (window b n pos', { ip with ipOptions := o }), h) ∧ pos ≤ pos' ∧ pos' ≤ n := by
  have hpassed : ∀ {x : Mem (Sbuf × Ip)}, (∃ pos' o, x h = .ok ((window b n pos', { ip with ipOptions := o }), h) ∧
      pos ≤ pos' ∧ pos' ≤ n) → ∃ pos' o, (some <$> x) h =
        .ok (some (window b n pos', { ip with ipOptions := o }), h) ∧ pos ≤ pos' ∧ pos' ≤ n := by
    rintro x ⟨pos', o, hx, hle⟩
    exact ⟨pos', o, by rw [map_eq_pure_bind, bind_of_ok hx]; rfl, hle⟩
  -- both kinds of option leave the cursor inside the header
  have hsized := fun opt => hpassed (sizedoption_eq (h := h) opt ip hsize hn hpos)
  have hfixed := fun opt k => hpassed (fixedoption_eq (b := b) (h := h) opt k ip hn hpos)
  unfold parseoption
  by_cases heol : type = 0
  · rw [if_pos heol]
    exact .inl rfl
  rw [if_neg heol]
  by_cases hnop : type = 1
  · rw [if_pos hnop]
    exact .inr ⟨pos, ip.ipOptions, rfl, Nat.le_refl _, hpos⟩
  rw [if_neg hnop]
  by_cases hsecurity : type = 130
  · rw [if_pos hsecurity]
    exact .inr (hfixed 0x0001 11)
  rw [if_neg hsecurity]
  by_cases hlsrr : type = 131
  · rw [if_pos hlsrr]
    exact .inr (hsized 0x0002)
  rw [if_neg hlsrr]
  by_cases hssrr : type = 137
  · rw [if_pos hssrr]
    exact .inr (hsized 0x0004)
  rw [if_neg hssrr]
  by_cases hrr : type = 7
  · rw [if_pos hrr]
    exact .inr (hsized 0x0008)
  rw [if_neg hrr]
  by_cases hsatid : type = 136
  · rw [if_pos hsatid]
    exact .inr (hfixed 0x0010 4)
  rw [if_neg hsatid]
  by_cases hts : type = 68
  · rw [if_pos hts]
    exact .inr (hsized 0x0020)
  · rw [if_neg hts]
    exact .inl rfl

/-- The loop ends: a round that does not break takes the type at least. -/
theorem parseoptions_eq (fuel : Nat) (ip : Ip) (hsize : n ≤ b.size) (hn : n < 65536) (hpos : pos ≤ n)
    (hfuel : n - pos < fuel) :
    ∃ o, parseoptions fuel (window b n pos) ip h = .ok ({ ip with ipOptions := o }, h) := by
  induction fuel generalizing pos ip with
  | zero => omega
  | succ fuel ih =>
      have hremaining : (window b n pos).bytesremaining = 0 ↔ pos = n := by
        simp only [Sbuf.bytesremaining, window]
        omega
      rw [parseoptions]
      by_cases hend : pos = n
      · rw [if_pos (hremaining.2 hend)]
        exact ⟨ip.ipOptions, rfl⟩
      obtain ⟨type, pos₁, hget, hle₁, hn₁, hmoved⟩ := get8_window (h := h) hsize hn hpos
      have := hmoved (by omega)
      rw [if_neg (mt hremaining.1 hend), bind_of_ok hget]
      dsimp only
      rcases parseoption_eq (h := h) type ip hsize hn hn₁ with hbreak | ⟨pos₂, o, hpassed, hle₂, hn₂⟩
      · rw [bind_of_ok hbreak]
        exact ⟨ip.ipOptions, rfl⟩
      · rw [bind_of_ok hpassed]
        exact ih _ hn₂ (by omega)

/-- A header that ends before the options start has none. -/
theorem parseoptions_of_lt {fuel : Nat} {ip : Ip} (hpos : n < pos) :
    parseoptions (fuel + 1) (window b n pos) ip h = .ok (ip, h) := by
  have hremaining : (window b n pos).bytesremaining ≠ 0 := by
    simp only [Sbuf.bytesremaining, window]
    omega
  have hshort : (window b n pos).bytesremaining < 1 := by
    simp only [Sbuf.bytesremaining, window]
    omega
  rw [parseoptions, if_neg hremaining, Sbuf.get8, bind_of_ok (Sbuf.get_of_short hshort)]
  rfl

end

/-! ## The handlers -/

/-- A handler that leaves a packet to the next one leaves its memory and its length alone. -/
def Prot.Keeps (nip : Prot) : Prop :=
  ∀ ip, (nip.nipHandler ip).1 = false →
    (nip.nipHandler ip).2.ipData.block.size = ip.ipData.block.size ∧
      (nip.nipHandler ip).2.ipData.buflen = ip.ipData.buflen

/-- The first handler of the protocol gets the packet as it is. -/
theorem callhandler_head (protlist : List Prot) (ip : Ip) (h : Heap) :
    ∃ calls, callhandler protlist ip h = .ok (calls, h) ∧
      (calls = [] ↔ ∀ nip ∈ protlist, nip.nipProtocol ≠ ip.ipProtocol) ∧ ∀ ip' ∈ calls.head?, ip' = ip := by
  induction protlist generalizing ip with
  | nil => exact ⟨[], rfl, by simp, by simp⟩
  | cons nip protlist ih =>
      by_cases hprot : nip.nipProtocol = ip.ipProtocol
      · have hsome : ¬∀ nip' ∈ nip :: protlist, nip'.nipProtocol ≠ ip.ipProtocol :=
          fun hall => hall nip List.mem_cons_self hprot
        rw [callhandler, if_pos hprot]
        cases hhandled : nip.nipHandler ip with
        | mk ok ip' =>
            cases ok with
            | true => exact ⟨[ip], rfl, by simpa using hsome, by simp⟩
            | false =>
                obtain ⟨calls, hcalls, -, -⟩ := ih { ip' with ipData := { ip'.ipData with pos := 0 } }
                refine ⟨ip :: calls, ?_, by simpa using hsome, by simp⟩
                dsimp only
                rw [bind_of_ok (Sbuf.setpos_of_le (Nat.zero_le _))]
                dsimp only
                rw [bind_of_ok hcalls]
                rfl
      · obtain ⟨calls, hcalls, hnone, hfirst⟩ := ih ip
        refine ⟨calls, ?_, ?_, hfirst⟩
        · rw [callhandler, if_neg hprot, hcalls]
        · rw [hnone, List.forall_mem_cons]
          exact ⟨fun h => ⟨hprot, h⟩, And.right⟩

/-- Every handler called gets the data from the start. -/
theorem callhandler_all {protlist : List Prot} {h h' : Heap} {ip : Ip} {calls : List Ip}
    (hkeeps : ∀ nip ∈ protlist, nip.Keeps) (hpos : ip.ipData.pos = 0)
    (hcalls : callhandler protlist ip h = .ok (calls, h')) :
    ∀ ip' ∈ calls, ip'.ipData.pos = 0 ∧ ip'.ipData.block.size = ip.ipData.block.size ∧
      ip'.ipData.buflen = ip.ipData.buflen := by
  induction protlist generalizing ip calls h' with
  | nil =>
      cases hcalls
      exact fun _ hmem => nomatch hmem
  | cons nip protlist ih =>
      have hrest : ∀ nip ∈ protlist, nip.Keeps := fun nip hnip => hkeeps nip (List.mem_cons_of_mem _ hnip)
      rw [callhandler] at hcalls
      split at hcalls
      · have hkeep := hkeeps nip List.mem_cons_self ip
        intro ip' hmem
        cases hhandled : nip.nipHandler ip with
        | mk ok ip₁ =>
            rw [hhandled] at hkeep hcalls
            cases ok with
            | true =>
                cases hcalls
                obtain rfl := List.mem_singleton.1 hmem
                exact ⟨hpos, rfl, rfl⟩
            | false =>
                obtain ⟨hblock, hlen⟩ := hkeep rfl
                dsimp only at hcalls
                rw [bind_of_ok (Sbuf.setpos_of_le (Nat.zero_le _))] at hcalls
                obtain ⟨calls₁, h₁, hcalls₁, hpure⟩ := Prog.bind_ok.1 hcalls
                cases Prog.pure_ok.1 hpure
                rcases List.mem_cons.1 hmem with rfl | hmem
                · exact ⟨hpos, rfl, rfl⟩
                · obtain ⟨hpos', hblock', hlen'⟩ := ih hrest rfl hcalls₁ ip' hmem
                  exact ⟨hpos', hblock'.trans hblock, hlen'.trans hlen⟩
      · exact ih hrest hpos hcalls

/-! ## The datagram -/

/-- The datagram does not reach a handler: it is too short, names a length that it does not
have, fails a check, or is of a protocol that nobody handles. -/
def Rejected (protlist : List Prot) (b : Block) (n : Nat) : Prop :=
  n < 20 ∨ n < (iphdr b).ipHl * 4 ∨ n < (iphdr b).ipLen ∨ (iphdr b).ipV ≠ 4 ∨ (iphdr b).ipTtl = 0 ∨
    csum ((unsummed b).bytes 0 ((iphdr b).ipHl * 4)) ≠ (iphdr b).ipSum ∨
    ∀ nip ∈ protlist, nip.nipProtocol ≠ (iphdr b).ipP

/-- The packet handed on: its data is the memory behind the header, with a length in 16 bits. -/
def packet (b : Block) (options : Nat) : Ip :=
  { ipOf (iphdr b) (window ((unsummed b).suffix ((iphdr b).ipHl * 4))
      (((iphdr b).ipLen + 65536 - (iphdr b).ipHl * 4) % 65536) 0) with ipOptions := options }

section

variable {protlist : List Prot} {b : Block} {n : Nat} {h : Heap}

/-- A datagram that passes the checks, and whose options are read, goes to the handlers. -/
theorem input_of_parsed {o : Nat} (protlist : List Prot) (hsize : b.size = n) (hn : n < 65536) (hshort : 20 ≤ n)
    (hhdr : (iphdr b).ipHl * 4 ≤ n) (hlen : (iphdr b).ipLen ≤ n) (hv : (iphdr b).ipV = 4) (httl : (iphdr b).ipTtl ≠ 0)
    (hsum : csum ((unsummed b).bytes 0 ((iphdr b).ipHl * 4)) = (iphdr b).ipSum)
    (hoptions : parseoptions ((iphdr b).ipHl * 4 + 1) (window (unsummed b) ((iphdr b).ipHl * 4) 20)
      { packet b o with ipOptions := 0 } h = .ok (packet b o, h)) :
    input protlist b n h = callhandler protlist (packet b o) h := by
  have hsize' : (unsummed b).size = n := hsize
  have hinit : Sbuf.init (some b) n h = .ok (some (window b n 0), h) := rfl
  have hinit' : Sbuf.init (some ((unsummed b).suffix ((iphdr b).ipHl * 4)))
      (((iphdr b).ipLen + 65536 - (iphdr b).ipHl * 4) % 65536) h = .ok (some (packet b o).ipData, h) := rfl
  rw [input, bind_of_ok hinit]
  dsimp only
  rw [bind_of_ok (getiphdr_eq (Nat.le_of_eq hsize.symm) hn hshort)]
  dsimp only
  rw [if_neg (by omega), if_neg (not_not.2 hv), if_neg httl,
    show (window (unsummed b) n 20).block = unsummed b from rfl, bind_of_ok (hdrcsum_eq (by omega)),
    if_neg (not_not.2 hsum)]
  rw [bind_of_ok hinit']
  exact bind_of_ok hoptions

/-- A datagram that passes the checks goes to the handlers. -/
theorem input_of_checked (protlist : List Prot) (hsize : b.size = n) (hn : n < 65536) (hshort : 20 ≤ n)
    (hhdr : (iphdr b).ipHl * 4 ≤ n) (hlen : (iphdr b).ipLen ≤ n) (hv : (iphdr b).ipV = 4) (httl : (iphdr b).ipTtl ≠ 0)
    (hsum : csum ((unsummed b).bytes 0 ((iphdr b).ipHl * 4)) = (iphdr b).ipSum) :
    ∃ o, input protlist b n h = callhandler protlist (packet b o) h := by
  have hsize' : (unsummed b).size = n := hsize
  by_cases htiny : (iphdr b).ipHl * 4 < 20
  · exact ⟨0, input_of_parsed protlist hsize hn hshort hhdr hlen hv httl hsum (parseoptions_of_lt htiny)⟩
  · obtain ⟨o, hoptions⟩ := parseoptions_eq (h := h) ((iphdr b).ipHl * 4 + 1) (packet b 0)
      (show (iphdr b).ipHl * 4 ≤ (unsummed b).size by omega) (by omega) (by omega : 20 ≤ _) (by omega)
    exact ⟨o, input_of_parsed protlist hsize hn hshort hhdr hlen hv httl hsum hoptions⟩

/-- A datagram that fails one is dropped. -/
theorem input_of_unchecked (hsize : b.size = n) (hn : n < 65536)
    (hfails : n < 20 ∨ n < (iphdr b).ipHl * 4 ∨ n < (iphdr b).ipLen ∨ (iphdr b).ipV ≠ 4 ∨ (iphdr b).ipTtl = 0 ∨
      csum ((unsummed b).bytes 0 ((iphdr b).ipHl * 4)) ≠ (iphdr b).ipSum) :
    input protlist b n h = .ok ([], h) := by
  have hinit : Sbuf.init (some b) n h = .ok (some (window b n 0), h) := rfl
  rw [input, bind_of_ok hinit]
  dsimp only
  by_cases hshort : n < 20
  · rw [bind_of_ok (getiphdr_of_short hshort)]
    rfl
  rw [bind_of_ok (getiphdr_eq (Nat.le_of_eq hsize.symm) hn (Nat.le_of_not_lt hshort))]
  dsimp only
  split_ifs with hlong hv httl
  · rfl
  · rfl
  · rfl
  · have hsum : csum ((unsummed b).bytes 0 ((iphdr b).ipHl * 4)) ≠ (iphdr b).ipSum := by
      rcases hfails with h | h | h | h | h | h
      · exact absurd h hshort
      · exact absurd (.inl h) hlong
      · exact absurd (.inr h) hlong
      · exact absurd h hv
      · exact absurd h httl
      · exact h
    have hsize' : (unsummed b).size = n := hsize
    rw [show (window (unsummed b) n 20).block = unsummed b from rfl, bind_of_ok (hdrcsum_eq (by omega)), if_pos hsum]
    rfl

/-- Every datagram is dropped or handed to the handlers of its protocol. -/
theorem input_eq (hsize : b.size = n) (hn : n < 65536) (hkeeps : ∀ nip ∈ protlist, nip.Keeps) :
    ∃ calls, input protlist b n h = .ok (calls, h) ∧ (calls = [] ↔ Rejected protlist b n) ∧
      (¬Rejected protlist b n → ∃ o, (∀ ip ∈ calls.head?, ip = packet b o) ∧
        ∀ ip ∈ calls, ip.ipData.pos = 0 ∧ ip.ipData.block.size = (packet b o).ipData.block.size ∧
          ip.ipData.buflen = (packet b o).ipData.buflen) := by
  by_cases hfails : n < 20 ∨ n < (iphdr b).ipHl * 4 ∨ n < (iphdr b).ipLen ∨ (iphdr b).ipV ≠ 4 ∨
      (iphdr b).ipTtl = 0 ∨ csum ((unsummed b).bytes 0 ((iphdr b).ipHl * 4)) ≠ (iphdr b).ipSum
  · have hrejected : Rejected protlist b n := by
      unfold Rejected
      tauto
    exact ⟨[], input_of_unchecked hsize hn hfails, iff_of_true rfl hrejected, absurd hrejected⟩
  · have hiff : (∀ nip ∈ protlist, nip.nipProtocol ≠ (iphdr b).ipP) ↔ Rejected protlist b n := by
      unfold Rejected
      tauto
    simp only [not_or, Nat.not_lt, not_not, ne_eq] at hfails
    obtain ⟨hshort, hhdr, hlen, hv, httl, hsum⟩ := hfails
    obtain ⟨o, hinput⟩ := input_of_checked (h := h) protlist hsize hn hshort hhdr hlen hv httl hsum
    obtain ⟨calls, hcalls, hnil, hfirst⟩ := callhandler_head protlist (packet b o) h
    exact ⟨calls, hinput.trans hcalls, hnil.trans hiff, fun _ => ⟨o, hfirst, callhandler_all hkeeps rfl hcalls⟩⟩

/-! ## The lengths -/

/-- What a handler may rely on: the three lengths agree, and its data is what stands between
the end of the header and the total length. -/
structure Covers (b : Block) (n : Nat) (ip : Ip) : Prop where
  hdr : 20 ≤ (iphdr b).ipHl * 4
  le : (iphdr b).ipHl * 4 ≤ (iphdr b).ipLen
  received : (iphdr b).ipLen ≤ n
  start : ip.ipData.pos = 0 ∧ ip.ipData.block.size = n - (iphdr b).ipHl * 4
  length : ip.ipData.buflen = (iphdr b).ipLen - (iphdr b).ipHl * 4

theorem rest_packet (o : Nat) (hhdr : 20 ≤ (iphdr b).ipHl * 4) (hle : (iphdr b).ipHl * 4 ≤ (iphdr b).ipLen)
    (hlen : (iphdr b).ipLen < 65536) :
    (packet b o).ipData.rest = b.bytes ((iphdr b).ipHl * 4) ((iphdr b).ipLen - (iphdr b).ipHl * 4) := by
  have hmod : ((iphdr b).ipLen + 65536 - (iphdr b).ipHl * 4) % 65536 = (iphdr b).ipLen - (iphdr b).ipHl * 4 := by
    omega
  have hafter : (10 : Nat) + ([0, 0] : Bytes).length ≤ (iphdr b).ipHl * 4 := by
    simp only [List.length_cons, List.length_nil]
    omega
  have hbytes := Block.bytes_fill_after b (n := (iphdr b).ipLen - (iphdr b).ipHl * 4) [0, 0] hafter
  rw [← hbytes, Sbuf.rest]
  dsimp only [packet, ipOf, window]
  rw [hmod]
  exact Block.bytes_congr fun i _ => by rw [Nat.zero_add]; rfl

/-- The handlers are called for a datagram whose lengths agree, or for none. -/
theorem handlers_covered (hsize : b.size = n) (hn : n < 65536) (hkeeps : ∀ nip ∈ protlist, nip.Keeps) :
    ∃ calls, input protlist b n h = .ok (calls, h) ∧
      (((∀ ip ∈ calls, Covers b n ip) ∧ ∀ ip ∈ calls.head?, ip.ipData.rest =
          b.bytes ((iphdr b).ipHl * 4) ((iphdr b).ipLen - (iphdr b).ipHl * 4)) ↔
        Rejected protlist b n ∨ 5 ≤ (iphdr b).ipHl ∧ (iphdr b).ipHl * 4 ≤ (iphdr b).ipLen) := by
  obtain ⟨calls, hinput, hnil, hcalled⟩ := input_eq (h := h) hsize hn hkeeps
  refine ⟨calls, hinput, ?_⟩
  by_cases hrejected : Rejected protlist b n
  · rw [hnil.2 hrejected]
    exact iff_of_true ⟨by simp, by simp⟩ (.inl hrejected)
  obtain ⟨o, hfirst, hall⟩ := hcalled hrejected
  constructor
  · rintro ⟨hcovers, -⟩
    obtain ⟨ip, hip⟩ := List.exists_mem_of_ne_nil _ (mt hnil.1 hrejected)
    have hcover := hcovers ip hip
    have hhdr := hcover.hdr
    exact .inr ⟨by omega, hcover.le⟩
  · rintro (hreject | ⟨hhdr, hle⟩)
    · exact absurd hreject hrejected
    have hlen : (iphdr b).ipLen ≤ n := by
      simp only [Rejected, not_or, Nat.not_lt] at hrejected
      exact hrejected.2.2.1
    constructor
    · intro ip hip
      obtain ⟨hpos, hblock, hbuflen⟩ := hall ip hip
      refine ⟨by omega, hle, hlen, ⟨hpos, ?_⟩, ?_⟩
      · rw [hblock, ← hsize]
        rfl
      · rw [hbuflen]
        dsimp only [packet, ipOf, window]
        omega
    · intro ip hip
      rw [hfirst ip hip]
      exact rest_packet o (by omega) hle (by omega)

/-- A datagram in memory of its own. -/
def arrived (l : Bytes) : Block := ⟨l.length, fun i => l.getD i 0⟩

/-- A handler of ICMP that takes every packet. -/
def taker : Prot := { nipProtocol := 1, nipHandler := fun ip => (true, ip) }

theorem taker_keeps : ∀ nip ∈ [taker], nip.Keeps := by
  intro nip hnip ip hdeclined
  obtain rfl := List.mem_singleton.1 hnip
  cases hdeclined

/-- A header of no words, with the checksum of no words. -/
def headless : Block :=
  arrived [0x40, 0, 0, 20, 0, 0, 0, 0, 64, 1, 0xff, 0xff, 10, 0, 0, 1, 10, 0, 0, 2]

/-- It is handed on with its header as data. -/
theorem handlers_covered_headless :
    ∃ ip, input [taker] headless 20 .zeroed = .ok ([ip], .zeroed) ∧ (iphdr headless).ipHl * 4 = 0 ∧
      ip.ipData.buflen = 20 ∧ ¬Covers headless 20 ip :=
  ⟨_, rfl, rfl, rfl, fun hcover => absurd hcover.hdr (by decide)⟩

/-- One byte of data, and a checksum that is right. -/
def echo : Block :=
  arrived [0x45, 0, 0, 21, 0, 0, 0, 0, 64, 1, 0x66, 0xe6, 10, 0, 0, 1, 10, 0, 0, 2, 8]

theorem handlers_covered_echo :
    ∃ calls, input [taker] echo 21 .zeroed = .ok (calls, .zeroed) ∧
      (((∀ ip ∈ calls, Covers echo 21 ip) ∧ ∀ ip ∈ calls.head?, ip.ipData.rest = echo.bytes 20 1) ↔
        Rejected [taker] echo 21 ∨ 5 ≤ 5 ∧ 20 ≤ 21) :=
  handlers_covered rfl (by decide) taker_keeps

/-! ## The checksum -/

/-- The value is the Internet checksum if and only if the sum folds into a word at once; and so
a datagram that carries the Internet checksum gets past the check. -/
theorem stamped_accepted (b : Block) (h : Heap) :
    (∀ len : Nat, len ≤ b.size → len < 65536 →
      ∃ v, hdrcsum b len h = .ok (v, h) ∧ v < 65536 ∧
        (v = rfc1071 (b.bytes 0 len) ↔ FoldsOnce (b.bytes 0 len))) ∧
    ∀ (protlist : List Prot) (n : Nat), b.size = n → n < 65536 →
      (∀ nip ∈ protlist, nip.Keeps) → 20 ≤ (iphdr b).ipHl * 4 → (iphdr b).ipHl * 4 ≤ (iphdr b).ipLen →
      (iphdr b).ipLen ≤ n → (iphdr b).ipV = 4 → (iphdr b).ipTtl ≠ 0 →
      (∃ nip ∈ protlist, nip.nipProtocol = (iphdr b).ipP) →
      (iphdr b).ipSum = rfc1071 ((unsummed b).bytes 0 ((iphdr b).ipHl * 4)) →
      ∃ calls, input protlist b n h = .ok (calls, h) ∧
        (calls ≠ [] ↔ FoldsOnce ((unsummed b).bytes 0 ((iphdr b).ipHl * 4))) := by
  constructor
  · intro len hsize hlen
    refine ⟨_, hdrcsum_eq hsize, csum_lt _, csum_eq_rfc1071 ?_⟩
    rwa [Block.length_bytes]
  · intro protlist n hsize hn hkeeps hhdr hle hlen hv httl hprot hsum
    obtain ⟨calls, hinput, hnil, -⟩ := input_eq (h := h) hsize hn hkeeps
    refine ⟨calls, hinput, ?_⟩
    have hnone : ¬∀ nip ∈ protlist, nip.nipProtocol ≠ (iphdr b).ipP := by
      obtain ⟨nip, hnip, heq⟩ := hprot
      exact fun hall => hall nip hnip heq
    have hright := csum_eq_rfc1071 (l := (unsummed b).bytes 0 ((iphdr b).ipHl * 4)) (by
      rw [Block.length_bytes]
      omega)
    rw [ne_eq, hnil, ← hright, ← hsum]
    unfold Rejected
    constructor
    · intro haccepted
      by_contra hwrong
      exact haccepted (.inr (.inr (.inr (.inr (.inr (.inl hwrong))))))
    · intro heq hrejected
      rcases hrejected with h | h | h | h | h | h | h
      · omega
      · omega
      · omega
      · exact h hv
      · exact httl h
      · exact h heq
      · exact hnone h

/-- A header with the Internet checksum, whose words carry twice. -/
def twice : Block :=
  arrived [0x45, 0, 0, 20, 0x71, 0xe9, 0, 0, 64, 1, 0xfe, 0xff, 10, 0, 0, 1, 255, 255, 255, 255]

/-- It is dropped, since the code makes 0xffff of it. -/
theorem stamped_accepted_twice :
    (iphdr twice).ipSum = rfc1071 ((unsummed twice).bytes 0 20) ∧
      hdrcsum (unsummed twice) 20 .zeroed = .ok (0xffff, .zeroed) ∧ rfc1071 ((unsummed twice).bytes 0 20) = 0xfeff ∧
      input [taker] twice 20 .zeroed = .ok ([], .zeroed) := by
  have hcsum : csum ((unsummed twice).bytes 0 20) = 0xffff := by decide
  have hcode : hdrcsum (unsummed twice) 20 .zeroed = .ok (0xffff, .zeroed) := by
    rw [hdrcsum_eq (by decide), hcsum]
  exact ⟨by decide, hcode, by decide, input_of_unchecked rfl (by decide) (by decide)⟩

theorem stamped_accepted_echo :
    (∃ v, hdrcsum (unsummed echo) 20 .zeroed = .ok (v, .zeroed) ∧ v < 65536 ∧
        (v = rfc1071 ((unsummed echo).bytes 0 20) ↔ FoldsOnce ((unsummed echo).bytes 0 20))) ∧
      ∃ calls, input [taker] echo 21 .zeroed = .ok (calls, .zeroed) ∧
        (calls ≠ [] ↔ FoldsOnce ((unsummed echo).bytes 0 20)) :=
  ⟨(stamped_accepted (unsummed echo) .zeroed).1 20 (by decide) (by decide),
    (stamped_accepted echo .zeroed).2 [taker] 21 rfl (by decide) taker_keeps (by decide) (by decide) (by decide)
      (by decide) (by decide) ⟨taker, List.mem_cons_self, by decide⟩ (by decide)⟩

end

end Timps.Ipv4
