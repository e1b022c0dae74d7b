-- SUMMARY: ICMP: the checksum of a message, what is accepted, and the replies to echo requests.
import Timps.Ipv4.Output

/-!
# ICMP

The words of a message are added in network order, but the byte that an odd message ends in
goes through a word in host order, and the sum is folded once. An echo request is answered with
a packet that is built in a growing buffer.
-/

namespace Timps.Ipv4.Icmpv4

open Naf (Block Heap Mem Sbuf byteGet16 bytePut8 bytePut16)
open Onescomp (fold residue)
open Prog (bind_of_ok bind_of_error)

/-! ## The code -/

/-- `struct nafnet_icmp` -/
structure Icmp where
  icType : Nat
  icCode : Nat
  icCksum : Nat
  icId : Nat
  icSeqnum : Nat

/-- The loop over the words. A sum of at most 2^15 words fits in 32 bits. -/
def sumwords : Nat → Sbuf → Nat → Mem (Nat × Sbuf)
  | 0, _, _ => Prog.fault .diverge
  | fuel + 1, sb, sum =>
      if sb.bytesremaining > 1 then do
        let (w, sb) ← sb.get16
        sumwords fuel sb (sum + w)
      else pure (sum, sb)

/-- The odd byte is the first of a word, which is its lower half on a little-endian host. -/
def sumodd (sb : Sbuf) (sum : Nat) : Mem (Nat × Sbuf) :=
  if sb.bytesremaining > 0 then do
    let (byte, sb) ← sb.get8
    pure (sum + byte, sb)
  else pure (sum, sb)

/-- `naf_icmpv4__csum` -/
def csum (sb : Sbuf) : Mem (Nat × Sbuf) := do
  let origpos := sb.pos
  let (_, sb) ← sb.setpos 0
  let (sum, sb) ← sumwords (sb.buflen + 1) sb 0
  let (sum, sb) ← sumodd sb sum
  let sum := sum / 65536 + sum % 65536
  let (_, sb) ← sb.setpos origpos
  -- `~sum`, in 16 bits
  pure (65535 - sum % 65536, sb)

/-- `naf_ipv4_ip_new`. A buffer that is refused is not noticed, and stays zeroed. -/
def ipnew : Mem (Option Ip) := do
  match ← Naf.malloc 80 with
  | none => pure none
  | some _ => do
      let data ← Sbuf.init none 0
      pure (some { ipFlags := 0, ipFields := 0, ipOptions := 0, ipTos := 0, ipId := 0, ipFragoff := 0, ipTtl := 0,
                   ipProtocol := 0, ipSaddr := 0, ipDaddr := 0,
                   ipData := data.getD ⟨false, false, ⟨0, fun _ => 0⟩, 0, 0⟩ })

/-- The data of the request, behind the header of the reply. -/
def putdata (olddata sb : Sbuf) : Mem Sbuf :=
  if olddata.bytesremaining > 0 then do
    let data ← olddata.block.load olddata.pos (olddata.bytesremaining.toNat % 65536)
    let (_, sb) ← sb.putraw data
    pure sb
  else pure sb

/-- The buffer is trimmed to what was put, and the checksum goes to its place. -/
def sealmsg (ckpos : Nat) (sb : Sbuf) : Mem Sbuf := do
  let sb := { sb with buflen := sb.pos }
  let (_, sb) ← sb.setpos ckpos
  let (sum, sb) ← csum sb
  let (_, sb) ← sb.put16 sum
  pure sb

/-- The reply, as `sendechoreply` passes it to `naf_ipv4_output`. -/
def echoreply (oldip : Ip) (oldic : Icmp) : Mem (Option Ip) := do
  match ← ipnew with
  | none => pure none
  | some ip => do
      let (_, sb) ← ip.ipData.put8 0
      let (_, sb) ← sb.put8 oldic.icCode
      let ckpos := sb.pos
      let (_, sb) ← sb.put16 0
      let (_, sb) ← sb.put16 oldic.icId
      let (_, sb) ← sb.put16 oldic.icSeqnum
      let sb ← putdata oldip.ipData sb
      let sb ← sealmsg ckpos sb
      pure (some { ip with ipProtocol := 1, ipSaddr := oldip.ipDaddr, ipDaddr := oldip.ipSaddr,
                           ipFields := 0x0010 ||| 0x0020 ||| 0x0040, ipData := sb })

/-- The packet that was passed to `naf_ipv4_output`, and what that passed to the interface. -/
def sendechoreply (routetable : List Rt) (oldip : Ip) (oldic : Icmp) : Mem (Option (Ip × Option Sbuf)) := do
  match ← echoreply oldip oldic with
  | none => pure none
  | some ip => do
      let (_, sent) ← output routetable none ip
      pure (some (ip, sent))

/-- The header of a message, with its checksum set to 0 in place, and whether that is the one
that the code computes, which it does twice. -/
def readicmp (ip : Ip) : Mem (Bool × Icmp × Ip) := do
  let (icType, sb) ← ip.ipData.get8
  let (icCode, sb) ← sb.get8
  let (icCksum, sb) ← sb.get16
  -- the position is a `naf_u16_t`
  let (_, sb) ← sb.setpos ((sb.pos + 65534) % 65536)
  let (_, sb) ← sb.put16 0
  let (icId, sb) ← sb.get16
  let (icSeqnum, sb) ← sb.get16
  let (_, sb) ← csum sb
  let (nsum, sb) ← csum sb
  pure (nsum == icCksum, { icType, icCode, icCksum, icId, icSeqnum }, { ip with ipData := sb })

/-- `naf_icmpv4_input`: whether it took the packet, and the reply that was sent. -/
def input (routetable : List Rt) (ip : Ip) : Mem (Bool × Option (Ip × Option Sbuf)) := do
  let (right, ic, ip) ← readicmp ip
  if right = false then pure (false, none)
  -- an echo reply, or a destination that is unreachable
  else if ic.icType = 0 ∨ ic.icType = 3 then pure (true, none)
  else if ic.icType = 8 then do
    let sent ← sendechoreply routetable ip ic
    pure (true, sent)
  else pure (false, none)

/-! ## The sum -/

/-- The words in network order, but an odd byte as it is. -/
def words : Bytes → List Nat
  | c :: d :: l => byteGet16 c d :: words l
  | [c] => [c.toNat]
  | [] => []

/-- The byte that an odd message ends in, and 0 for an even one. -/
def oddbyte : Bytes → Nat
  | _ :: _ :: l => oddbyte l
  | [c] => c.toNat
  | [] => 0

/-- The value that the code computes. -/
def value (l : Bytes) : Nat := 65535 - fold (words l).sum % 65536

theorem value_lt (l : Bytes) : value l < 65536 := by
  unfold value
  omega

theorem oddbyte_lt (l : Bytes) : oddbyte l < 256 := by
  induction l using oddbyte.induct with
  | case1 _ _ l ih => exact ih
  | case2 c => exact c.toNat_lt
  | case3 => exact Nat.zero_lt_succ _

/-- The odd byte is worth 256 times as much in network order. -/
theorem sum_netWords (l : Bytes) : (netWords l).sum = (words l).sum + 255 * oddbyte l := by
  induction l using words.induct with
  | case1 c d l ih =>
      rw [netWords, words, oddbyte, List.sum_cons, List.sum_cons, ih, Nat.add_assoc]
  | case2 c =>
      rw [netWords, words, oddbyte, List.sum_singleton, List.sum_singleton, Naf.byteGet16_eq, UInt8.toNat_zero]
      omega
  | case3 => rfl

theorem netWords_lt (l : Bytes) : ∀ w ∈ netWords l, w < 65536 := by
  intro w hw
  rw [netWords_eq] at hw
  obtain ⟨v, -, rfl⟩ := List.mem_map.1 hw
  exact Onescomp.swap_lt v

/-- The sum of a message folds into a word at once. -/
def FoldsOnce (l : Bytes) : Prop := fold (netWords l).sum < 65536

instance (l : Bytes) : Decidable (FoldsOnce l) := inferInstanceAs (Decidable (_ < _))

theorem rfc1071_eq_residue (l : Bytes) : rfc1071 l = 65535 - residue (netWords l).sum := by
  rw [rfc1071, Onescomp.sum_eq (netWords_lt l)]

theorem sum_netWords_le (l : Bytes) : (netWords l).sum ≤ 32768 * (l.length + 1) := by
  induction l using netWords.induct with
  | case1 c d l ih =>
      have hword := Naf.byteGet16_lt c d
      simp only [netWords, List.sum_cons, List.length_cons]
      omega
  | case2 c =>
      have hword := Naf.byteGet16_lt c 0
      simp only [netWords, List.sum_cons, List.sum_nil, List.length_cons, List.length_nil]
      omega
  | case3 => exact Nat.zero_le _

/-- A byte that counts 255 times too little is not made up for by a carry that is dropped. -/
theorem fold_ne {n o : Nat} (hn : n < 2 ^ 32) (ho : o ≠ 0) (hlt : o < 256) :
    fold n % 65536 ≠ residue (n + 255 * o) := by
  have hmod := Onescomp.residue_mod (n + 255 * o)
  intro heq
  rw [← heq] at hmod
  unfold fold at hmod
  omega

/-- The value is the Internet checksum if and only if no byte is odd and no second carry is dropped. -/
theorem value_eq_rfc1071 {l : Bytes} (hl : l.length < 65536) :
    value l = rfc1071 l ↔ oddbyte l = 0 ∧ FoldsOnce l := by
  have hle := sum_netWords_le l
  have hlt := oddbyte_lt l
  have hres := Onescomp.residue_lt (netWords l).sum
  have hsum := sum_netWords l
  have hiff : value l = rfc1071 l ↔ fold (words l).sum % 65536 = residue (netWords l).sum := by
    rw [value, rfc1071_eq_residue]
    omega
  rw [hiff]
  by_cases hodd : oddbyte l = 0
  · have hwords : (words l).sum = (netWords l).sum := by omega
    rw [hwords, FoldsOnce]
    by_cases hfold : fold (netWords l).sum < 65536
    · rw [Onescomp.residue_of_fold_lt hfold, Nat.mod_eq_of_lt hfold]
      exact iff_of_true rfl ⟨hodd, hfold⟩
    · rw [Onescomp.residue_of_le_fold (by omega) (Nat.le_of_not_lt hfold)]
      exact iff_of_false (by omega) fun h => hfold h.2
  · rw [hsum]
    exact iff_of_false (fold_ne (by omega) hodd hlt) fun h => hodd h.1

/-! ## What the code computes -/

section

variable {sb : Sbuf} {h : Heap}

theorem bytesremaining_rest (ok : sb.Readable) : sb.bytesremaining = (sb.rest.length : Int) := by
  rw [ok.bytesremaining, Sbuf.length_rest]

/-- The loop leaves at most a byte, and with it the words ahead are added. -/
theorem sumwords_eq {fuel : Nat} (sum : Nat) (ok : sb.Readable) (hfuel : sb.rest.length < 2 * fuel) :
    ∃ sum' sb', sumwords fuel sb sum h = .ok ((sum', sb'), h) ∧
      sumodd sb' sum' h = .ok ((sum + (words sb.rest).sum, sb.skip sb.rest.length), h) := by
  induction fuel generalizing sb sum with
  | zero => omega
  | succ fuel ih =>
      have hremaining := bytesremaining_rest ok
      have hget8 : sb.get 1 (fun v => (v.getD 0 0).toNat) h = _ := Sbuf.get_rest ok
      have hget16 : sb.get 2 (fun v => byteGet16 (v.getD 0 0) (v.getD 1 0)) h = _ := Sbuf.get_rest ok
      unfold sumwords
      -- the loop takes two bytes at a time, and the odd one is left to what follows it
      match hrest : sb.rest with
      | [] =>
          rw [hrest] at hremaining
          refine ⟨sum, sb, ?_, ?_⟩
          · rw [if_neg (by simp [hremaining])]
            rfl
          · rw [sumodd, if_neg (by simp [hremaining])]
            rfl
      | [c] =>
          rw [hrest] at hremaining hget8
          refine ⟨sum, sb, ?_, ?_⟩
          · rw [if_neg (by simp [hremaining])]
            rfl
          · rw [sumodd, if_pos (by simp [hremaining]), Sbuf.get8, bind_of_ok (hget8.trans (if_pos (by simp)))]
            rfl
      | c :: d :: l =>
          have hlen : 2 ≤ sb.rest.length := by simp [hrest]
          have hskip : (sb.skip 2).rest = l := by rw [Sbuf.rest_skip hlen, hrest]; rfl
          rw [hrest] at hget16 hremaining hfuel
          have hleft : (sb.skip 2).rest.length < 2 * fuel := by
            rw [hskip]
            simp only [List.length_cons] at hfuel
            omega
          obtain ⟨sum', sb', hloop, hodd⟩ := ih (sum + byteGet16 c d) (ok.skip hlen) hleft
          refine ⟨sum', sb', ?_, ?_⟩
          · rw [if_pos (by rw [hremaining]; simp only [List.length_cons]; omega), Sbuf.get16,
              bind_of_ok (hget16.trans (if_pos (by simp)))]
            exact hloop
          · have hskips : (sb.skip 2).skip l.length = sb.skip (c :: d :: l).length := by
              simp only [Sbuf.skip, List.length_cons]
              rw [Nat.add_assoc, Nat.add_comm 2]
            rw [hodd, hskip, hskips, words, List.sum_cons, Nat.add_assoc]

/-- The value is that of the whole message, and the cursor comes back. -/
theorem csum_eq (ok : sb.Readable) : csum sb h = .ok ((value (sb.block.bytes 0 sb.buflen), sb), h) := by
  have ok₀ : ({ sb with pos := 0 } : Sbuf).Readable := ⟨ok.size, ok.lt, Nat.zero_le _⟩
  have hrest : ({ sb with pos := 0 } : Sbuf).rest = sb.block.bytes 0 sb.buflen := rfl
  have hfuel : ({ sb with pos := 0 } : Sbuf).rest.length < 2 * (sb.buflen + 1) := by
    rw [hrest, Block.length_bytes]
    omega
  have hback : ∀ n, (({ sb with pos := 0 } : Sbuf).skip n).setpos sb.pos h = .ok ((true, sb), h) :=
    fun n => Sbuf.setpos_of_le ok.pos_le
  obtain ⟨sum, sb', hwords, hodd⟩ := sumwords_eq (h := h) 0 ok₀ hfuel
  rw [csum, bind_of_ok (Sbuf.setpos_of_le (Nat.zero_le _))]
  dsimp only
  rw [bind_of_ok hwords]
  dsimp only
  rw [bind_of_ok hodd, hrest, Nat.zero_add]
  dsimp only
  rw [bind_of_ok (hback _)]
  rfl

end

/-! ## Messages -/

/-- The header at the start of a message. -/
def icmphdr (b : Block) : Icmp :=
  { icType := (b.byte 0).toNat
    icCode := (b.byte 1).toNat
    icCksum := byteGet16 (b.byte 2) (b.byte 3)
    icId := byteGet16 (b.byte 4) (b.byte 5)
    icSeqnum := byteGet16 (b.byte 6) (b.byte 7) }

/-- The message with a checksum field of 0. -/
def unsummed (b : Block) : Block := b.fill 2 [0, 0]

section

variable {b : Block} {n : Nat} {h : Heap} {ip : Ip}

theorem window_readable {pos : Nat} (hsize : n ≤ b.size) (hn : n < 65536) (hpos : pos ≤ n) :
    (window b n pos).Readable := ⟨hsize, hn, hpos⟩

/-- A message is read, and its checksum compared with the value of the code. -/
theorem readicmp_eq (hdata : ip.ipData = window b n 0) (hsize : n ≤ b.size) (hn : n < 65536) (hlen : 8 ≤ n) :
    readicmp ip h =
      .ok ((value ((unsummed b).bytes 0 n) == (icmphdr b).icCksum, icmphdr b,
        { ip with ipData := window (unsummed b) n 8 }), h) := by
  have hput : (window b n 2).put16 0 h = .ok ((2, window (unsummed b) n 4), h) :=
    put_window hsize hn (by simp only [Naf.length_bytePut16]; omega)
  have hset : (window b n 4).setpos (((window b n 4).pos + 65534) % 65536) h = .ok ((true, window b n 2), h) := by
    have hpos : (window b n 4).pos = 4 := rfl
    rw [hpos, show (4 + 65534) % 65536 = 2 by omega]
    exact Sbuf.setpos_of_le (show 2 ≤ n by omega)
  have hsize' : n ≤ (unsummed b).size := hsize
  have hid : (unsummed b).bytes 4 2 = b.bytes 4 2 := Block.bytes_fill_after b _ (by decide)
  have hseqnum : (unsummed b).bytes 6 2 = b.bytes 6 2 := Block.bytes_fill_after b _ (by decide)
  have hsum := csum_eq (h := h) (window_readable hsize' hn (show 8 ≤ n by omega))
  rw [readicmp, hdata]
  simp only [Sbuf.get8, Sbuf.get16]
  rw [bind_of_ok (get_window hsize hn (by omega))]
  dsimp only
  rw [bind_of_ok (get_window hsize hn (by omega))]
  dsimp only
  rw [bind_of_ok (get_window hsize hn (by omega))]
  dsimp only
  rw [bind_of_ok hset]
  dsimp only
  rw [bind_of_ok hput]
  dsimp only
  rw [bind_of_ok (get_window hsize' hn (by omega))]
  dsimp only
  rw [bind_of_ok (get_window hsize' hn (by omega)), hid, hseqnum]
  dsimp only
  rw [bind_of_ok hsum]
  dsimp only
  rw [bind_of_ok hsum]
  rfl

/-- `naf_icmpv4_input` takes a message if its checksum is accepted and its type is one that it knows, and does
nothing with any other. -/
theorem input_takes {right : Bool} {ic : Icmp} {ip' : Ip} {h₁ h' : Heap} {r : Bool × Option (Ip × Option Sbuf)}
    (routetable : List Rt) (hread : readicmp ip h = .ok ((right, ic, ip'), h₁))
    (hr : input routetable ip h = .ok (r, h')) :
    (r.1 = true ↔ right = true ∧ (ic.icType = 0 ∨ ic.icType = 3 ∨ ic.icType = 8)) ∧
      (r.1 = false → r.2 = none ∧ h' = h₁) := by
  rw [input, bind_of_ok hread] at hr
  dsimp only at hr
  cases right with
  | false =>
      rw [if_pos rfl] at hr
      cases Prog.pure_ok.1 hr
      exact ⟨by simp, fun _ => ⟨rfl, rfl⟩⟩
  | true =>
      rw [if_neg (by decide)] at hr
      by_cases hquiet : ic.icType = 0 ∨ ic.icType = 3
      · rw [if_pos hquiet] at hr
        cases Prog.pure_ok.1 hr
        have htype : ic.icType = 0 ∨ ic.icType = 3 ∨ ic.icType = 8 := hquiet.elim .inl fun h => .inr (.inl h)
        exact ⟨⟨fun _ => ⟨rfl, htype⟩, fun _ => rfl⟩, fun h => nomatch h⟩
      rw [if_neg hquiet] at hr
      by_cases hecho : ic.icType = 8
      · rw [if_pos hecho] at hr
        obtain ⟨sent, h₂, -, hr⟩ := Prog.bind_ok.1 hr
        cases Prog.pure_ok.1 hr
        exact ⟨by simp [hecho], fun h => nomatch h⟩
      · rw [if_neg hecho] at hr
        cases Prog.pure_ok.1 hr
        rw [not_or] at hquiet
        exact ⟨by simp [hquiet.1, hquiet.2, hecho], fun _ => ⟨rfl, rfl⟩⟩

end

/-! ## The checksum -/

/-- The message as it arrives with a checksum. -/
def stamped (b : Block) (sum : Nat) : Block := b.fill 2 (bytePut16 sum)

/-- Writing what is there changes nothing. -/
theorem fill_of_bytes {b : Block} {off : Nat} {v : Bytes} (hv : b.bytes off v.length = v) : b.fill off v = b := by
  have hbyte : ∀ i, off ≤ i ∧ i < off + v.length → v.getD (i - off) 0 = b.byte i := by
    intro i hi
    rw [← hv, List.getD_eq_getElem _ _ (by rw [Block.length_bytes]; omega), Block.getElem_bytes,
      Nat.add_sub_of_le hi.1]
  cases b with
  | mk size byte =>
      simp only [Block.fill, Block.mk.injEq, true_and]
      funext i
      split
      · exact hbyte i ‹_›
      · rfl

theorem unsummed_stamped {b : Block} (sum : Nat) (hzero : b.bytes 2 2 = [0, 0]) (n : Nat) :
    (unsummed (stamped b sum)).bytes 0 n = b.bytes 0 n := by
  have hfill := Block.fill_fill b 2 (s := []) (v := bytePut16 sum) (w := [0, 0]) (Nat.le_refl _)
  simp only [List.nil_append, List.length_nil, Nat.add_zero] at hfill
  rw [unsummed, stamped, hfill, fill_of_bytes hzero]

theorem icCksum_stamped (b : Block) {sum : Nat} (hsum : sum < 65536) : (icmphdr (stamped b sum)).icCksum = sum :=
  Naf.byteGet16_bytePut16 hsum

/-- The value is the Internet checksum, and the messages accepted are those that carry it, if and
only if the message does not end in an odd byte other than 0 and its sum folds at once. -/
theorem checksum_checked {sb : Sbuf} {h : Heap} (ok : sb.Readable) (hlen : 8 ≤ sb.buflen)
    (hzero : sb.block.bytes 2 2 = [0, 0]) :
    ∃ v, csum sb h = .ok ((v, sb), h) ∧
      ((v = rfc1071 (sb.block.bytes 0 sb.buflen) ∧
          ∀ ip sum, sum < 65536 → ip.ipData = window (stamped sb.block sum) sb.buflen 0 →
            ∃ ic ip', readicmp ip h =
              .ok ((decide (sum = rfc1071 (sb.block.bytes 0 sb.buflen)), ic, ip'), h)) ↔
        oddbyte (sb.block.bytes 0 sb.buflen) = 0 ∧ FoldsOnce (sb.block.bytes 0 sb.buflen)) := by
  have hright := value_eq_rfc1071 (l := sb.block.bytes 0 sb.buflen) (by rw [Block.length_bytes]; exact ok.lt)
  refine ⟨_, csum_eq ok, ?_⟩
  rw [← hright]
  refine ⟨And.left, fun hvalue => ⟨hvalue, fun ip sum hsum hdata => ?_⟩⟩
  have hread := readicmp_eq (h := h) hdata (show sb.buflen ≤ sb.block.size from ok.size) ok.lt hlen
  have hbool : ∀ v : Nat, (v == sum) = decide (sum = v) := fun v => decide_eq_decide.2 eq_comm
  rw [unsummed_stamped sum hzero, icCksum_stamped _ hsum, hvalue, hbool] at hread
  exact ⟨_, _, hread⟩

/-- A message that ends in an odd byte. -/
def ping : Block := arrived [8, 0, 0, 0, 0, 1, 0, 1, 1]

/-- The code takes the byte for the lower half of a word. -/
theorem checksum_checked_odd :
    csum (window ping 9 0) .zeroed = .ok ((0xf7fc, window ping 9 0), .zeroed) ∧
      rfc1071 (ping.bytes 0 9) = 0xf6fd ∧
      ∃ ic ip, readicmp { probe with ipData := window (stamped ping 0xf6fd) 9 0 } .zeroed =
        .ok ((false, ic, ip), .zeroed) := by
  have hdata : ({ probe with ipData := window (stamped ping 0xf6fd) 9 0 } : Ip).ipData =
      window (stamped ping 0xf6fd) 9 0 := rfl
  have hread := readicmp_eq (h := .zeroed) hdata (show 9 ≤ ping.size by decide) (by decide) (by decide)
  have hvalue : value (ping.bytes 0 9) = 0xf7fc := by decide
  rw [unsummed_stamped _ rfl, hvalue, show (0xf7fc == (icmphdr (stamped ping 0xf6fd)).icCksum) = false by decide]
    at hread
  refine ⟨?_, by decide, _, _, hread⟩
  rw [csum_eq (window_readable (by decide) (by decide) (by decide))]
  exact congrArg (fun v => Except.ok ((v, window ping 9 0), Heap.zeroed)) hvalue

/-- An echo request with four bytes of data, without its checksum. -/
def unstamped : Block := arrived [8, 0, 0, 0, 0, 1, 0, 1, 0x61, 0x62, 0x63, 0x64]

theorem checksum_checked_data :
    ∃ v, csum (window unstamped 12 0) .zeroed = .ok ((v, window unstamped 12 0), .zeroed) ∧
      ((v = rfc1071 (unstamped.bytes 0 12) ∧
          ∀ ip sum, sum < 65536 → ip.ipData = window (stamped unstamped sum) 12 0 →
            ∃ ic ip', readicmp ip .zeroed = .ok ((decide (sum = rfc1071 (unstamped.bytes 0 12)), ic, ip'), .zeroed)) ↔
        oddbyte (unstamped.bytes 0 12) = 0 ∧ FoldsOnce (unstamped.bytes 0 12)) :=
  checksum_checked (window_readable (by decide) (by decide) (by decide)) (by decide) rfl

/-! ## Replies -/

/-- The header of a reply in front of the checksum, and behind it. -/
def replyhead (ic : Icmp) : List Bytes := [bytePut8 0, bytePut8 ic.icCode]

def replytail (ic : Icmp) : List Bytes := [bytePut16 0, bytePut16 ic.icId, bytePut16 ic.icSeqnum]

theorem echoreply_pieces (oldip : Ip) (oldic : Icmp) : echoreply oldip oldic = (do
    match ← ipnew with
    | none => pure none
    | some ip => do
        let sb ← ip.ipData.putEach (replyhead oldic)
        let ckpos := sb.pos
        let sb ← sb.putEach (replytail oldic)
        let sb ← putdata oldip.ipData sb
        let sb ← sealmsg ckpos sb
        pure (some { ip with ipProtocol := 1, ipSaddr := oldip.ipDaddr, ipDaddr := oldip.ipSaddr,
                             ipFields := 0x0010 ||| 0x0020 ||| 0x0040, ipData := sb })) := by
  simp only [echoreply, Sbuf.putEach, replyhead, replytail, bind_assoc, pure_bind]
  rfl

section

variable {sb : Sbuf} {h : Heap} {p r v : Bytes} {n : Nat}

/-- A buffer that was written is sealed with the checksum of what was written. -/
theorem sealmsg_eq (ok : sb.Ok) (hwritten : sb.written = p ++ (bytePut16 0 ++ r)) :
    ∃ sb', sealmsg p.length sb h = .ok (sb', h) ∧ sb'.Readable ∧ sb'.buflen = sb.pos ∧
      sb'.block.bytes 0 sb'.buflen = p ++ (bytePut16 (value (p ++ (bytePut16 0 ++ r))) ++ r) := by
  have hlength : sb.pos = (p ++ (bytePut16 0 ++ r)).length := by
    rw [← hwritten, Sbuf.length_written]
  have hpos : sb.pos = p.length + (2 + r.length) := by
    rw [hlength, List.length_append, List.length_append, Naf.length_bytePut16]
  have hle := ok.pos_le
  have hsize := ok.size
  have hlt := ok.lt
  generalize hv : value (p ++ (bytePut16 0 ++ r)) = sum
  have hreadable : ({ sb with buflen := sb.pos, pos := p.length } : Sbuf).Readable :=
    ⟨show sb.pos ≤ sb.block.size by omega, show sb.pos < 65536 by omega, show p.length ≤ sb.pos by omega⟩
  have hsum := csum_eq (h := h) hreadable
  have hbytes : sb.block.bytes 0 sb.pos = p ++ (bytePut16 0 ++ r) := hwritten
  dsimp only at hsum
  rw [hbytes, hv] at hsum
  have hroom : ¬({ sb with buflen := sb.pos, pos := p.length } : Sbuf).bytesremaining < (bytePut16 sum).length := by
    simp only [Sbuf.bytesremaining, Naf.length_bytePut16]
    omega
  have hput := Sbuf.put_of_reserved (Sbuf.reserve_of_room (h := h) hroom)
    (show p.length + 2 ≤ sb.block.size by omega) (show p.length + 2 < 65536 by omega)
  have hover := bytes_overwrite (b := sb.block) (p := p) (v := bytePut16 sum) (w := bytePut16 0) (r := r) rfl
    (by rw [← hlength]; exact hbytes)
  refine ⟨{ sb with block := sb.block.fill p.length (bytePut16 sum), buflen := sb.pos, pos := p.length + 2 }, ?_,
    ⟨show sb.pos ≤ sb.block.size by omega, show sb.pos < 65536 by omega, show p.length + 2 ≤ sb.pos by omega⟩,
    rfl, ?_⟩
  · have hset : ({ sb with buflen := sb.pos } : Sbuf).setpos p.length h =
        .ok ((true, { sb with buflen := sb.pos, pos := p.length }), h) :=
      Sbuf.setpos_of_le (show p.length ≤ sb.pos by omega)
    rw [sealmsg, bind_of_ok hset]
    dsimp only
    rw [bind_of_ok hsum, Sbuf.put16, bind_of_ok hput]
    rfl
  · rw [← hlength] at hover
    exact hover

/-- A small request fits behind the header. -/
theorem put_short (ok : sb.Ok) (hpos : sb.pos = 8) (hlen : sb.buflen = 512) (hn : v.length ≤ 504) :
    ∃ sb', sb.put v h = .ok ((v.length, sb'), h) ∧ Naf.Sbuf.Appends sb v sb' := by
  obtain ⟨sb', hput, happ, -⟩ := Sbuf.put_appends (h := h) (v := v) ok (by omega)
  exact ⟨sb', hput, happ⟩

/-- A larger one makes the buffer grow, within the maximum and with memory for it. -/
theorem put_long (ok : sb.Ok) (hauto : sb.autoresize = true) (hpos : sb.pos = 8) (hlen : sb.buflen = 512)
    (hn : v.length ≤ 32256) (hlong : 504 < v.length) (hwilling : h.unwilling = false) :
    ∃ sb' h', sb.put v h = .ok ((v.length, sb'), h') ∧ Naf.Sbuf.Appends sb v sb' := by
  have hsome : ((sb.shape h).put v.length) ≠ none := by
    have hmax : ¬32768 < sb.buflen + 256 * Sbuf.steps v.length := by
      simp only [Sbuf.steps]
      omega
    have hroom : ¬v.length ≤ sb.buflen - sb.pos := by omega
    have hrefuse : ¬h.refuse.head? = some true := by simpa [Heap.unwilling] using hwilling
    unfold Sbuf.Shape.put Sbuf.shape
    dsimp only
    rw [if_neg hroom, if_neg (by simp [hauto, hmax, hrefuse])]
    exact Option.some_ne_none _
  obtain ⟨s, hs⟩ := Option.ne_none_iff_exists'.1 hsome
  obtain ⟨sb', h', hput, happ, -⟩ := Sbuf.put_of_shape ok hs
  exact ⟨sb', h', hput, happ⟩

/-- The length that the buffer would grow to is beyond the maximum, or there is no memory for it. -/
def Unput (n : Nat) (h : Heap) : Prop := 32768 < (512 + 256 * Sbuf.steps n) % 65536 ∨ h.unwilling = true

theorem reserve_long (ok : sb.Ok) (hpos : sb.pos = 8) (hlen : sb.buflen = 512) (hlong : 504 < v.length)
    (hn : v.length < 65536) : sb.reserve v.length h = sb.extendbuf v.length h := by
  have hshort : sb.bytesremaining < v.length := by
    rw [ok.bytesremaining]
    omega
  rw [Sbuf.reserve_of_short hshort, Nat.mod_eq_of_lt hn]

/-- Then nothing is put. -/
theorem put_unput (ok : sb.Ok) (hpos : sb.pos = 8) (hlen : sb.buflen = 512) (hlong : 504 < v.length)
    (hn : v.length < 65536) (hunput : Unput v.length h) : ∃ h', sb.put v h = .ok ((0, sb), h') := by
  have hrefused : Sbuf.Refused sb v.length h := by
    rw [Sbuf.Refused, hlen]
    exact .inr hunput
  obtain ⟨h', hextend⟩ := Sbuf.extendbuf_refused ok.lt hn hrefused
  exact ⟨h', Sbuf.put_of_refused ((reserve_long ok hpos hlen hlong hn).trans hextend)⟩

/-- Otherwise what is too long wraps the 16-bit length, and a copy leaves the block. -/
theorem put_wrapped (ok : sb.Ok) (hauto : sb.autoresize = true) (hpos : sb.pos = 8) (hlen : sb.buflen = 512)
    (hlong : 32256 < v.length) (hn : v.length < 65536) (hput : ¬Unput v.length h) :
    sb.put v h = .error .outOfBounds := by
  have hrefused : ¬Sbuf.Refused sb v.length h := by
    rw [Sbuf.Refused, hlen, hauto]
    exact fun h => hput (h.resolve_left (by decide))
  have hreserve := reserve_long (h := h) ok hpos hlen (by omega) hn
  have hextend := Sbuf.extendbuf_granted ok.lt hn hrefused ok.size
  by_cases hcopied : sb.buflen ≤ Sbuf.grown sb.buflen v.length
  · rw [if_pos hcopied] at hextend
    -- the length came back to what it was
    have hsame : Sbuf.grown sb.buflen v.length = 512 := by
      have hmax : ¬32768 < (512 + 256 * Sbuf.steps v.length) % 65536 := fun hmax => hput (.inl hmax)
      rw [Sbuf.grown_eq ok.lt hn, hlen] at hcopied ⊢
      simp only [Sbuf.steps] at *
      omega
    have hsize : (sb.extended v.length h).block.size = 512 := hsame
    have hat : (sb.extended v.length h).pos = 8 := hpos
    have hstore : (sb.extended v.length h).block.store (sb.extended v.length h).pos v h.next =
        .error .outOfBounds := by
      rw [Block.store, if_neg (by omega)]
    rw [Sbuf.put, bind_of_ok (hreserve.trans hextend)]
    exact bind_of_error hstore
  · rw [if_neg hcopied] at hextend
    exact bind_of_error (hreserve.trans hextend)

/-- The data of a request. -/
theorem putdata_eq {b : Block} (ok : sb.Ok) (hsize : 8 + n ≤ b.size) (hn : 8 + n < 65536) :
    putdata (window b (8 + n) 8) sb h = (do let (_, sb) ← sb.put (b.bytes 8 n); pure sb : Mem Sbuf) h := by
  have hremaining : (window b (8 + n) 8).bytesremaining = n := by
    simp only [Sbuf.bytesremaining, window]
    omega
  rw [putdata, hremaining]
  by_cases hzero : n = 0
  · subst hzero
    rw [if_neg (by omega), Block.bytes_zero, bind_of_ok (Sbuf.put_nil ok)]
  · have hload : (window b (8 + n) 8).block.load (window b (8 + n) 8).pos n h = .ok (b.bytes 8 n, h) :=
      Block.load_of_le hsize
    rw [if_pos (by omega), Int.toNat_natCast, Nat.mod_eq_of_lt (by omega), bind_of_ok hload]
    rfl

/-- The packet of a reply. -/
def replyip (oldip : Ip) (data : Sbuf) : Ip :=
  { ipFlags := 0, ipFields := 0x0010 ||| 0x0020 ||| 0x0040, ipOptions := 0, ipTos := 0, ipId := 0, ipFragoff := 0,
    ipTtl := 0, ipProtocol := 1, ipSaddr := oldip.ipDaddr, ipDaddr := oldip.ipSaddr, ipData := data }

/-- The buffer that was refused. -/
def nobuf : Sbuf := ⟨false, false, ⟨0, fun _ => 0⟩, 0, 0⟩

theorem nobuf_ok : nobuf.Ok := ⟨rfl, by decide, by decide⟩

theorem put_nobuf (v : Bytes) (h : Heap) : nobuf.put v h = .ok ((0, nobuf), h) := by
  by_cases hv : v = []
  · subst hv
    exact Sbuf.put_nil nobuf_ok
  · have hlen := List.length_pos_iff.2 hv
    have hshort : nobuf.bytesremaining < v.length := by
      rw [nobuf_ok.bytesremaining]
      change ((0 : Nat) : Int) < v.length
      omega
    apply Sbuf.put_of_refused
    rw [Sbuf.reserve_of_short hshort]
    rfl

theorem putEach_nobuf (vs : List Bytes) (h : Heap) : nobuf.putEach vs h = .ok (nobuf, h) := by
  induction vs with
  | nil => rfl
  | cons v vs ih =>
      rw [Sbuf.putEach, bind_of_ok (put_nobuf v h)]
      exact ih

variable {oldip : Ip} {ic : Icmp} {b : Block}

/-- A packet without a buffer is passed on all the same. -/
theorem echoreply_nobuf (hdata : oldip.ipData = window b (8 + n) 8) (hsize : 8 + n ≤ b.size) (hn : 8 + n < 65536)
    (hfirst : h.unwilling = false) (hsecond : h.next.unwilling = true) :
    echoreply oldip ic h = .ok (some (replyip oldip nobuf), h.next.next) := by
  have hnew : ipnew h = .ok (some { replyip oldip nobuf with
      ipProtocol := 0, ipSaddr := 0, ipDaddr := 0, ipFields := 0 }, h.next.next) := by
    have hinit : Sbuf.init none 0 h.next = .ok (none, h.next.next) := by
      rw [Sbuf.init, bind_of_ok (Naf.malloc_refused hsecond)]
      rfl
    rw [ipnew, bind_of_ok (Naf.malloc_granted hfirst)]
    exact bind_of_ok hinit
  have hput : putdata (window b (8 + n) 8) nobuf h.next.next = .ok (nobuf, h.next.next) := by
    rw [putdata_eq nobuf_ok hsize hn]
    exact bind_of_ok (put_nobuf _ _)
  have hseal : sealmsg nobuf.pos nobuf h.next.next = .ok (nobuf, h.next.next) := rfl
  rw [echoreply_pieces, bind_of_ok hnew]
  dsimp only [replyip]
  rw [bind_of_ok (putEach_nobuf _ _), bind_of_ok (putEach_nobuf _ _), hdata, bind_of_ok hput, bind_of_ok hseal]
  rfl

/-- With a buffer the data of the request follows a header of eight bytes. -/
theorem echoreply_granted (hdata : oldip.ipData = window (unsummed b) (8 + n) 8) (hsize : 8 + n ≤ b.size)
    (hn : 8 + n < 65536) (hfirst : h.unwilling = false) (hsecond : h.next.unwilling = false) :
    ∃ sb : Sbuf, sb.Ok ∧ sb.autoresize = true ∧ sb.pos = 8 ∧ sb.buflen = 512 ∧
      sb.written = [0, b.byte 1] ++ (bytePut16 0 ++ (bytePut16 (icmphdr b).icId ++ bytePut16 (icmphdr b).icSeqnum)) ∧
      echoreply oldip (icmphdr b) h = (do
        let (_, sb) ← sb.put (b.bytes 8 n)
        let sb ← sealmsg 2 sb
        pure (some (replyip oldip sb)) : Mem (Option Ip)) h.next.next := by
  generalize hsb : (⟨true, true, ⟨512, h.next.junk 512⟩, 512, 0⟩ : Sbuf) = sb
  have hnew : ipnew h = .ok (some { replyip oldip sb with
      ipProtocol := 0, ipSaddr := 0, ipDaddr := 0, ipFields := 0 }, h.next.next) := by
    have hinit : Sbuf.init none 0 h.next = .ok (some sb, h.next.next) := by
      rw [Sbuf.init, bind_of_ok (Naf.malloc_granted hsecond), ← hsb]
      rfl
    rw [ipnew, bind_of_ok (Naf.malloc_granted hfirst)]
    exact bind_of_ok hinit
  have ok : sb.Ok := by
    rw [← hsb]
    exact ⟨rfl, show 512 < 65536 by decide, Nat.zero_le _⟩
  have hpos : sb.pos = 0 := by rw [← hsb]
  have hbuflen : sb.buflen = 512 := by rw [← hsb]
  have hhead : (replyhead (icmphdr b)).flatten.length = 2 := rfl
  have htail : (replytail (icmphdr b)).flatten.length = 6 := rfl
  obtain ⟨sb₁, hput₁, happ₁, hlen₁, hauto₁⟩ :=
    Sbuf.putEach_of_room (h := h.next.next) (replyhead (icmphdr b)) ok (by omega)
  have hpos₁ := happ₁.pos
  obtain ⟨sb₂, hput₂, happ₂, hlen₂, hauto₂⟩ :=
    Sbuf.putEach_of_room (h := h.next.next) (replytail (icmphdr b)) happ₁.ok (by omega)
  have hpos₂ := happ₂.pos
  have hauto : sb₂.autoresize = true := by rw [hauto₂, hauto₁, ← hsb]
  have hcode : UInt8.ofNat (icmphdr b).icCode = b.byte 1 := UInt8.ofNat_toNat
  have hwritten := (happ₁.trans happ₂).written
  rw [Sbuf.written, Sbuf.written, hpos, Block.bytes_zero, List.nil_append] at hwritten
  refine ⟨sb₂, happ₂.ok, hauto, by omega, by omega, ?_, ?_⟩
  · refine hwritten.trans ?_
    simp [replyhead, replytail, bytePut8, hcode]
  · have hrest : (unsummed b).bytes 8 n = b.bytes 8 n := Block.bytes_fill_after b _ (by decide)
    have hputdata := putdata_eq (b := unsummed b) (h := h.next.next) happ₂.ok hsize hn
    rw [echoreply_pieces, bind_of_ok hnew]
    dsimp only [replyip]
    rw [bind_of_ok hput₁, bind_of_ok hput₂, hdata, Prog.bind_congr_left hputdata, hrest,
      show sb₁.pos = 2 by omega]
    simp only [bind_assoc, pure_bind]

end

/-! ## Complete replies -/

/-- The reply to a request of `n` bytes of data: its addresses exchanged, and its message that of
an echo reply, which is the request's but for the type and the checksum, which is right. -/
structure Complete (oldip : Ip) (b : Block) (n : Nat) (ip : Ip) : Prop where
  protocol : ip.ipProtocol = 1
  saddr : ip.ipSaddr = oldip.ipDaddr
  daddr : ip.ipDaddr = oldip.ipSaddr
  message : ∃ sum, ip.ipData.block.bytes 0 ip.ipData.buflen = [0, b.byte 1] ++ (bytePut16 sum ++ b.bytes 4 (4 + n)) ∧
    ∀ h, csum { ip.ipData with block := unsummed ip.ipData.block } h =
      .ok ((sum, { ip.ipData with block := unsummed ip.ipData.block }), h)

/-- There is memory for the reply and for its data, which grow the buffer within its maximum, or
none at all. -/
def Enough (n : Nat) (h : Heap) : Prop :=
  h.unwilling = true ∨
    h.next.unwilling = false ∧ (n ≤ 504 ∨ n ≤ 32256 ∧ h.next.next.unwilling = false)

section

variable {ip oldip : Ip} {b : Block} {sb : Sbuf} {n : Nat} {h : Heap}

/-- What stands behind the checksum is put as it was read. -/
theorem putback_eq (b : Block) (n : Nat) :
    bytePut16 (icmphdr b).icId ++ (bytePut16 (icmphdr b).icSeqnum ++ b.bytes 8 n) =
    b.bytes 4 (4 + n) := by
  have hid : bytePut16 (icmphdr b).icId = b.bytes 4 2 := Naf.bytePut16_byteGet16 _ _
  have hseqnum : bytePut16 (icmphdr b).icSeqnum = b.bytes 6 2 := Naf.bytePut16_byteGet16 _ _
  rw [hid, hseqnum, show 4 + n = 2 + (2 + n) by omega, Block.bytes_add, Block.bytes_add]

/-- The message of the reply is as long as the request. -/
theorem Complete.length (complete : Complete oldip b n ip) : ip.ipData.buflen = 8 + n := by
  obtain ⟨sum, hmessage, -⟩ := complete.message
  have hlen := congrArg List.length hmessage
  simp only [Block.length_bytes, List.length_append, List.length_cons, List.length_nil, Naf.length_bytePut16] at hlen
  omega

/-- A reply whose message was put as a whole and sealed is complete. -/
theorem complete_of_sealed (hreadable : sb.Readable)
    (hbytes : sb.block.bytes 0 sb.buflen = [0, b.byte 1] ++ (bytePut16 (value ([0, b.byte 1] ++
      (bytePut16 0 ++ b.bytes 4 (4 + n)))) ++ b.bytes 4 (4 + n))) :
    Complete oldip b n (replyip oldip sb) := by
  refine ⟨rfl, rfl, rfl, _, hbytes, fun h => ?_⟩
  have hzero := bytes_overwrite (b := sb.block) (p := [0, b.byte 1]) (v := [0, 0])
    (w := bytePut16 (value ([0, b.byte 1] ++ (bytePut16 0 ++ b.bytes 4 (4 + n))))) (r := b.bytes 4 (4 + n)) rfl
    (by rw [← hbytes, Block.length_bytes])
  rw [← hbytes, Block.length_bytes] at hzero
  have hreadable' : ({ sb with block := unsummed sb.block } : Sbuf).Readable :=
    ⟨hreadable.size, hreadable.lt, hreadable.pos_le⟩
  have hsum := csum_eq (h := h) hreadable'
  rw [show (unsummed sb.block).bytes 0 sb.buflen = _ from hzero] at hsum
  exact hsum

/-- With memory the reply is complete. -/
theorem echoreply_whole (hdata : oldip.ipData = window (unsummed b) (8 + n) 8) (hsize : 8 + n ≤ b.size)
    (hn : 8 + n ≤ 65515) (hfirst : h.unwilling = false) (hsecond : h.next.unwilling = false)
    (henough : n ≤ 504 ∨ n ≤ 32256 ∧ h.next.next.unwilling = false) :
    ∃ sb h', echoreply oldip (icmphdr b) h = .ok (some (replyip oldip sb), h') ∧
      sb.Readable ∧ sb.buflen = 8 + n ∧ Complete oldip b n (replyip oldip sb) := by
  have hlen : (b.bytes 8 n).length = n := Block.length_bytes _ _ _
  obtain ⟨sb, ok, hauto, hpos, hbuflen, hwritten, hreply⟩ :=
    echoreply_granted hdata hsize (by omega) hfirst hsecond
  obtain ⟨sb₁, h₁, hput, happ⟩ : ∃ sb₁ h₁, sb.put (b.bytes 8 n) h.next.next = .ok (((b.bytes 8 n).length, sb₁), h₁) ∧
      Naf.Sbuf.Appends sb (b.bytes 8 n) sb₁ := by
    by_cases hshort : n ≤ 504
    · obtain ⟨sb₁, hput, happ⟩ := put_short (v := b.bytes 8 n) (h := h.next.next) ok hpos hbuflen (by omega)
      exact ⟨sb₁, _, hput, happ⟩
    · obtain ⟨hmax, hthird⟩ := henough.resolve_left hshort
      exact put_long ok hauto hpos hbuflen (by omega) (by omega) hthird
  have hall : sb₁.written = [0, b.byte 1] ++ (bytePut16 0 ++ b.bytes 4 (4 + n)) := by
    rw [happ.written, hwritten, ← putback_eq]
    simp only [List.append_assoc]
  obtain ⟨sb₂, hseal, hreadable, hlen₂, hbytes⟩ := sealmsg_eq (h := h₁) happ.ok hall
  refine ⟨sb₂, h₁, ?_, hreadable, by rw [hlen₂, happ.pos, hpos, hlen], complete_of_sealed hreadable hbytes⟩
  rw [hreply, bind_of_ok hput]
  exact bind_of_ok hseal

/-- Without it the reply is passed on without its data. -/
theorem echoreply_unput (hdata : oldip.ipData = window (unsummed b) (8 + n) 8) (hsize : 8 + n ≤ b.size)
    (hn : 8 + n ≤ 65515) (hfirst : h.unwilling = false) (hsecond : h.next.unwilling = false) (hlong : 504 < n)
    (hunput : Unput n h.next.next) :
    ∃ sb h', echoreply oldip (icmphdr b) h = .ok (some (replyip oldip sb), h') ∧ sb.Readable ∧ sb.buflen = 8 := by
  have hlen : (b.bytes 8 n).length = n := Block.length_bytes _ _ _
  obtain ⟨sb, ok, -, hpos, hbuflen, hwritten, hreply⟩ := echoreply_granted hdata hsize (by omega) hfirst hsecond
  obtain ⟨h₁, hput⟩ := put_unput (v := b.bytes 8 n) ok hpos hbuflen (by omega) (by omega) (hlen.symm ▸ hunput)
  obtain ⟨sb₂, hseal, hreadable, hlen₂, -⟩ := sealmsg_eq (h := h₁) ok hwritten
  refine ⟨sb₂, h₁, ?_, hreadable, hlen₂.trans hpos⟩
  rw [hreply, bind_of_ok hput]
  exact bind_of_ok hseal

/-- Whatever is passed on of a reply that there is too little memory for is not the whole of it. -/
theorem echoreply_lost {r : Option Ip} {h' : Heap} (hdata : oldip.ipData = window (unsummed b) (8 + n) 8)
    (hsize : 8 + n ≤ b.size) (hn : 8 + n ≤ 65515) (hshort : ¬Enough n h)
    (hr : echoreply oldip (icmphdr b) h = .ok (r, h')) : ∃ ip, r = some ip ∧ ip.ipData.buflen ≠ 8 + n := by
  simp only [Enough, not_or, not_and, Bool.not_eq_true, Bool.not_eq_false] at hshort
  obtain ⟨hfirst, hshort⟩ := hshort
  cases hsecond : h.next.unwilling with
  | true =>
      rw [echoreply_nobuf hdata hsize (by omega) hfirst hsecond] at hr
      cases hr
      exact ⟨_, rfl, show 0 ≠ 8 + n by omega⟩
  | false =>
      obtain ⟨hlong, hlost⟩ := hshort hsecond
      by_cases hunput : Unput n h.next.next
      · obtain ⟨sb, h₁, hreply, -, hlen⟩ := echoreply_unput hdata hsize hn hfirst hsecond (by omega) hunput
        rw [hreply] at hr
        cases hr
        exact ⟨_, rfl, show sb.buflen ≠ 8 + n by omega⟩
      · have hlen : (b.bytes 8 n).length = n := Block.length_bytes _ _ _
        have hbeyond : ¬n ≤ 32256 := fun hle => hunput (.inr (hlost hle))
        obtain ⟨sb, ok, hauto, hpos, hbuflen, -, hreply⟩ := echoreply_granted hdata hsize (by omega) hfirst hsecond
        have hfault := put_wrapped (v := b.bytes 8 n) ok hauto hpos hbuflen (by omega) (by omega)
          (hlen.symm ▸ hunput)
        rw [hreply, bind_of_error hfault] at hr
        cases hr

/-- A request that is accepted is answered. -/
theorem input_of_right (routetable : List Rt) (hdata : ip.ipData = window b (8 + n) 0) (hsize : 8 + n ≤ b.size)
    (hn : 8 + n ≤ 65515) (htype : b.byte 0 = 8)
    (hright : (value ((unsummed b).bytes 0 (8 + n)) == (icmphdr b).icCksum) = true) :
    input routetable ip h = (do
      let sent ← sendechoreply routetable { ip with ipData := window (unsummed b) (8 + n) 8 } (icmphdr b)
      pure (true, sent) : Mem (Bool × Option (Ip × Option Sbuf))) h := by
  have hread := readicmp_eq (h := h) hdata hsize (by omega) (by omega)
  have hecho : (icmphdr b).icType = 8 := by
    change (b.byte 0).toNat = 8
    rw [htype]
    rfl
  rw [hright] at hread
  rw [input, bind_of_ok hread]
  dsimp only
  rw [if_neg (by decide), hecho, if_neg (by decide), if_pos rfl]

/-- With memory enough the whole reply is passed on, or none. -/
theorem whole_of_enough (routetable : List Rt) (hdata : oldip.ipData = window (unsummed b) (8 + n) 8)
    (hsize : 8 + n ≤ b.size) (hn : 8 + n ≤ 65515) (henough : Enough n h) :
    ∃ sent h', sendechoreply routetable oldip (icmphdr b) h = .ok (sent, h') ∧
      ∀ ip₁ out, sent = some (ip₁, out) → Complete oldip b n ip₁ := by
  cases hfirst : h.unwilling with
  | true =>
      have hreply : echoreply oldip (icmphdr b) h = .ok (none, h.next) := by
        have hnew : ipnew h = .ok (none, h.next) := bind_of_ok (Naf.malloc_refused hfirst)
        exact bind_of_ok hnew
      exact ⟨none, _, bind_of_ok hreply, fun _ _ hsent => nomatch hsent⟩
  | false =>
      obtain ⟨hsecond, hgrown⟩ := henough.resolve_left (Bool.eq_false_iff.1 hfirst)
      obtain ⟨sb, h₂, hreply, hreadable, hlen, hwhole⟩ := echoreply_whole hdata hsize hn hfirst hsecond hgrown
      have hsaddr : (replyip oldip sb).ipFields &&& 0x0020 ≠ 0 := by
        show (0x0010 ||| 0x0020 ||| 0x0040) &&& 0x0020 ≠ 0
        decide
      obtain ⟨⟨ok, out⟩, h₃, hout⟩ := output_returns (h := h₂) routetable none hsaddr (hlen ▸ hn) hreadable.size
      refine ⟨some (replyip oldip sb, out), h₃, ?_, ?_⟩
      · rw [sendechoreply, bind_of_ok hreply]
        exact bind_of_ok hout
      · rintro _ _ ⟨⟩
        exact hwhole

/-- A request that was accepted is answered as a whole or not at all, if and only if there is
memory enough for it. -/
theorem reply_complete {ic : Icmp} {ip' : Ip} {h₁ : Heap} (routetable : List Rt)
    (hdata : ip.ipData = window b (8 + n) 0) (hsize : 8 + n ≤ b.size) (hn : 8 + n ≤ 65515)
    (htype : b.byte 0 = 8) (haccepted : readicmp ip h = .ok ((true, ic, ip'), h₁)) :
    (∃ r h', input routetable ip h = .ok (r, h') ∧ ∀ sent, r.2 = some sent → Complete ip b n sent.1) ↔
      Enough n h := by
  have hread := readicmp_eq (h := h) hdata hsize (by omega) (by omega)
  have hright : (value ((unsummed b).bytes 0 (8 + n)) == (icmphdr b).icCksum) = true :=
    congrArg (fun r => r.1.1) (Except.ok.inj (hread.symm.trans haccepted))
  rw [input_of_right routetable hdata hsize hn htype hright]
  constructor
  · rintro ⟨r, h', hr, hall⟩
    by_contra hshort
    obtain ⟨sent, h₂, hsend, hr⟩ := Prog.bind_ok.1 hr
    cases Prog.pure_ok.1 hr
    obtain ⟨reply, h₃, hreply, hsend⟩ := Prog.bind_ok.1 hsend
    obtain ⟨ip₁, rfl, hlen⟩ := echoreply_lost rfl hsize hn hshort hreply
    dsimp only at hsend
    obtain ⟨⟨_, out⟩, h₄, -, hsend⟩ := Prog.bind_ok.1 hsend
    cases Prog.pure_ok.1 hsend
    exact hlen (hall _ rfl).length
  · intro henough
    have hdata' : ({ ip with ipData := window (unsummed b) (8 + n) 8 } : Ip).ipData =
        window (unsummed b) (8 + n) 8 := rfl
    obtain ⟨sent, h', hsend, hwhole⟩ := whole_of_enough routetable hdata' hsize hn henough
    refine ⟨_, _, bind_of_ok hsend, fun r hr => ?_⟩
    have complete := hwhole r.1 r.2 hr
    exact ⟨complete.protocol, complete.saddr, complete.daddr, complete.message⟩

/-- A request of 32257 zeros, with its checksum. -/
def zeros : Block := ⟨8 + 32257, fun i => if i = 0 then 8 else 0⟩

def request : Block := stamped zeros (value (zeros.bytes 0 (8 + 32257)))

def requestip : Ip := { probe with ipData := window request (8 + 32257) 0 }

/-- It is accepted, and answered without its data, which is a byte more than the buffer grows for. -/
theorem reply_complete_long :
    (∃ ic ip', readicmp requestip .zeroed = .ok ((true, ic, ip'), .zeroed)) ∧
      ∃ ip₁ out h', input [] requestip .zeroed = .ok ((true, some (ip₁, out)), h') ∧ ip₁.ipData.buflen = 8 ∧
        ¬Complete requestip request 32257 ip₁ := by
  have hsize : 8 + 32257 ≤ request.size := Nat.le_refl _
  have hright : (value ((unsummed request).bytes 0 (8 + 32257)) == (icmphdr request).icCksum) = true := by
    rw [request, unsummed_stamped _ rfl, icCksum_stamped _ (value_lt _)]
    exact beq_self_eq_true _
  have hwindow : requestip.ipData = window request (8 + 32257) 0 := rfl
  have hread := readicmp_eq (h := .zeroed) hwindow hsize (by decide) (by decide)
  rw [hright] at hread
  have hinput := input_of_right (h := .zeroed) [] hwindow hsize (by decide) rfl hright
  generalize hold : ({ requestip with ipData := window (unsummed request) (8 + 32257) 8 } : Ip) = oldip
    at hread hinput
  have hdata : oldip.ipData = window (unsummed request) (8 + 32257) 8 := by rw [← hold]
  obtain ⟨sb, h₁, hreply, hreadable, hlen⟩ :=
    echoreply_unput (h := .zeroed) hdata hsize (by decide) rfl rfl (by decide) (.inl (by decide))
  have hsaddr : (replyip oldip sb).ipFields &&& 0x0020 ≠ 0 := by
    show (0x0010 ||| 0x0020 ||| 0x0040) &&& 0x0020 ≠ 0
    decide
  obtain ⟨⟨ok, out⟩, h₂, hout⟩ := output_returns (h := h₁) [] none hsaddr
    (show sb.buflen ≤ 65515 by omega) hreadable.size
  have hsend : sendechoreply [] oldip (icmphdr request) .zeroed = .ok (some (replyip oldip sb, out), h₂) := by
    rw [sendechoreply, bind_of_ok hreply]
    exact bind_of_ok hout
  refine ⟨⟨_, _, hread⟩, _, out, h₂, hinput.trans (bind_of_ok hsend), hlen, fun complete => ?_⟩
  have hwhole := complete.length
  change sb.buflen = 8 + 32257 at hwhole
  omega

/-- A request with four bytes of data, and with memory for the reply. -/
def abcd : Block := stamped unstamped 0x3337

theorem reply_complete_abcd :
    Enough 4 .zeroed ∧
    ((∃ r h', input [] { probe with ipData := window abcd 12 0 } .zeroed = .ok (r, h') ∧
      ∀ sent, r.2 = some sent → Complete { probe with ipData := window abcd 12 0 } abcd 4 sent.1) ↔
        Enough 4 .zeroed) := by
  have hdata : ({ probe with ipData := window abcd 12 0 } : Ip).ipData = window abcd 12 0 := rfl
  have hread := readicmp_eq (h := .zeroed) hdata (show 12 ≤ abcd.size by decide) (by decide) (by decide)
  rw [show (value ((unsummed abcd).bytes 0 12) == (icmphdr abcd).icCksum) = true by decide] at hread
  exact ⟨.inr ⟨rfl, .inl (by decide)⟩, reply_complete (n := 4) [] rfl (by decide) (by decide) rfl hread⟩

end

end Timps.Ipv4.Icmpv4
