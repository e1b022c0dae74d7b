-- SUMMARY: The windows of a frame that a SNAC handler gets to see, and when they lie inside the frame.
import Timps.Oscar.SnacActs

/-!
# Dissecting SNAC heads

`handlesnac` cuts the body of a frame into the fixed head, the extended header that bit 15
of the flags announces, and the payload. The announced length is not checked.
-/

namespace Timps.Oscar

open Naf (Block Mem Sbuf byteGet16 byteGet16_lt)
open Prog (bind_of_ok bind_ok pure_ok)
open Sys (mem)

/-- `handlesnac` calls `handler` with `snac` for the `buflen` bytes in `buf`. -/
def Calls (buf : Block) (buflen : Nat) (handler : Nat → Snac → Sys Hret) (snac : Snac) : Prop :=
  snachdrlen ≤ buflen ∧ (∃ h h', parsesnac buf buflen h = .ok (snac, h')) ∧
    (snac.group, snac.subtype, handler) ∈ snachandlers

/-- The buffer covers the bytes `[lo, hi)` of `buf`. -/
structure Window (buf : Block) (lo hi : Nat) (sb : Sbuf) : Prop where
  le : lo ≤ hi
  block : sb.block = buf.suffix lo
  buflen : sb.buflen = hi - lo
  pos : sb.pos = 0

/-- The bit that announces an extended header. -/
def hasexthdr (buf : Block) : Bool := (byteGet16 (buf.byte 4) (buf.byte 5)).testBit 15

/-- The length word of an extended header. -/
def exthdrlenOf (buf : Block) : Nat := byteGet16 (buf.byte 10) (buf.byte 11)

/-- The windows of the first `n` bytes that a handler should see. -/
def Dissected (buf : Block) (n : Nat) (snac : Snac) : Prop :=
  if hasexthdr buf then
    (∃ extinfo, snac.extinfo = some extinfo ∧ Window buf 12 (12 + exthdrlenOf buf) extinfo) ∧
      Window buf (12 + exthdrlenOf buf) n snac.payload
  else Window buf 10 n snac.payload

/-- Some handler takes SNACs of the group and subtype in the head. -/
def Handled (buf : Block) : Prop :=
  ∃ handler, (byteGet16 (buf.byte 0) (buf.byte 1), byteGet16 (buf.byte 2) (buf.byte 3), handler) ∈
    snachandlers

/-- An announced extended header is there, is not empty and ends within the frame. -/
def Contained (buf : Block) (n : Nat) : Prop :=
  n < snachdrlen ∨ ¬Handled buf ∨ hasexthdr buf = false ∨
    0 < exthdrlenOf buf ∧ 12 + exthdrlenOf buf ≤ n

/-! ## Parsing the head -/

theorem wordAt_of_le {buf : Block} {off : Nat} (h : Naf.Heap) (hle : off + 2 ≤ buf.size) :
    wordAt buf off h = .ok (byteGet16 (buf.byte off) (buf.byte (off + 1)), h) := by
  unfold wordAt
  rw [bind_of_ok (Block.load_of_le hle)]
  rfl

/-- The head of a frame can be read when the buffer has room for a length word. -/
theorem parsesnac_of_le {buf : Block} (buflen : Nat) (h : Naf.Heap) (hsize : 12 ≤ buf.size) :
    parsesnac buf buflen h = .ok (snacOf buf buflen, h) := by
  unfold parsesnac
  rw [bind_of_ok (wordAt_of_le h (by omega)), bind_of_ok (wordAt_of_le h (by omega)),
    bind_of_ok (wordAt_of_le h (by omega)), bind_of_ok (Block.load_of_le (by omega))]
  dsimp only
  split
  · rename_i hbit
    rw [bind_of_ok (wordAt_of_le h (by simp only [snachdrlen]; omega))]
    simp only [Nat.zero_add] at hbit ⊢
    simp only [snacOf, hbit, if_true]
    rfl
  · rename_i hbit
    rw [bind_of_ok (pure_ok.2 rfl)]
    simp only [Nat.zero_add] at hbit ⊢
    simp only [snacOf, hbit]
    rfl

/-! ## The handler that is called -/

section

variable {buf : Block} {n : Nat} {handler : Nat → Snac → Sys Hret} {snac : Snac}

theorem calls_iff (hsize : 12 ≤ buf.size) :
    Calls buf n handler snac ↔
      snachdrlen ≤ n ∧ snac = snacOf buf n ∧ (snac.group, snac.subtype, handler) ∈ snachandlers := by
  unfold Calls
  apply and_congr_right
  intro _
  apply and_congr_left
  intro _
  constructor
  · rintro ⟨h, h', hparse⟩
    rw [parsesnac_of_le n h hsize] at hparse
    cases hparse
    rfl
  · rintro rfl
    exact ⟨Naf.Heap.zeroed, Naf.Heap.zeroed, parsesnac_of_le n _ hsize⟩

/-- The handlers are told apart by group and subtype. -/
theorem find_snachandlers {group subtype : Nat} (hmem : (group, subtype, handler) ∈ snachandlers) :
    snachandlers.find? (fun i => i.1 = group && i.2.1 = subtype) = some (group, subtype, handler) := by
  simp only [snachandlers, List.mem_cons, Prod.mk.injEq, List.not_mem_nil, or_false] at hmem
  rcases hmem with ⟨rfl, rfl, rfl⟩ | ⟨rfl, rfl, rfl⟩ | ⟨rfl, rfl, rfl⟩ | ⟨rfl, rfl, rfl⟩ | ⟨rfl, rfl, rfl⟩ |
    ⟨rfl, rfl, rfl⟩ | ⟨rfl, rfl, rfl⟩ <;> rfl

/-- `handlesnac` is the handler that is called, or it answers by itself. -/
theorem handlesnac_eq (hsize : 12 ≤ buf.size) (cid : Nat) (w : World) :
    (∃ handler snac, Calls buf n handler snac ∧ handlesnac cid buf n w = handler cid snac w) ∨
      (∀ handler snac, ¬Calls buf n handler snac) ∧
        handlesnac cid buf n w = .ok (if n < snachdrlen then .error else .forward, w) := by
  unfold handlesnac
  by_cases hlen : n < snachdrlen
  · refine .inr ⟨fun handler snac hcalls => absurd hcalls.1 (Nat.not_le.2 hlen), ?_⟩
    rw [if_pos hlen, if_pos hlen]
    rfl
  have hparse : mem (parsesnac buf n) w = .ok (snacOf buf n, w) :=
    Sys.mem_of_steady (parsesnac_of_le n w.env.heap hsize)
  rw [if_neg hlen, if_neg hlen, bind_of_ok hparse]
  by_cases hhandled : ∃ handler, ((snacOf buf n).group, (snacOf buf n).subtype, handler) ∈ snachandlers
  · obtain ⟨handler, hmem⟩ := hhandled
    refine .inl ⟨handler, snacOf buf n, (calls_iff hsize).2 ⟨Nat.le_of_not_lt hlen, rfl, hmem⟩, ?_⟩
    rw [find_snachandlers hmem]
  · refine .inr ⟨fun handler snac hcalls => ?_, ?_⟩
    · obtain ⟨-, rfl, hmem⟩ := (calls_iff hsize).1 hcalls
      exact hhandled ⟨handler, hmem⟩
    · have hnone :
          snachandlers.find? (fun i => i.1 = (snacOf buf n).group && i.2.1 = (snacOf buf n).subtype) = none := by
        refine List.find?_eq_none.2 fun i hi heq => hhandled ⟨i.2.2, ?_⟩
        simp only [Bool.and_eq_true, decide_eq_true_eq] at heq
        rw [← heq.1, ← heq.2]
        exact hi
      rw [hnone]
      rfl

/-- A frame that is too short or that no handler takes reaches none. -/
theorem handled_of_calls (hsize : 12 ≤ buf.size) (hcalls : Calls buf n handler snac) :
    Handled buf := by
  obtain ⟨-, rfl, hmem⟩ := (calls_iff hsize).1 hcalls
  exact ⟨handler, hmem⟩

theorem calls_of_handled (hsize : 12 ≤ buf.size) (hlen : snachdrlen ≤ n) (hhandled : Handled buf) :
    ∃ handler, Calls buf n handler (snacOf buf n) := by
  obtain ⟨handler, hmem⟩ := hhandled
  exact ⟨handler, (calls_iff hsize).2 ⟨hlen, rfl, hmem⟩⟩

/-! ## The windows -/

/-- The length of the payload is right as long as what is skipped is there. -/
theorem payloadlen_eq {skipped : Nat} (hn : n ≤ maxsnaclen) (hle : skipped ≤ n) :
    (n + 131072 - skipped) % 65536 = n - skipped := by
  simp only [maxsnaclen] at hn
  omega

/-- Without the flag the payload is what follows the head. -/
theorem dissected_of_plain (hn : n ≤ maxsnaclen) (hlen : snachdrlen ≤ n)
    (hext : hasexthdr buf = false) : Dissected buf n (snacOf buf n) := by
  have hflag : ¬(byteGet16 (buf.byte 4) (buf.byte 5)).testBit 15 = true := by
    simpa [hasexthdr] using hext
  unfold Dissected
  rw [if_neg (by simp [hext])]
  refine ⟨hlen, ?_, ?_, rfl⟩
  · simp [snacOf, hflag, extended, snachdrlen]
  · simp only [snacOf, if_neg hflag, extended, if_true, Nat.add_zero]
    exact payloadlen_eq hn hlen

/-- An extended header that is there and ends within the frame is cut out. -/
theorem dissected_of_extended (hn : n ≤ maxsnaclen) (hext : hasexthdr buf = true)
    (hpos : 0 < exthdrlenOf buf) (hle : 12 + exthdrlenOf buf ≤ n) :
    Dissected buf n (snacOf buf n) := by
  have hflag : (byteGet16 (buf.byte 4) (buf.byte 5)).testBit 15 = true := hext
  have hne : ¬byteGet16 (buf.byte 10) (buf.byte 11) = 0 := Nat.pos_iff_ne_zero.1 hpos
  have hskip : snachdrlen + (2 + exthdrlenOf buf) = 12 + exthdrlenOf buf := by
    simp only [snachdrlen]
    omega
  have hpayload : (snacOf buf n).payload =
      { autoresize := false, freebuf := false, block := buf.suffix (12 + exthdrlenOf buf)
        buflen := n - (12 + exthdrlenOf buf), pos := 0 } := by
    simp only [snacOf, if_pos hflag, extended, if_neg hne]
    rw [← payloadlen_eq hn hle, ← hskip]
    rfl
  have hextinfo : (snacOf buf n).extinfo = some
      { autoresize := false, freebuf := false, block := buf.suffix 12
        buflen := exthdrlenOf buf, pos := 0 } := by
    simp only [snacOf, if_pos hflag, extinfoOf, if_neg hne]
    rfl
  unfold Dissected
  rw [if_pos hext, hpayload]
  exact ⟨⟨_, hextinfo, Nat.le_add_right _ _, rfl, by simp, rfl⟩, hle, rfl, rfl, rfl⟩

/-- Windows of the kind are only there when the extended header is not empty and ends
within the frame: an empty one leaves its length word in the payload. -/
theorem contained_of_dissected (hsize : 12 ≤ buf.size) (hext : hasexthdr buf = true)
    (hd : Dissected buf n (snacOf buf n)) : 0 < exthdrlenOf buf ∧ 12 + exthdrlenOf buf ≤ n := by
  have hflag : (byteGet16 (buf.byte 4) (buf.byte 5)).testBit 15 = true := hext
  unfold Dissected at hd
  rw [if_pos hext] at hd
  obtain ⟨-, hwindow⟩ := hd
  refine ⟨Nat.pos_of_ne_zero fun hzero => ?_, hwindow.le⟩
  have hblock : (snacOf buf n).payload.block = buf.suffix snachdrlen := by
    have hword : byteGet16 (buf.byte 10) (buf.byte 11) = 0 := hzero
    simp only [snacOf, if_pos hflag, hword, extended, if_true, Nat.add_zero]
  -- the payload starts at the length word and not behind it
  have hsizes := congrArg Block.size (hblock.symm.trans hwindow.block)
  rw [hzero] at hsizes
  simp only [Block.size_suffix, snachdrlen] at hsizes
  omega

/-- The handler of a frame sees the windows that the frame announces, inside its first `n`
bytes, exactly when the announced extended header is not empty and is contained in them. -/
theorem dissects_iff (hsize : buf.size = maxsnaclen) (hn : n ≤ maxsnaclen) :
    (∀ handler snac, Calls buf n handler snac → Dissected buf n snac) ↔ Contained buf n := by
  have hroom : 12 ≤ buf.size := by
    rw [hsize]
    decide
  constructor
  · intro hall
    by_cases hlen : n < snachdrlen
    · exact .inl hlen
    by_cases hhandled : Handled buf
    · obtain ⟨handler, hcalls⟩ := calls_of_handled hroom (Nat.le_of_not_lt hlen) hhandled
      have hd := hall _ _ hcalls
      cases hext : hasexthdr buf with
      | false => exact .inr (.inr (.inl hext))
      | true => exact .inr (.inr (.inr (contained_of_dissected hroom hext hd)))
    · exact .inr (.inl hhandled)
  · intro hcontained handler snac hcalls
    obtain ⟨hlen, rfl, hmem⟩ := (calls_iff hroom).1 hcalls
    rcases hcontained with hshort | hnone | hplain | ⟨hpos, hle⟩
    · exact absurd hlen (Nat.not_le.2 hshort)
    · exact absurd (handled_of_calls hroom hcalls) hnone
    · exact dissected_of_plain hn hlen hplain
    · cases hext : hasexthdr buf with
      | false => exact dissected_of_plain hn hlen hext
      | true => exact dissected_of_extended hn hext hpos hle

end

/-- A body of twelve bytes: an outgoing message that announces `e` bytes of extended header. -/
def announcing (e : UInt8) : Block where
  size := maxsnaclen
  byte := fun i => [0x00, 0x04, 0x00, 0x06, 0x80, 0x00, 0, 0, 0, 1, 0x00, e].getD i 0

/-- With three bytes behind it the header of three bytes is contained. -/
theorem dissects_announced :
    (∀ handler snac, Calls (announcing 3) 15 handler snac → Dissected (announcing 3) 15 snac) ↔
      Contained (announcing 3) 15 :=
  dissects_iff rfl (by decide)

/-- Five bytes are announced and none is there: the payload's length wraps around. -/
theorem not_dissects_announced :
    Calls (announcing 5) 12 snachandler_0004_0006 (snacOf (announcing 5) 12) ∧
      (snacOf (announcing 5) 12).payload.buflen = 65531 ∧
      ¬Dissected (announcing 5) 12 (snacOf (announcing 5) 12) := by
  refine ⟨(calls_iff (by decide)).2 ⟨by decide, rfl, ?_⟩, by decide, ?_⟩
  · simp [snachandlers, snacOf, announcing, byteGet16]
  · intro hd
    exact absurd (contained_of_dissected (by decide) (by decide) hd).2 (by decide)

end Timps.Oscar
