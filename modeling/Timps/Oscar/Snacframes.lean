-- SUMMARY: SNAC frames with memory enough: the buffer a builder starts from, and the exact frame that is queued.
import Timps.Naf.Growing
import Timps.Oscar.Frames

/-!
# SNAC frames

`Frames` says what every builder leaves at the head of its buffer. With memory enough more
can be said: the buffer grows with what is put, and the frame that is queued is the SNAC
head with exactly these bytes behind it.
-/

namespace Timps.Oscar

open Naf (Block Heap Mem Plain Sbuf Tlv bytePut8 bytePut16 bytePut32)
open Naf.Sbuf (Appends Growing Shape)
open Prog (bind_ok bind_of_ok pure_ok)
open Sys (mem)

/-- With memory enough a program over memory leaves the world alone. -/
theorem mem_steady {α : Type} {x : Mem α} {w w' : World} {a : α} (hx : Plain x)
    (hwilling : w.env.heap.refuse = []) (hr : mem x w = .ok (a, w')) :
    w' = w ∧ x w.env.heap = .ok (a, w.env.heap) := by
  obtain ⟨a', h, hx', heq⟩ := Sys.mem_ok.1 hr
  cases heq
  obtain rfl := hx.steady hwilling hx'
  exact ⟨rfl, hx'⟩

/-- The same for a program with a continuation. -/
theorem mem_bind_steady {α β : Type} {x : Mem α} {f : α → Sys β} {w : World} {r : β × World} (hx : Plain x)
    (hwilling : w.env.heap.refuse = []) (hr : (mem x >>= f) w = .ok r) :
    ∃ a, x w.env.heap = .ok (a, w.env.heap) ∧ f a w = .ok r := by
  obtain ⟨a, w₁, ha, hr⟩ := bind_ok.1 hr
  obtain ⟨heq, ha⟩ := mem_steady hx hwilling ha
  rw [heq] at hr
  exact ⟨a, ha, hr⟩

/-! ## The buffer -/

/-- The SNAC head, without the FLAP header in front of it. -/
def snacheadBody (group subtype flags id : Nat) : Bytes :=
  bytePut16 group ++ bytePut16 subtype ++ bytePut16 flags ++ bytePut32 id

/-- The numbers of a buffer with a SNAC head in it. -/
def snacshape : Shape := ⟨true, 512, 16, []⟩

variable {h : Heap} {group subtype flags id : Nat}

theorem newsnacsb_refused (group subtype flags id : Nat) (hun : h.unwilling = true) :
    newsnacsb group subtype flags id h = .ok (none, h.next) := by
  have hinit : Sbuf.init none 0 h = .ok (none, h.next) := by
    simp only [Sbuf.init, if_true]
    rw [bind_of_ok (Naf.malloc_refused hun)]
    rfl
  unfold newsnacsb
  rw [bind_of_ok hinit]
  rfl

/-- A buffer that its memory is granted for holds the head of the SNAC. -/
theorem newsnacsb_granted (group subtype flags id : Nat) (hun : h.unwilling = false) :
    ∃ sb, newsnacsb group subtype flags id h = .ok (some sb, h.next) ∧ sb.Ok ∧
      sb.written = snachead group subtype flags id ∧
      sb.shape h.next = { snacshape with refuse := h.next.refuse } := by
  have hinit : Sbuf.init none 0 h = .ok (some ⟨true, true, ⟨512, h.junk 512⟩, 512, 0⟩, h.next) := by
    simp only [Sbuf.init, if_true]
    rw [bind_of_ok (Naf.malloc_granted hun)]
    rfl
  generalize hfresh : (⟨true, true, ⟨512, h.junk 512⟩, 512, 0⟩ : Sbuf) = fresh at hinit
  have okfresh : fresh.Ok := by
    rw [← hfresh]
    exact ⟨rfl, show 512 < 65536 by decide, Nat.zero_le _⟩
  obtain ⟨sb, hput, happ, hbuflen, hauto⟩ := Sbuf.putEach_of_room (h := h.next)
    [bytePut8 42, bytePut8 2, bytePut16 0, bytePut16 4, bytePut16 group, bytePut16 subtype,
      bytePut16 flags, bytePut32 id] okfresh (by rw [← hfresh]; simp)
  refine ⟨sb, ?_, happ.ok, ?_, ?_⟩
  · unfold newsnacsb puthdr Sbuf.put8 Sbuf.put16 Sbuf.put32
    rw [bind_of_ok hinit]
    have hall := bind_of_ok (f := fun sb => (pure (some sb) : Mem (Option Sbuf))) hput
    simp only [Sbuf.putEach, bind_assoc, pure_bind] at hall ⊢
    exact hall
  · rw [happ.written, ← hfresh]
    simp [Sbuf.written, snachead, flaphdr, bytePut8, bytePut16]
  · have hpos := happ.pos
    simp only [Sbuf.shape, snacshape, hbuflen, hauto, hpos, ← hfresh]
    simp

/-- With memory enough there is a buffer that grows, and it holds the head of the SNAC. -/
theorem newsnacsb_growing (group subtype flags id : Nat) {n : Nat} (hn : 16 + n ≤ 16000) (hwilling : h.refuse = []) :
    ∃ sb, newsnacsb group subtype flags id h = .ok (some sb, h) ∧
      sb.written = snachead group subtype flags id ∧ sb.shape h = snacshape ∧
      Growing sb h n := by
  obtain ⟨sb, hnew, ok, hwritten, hshape⟩ :=
    newsnacsb_granted group subtype flags id (Naf.Heap.willing hwilling)
  rw [Naf.Heap.next_of_willing hwilling, hwilling] at hshape
  rw [Naf.Heap.next_of_willing hwilling] at hnew
  have hbuflen : sb.buflen = 512 := congrArg Shape.buflen hshape
  have hpos : sb.pos = 16 := congrArg Shape.pos hshape
  exact ⟨sb, hnew, hwritten, hshape, ok, congrArg Shape.autoresize hshape, hwilling, by omega, by omega⟩

/-! ## The frame -/

/-- A SNAC frame: the FLAP header, the SNAC head and the body. -/
def queuedsnac (seq group subtype flags id : Nat) (body : Bytes) : Bytes :=
  42 :: 2 :: (bytePut16 seq ++ bytePut16 (10 + body.length) ++
    (snacheadBody group subtype flags id ++ body))

theorem drop_queuedsnac (seq group subtype flags id : Nat) (body : Bytes) :
    (queuedsnac seq group subtype flags id body).drop 16 = body := rfl

variable {sb : Sbuf} {seq : Nat} {body : Bytes}

/-- The buffer's own bytes are the frame but for the header. -/
theorem frameOf_snac (hwritten : sb.written = snachead group subtype flags id ++ body) :
    frameOf sb.block seq sb.pos = queuedsnac seq group subtype flags id body := by
  have hpos : sb.pos = 6 + (10 + body.length) := by
    have hlen := congrArg List.length hwritten
    rw [Sbuf.length_written] at hlen
    rw [hlen]
    simp [snachead, flaphdr]
    omega
  have hsplit : sb.written = sb.block.bytes 0 6 ++ sb.block.bytes 6 (10 + body.length) := by
    rw [Sbuf.written, hpos, Block.bytes_add]
  have hhead : snachead group subtype flags id ++ body =
      flaphdr 2 ++ (snacheadBody group subtype flags id ++ body) := by
    simp [snachead, snacheadBody]
  rw [hwritten, hhead] at hsplit
  obtain ⟨hhdr, hbody⟩ := List.append_inj hsplit (by simp [flaphdr])
  have hchan : sb.block.byte 1 = 2 := by
    simp only [flaphdr, Block.bytes_succ, Block.bytes_zero, List.cons.injEq] at hhdr
    exact hhdr.2.1.symm
  unfold frameOf queuedsnac
  rw [hchan, hpos, Nat.add_sub_cancel_left, ← hbody]

/-- The frame is queued as it was built, or the request is refused. -/
theorem sendsbufConsume_snac {cid : Nat} {w w' : World} {b : Bool} (ok : sb.Ok)
    (hwritten : sb.written = snachead group subtype flags id ++ body)
    (hr : sendsbufConsume (some cid) sb w = .ok (b, w')) :
    ∃ c env, w.conn? cid = some c ∧ Same w.env env ∧
      w' = sent w cid b (queuedsnac c.nextseqnum group subtype flags id body) env := by
  have hpos : 6 ≤ sb.pos := by
    have hlen := congrArg List.length hwritten
    rw [Sbuf.length_written] at hlen
    rw [hlen]
    simp [snachead, flaphdr]
  have hlt := Nat.lt_of_le_of_lt ok.pos_le ok.lt
  obtain ⟨c, env, hc, hsame, rfl⟩ := sendraw_ok hpos hlt hr
  exact ⟨c, env, hc, hsame, by rw [frameOf_snac hwritten]⟩

end Timps.Oscar
