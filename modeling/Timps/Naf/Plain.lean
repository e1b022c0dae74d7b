-- SUMMARY: Programs over memory: a willing allocator stays as it is, and the faults are those of memory.
import Timps.Naf.Tag
import Timps.Naf.Tlv

/-!
# Plain programs

The functions on buffers, TLVs and tags allocate and access memory and do nothing else.
As long as the allocator grants everything they leave its state alone; and when they stop
with a fault, an access went out of its block or a loop does not end.
-/

namespace Timps.Naf

open Prog (Obeys bind_of_ok map_ok)

/-- A willing allocator is not changed. -/
def Steady (h h' : Heap) : Prop := h.refuse = [] → h' = h

/-- The faults of memory programs. -/
def Memfault (e : Fault) : Prop := e = .outOfBounds ∨ e = .diverge

/-- A program over memory only. -/
abbrev Plain {α : Type} (x : Mem α) : Prop := Obeys Steady Memfault x

variable {α : Type}

/-- Where nothing is refused, a plain call leaves the allocator as it is. -/
theorem Plain.steady {x : Mem α} (hx : Plain x) {h h' : Heap} {a : α} (hh : h.refuse = [])
    (hr : x h = .ok (a, h')) : h' = h := by
  have hsteps := hx.does h a h' hr
  clear hr
  induction hsteps with
  | refl => rfl
  | tail _ hstep ih =>
      subst ih
      exact hstep hh

theorem malloc_plain (n : Nat) : Plain (malloc n) where
  does := fun h b h' hr => by
    cases hr
    exact .single Heap.next_of_willing
  stops := fun h e he => (malloc_ne_error he).elim

namespace Block

theorem load_plain (b : Block) (off n : Nat) : Plain (b.load off n) where
  does := fun h v h' hr => by
    obtain ⟨-, hr⟩ := load_ok.1 hr
    cases hr
    exact .refl
  stops := fun h e he => by
    unfold load at he
    split at he <;> cases he
    exact .inl rfl

theorem store_plain (b : Block) (off : Nat) (v : Bytes) : Plain (b.store off v) where
  does := fun h b' h' hr => by
    obtain ⟨-, hr⟩ := store_ok.1 hr
    cases hr
    exact .refl
  stops := fun h e he => by
    unfold store at he
    split at he <;> cases he
    exact .inl rfl

end Block

/-! ## Buffers -/

namespace Sbuf

variable (sb : Sbuf)

theorem init_plain (buf : Option Block) (buflen : Nat) : Plain (init buf buflen) := by
  cases buf with
  | some b => exact .pure _
  | none => exact .bind (malloc_plain _) fun b => .pure _

theorem extendbuf_plain (n : Nat) : Plain (sb.extendbuf n) := by
  refine .ite (fun _ => .pure _) fun _ => .ite (fun _ => .pure _) fun _ => ?_
  refine .bind (malloc_plain _) fun nbuf => ?_
  cases nbuf with
  | none => exact .pure _
  | some nbuf =>
      exact .bind (Block.load_plain _ _ _) fun old => .bind (Block.store_plain _ _ _) fun nbuf => .pure _

theorem reserve_plain (n : Nat) : Plain (sb.reserve n) :=
  .ite (fun _ => extendbuf_plain _ _) fun _ => .pure _

theorem setpos_plain (npos : Nat) : Plain (sb.setpos npos) := by
  refine .bind (.ite (fun _ => extendbuf_plain _ _) fun _ => .pure _) fun r => ?_
  cases r <;> exact .pure _

theorem advance_plain (n : Nat) : Plain (sb.advance n) := by
  refine .bind (reserve_plain _ _) fun r => ?_
  cases r <;> exact .pure _

theorem get_plain (n : Nat) (dec : Bytes → Nat) : Plain (sb.get n dec) :=
  .ite (fun _ => .pure _) fun _ => .bind (Block.load_plain _ _ _) fun _ => .pure _

theorem getrawbuf_plain (len : Nat) : Plain (sb.getrawbuf len) :=
  .ite (fun _ => .pure _) fun _ => .bind (Block.load_plain _ _ _) fun _ => .pure _

theorem getraw_plain (len : Nat) : Plain (sb.getraw len) := by
  refine .bind (malloc_plain _) fun b => ?_
  cases b with
  | none => exact .pure _
  | some b => exact getrawbuf_plain _ _

theorem getstr_plain (len : Nat) : Plain (sb.getstr len) := by
  refine .bind (malloc_plain _) fun b => ?_
  cases b with
  | none => exact .pure _
  | some b => exact .bind (getrawbuf_plain _ _) fun r => .pure _

theorem put_plain (v : Bytes) : Plain (sb.put v) := by
  refine .bind (reserve_plain _ _) fun r => ?_
  cases r with
  | none => exact .pure _
  | some sb => exact .bind (Block.store_plain _ _ _) fun b => .pure _

end Sbuf

/-! ## TLVs and tags -/

namespace Tlv

theorem new_plain (type length : Nat) (value : Option Bytes) : Plain (new type length value) :=
  .bind (malloc_plain _) fun _ => .pure _

theorem parseOne_plain (sb : Sbuf) : Plain (parseOne sb) := by
  refine .bind (Sbuf.get_plain _ _ _) fun (t, sb) => .bind (Sbuf.get_plain _ _ _) fun (l, sb) => ?_
  refine .ite (fun _ => .bind (new_plain _ _ _) fun tlv => .pure _) fun _ => ?_
  refine .bind (Sbuf.getraw_plain _ _) fun (v, sb) => ?_
  cases v with
  | none => exact .pure _
  | some v => exact .bind (new_plain _ _ _) fun tlv => .pure _

theorem parseLoop_plain (fuel : Nat) (limit : Int) (sb : Sbuf) : Plain (parseLoop fuel limit sb) := by
  induction fuel generalizing limit sb with
  | zero => exact .fault (.inr rfl)
  | succ fuel ih =>
      refine .ite (fun _ => .bind (parseOne_plain _) fun (tlv, sb) => ?_) fun _ => .pure _
      cases tlv with
      | none => exact .pure _
      | some tlv => exact .ite (fun _ => .pure _) fun _ => .bind (ih _ _) fun r => .pure _

theorem parseLimit_plain (sb : Sbuf) (limit : Int) : Plain (parseLimit sb limit) :=
  Obeys.of_state (g := fun h => parseWithin (rounds sb limit h) sb limit) fun _ =>
    .ite (fun _ => .pure _) fun _ => parseLoop_plain _ _ _

theorem parse_plain (sb : Sbuf) : Plain (parse sb) := parseLimit_plain _ _

theorem render_plain (tlvs : List Tlv) (sb : Sbuf) : Plain (render tlvs sb) := by
  induction tlvs generalizing sb with
  | nil => exact .pure _
  | cons tlv tlvs ih =>
      refine .ite (fun _ => ?_) fun _ => .pure _
      refine .bind (Sbuf.put_plain _ _) fun r => .bind (Sbuf.put_plain _ _) fun r => .bind ?_ fun r => ?_
      · cases tlv.value with
        | none => exact .pure _
        | some v => exact Sbuf.put_plain _ _
      · exact .bind (ih _) fun r => .pure _

theorem getasstring_plain (tlvs : List Tlv) (type : Nat) : Plain (getasstring tlvs type) := by
  unfold getasstring
  cases get tlvs type with
  | none => exact .pure _
  | some tlv =>
      refine .bind (malloc_plain _) fun b => ?_
      cases b <;> exact .pure _

theorem addraw_plain (tlvs : List Tlv) (type : Nat) (value : Bytes) :
    Plain (addraw tlvs type value) := by
  have hnew : ∀ f : Option Tlv → Mem (Bool × List Tlv), (∀ r, Plain (f r)) →
      Plain (new type value.length (if value.length = 0 then none else some value) >>= f) :=
    fun f hf => .bind (new_plain _ _ _) hf
  have hadd : ∀ r : Option Tlv, Plain (addnew tlvs r) := by
    intro r
    cases r <;> exact .pure _
  refine .ite (fun _ => .bind (.pure _) fun room => ?_) fun _ => ?_
  · exact .ite (fun _ => hnew _ hadd) fun _ => .pure _
  · exact .bind (.map (malloc_plain _)) fun room => .ite (fun _ => hnew _ hadd) fun _ => .pure _

end Tlv

/-! ## With memory enough -/

namespace Tlv

variable {tlvs : List Tlv} {h : Heap}

/-- With memory enough the TLV stands at the end of the chain. -/
theorem addraw_willing (type : Nat) (value : Bytes) (hwilling : h.refuse = []) :
    addraw tlvs type value h =
      .ok ((true, tlvs ++ [⟨type, value.length, if value.length = 0 then none else some value⟩]), h) := by
  have hnew : ∀ v, new type value.length v h = .ok (some ⟨type, value.length, v⟩, h) := fun v => by
    rw [new_eq, Heap.willing hwilling, Heap.next_of_willing hwilling]
    rfl
  unfold addraw
  split
  · rw [pure_bind]
    dsimp only
    rw [if_pos rfl, bind_of_ok (hnew _)]
    rfl
  · have hmalloc : (Option.isSome <$> malloc value.length) h = .ok (true, h) :=
      map_ok.2 ⟨_, _, malloc_of_willing hwilling, rfl⟩
    rw [bind_of_ok hmalloc]
    dsimp only
    rw [if_pos rfl, bind_of_ok (hnew _)]
    rfl

end Tlv

end Timps.Naf
