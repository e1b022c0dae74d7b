-- SUMMARY: What the text of the arguments of a call says, and that the parser reads it so.
import Timps.Base.Coupled
import Timps.Nafconsole.Given

/-!
# What the arguments say

The text of the arguments says a list of them, or that one is refused; a text that is not well-ended
says nothing. The parser adds the arguments that its text says, provided that they can be allocated.
What lies in memory behind the text, which is the rest of the line, makes no difference to this.
-/

namespace Timps.Naf.Block

/-- The first block is the front of the second. -/
structure Front (b b' : Block) : Prop where
  size_le : b.size ≤ b'.size
  byte_eq : ∀ i, i < b.size → b'.byte i = b.byte i

namespace Front

variable {b b' : Block}

theorem peek (hfront : b.Front b') (p : Nat) : Prog.Coupled Eq (b.peek p) (b'.peek p) := by
  intro h x h' hr
  obtain ⟨hlt, heq⟩ := peek_ok.1 hr
  cases heq
  exact ⟨_, peek_of_lt (Nat.lt_of_lt_of_le hlt hfront.size_le), (hfront.byte_eq p hlt).symm⟩

theorem fill (hfront : b.Front b') (off : Nat) (v : Bytes) : (b.fill off v).Front (b'.fill off v) where
  size_le := hfront.size_le
  byte_eq := by
    intro i hi
    simp only [Block.fill, hfront.byte_eq i hi]

theorem store (hfront : b.Front b') (off : Nat) (v : Bytes) :
    Prog.Coupled Front (b.store off v) (b'.store off v) := by
  intro h x h' hr
  obtain ⟨hle, heq⟩ := store_ok.1 hr
  cases heq
  exact ⟨_, store_of_le (Nat.le_trans hle hfront.size_le), hfront.fill off v⟩

/-- A string ends in front of what lies behind the block. -/
theorem strAt (hfront : b.Front b') (p : Nat) : Prog.Coupled Eq (b.strAt p) (b'.strAt p) := by
  intro h s h' hr
  unfold Block.strAt at hr
  dsimp only at hr
  split at hr
  · rename_i hlt
    cases hr
    have hsize : b'.size - p = (b.size - p) + (b'.size - b.size) := by
      have hle := hfront.size_le
      omega
    have hbytes : b'.bytes p (b.size - p) = b.rest p :=
      bytes_congr fun i hi => hfront.byte_eq (p + i) (by omega)
    have hrest : b'.rest p = b.rest p ++ b'.bytes (p + (b.size - p)) (b'.size - b.size) := by
      rw [Block.rest, hsize, bytes_add, hbytes]
    have hlen : (b.rest p).length = b.size - p := length_bytes _ _ _
    have hcstring : cstring (b'.rest p) = cstring (b.rest p) := by
      rw [hrest]
      unfold cstring at hlt ⊢
      rw [List.takeWhile_append, if_neg]
      omega
    refine ⟨_, ?_, rfl⟩
    unfold Block.strAt
    rw [hcstring]
    exact if_pos (Nat.lt_of_lt_of_le hlt hfront.size_le)
  · cases hr

theorem ofString (s : CStr) (t : Bytes) : (Block.ofString s).Front (Block.ofString (s ++ 0 :: t)) where
  size_le := by
    simp only [Block.ofString, List.length_append]
    omega
  byte_eq := by
    intro i hi
    simp only [Block.ofString] at hi ⊢
    by_cases hlt : i < s.length
    · rw [List.getD_append _ _ _ _ hlt]
    · obtain rfl : i = s.length := by omega
      rw [List.getD_append_right _ _ _ _ (Nat.le_refl _), Nat.sub_self,
        List.getD_eq_default _ _ (Nat.le_refl _)]
      rfl

end Front

end Timps.Naf.Block

namespace Timps.Nafconsole

open Naf
open Prog (Coupled bind_of_ok)

/-! ## The rest of the line -/

section

variable {b b' : Block} {c fuel fuel' : Nat} {start eq : Option Nat} {quoted : Bool} {req : RpcReq}

/-- A run of the loop that ends within its text is the same whatever lies behind it. -/
theorem splitLoop_front (hfront : b.Front b') (hfuel : fuel ≤ fuel') :
    Coupled Eq (splitLoop fuel b c start eq quoted req) (splitLoop fuel' b' c start eq quoted req) := by
  induction fuel generalizing b b' c fuel' start eq quoted req with
  | zero => exact .fault
  | succ fuel ih =>
      obtain ⟨fuel', rfl⟩ : ∃ n, fuel' = n + 1 := ⟨fuel' - 1, by omega⟩
      have hle : fuel ≤ fuel' := Nat.le_of_succ_le_succ hfuel
      rw [splitLoop, splitLoop]
      refine .bind (hfront.peek c) fun x _ hx => ?_
      subst hx
      cases eq with
      | none =>
          refine .ite (fun _ => ?_) fun _ => ih hfront hle
          exact .bind (hfront.store c [0]) fun _ _ hfront₁ => ih hfront₁ hle
      | some eq =>
          refine .ite (fun _ => ?_) fun _ => ?_
          · exact .bind (hfront.store c [0]) fun _ _ hfront₁ => ih hfront₁ hle
          refine .ite (fun _ => ?_) fun _ => ih hfront hle
          have hsep : Coupled (fun p q => p.1.Front q.1 ∧ p.2 = q.2)
              (if x = 44 then (do let b ← b.store c [0]; pure (b, c + 1)) else pure (b, c) : Mem (Block × Nat))
              (if x = 44 then (do let b' ← b'.store c [0]; pure (b', c + 1)) else pure (b', c)) := by
            refine .ite (fun _ => ?_) fun _ => .pure ⟨hfront, rfl⟩
            exact .bind (hfront.store c [0]) fun _ _ hfront₁ => .pure ⟨hfront₁, rfl⟩
          refine .bind hsep fun p q hpq => ?_
          obtain ⟨b₁, c₁⟩ := p
          obtain ⟨b₁', c₁'⟩ := q
          obtain ⟨hfront₁, rfl⟩ := hpq
          refine .bind (hfront₁.strAt _) fun argspec _ hargspec => ?_
          subst hargspec
          refine .bind (hfront₁.strAt _) fun val _ hval => ?_
          subst hval
          refine .bind (.refl _) fun r _ hr => ?_
          subst hr
          refine .ite (fun _ => .refl _) fun _ => ?_
          refine .bind (hfront₁.peek _) fun y _ hy => ?_
          subst hy
          exact .ite (fun _ => .refl _) fun _ => ih hfront₁ hle

theorem splitandparseargs_front (hfront : b.Front b') :
    Coupled Eq (splitandparseargs req (some b)) (splitandparseargs req (some b')) := by
  rw [splitandparseargs, splitandparseargs]
  refine .bind (hfront.strAt 0) fun s _ hs => ?_
  subst hs
  exact .ite (fun _ => .refl _) fun _ => splitLoop_front hfront (Nat.succ_le_succ hfront.size_le)

end

/-! ## What a text says -/

/-- What the text of the arguments says, from the start of an argument on. -/
inductive Spells : CStr → Option (List RpcArg) → Prop where
  | last {s argspec val : CStr} {arg : RpcArg} :
      firstArg s = some (argspec, val, []) → Bracketed argspec → meaning argspec val = some arg →
      Spells s (some [arg])
  | more {s argspec val t : CStr} {arg : RpcArg} {l : Option (List RpcArg)} :
      firstArg s = some (argspec, val, t) → t ≠ [] → Bracketed argspec → meaning argspec val = some arg →
      Spells t l → Spells s (l.map (arg :: ·))
  | refused {s argspec val t : CStr} :
      firstArg s = some (argspec, val, t) → Bracketed argspec → meaning argspec val = none → Spells s none

/-- What the string in the parentheses of a call says; they may be missing. -/
inductive Argtext : Option CStr → Option (List RpcArg) → Prop where
  | missing : Argtext none (some [])
  | white {s : CStr} : 0 ∉ s → stripwhitefront s = [] → Argtext (some s) (some [])
  | spelled {s : CStr} {l : Option (List RpcArg)} :
      0 ∉ s → stripwhitefront s ≠ [] → Spells (stripwhitefront s) l → Argtext (some s) l

/-- What the parser makes of a text: the arguments are added, or one is refused or cannot be allocated. -/
inductive Parses (req : RpcReq) (h : Heap) : Option (List RpcArg) → Int × RpcReq × CStr → Prop where
  | refused {l : Option (List RpcArg)} {req' : RpcReq} {out : CStr} :
      (l = none ∨ true ∈ h.refuse) → Parses req h l (-1, req', out)
  | added {l : List RpcArg} : Parses req h (some l) (0, { req with inargs := req.inargs ++ l }, [])

section

variable {req : RpcReq} {h : Heap}

theorem Parses.nothing (req : RpcReq) (h : Heap) : Parses req h (some []) (0, req, []) := by
  have hadded : Parses req h (some []) (0, { req with inargs := req.inargs ++ [] }, []) := .added
  simpa using hadded

theorem Parses.cons {arg : RpcArg} {l : Option (List RpcArg)} {r : Int × RpcReq × CStr} {n : Nat}
    (hparses : Parses { req with inargs := req.inargs ++ [arg] } (h.skip n) l r) :
    Parses req h (l.map (arg :: ·)) r := by
  cases hparses with
  | refused hrefused =>
      refine .refused ?_
      obtain rfl | hmem := hrefused
      · exact .inl rfl
      · exact .inr (List.mem_of_mem_drop hmem)
  | @added l =>
      have hadded : Parses req h (some (arg :: l)) (0, { req with inargs := req.inargs ++ arg :: l }, []) := .added
      simpa using hadded

/-- An argument that cannot be allocated ends the parsing. -/
theorem finish_short {b : Block} {c fuel : Nat} {argspec val t : CStr} {arg : RpcArg} (hbracket : Bracketed argspec)
    (harg : meaning argspec val = some arg) (hmem : true ∈ h.refuse.take (allocs arg)) :
    ∃ out h', finish fuel b c req argspec val t h = .ok ((-1, req, out), h') :=
  finish_refused hbracket fun _ harg' => Option.some.inj (harg.symm.trans harg') ▸ hmem

theorem splitLoop_spells {b : Block} {c fuel : Nat} {s : CStr} {l : Option (List RpcArg)} (hspells : Spells s l)
    (req : RpcReq) (h : Heap) (hrest : b.rest c = s ++ [0]) (hzero : 0 ∉ s) (hfuel : s.length + 1 < fuel) :
    ∃ r h', splitLoop fuel b c none none false req h = .ok (r, h') ∧ Parses req h l r := by
  induction hspells generalizing b c fuel req h with
  | @last s argspec val arg hfirst hbracket harg =>
      obtain ⟨fuel', b', c', -, -, -, hloop⟩ := splitLoop_first req h hrest hzero hfirst hfuel
      rw [hloop]
      by_cases hmem : true ∈ h.refuse.take (allocs arg)
      · obtain ⟨out, h', hfinish⟩ : ∃ out h', finish fuel' b' c' req argspec val [] h = .ok ((-1, req, out), h') :=
          finish_short hbracket harg hmem
        exact ⟨_, _, hfinish, .refused (.inr (List.mem_of_mem_take hmem))⟩
      · rw [finish_added hbracket harg hmem, if_pos rfl]
        exact ⟨_, _, rfl, .added⟩
  | @more s argspec val t arg l hfirst hne hbracket harg _ ih =>
      obtain ⟨fuel', b', c', hlt, hrest', hzero', hloop⟩ := splitLoop_first req h hrest hzero hfirst hfuel
      rw [hloop]
      by_cases hmem : true ∈ h.refuse.take (allocs arg)
      · obtain ⟨out, h', hfinish⟩ : ∃ out h', finish fuel' b' c' req argspec val t h = .ok ((-1, req, out), h') :=
          finish_short hbracket harg hmem
        exact ⟨_, _, hfinish, .refused (.inr (List.mem_of_mem_take hmem))⟩
      · rw [finish_added hbracket harg hmem, if_neg hne]
        obtain ⟨r, h', hrun, hparses⟩ := ih { req with inargs := req.inargs ++ [arg] } (h.skip (allocs arg))
          hrest' hzero' (hlt hne)
        exact ⟨r, h', hrun, hparses.cons⟩
  | @refused s argspec val t hfirst hbracket hnone =>
      obtain ⟨fuel', b', c', -, -, -, hloop⟩ := splitLoop_first req h hrest hzero hfirst hfuel
      have hrefused : ∀ arg, meaning argspec val = some arg → true ∈ h.refuse.take (allocs arg) := by
        intro arg harg
        rw [hnone] at harg
        cases harg
      obtain ⟨out, h', hfinish⟩ : ∃ out h', finish fuel' b' c' req argspec val t h = .ok ((-1, req, out), h') :=
        finish_refused hbracket hrefused
      rw [hloop]
      exact ⟨_, _, hfinish, .refused (.inl rfl)⟩

/-- The text alone in its block. -/
theorem splitandparseargs_spells {s : CStr} {l : Option (List RpcArg)} (htext : Argtext (some s) l) (req : RpcReq)
    (h : Heap) : ∃ r h', splitandparseargs req (some (Block.ofString s)) h = .ok (r, h') ∧ Parses req h l r := by
  cases htext with
  | white hzero hnil =>
      exact ⟨_, _, splitandparseargs_white req h (Block.rest_ofString s) hzero hnil, .nothing req h⟩
  | spelled hzero hne hspells =>
      obtain ⟨fuel, c, hfuel, hrest, hrun⟩ := splitandparseargs_eq req h (Block.rest_ofString s) hzero hne
      have hzero' : 0 ∉ stripwhitefront s := fun hmem => hzero ((List.dropWhile_suffix _).mem hmem)
      rw [hrun]
      exact splitLoop_spells hspells req h hrest hzero' hfuel

end

/-! ## The texts that say something -/

section

variable {s : CStr} {l : Option (List RpcArg)} {h : Heap}

/-- What says something is well-ended. -/
theorem Spells.wellEnded (hspells : Spells s l) (h : Heap) : WellEnded h s := by
  induction hspells generalizing h with
  | last hfirst hbracket => exact (wellEnded_first hfirst).2 ⟨hbracket, fun _ _ _ => .inl rfl⟩
  | more hfirst _ hbracket _ _ ih => exact (wellEnded_first hfirst).2 ⟨hbracket, fun _ _ _ => .inr (ih _)⟩
  | refused hfirst hbracket hnone =>
      refine (wellEnded_first hfirst).2 ⟨hbracket, fun arg harg => ?_⟩
      rw [hnone] at harg
      cases harg

/-- With memory enough, what is well-ended says something. -/
theorem spells_of_wellEnded (hended : WellEnded h s) (hwilling : h.refuse = []) : ∃ l, Spells s l := by
  -- each argument leaves a shorter text
  induction hn : s.length using Nat.strong_induction_on generalizing s h with
  | _ n ih =>
      subst hn
      cases hfirst : firstArg s with
      | none => exact absurd hended (wellEnded_none hfirst)
      | some x =>
          obtain ⟨argspec, val, t⟩ := x
          obtain ⟨hbracket, hothers⟩ := (wellEnded_first hfirst).1 hended
          cases harg : meaning argspec val with
          | none => exact ⟨none, .refused hfirst hbracket harg⟩
          | some arg =>
              have hgranted : true ∉ h.refuse.take (allocs arg) := by
                rw [hwilling, List.take_nil]
                exact List.not_mem_nil
              by_cases ht : t = []
              · subst ht
                exact ⟨some [arg], .last hfirst hbracket harg⟩
              have hrest := (hothers arg harg hgranted).resolve_left ht
              have hskip : (h.skip (allocs arg)).refuse = [] := by
                show h.refuse.drop (allocs arg) = []
                rw [hwilling, List.drop_nil]
              obtain ⟨l, hspells⟩ := ih t.length (firstArg_length hfirst) hrest hskip rfl
              exact ⟨l.map (arg :: ·), .more hfirst ht hbracket harg hspells⟩

/-- The parser, with the text alone in its block and memory enough, reads behind it. -/
def Overread (s : CStr) : Prop :=
  ∀ req h, h.refuse = [] → splitandparseargs req (some (Block.ofString s)) h = .error .outOfBounds

theorem Overread.not_argtext (hover : Overread s) : ¬Argtext (some s) l := by
  intro htext
  obtain ⟨r, h', hrun, -⟩ := splitandparseargs_spells htext ⟨[], [], []⟩ Heap.zeroed
  rw [hover _ _ rfl] at hrun
  cases hrun

/-- Each text says something, or the parser reads behind it. -/
theorem argtext_iff (hzero : 0 ∉ s) : (∃ l, Argtext (some s) l) ↔ ¬Overread s := by
  constructor
  · rintro ⟨l, htext⟩ hover
    exact hover.not_argtext htext
  · intro hread
    by_cases hnil : stripwhitefront s = []
    · exact ⟨some [], .white hzero hnil⟩
    have hzero' : 0 ∉ stripwhitefront s := fun hmem => hzero ((List.dropWhile_suffix _).mem hmem)
    by_cases hended : WellEnded Heap.zeroed (stripwhitefront s)
    · obtain ⟨l, hspells⟩ := spells_of_wellEnded hended rfl
      exact ⟨l, .spelled hzero hnil hspells⟩
    refine absurd (fun req h hwilling => ?_) hread
    obtain ⟨fuel, c, hfuel, hrest, hrun⟩ := splitandparseargs_eq req h (Block.rest_ofString s) hzero hnil
    rw [hrun]
    refine (splitLoop_wellEnded req h hrest hzero' hfuel).2 fun hended' => hended ?_
    obtain ⟨l, hspells⟩ := spells_of_wellEnded hended' hwilling
    exact hspells.wellEnded Heap.zeroed

end

/-! ## The documented form -/

/-- Texts of the documented form say what they are. -/
theorem Given.spells_texts (as : List Given) (a : Given) :
    Spells (texts (a :: as)) (some ((a :: as).map Given.arg)) := by
  induction as generalizing a with
  | nil =>
      have hfirst := a.firstArg_text (u := []) rfl
      rw [List.append_nil] at hfirst
      exact .last hfirst a.argspec_bracketed a.argspec_meaning
  | cons a' as ih =>
      exact .more (a.firstArg_text rfl) (a'.texts_ne_nil as) a.argspec_bracketed a.argspec_meaning (ih a')

theorem Given.argtext_texts (as : List Given) : Argtext (some (texts as)) (some (as.map Given.arg)) := by
  cases as with
  | nil => exact .white List.not_mem_nil rfl
  | cons a as =>
      have hstrip := a.texts_strip as
      refine .spelled (texts_zero _) (hstrip ▸ a.strip.texts_ne_nil as) ?_
      rw [← hstrip]
      exact spells_texts as a.strip

end Timps.Nafconsole
