-- SUMMARY: The loop over the text of the arguments: what each part of it does, and when it ends inside the text.
import Timps.Nafconsole.Args

/-!
# Splitting the arguments

While the loop goes over an argument, the memory from the start of it is the name, a terminator, the
quotes that the value starts with, the part of the value that has been seen, and the text to come. Each
quote has become a terminator by then. One argument is taken off the text in this way, and so an
induction on the length of the text says where the loop ends.
-/

namespace Timps.Nafconsole

open Naf
open Prog (bind_of_error bind_of_ok)

/-! ## The loop -/

/-- What a value becomes while the loop goes over it. -/
def hide (v : CStr) : CStr := v.map fun c => if c = 34 then 0 else c

/-- The part of the loop behind a value. -/
def finish (fuel : Nat) (b : Block) (c : Nat) (req : RpcReq) (argspec val rest : CStr) : Mem (Int × RpcReq × CStr) := do
  let (ret, req, out) ← parsearg req argspec val
  if ret = -1 then pure (-1, req, out)
  else if rest = [] then pure (0, req, out)
  else splitLoop fuel b c none none false req

/-- Of a value with terminators in place of its quotes one reads what is in front of the first. -/
theorem cstring_hide {v : CStr} (hv : 0 ∉ v) : cstring (hide v) = v.takeWhile (· ≠ 34) := by
  induction v with
  | nil => rfl
  | cons c v ih =>
      rw [List.mem_cons, not_or] at hv
      have hrest := ih hv.2
      unfold hide cstring at hrest ⊢
      rw [List.map_cons, List.takeWhile_cons, List.takeWhile_cons, hrest]
      by_cases hquote : c = 34
      · rw [if_pos hquote, hquote]
        rfl
      · have hne : (c != 0) = true := bne_iff_ne.2 (Ne.symm hv.1)
        rw [if_neg hquote, if_pos hne, if_pos (decide_eq_true hquote)]

/-- A value that does not begin with a quote ends at the first one. -/
theorem unquote_of_head {v : CStr} (hv : v.head? ≠ some 34) : unquote v = v.takeWhile (· ≠ 34) := by
  cases v with
  | nil => rfl
  | cons c v =>
      have hc : ¬decide (c = 34) = true := fun heq => hv (by rw [List.head?_cons, of_decide_eq_true heq])
      rw [unquote, List.dropWhile_cons_of_neg (p := fun x => decide (x = 34)) hc]

section

variable {b : Block} {c start eq fuel : Nat} {quoted : Bool} {req : RpcReq} {h : Heap}
  {argspec val s t v w z r : CStr}

/-- The first round notes where the argument starts. -/
theorem splitLoop_start : splitLoop fuel b c none none quoted req = splitLoop fuel b c (some c) none quoted req := by
  cases fuel with
  | zero => rfl
  | succ fuel => rfl

/-- The name is walked over, and a terminator put behind it. -/
theorem splitLoop_name (fuel start : Nat) (req : RpcReq) (h : Heap) (hrest : b.rest c = argspec ++ 61 :: t)
    (hspec : 61 ∉ argspec) :
    splitLoop (fuel + (argspec.length + 1)) b c (some start) none quoted req h =
      splitLoop fuel (b.fill (c + argspec.length) [0]) (c + argspec.length + 1) (some start)
        (some (c + argspec.length + 1)) quoted req h := by
  induction argspec generalizing c with
  | nil =>
      rw [List.length_nil, Nat.zero_add, splitLoop, bind_of_ok (Block.peek_rest hrest)]
      dsimp only
      rw [if_pos rfl, bind_of_ok (Block.store_rest hrest)]
      rfl
  | cons x argspec ih =>
      rw [List.mem_cons, not_or] at hspec
      have hih := ih (Block.rest_succ hrest) hspec.2
      rw [Nat.add_assoc c 1, Nat.add_comm 1] at hih
      rw [List.length_cons, ← Nat.add_assoc, splitLoop, bind_of_ok (Block.peek_rest hrest)]
      dsimp only
      rw [if_neg (Ne.symm hspec.1)]
      exact hih

/-- Without a `=` the loop leaves the text. -/
theorem splitLoop_unnamed (hrest : b.rest c = s) (hs : 61 ∉ s) (hfuel : s.length < fuel) :
    splitLoop fuel b c (some start) none quoted req h = .error .outOfBounds := by
  induction s generalizing c fuel with
  | nil =>
      obtain ⟨fuel, rfl⟩ := Nat.exists_eq_add_of_lt hfuel
      exact bind_of_error (Block.peek_end hrest)
  | cons x s ih =>
      rw [List.mem_cons, not_or] at hs
      obtain ⟨fuel, rfl⟩ := Nat.exists_eq_add_of_lt hfuel
      rw [splitLoop, bind_of_ok (Block.peek_rest hrest)]
      dsimp only
      rw [if_neg (Ne.symm hs.1)]
      exact ih (Block.rest_succ hrest) hs.2 (by rw [List.length_cons]; omega)

/-- A quote becomes a terminator, and at the start of the value it moves the start. -/
theorem splitLoop_quote (hread : b.rest c = 34 :: t) :
    splitLoop (fuel + 1) b c (some start) (some eq) quoted req h =
      splitLoop fuel (b.fill c [0]) (c + 1) (some start) (some (if eq = c then eq + 1 else eq)) (!quoted) req h := by
  rw [splitLoop, bind_of_ok (Block.peek_rest hread)]
  dsimp only
  rw [if_pos rfl, bind_of_ok (Block.store_rest hread)]
  rfl

/-- Any other byte that does not end the value is walked over. -/
theorem splitLoop_char {x : UInt8} (hread : b.rest c = x :: t) (hquote : x ≠ 34)
    (hends : ¬(quoted = false ∧ (x = 44 ∨ x = 0))) :
    splitLoop (fuel + 1) b c (some start) (some eq) quoted req h =
      splitLoop fuel b (c + 1) (some start) (some eq) quoted req h := by
  rw [splitLoop, bind_of_ok (Block.peek_rest hread)]
  dsimp only [Option.getD_some]
  rw [if_neg hquote, if_neg hends]

/-- A quote that is not closed lets the loop leave the text. -/
theorem splitLoop_open (hrest : b.rest c = r ++ [0]) (hcut : cutValue quoted r = none) (hzero : 0 ∉ r)
    (hfuel : r.length + 1 < fuel) :
    splitLoop fuel b c (some start) (some eq) quoted req h = .error .outOfBounds := by
  induction r generalizing b c eq quoted fuel with
  | nil =>
      obtain ⟨fuel, rfl⟩ := Nat.exists_eq_add_of_lt hfuel
      -- outside of quotes the terminator would have ended the value
      have hquoted : quoted = true := by
        cases quoted with
        | true => rfl
        | false => cases hcut
      rw [hquoted, splitLoop_char hrest (by decide) (by simp), List.length_nil, Nat.zero_add, Nat.add_comm 1, splitLoop]
      exact bind_of_error (Block.peek_end (Block.rest_succ hrest))
  | cons x r ih =>
      obtain ⟨fuel, rfl⟩ := Nat.exists_eq_add_of_lt hfuel
      have hfuel' : r.length + 1 < (x :: r).length + 1 + fuel := by rw [List.length_cons]; omega
      rw [List.mem_cons, not_or] at hzero
      rw [cutValue] at hcut
      split at hcut
      · rename_i hquote
        have hfill := Block.rest_fill (y := 0) (l := []) hrest
        rw [splitLoop_quote (hquote ▸ hrest)]
        exact ih (Block.rest_succ hfill) (Option.map_eq_none_iff.1 hcut) hzero.2 hfuel'
      rename_i hquote
      split at hcut
      · cases hcut
      · rename_i hcomma
        rw [splitLoop_char hrest hquote fun hend => hcomma ⟨hend.1, hend.2.resolve_right (Ne.symm hzero.1)⟩]
        exact ih (Block.rest_succ hrest) (Option.map_eq_none_iff.1 hcut) hzero.2 hfuel'

/-- What the loop does behind a value depends on the text that is left, and not on the block. -/
theorem finish_eq (hrest : b.rest c = t ++ [0]) (hzero : 0 ∉ t) :
    (do
      let (ret, req, out) ← parsearg req argspec val
      if ret = -1 then pure (-1, req, out)
      else do
        if (← b.peek c) = 0 then pure (0, req, out)
        else splitLoop fuel b c none none false req) h = finish fuel b c req argspec val t h := by
  unfold finish
  cases hparse : parsearg req argspec val h with
  | error e => rw [bind_of_error hparse, bind_of_error hparse]
  | ok x =>
      obtain ⟨⟨ret, req'⟩, h'⟩ := x
      rw [bind_of_ok hparse, bind_of_ok hparse]
      dsimp only
      by_cases hret : ret = -1
      · rw [if_pos hret, if_pos hret]
      rw [if_neg hret, if_neg hret]
      cases t with
      | nil =>
          rw [bind_of_ok (Block.peek_rest hrest), if_pos rfl, if_pos rfl]
      | cons x t =>
          have hx : x ≠ 0 := fun heq => hzero (heq ▸ List.mem_cons_self)
          rw [bind_of_ok (Block.peek_rest hrest), if_neg hx, if_neg (List.cons_ne_nil x t)]

/-- At the end of the text the argument is added. -/
theorem splitLoop_end (hread : b.rest c = [0]) (hstart : b.strAt start h = .ok (argspec, h))
    (hval : b.strAt eq h = .ok (val, h)) :
    splitLoop (fuel + 1) b c (some start) (some eq) false req h = finish fuel b c req argspec val [] h := by
  rw [splitLoop, bind_of_ok (Block.peek_rest hread)]
  dsimp only
  rw [if_neg (by decide), if_pos ⟨rfl, .inr rfl⟩, if_neg (by decide), pure_bind]
  dsimp only [Option.getD_some]
  rw [bind_of_ok hstart, bind_of_ok hval]
  exact finish_eq hread (by simp)

/-- And so it is at a comma, which becomes the terminator of the value. -/
theorem splitLoop_comma (hread : b.rest c = 44 :: (t ++ [0])) (hzero : 0 ∉ t)
    (hstart : (b.fill c [0]).strAt start h = .ok (argspec, h)) (hval : (b.fill c [0]).strAt eq h = .ok (val, h)) :
    splitLoop (fuel + 1) b c (some start) (some eq) false req h =
      finish fuel (b.fill c [0]) (c + 1) req argspec val t h := by
  have hleft : (b.fill c [0]).rest (c + 1) = t ++ [0] := Block.rest_succ (Block.rest_fill (l := []) hread)
  rw [splitLoop, bind_of_ok (Block.peek_rest hread)]
  dsimp only [Option.getD_some]
  rw [if_neg (by decide), if_pos ⟨rfl, .inl rfl⟩, if_pos rfl, bind_of_ok (bind_of_ok (Block.store_rest hread))]
  dsimp only
  rw [bind_of_ok hstart, bind_of_ok hval]
  exact finish_eq hleft hzero

/-- Behind the terminators stand the name and the value without its quotes. -/
theorem strAt_laid (hrest : b.rest start = argspec ++ 0 :: (z ++ (hide w ++ 0 :: r))) (hspec : 0 ∉ argspec)
    (hw : w.head? ≠ some 34) (hzero : 0 ∉ w) :
    b.strAt start h = .ok (argspec, h) ∧
      b.strAt (start + (argspec.length + 1 + z.length)) h = .ok (unquote w, h) := by
  have hbehind : b.rest start = (argspec ++ 0 :: z) ++ (hide w ++ 0 :: r) := by rw [hrest]; simp
  have hlen : (argspec ++ 0 :: z).length = argspec.length + 1 + z.length := by
    simp only [List.length_append, List.length_cons]
    omega
  have hvalue := Block.rest_append hbehind
  rw [hlen] at hvalue
  constructor
  · rw [Block.strAt_rest hrest, cstring_self hspec]
  · rw [Block.strAt_rest hvalue, cstring_hide hzero, unquote_of_head hw]

/-- How far the loop has come in a value. -/
theorem length_laid (argspec z w : CStr) :
    (argspec ++ 0 :: (z ++ hide w)).length = argspec.length + 1 + z.length + w.length := by
  simp only [List.length_append, List.length_cons, hide, List.length_map]
  omega

/-- What the loop has before it there. -/
theorem rest_laid (hrest : b.rest start = argspec ++ 0 :: (z ++ (hide w ++ t))) :
    b.rest (start + (argspec.length + 1 + z.length) + w.length) = t := by
  have hread := Block.rest_append (l := argspec ++ 0 :: (z ++ hide w)) (t := t) (by rw [hrest]; simp)
  rw [length_laid, ← Nat.add_assoc] at hread
  exact hread

/-- A terminator written there hides a quote. -/
theorem fill_laid {x : UInt8} (hrest : b.rest start = argspec ++ 0 :: (z ++ (hide w ++ x :: t))) :
    (b.fill (start + (argspec.length + 1 + z.length) + w.length) [0]).rest start =
      argspec ++ 0 :: (z ++ (hide w ++ 0 :: t)) := by
  have hfill := Block.rest_fill (y := 0) (l := argspec ++ 0 :: (z ++ hide w)) (x := x) (t := t) (by rw [hrest]; simp)
  rw [length_laid, ← Nat.add_assoc] at hfill
  rw [hfill]
  simp

/-- A value is walked over up to its end, and what is then at its start is the value without its quotes.
The quotes at its start are `z`, and `w` is what has been seen behind them. -/
theorem splitLoop_value (req : RpcReq) (h : Heap)
    (hrest : b.rest start = argspec ++ 0 :: (z ++ (hide w ++ (r ++ [0]))))
    (hcut : cutValue quoted r = some (v, t)) (hw : w.head? ≠ some 34) (hspec : 0 ∉ argspec) (hzero : 0 ∉ w ++ r)
    (hfuel : r.length + 1 < fuel) (heq : eq = start + (argspec.length + 1 + z.length)) (hc : c = eq + w.length) :
    ∃ fuel' b' c', (t ≠ [] → t.length + 1 < fuel') ∧ b'.rest c' = t ++ [0] ∧
      splitLoop fuel b c (some start) (some eq) quoted req h =
        finish fuel' b' c' req argspec (unquote (w ++ v)) t h := by
  induction r generalizing b z w v quoted fuel eq c with
  | nil =>
      obtain ⟨fuel, rfl⟩ := Nat.exists_eq_add_of_lt hfuel
      have hread : b.rest c = [0] := by rw [hc, heq]; exact rest_laid hrest
      rw [List.append_nil] at hzero
      obtain ⟨hstart, hval⟩ := strAt_laid (h := h) hrest hspec hw hzero
      rw [← heq] at hval
      cases quoted with
      | true => cases hcut
      | false =>
          cases hcut
          rw [List.append_nil]
          exact ⟨0 + 1 + fuel, b, c, fun hne => absurd rfl hne, hread, splitLoop_end hread hstart hval⟩
  | cons x r ih =>
      obtain ⟨fuel, rfl⟩ := Nat.exists_eq_add_of_lt hfuel
      have hread : b.rest c = x :: (r ++ [0]) := by rw [hc, heq]; exact rest_laid hrest
      have hfill : (b.fill c [0]).rest start = argspec ++ 0 :: (z ++ (hide w ++ 0 :: (r ++ [0]))) := by
        rw [hc, heq]
        exact fill_laid hrest
      have hfuel' : r.length + 1 < (x :: r).length + 1 + fuel := by rw [List.length_cons]; omega
      have hzero' : 0 ∉ (w ++ [x]) ++ r := by rw [List.append_assoc]; exact hzero
      rw [cutValue] at hcut
      by_cases hquote : x = 34
      · rw [if_pos hquote] at hcut
        obtain ⟨⟨v', t'⟩, hcut', hv⟩ := Option.map_eq_some_iff.1 hcut
        cases hv
        rw [splitLoop_quote (hquote ▸ hread)]
        cases w with
        | nil =>
            -- a quote at the start of the value moves the start
            have hrest' : (b.fill c [0]).rest start =
                argspec ++ 0 :: ((z ++ [0]) ++ (hide [] ++ (r ++ [0]))) := by
              rw [hfill]
              simp [hide]
            have heq' : eq + 1 = start + (argspec.length + 1 + (z ++ [0]).length) := by
              rw [heq, List.length_append, List.length_singleton]
              omega
            have hc' : c + 1 = eq + 1 + ([] : CStr).length := by rw [hc]; rfl
            have hloop := ih hrest' hcut' hw (List.not_mem_of_not_mem_cons hzero) hfuel' heq' hc'
            rw [if_pos (show eq = c from hc.symm), hquote]
            exact hloop
        | cons y w =>
            -- a quote behind it ends what is read of the value
            have hrest' : (b.fill c [0]).rest start =
                argspec ++ 0 :: (z ++ (hide (y :: w ++ [x]) ++ (r ++ [0]))) := by
              rw [hfill, hquote]
              simp [hide]
            have hne : ¬eq = c := by rw [hc, List.length_cons]; omega
            have hc' : c + 1 = eq + (y :: w ++ [x]).length := by rw [hc, List.length_append]; rfl
            rw [if_neg hne, List.append_cons (y :: w) x v']
            exact ih hrest' hcut' hw hzero' hfuel' heq hc'
      rw [if_neg hquote] at hcut
      have hx : x ≠ 0 := fun hx => hzero (by simp [hx])
      by_cases hcomma : quoted = false ∧ x = 44
      · obtain ⟨rfl, rfl⟩ := hcomma
        cases hcut
        have ht : 0 ∉ t := fun hmem => hzero (by simp [hmem])
        obtain ⟨hstart, hval⟩ := strAt_laid (h := h) hfill hspec hw fun hmem => hzero (by simp [hmem])
        rw [← heq] at hval
        rw [List.append_nil]
        exact ⟨(44 :: t).length + 1 + fuel, b.fill c [0], c + 1, fun _ => hfuel',
          Block.rest_succ (Block.rest_fill (l := []) hread), splitLoop_comma hread ht hstart hval⟩
      · rw [if_neg hcomma] at hcut
        obtain ⟨⟨v', t'⟩, hcut', hv⟩ := Option.map_eq_some_iff.1 hcut
        cases hv
        have hrest' : b.rest start = argspec ++ 0 :: (z ++ (hide (w ++ [x]) ++ (r ++ [0]))) := by
          rw [hrest]
          simp [hide, hquote]
        have hhead : (w ++ [x]).head? ≠ some 34 := by
          cases w with
          | nil => simpa using hquote
          | cons y w => exact hw
        have hc' : c + 1 = eq + (w ++ [x]).length := by rw [hc, List.length_append]; rfl
        rw [splitLoop_char hread hquote fun hend => hcomma ⟨hend.1, hend.2.resolve_right hx⟩, List.append_cons w x v']
        exact ih hrest' hcut' hhead hzero' hfuel' heq hc'

/-- The loop on a text whose first argument can be taken off: it is added, and then come the others. -/
theorem splitLoop_first (req : RpcReq) (h : Heap) (hrest : b.rest c = s ++ [0]) (hzero : 0 ∉ s)
    (hfirst : firstArg s = some (argspec, val, t)) (hfuel : s.length + 1 < fuel) :
    ∃ fuel' b' c', (t ≠ [] → t.length + 1 < fuel') ∧ b'.rest c' = t ++ [0] ∧ 0 ∉ t ∧
      splitLoop fuel b c none none false req h = finish fuel' b' c' req argspec val t h := by
  unfold firstArg at hfirst
  cases hcut : cutAt 61 s with
  | none => rw [hcut] at hfirst; cases hfirst
  | some x =>
      obtain ⟨spec, r⟩ := x
      rw [hcut] at hfirst
      obtain ⟨⟨v, u⟩, hvalue, heq⟩ := Option.map_eq_some_iff.1 hfirst
      cases heq
      obtain ⟨rfl, hspec⟩ := cutAt_some hcut
      simp only [List.mem_append, List.mem_cons, not_or] at hzero
      obtain ⟨hspec0, -, hr⟩ := hzero
      rw [List.length_append, List.length_cons] at hfuel
      have hread : b.rest c = argspec ++ 61 :: (r ++ [0]) := by rw [hrest]; simp
      have hfill : (b.fill (c + argspec.length) [0]).rest c = argspec ++ 0 :: ([] ++ (hide [] ++ (r ++ [0]))) :=
        Block.rest_fill hread
      obtain ⟨left, rfl⟩ := Nat.exists_eq_add_of_lt hfuel
      have hleft : r.length + 1 < r.length + 2 + left := by omega
      have ht : 0 ∉ u := by
        obtain ⟨-, rfl⟩ | rfl := cutValue_append hvalue
        · simp
        · exact fun hmem => hr (by simp [hmem])
      obtain ⟨fuel', b', c', hlt, hrest', hloop⟩ :=
        splitLoop_value req h hfill hvalue (by simp) hspec0 hr hleft rfl rfl
      have hsum : argspec.length + (r.length + 1) + 1 + left + 1 = r.length + 2 + left + (argspec.length + 1) := by
        omega
      rw [splitLoop_start, hsum, splitLoop_name _ _ _ _ hread hspec]
      exact ⟨fuel', b', c', hlt, hrest', ht, hloop⟩

/-- The loop leaves a text of which no argument can be taken off: there is no `=`, or a quote stays open. -/
theorem splitLoop_none (hrest : b.rest c = s ++ [0]) (hzero : 0 ∉ s) (hfirst : firstArg s = none)
    (hfuel : s.length + 1 < fuel) : splitLoop fuel b c none none false req h = .error .outOfBounds := by
  unfold firstArg at hfirst
  rw [splitLoop_start]
  cases hcut : cutAt 61 s with
  | none =>
      have hnot : 61 ∉ s ++ [0] := by
        intro hmem
        obtain hmem | hmem := List.mem_append.1 hmem
        · obtain ⟨x, y, rfl, hx⟩ := List.eq_append_cons_of_mem hmem
          rw [cutAt_append y hx] at hcut
          cases hcut
        · revert hmem
          decide
      exact splitLoop_unnamed hrest hnot (by rw [List.length_append]; exact hfuel)
  | some x =>
      obtain ⟨spec, r⟩ := x
      rw [hcut] at hfirst
      obtain ⟨rfl, hspec⟩ := cutAt_some hcut
      simp only [List.mem_append, List.mem_cons, not_or] at hzero
      rw [List.length_append, List.length_cons] at hfuel
      have hread : b.rest c = spec ++ 61 :: (r ++ [0]) := by rw [hrest]; simp
      obtain ⟨left, rfl⟩ := Nat.exists_eq_add_of_lt hfuel
      have hsum : spec.length + (r.length + 1) + 1 + left + 1 = r.length + 2 + left + (spec.length + 1) := by omega
      have hleft : (b.fill (c + spec.length) [0]).rest (c + spec.length + 1) = r ++ [0] := by
        have hfill := Block.rest_fill (y := 0) hread
        have hbehind := Block.rest_append (l := spec ++ [0]) (t := r ++ [0]) (hfill.trans (by simp))
        rw [List.length_append, ← Nat.add_assoc] at hbehind
        exact hbehind
      rw [hsum, splitLoop_name _ _ _ _ hread hspec]
      exact splitLoop_open hleft (Option.map_eq_none_iff.1 hfirst) hzero.2.2 (by omega)

/-! ## The whole text -/

/-- A text is not well-ended without a first argument. -/
theorem wellEnded_none (hfirst : firstArg s = none) : ¬WellEnded h s := by
  rw [WellEnded]
  split
  · exact id
  · rename_i hsome
    rw [hfirst] at hsome
    cases hsome

/-- With one it is, if that is in order and, once it is added, so are the others. -/
theorem wellEnded_first (hfirst : firstArg s = some (argspec, val, t)) :
    WellEnded h s ↔ Bracketed argspec ∧ ∀ arg, meaning argspec val = some arg →
      true ∉ h.refuse.take (allocs arg) → t = [] ∨ WellEnded (h.skip (allocs arg)) t := by
  rw [WellEnded]
  split
  · rename_i hnone
    rw [hfirst] at hnone
    cases hnone
  · rename_i hsome
    rw [hfirst] at hsome
    cases hsome
    rfl

/-- An argument that is added, with those behind it. -/
theorem finish_added {arg : RpcArg} (hbracket : Bracketed argspec) (harg : meaning argspec val = some arg)
    (hgranted : true ∉ h.refuse.take (allocs arg)) :
    finish fuel b c req argspec val t h =
      if t = [] then .ok ((0, { req with inargs := req.inargs ++ [arg] }, []), h.skip (allocs arg))
      else splitLoop fuel b c none none false { req with inargs := req.inargs ++ [arg] } (h.skip (allocs arg)) := by
  rw [finish, bind_of_ok (parsearg_added hbracket harg hgranted)]
  dsimp only
  rw [if_neg (by decide)]
  split <;> rfl

/-- An argument that has no meaning or cannot be allocated, whatever stands behind it. -/
theorem finish_refused (hbracket : Bracketed argspec)
    (hrefused : ∀ arg, meaning argspec val = some arg → true ∈ h.refuse.take (allocs arg)) :
    ∃ out h', finish fuel b c req argspec val t h = .ok ((-1, req, out), h') := by
  obtain ⟨out, h', hparse⟩ : ∃ out h', parsearg req argspec val h = .ok ((-1, req, out), h') :=
    parsearg_refused hbracket hrefused
  exact ⟨out, h', bind_of_ok hparse⟩

/-- The loop ends exactly on a well-ended text, and otherwise leaves it. -/
theorem splitLoop_wellEnded (req : RpcReq) (h : Heap) (hrest : b.rest c = s ++ [0]) (hzero : 0 ∉ s)
    (hfuel : s.length + 1 < fuel) :
    (WellEnded h s → ∃ r, splitLoop fuel b c none none false req h = .ok r) ∧
      (¬WellEnded h s → splitLoop fuel b c none none false req h = .error .outOfBounds) := by
  -- each argument leaves a shorter text
  induction hn : s.length using Nat.strong_induction_on generalizing s b c fuel req h with
  | _ n ih =>
      subst hn
      cases hfirst : firstArg s with
      | none =>
          exact ⟨fun hended => absurd hended (wellEnded_none hfirst),
            fun _ => splitLoop_none hrest hzero hfirst hfuel⟩
      | some x =>
          obtain ⟨argspec, val, t⟩ := x
          obtain ⟨fuel', b', c', hlt, hrest', hzero', hloop⟩ :=
            splitLoop_first req h hrest hzero hfirst hfuel
          rw [hloop, wellEnded_first hfirst]
          by_cases hbracket : Bracketed argspec
          · by_cases hadded : ∃ arg, meaning argspec val = some arg ∧ true ∉ h.refuse.take (allocs arg)
            · obtain ⟨arg, harg, hgranted⟩ := hadded
              have hsame : ∀ arg', meaning argspec val = some arg' → arg' = arg :=
                fun arg' harg' => Option.some.inj (harg'.symm.trans harg)
              rw [finish_added hbracket harg hgranted]
              by_cases ht : t = []
              · rw [if_pos ht]
                exact ⟨fun _ => ⟨_, rfl⟩, fun hnot => absurd ⟨hbracket, fun _ _ _ => .inl ht⟩ hnot⟩
              · obtain ⟨hends, hleaves⟩ := ih t.length (firstArg_length hfirst)
                  { req with inargs := req.inargs ++ [arg] } (h.skip (allocs arg)) hrest' hzero' (hlt ht) rfl
                rw [if_neg ht]
                constructor
                · rintro ⟨-, hothers⟩
                  exact hends ((hothers arg harg hgranted).resolve_left ht)
                · intro hnot
                  refine hleaves fun hended => hnot ⟨hbracket, fun arg' harg' _ => .inr ?_⟩
                  rw [hsame arg' harg']
                  exact hended
            · have hrefused : ∀ arg, meaning argspec val = some arg → true ∈ h.refuse.take (allocs arg) :=
                fun arg harg => Classical.not_not.1 fun hgranted => hadded ⟨arg, harg, hgranted⟩
              obtain ⟨out, h', hfinish⟩ : ∃ out h', finish fuel' b' c' req argspec val t h = .ok ((-1, req, out), h') :=
                finish_refused hbracket hrefused
              exact ⟨fun _ => ⟨_, hfinish⟩, fun hnot => absurd
                ⟨hbracket, fun arg harg hgranted => absurd (hrefused arg harg) hgranted⟩ hnot⟩
          · exact ⟨fun hended => absurd hended.1 hbracket,
              fun _ => bind_of_error (parsearg_unbracketed hbracket)⟩

end

end Timps.Nafconsole
