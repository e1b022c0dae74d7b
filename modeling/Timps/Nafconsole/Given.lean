-- SUMMARY: Arguments in the documented form are read as they are written, and when the parser ends at all.
import Mathlib.Data.List.DropRight
import Timps.Nafconsole.Splitloop

/-!
# The documented form of the arguments

An argument of the documented form is `name[type]="value"`, with a name and a value that have none of the
separators in them. The text of a list of them is read back as that list.
-/

namespace Timps.Nafconsole

open Naf
open Naf.Conn (atoi)
open Prog (bind_of_ok)

def onwords : List CStr := [lit "true", lit "yes", lit "on", lit "1"]

def offwords : List CStr := [lit "false", lit "no", lit "off", lit "0"]

/-- A text for a value of a type, and the argument that it makes. -/
inductive Denotes (name : CStr) : CStr → CStr → RpcArg → Prop where
  | string (val : CStr) : Denotes name (lit "string") val (.string name val)
  | scalar (val : CStr) (hne : val ≠ []) (hdigits : ∀ c ∈ val, Digit c) (hint : digits val < 2 ^ 31) :
      Denotes name (lit "scalar") val (.scalar name (digits val))
  | on (val : CStr) (hword : val.map tolower ∈ onwords) :
      Denotes name (lit "bool") val (.bool name true)
  | off (val : CStr) (hword : val.map tolower ∈ offwords) :
      Denotes name (lit "bool") val (.bool name false)

namespace Denotes

variable {name typestr val : CStr} {arg : RpcArg}

/-- The name of a type has none of the separators in it. -/
theorem typestr_clean (hdenotes : Denotes name typestr val arg) :
    0 ∉ typestr ∧ 61 ∉ typestr ∧ 93 ∉ typestr ∧ stripwhitefront typestr = typestr := by
  cases hdenotes with
  | string => decide
  | scalar => decide
  | on => decide
  | off => decide

/-- A word is one of four whatever its case. -/
theorem strcaseeq_or {a b c d : CStr} :
    (strcaseeq val a ∨ strcaseeq val b ∨ strcaseeq val c ∨ strcaseeq val d) ↔
      val.map tolower ∈ [a.map tolower, b.map tolower, c.map tolower, d.map tolower] := by
  simp [strcaseeq]

theorem onoff_on (hword : val.map tolower ∈ onwords) : onoff val = some true :=
  if_pos (strcaseeq_or.2 hword)

theorem onoff_off (hword : val.map tolower ∈ offwords) : onoff val = some false := by
  have hdisjoint : ∀ w ∈ offwords, w ∉ onwords := by decide
  have hnot : val.map tolower ∉ onwords := hdisjoint _ hword
  rw [onoff, if_neg fun hon => hnot (strcaseeq_or.1 hon)]
  exact if_pos (strcaseeq_or.2 hword)

/-- The value is read for what it is. -/
theorem argOf_eq (hdenotes : Denotes name typestr val arg) : argOf name typestr val = some arg := by
  cases hdenotes with
  | string =>
      rw [argOf, if_neg (by decide), if_neg (by decide), if_neg (by decide), if_pos (by decide)]
  | scalar _ hne hdigits hint =>
      have hread := atoi_append hne hdigits (t := []) (fun c hc => nomatch hc) hint
      rw [List.append_nil] at hread
      rw [argOf, if_neg (by decide), if_pos (by decide), hread]
      congr 2
      omega
  | on _ hword =>
      rw [argOf, if_neg (by decide), if_neg (by decide), if_pos (by decide), onoff_on hword]
      rfl
  | off _ hword =>
      rw [argOf, if_neg (by decide), if_neg (by decide), if_pos (by decide), onoff_off hword]
      rfl

end Denotes

/-- An argument in the form that is documented. White space in front of a name is not part of it. -/
structure Given where
  name : CStr
  typestr : CStr
  val : CStr
  arg : RpcArg
  name_zero : 0 ∉ name
  name_comma : 44 ∉ name
  name_eq : 61 ∉ name
  name_bracket : 91 ∉ name
  val_zero : 0 ∉ val
  val_quote : 34 ∉ val
  denotes : Denotes (stripwhitefront name) typestr val arg

namespace Given

def argspec (a : Given) : CStr := a.name ++ 91 :: (a.typestr ++ [93])

/-- `name[type]="value"` -/
def text (a : Given) : CStr := a.argspec ++ 61 :: 34 :: (a.val ++ [34])

def texts : List Given → CStr
  | [] => []
  | [a] => a.text
  | a :: a' :: as => a.text ++ 44 :: texts (a' :: as)

/-- The allocations for all of them. -/
def total (as : List Given) : Nat := (as.map fun a => allocs a.arg).sum

variable (a : Given) {h : Heap}

theorem argspec_eq : 61 ∉ a.argspec := by
  have h := a.denotes.typestr_clean.2.1
  simp only [argspec, List.mem_append, List.mem_cons, List.not_mem_nil, not_or]
  exact ⟨a.name_eq, by decide, h, by decide, id⟩

theorem argspec_zero : 0 ∉ a.argspec := by
  have h := a.denotes.typestr_clean.1
  simp only [argspec, List.mem_append, List.mem_cons, List.not_mem_nil, not_or]
  exact ⟨a.name_zero, by decide, h, by decide, id⟩

theorem text_zero : 0 ∉ a.text := by
  simp only [text, List.mem_append, List.mem_cons, List.not_mem_nil, not_or]
  exact ⟨a.argspec_zero, by decide, by decide, a.val_zero, by decide, id⟩

theorem texts_zero (as : List Given) : 0 ∉ texts as := by
  induction as with
  | nil => exact List.not_mem_nil
  | cons a as ih =>
      cases as with
      | nil => exact a.text_zero
      | cons a' as =>
          simp only [texts, List.mem_append, List.mem_cons, not_or]
          exact ⟨a.text_zero, by decide, ih⟩

theorem texts_ne_nil (as : List Given) : texts (a :: as) ≠ [] := by
  cases as with
  | nil => simp [texts, text]
  | cons a' as => simp [texts, text]

/-- The written name and type have their brackets. -/
theorem argspec_bracketed : Bracketed a.argspec := by
  rw [Bracketed, argspec, cutAt_append _ a.name_bracket]
  intro _
  simp

/-- What is written before the `=` names the argument and its type. -/
theorem argspec_meaning : meaning a.argspec a.val = some a.arg := by
  obtain ⟨-, -, hclose, hstrip⟩ := a.denotes.typestr_clean
  rw [meaning, argspec, cutAt_append _ a.name_bracket]
  dsimp only
  rw [cutAt_append [] hclose]
  dsimp only
  rw [hstrip, a.denotes.argOf_eq]

/-- Inside of quotes a comma belongs to the value. -/
theorem cutValue_quoted {v u : CStr} (hv : 34 ∉ v) :
    cutValue true (v ++ 34 :: u) = (cutValue false u).map fun x => (v ++ 34 :: x.1, x.2) := by
  induction v with
  | nil => rfl
  | cons c v ih =>
      rw [List.mem_cons, not_or] at hv
      rw [List.cons_append, cutValue, if_neg (Ne.symm hv.1), if_neg (by simp), ih hv.2, Option.map_map]
      rfl

/-- A quoted value is read without its quotes. -/
theorem unquote_quoted {v : CStr} (hv : 34 ∉ v) : unquote (34 :: (v ++ [34])) = v := by
  cases v with
  | nil => rfl
  | cons c v =>
      have hc : ¬decide (c = 34) = true := fun heq => hv (of_decide_eq_true heq ▸ List.mem_cons_self)
      have hall : ∀ d ∈ c :: v, decide (d ≠ 34) = true :=
        fun d hd => decide_eq_true (ne_of_mem_of_not_mem hd hv)
      rw [unquote, List.dropWhile_cons_of_pos (p := fun x => decide (x = 34)) rfl, List.cons_append,
        List.dropWhile_cons_of_neg (p := fun x => decide (x = 34)) hc, ← List.cons_append,
        List.takeWhile_append_of_pos hall]
      exact List.append_nil _

/-- The first argument of a written text is the one that was written first. -/
theorem firstArg_text {u t : CStr} (hcut : cutValue false u = some ([], t)) :
    firstArg (a.text ++ u) = some (a.argspec, a.val, t) := by
  have htext : a.text ++ u = a.argspec ++ 61 :: 34 :: (a.val ++ 34 :: u) := by simp [text]
  have hvalue : cutValue false (34 :: (a.val ++ 34 :: u)) = some (34 :: (a.val ++ [34]), t) := by
    rw [cutValue, if_pos rfl, Bool.not_false, cutValue_quoted a.val_quote, hcut]
    rfl
  rw [firstArg, htext, cutAt_append _ a.argspec_eq]
  dsimp only
  rw [hvalue, Option.map_some, unquote_quoted a.val_quote]

/-- The arguments are added one after the other. -/
theorem splitLoop_texts {b : Block} {c fuel : Nat} (as : List Given) (a : Given) (req : RpcReq) (h : Heap)
    (hrest : b.rest c = texts (a :: as) ++ [0]) (hfuel : (texts (a :: as)).length + 1 < fuel)
    (hgranted : true ∉ h.refuse.take (total (a :: as))) :
    splitLoop fuel b c none none false req h =
      .ok ((0, { req with inargs := req.inargs ++ (a :: as).map Given.arg }, []), h.skip (total (a :: as))) := by
  induction as generalizing a b c fuel req h with
  | nil =>
      have hfirst : firstArg a.text = some (a.argspec, a.val, []) := by
        have hfirst := a.firstArg_text (u := []) rfl
        rw [List.append_nil] at hfirst
        exact hfirst
      obtain ⟨fuel', b', c', -, -, -, hloop⟩ := splitLoop_first req h hrest a.text_zero hfirst hfuel
      rw [hloop, finish_added a.argspec_bracketed a.argspec_meaning hgranted, if_pos rfl]
      rfl
  | cons a' as ih =>
      have hsplit : total (a :: a' :: as) = allocs a.arg + total (a' :: as) := rfl
      have hfirst : firstArg (texts (a :: a' :: as)) = some (a.argspec, a.val, texts (a' :: as)) :=
        a.firstArg_text rfl
      have hne := a'.texts_ne_nil as
      obtain ⟨fuel', b', c', hlt, hrest', -, hloop⟩ := splitLoop_first req h hrest (texts_zero _) hfirst hfuel
      rw [hsplit, List.take_add, List.mem_append, not_or] at hgranted
      rw [hloop, finish_added a.argspec_bracketed a.argspec_meaning hgranted.1, if_neg hne,
        ih a' _ (h.skip (allocs a.arg)) hrest' (hlt hne) hgranted.2, Heap.skip_skip, hsplit]
      simp

theorem stripwhitefront_strip (s : CStr) : stripwhitefront (stripwhitefront s) = stripwhitefront s :=
  List.dropWhile_idempotent iswhite s

/-- An argument without the white space in front of it. -/
def strip : Given :=
  { a with
    name := stripwhitefront a.name
    name_zero := fun hmem => a.name_zero ((List.dropWhile_suffix _).mem hmem)
    name_comma := fun hmem => a.name_comma ((List.dropWhile_suffix _).mem hmem)
    name_eq := fun hmem => a.name_eq ((List.dropWhile_suffix _).mem hmem)
    name_bracket := fun hmem => a.name_bracket ((List.dropWhile_suffix _).mem hmem)
    denotes := by
      rw [stripwhitefront_strip]
      exact a.denotes }

/-- White space in front of the text is white space in front of its first name. -/
theorem texts_strip (as : List Given) : texts (a.strip :: as) = stripwhitefront (texts (a :: as)) := by
  have hfront : ∀ u : CStr, stripwhitefront (a.name ++ 91 :: u) = stripwhitefront a.name ++ 91 :: u := by
    intro u
    unfold stripwhitefront
    rw [List.dropWhile_append]
    split
    · rename_i hempty
      rw [List.isEmpty_iff.1 hempty]
      rfl
    · rfl
  cases as with
  | nil => simp [texts, text, argspec, strip, hfront]
  | cons a' as => simp [texts, text, argspec, strip, hfront]

end Given

/-- The front of the text is skipped, and the loop goes over the rest. -/
theorem splitandparseargs_eq {b : Block} {s : CStr} (req : RpcReq) (h : Heap) (hrest : b.rest 0 = s ++ [0])
    (hzero : 0 ∉ s) (hne : stripwhitefront s ≠ []) : ∃ fuel c, (stripwhitefront s).length + 1 < fuel ∧
      b.rest c = stripwhitefront s ++ [0] ∧
      splitandparseargs req (some b) h = splitLoop fuel b c none none false req h := by
  have hsplit : s.takeWhile iswhite ++ stripwhitefront s = s := List.takeWhile_append_dropWhile
  have hlen := congrArg List.length hsplit
  have hsize := Block.size_sub_of_rest hrest
  rw [List.length_append] at hlen hsize
  rw [List.length_singleton] at hsize
  have hc : s.length - (stripwhitefront s).length = (s.takeWhile iswhite).length := by omega
  refine ⟨b.size + 1, s.length - (stripwhitefront s).length, by omega, ?_, ?_⟩
  · have hbehind := Block.rest_append (l := s.takeWhile iswhite) (t := stripwhitefront s ++ [0])
      (hrest.trans (by rw [← List.append_assoc, hsplit]))
    rw [hc, ← hbehind, Nat.zero_add]
  · rw [splitandparseargs, bind_of_ok (Block.strAt_rest hrest), cstring_self hzero]
    exact congrFun (if_neg hne) h

/-- Of a text of white space no argument is made. -/
theorem splitandparseargs_white {b : Block} {s : CStr} (req : RpcReq) (h : Heap) (hrest : b.rest 0 = s ++ [0])
    (hzero : 0 ∉ s) (hnil : stripwhitefront s = []) : splitandparseargs req (some b) h = .ok ((0, req, []), h) := by
  rw [splitandparseargs, bind_of_ok (Block.strAt_rest hrest), cstring_self hzero]
  exact congrFun (if_pos hnil) h

/-- The parser ends within its text exactly when that is white or well-ended, and it adds the arguments of
a text of the documented form in their order. -/
theorem args_parsed {b : Block} {s : CStr} (req : RpcReq) (h : Heap) (hrest : b.rest 0 = s ++ [0]) (hzero : 0 ∉ s) :
    ((∃ r, splitandparseargs req (some b) h = .ok r) ↔
        stripwhitefront s = [] ∨ WellEnded h (stripwhitefront s)) ∧
      ∀ as : List Given, s = Given.texts as → true ∉ h.refuse.take (Given.total as) →
        splitandparseargs req (some b) h =
          .ok ((0, { req with inargs := req.inargs ++ as.map Given.arg }, []), h.skip (Given.total as)) := by
  constructor
  · by_cases hnil : stripwhitefront s = []
    · exact ⟨fun _ => .inl hnil, fun _ => ⟨_, splitandparseargs_white req h hrest hzero hnil⟩⟩
    · obtain ⟨fuel, c, hfuel, hrest', hrun⟩ := splitandparseargs_eq req h hrest hzero hnil
      have hzero' : 0 ∉ stripwhitefront s := fun hmem => hzero ((List.dropWhile_suffix _).mem hmem)
      obtain ⟨hends, hleaves⟩ := splitLoop_wellEnded req h hrest' hzero' hfuel
      rw [hrun]
      constructor
      · rintro ⟨r, hr⟩
        refine .inr (Classical.byContradiction fun hnot => ?_)
        rw [hleaves hnot] at hr
        cases hr
      · exact fun hended => hends (hended.resolve_left hnil)
  · rintro as rfl hgranted
    cases as with
    | nil =>
        rw [splitandparseargs_white req h hrest hzero rfl]
        simp [Given.total, Heap.skip]
    | cons a as =>
        have hstrip := a.texts_strip as
        have hne : stripwhitefront (Given.texts (a :: as)) ≠ [] := by
          rw [← hstrip]
          exact a.strip.texts_ne_nil as
        obtain ⟨fuel, c, hfuel, hrest', hrun⟩ := splitandparseargs_eq req h hrest hzero hne
        rw [← hstrip] at hfuel hrest'
        rw [hrun]
        exact Given.splitLoop_texts as a.strip req h hrest' hfuel hgranted

/-- `x[bool]="on"` -/
def givenOn : Given where
  name := lit "x"
  typestr := lit "bool"
  val := lit "on"
  arg := .bool (lit "x") true
  name_zero := by decide
  name_comma := by decide
  name_eq := by decide
  name_bracket := by decide
  val_zero := by decide
  val_quote := by decide
  denotes := .on _ (by decide)

/-- `who[string]="bob,alice"` -/
def givenWho : Given where
  name := lit "who"
  typestr := lit "string"
  val := lit "bob,alice"
  arg := .string (lit "who") (lit "bob,alice")
  name_zero := by decide
  name_comma := by decide
  name_eq := by decide
  name_bracket := by decide
  val_zero := by decide
  val_quote := by decide
  denotes := .string _

theorem args_parsed_who :
    ((∃ r, splitandparseargs ⟨[], [], []⟩ (some (Block.ofString (Given.texts [givenOn, givenWho]))) Heap.zeroed =
        .ok r) ↔ stripwhitefront (Given.texts [givenOn, givenWho]) = [] ∨
          WellEnded Heap.zeroed (stripwhitefront (Given.texts [givenOn, givenWho]))) ∧
      splitandparseargs ⟨[], [], []⟩ (some (Block.ofString (Given.texts [givenOn, givenWho]))) Heap.zeroed =
        .ok ((0, ⟨[], [], [.bool (lit "x") true, .string (lit "who") (lit "bob,alice")]⟩, []), Heap.zeroed) :=
  have hparsed := args_parsed ⟨[], [], []⟩ Heap.zeroed (Block.rest_ofString (Given.texts [givenOn, givenWho]))
    (Given.texts_zero [givenOn, givenWho])
  ⟨hparsed.1, hparsed.2 [givenOn, givenWho] rfl (by decide)⟩

/-- A name alone sends the loop past the terminator. -/
theorem args_overrun : ¬∀ s : CStr, 0 ∉ s →
    ∃ r, splitandparseargs ⟨[], [], []⟩ (some (Block.ofString s)) Heap.zeroed = .ok r := by
  intro hall
  obtain ⟨r, hr⟩ := hall (lit "abc") (by decide)
  have hfault : splitandparseargs ⟨[], [], []⟩ (some (Block.ofString (lit "abc"))) Heap.zeroed =
      .error .outOfBounds := rfl
  rw [hfault] at hr
  cases hr

end Timps.Nafconsole
