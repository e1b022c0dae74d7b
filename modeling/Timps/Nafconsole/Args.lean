-- SUMMARY: The arguments of a `call` on the console: splitting the text between the parentheses.
import Timps.Naf.Cursor
import Timps.Naf.Numerals
import Timps.Naf.Rpc

/-!
# Arguments typed at the console

A request is typed as `target->method(args)`, and what stands between the parentheses is a list of
`name[type]="value"`, separated by commas. One loop goes over the characters: the place where the
argument starts, the one where its value starts, and whether a quote is open are variables of it. The
separators are replaced by terminators as they are found.

The only way out of the loop is the end of a value. The branch for all other characters compares the
pointer with the terminator, and not what it points to.
-/

namespace Timps.Nafconsole

open Naf
open Naf.Conn (atoi)
open Prog (bind_of_error bind_of_ok)

/-! ## The parser -/

/-- `ISWHITE` -/
def iswhite (c : UInt8) : Bool := c = 32 || c = 9 || c = 10

def stripwhitefront (c : CStr) : CStr := c.dropWhile iswhite

/-- The name and the type in front of the `=`. The `]` is looked for behind the `[`, where there may be
none. -/
def nameAndType (argspec : CStr) : Mem (CStr × CStr) :=
  match cutAt 91 argspec with
  | none => pure (argspec, lit "string")
  | some (name, t) =>
      if 93 ∈ argspec then
        match cutAt 93 t with
        | none => Prog.fault .outOfBounds
        | some (typestr, _) => pure (name, typestr)
      else pure (argspec, lit "string")

/-- The `int` that a `bool` is written as. -/
def onoff (val : CStr) : Option Bool :=
  if strcaseeq val (lit "true") ∨ strcaseeq val (lit "yes") ∨ strcaseeq val (lit "on") ∨
      strcaseeq val (lit "1") then some true
  else if strcaseeq val (lit "false") ∨ strcaseeq val (lit "no") ∨ strcaseeq val (lit "off") ∨
      strcaseeq val (lit "0") then some false
  else none

/-- The value of a `naf_rpc_addarg_*`, the request with the arguments that it leaves, and what is printed
when there is no memory. -/
def added (req : RpcReq) (failed : CStr) : Option (List RpcArg) → Int × RpcReq × CStr
  | none => (-1, req, failed)
  | some inargs => (0, { req with inargs }, [])

/-- The part of `parsearg` behind the type. -/
def addtyped (req : RpcReq) (name typestr val : CStr) : Mem (Int × RpcReq × CStr) :=
  if typestr = [] then pure (-1, req, lit "no type specified for argument '" ++ name ++ lit "'\n")
  else if strcaseeq typestr (lit "scalar") then do
    let r ← RpcArg.addarg req.inargs name fun name => .scalar name (atoi val % 2 ^ 64).toNat
    pure (added req (lit "addarg_scalar failed\n") r)
  else if strcaseeq typestr (lit "bool") ∨ strcaseeq typestr (lit "boolean") then
    match onoff val with
    | none => pure (-1, req, lit "invalid boolean value '" ++ val ++ lit "'\n")
    | some on => do
        let r ← RpcArg.addarg req.inargs name fun name => .bool name on
        pure (added req (lit "addarg_bool failed\n") r)
  else if strcaseeq typestr (lit "string") then do
    let r ← RpcArg.addargString req.inargs name val
    pure (added req (lit "addarg_string failed\n") r)
  else pure (-1, req, lit "unknown type '" ++ typestr ++ lit "' specified for argument '" ++ name ++ lit "'\n")

/-- The terminators that it writes into the name are not seen again. -/
def parsearg (req : RpcReq) (argspec val : CStr) : Mem (Int × RpcReq × CStr) := do
  let (name, typestr) ← nameAndType argspec
  addtyped req (stripwhitefront name) (stripwhitefront typestr) val

/-- The loop in `splitandparseargs`. An argument that is added prints nothing. -/
def splitLoop : Nat → Block → Nat → Option Nat → Option Nat → Bool → RpcReq → Mem (Int × RpcReq × CStr)
  | 0, _, _, _, _, _, _ => Prog.fault .diverge
  | fuel + 1, b, c, start, eq, quoted, req => do
      let start := start.getD c
      let x ← b.peek c
      match eq with
      | none =>
          if x = 61 then do
            let b ← b.store c [0]
            splitLoop fuel b (c + 1) (some start) (some (c + 1)) quoted req
          else
            -- c++; the pointer is not null
            splitLoop fuel b (c + 1) (some start) none quoted req
      | some eq =>
          if x = 34 then do
            let b ← b.store c [0]
            splitLoop fuel b (c + 1) (some start) (some (if eq = c then eq + 1 else eq)) (!quoted) req
          else if quoted = false ∧ (x = 44 ∨ x = 0) then do
            let (b, c) ← (if x = 44 then do
                let b ← b.store c [0]
                pure (b, c + 1)
              else pure (b, c))
            let argspec ← b.strAt start
            let val ← b.strAt eq
            let (ret, req, out) ← parsearg req argspec val
            if ret = -1 then pure (-1, req, out)
            else do
              if (← b.peek c) = 0 then pure (0, req, out)
              else splitLoop fuel b c none none quoted req
          else splitLoop fuel b (c + 1) (some start) (some eq) quoted req

/-- The value, the request and what is printed. The pointer may be null. -/
def splitandparseargs (req : RpcReq) : Option Block → Mem (Int × RpcReq × CStr)
  | none => pure (0, req, [])
  | some b => do
      let s ← b.strAt 0
      let args := stripwhitefront s
      if args = [] then pure (0, req, [])
      else splitLoop (b.size + 1) b (s.length - args.length) none none false req

/-! ## What is between the separators -/

/-- The text of a value up to the comma or the end behind it, and what follows. -/
def cutValue : Bool → CStr → Option (CStr × CStr)
  | quoted, [] => if quoted then none else some ([], [])
  | quoted, c :: s =>
      if c = 34 then (cutValue (!quoted) s).map fun x => (c :: x.1, x.2)
      else if quoted = false ∧ c = 44 then some ([], s)
      else (cutValue quoted s).map fun x => (c :: x.1, x.2)

/-- A value without the quotes in front of it, and up to the next one. -/
def unquote (v : CStr) : CStr := (v.dropWhile (· = 34)).takeWhile (· ≠ 34)

/-- The first argument, in front of its `=` and behind it, and the text of the others. -/
def firstArg (s : CStr) : Option (CStr × CStr × CStr) :=
  match cutAt 61 s with
  | none => none
  | some (argspec, s) => (cutValue false s).map fun x => (argspec, unquote x.1, x.2)

/-- A `[` with a `]` somewhere has one behind it. -/
def Bracketed (argspec : CStr) : Prop :=
  match cutAt 91 argspec with
  | none => True
  | some (_, t) => 93 ∈ argspec → 93 ∈ t

/-- The argument of a given type. -/
def argOf (name typestr val : CStr) : Option RpcArg :=
  if typestr = [] then none
  else if strcaseeq typestr (lit "scalar") then some (.scalar name (atoi val % 2 ^ 64).toNat)
  else if strcaseeq typestr (lit "bool") ∨ strcaseeq typestr (lit "boolean") then
    (onoff val).map fun on => .bool name on
  else if strcaseeq typestr (lit "string") then some (.string name val)
  else none

/-- What an argument stands for, if it is one. -/
def meaning (argspec val : CStr) : Option RpcArg :=
  match cutAt 91 argspec with
  | none => argOf (stripwhitefront argspec) (lit "string") val
  | some (name, t) =>
      match cutAt 93 t with
      | none => argOf (stripwhitefront argspec) (lit "string") val
      | some (typestr, _) => argOf (stripwhitefront name) (stripwhitefront typestr) val

/-- The allocations that adding an argument takes. -/
def allocs : RpcArg → Nat
  | .string _ _ => 3
  | _ => 2

theorem cutValue_append {quoted : Bool} {s v t : CStr} (h : cutValue quoted s = some (v, t)) :
    (s = v ∧ t = []) ∨ s = v ++ 44 :: t := by
  induction s generalizing quoted v with
  | nil =>
      rw [cutValue] at h
      split at h
      · cases h
      · cases h
        exact .inl ⟨rfl, rfl⟩
  | cons c s ih =>
      have hcons : ∀ {q}, (cutValue q s).map (fun x => (c :: x.1, x.2)) = some (v, t) →
          (c :: s = v ∧ t = []) ∨ c :: s = v ++ 44 :: t := by
        intro q hq
        obtain ⟨⟨v', t'⟩, hcut, heq⟩ := Option.map_eq_some_iff.1 hq
        cases heq
        obtain ⟨rfl, rfl⟩ | rfl := ih hcut
        · exact .inl ⟨rfl, rfl⟩
        · exact .inr rfl
      rw [cutValue] at h
      split at h
      · exact hcons h
      · split at h
        · rename_i hcomma
          cases h
          exact .inr (by rw [hcomma.2]; rfl)
        · exact hcons h

theorem firstArg_length {s argspec val rest : CStr} (h : firstArg s = some (argspec, val, rest)) :
    rest.length < s.length := by
  unfold firstArg at h
  split at h
  · cases h
  · rename_i spec s' hcut
    obtain ⟨⟨v, t⟩, hv, heq⟩ := Option.map_eq_some_iff.1 h
    cases heq
    obtain ⟨rfl, -⟩ := cutAt_some hcut
    obtain ⟨rfl, rfl⟩ | rfl := cutValue_append hv
    · simp only [List.length_append, List.length_cons, List.length_nil]
      omega
    · simp only [List.length_append, List.length_cons]
      omega

/-- Each argument, up to the first that is refused, has its `=`, ends its quotes and has its brackets in
order. An argument is refused that has no meaning, or when it cannot be allocated. -/
def WellEnded (h : Heap) (s : CStr) : Prop :=
  match _hs : firstArg s with
  | none => False
  | some (argspec, val, rest) =>
      Bracketed argspec ∧ ∀ arg, meaning argspec val = some arg → true ∉ h.refuse.take (allocs arg) →
        rest = [] ∨ WellEnded (h.skip (allocs arg)) rest
termination_by s.length
decreasing_by exact firstArg_length _hs

/-! ## One argument -/

section

variable {req : RpcReq} {argspec val name typestr : CStr} {arg : RpcArg} {h : Heap}

theorem nameAndType_bracketed (hbracket : Bracketed argspec) : ∃ name typestr,
    nameAndType argspec = pure (name, typestr) ∧
      ∀ val, meaning argspec val = argOf (stripwhitefront name) (stripwhitefront typestr) val := by
  have hstring : stripwhitefront (lit "string") = lit "string" := by decide
  unfold Bracketed at hbracket
  unfold nameAndType meaning
  cases hopen : cutAt 91 argspec with
  | none => exact ⟨argspec, lit "string", rfl, fun _ => by rw [hstring]⟩
  | some x =>
      obtain ⟨name, t⟩ := x
      rw [hopen] at hbracket
      dsimp only at hbracket ⊢
      by_cases hmem : 93 ∈ argspec
      · obtain ⟨typestr, u, rfl, hnot⟩ := List.eq_append_cons_of_mem (hbracket hmem)
        rw [if_pos hmem, cutAt_append u hnot]
        exact ⟨name, typestr, rfl, fun _ => rfl⟩
      · have hnot : 93 ∉ t := by
          obtain ⟨rfl, -⟩ := cutAt_some hopen
          simp only [List.mem_append, List.mem_cons, not_or] at hmem
          exact hmem.2.2
        rw [if_neg hmem, cutAt_of_notMem hnot]
        exact ⟨argspec, lit "string", rfl, fun _ => by rw [hstring]⟩

theorem parsearg_unbracketed (hbracket : ¬Bracketed argspec) :
    parsearg req argspec val h = .error .outOfBounds := by
  unfold Bracketed at hbracket
  unfold parsearg nameAndType
  cases hopen : cutAt 91 argspec with
  | none => exact absurd (by rw [hopen]; trivial) hbracket
  | some x =>
      obtain ⟨name, t⟩ := x
      rw [hopen, Classical.not_imp] at hbracket
      dsimp only
      rw [if_pos hbracket.1, cutAt_of_notMem hbracket.2]
      rfl

theorem addtyped_none (req : RpcReq) (harg : argOf name typestr val = none) :
    ∃ out, addtyped req name typestr val = pure (-1, req, out) := by
  unfold argOf at harg
  unfold addtyped
  split at harg
  · rename_i hempty
    exact ⟨_, if_pos hempty⟩
  rename_i hempty
  rw [if_neg hempty]
  split at harg
  · cases harg
  rename_i hscalar
  rw [if_neg hscalar]
  split at harg
  · rename_i hbool
    rw [if_pos hbool, Option.map_eq_none_iff.1 harg]
    exact ⟨_, rfl⟩
  rename_i hbool
  rw [if_neg hbool]
  split at harg
  · cases harg
  · rename_i hstring
    exact ⟨_, if_neg hstring⟩

theorem addtyped_some (req : RpcReq) (harg : argOf name typestr val = some arg) : ∃ x failed,
    Asks (allocs arg) (req.inargs ++ [arg]) x ∧
      addtyped req name typestr val = x >>= fun r => pure (added req failed r) := by
  unfold argOf at harg
  unfold addtyped
  split at harg
  · cases harg
  rename_i hempty
  rw [if_neg hempty]
  split at harg
  · rename_i hscalar
    cases harg
    rw [if_pos hscalar]
    have hasks := RpcArg.asks_addarg req.inargs name fun name => .scalar name (atoi val % 2 ^ 64).toNat
    exact ⟨_, _, hasks, rfl⟩
  rename_i hscalar
  rw [if_neg hscalar]
  split at harg
  · rename_i hbool
    obtain ⟨on, hon, rfl⟩ := Option.map_eq_some_iff.1 harg
    rw [if_pos hbool, hon]
    exact ⟨_, _, RpcArg.asks_addarg req.inargs name fun name => .bool name on, rfl⟩
  rename_i hbool
  rw [if_neg hbool]
  split at harg
  · rename_i hstring
    cases harg
    rw [if_pos hstring]
    exact ⟨_, _, RpcArg.asks_addargString req.inargs name val, rfl⟩
  · cases harg

/-- An argument that can be allocated is added behind the others. -/
theorem parsearg_added (hbracket : Bracketed argspec) (harg : meaning argspec val = some arg)
    (hgranted : true ∉ h.refuse.take (allocs arg)) :
    parsearg req argspec val h =
      .ok ((0, { req with inargs := req.inargs ++ [arg] }, []), h.skip (allocs arg)) := by
  obtain ⟨name, typestr, hname, hmeaning⟩ := nameAndType_bracketed hbracket
  rw [hmeaning] at harg
  obtain ⟨x, failed, hasks, hadd⟩ := addtyped_some req harg
  unfold parsearg
  rw [hname, pure_bind]
  dsimp only
  rw [hadd, bind_of_ok ((hasks h).1 hgranted)]
  rfl

theorem parsearg_refused (hbracket : Bracketed argspec)
    (hrefused : ∀ arg, meaning argspec val = some arg → true ∈ h.refuse.take (allocs arg)) :
    ∃ out h', parsearg req argspec val h = .ok ((-1, req, out), h') := by
  obtain ⟨name, typestr, hname, hmeaning⟩ := nameAndType_bracketed hbracket
  unfold parsearg
  rw [hname, pure_bind]
  dsimp only
  cases harg : argOf (stripwhitefront name) (stripwhitefront typestr) val with
  | none =>
      obtain ⟨out, hnone⟩ := addtyped_none req harg
      rw [hnone]
      exact ⟨out, h, rfl⟩
  | some arg =>
      obtain ⟨x, failed, hasks, hadd⟩ := addtyped_some req harg
      obtain ⟨h', hnone⟩ := (hasks h).2 (hrefused arg ((hmeaning val).trans harg))
      rw [hadd, bind_of_ok hnone]
      exact ⟨failed, h', rfl⟩

end

end Timps.Nafconsole
