-- SUMMARY: A line typed at the console: the command in it, the macro it may be, and the request it issues.
import Mathlib.Data.List.DropRight
import Timps.Naf.Methods
import Timps.Nafconsole.Macros
import Timps.Nafconsole.Reading

/-!
# Commands

A line is a word and what follows it. The word may be a macro, whose definition is then the line; in a
definition no more macros are looked for. The only command is `call`. Its argument names a module and a
method, and may have arguments of its own between parentheses.

What a line means is a request or nothing. `Means` says which, without the buffers, and in every run the
console answers a line by what it means and by nothing else. The lines that `Means` leaves out are those
with a macro that has no definition, or with arguments that send the parser past their text.
-/

namespace Timps.Nafconsole

open Naf
open Naf.Rpc (Registry Reply Status requestIssue methodsOf resolve Serves)
open Prog (bind_of_error bind_of_ok)

/-! ## The parts of a line -/

def stripwhite (string : CStr) : CStr := (stripwhitefront string).rdropWhile iswhite

/-- The command word, and what is behind the white character that ends it. -/
def commandword (line : CStr) : CStr × CStr :=
  let line := stripwhitefront line
  (line.takeWhile fun c => !iswhite c, (line.dropWhile fun c => !iswhite c).drop 1)

/-- `strstr(s, "->")`: what is in front of it and what is behind it. -/
def cutArrow : CStr → Option (CStr × CStr)
  | [] => none
  | c :: s => if (lit "->").isPrefixOf (c :: s) then some ([], (c :: s).drop 2) else
      (cutArrow s).map fun x => (c :: x.1, x.2)

/-- The text between the parentheses, and the rest of the line behind the closing one. -/
structure Parens where
  text : CStr
  behind : Option CStr

namespace Parens

/-- The closing parenthesis has become the terminator of the text. -/
def block (p : Parens) : Block := Block.ofString (p.text ++ (p.behind.map (0 :: ·)).getD [])

end Parens

/-- The target and the method, each up to its separator, and the parentheses if there are any. -/
def splitcall (arg : CStr) : Option (CStr × CStr × Option Parens) :=
  match cutArrow arg with
  | none => none
  | some (target, method) =>
      match cutAt 40 method with
      | none => some (target, method, none)
      | some (method, args) =>
          match cutAt 41 args with
          | none => some (target, method, some ⟨args, none⟩)
          | some (args, behind) => some (target, method, some ⟨args, some behind⟩)

/-! ## What is printed -/

def tabs (depth : Nat) : CStr := List.replicate depth 9

mutual

/-- One round of the loop in `dumpargs`. -/
def dumparg (depth : Nat) : RpcArg → CStr
  | .scalar name scalar => tabs depth ++ lit "[scalar] " ++ name ++ lit " = " ++ decimal scalar ++ lit "\n"
  | .generic name _ => tabs depth ++ lit "[generic] " ++ name ++ lit " = [...]\n"
  | .bool name boolean =>
      tabs depth ++ lit "[bool] " ++ name ++ lit " = " ++ lit (if boolean then "true" else "false") ++ lit "\n"
  | .string name string => tabs depth ++ lit "[string] " ++ name ++ lit " = '" ++ string ++ lit "'\n"
  | .array name children => tabs depth ++ lit "[array] " ++ name ++ lit "...\n" ++ dumpargs (depth + 1) children

def dumpargs (depth : Nat) : List RpcArg → CStr
  | [] => []
  | arg :: args => dumparg depth arg ++ dumpargs depth args

end

/-- The values that are returned with success, and the text of any other status. -/
def showreply : Status → List RpcArg → CStr
  | .success, returnargs => lit "rpc: request successful\nreturn values:\n" ++ dumpargs 1 returnargs
  | .invalidargs, _ => lit "rpc: invalid arguments\n"
  | .unknownfailure, _ => lit "rpc: unknown failure\n"
  | .unknowntarget, _ => lit "rpc: unknown target\n"
  | .unknownmethod, _ => lit "rpc: unknown method\n"
  | .pending, _ => lit "rpc: request pending\n"

def showobs {F : Type} : Rpc.Obs F → CStr
  | .unknown status => showreply status []
  | .called _ _ _ reply => showreply reply.status reply.returnargs
  | _ => []

/-! ## Commands -/

/-- The registry, the macros and what has been printed. -/
structure Console (F : Type) where
  registry : Registry F := {}
  macrolist : List Macro := []
  out : CStr := []

/-- What happens to the console. -/
inductive Input (F : Type) where
  | line (text : CStr)
  /-- the configuration has changed -/
  | confchange (conf : Modparms)
  /-- a module calls the registry, or the list of modules changes -/
  | rpc (call : Rpc.Call F)

namespace Console

variable {F : Type} (methods : F → Nat → RpcReq → Mem Reply)

def print (text : CStr) (w : Console F) : Console F := { w with out := w.out ++ text }

/-- The end of `cmd_call`: the request is shown, issued, and its answer shown. -/
def issue (req : RpcReq) (w : Console F) : Mem (Console F) := do
  let w := w.print (lit "input arguments:\n" ++ dumpargs 1 req.inargs)
  let (o, modlist) ← requestIssue methods w.registry.ourmodule w.registry.modlist req
  pure ({ w with registry := w.registry.see o modlist }.print (showobs o))

/-- The middle of `cmd_call`. -/
def request (target method : CStr) (args : Option Parens) (w : Console F) : Mem (Console F) := do
  match ← RpcReq.new target method with
  | none => pure (w.print (lit "naf_rpc_request_new failed\n"))
  | some req => do
      let (ret, req, out) ← splitandparseargs req (args.map Parens.block)
      let w := w.print out
      if ret = -1 then pure (w.print (lit "argument parsing failed\n")) else w.issue methods req

def cmdCall (arg : CStr) (w : Console F) : Mem (Console F) :=
  match splitcall arg with
  | none => pure (w.print (lit "must specify method in target->method() syntax\n"))
  | some (target, method, args) =>
      if target = [] ∨ method = [] then pure (w.print (lit "no target and/or method specified\n"))
      else
        let text := (args.map Parens.text).getD (lit "(null)")
        (w.print (lit "target=" ++ target ++ lit ", method=" ++ method ++ lit ", args=" ++ text ++ lit "\n")).request
          methods target method args

/-- The end of `cmdexec`, from `cmdfind` on. -/
def runcommand (word rest : CStr) (w : Console F) : Mem (Console F) :=
  if word = lit "call" then w.cmdCall methods (stripwhitefront rest)
  else pure (w.print (word ++ lit ": invalid command\n"))

/-- `cmdexec`, in a line (at depth 0) and in the definition of a macro (at depth 1). A definition that is
null is read through. -/
def cmdexec (line : CStr) (w : Console F) : Mem (Console F) :=
  match macroFind w.macrolist (commandword line).1 with
  | none => w.runcommand methods (commandword line).1 (commandword line).2
  | some ma =>
      match ma.defn with
      | none => Prog.fault .outOfBounds
      | some defn => do
          match ← strdup defn with
          | none => pure w
          | some newcmd => w.runcommand methods (commandword newcmd).1 (commandword newcmd).2

/-- `fullline` -/
def fullline (line : CStr) (w : Console F) : Mem (Console F) :=
  if stripwhite line = [] then pure w else w.cmdexec methods (stripwhite line)

def handle (i : Input F) (w : Console F) : Mem (Console F) :=
  match i with
  | .line text => w.fullline methods (cstring text)
  | .confchange conf => do
      let macrolist ← macroSyncconf conf w.macrolist
      pure { w with macrolist }
  | .rpc call => do
      let registry ← call.make methods w.registry
      pure { w with registry }

def step (i : Input F × Heap) (w : Console F) : Except Fault (Console F) :=
  match w.handle methods i.1 i.2 with
  | .ok (w, _) => .ok w
  | .error e => .error e

/-- After `modinit`: there is the default macro, if it could be allocated. -/
def Start (w : Console F) : Prop :=
  Rpc.Start w.registry ∧ ∃ h h', macroAdddefaults [] h = .ok (w.macrolist, h')

end Console

/-! ## What a line means -/

/-- The command and what follows it, once a macro has been replaced by its definition. -/
def expand (macrolist : List Macro) (line : CStr) : Option (CStr × CStr) :=
  match macroFind macrolist (commandword line).1 with
  | none => some (commandword line)
  | some ma => ma.defn.map commandword

/-- The request that a line stands for, or `none` when it asks for nothing. -/
inductive Means (macrolist : List Macro) (line : CStr) : Option RpcReq → Prop where
  | blank : stripwhite line = [] → Means macrolist line none
  | invalid {word rest : CStr} :
      stripwhite line ≠ [] → expand macrolist (stripwhite line) = some (word, rest) → word ≠ lit "call" →
      Means macrolist line none
  | arrowless {rest : CStr} :
      stripwhite line ≠ [] → expand macrolist (stripwhite line) = some (lit "call", rest) →
      splitcall (stripwhitefront rest) = none → Means macrolist line none
  | nameless {rest target method : CStr} {args : Option Parens} :
      stripwhite line ≠ [] → expand macrolist (stripwhite line) = some (lit "call", rest) →
      splitcall (stripwhitefront rest) = some (target, method, args) → target = [] ∨ method = [] →
      Means macrolist line none
  | call {rest target method : CStr} {args : Option Parens} {l : Option (List RpcArg)} :
      stripwhite line ≠ [] → expand macrolist (stripwhite line) = some (lit "call", rest) →
      splitcall (stripwhitefront rest) = some (target, method, args) → ¬(target = [] ∨ method = []) →
      Argtext (args.map Parens.text) l → Means macrolist line (l.map fun inargs => ⟨target, method, inargs⟩)

/-- The definition of the line's macro is null, or the parser reads behind the text of the arguments. -/
inductive Meaningless (macrolist : List Macro) (line : CStr) : Prop where
  | undefined : stripwhite line ≠ [] → expand macrolist (stripwhite line) = none → Meaningless macrolist line
  | overread {rest target method : CStr} {args : Parens} :
      stripwhite line ≠ [] → expand macrolist (stripwhite line) = some (lit "call", rest) →
      splitcall (stripwhitefront rest) = some (target, method, some args) → ¬(target = [] ∨ method = []) →
      Overread args.text → Meaningless macrolist line

section

variable {macrolist : List Macro} {line rest target method s : CStr} {args : Parens}

theorem commandword_zero (hzero : 0 ∉ line) : 0 ∉ (commandword line).2 := by
  have hsuffix : (commandword line).2 <:+ line :=
    (List.drop_suffix 1 _).trans ((List.dropWhile_suffix _).trans (List.dropWhile_suffix _))
  exact fun hmem => hzero (hsuffix.mem hmem)

theorem expand_zero {word : CStr} (hzero : 0 ∉ line)
    (hdefns : ∀ mac ∈ macrolist, ∀ defn, mac.defn = some defn → 0 ∉ defn)
    (hexpand : expand macrolist line = some (word, rest)) : 0 ∉ rest := by
  unfold expand at hexpand
  cases hfind : macroFind macrolist (commandword line).1 with
  | none =>
      rw [hfind, Option.some.injEq] at hexpand
      have hrest : (commandword line).2 = rest := by rw [hexpand]
      exact hrest ▸ commandword_zero hzero
  | some mac =>
      rw [hfind] at hexpand
      obtain ⟨defn, hdefn, hword⟩ := Option.map_eq_some_iff.1 hexpand
      have hrest : (commandword defn).2 = rest := by rw [hword]
      exact hrest ▸ commandword_zero (hdefns mac (Keyed.entry_some hfind).1 defn hdefn)

theorem cutArrow_suffix (harrow : cutArrow s = some (target, method)) : method <:+ s := by
  induction s generalizing target with
  | nil => cases harrow
  | cons c s ih =>
      rw [cutArrow] at harrow
      split at harrow
      · cases harrow
        exact List.drop_suffix 2 (c :: s)
      · obtain ⟨x, hx, hcut⟩ := Option.map_eq_some_iff.1 harrow
        cases hcut
        exact (ih hx).trans (List.suffix_cons c s)

/-- What stands in the parentheses is a part of the line. -/
theorem splitcall_zero (hzero : 0 ∉ s) (hsplit : splitcall s = some (target, method, some args)) :
    0 ∉ args.text := by
  unfold splitcall at hsplit
  split at hsplit
  · cases hsplit
  rename_i harrow
  have hmethod := (cutArrow_suffix harrow).mem (a := 0)
  split at hsplit
  · cases hsplit
  rename_i hopen
  obtain ⟨rfl, -⟩ := cutAt_some hopen
  split at hsplit
  · cases hsplit
    exact fun hmem => hzero (hmethod (List.mem_append_right _ (List.mem_cons_of_mem _ hmem)))
  · rename_i hclose
    obtain ⟨rfl, -⟩ := cutAt_some hclose
    cases hsplit
    exact fun hmem => hzero (hmethod (List.mem_append_right _ (List.mem_cons_of_mem _ (List.mem_append_left _ hmem))))

/-- What has no meaning does not mean anything. -/
theorem Meaningless.not_means (hmeaningless : Meaningless macrolist line) (r : Option RpcReq) :
    ¬Means macrolist line r := by
  intro hmeans
  cases hmeaningless with
  | undefined hne hundefined =>
      cases hmeans with
      | blank hblank => exact hne hblank
      | invalid _ hexpand => cases hundefined.symm.trans hexpand
      | arrowless _ hexpand => cases hundefined.symm.trans hexpand
      | nameless _ hexpand => cases hundefined.symm.trans hexpand
      | call _ hexpand => cases hundefined.symm.trans hexpand
  | overread hne hcall hargs hnamed hover =>
      cases hmeans with
      | blank hblank => exact hne hblank
      | invalid _ hexpand hword =>
          cases hcall.symm.trans hexpand
          exact hword rfl
      | arrowless _ hexpand hsplit =>
          cases hcall.symm.trans hexpand
          cases hargs.symm.trans hsplit
      | nameless _ hexpand hsplit hempty =>
          cases hcall.symm.trans hexpand
          cases hargs.symm.trans hsplit
          exact hnamed hempty
      | call _ hexpand hsplit _ htext =>
          cases hcall.symm.trans hexpand
          cases hargs.symm.trans hsplit
          exact hover.not_argtext htext

/-- Every other line has a meaning. -/
theorem means_iff (hzero : 0 ∉ line) (hdefns : ∀ mac ∈ macrolist, ∀ defn, mac.defn = some defn → 0 ∉ defn) :
    (∃ r, Means macrolist line r) ↔ ¬Meaningless macrolist line := by
  refine ⟨fun ⟨r, hmeans⟩ hmeaningless => hmeaningless.not_means r hmeans, fun hmeaning => ?_⟩
  by_cases hne : stripwhite line = []
  · exact ⟨none, .blank hne⟩
  cases hexpand : expand macrolist (stripwhite line) with
  | none => exact absurd (.undefined hne hexpand) hmeaning
  | some x =>
      obtain ⟨word, rest⟩ := x
      by_cases hword : word = lit "call"
      swap
      · exact ⟨none, .invalid hne hexpand hword⟩
      subst hword
      cases hsplit : splitcall (stripwhitefront rest) with
      | none => exact ⟨none, .arrowless hne hexpand hsplit⟩
      | some y =>
          obtain ⟨target, method, args⟩ := y
          by_cases hnamed : target = [] ∨ method = []
          · exact ⟨none, .nameless hne hexpand hsplit hnamed⟩
          cases args with
          | none => exact ⟨_, .call hne hexpand hsplit hnamed .missing⟩
          | some args =>
              have hbegins : stripwhite line <+: stripwhitefront line := List.rdropWhile_prefix _ _
              have hstrip : 0 ∉ stripwhite line := fun hmem => hzero ((List.dropWhile_suffix _).mem (hbegins.mem hmem))
              have hrest : 0 ∉ stripwhitefront rest := fun hmem =>
                expand_zero hstrip hdefns hexpand ((List.dropWhile_suffix _).mem hmem)
              obtain ⟨l, htext⟩ : ∃ l, Argtext (some args.text) l :=
                (argtext_iff (splitcall_zero hrest hsplit)).2 fun hover =>
                  hmeaning (.overread hne hexpand hsplit hnamed hover)
              exact ⟨_, .call hne hexpand hsplit hnamed htext⟩

end

section

variable {F : Type} (methods : F → Nat → RpcReq → Mem Reply)

/-- What the console does with a meaning: nothing to the registry, or the request is issued, once, and its
answer is the last that is printed. -/
inductive Answers (w : Console F) (h : Heap) : Option RpcReq → Console F → Prop where
  | idle {r : Option RpcReq} {w' : Console F} :
      (r = none ∨ true ∈ h.refuse) → w'.registry = w.registry → w'.macrolist = w.macrolist → Answers w h r w'
  | issued {req : RpcReq} {w' : Console F} {o : Rpc.Obs F} {h₁ : Heap} :
      Serves methods w.registry h₁ (methodsOf w.registry) (.issue req) [o] (methodsOf w'.registry) →
      w'.registry.log = w.registry.log ++ [o] → showobs o <:+ w'.out → w'.macrolist = w.macrolist →
      Answers w h (some req) w'

/-- A line is answered by what it means, unless the method that the request goes to does not return. -/
inductive Answered (w : Console F) (h : Heap) (r : Option RpcReq) : Except Fault (Console F × Heap) → Prop where
  | returned {w' : Console F} {h' : Heap} : Answers methods w h r w' → Answered w h r (.ok (w', h'))
  | stuck {req : RpcReq} {func : F} {mod : Nat} {h₁ : Heap} {e : Fault} :
      r = some req → resolve w.registry req.target = some mod →
      methodsOf w.registry mod (Rpc.lower req.method) = some func → methods func mod req h₁ = .error e →
      Answered w h r (.error e)

/-- The request is issued, and its answer is the last that is printed, unless the method that it goes to
does not return. -/
inductive Issues (w : Console F) (req : RpcReq) : Except Fault (Console F × Heap) → Prop where
  | returned {w' : Console F} {o : Rpc.Obs F} {h₁ h' : Heap} :
      Serves methods w.registry h₁ (methodsOf w.registry) (.issue req) [o] (methodsOf w'.registry) →
      w'.registry.log = w.registry.log ++ [o] → showobs o <:+ w'.out → w'.macrolist = w.macrolist →
      Issues w req (.ok (w', h'))
  | stuck {func : F} {mod : Nat} {h₁ : Heap} {e : Fault} :
      resolve w.registry req.target = some mod →
      methodsOf w.registry mod (Rpc.lower req.method) = some func → methods func mod req h₁ = .error e →
      Issues w req (.error e)

end

/-! ## What a line does -/

section

variable {F : Type} {methods : F → Nat → RpcReq → Mem Reply} {w : Console F} {h h₁ : Heap} {req : RpcReq}
  {r : Option RpcReq}

/-- Issuing a request at the console is a call of the registry. -/
theorem issue_make {o : Rpc.Obs F} {modlist : List (Rpc.Target F)}
    (hissue : requestIssue methods w.registry.ourmodule w.registry.modlist req h = .ok ((o, modlist), h₁)) :
    (Rpc.Call.issue req).make methods w.registry h = .ok (w.registry.see o modlist, h₁) := by
  simp only [Rpc.Call.make]
  rw [bind_of_ok hissue]
  rfl

theorem issue_answers (hw : w.registry.Wf) (req : RpcReq) (h h₁ : Heap) :
    Answered methods w h (some req) (w.issue methods req h₁) := by
  let w₁ := w.print (lit "input arguments:\n" ++ dumpargs 1 req.inargs)
  unfold Console.issue
  obtain ⟨o, modlist, h₂, hissue⟩ | ⟨func, mod, h₂, e, htarget, hmethod, hstuck, hissue⟩ :=
    Rpc.requestIssue_returns methods hw req h₁
  · have hrun : requestIssue methods w₁.registry.ourmodule w₁.registry.modlist req h₁ = .ok ((o, modlist), h₂) :=
      hissue
    rw [bind_of_ok hrun]
    obtain ⟨-, obs, hlog, hserves⟩ := Rpc.issue_keeps hw (issue_make hissue)
    obtain rfl : [o] = obs := List.append_cancel_left hlog
    exact .returned (.issued hserves hlog (List.suffix_append _ _) rfl)
  · have hrun : requestIssue methods w₁.registry.ourmodule w₁.registry.modlist req h₁ = .error e := hissue
    rw [bind_of_error hrun]
    exact .stuck rfl htarget hmethod hstuck

/-- What is printed before makes no difference. -/
theorem Answered.of_print {text : CStr} {x : Except Fault (Console F × Heap)}
    (hanswered : Answered methods (w.print text) h r x) : Answered methods w h r x := by
  cases hanswered with
  | returned hanswers =>
      cases hanswers with
      | idle hr hregistry hmacros => exact .returned (.idle hr hregistry hmacros)
      | issued hserves hlog hout hmacros => exact .returned (.issued hserves hlog hout hmacros)
  | stuck hr htarget hmethod hstuck => exact .stuck hr htarget hmethod hstuck

/-- With memory enough a request that is meant is issued. -/
theorem Answered.issues {x : Except Fault (Console F × Heap)} (hanswered : Answered methods w h (some req) x)
    (hgranted : true ∉ h.refuse) : Issues methods w req x := by
  cases hanswered with
  | returned hanswers =>
      cases hanswers with
      | idle hidle => exact absurd (hidle.resolve_left (Option.some_ne_none _)) hgranted
      | issued hserves hlog hout hmacros => exact .returned hserves hlog hout hmacros
  | stuck hr htarget hmethod hstuck =>
      cases hr
      exact .stuck htarget hmethod hstuck

/-- What stands in the parentheses is read, with the rest of the line behind it. -/
theorem parens_spells {args : Option Parens} {l : Option (List RpcArg)} (htext : Argtext (args.map Parens.text) l)
    (req : RpcReq) (h : Heap) :
    ∃ x h', splitandparseargs req (args.map Parens.block) h = .ok (x, h') ∧ Parses req h l x := by
  cases args with
  | none =>
      cases htext with
      | missing => exact ⟨_, _, rfl, .nothing req h⟩
  | some p =>
      obtain ⟨x, h', hrun, hparses⟩ := splitandparseargs_spells htext req h
      obtain ⟨text, behind⟩ := p
      cases behind with
      | none =>
          refine ⟨x, h', ?_, hparses⟩
          rw [Option.map_some, Parens.block, Option.map_none, Option.getD_none, List.append_nil]
          exact hrun
      | some behind =>
          obtain ⟨x', hrun', rfl⟩ := splitandparseargs_front (Block.Front.ofString text behind) h x h' hrun
          exact ⟨x, h', hrun', hparses⟩

theorem request_answers (hw : w.registry.Wf) {args : Option Parens} {l : Option (List RpcArg)}
    (htext : Argtext (args.map Parens.text) l) (target method : CStr) (hrefuse : true ∈ h₁.refuse → true ∈ h.refuse) :
    Answered methods w h (l.map fun inargs => ⟨target, method, inargs⟩) (w.request methods target method args h₁) := by
  unfold Console.request
  by_cases hrefused : true ∈ h₁.refuse.take 3
  · obtain ⟨h₂, hnew⟩ := (RpcReq.asks_new target method h₁).2 hrefused
    rw [bind_of_ok hnew]
    exact .returned (.idle (.inr (hrefuse (List.mem_of_mem_take hrefused))) rfl rfl)
  · rw [bind_of_ok ((RpcReq.asks_new target method h₁).1 hrefused)]
    obtain ⟨x, h₂, hparse, hparses⟩ := parens_spells htext ⟨target, method, []⟩ (h₁.skip 3)
    dsimp only
    rw [bind_of_ok hparse]
    cases hparses with
    | refused hnone =>
        refine .returned (.idle ?_ rfl rfl)
        obtain rfl | hmem := hnone
        · exact .inl rfl
        · exact .inr (hrefuse (List.mem_of_mem_drop hmem))
    | @added inargs =>
        have hprint : (w.print []).registry.Wf := hw
        exact (issue_answers hprint ⟨target, method, inargs⟩ h h₂).of_print

theorem runcommand_answers (hw : w.registry.Wf) {rest target method : CStr} {args : Option Parens}
    {l : Option (List RpcArg)} (hsplit : splitcall (stripwhitefront rest) = some (target, method, args))
    (hnamed : ¬(target = [] ∨ method = [])) (htext : Argtext (args.map Parens.text) l)
    (hrefuse : true ∈ h₁.refuse → true ∈ h.refuse) :
    Answered methods w h (l.map fun inargs => ⟨target, method, inargs⟩)
      (w.runcommand methods (lit "call") rest h₁) := by
  unfold Console.runcommand Console.cmdCall
  rw [if_pos rfl, hsplit]
  dsimp only
  rw [if_neg hnamed]
  refine .of_print (request_answers ?_ htext target method hrefuse)
  exact hw

/-- A macro is replaced by a copy of its definition. -/
theorem cmdexec_answers {line word rest : CStr} (hexpand : expand w.macrolist line = some (word, rest))
    (hrun : ∀ h₁, (true ∈ h₁.refuse → true ∈ h.refuse) →
      Answered methods w h r (w.runcommand methods word rest h₁)) :
    Answered methods w h r (w.cmdexec methods line h) := by
  unfold expand at hexpand
  unfold Console.cmdexec
  cases hfind : macroFind w.macrolist (commandword line).1 with
  | none =>
      rw [hfind] at hexpand
      cases hexpand
      exact hrun h id
  | some ma =>
      rw [hfind] at hexpand
      obtain ⟨defn, hdefn, hword⟩ := Option.map_eq_some_iff.1 hexpand
      dsimp only
      rw [hdefn]
      dsimp only
      cases hh : h.unwilling with
      | true =>
          rw [bind_of_ok (Naf.strdup_refused hh)]
          exact .returned (.idle (.inr (List.mem_of_mem_take (Heap.unwilling_iff.1 hh))) rfl rfl)
      | false =>
          rw [bind_of_ok (Naf.strdup_granted hh)]
          dsimp only
          rw [hword]
          exact hrun h.next List.mem_of_mem_tail

/-- What a line means is what is done. -/
theorem fullline_answers (hw : w.registry.Wf) {line : CStr} (hmeans : Means w.macrolist line r) (h : Heap) :
    Answered methods w h r (w.fullline methods line h) := by
  unfold Console.fullline
  cases hmeans with
  | blank hblank =>
      rw [if_pos hblank]
      exact .returned (.idle (.inl rfl) rfl rfl)
  | invalid hne hexpand hword =>
      rw [if_neg hne]
      refine cmdexec_answers hexpand fun h₁ _ => ?_
      unfold Console.runcommand
      rw [if_neg hword]
      exact .returned (.idle (.inl rfl) rfl rfl)
  | arrowless hne hexpand hsplit =>
      rw [if_neg hne]
      refine cmdexec_answers hexpand fun h₁ _ => ?_
      unfold Console.runcommand Console.cmdCall
      rw [if_pos rfl, hsplit]
      exact .returned (.idle (.inl rfl) rfl rfl)
  | nameless hne hexpand hsplit hempty =>
      rw [if_neg hne]
      refine cmdexec_answers hexpand fun h₁ _ => ?_
      unfold Console.runcommand Console.cmdCall
      rw [if_pos rfl, hsplit]
      dsimp only
      rw [if_pos hempty]
      exact .returned (.idle (.inl rfl) rfl rfl)
  | call hne hexpand hsplit hnamed htext =>
      rw [if_neg hne]
      exact cmdexec_answers hexpand fun h₁ hrefuse => runcommand_answers hw hsplit hnamed htext hrefuse

end

/-! ## Runs of the console -/

section

variable {F : Type} {methods : F → Nat → RpcReq → Mem Reply} {w w' : Console F}

/-- What a line leaves: the macros, and the registry up to a request. -/
def Leaves (methods : F → Nat → RpcReq → Mem Reply) (w w' : Console F) : Prop :=
  w'.macrolist = w.macrolist ∧ (w'.registry = w.registry ∨
    ∃ req h₁ h₂, (Rpc.Call.issue req).make methods w.registry h₁ = .ok (w'.registry, h₂))

theorem Leaves.same (hregistry : w'.registry = w.registry) (hmacros : w'.macrolist = w.macrolist) :
    Leaves methods w w' := ⟨hmacros, .inl hregistry⟩

theorem issue_leaves (req : RpcReq) : Prog.Gives (w.issue methods req) (Leaves methods w) := by
  intro h w' h' hr
  obtain ⟨⟨o, modlist⟩, h₁, hissue, hend⟩ := Prog.bind_ok.1 hr
  cases Prog.pure_ok.1 hend
  exact ⟨rfl, .inr ⟨req, h, _, issue_make hissue⟩⟩

theorem request_leaves (target method : CStr) (args : Option Parens) :
    Prog.Gives (w.request methods target method args) (Leaves methods w) := by
  refine .bind .trivial fun new _ => ?_
  cases new with
  | none => exact .pure (.same rfl rfl)
  | some req => exact .bind .trivial fun _ _ => .ite (fun _ => .pure (.same rfl rfl)) fun _ => issue_leaves _

theorem runcommand_leaves (word rest : CStr) : Prog.Gives (w.runcommand methods word rest) (Leaves methods w) := by
  refine .ite (fun _ => ?_) fun _ => .pure (.same rfl rfl)
  unfold Console.cmdCall
  split
  · exact .pure (.same rfl rfl)
  · exact .ite (fun _ => .pure (.same rfl rfl)) fun _ => request_leaves _ _ _

theorem fullline_leaves (line : CStr) : Prog.Gives (w.fullline methods line) (Leaves methods w) := by
  refine .ite (fun _ => .pure (.same rfl rfl)) fun _ => ?_
  unfold Console.cmdexec
  split
  · exact runcommand_leaves _ _
  · split
    · exact .fault
    · refine .bind .trivial fun newcmd _ => ?_
      cases newcmd with
      | none => exact .pure (.same rfl rfl)
      | some newcmd => exact runcommand_leaves _ _

/-- The registry is well-formed, and no word is two macros. -/
structure Console.Wf (w : Console F) : Prop where
  registry : w.registry.Wf
  macros : Keyed.Unique Macro.cmd w.macrolist

/-- The last change of the configuration, or none at the start. -/
inductive Latest : List (Console F × (Input F × Heap)) → Modparms → Heap → Prop where
  | start (h : Heap) : Latest [] (fun _ => none) h
  | confchange {hist : List (Console F × (Input F × Heap))} {w : Console F} {conf : Modparms} {h : Heap} :
      Latest (hist ++ [(w, (.confchange conf, h))]) conf h
  | other {hist : List (Console F × (Input F × Heap))} {w : Console F} {i : Input F × Heap} {conf : Modparms}
      {h : Heap} :
      Latest hist conf h → (∀ conf', i.1 ≠ .confchange conf') → Latest (hist ++ [(w, i)]) conf h

theorem start_synced (hw : w.Start) : ∃ h, Synced (fun _ => none) h w.macrolist := by
  obtain ⟨-, h, h', hadd⟩ := hw
  obtain ⟨l, h₁, hadd', hsynced⟩ := @defaults_synced (fun _ => none) rfl h
  rw [hadd] at hadd'
  cases hadd'
  exact ⟨h, hsynced⟩

theorem confchange_returns (methods : F → Nat → RpcReq → Mem Reply) (hw : w.Wf) (conf : Modparms) (h : Heap) :
    ∃ macrolist h', w.handle methods (.confchange conf) h = .ok ({ w with macrolist }, h') ∧
      Synced conf h macrolist := by
  obtain ⟨l, h', hsync, hsynced⟩ := macroSyncconf_synced conf hw.macros h
  exact ⟨l, h', bind_of_ok hsync, hsynced⟩

/-- What one step keeps: the console stays well-formed, and its macros follow the configuration. -/
theorem step_synced {hist : List (Console F × (Input F × Heap))} {i : Input F × Heap} (hw : w.Wf)
    (hsynced : ∃ conf h, Latest hist conf h ∧ Synced conf h w.macrolist)
    (hstep : Console.step methods i w = .ok w') :
    w'.Wf ∧ ∃ conf h, Latest (hist ++ [(w, i)]) conf h ∧ Synced conf h w'.macrolist := by
  obtain ⟨input, h⟩ := i
  simp only [Console.step] at hstep
  cases hhandle : w.handle methods input h with
  | error e =>
      rw [hhandle] at hstep
      cases hstep
  | ok r =>
      obtain ⟨w₁, h₁⟩ := r
      rw [hhandle] at hstep
      cases hstep
      obtain ⟨conf, h₀, hlatest, hsynced⟩ := hsynced
      cases input with
      | line text =>
          obtain ⟨hmacros, hregistry⟩ := fullline_leaves (cstring text) h w' h₁ hhandle
          refine ⟨⟨?_, hmacros ▸ hw.macros⟩, conf, h₀, .other hlatest fun _ heq => (nomatch heq), hmacros ▸ hsynced⟩
          obtain hsame | ⟨req, h₂, h₃, hmake⟩ := hregistry
          · exact hsame ▸ hw.registry
          · exact (Rpc.issue_keeps hw.registry hmake).1
      | confchange conf' =>
          obtain ⟨l, h₂, hrun, hsynced'⟩ := confchange_returns methods hw conf' h
          rw [hhandle] at hrun
          cases hrun
          exact ⟨⟨hw.registry, hsynced'.unique⟩, conf', h, .confchange, hsynced'⟩
      | rpc call =>
          obtain ⟨registry, h₂, hmake, hend⟩ := Prog.bind_ok.1 hhandle
          cases Prog.pure_ok.1 hend
          exact ⟨⟨(Rpc.make_keeps hw.registry hmake).1, hw.macros⟩, conf, h₀,
            .other hlatest fun _ heq => (nomatch heq), hsynced⟩

theorem reached {hist : List (Console F × (Input F × Heap))} (hrun : Run (Console.step methods) Console.Start hist w) :
    w.Wf ∧ ∃ conf h, Latest hist conf h ∧ Synced conf h w.macrolist := by
  induction hrun with
  | start hw =>
      obtain ⟨h, hsynced⟩ := start_synced hw
      exact ⟨⟨hw.1.wf, hsynced.unique⟩, _, h, .start h, hsynced⟩
  | step _ hstep ih => exact step_synced ih.1 ih.2 hstep

end

/-! ## A call in the documented form -/

/-- A call as it is typed, with white space around it and anything behind the parentheses. -/
structure Typed where
  front : CStr
  space : UInt8
  gap : CStr
  target : CStr
  method : CStr
  args : List Given
  behind : CStr
  front_white : ∀ c ∈ front, iswhite c = true
  space_white : iswhite space = true
  gap_white : ∀ c ∈ gap, iswhite c = true
  target_ne : target ≠ []
  target_head : stripwhitefront target = target
  target_arrow : cutArrow target = none
  target_zero : 0 ∉ target
  method_ne : method ≠ []
  method_paren : 40 ∉ method
  method_zero : 0 ∉ method
  args_paren : 41 ∉ Given.texts args
  behind_zero : 0 ∉ behind

namespace Typed

/-- What is behind the white space after the command. -/
def spec (t : Typed) (behind : CStr) : CStr :=
  t.target ++ 45 :: 62 :: (t.method ++ 40 :: (Given.texts t.args ++ 41 :: behind))

def line (t : Typed) : CStr := t.front ++ (lit "call" ++ t.space :: (t.gap ++ t.spec t.behind))

def request (t : Typed) : RpcReq := ⟨t.target, t.method, t.args.map Given.arg⟩

variable (t : Typed)

theorem white_ne {c : UInt8} (hwhite : iswhite c = true) : c ≠ 0 := by
  rintro rfl
  revert hwhite
  decide

theorem line_zero : 0 ∉ t.line := by
  simp only [line, spec, List.mem_append, List.mem_cons, not_or]
  refine ⟨fun hmem => white_ne (t.front_white 0 hmem) rfl, by decide, (white_ne t.space_white).symm,
    fun hmem => white_ne (t.gap_white 0 hmem) rfl, t.target_zero, by decide, by decide, t.method_zero, by decide,
    Given.texts_zero t.args, by decide, t.behind_zero⟩

theorem stripwhitefront_append {s u : CStr} (hs : ∀ c ∈ s, iswhite c = true) :
    stripwhitefront (s ++ u) = stripwhitefront u := List.dropWhile_append_of_pos hs

theorem rdropWhile_append {l u : CStr} {c : UInt8} (hc : ¬iswhite c = true) :
    (l ++ c :: u).rdropWhile iswhite = l ++ c :: u.rdropWhile iswhite := by
  induction u using List.reverseRecOn with
  | nil => rw [List.rdropWhile_concat_neg _ _ _ hc, List.rdropWhile_nil]
  | append_singleton u d ih =>
      have hsnoc : l ++ c :: (u ++ [d]) = (l ++ c :: u) ++ [d] := by simp
      rw [hsnoc]
      by_cases hd : iswhite d = true
      · rw [List.rdropWhile_concat_pos _ _ _ hd, List.rdropWhile_concat_pos _ _ _ hd, ih]
      · rw [List.rdropWhile_concat_neg _ _ _ hd, List.rdropWhile_concat_neg _ _ _ hd, hsnoc]

theorem stripwhitefront_call (u : CStr) : stripwhitefront (lit "call" ++ u) = lit "call" ++ u := rfl

theorem stripwhite_line :
    stripwhite t.line = lit "call" ++ t.space :: (t.gap ++ t.spec (t.behind.rdropWhile iswhite)) := by
  have hsplit : ∀ u : CStr, lit "call" ++ t.space :: (t.gap ++ t.spec u) =
      (lit "call" ++ t.space :: (t.gap ++ (t.target ++ 45 :: 62 :: (t.method ++ 40 :: Given.texts t.args)))) ++
        41 :: u := by
    intro u
    simp [spec]
  rw [stripwhite, line, stripwhitefront_append t.front_white, stripwhitefront_call, hsplit,
    rdropWhile_append (by decide), ← hsplit]

theorem commandword_line (behind : CStr) :
    commandword (lit "call" ++ t.space :: (t.gap ++ t.spec behind)) = (lit "call", t.gap ++ t.spec behind) := by
  have hword : ∀ c ∈ lit "call", (!iswhite c) = true := List.all_eq_true.1 (by decide)
  have hspace : ¬(!iswhite t.space) = true := by rw [t.space_white]; decide
  unfold commandword
  dsimp only
  rw [stripwhitefront_call, List.takeWhile_append_of_pos hword, List.dropWhile_append_of_pos hword,
    List.takeWhile_cons_of_neg (p := fun c => !iswhite c) hspace,
    List.dropWhile_cons_of_neg (p := fun c => !iswhite c) hspace, List.append_nil]
  rfl

/-- The first arrow is the one behind the target. -/
theorem cutArrow_append {target : CStr} (u : CStr) (harrow : cutArrow target = none) :
    cutArrow (target ++ 45 :: 62 :: u) = some (target, u) := by
  induction target with
  | nil => rfl
  | cons c target ih =>
      rw [cutArrow] at harrow
      split at harrow
      · cases harrow
      rename_i hbegins
      have hnot : ¬(lit "->").isPrefixOf (c :: (target ++ 45 :: 62 :: u)) = true := by
        intro hmem
        cases target with
        | nil => simp [lit, List.isPrefixOf] at hmem
        | cons d target => exact hbegins (by simpa [lit, List.isPrefixOf] using hmem)
      rw [List.cons_append, cutArrow, if_neg hnot, ih (Option.map_eq_none_iff.1 harrow)]
      rfl

theorem splitcall_spec (behind : CStr) :
    splitcall (t.spec behind) = some (t.target, t.method, some ⟨Given.texts t.args, some behind⟩) := by
  rw [splitcall, spec, cutArrow_append _ t.target_arrow]
  dsimp only
  rw [cutAt_append _ t.method_paren]
  dsimp only
  rw [cutAt_append _ t.args_paren]

theorem spec_head (behind : CStr) : stripwhitefront (t.spec behind) = t.spec behind := by
  obtain ⟨c, target, htarget⟩ := List.exists_cons_of_ne_nil t.target_ne
  have hc : ¬iswhite c = true := by
    intro hwhite
    have hhead := t.target_head
    rw [htarget, stripwhitefront, List.dropWhile_cons_of_pos hwhite] at hhead
    have hlen := (List.dropWhile_suffix (l := target) iswhite).length_le
    rw [hhead, List.length_cons] at hlen
    omega
  rw [spec, htarget, List.cons_append, stripwhitefront, List.dropWhile_cons_of_neg hc]

/-- A typed call means its request. -/
theorem means {macrolist : List Macro} (hnone : macroFind macrolist (lit "call") = none) :
    Means macrolist t.line (some t.request) := by
  have hstrip := t.stripwhite_line
  have hword := t.commandword_line (t.behind.rdropWhile iswhite)
  have hexpand : expand macrolist (stripwhite t.line) =
      some (lit "call", t.gap ++ t.spec (t.behind.rdropWhile iswhite)) := by
    rw [expand, hstrip, hword]
    dsimp only
    rw [hnone]
  have hsplit : splitcall (stripwhitefront (t.gap ++ t.spec (t.behind.rdropWhile iswhite))) =
      some (t.target, t.method, some ⟨Given.texts t.args, some (t.behind.rdropWhile iswhite)⟩) := by
    rw [stripwhitefront_append t.gap_white, t.spec_head, t.splitcall_spec]
  have hne : stripwhite t.line ≠ [] := by
    rw [hstrip]
    exact List.append_ne_nil_of_left_ne_nil (by decide) _
  have hnamed : ¬(t.target = [] ∨ t.method = []) := not_or.2 ⟨t.target_ne, t.method_ne⟩
  exact .call hne hexpand hsplit hnamed (Given.argtext_texts t.args)

end Typed

/-! ## The console in every run -/

section

variable {F : Type} {methods : F → Nat → RpcReq → Mem Reply} {w w' : Console F} {h h' : Heap}
  {hist : List (Console F × (Input F × Heap))}

/-- A macro `who`, and a listed name that has no expansion. -/
def whoconf : Modparms := fun name =>
  if name = lit "usemacros" then some (lit "help,who")
  else if name = lit "macro[who][expansion]" then some (lit "call gnr->listnodes") else none

def defaulthelp : Macro := ⟨lit "help", some (lit "call rpc->help")⟩

theorem started : Console.Start ({ macrolist := [defaulthelp] } : Console Nat) :=
  ⟨⟨rfl, rfl⟩, Heap.zeroed, Heap.zeroed, rfl⟩

/-- In every run a line is answered by what it means, and it means something unless its macro has no
definition or its arguments send the parser past their text. -/
theorem lines_answered (hrun : Run (Console.step methods) Console.Start hist w) (line : CStr) (h : Heap) :
    (∀ r, Means w.macrolist (cstring line) r → Answered methods w h r (w.handle methods (.line line) h)) ∧
      ((∃ r, Means w.macrolist (cstring line) r) ↔ ¬Meaningless w.macrolist (cstring line)) := by
  obtain ⟨hw, conf, h₀, -, hsynced⟩ := reached hrun
  exact ⟨fun r hmeans => fullline_answers hw.registry hmeans h,
    means_iff (cstring_zero line) fun mac hmac defn hdefn => (hsynced.current mac hmac).defn_zero hdefn⟩

/-- A macro `boot` that loads a module. -/
def bootconf : Modparms := fun name =>
  if name = lit "usemacros" then some (lit "boot")
  else if name = lit "macro[boot][expansion]" then some (lit "call core->load(x[bool]=\"on\") now") else none

/-- A module `core` with a method `load`. -/
def loading : List (Input Nat × Heap) :=
  [.rpc (.setours true), .rpc (.add true), .rpc (.setname 0 (lit "core")), .rpc (.setloaded 0 true),
    .rpc (.register 0 (lit "load") 7 none)].map fun i => (i, Heap.zeroed)

theorem lines_answered_boot :
    ∃ hist w, Run (Console.step Rpc.succeeding) Console.Start hist w ∧ hist.length = 6 ∧
      Answered Rpc.succeeding w Heap.zeroed (some ⟨lit "core", lit "load", [.bool (lit "x") true]⟩)
        (w.handle Rpc.succeeding (.line (lit " boot ")) Heap.zeroed) ∧
      ((∃ r, Means w.macrolist (cstring (lit " boot ")) r) ↔ ¬Meaningless w.macrolist (cstring (lit " boot "))) := by
  let boot : Macro := ⟨lit "boot", some (lit "call core->load(x[bool]=\"on\") now")⟩
  have hreach : (replayInputs (Console.step Rpc.succeeding) (loading ++ [(.confchange bootconf, Heap.zeroed)])
      { macrolist := [defaulthelp] }).toOption.any (fun r => r.2.macrolist = [boot]) = true := by
    decide +kernel
  obtain ⟨hist, w, hrun, hinputs, hend⟩ := Run.exists_of_replay started hreach
  have hlen := congrArg List.length hinputs
  rw [List.length_map] at hlen
  have hmacros : w.macrolist = [boot] := of_decide_eq_true hend
  have hexpand : expand [boot] (stripwhite (cstring (lit " boot "))) =
      some (lit "call", lit "core->load(x[bool]=\"on\") now") := by
    decide
  have hsplit : splitcall (stripwhitefront (lit "core->load(x[bool]=\"on\") now")) =
      some (lit "core", lit "load", some ⟨Given.texts [givenOn], some (lit " now")⟩) := rfl
  have hmeans : Means w.macrolist (cstring (lit " boot ")) (some ⟨lit "core", lit "load", [.bool (lit "x") true]⟩) :=
    hmacros ▸ .call (by decide) hexpand hsplit (by decide) (Given.argtext_texts [givenOn])
  have hanswered := lines_answered hrun (lit " boot ") Heap.zeroed
  exact ⟨hist, w, hrun, hlen, hanswered.1 _ hmeans, hanswered.2⟩

/-- `call core->load(x[bool]="on",who[string]="bob,alice")` -/
def typedload : Typed where
  front := []
  space := 32
  gap := []
  target := lit "core"
  method := lit "load"
  args := [givenOn, givenWho]
  behind := []
  front_white := fun _ hmem => (nomatch hmem)
  space_white := by decide
  gap_white := fun _ hmem => (nomatch hmem)
  target_ne := by decide
  target_head := by decide
  target_arrow := by decide
  target_zero := by decide
  method_ne := by decide
  method_paren := by decide
  method_zero := by decide
  args_paren := by decide
  behind_zero := by decide

/-- A call in the documented form is answered by its request, in every run, and with memory enough the request
is issued. -/
theorem calls_typed (hrun : Run (Console.step methods) Console.Start hist w) (t : Typed)
    (hnone : macroFind w.macrolist (lit "call") = none) (h : Heap) :
    Answered methods w h (some t.request) (w.handle methods (.line t.line) h) ∧
      (true ∉ h.refuse → Issues methods w t.request (w.handle methods (.line t.line) h)) := by
  have hmeans : Means w.macrolist (cstring t.line) (some t.request) := by
    rw [cstring_self t.line_zero]
    exact t.means hnone
  have hanswered : Answered methods w h (some t.request) (w.handle methods (.line t.line) h) :=
    fullline_answers (reached hrun).1.registry hmeans h
  exact ⟨hanswered, hanswered.issues⟩

theorem calls_typed_load :
    ∃ hist w w' h', Run (Console.step Rpc.succeeding) Console.Start hist w ∧ hist.length = 5 ∧
      w.handle Rpc.succeeding (.line typedload.line) Heap.zeroed = .ok (w', h') ∧
      w'.registry.log.map Rpc.Obs.callee = [none, some (0, 7)] ∧
      Answered Rpc.succeeding w Heap.zeroed (some typedload.request) (.ok (w', h')) ∧
      Issues Rpc.succeeding w typedload.request (.ok (w', h')) := by
  have hreach : (replayInputs (Console.step Rpc.succeeding) loading { macrolist := [defaulthelp] }).toOption.any
      (fun r => r.2.macrolist = [defaulthelp] ∧
        (r.2.handle Rpc.succeeding (.line typedload.line) Heap.zeroed).toOption.any
          (fun x => x.1.registry.log.map Rpc.Obs.callee = [none, some (0, 7)])) = true := by
    decide +kernel
  obtain ⟨hist, w, hrun, hinputs, hend⟩ := Run.exists_of_replay started hreach
  have hlen := congrArg List.length hinputs
  rw [List.length_map] at hlen
  obtain ⟨hmacros, hcalled⟩ := of_decide_eq_true hend
  have hnone : macroFind w.macrolist (lit "call") = none := by
    rw [hmacros]
    rfl
  obtain ⟨hanswered, hissues⟩ := calls_typed hrun typedload hnone Heap.zeroed
  cases hr : w.handle Rpc.succeeding (.line typedload.line) Heap.zeroed with
  | error e =>
      rw [hr] at hcalled
      cases hcalled
  | ok x =>
      obtain ⟨w', h'⟩ := x
      rw [hr] at hcalled hanswered hissues
      exact ⟨hist, w, w', h', hrun, hlen, hr, of_decide_eq_true hcalled, hanswered, hissues (by decide)⟩

end

end Timps.Nafconsole
