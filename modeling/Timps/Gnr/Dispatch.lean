-- SUMMARY: Routing calls the registered handlers in order, and the output function of the module that took the message.
import Timps.Gnr.Msghandlers

/-!
# Dispatch

`gnr_msg_route` once more, this time with a log of what it calls. The functions that
the modules have registered may do to the message, to the handler info and to the
world what they like. The log is then held against the history of registrations.
-/

namespace Timps.Gnr.Msghandler

open Naf (Heap Nafmodule lit)

/-- What the functions called for a message get to see and to change. -/
structure Turn (δ : Type) where
  gm : Gnrmsg δ
  gmhi : HandlerInfo
  world : World

/-- What stands behind the function pointers: a `gnrmsg_msghandlerfunc_t` for each
address, and the `gnrmsg_outputfunc_t` of a module, if it has registered one. -/
structure Functions (F δ : Type) where
  handlerfunc : F → Nafmodule → Stage → Turn δ → Int × Turn δ
  outputfunc : Nafmodule → Option (Nafmodule → Turn δ → Int × Turn δ)

/-- A call that routing makes: of a handler, with what it answered, or of an output function. -/
inductive Called (F : Type) where
  | handler (stage : Stage) (mh : Mhlist F) (answer : Int)
  | output (mod : Nafmodule)
  deriving DecidableEq

section

variable {F δ : Type} (fs : Functions F δ)

/-- The pre- and the post-routing stage. -/
def callAll (stage : Stage) : List (Mhlist F) → Turn δ → List (Called F) × Turn δ
  | [], t => ([], t)
  | mh :: l, t =>
      let (r, t) := fs.handlerfunc mh.handlerfunc mh.module stage t
      let (log, t) := callAll stage l t
      (.handler stage mh r :: log, t)

/-- The routing stage. -/
def callRouting : List (Mhlist F) → Turn δ → List (Called F) × Turn δ
  | [], t => ([], t)
  | mh :: l, t =>
      let (r, t) := fs.handlerfunc mh.handlerfunc mh.module .routing t
      if r ≠ 0 then
        ([.handler .routing mh r], { t with gmhi := { t.gmhi with targetmod := some mh.module } })
      else
        let (log, t) := callRouting l t
        (.handler .routing mh r :: log, t)

/-- The output function of the target module, if there is a target and it has one. -/
def callOutput (t : Turn δ) : List (Called F) × Turn δ :=
  match t.gmhi.targetmod with
  | none => ([], t)
  | some targetmod =>
      match fs.outputfunc targetmod with
      | none => ([], t)
      | some outf => ([.output targetmod], (outf targetmod t).2)

/-- The answer of `gnr_msg_route`, its calls, and the message and the world after them. -/
def route (chains : Chains F) (srcmod : Nafmodule) (gm : Gnrmsg δ) (w : World) :
    Int × List (Called F) × Gnrmsg δ × World :=
  match gm.srcname, gm.srcnameservice, gm.destname, gm.destnameservice with
  | some srcname, some srcnameservice, some destname, some destnameservice =>
      let gmhi : HandlerInfo :=
        { srcmod, targetmod := none
          srcnode := w.gnr.findbyname srcname (some srcnameservice)
          destnode := w.gnr.findbyname destname (some destnameservice) }
      let (pre, t) := callAll fs .prerouting (chains .prerouting) ⟨gm, gmhi, w⟩
      let (rt, t) := callRouting fs (chains .routing) t
      let (post, t) := callAll fs .postrouting (chains .postrouting) t
      let (out, t) := callOutput fs t
      (0, pre ++ rt ++ post ++ out, t.gm, t.world)
  | _, _, _, _ => (-1, [], gm, w)

/-! ## The same message, the same route -/

/-- A function of the chains as a handler of routing. -/
def answering (f : Turn δ → Int × Turn δ) : Handler δ := fun gm gmhi w =>
  let r := f ⟨gm, gmhi, w⟩
  .ok ((r.1, r.2.gm, r.2.gmhi), r.2.world)

/-- What the chains come to for routing. -/
def Chains.handlers (chains : Chains F) : Handlers δ :=
  let stage (st : Stage) := (chains st).map fun mh =>
    (mh.module, answering (fs.handlerfunc mh.handlerfunc mh.module st))
  { prerouting := stage .prerouting
    routing := stage .routing
    postrouting := stage .postrouting
    outputfunc := fun mod => (fs.outputfunc mod).map fun outf => answering (outf mod) }

theorem runAll_handlers (stage : Stage) (l : List (Mhlist F)) (t : Turn δ) :
    runAll (l.map fun mh =>
      (mh.module, answering (fs.handlerfunc mh.handlerfunc mh.module stage))) t.gm t.gmhi t.world =
      .ok (((callAll fs stage l t).2.gm, (callAll fs stage l t).2.gmhi),
        (callAll fs stage l t).2.world) := by
  induction l generalizing t with
  | nil => rfl
  | cons mh l ih => exact ih (fs.handlerfunc mh.handlerfunc mh.module stage t).2

theorem runRouting_handlers (l : List (Mhlist F)) (t : Turn δ) :
    runRouting (l.map fun mh =>
      (mh.module, answering (fs.handlerfunc mh.handlerfunc mh.module .routing)))
        t.gm t.gmhi t.world =
      .ok (((callRouting fs l t).2.gm, (callRouting fs l t).2.gmhi),
        (callRouting fs l t).2.world) := by
  induction l generalizing t with
  | nil => rfl
  | cons mh l ih =>
      simp only [List.map_cons, runRouting, callRouting]
      rw [Prog.bind_of_ok (show answering (fs.handlerfunc mh.handlerfunc mh.module .routing)
        t.gm t.gmhi t.world = _ from rfl)]
      dsimp only
      by_cases hr : (fs.handlerfunc mh.handlerfunc mh.module .routing t).1 ≠ 0
      · rw [if_pos hr, if_pos hr]
        rfl
      · rw [if_neg hr, if_neg hr]
        exact ih (fs.handlerfunc mh.handlerfunc mh.module .routing t).2

theorem outputfunc_handlers (chains : Chains F) (t : Turn δ) :
    (match t.gmhi.targetmod.bind (chains.handlers fs).outputfunc with
      | some outputfunc => do
          let (_, gm, _) ← outputfunc t.gm t.gmhi
          pure (0, gm)
      | none => pure (0, t.gm) : Sys (Int × Gnrmsg δ)) t.world =
      .ok ((0, (callOutput fs t).2.gm), (callOutput fs t).2.world) := by
  unfold callOutput
  cases t.gmhi.targetmod with
  | none => rfl
  | some mod =>
      simp only [Option.bind_some, Chains.handlers]
      cases fs.outputfunc mod with
      | none => rfl
      | some outf => rfl

/-- The log leaves out nothing of what routing does. -/
theorem msgRoute_handlers (chains : Chains F) (srcmod : Nafmodule) (gm : Gnrmsg δ) (w : World) :
    msgRoute (chains.handlers fs) srcmod gm w =
      .ok (((route fs chains srcmod gm w).1, (route fs chains srcmod gm w).2.2.1),
        (route fs chains srcmod gm w).2.2.2) := by
  unfold route
  split
  · rename_i srcname srcnameservice destname destnameservice h₁ h₂ h₃ h₄
    simp only [msgRoute, h₁, h₂, h₃, h₄]
    refine (Prog.bind_of_ok (show findnode _ _ w = .ok (_, w) from rfl)).trans ?_
    refine (Prog.bind_of_ok (show findnode _ _ w = .ok (_, w) from rfl)).trans ?_
    refine (Prog.bind_of_ok (runAll_handlers fs .prerouting _ ⟨gm, _, w⟩)).trans ?_
    refine (Prog.bind_of_ok (runRouting_handlers fs _ _)).trans ?_
    refine (Prog.bind_of_ok (runAll_handlers fs .postrouting _ _)).trans ?_
    exact outputfunc_handlers fs chains _
  · rename_i hnames
    have hunnamed : msgRoute (chains.handlers fs) srcmod gm = pure (-1, gm) := by
      unfold msgRoute
      split
      · rename_i h₁ h₂ h₃ h₄
        exact (hnames _ _ _ _ h₁ h₂ h₃ h₄).elim
      · rfl
    rw [hunnamed]
    rfl

/-! ## The calls -/

/-- Every handler of the list once, in the order of the list. -/
def Everyone (stage : Stage) (l : List (Mhlist F)) (log : List (Called F)) : Prop :=
  ∃ answers : List Int, answers.length = l.length ∧
    log = List.zipWith (Called.handler stage) l answers

/-- The handlers up to and including the first that answers nonzero, the taker. -/
inductive Upto : List (Mhlist F) → List (Called F) → Option (Mhlist F) → Prop
  | untaken : Upto [] [] none
  | taken {mh : Mhlist F} {l : List (Mhlist F)} {r : Int} :
      r ≠ 0 → Upto (mh :: l) [.handler .routing mh r] (some mh)
  | passed {mh : Mhlist F} {l : List (Mhlist F)} {log : List (Called F)}
      {taker : Option (Mhlist F)} :
      Upto l log taker → Upto (mh :: l) (.handler .routing mh 0 :: log) taker

/-- The one call of the output function of a module. -/
def outputs : Option Nafmodule → List (Called F)
  | none => []
  | some mod => if (fs.outputfunc mod).isSome then [.output mod] else []

/-- What the first handler gets to see of a message with its names. -/
def Turn.start (srcmod : Nafmodule) (gm : Gnrmsg δ) (w : World) : Turn δ :=
  { gm
    gmhi :=
      { srcmod, targetmod := none
        srcnode := w.gnr.findbyname (gm.srcname.getD []) gm.srcnameservice
        destnode := w.gnr.findbyname (gm.destname.getD []) gm.destnameservice }
    world := w }

/-- What the three stages leave. -/
def staged (chains : Chains F) (t : Turn δ) : Turn δ :=
  let t := (callAll fs .prerouting (chains .prerouting) t).2
  let t := (callRouting fs (chains .routing) t).2
  (callAll fs .postrouting (chains .postrouting) t).2

/-- The calls for a message that `taker` accepts and the module `target` puts out. -/
def Dispatches (chains : Chains F) (log : List (Called F)) (taker : Option (Mhlist F))
    (target : Option Nafmodule) : Prop :=
  ∃ pre rt post, log = pre ++ rt ++ post ++ outputs fs target ∧
    Everyone .prerouting (chains .prerouting) pre ∧
    Upto (chains .routing) rt taker ∧
    Everyone .postrouting (chains .postrouting) post

/-- No handler writes `targetmod`, the result of the routing stage. -/
def Leavestarget : Prop := ∀ f mod stage t,
  (fs.handlerfunc f mod stage t).2.gmhi.targetmod = t.gmhi.targetmod

theorem callAll_everyone (stage : Stage) (l : List (Mhlist F)) (t : Turn δ) :
    Everyone stage l (callAll fs stage l t).1 := by
  induction l generalizing t with
  | nil => exact ⟨[], rfl, rfl⟩
  | cons mh l ih =>
      obtain ⟨answers, hlength, hlog⟩ := ih (fs.handlerfunc mh.handlerfunc mh.module stage t).2
      refine ⟨(fs.handlerfunc mh.handlerfunc mh.module stage t).1 :: answers, ?_, ?_⟩
      · rw [List.length_cons, List.length_cons, hlength]
      · rw [List.zipWith_cons_cons, ← hlog]
        rfl

theorem callAll_target {fs : Functions F δ} (hleaves : Leavestarget fs) (stage : Stage)
    (l : List (Mhlist F)) (t : Turn δ) :
    (callAll fs stage l t).2.gmhi.targetmod = t.gmhi.targetmod := by
  induction l generalizing t with
  | nil => rfl
  | cons mh l ih => exact (ih _).trans (hleaves _ _ _ t)

/-- The routing stage has a taker, which has become the target, or leaves the target. -/
theorem callRouting_upto (l : List (Mhlist F)) (t : Turn δ) :
    ∃ taker, Upto l (callRouting fs l t).1 taker ∧
      (Leavestarget fs → (callRouting fs l t).2.gmhi.targetmod =
        (taker.map (·.module)).or t.gmhi.targetmod) := by
  induction l generalizing t with
  | nil => exact ⟨none, .untaken, fun _ => rfl⟩
  | cons mh l ih =>
      simp only [callRouting]
      split
      · rename_i hr
        exact ⟨some mh, .taken hr, fun _ => rfl⟩
      · rename_i hr
        have hzero : (fs.handlerfunc mh.handlerfunc mh.module .routing t).1 = 0 := not_not.1 hr
        obtain ⟨taker, hupto, htarget⟩ := ih (fs.handlerfunc mh.handlerfunc mh.module .routing t).2
        refine ⟨taker, ?_, ?_⟩
        · rw [hzero]
          exact .passed hupto
        · intro hleaves
          rw [htarget hleaves, hleaves]

theorem callOutput_outputs (t : Turn δ) : (callOutput fs t).1 = outputs fs t.gmhi.targetmod := by
  unfold callOutput outputs
  cases t.gmhi.targetmod with
  | none => rfl
  | some mod => cases houtf : fs.outputfunc mod <;> simp [houtf]

/-- What a message with all its names calls. -/
theorem route_dispatches (chains : Chains F) (srcmod : Nafmodule) {gm : Gnrmsg δ} (w : World)
    (hsrc : gm.srcname.isSome ∧ gm.srcnameservice.isSome)
    (hdest : gm.destname.isSome ∧ gm.destnameservice.isSome) :
    (route fs chains srcmod gm w).1 = 0 ∧
      ∃ taker, Dispatches fs chains (route fs chains srcmod gm w).2.1 taker
          (staged fs chains (.start srcmod gm w)).gmhi.targetmod ∧
        (Leavestarget fs → (staged fs chains (.start srcmod gm w)).gmhi.targetmod = taker.map (·.module)) := by
  obtain ⟨srcname, h₁⟩ := Option.isSome_iff_exists.1 hsrc.1
  obtain ⟨srcnameservice, h₂⟩ := Option.isSome_iff_exists.1 hsrc.2
  obtain ⟨destname, h₃⟩ := Option.isSome_iff_exists.1 hdest.1
  obtain ⟨destnameservice, h₄⟩ := Option.isSome_iff_exists.1 hdest.2
  simp only [route, staged, Turn.start, h₁, h₂, h₃, h₄, Option.getD_some]
  refine ⟨trivial, ?_⟩
  generalize hpre : callAll fs .prerouting (chains .prerouting) _ = pre
  generalize hrt : callRouting fs (chains .routing) pre.2 = rt
  generalize hpost : callAll fs .postrouting (chains .postrouting) rt.2 = post
  obtain ⟨taker, hupto, htarget⟩ := callRouting_upto fs (chains .routing) pre.2
  refine ⟨taker, ⟨pre.1, rt.1, post.1, ?_, ?_, ?_, ?_⟩, ?_⟩
  · rw [callOutput_outputs]
  · rw [← hpre]
    exact callAll_everyone fs _ _ _
  · rw [← hrt]
    exact hupto
  · rw [← hpost]
    exact callAll_everyone fs _ _ _
  · intro hleaves
    have hnone : pre.2.gmhi.targetmod = none := by
      rw [← hpre]
      exact callAll_target hleaves _ _ _
    rw [← hpost, callAll_target hleaves, ← hrt, htarget hleaves, hnone, Option.or_none]

/-- After any history of calls that adds no function to a stage which has it already: the
chains hold the handlers registered, in order, and a message with all its names calls
them, and then the output function of the module that the target names when they are through; that
is the taker's module, where no handler writes the target. A position out of bounds changes nothing. -/
theorem handlers_called [DecidableEq F] {hist : Registrations F} {chains : Chains F}
    (hrun : Run register Unregistered hist chains) (hfresh : ∀ p ∈ hist, Fresh p.1 p.2) :
    (∀ stage, Inorder (registered hist stage) (chains stage)) ∧
      (∀ (srcmod : Nafmodule) (gm : Gnrmsg δ) (w : World),
        gm.srcname.isSome ∧ gm.srcnameservice.isSome →
        gm.destname.isSome ∧ gm.destnameservice.isSome →
        (route fs chains srcmod gm w).1 = 0 ∧
          ∃ taker, Dispatches fs chains (route fs chains srcmod gm w).2.1 taker
              (staged fs chains (.start srcmod gm w)).gmhi.targetmod ∧
            (Leavestarget fs →
              (staged fs chains (.start srcmod gm w)).gmhi.targetmod = taker.map (·.module))) ∧
      ∀ mod stage position f desc (h : Heap), ¬(posMin ≤ position ∧ position ≤ posMax) →
        addmsghandler chains mod stage position f desc h = .ok ((-1, chains), h) := by
  refine ⟨fun stage => (kept_of_run hrun hfresh stage).inorder, ?_, ?_⟩
  · intro srcmod gm w hsrc hdest
    exact route_dispatches fs chains srcmod w hsrc hdest
  · intro mod stage position f desc h hpos
    exact addmsghandler_outside hpos

end

/-! ## A taker and a censor -/

def oscar : Nafmodule := ⟨lit "timps-oscar"⟩

/-- Handler 1 takes every message; handler 2 looks at it and, with `censor`, takes the
target away again. Only the module of handler 1 puts messages out. -/
def takerandcensor (censor : Bool) : Functions Nat Unit where
  handlerfunc f _ _ t :=
    if f = 1 then (1, t)
    else if censor then (0, { t with gmhi := { t.gmhi with targetmod := none } })
    else (0, t)
  outputfunc mod := if mod = oscar then some fun _ t => (1, t) else none

/-- Both are added, and an addition out of bounds fails. -/
def additions : List (Call Nat × Heap) :=
  [(.addmsghandler oscar .routing 50 1 (lit "oscar"), .zeroed),
    (.addmsghandler ⟨lit "logging"⟩ .postrouting 101 2 (lit "late"), .zeroed),
    (.addmsghandler ⟨lit "logging"⟩ .postrouting 100 2 (lit "log"), .zeroed)]

def taker : Mhlist Nat := ⟨50, oscar, 1, lit "oscar"⟩

def censor : Mhlist Nat := ⟨100, ⟨lit "logging"⟩, 2, lit "log"⟩

/-- The chains with the two handlers. -/
def twochains : Chains Nat
  | .prerouting => []
  | .routing => [taker]
  | .postrouting => [censor]

def greeting : Gnrmsg Unit :=
  { srcname := some (lit "alice"), srcnameservice := some (lit "AIM")
    destname := some (lit "bob"), destnameservice := some (lit "AIM") }

/-- The chains with the first of them. -/
def onechain : Chains Nat := Function.update (fun _ => []) .routing [taker]

theorem run_additions : ∃ hist, Run register Unregistered hist twochains ∧
    hist.map (·.2) = additions ∧ ∀ p ∈ hist, Fresh p.1 p.2 := by
  have hempty : Unregistered (F := Nat) fun _ => [] := fun _ => rfl
  have hstart : Run register Unregistered [] fun _ => ([] : List (Mhlist Nat)) := .start hempty
  have hfirst : register additions[0] (fun _ => []) = .ok onechain := rfl
  have hsecond : register additions[1] onechain = .ok onechain := rfl
  have hthird : register additions[2] onechain = .ok twochains := by
    have hend : Function.update onechain .postrouting [censor] = twochains := by
      funext stage
      cases stage <;> rfl
    rw [← hend]
    rfl
  refine ⟨_, ((hstart.step hfirst).step hsecond).step hthird, rfl, ?_⟩
  intro p hp
  simp only [List.nil_append, List.cons_append, List.mem_cons, List.not_mem_nil, or_false] at hp
  rcases hp with rfl | rfl | rfl
  · intro mh hmh
    cases hmh
  · intro mh hmh
    cases hmh
  · intro mh hmh
    cases hmh

/-- The message goes out through the module of the handler that took it. -/
theorem handlers_called_additions : ∃ hist, Run register Unregistered hist twochains ∧
    hist.map (·.2) = additions ∧
    (∀ stage, Inorder (registered hist stage) (twochains stage)) ∧
    (route (takerandcensor false) twochains oscar greeting (.ofConns [])).2.1 =
      [.handler .routing taker 1, .handler .postrouting censor 0, .output oscar] ∧
    ∃ mh : Option (Mhlist Nat), Dispatches (takerandcensor false) twochains
      (route (takerandcensor false) twochains oscar greeting (.ofConns [])).2.1 mh (mh.map (·.module)) := by
  obtain ⟨hist, hrun, hcalls, hfresh⟩ := run_additions
  obtain ⟨hinorder, hroute, -⟩ := handlers_called (takerandcensor false) hrun hfresh
  obtain ⟨-, mh, hdispatches, htarget⟩ :=
    hroute oscar greeting (.ofConns []) ⟨rfl, rfl⟩ ⟨rfl, rfl⟩
  have hleaves : Leavestarget (takerandcensor false) := by
    intro f mod stage t
    simp only [takerandcensor]
    split <;> rfl
  rw [htarget hleaves] at hdispatches
  exact ⟨hist, hrun, hcalls, hinorder, rfl, mh, hdispatches⟩

/-- A handler behind the routing stage that writes the target: no output function is called
for a message that has been taken. -/
theorem not_put_out : ∃ hist, Run register Unregistered hist twochains ∧
    (∀ p ∈ hist, Fresh p.1 p.2) ∧
    ¬∃ mh : Option (Mhlist Nat), Dispatches (takerandcensor true) twochains
      (route (takerandcensor true) twochains oscar greeting (.ofConns [])).2.1 mh (mh.map (·.module)) := by
  obtain ⟨hist, hrun, -, hfresh⟩ := run_additions
  refine ⟨hist, hrun, hfresh, ?_⟩
  rintro ⟨mh, pre, rt, post, hlog, ⟨answers, -, rfl⟩, hupto, ⟨answers', hlength, rfl⟩⟩
  have hroute : (route (takerandcensor true) twochains oscar greeting (.ofConns [])).2.1 =
      [.handler .routing taker 1, .handler .postrouting censor 0] := rfl
  rw [hroute] at hlog
  simp only [twochains, List.zipWith_nil_left, List.nil_append] at hlog hupto
  cases hupto with
  | taken hr =>
      have hcount := congrArg List.length hlog
      simp [twochains, hlength, outputs, takerandcensor, taker] at hcount
  | passed hrest =>
      simp at hlog

end Timps.Gnr.Msghandler
