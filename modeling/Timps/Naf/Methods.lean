-- SUMMARY: The RPC methods of the modules: registering, unregistering, and issuing a request.
import Timps.Base.Keyed
import Timps.Base.Run
import Timps.Naf.Rpc

/-!
# RPC methods

A module that registers methods gets a list of them, which a tag leads to. A request goes
to the first loaded module of its target's name, and there to the method of its name;
neither comparison looks at case. The registry is compared with a plain map from modules
and names to functions: registering a name a second time changes nothing, and what cannot
be allocated is as if it had never been asked for. A module that has no list gets none while
the module `rpc` is down, since the tag would have no owner. What a method does is a parameter
without the registry: methods that register, unregister or issue requests are not covered.
-/

namespace Timps.Naf.Rpc

/-- `NAF_RPC_STATUS_*` -/
inductive Status where
  | success
  | unknowntarget
  | unknownmethod
  | invalidargs
  | pending
  | unknownfailure
  deriving DecidableEq

/-- The part of a `naf_rpc_req_t` that a method fills in. -/
structure Reply where
  status : Status
  returnargs : List RpcArg

/-- `struct rpcmethod` -/
structure Rpcmethod (F : Type) where
  name : CStr
  func : F
  desc : Option CStr

/-- A module, with the methods that its tag `module.rpi` leads to. -/
structure Target (F : Type) where
  /-- stands for the address of the module -/
  addr : Nat
  name : CStr
  loaded : Bool
  rpi : Option (List (Rpcmethod F))

section

variable {F : Type}

/-- `naf_module_findbyname` -/
def findbyname (modlist : List (Target F)) (name : CStr) : Option (Target F) :=
  modlist.find? fun cur => cur.loaded && strcaseeq name cur.name

/-- `naf_module_tag_add(ourmodule, mod, "module.rpi", ..)`, of a module without that tag; `ourmodule`
says whether that pointer is set. -/
def moduleTagAdd (ourmodule : Bool) : Mem Bool :=
  if !ourmodule then pure false
  else do
    -- sizeof(naf_tag_t)
    let tag ← malloc 96
    pure tag.isSome

/-- The methods of a module; one that has no list of them gets an empty one. No other module has
tags of that name, so that they are found without `ourmodule` as well. -/
def fetchinfo (ourmodule : Bool) : Option (List (Rpcmethod F)) → Mem (Option (List (Rpcmethod F)))
  | some methods => pure (some methods)
  | none => do
      -- sizeof(struct rpcmoduleinfo)
      match ← malloc 8 with
      | none => pure none
      | some _ => do
          if ← moduleTagAdd ourmodule then pure (some []) else pure none

def findmethod (methods : List (Rpcmethod F)) (name : CStr) : Option (Rpcmethod F) :=
  methods.find? fun rm => strcaseeq rm.name name

/-- `none` is the value -1. A name that is there keeps its function. -/
def addmethod (methods : List (Rpcmethod F)) (name : CStr) (func : F) (desc : Option CStr) :
    Mem (Option (List (Rpcmethod F))) :=
  match findmethod methods name with
  | some _ => pure (some methods)
  | none => do
      -- sizeof(struct rpcmethod)
      match ← malloc 32 with
      | none => pure none
      | some _ => do
          match ← strdup name with
          | none => pure none
          | some name =>
              match desc with
              | none => pure (some (⟨name, func, none⟩ :: methods))
              | some desc => do
                  match ← strdup desc with
                  | none => pure none
                  | some desc => pure (some (⟨name, func, some desc⟩ :: methods))

/-- `naf_rpc_register_method`: the list that the tag leads to afterwards. -/
def registerMethod (ourmodule : Bool) (rpi : Option (List (Rpcmethod F))) (name : CStr) (func : F)
    (desc : Option CStr) : Mem (Int × Option (List (Rpcmethod F))) := do
  match ← fetchinfo ourmodule rpi with
  | none => pure (-1, rpi)
  | some methods => do
      match ← addmethod methods name func desc with
      | none => pure (-1, some methods)
      | some methods => pure (0, some methods)

/-- `naf_rpc_unregister_method` -/
def unregisterMethod (ourmodule : Bool) (rpi : Option (List (Rpcmethod F))) (name : CStr) :
    Mem (Int × Option (List (Rpcmethod F))) := do
  match ← fetchinfo ourmodule rpi with
  | none => pure (-1, rpi)
  | some methods =>
      if (findmethod methods name).isSome then
        pure (0, some (methods.eraseP fun cur => strcaseeq cur.name name))
      else pure (-1, some methods)

/-- Write to one module. -/
def setrpi (addr : Nat) (rpi : Option (List (Rpcmethod F))) (modlist : List (Target F)) : List (Target F) :=
  modlist.map fun m => if m.addr = addr then { m with rpi } else m

/-- What is seen of a call. -/
inductive Obs (F : Type) where
  | registered (ret : Int)
  | unregistered (ret : Int)
  /-- no method is called -/
  | unknown (status : Status)
  | called (target : Nat) (func : F) (req : RpcReq) (reply : Reply)

/-- `naf_rpc_request_issue`. What a method does is its own affair. -/
def requestIssue (methods : F → Nat → RpcReq → Mem Reply) (ourmodule : Bool) (modlist : List (Target F))
    (req : RpcReq) : Mem (Obs F × List (Target F)) :=
  match findbyname modlist req.target with
  | none => pure (.unknown .unknowntarget, modlist)
  | some target => do
      match ← fetchinfo ourmodule target.rpi with
      | none => pure (.unknown .unknownmethod, modlist)
      | some rpi =>
          let modlist := setrpi target.addr (some rpi) modlist
          match findmethod rpi req.method with
          | none => pure (.unknown .unknownmethod, modlist)
          | some rm => do
              let reply ← methods rm.func target.addr req
              pure (.called target.addr rm.func req reply, modlist)

end

/-! ## Runs -/

/-- What happens to the registry. -/
inductive Call (F : Type) where
  | register (mod : Nat) (name : CStr) (func : F) (desc : Option CStr)
  | unregister (mod : Nat) (name : CStr)
  | issue (req : RpcReq)
  /-- a module enters the list, at one of its ends -/
  | add (last : Bool)
  | setname (mod : Nat) (name : CStr)
  /-- a module is loaded or unloaded; its tags stay -/
  | setloaded (mod : Nat) (loaded : Bool)
  /-- `modinit` and `modshutdown` of the module `rpc` -/
  | setours (up : Bool)

structure Registry (F : Type) where
  modlist : List (Target F) := []
  /-- what has been seen, oldest first -/
  log : List (Obs F) := []
  /-- the module `rpc` is up -/
  ourmodule : Bool := false

section

variable {F : Type} (methods : F → Nat → RpcReq → Mem Reply)

namespace Registry

def target? (w : Registry F) (mod : Nat) : Option (Target F) := Keyed.entry (·.addr) w.modlist mod

def see (o : Obs F) (modlist : List (Target F)) (w : Registry F) : Registry F :=
  { w with modlist, log := w.log ++ [o] }

end Registry

/-- Only a module of the list calls. -/
def Call.make (call : Call F) (w : Registry F) : Mem (Registry F) :=
  match call with
  | .register mod name func desc =>
      match w.target? mod with
      | none => pure w
      | some m => do
          let (ret, rpi) ← registerMethod w.ourmodule m.rpi name func desc
          pure (w.see (.registered ret) (setrpi mod rpi w.modlist))
  | .unregister mod name =>
      match w.target? mod with
      | none => pure w
      | some m => do
          let (ret, rpi) ← unregisterMethod w.ourmodule m.rpi name
          pure (w.see (.unregistered ret) (setrpi mod rpi w.modlist))
  | .issue req => do
      let (o, modlist) ← requestIssue methods w.ourmodule w.modlist req
      pure (w.see o modlist)
  | .add last =>
      let m : Target F := ⟨w.modlist.length, [], false, none⟩
      pure { w with modlist := if last then w.modlist ++ [m] else m :: w.modlist }
  | .setname mod name =>
      pure { w with modlist := w.modlist.map fun m => if m.addr = mod then { m with name } else m }
  | .setloaded mod loaded =>
      pure { w with modlist := w.modlist.map fun m => if m.addr = mod then { m with loaded } else m }
  | .setours up => pure { w with ourmodule := up }

def step (i : Call F × Heap) (w : Registry F) : Except Fault (Registry F) :=
  match i.1.make methods w i.2 with
  | .ok (w, _) => .ok w
  | .error e => .error e

def Start (w : Registry F) : Prop := w.modlist = [] ∧ w.log = []

end

/-! ## The map -/

/-- The module that registers or unregisters. -/
def Call.caller {F : Type} : Call F → Option Nat
  | .register mod _ _ _ => some mod
  | .unregister mod _ => some mod
  | _ => none

/-- A change of the module list, or of the module `rpc`. -/
def Call.listing {F : Type} : Call F → Bool
  | .add _ => true
  | .setname _ _ => true
  | .setloaded _ _ => true
  | .setours _ => true
  | _ => false

/-- The function of a module and a name in lower case. -/
abbrev Methods (F : Type) := Nat → CStr → Option F

def lower (name : CStr) : CStr := name.map tolower

section

variable {F : Type} (methods : F → Nat → RpcReq → Mem Reply)

def Rpcmethod.key (rm : Rpcmethod F) : CStr := lower rm.name

/-- The functions that the list of a module has. -/
def funcsOf (rpi : Option (List (Rpcmethod F))) : CStr → Option F := fun name =>
  (Keyed.entry Rpcmethod.key (rpi.getD []) name).map (·.func)

/-- The map that the lists stand for. -/
def methodsOf (w : Registry F) : Methods F := fun mod =>
  ((Keyed.entry (·.addr) w.modlist mod).map fun m => funcsOf m.rpi).getD fun _ => none

/-- The module that requests for a name go to. -/
def resolve (w : Registry F) (name : CStr) : Option Nat := (findbyname w.modlist name).map (·.addr)

/-- Registering takes five allocations at most, two for the list of methods and three for the method. -/
def regallocs : Nat := 5

/-- What a call does to the map, and what is seen of it. -/
inductive Serves (w : Registry F) (h : Heap) : Methods F → Call F → List (Obs F) → Methods F → Prop where
  | registered {m : Methods F} {mod : Nat} {name : CStr} {func : F} {desc : Option CStr} :
      (w.target? mod).isSome → m mod (lower name) = none →
      Serves w h m (.register mod name func desc) [.registered 0]
        (Function.update m mod (Function.update (m mod) (lower name) (some func)))
  | known {m : Methods F} {mod : Nat} {name : CStr} {func : F} {desc : Option CStr} :
      (m mod (lower name)).isSome → Serves w h m (.register mod name func desc) [.registered 0] m
  | refused {m : Methods F} {mod : Nat} {name : CStr} {func : F} {desc : Option CStr} :
      m mod (lower name) = none → true ∈ h.refuse.take regallocs →
      Serves w h m (.register mod name func desc) [.registered (-1)] m
  | down {m : Methods F} {mod : Nat} {name : CStr} {func : F} {desc : Option CStr} :
      w.ourmodule = false → (w.target? mod).any (·.rpi.isNone) = true →
      Serves w h m (.register mod name func desc) [.registered (-1)] m
  | unregistered {m : Methods F} {mod : Nat} {name : CStr} :
      (m mod (lower name)).isSome →
      Serves w h m (.unregister mod name) [.unregistered 0]
        (Function.update m mod (Function.update (m mod) (lower name) none))
  | unheard {m : Methods F} {mod : Nat} {name : CStr} :
      (w.target? mod).isSome → m mod (lower name) = none →
      Serves w h m (.unregister mod name) [.unregistered (-1)] m
  | unknowntarget {m : Methods F} {req : RpcReq} :
      resolve w req.target = none → Serves w h m (.issue req) [.unknown .unknowntarget] m
  | unknownmethod {m : Methods F} {req : RpcReq} {mod : Nat} :
      resolve w req.target = some mod → m mod (lower req.method) = none →
      Serves w h m (.issue req) [.unknown .unknownmethod] m
  | called {m : Methods F} {req : RpcReq} {mod : Nat} {func : F} {h₁ h₂ : Heap} {reply : Reply} :
      resolve w req.target = some mod → m mod (lower req.method) = some func →
      methods func mod req h₁ = .ok (reply, h₂) →
      Serves w h m (.issue req) [.called mod func req reply] m
  | listed {m : Methods F} {call : Call F} : call.listing = true → Serves w h m call [] m
  | unlisted {m : Methods F} {call : Call F} {mod : Nat} :
      call.caller = some mod → w.target? mod = none → Serves w h m call [] m

/-- The calls of a history are served one after the other, from the empty map on. -/
inductive Served : List (Registry F × (Call F × Heap)) → List (Obs F) → Methods F → Prop where
  | start : Served [] [] fun _ _ => none
  | step {hist : List (Registry F × (Call F × Heap))} {log obs : List (Obs F)} {m m' : Methods F} {w : Registry F}
      {i : Call F × Heap} :
      Served hist log m → Serves methods w i.2 m i.1 obs m' → Served (hist ++ [(w, i)]) (log ++ obs) m'

end

/-! ## One module's list -/

section

variable {F : Type} {rpi : Option (List (Rpcmethod F))} {l : List (Rpcmethod F)} {name : CStr} {func : F}
  {desc : Option CStr} {h : Heap}

theorem strcaseeq_key (name : CStr) :
    (fun rm : Rpcmethod F => strcaseeq rm.name name) = fun rm => decide (Rpcmethod.key rm = lower name) :=
  funext fun rm => by
    rw [Bool.eq_iff_iff, decide_eq_true_iff, strcaseeq, beq_iff_eq]
    exact Iff.rfl

/-- The search for a method is the search of the keyed list, by the lower-case name. -/
theorem findmethod_eq : findmethod l name = Keyed.entry Rpcmethod.key l (lower name) := by
  rw [findmethod, strcaseeq_key]
  rfl

theorem eraseP_eq_drop :
    (l.eraseP fun cur => strcaseeq cur.name name) = Keyed.drop Rpcmethod.key (lower name) l := by
  rw [strcaseeq_key]
  rfl

/-- What it finds is what the module answers for the name. -/
theorem findmethod_map (rpi : Option (List (Rpcmethod F))) (name : CStr) :
    (findmethod (rpi.getD []) name).map (·.func) = funcsOf rpi (lower name) := by
  rw [findmethod_eq]
  rfl

/-- The allocations that it takes to have a list of methods. -/
def infoallocs (rpi : Option (List (Rpcmethod F))) : Nat := if rpi.isSome then 0 else 2

/-- While rpc is up the tag is one more allocation. -/
theorem moduleTagAdd_bind {β : Type} (f : Bool → Mem β) :
    moduleTagAdd true >>= f = malloc 96 >>= fun tag => f tag.isSome := by
  show (malloc 96 >>= fun tag => pure tag.isSome) >>= f = _
  simp only [bind_assoc, pure_bind]

/-- While `rpc` is up it takes two allocations to have a list. -/
theorem asks_fetchinfo (rpi : Option (List (Rpcmethod F))) :
    Asks (infoallocs rpi) (rpi.getD []) (fetchinfo true rpi) := by
  cases rpi with
  | some methods => exact Asks.pure
  | none =>
      refine Asks.malloc (n := 1) rfl fun _ => ?_
      dsimp only
      rw [moduleTagAdd_bind]
      exact Asks.malloc (n := 0) rfl fun _ => Asks.pure

/-- While it is down there is no list for a module without one. -/
theorem fetchinfo_down (h : Heap) : ∃ h', fetchinfo (F := F) false none h = .ok (none, h') := by
  unfold fetchinfo
  cases hh : h.unwilling with
  | true => exact ⟨_, Prog.bind_of_ok (malloc_refused hh)⟩
  | false => exact ⟨_, Prog.bind_of_ok (malloc_granted hh)⟩

/-- Fetching the list gives the list, or nothing where there was none. -/
theorem fetchinfo_cases (ourmodule : Bool) (rpi : Option (List (Rpcmethod F))) (h : Heap) :
    fetchinfo ourmodule rpi h = .ok (some (rpi.getD []), h.skip (infoallocs rpi)) ∨
      rpi = none ∧ (true ∈ h.refuse.take 2 ∨ ourmodule = false) ∧ ∃ h', fetchinfo ourmodule rpi h = .ok (none, h') := by
  cases rpi with
  | some methods => exact .inl rfl
  | none =>
      cases ourmodule with
      | false => exact .inr ⟨rfl, .inr rfl, fetchinfo_down h⟩
      | true =>
          obtain ⟨hgranted, hrefused⟩ := asks_fetchinfo (F := F) none h
          by_cases hmem : true ∈ h.refuse.take 2
          · exact .inr ⟨rfl, .inl hmem, hrefused hmem⟩
          · exact .inl (hgranted hmem)

/-- A new method takes two allocations, and one more for a description. -/
def methodallocs (desc : Option CStr) : Nat := if desc.isSome then 3 else 2

/-- To add a method is to make its entry, and to copy its name and its description. -/
theorem asks_addmethod (func : F) (desc : Option CStr) (hnone : findmethod l name = none) :
    Asks (methodallocs desc) (⟨name, func, desc⟩ :: l) (addmethod l name func desc) := by
  unfold addmethod
  rw [hnone]
  cases desc with
  | none => exact Asks.malloc (n := 1) rfl fun _ => Asks.bind (n := 0) (Asks.strdup name) rfl Asks.pure
  | some desc =>
      exact Asks.malloc (n := 2) rfl fun _ => Asks.bind (n := 1) (Asks.strdup name) rfl
        (Asks.bind (n := 0) (Asks.strdup desc) rfl Asks.pure)

theorem mem_take_of_le {l : List Bool} {m n : Nat} (hle : m ≤ n) (hmem : true ∈ l.take m) : true ∈ l.take n :=
  (List.take_prefix_take_left (l := l) hle).subset hmem

/-- What registering does to a module's list. -/
inductive Registers (ourmodule : Bool) (rpi : Option (List (Rpcmethod F))) (name : CStr) (func : F)
    (desc : Option CStr) (h : Heap) : Int → Option (List (Rpcmethod F)) → Prop where
  | known {rm : Rpcmethod F} : findmethod (rpi.getD []) name = some rm →
      Registers ourmodule rpi name func desc h 0 (some (rpi.getD []))
  | added : findmethod (rpi.getD []) name = none →
      Registers ourmodule rpi name func desc h 0 (some (⟨name, func, desc⟩ :: rpi.getD []))
  | refused {rpi' : Option (List (Rpcmethod F))} : findmethod (rpi.getD []) name = none →
      true ∈ h.refuse.take regallocs → rpi'.getD [] = rpi.getD [] →
      Registers ourmodule rpi name func desc h (-1) rpi'
  | down : rpi = none → ourmodule = false → Registers ourmodule rpi name func desc h (-1) none

/-- A registration returns, and does what a registration does. -/
theorem registerMethod_returns (ourmodule : Bool) (rpi : Option (List (Rpcmethod F))) (name : CStr) (func : F)
    (desc : Option CStr) (h : Heap) :
    ∃ ret rpi' h', registerMethod ourmodule rpi name func desc h = .ok ((ret, rpi'), h') ∧
      Registers ourmodule rpi name func desc h ret rpi' := by
  obtain hfetch | ⟨rfl, hwhy, h₁, hfetch⟩ := fetchinfo_cases ourmodule rpi h
  · rw [registerMethod, Prog.bind_of_ok hfetch]
    dsimp only
    cases hfind : findmethod (rpi.getD []) name with
    | some rm =>
        have hadd : addmethod (rpi.getD []) name func desc = pure (some (rpi.getD [])) := by
          rw [addmethod, hfind]
        rw [hadd]
        exact ⟨_, _, _, rfl, .known hfind⟩
    | none =>
        obtain ⟨hgranted, hrefused⟩ := asks_addmethod func desc hfind (h.skip (infoallocs rpi))
        by_cases hmem : true ∈ (h.skip (infoallocs rpi)).refuse.take (methodallocs desc)
        · obtain ⟨h', hadd⟩ := hrefused hmem
          rw [Prog.bind_of_ok hadd]
          refine ⟨_, _, _, rfl, .refused hfind ?_ rfl⟩
          have hle : infoallocs rpi + methodallocs desc ≤ regallocs := by
            simp only [infoallocs, methodallocs, regallocs]
            split <;> split <;> decide
          refine mem_take_of_le hle ?_
          rw [List.take_add]
          exact List.mem_append_right _ hmem
        · rw [Prog.bind_of_ok (hgranted hmem)]
          exact ⟨_, _, _, rfl, .added hfind⟩
  · refine ⟨-1, none, h₁, ?_, ?_⟩
    · rw [registerMethod, Prog.bind_of_ok hfetch]
      rfl
    · rcases hwhy with hmem | hdown
      · exact .refused rfl (mem_take_of_le (by decide) hmem) rfl
      · exact .down rfl hdown

/-- What unregistering does to a module's list. -/
inductive Unregisters (rpi : Option (List (Rpcmethod F))) (name : CStr) : Int → Option (List (Rpcmethod F)) → Prop where
  | removed {rm : Rpcmethod F} : findmethod (rpi.getD []) name = some rm →
      Unregisters rpi name 0 (some (Keyed.drop Rpcmethod.key (lower name) (rpi.getD [])))
  | unheard {rpi' : Option (List (Rpcmethod F))} : findmethod (rpi.getD []) name = none →
      rpi'.getD [] = rpi.getD [] → Unregisters rpi name (-1) rpi'

/-- So does the removal of a method. -/
theorem unregisterMethod_returns (ourmodule : Bool) (rpi : Option (List (Rpcmethod F))) (name : CStr) (h : Heap) :
    ∃ ret rpi' h', unregisterMethod ourmodule rpi name h = .ok ((ret, rpi'), h') ∧
      Unregisters rpi name ret rpi' := by
  obtain hfetch | ⟨rfl, -, h₁, hfetch⟩ := fetchinfo_cases ourmodule rpi h
  · rw [unregisterMethod, Prog.bind_of_ok hfetch]
    dsimp only
    cases hfind : findmethod (rpi.getD []) name with
    | some rm => exact ⟨_, _, _, rfl, eraseP_eq_drop ▸ .removed hfind⟩
    | none => exact ⟨_, _, _, rfl, .unheard hfind rfl⟩
  · rw [unregisterMethod, Prog.bind_of_ok hfetch]
    exact ⟨_, _, _, rfl, .unheard rfl rfl⟩

/-- No name has two methods behind a registration that had none before. -/
theorem Registers.unique {ourmodule : Bool} {ret : Int} {rpi' : Option (List (Rpcmethod F))}
    (h : Registers ourmodule rpi name func desc h ret rpi') (hunique : Keyed.Unique Rpcmethod.key (rpi.getD [])) :
    Keyed.Unique Rpcmethod.key (rpi'.getD []) := by
  cases h with
  | known => exact hunique
  | added hfind => exact hunique.cons (findmethod_eq ▸ hfind)
  | refused _ _ hsame => exact hsame ▸ hunique
  | down => exact .nil

theorem Unregisters.unique {ret : Int} {rpi' : Option (List (Rpcmethod F))} (h : Unregisters rpi name ret rpi')
    (hunique : Keyed.Unique Rpcmethod.key (rpi.getD [])) : Keyed.Unique Rpcmethod.key (rpi'.getD []) := by
  cases h with
  | removed => exact hunique.drop
  | unheard _ hsame => exact hsame ▸ hunique

theorem funcsOf_congr {rpi' : Option (List (Rpcmethod F))} (h : rpi'.getD [] = rpi.getD []) :
    funcsOf rpi' = funcsOf rpi := by
  funext name
  rw [funcsOf, h]
  rfl

/-- A new method is the answer for its name, and for no other. -/
theorem funcsOf_cons : funcsOf (some (⟨name, func, desc⟩ :: rpi.getD [])) =
    Function.update (funcsOf rpi) (lower name) (some func) := by
  funext name'
  rw [funcsOf, Option.getD_some, Keyed.entry_cons]
  by_cases hname : name' = lower name
  · subst hname
    rw [Function.update_self]
    exact congrArg _ (Function.update_self ..)
  · rw [Function.update_of_ne hname]
    exact congrArg _ (Function.update_of_ne hname ..)

/-- Without its method a name has no answer. -/
theorem funcsOf_drop (hunique : Keyed.Unique Rpcmethod.key (rpi.getD [])) :
    funcsOf (some (Keyed.drop Rpcmethod.key (lower name) (rpi.getD []))) =
      Function.update (funcsOf rpi) (lower name) none := by
  funext name'
  rw [funcsOf, Option.getD_some, hunique.entry_drop]
  by_cases hname : name' = lower name
  · subst hname
    rw [Function.update_self, Function.update_self]
    rfl
  · rw [Function.update_of_ne hname, Function.update_of_ne hname]
    rfl

end

/-! ## The module list -/

section

variable {F : Type} {methods : F → Nat → RpcReq → Mem Reply} {w w' : Registry F} {m : Target F} {mod : Nat}
  {rpi : Option (List (Rpcmethod F))} {h h' : Heap}

/-- Every module is in the list once, and no module has two methods of one name. -/
structure Registry.Wf (w : Registry F) : Prop where
  addrs : Keyed.Unique (·.addr) w.modlist
  fresh : ∀ m ∈ w.modlist, m.addr < w.modlist.length
  names : ∀ m ∈ w.modlist, Keyed.Unique Rpcmethod.key (m.rpi.getD [])

theorem Start.wf (hw : Start w) : w.Wf where
  addrs := by rw [hw.1]; exact .nil
  fresh := by rw [hw.1]; exact fun m hm => nomatch hm
  names := by rw [hw.1]; exact fun m hm => nomatch hm

/-- Writing to a module keeps the list. -/
theorem Registry.Wf.change {f : Target F → Target F} {log : List (Obs F)} {up : Bool} (hw : w.Wf)
    (hf : ∀ m, (f m).addr = m.addr)
    (hnames : ∀ m ∈ w.modlist, m.addr = mod → Keyed.Unique Rpcmethod.key ((f m).rpi.getD [])) :
    Registry.Wf ⟨w.modlist.map fun m => if m.addr = mod then f m else m, log, up⟩ where
  addrs := Keyed.unique_change hf mod hw.addrs
  fresh := by
    intro m hm
    obtain ⟨m₀, hm₀, rfl⟩ := List.mem_map.1 hm
    have hlt := hw.fresh m₀ hm₀
    rw [List.length_map]
    split
    · exact (hf m₀).symm ▸ hlt
    · exact hlt
  names := by
    intro m hm
    obtain ⟨m₀, hm₀, rfl⟩ := List.mem_map.1 hm
    split
    · exact hnames m₀ hm₀ ‹_›
    · exact hw.names m₀ hm₀

theorem Registry.Wf.see (hw : w.Wf) (o : Obs F) : (w.see o w.modlist).Wf := ⟨hw.addrs, hw.fresh, hw.names⟩

theorem Registry.Wf.setrpi {log : List (Obs F)} {up : Bool} (hw : w.Wf)
    (hrpi : Keyed.Unique Rpcmethod.key (rpi.getD [])) : Registry.Wf ⟨setrpi mod rpi w.modlist, log, up⟩ :=
  hw.change (fun _ => rfl) fun _ _ _ => hrpi

/-- The map after a write to the methods of a module. -/
theorem methodsOf_setrpi {log : List (Obs F)} {up : Bool} (hm : w.target? mod = some m) :
    methodsOf ⟨setrpi mod rpi w.modlist, log, up⟩ = Function.update (methodsOf w) mod (funcsOf rpi) := by
  funext mod'
  have hkey : ∀ m : Target F, ({ m with rpi } : Target F).addr = m.addr := fun _ => rfl
  have hentry := Keyed.entry_change hkey mod w.modlist
  have hm' : Keyed.entry (fun m : Target F => m.addr) w.modlist mod = some m := hm
  rw [methodsOf, setrpi, hentry, hm']
  by_cases hmod : mod' = mod
  · subst hmod
    rw [Function.update_self, Function.update_self]
    rfl
  · rw [Function.update_of_ne hmod, Function.update_of_ne hmod]
    rfl

/-- The methods at an address are those of the module there. -/
theorem methodsOf_target (hm : w.target? mod = some m) : methodsOf w mod = funcsOf m.rpi := by
  have hm' : Keyed.entry (fun m : Target F => m.addr) w.modlist mod = some m := hm
  rw [methodsOf, hm']
  rfl

/-- Writing back what the module has changes nothing. -/
theorem methodsOf_setrpi_same {log : List (Obs F)} {up : Bool} (hm : w.target? mod = some m)
    (hsame : rpi.getD [] = m.rpi.getD []) : methodsOf ⟨setrpi mod rpi w.modlist, log, up⟩ = methodsOf w := by
  rw [methodsOf_setrpi hm, funcsOf_congr hsame, ← methodsOf_target hm, Function.update_eq_self]

/-- The module that a name finds is the one at its address. -/
theorem Registry.Wf.found {name : CStr} (hw : w.Wf) (hfind : findbyname w.modlist name = some m) :
    w.target? m.addr = some m :=
  Keyed.Unique.entry hw.addrs (List.mem_of_find?_eq_some hfind)

/-- What one call does to the lists is what it does to the map. -/
def Keeps (methods : F → Nat → RpcReq → Mem Reply) (w : Registry F) (h : Heap) (call : Call F) (w' : Registry F) :
    Prop :=
  w'.Wf ∧ ∃ obs, w'.log = w.log ++ obs ∧ Serves methods w h (methodsOf w) call obs (methodsOf w')

theorem register_keeps {name : CStr} {func : F} {desc : Option CStr} (hw : w.Wf)
    (hr : (Call.register mod name func desc).make methods w h = .ok (w', h')) :
    Keeps methods w h (.register mod name func desc) w' := by
  cases hm : w.target? mod with
  | none =>
      simp only [Call.make, hm, Prog.pure_ok, Prod.mk.injEq] at hr
      obtain ⟨rfl, -⟩ := hr
      exact ⟨hw, [], (List.append_nil _).symm, .unlisted rfl hm⟩
  | some m =>
      obtain ⟨ret, rpi, h₁, hregister, hregisters⟩ := registerMethod_returns w.ourmodule m.rpi name func desc h
      simp only [Call.make, hm] at hr
      rw [Prog.bind_of_ok hregister, Prog.pure_ok, Prod.mk.injEq] at hr
      obtain ⟨rfl, -⟩ := hr
      have hunique := hw.names m (Keyed.entry_some hm).1
      refine ⟨hw.setrpi (hregisters.unique hunique), [.registered ret], rfl, ?_⟩
      have hfunc := findmethod_map m.rpi name
      rw [← methodsOf_target hm] at hfunc
      cases hregisters with
      | known hfind =>
          have hsame : (some (m.rpi.getD [])).getD [] = m.rpi.getD [] := rfl
          rw [Registry.see, methodsOf_setrpi_same hm hsame]
          exact .known (by rw [← hfunc, hfind]; rfl)
      | added hfind =>
          rw [Registry.see, methodsOf_setrpi hm, funcsOf_cons, ← methodsOf_target hm]
          exact .registered (by rw [hm]; rfl) (by rw [← hfunc, hfind]; rfl)
      | refused hfind hmem hsame =>
          rw [Registry.see, methodsOf_setrpi_same hm hsame]
          exact .refused (by rw [← hfunc, hfind]; rfl) hmem
      | down hnone hdown =>
          have hsame : (none : Option (List (Rpcmethod F))).getD [] = m.rpi.getD [] := by rw [hnone]
          rw [Registry.see, methodsOf_setrpi_same hm hsame]
          exact .down hdown (by rw [hm, Option.any_some, hnone]; rfl)

theorem unregister_keeps {name : CStr} (hw : w.Wf)
    (hr : (Call.unregister mod name).make methods w h = .ok (w', h')) :
    Keeps methods w h (.unregister mod name) w' := by
  cases hm : w.target? mod with
  | none =>
      simp only [Call.make, hm, Prog.pure_ok, Prod.mk.injEq] at hr
      obtain ⟨rfl, -⟩ := hr
      exact ⟨hw, [], (List.append_nil _).symm, .unlisted rfl hm⟩
  | some m =>
      obtain ⟨ret, rpi, h₁, hunregister, hunregisters⟩ := unregisterMethod_returns w.ourmodule m.rpi name h
      simp only [Call.make, hm] at hr
      rw [Prog.bind_of_ok hunregister, Prog.pure_ok, Prod.mk.injEq] at hr
      obtain ⟨rfl, -⟩ := hr
      have hunique := hw.names m (Keyed.entry_some hm).1
      refine ⟨hw.setrpi (hunregisters.unique hunique), [.unregistered ret], rfl, ?_⟩
      have hfunc := findmethod_map m.rpi name
      rw [← methodsOf_target hm] at hfunc
      cases hunregisters with
      | removed hfind =>
          rw [Registry.see, methodsOf_setrpi hm, funcsOf_drop hunique, ← methodsOf_target hm]
          exact .unregistered (by rw [← hfunc, hfind]; rfl)
      | unheard hfind hsame =>
          rw [Registry.see, methodsOf_setrpi_same hm hsame]
          exact .unheard (by rw [hm]; rfl) (by rw [← hfunc, hfind]; rfl)

/-- A request is issued, or the method that the map has for it does not return. -/
theorem requestIssue_returns (methods : F → Nat → RpcReq → Mem Reply) (hw : w.Wf) (req : RpcReq) (h : Heap) :
    (∃ o l h', requestIssue methods w.ourmodule w.modlist req h = .ok ((o, l), h')) ∨
      ∃ func mod h₁ e, resolve w req.target = some mod ∧ methodsOf w mod (lower req.method) = some func ∧
        methods func mod req h₁ = .error e ∧ requestIssue methods w.ourmodule w.modlist req h = .error e := by
  unfold requestIssue
  cases hfind : findbyname w.modlist req.target with
  | none => exact .inl ⟨_, _, _, rfl⟩
  | some m =>
      dsimp only
      obtain hfetch | ⟨-, -, h₁, hfetch⟩ := fetchinfo_cases w.ourmodule m.rpi h
      · rw [Prog.bind_of_ok hfetch]
        dsimp only
        cases hmethod : findmethod (m.rpi.getD []) req.method with
        | none => exact .inl ⟨_, _, _, rfl⟩
        | some rm =>
            dsimp only
            cases hreply : methods rm.func m.addr req (h.skip (infoallocs m.rpi)) with
            | error e =>
                have hfunc := findmethod_map m.rpi req.method
                rw [hmethod, ← methodsOf_target (hw.found hfind)] at hfunc
                refine .inr ⟨_, _, _, e, ?_, hfunc.symm, hreply, Prog.bind_of_error hreply⟩
                rw [resolve, hfind]
                rfl
            | ok r =>
                obtain ⟨reply, h₂⟩ := r
                rw [Prog.bind_of_ok hreply]
                exact .inl ⟨_, _, _, rfl⟩
      · rw [Prog.bind_of_ok hfetch]
        exact .inl ⟨_, _, _, rfl⟩

/-- Issuing a request leaves the map as it is, and calls what the map says. -/
theorem issue_keeps {req : RpcReq} (hw : w.Wf) (hr : (Call.issue req).make methods w h = .ok (w', h')) :
    Keeps methods w h (.issue req) w' := by
  simp only [Call.make, requestIssue] at hr
  cases hfind : findbyname w.modlist req.target with
  | none =>
      simp only [hfind, pure_bind, Prog.pure_ok, Prod.mk.injEq] at hr
      obtain ⟨rfl, -⟩ := hr
      exact ⟨hw.see _, _, rfl, .unknowntarget (by rw [resolve, hfind]; rfl)⟩
  | some m =>
      have hm := hw.found hfind
      have hresolve : resolve w req.target = some m.addr := by
        rw [resolve, hfind]
        rfl
      have hfunc := findmethod_map m.rpi req.method
      rw [← methodsOf_target hm] at hfunc
      have hwf (log : List (Obs F)) (up : Bool) :
          Registry.Wf ⟨setrpi m.addr (some (m.rpi.getD [])) w.modlist, log, up⟩ :=
        hw.setrpi (hw.names m (Keyed.entry_some hm).1)
      have hsame (log : List (Obs F)) (up : Bool) :
          methodsOf ⟨setrpi m.addr (some (m.rpi.getD [])) w.modlist, log, up⟩ = methodsOf w :=
        methodsOf_setrpi_same hm rfl
      simp only [hfind] at hr
      -- fetching the methods of a module makes its empty list first, which may be refused
      obtain hfetch | ⟨hnone, -, h₁, hfetch⟩ := fetchinfo_cases w.ourmodule m.rpi h
      · rw [bind_assoc, Prog.bind_of_ok hfetch] at hr
        dsimp only at hr
        cases hmethod : findmethod (m.rpi.getD []) req.method with
        | none =>
            simp only [hmethod, pure_bind, Prog.pure_ok, Prod.mk.injEq] at hr
            obtain ⟨rfl, -⟩ := hr
            refine ⟨hwf _ _, _, rfl, ?_⟩
            rw [Registry.see, hsame]
            exact .unknownmethod hresolve (by rw [← hfunc, hmethod]; rfl)
        | some rm =>
            simp only [hmethod, bind_assoc, pure_bind, Prog.bind_ok, Prog.pure_ok, Prod.mk.injEq] at hr
            obtain ⟨reply, h₂, hreply, rfl, -⟩ := hr
            refine ⟨hwf _ _, _, rfl, ?_⟩
            rw [Registry.see, hsame]
            exact .called hresolve (by rw [← hfunc, hmethod]; rfl) hreply
      · rw [bind_assoc, Prog.bind_of_ok hfetch] at hr
        simp only [pure_bind, Prog.pure_ok, Prod.mk.injEq] at hr
        obtain ⟨rfl, -⟩ := hr
        refine ⟨hw.see _, _, rfl, .unknownmethod hresolve ?_⟩
        rw [← hfunc, hnone]
        rfl

theorem mem_added {a : Target F} {l : List (Target F)} {last : Bool} :
    m ∈ (if last then l ++ [a] else a :: l) ↔ m = a ∨ m ∈ l := by
  cases last with
  | true =>
      rw [if_pos rfl, List.mem_append, List.mem_singleton]
      exact or_comm
  | false => exact List.mem_cons

/-- A new module has no methods. -/
theorem add_keeps {last : Bool} (hw : w.Wf) (hr : (Call.add last).make methods w h = .ok (w', h')) :
    Keeps methods w h (.add last) w' := by
  simp only [Call.make, Prog.pure_ok, Prod.mk.injEq] at hr
  obtain ⟨rfl, -⟩ := hr
  let a : Target F := ⟨w.modlist.length, [], false, none⟩
  have hnone : Keyed.entry (fun m : Target F => m.addr) w.modlist a.addr = none :=
    Keyed.entry_eq_none.2 fun m hm => Nat.ne_of_lt (hw.fresh m hm)
  have hlength : (if last then w.modlist ++ [a] else a :: w.modlist).length = w.modlist.length + 1 := by
    cases last with
    | true => exact List.length_append
    | false => rfl
  have hentry : Keyed.entry (fun m : Target F => m.addr) (if last then w.modlist ++ [a] else a :: w.modlist) =
      Function.update (Keyed.entry (fun m : Target F => m.addr) w.modlist) a.addr (some a) := by
    cases last with
    | true => exact Keyed.entry_snoc hnone
    | false => exact Keyed.entry_cons
  refine ⟨⟨?_, fun m hm => ?_, fun m hm => ?_⟩, [], (List.append_nil _).symm, ?_⟩
  · cases last with
    | true => exact hw.addrs.snoc hnone
    | false => exact hw.addrs.cons hnone
  · show m.addr < (if last then w.modlist ++ [a] else a :: w.modlist).length
    rw [hlength]
    rcases mem_added.1 hm with rfl | hm
    · exact Nat.lt_succ_self _
    · exact Nat.lt_succ_of_lt (hw.fresh m hm)
  · rcases mem_added.1 hm with rfl | hm
    · exact .nil
    · exact hw.names m hm
  · have hsame : methodsOf ⟨if last then w.modlist ++ [a] else a :: w.modlist, w.log, w.ourmodule⟩ = methodsOf w := by
      funext mod
      rw [methodsOf, hentry]
      by_cases hmod : mod = a.addr
      · subst hmod
        rw [Function.update_self, methodsOf, hnone]
        rfl
      · rw [Function.update_of_ne hmod]
        rfl
    rw [hsame]
    exact .listed rfl

/-- A write to a module that leaves its methods leaves the map. -/
theorem change_keeps {f : Target F → Target F} {call : Call F} (hw : w.Wf) (haddr : ∀ m, (f m).addr = m.addr)
    (hrpi : ∀ m, (f m).rpi = m.rpi) (hlisting : call.listing = true) :
    Keeps methods w h call { w with modlist := w.modlist.map fun m => if m.addr = mod then f m else m } := by
  refine ⟨hw.change haddr fun m hm _ => hrpi m ▸ hw.names m hm, [], (List.append_nil _).symm, ?_⟩
  have hsame : methodsOf { w with modlist := w.modlist.map fun m => if m.addr = mod then f m else m } =
      methodsOf w := by
    funext mod'
    rw [methodsOf, Keyed.entry_change haddr]
    by_cases hmod : mod' = mod
    · subst hmod
      rw [Function.update_self, Option.map_map, methodsOf]
      simp only [Function.comp_def, hrpi]
    · rw [Function.update_of_ne hmod]
      rfl
  rw [hsame]
  exact .listed hlisting

/-- Every call keeps the map in step with the lists. -/
theorem make_keeps {call : Call F} (hw : w.Wf) (hr : call.make methods w h = .ok (w', h')) :
    Keeps methods w h call w' := by
  cases call with
  | register mod name func desc => exact register_keeps hw hr
  | unregister mod name => exact unregister_keeps hw hr
  | issue req => exact issue_keeps hw hr
  | add last => exact add_keeps hw hr
  | setname mod name =>
      simp only [Call.make, Prog.pure_ok, Prod.mk.injEq] at hr
      obtain ⟨rfl, -⟩ := hr
      exact change_keeps hw (fun _ => rfl) (fun _ => rfl) rfl
  | setloaded mod loaded =>
      simp only [Call.make, Prog.pure_ok, Prod.mk.injEq] at hr
      obtain ⟨rfl, -⟩ := hr
      exact change_keeps hw (fun _ => rfl) (fun _ => rfl) rfl
  | setours up =>
      simp only [Call.make, Prog.pure_ok, Prod.mk.injEq] at hr
      obtain ⟨rfl, -⟩ := hr
      exact ⟨⟨hw.addrs, hw.fresh, hw.names⟩, [], (List.append_nil _).symm, .listed rfl⟩

theorem step_keeps {i : Call F × Heap} (hw : w.Wf) (hstep : step methods i w = .ok w') :
    Keeps methods w i.2 i.1 w' := by
  simp only [step] at hstep
  cases hmake : i.1.make methods w i.2 with
  | error e =>
      rw [hmake] at hstep
      cases hstep
  | ok r =>
      obtain ⟨w₁, h₁⟩ := r
      rw [hmake] at hstep
      cases hstep
      exact make_keeps hw hmake

/-- Before the first call nothing is registered. -/
theorem Start.methodsOf (hw : Start w) : methodsOf w = fun _ _ => none := by
  funext mod
  rw [Rpc.methodsOf, hw.1]
  rfl

/-- The registry serves every run of calls as a plain map from modules and names to functions
would, and the map is what its lists say. -/
theorem requests_served {hist : List (Registry F × (Call F × Heap))} (hrun : Run (step methods) Start hist w) :
    Served methods hist w.log (methodsOf w) := by
  have hserved : w.Wf ∧ Served methods hist w.log (methodsOf w) := by
    induction hrun with
    | start hw => exact ⟨hw.wf, hw.methodsOf ▸ hw.2 ▸ .start⟩
    | step _ hstep ih =>
        obtain ⟨hwf, obs, hlog, hserves⟩ := step_keeps ih.1 hstep
        exact ⟨hwf, hlog ▸ .step ih.2 hserves⟩
  exact hserved.2

end

/-- Methods that succeed and return nothing. -/
def succeeding (_ : Nat) (_ : Nat) (_ : RpcReq) : Mem Reply := pure ⟨.success, []⟩

def Obs.callee {F : Type} : Obs F → Option (Nat × F)
  | .called target func _ _ => some (target, func)
  | _ => none

/-- A module registers two functions under one name, and one more before `rpc` is up. -/
def registering : List (Call Nat × Heap) :=
  [.add true, .setname 0 (lit "core"), .setloaded 0 true, .register 0 (lit "help") 3 none, .setours true,
    .register 0 (lit "help") 1 none, .register 0 (lit "Help") 2 none, .issue ⟨lit "CORE", lit "HELP", []⟩,
    .unregister 0 (lit "help"), .issue ⟨lit "core", lit "help", []⟩].map fun call => (call, Heap.zeroed)

theorem requests_served_registering :
    ∃ hist w, Run (step succeeding) Start hist w ∧ hist.map (·.2.1.caller) = registering.map (·.1.caller) ∧
      w.log.map Obs.callee = [none, none, none, some (0, 1), none, none] ∧
        Served succeeding hist w.log (methodsOf w) := by
  have hstart : Start ({} : Registry Nat) := ⟨rfl, rfl⟩
  have hreach : (replayInputs (step succeeding) registering {}).toOption.any
      (fun r => r.2.log.map Obs.callee = [none, none, none, some (0, 1), none, none]) = true := by
    decide +kernel
  obtain ⟨hist, w, hrun, hinputs, hlog⟩ := Run.exists_of_replay hstart hreach
  refine ⟨hist, w, hrun, ?_, by simpa using hlog, requests_served hrun⟩
  rw [← hinputs, List.map_map]
  rfl

end Timps.Naf.Rpc
