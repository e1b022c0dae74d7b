-- SUMMARY: The cache of key/value pairs that modules register for: lists, pairs, their time-out, and their release.
import Mathlib.Logic.Function.Basic
import Timps.Naf.Tag

/-!
# The cache

`src/naf/cache.c`. What a module has registered hangs on a tag of the module, a pointer
to its `struct cachetagdata`; the blocks behind such pointers are in `ctds` until they
are released. A freepair function is known by its address, of type `Φ`; what it does
with a pair stays outside the cache. `added` and `freed` record what was added and what
was released; no definition reads them.
-/

namespace Timps.Naf.Cache

/-- The ways in which the cache leaves the behaviour its authors defined. -/
inductive Stop where
  | memory (f : Fault)
  /-- a null link is followed -/
  | null
  /-- a block is used after it was released -/
  | released
  deriving DecidableEq

structure Cachepair where
  /-- stands for the address of the pair -/
  pid : Nat
  key : Nat
  value : Nat
  addtime : Int
  deriving DecidableEq

structure Cachelist (Φ : Type) where
  lid : UInt16
  lastrun : Int
  timeout : Int
  freepair : Option Φ
  pairs : List Cachepair
  deriving DecidableEq

/-- A pair with what its list and its owner say of it. -/
structure Ticket (Φ : Type) where
  mod : Nafmodule
  lid : UInt16
  freepair : Option Φ
  pid : Nat
  key : Nat
  value : Nat
  deriving DecidableEq

def ticket {Φ : Type} (mod : Nafmodule) (cl : Cachelist Φ) (cp : Cachepair) : Ticket Φ :=
  { mod, lid := cl.lid, freepair := cl.freepair, pid := cp.pid, key := cp.key, value := cp.value }

structure State (Φ : Type) where
  /-- the loaded modules -/
  modules : List Nafmodule
  taglist : Nafmodule → List (Tag Nat)
  /-- the lists of each `struct cachetagdata` that is allocated -/
  ctds : Nat → Option (List (Cachelist Φ))
  nextctd : Nat
  nextpid : Nat
  heap : Heap
  now : Int
  added : List (Ticket Φ)
  freed : List (Ticket Φ)

/-- Programs over the cache. -/
abbrev Csys (Φ : Type) := Prog Stop (State Φ)

variable {Φ : Type}

/-- Run a program over memory. -/
def mem {α : Type} (x : Mem α) : Csys Φ α := fun s =>
  match x s.heap with
  | .ok (a, h) => .ok (a, { s with heap := h })
  | .error f => .error (.memory f)

/-- Follow a pointer to a `struct cachetagdata`. -/
def ctd (a : Nat) : Csys Φ (List (Cachelist Φ)) := fun s =>
  match s.ctds a with
  | some lists => .ok (lists, s)
  | none => .error .released

def State.setCtd (a : Nat) (lists : Option (List (Cachelist Φ))) (s : State Φ) : State Φ :=
  { s with ctds := Function.update s.ctds a lists }

/-! ## Pairs and lists -/

/-- The freepair function is called for the pair, if the list has one. -/
def cpFree (mod : Nafmodule) (cl : Cachelist Φ) (cp : Cachepair) : Csys Φ Unit :=
  Prog.update fun s => { s with freed := s.freed ++ [ticket mod cl cp] }

/-- The loop of `cl_free` moves on twice: to the pair that it kept in hand, and from that
one to the next. -/
def clFreeLoop (mod : Nafmodule) (cl : Cachelist Φ) : List Cachepair → Csys Φ Unit
  | [] => pure ()
  | cp :: cptmp => do
      cpFree mod cl cp
      match cptmp with
      | [] => Prog.fault .null
      | _ :: l => clFreeLoop mod cl l

def clFree (mod : Nafmodule) (cl : Cachelist Φ) : Csys Φ Unit := clFreeLoop mod cl cl.pairs

/-- The loop of `ctd_free`, which moves on twice as well. -/
def ctdFreeLoop (mod : Nafmodule) : List (Cachelist Φ) → Csys Φ Unit
  | [] => pure ()
  | cl :: cltmp => do
      clFree mod cl
      match cltmp with
      | [] => Prog.fault .null
      | _ :: l => ctdFreeLoop mod l

def ctdFree (mod : Nafmodule) (a : Nat) : Csys Φ Unit := do
  let lists ← ctd a
  ctdFreeLoop mod lists
  Prog.update (State.setCtd a none)

/-- `ctd_findlist`: the list of that id, between those before and those behind it. -/
def findlist (lid : UInt16) : List (Cachelist Φ) →
    Option (List (Cachelist Φ) × Cachelist Φ × List (Cachelist Φ))
  | [] => none
  | cl :: l =>
      if cl.lid = lid then some ([], cl, l)
      else (findlist lid l).map fun r => (cl :: r.1, r.2)

/-- The walk that unlinks and frees the pairs for which `out` holds. -/
def sweep (mod : Nafmodule) (cl : Cachelist Φ) (out : Cachepair → Bool) :
    List Cachepair → Csys Φ (List Cachepair)
  | [] => pure []
  | cur :: l => do
      if out cur then do
        cpFree mod cl cur
        sweep mod cl out l
      else do
        let l ← sweep mod cl out l
        pure (cur :: l)

/-! ## Registration -/

def ourmodule : Nafmodule := ⟨lit "cache"⟩

def cachetag : CStr := lit "module.cachetagdata"

/-- What the tag of a module points to. -/
def State.addr (s : State Φ) (mod : Nafmodule) : Option Nat :=
  if mod ∈ s.modules then (Tag.fetch (s.taglist mod) ourmodule cachetag).map (·.data) else none

/-- `naf_module_tag_add` of the cache's tag. -/
def tagAdd (mod : Nafmodule) (a : Nat) : Csys Φ Bool := do
  let s ← Prog.read fun s => s
  if mod ∈ s.modules then do
    match ← mem (Tag.add (s.taglist mod) ourmodule cachetag 'V' a) with
    | none => pure false
    | some l => do
        Prog.update fun s => { s with taglist := Function.update s.taglist mod l }
        pure true
  else pure false

/-- The answer is 0 also for a module that is registered already. -/
def register (mod : Nafmodule) : Csys Φ Int := do
  match ← Prog.read fun s => s.addr mod with
  | some _ => pure 0
  | none => do
      -- sizeof(struct cachetagdata)
      match ← mem (malloc 8) with
      | none => pure (-1)
      | some _ => do
          let a ← Prog.read fun s => s.nextctd
          Prog.update fun s => { s.setCtd a (some []) with nextctd := a + 1 }
          if ← tagAdd mod a then pure 0
          else do
            ctdFree mod a
            pure (-1)

/-- The tag of the module stays where it is. -/
def unregister (mod : Nafmodule) : Csys Φ Int := do
  match ← Prog.read fun s => s.addr mod with
  | none => pure 0
  | some a => do
      ctdFree mod a
      pure 0

/-! ## Lists and pairs of a module -/

def addlist (mod : Nafmodule) (lid : UInt16) (timeout : Int) (freepair : Option Φ) : Csys Φ Int := do
  match ← Prog.read fun s => s.addr mod with
  | none => pure (-1)
  | some a => do
      let lists ← ctd a
      match findlist lid lists with
      | some _ => pure (-1)
      | none => do
          -- sizeof(struct cachelist)
          match ← mem (malloc 48) with
          | none => pure (-1)
          | some _ => do
              let now ← Prog.read fun s => s.now
              let cl : Cachelist Φ := { lid, lastrun := now, timeout, freepair, pairs := [] }
              Prog.update (State.setCtd a (some (cl :: lists)))
              pure 0

/-- The walk over the lists of a module that unlinks and frees those of that id. -/
def remlistLoop (mod : Nafmodule) (lid : UInt16) :
    List (Cachelist Φ) → Csys Φ (List (Cachelist Φ))
  | [] => pure []
  | cur :: l => do
      if cur.lid = lid then do
        clFree mod cur
        remlistLoop mod lid l
      else do
        let l ← remlistLoop mod lid l
        pure (cur :: l)

def remlist (mod : Nafmodule) (lid : UInt16) : Csys Φ Int := do
  match ← Prog.read fun s => s.addr mod with
  | none => pure (-1)
  | some a => do
      let lists ← ctd a
      let lists ← remlistLoop mod lid lists
      Prog.update (State.setCtd a (some lists))
      pure 0

def addpair (mod : Nafmodule) (lid : UInt16) (key value : Nat) : Csys Φ Int := do
  match ← Prog.read fun s => s.addr mod with
  | none => pure (-1)
  | some a => do
      let lists ← ctd a
      match findlist lid lists with
      | none => pure (-1)
      | some (before, cl, behind) => do
          -- sizeof(struct cachepair)
          match ← mem (malloc 32) with
          | none => pure (-1)
          | some _ => do
              let s ← Prog.read fun s => s
              let cp : Cachepair := { pid := s.nextpid, key, value, addtime := s.now }
              Prog.update (State.setCtd a
                (some (before ++ { cl with pairs := cp :: cl.pairs } :: behind)))
              Prog.update fun s =>
                { s with nextpid := s.nextpid + 1, added := ticket mod cl cp :: s.added }
              pure 0

/-- The first pair that matches, between those before and those behind it. -/
def findcur (matcher : Cachepair → Bool) : List Cachepair →
    Option (List Cachepair × Cachepair × List Cachepair)
  | [] => none
  | cur :: l =>
      if matcher cur then some ([], cur, l)
      else (findcur matcher l).map fun r => (cur :: r.1, r.2)

/-- With `hit` the pair that is found starts its time anew. -/
def findpair (mod : Nafmodule) (lid : UInt16) (matcher : Cachepair → Bool) (hit : Bool) :
    Csys Φ (Int × Option Cachepair) := do
  match ← Prog.read fun s => s.addr mod with
  | none => pure (-1, none)
  | some a => do
      let lists ← ctd a
      match findlist lid lists with
      | none => pure (-1, none)
      | some (before, cl, behind) =>
          match findcur matcher cl.pairs with
          | none => pure (0, none)
          | some (l, cur, r) => do
              if hit then do
                let now ← Prog.read fun s => s.now
                let cl := { cl with pairs := l ++ { cur with addtime := now } :: r }
                Prog.update (State.setCtd a (some (before ++ cl :: behind)))
                pure (1, some cur)
              else pure (1, some cur)

def rempairs (mod : Nafmodule) (lid : UInt16) (matcher : Cachepair → Bool) : Csys Φ Int := do
  match ← Prog.read fun s => s.addr mod with
  | none => pure (-1)
  | some a => do
      let lists ← ctd a
      match findlist lid lists with
      | none => pure (-1)
      | some (before, cl, behind) => do
          let pairs ← sweep mod cl matcher cl.pairs
          Prog.update (State.setCtd a (some (before ++ { cl with pairs } :: behind)))
          pure 0

/-! ## The timer -/

/-- The pairs of the lists that are due, without those that have timed out. -/
def timerLists (mod : Nafmodule) (now : Int) : List (Cachelist Φ) → Csys Φ (List (Cachelist Φ))
  | [] => pure []
  | cl :: l => do
      if now - cl.lastrun < cl.timeout then do
        let l ← timerLists mod now l
        pure (cl :: l)
      else do
        let pairs ← sweep mod cl (fun cur => now - cur.addtime ≥ cl.timeout) cl.pairs
        let l ← timerLists mod now l
        pure ({ cl with pairs, lastrun := now } :: l)

def timerIter (now : Int) (curmod : Nafmodule) : Csys Φ Unit := do
  match ← Prog.read fun s => s.addr curmod with
  | none => pure ()
  | some a => do
      let lists ← ctd a
      let lists ← timerLists curmod now lists
      Prog.update (State.setCtd a (some lists))

/-- `timerhandler`; `loaded` says whose status is MOD_STATUS_LOADED. -/
def timer (loaded : Nafmodule → Bool) : Csys Φ Unit := do
  let now ← Prog.read fun s => s.now
  let modules ← Prog.read fun s => s.modules
  Prog.each (timerIter now) (modules.filter loaded)

/-! ## Calls -/

inductive Call (Φ : Type) where
  | register (mod : Nafmodule)
  | unregister (mod : Nafmodule)
  | addlist (mod : Nafmodule) (lid : UInt16) (timeout : Int) (freepair : Option Φ)
  | remlist (mod : Nafmodule) (lid : UInt16)
  | addpair (mod : Nafmodule) (lid : UInt16) (key value : Nat)
  | findpair (mod : Nafmodule) (lid : UInt16) (matcher : Cachepair → Bool) (hit : Bool)
  | rempairs (mod : Nafmodule) (lid : UInt16) (matcher : Cachepair → Bool)
  | timer (loaded : Nafmodule → Bool)

def Call.make : Call Φ → Csys Φ Int
  | .register mod => Cache.register mod
  | .unregister mod => Cache.unregister mod
  | .addlist mod lid timeout freepair => Cache.addlist mod lid timeout freepair
  | .remlist mod lid => Cache.remlist mod lid
  | .addpair mod lid key value => Cache.addpair mod lid key value
  | .findpair mod lid matcher hit => do
      let r ← Cache.findpair mod lid matcher hit
      pure r.1
  | .rempairs mod lid matcher => Cache.rempairs mod lid matcher
  | .timer loaded => do
      Cache.timer loaded
      pure 0

/-- A call with the memory and the time it finds. -/
structure Input (Φ : Type) where
  call : Call Φ
  heap : Heap
  now : Int

def State.given (s : State Φ) (i : Input Φ) : State Φ := { s with heap := i.heap, now := i.now }

def next (i : Input Φ) (s : State Φ) : Except Stop (State Φ) :=
  match i.call.make (s.given i) with
  | .ok (_, s') => .ok s'
  | .error e => .error e

end Timps.Naf.Cache
