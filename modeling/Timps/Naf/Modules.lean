-- SUMMARY: The module list: loading in passes, broadcasts, timers and protocol detection, over whatever the modules' own code does.
import Timps.Base.Prog
import Timps.Base.Run
import Timps.Naf.Memory

/-!
# The module list

What the core asks of a module is an entry of a log. What the code of a module does when it
is called is a parameter: `Code` says, of the log so far, which broadcasts the call raises,
what it writes to the module's own context, how long it takes and what it returns. A call
may so be made in the middle of another one; the depth of the stack is bounded.
-/

namespace Timps.Naf.Modules

/-! ## Modules -/

/-- The flags of a module's status. -/
structure Modstatus where
  loaded : Bool := false
  error : Bool := false
  resident : Bool := false
deriving DecidableEq

/-- The context that the code of a module fills in: which of the procedures are set. -/
structure Context where
  name : CStr := []
  init : Bool := false
  protocoldetect : Bool := false
  takeconn : Bool := false
  connready : Bool := false
  event : Bool := false
  signal : Bool := false
  timerfreq : UInt16 := 0
  timer : Bool := false
  shutdown : Bool := false
deriving DecidableEq

/-- An item of the list, with the address that a pointer to its module holds. -/
structure Item where
  addr : Nat
  filename : CStr
  status : Modstatus := {}
  dlhandle : Bool := false
  firstproc : Bool := false
  module : Context := {}
  lasttimerrun : Nat := 0
  startuppri : Int
deriving DecidableEq

/-- The handle is what the dynamic linker gave, and so is the first procedure. -/
def Item.sethandle (handle : Int) (mi : Item) : Item := { mi with dlhandle := handle != 0 }
def Item.setfirstproc (sym : Int) (mi : Item) : Item := { mi with firstproc := sym != 0 }

/-- The module has an error, and no other flag. -/
def Item.fail (mi : Item) : Item := { mi with status := { error := true } }

def Item.orerror (mi : Item) : Item := { mi with status := { mi.status with error := true } }

def Item.orloaded (mi : Item) : Item := { mi with status := { mi.status with loaded := true } }

def Item.settimer (now : Nat) (mi : Item) : Item := { mi with lasttimerrun := now }

def Item.unload (mi : Item) : Item := { mi with status := { mi.status with loaded := false }, lasttimerrun := 0 }

/-- What is asked of the code of a module, of the dynamic linker or of the allocator. -/
inductive Proc where
  | dlopen
  | dlsym
  | dlclose
  | firstproc
  | init
  | event (source : Option Nat) (event : Nat)
  | signal (source : Option Nat) (signum : Nat)
  | timer
  | protocoldetect (conn : Nat)
  | takeconn (conn : Nat)
  | connready (conn : Nat)
  | shutdown
  | memoryfree
deriving DecidableEq

/-- The procedures that a module has for what happens while it is loaded. -/
def Proc.handler : Proc → Bool
  | event _ _ | signal _ _ | timer | protocoldetect _ | takeconn _ | connready _ => true
  | _ => false

/-- A call: the item as it was then, the procedure, the answer and the time. -/
structure Called where
  mi : Item
  proc : Proc
  ret : Int
  time : Nat
deriving DecidableEq

/-- The list, who owns each connection, the clock, and the calls so far. -/
structure Modlist where
  items : List Item := []
  next : Nat := 0
  owner : Nat → Option Nat := fun _ => none
  now : Nat := 0
  log : List Called := []

/-- The ways for the core to die: the stack is exhausted, or a timer without a procedure is due. -/
inductive Fault where
  | overflow
  | nulltimer

/-- A crash, and what was there. -/
structure Crash where
  fault : Fault
  list : Modlist

abbrev Sys := Prog Crash Modlist

def die (fault : Fault) : Sys Unit := fun w => .error ⟨fault, w⟩

/-! ## The code of the modules -/

/-- What a module may do when it is called. -/
inductive Deed where
  | write (f : Context → Context)
  | own (conn : Nat) (owner : Option Nat)
  | wait (seconds : Nat)
  | event (source : Option Nat) (event : Nat)
  | signal (source : Option Nat) (signum : Nat)

structure Reaction where
  deeds : List Deed := []
  ret : Int := 0

/-- What the code of the modules does in a call, after the calls so far. -/
abbrev Code := List Called → Item → Proc → Reaction

/-! ## Items -/

def Modlist.find? (w : Modlist) (addr : Nat) : Option Item := w.items.find? fun mi => mi.addr == addr

/-- The item at an address has a property. -/
def is (addr : Nat) (p : Item → Bool) : Sys Bool := Prog.read fun w => (w.find? addr).any p

/-- Change the item at an address. -/
def change (addr : Nat) (f : Item → Item) (l : List Item) : List Item :=
  l.map fun mi => if mi.addr = addr then f mi else mi

def modify (addr : Nat) (f : Item → Item) : Sys Unit :=
  Prog.update fun w => { w with items := change addr f w.items }

/-- The loop over the list. -/
def forEach (body : Nat → Sys Unit) : Sys Unit := do
  let addrs ← Prog.read fun w => w.items.map (·.addr)
  Prog.each body addrs

/-! ## Calls and broadcasts -/

/-- A call is entered into the log. -/
def enter (code : Code) (addr : Nat) (proc : Proc) : Sys Reaction := fun w =>
  match w.find? addr with
  | none => .ok ({}, w)
  | some mi => .ok (code w.log mi proc, { w with log := w.log ++ [⟨mi, proc, (code w.log mi proc).ret, w.now⟩] })

/-- A call that runs no code of a module. -/
def ask (code : Code) (addr : Nat) (proc : Proc) : Sys Int := (·.ret) <$> enter code addr proc

/-- Call the procedure of every loaded module that has it, but for the source. -/
def broadcast (perform : Nat → Proc → Sys Int) (set : Context → Bool) (proc : Proc) (source : Option Nat) :
    Sys Unit :=
  forEach fun addr => do
    if source = some addr then pure ()
    else if !(← is addr (·.status.loaded)) then pure ()
    else if ← is addr fun mi => set mi.module then do
      let _ ← perform addr proc
    else pure ()

def nafeventv (perform : Nat → Proc → Sys Int) (source : Option Nat) (event : Nat) : Sys Unit :=
  broadcast perform (·.event) (.event source event) source

/-- Broadcast a signal to all modules. The source will usually be none. -/
def nafsignal (perform : Nat → Proc → Sys Int) (source : Option Nat) (signum : Nat) : Sys Unit :=
  broadcast perform (·.signal) (.signal source signum) source

def deed (perform : Nat → Proc → Sys Int) (addr : Nat) : Deed → Sys Unit
  | .write f => modify addr fun mi => { mi with module := f mi.module }
  | .own conn owner => Prog.update fun w => { w with owner := fun c => if c = conn then owner else w.owner c }
  | .wait seconds => Prog.update fun w => { w with now := w.now + seconds }
  | .event source event => nafeventv perform source event
  | .signal source signum => nafsignal perform source signum

/-- A call, with what the code of the module does in it. -/
def perform (code : Code) : Nat → Nat → Proc → Sys Int
  | 0, _, _ => fun w => .error ⟨.overflow, w⟩
  | depth + 1, addr, proc => do
      let reaction ← enter code addr proc
      Prog.each (deed (perform code depth) addr) reaction.deeds
      pure reaction.ret

section

variable (code : Code) (depth : Nat)

def genericoutput : Nat := 0x00000001

/-- `dvprintf` without a module. -/
def dvprintf : Sys Unit := nafeventv (perform code depth) none genericoutput

/-! ## The list -/

def maxfilenamelen : Nat := 256

/-- A new item, if its name is short enough and there is memory. User-loaded modules come last. -/
def newmi (w : Modlist) (fn : CStr) (granted : Bool) : Option Item :=
  if fn.length > maxfilenamelen ∨ !granted then none
  else some { addr := w.next, filename := fn, startuppri := 0 }

def add (fn : CStr) (granted : Bool) : Sys Unit :=
  Prog.update fun w =>
    match newmi w fn granted with
    | none => w
    | some mi => { w with items := mi :: w.items, next := w.next + 1 }

/-- Same as above, but appends instead of prepends. -/
def addLast (fn : CStr) (granted : Bool) : Sys Unit :=
  Prog.update fun w =>
    match newmi w fn granted with
    | none => w
    | some mi => { w with items := w.items ++ [mi], next := w.next + 1 }

def registerresident (name : CStr) (startuppri : Int) (granted : Bool) : Sys Unit :=
  Prog.update fun w =>
    if granted then
      let mi : Item :=
        { addr := w.next
          filename := (lit "resident/" ++ name).take maxfilenamelen
          firstproc := true
          startuppri
          status := { resident := true } }
      { w with items := mi :: w.items, next := w.next + 1 }
    else w

/-! ## Loading and unloading -/

/-- The shared object of a module that is not resident, and its first procedure. -/
def dynload (addr : Nat) : Sys Bool := do
  let handle ← ask code addr .dlopen
  modify addr (Item.sethandle handle)
  if handle = 0 then do
    dvprintf code depth
    modify addr Item.fail
    pure false
  else do
    let sym ← ask code addr .dlsym
    modify addr (Item.setfirstproc sym)
    if sym = 0 then do
      dvprintf code depth
      let _ ← ask code addr .dlclose
      modify addr Item.fail
      pure false
    else pure true

/-- The module is not started; its shared object is closed. -/
def refused (addr : Nat) : Sys Unit := do
  dvprintf code depth
  if ← is addr (·.dlhandle) then do
    let _ ← ask code addr .dlclose
  else pure ()
  modify addr Item.orerror

/-- The module is loaded. -/
def accepted (addr : Nat) : Sys Unit := do
  modify addr Item.orloaded
  if ← is addr (·.module.init) then do
    let _ ← perform code depth addr .init
  else pure ()
  dvprintf code depth
  let now ← Prog.read fun w => w.now
  modify addr (Item.settimer now)

/-- What `load` does from the first procedure on. -/
def startmodule (addr : Nat) : Sys Unit := do
  let some ← is addr (·.firstproc)
  let ret ← if some then perform code depth addr .firstproc else pure 0
  if !some || ret != 0 then refused code depth addr else accepted code depth addr

def load (addr : Nat) : Sys Unit := do
  if ← is addr (·.status.loaded) then pure ()
  else if ← is addr (·.status.resident) then startmodule code depth addr
  else if ← dynload code depth addr then startmodule code depth addr
  else pure ()

def primax : Int := 5

/-- The priorities from the highest down to `minpri`. -/
def passes (minpri : Int) : List Int := (List.range (primax + 1 - minpri).toNat).map fun k : Nat => primax - k

def loadall (minpri : Int) : Sys Unit :=
  Prog.each (fun pri => forEach fun addr => do
    if !(← is addr fun mi => mi.startuppri == pri) then pure ()
    else load code depth addr) (passes minpri)

/-- What is left of unloading after `shutdown`. -/
def release (addr : Nat) : Sys Unit := do
  if ← is addr (·.dlhandle) then do
    let _ ← ask code addr .dlclose
  else pure ()
  modify addr Item.unload
  let _ ← ask code addr .memoryfree

def unloadall : Sys Unit :=
  forEach fun addr => do
    if !(← is addr (·.status.loaded)) then pure ()
    else do
      if ← is addr (·.module.shutdown) then do
        let _ ← perform code depth addr .shutdown
      else pure ()
      release code addr

/-! ## Timers -/

/-- The module has a timer, and it was not run for long enough. -/
def due (now : Nat) (mi : Item) : Bool :=
  mi.module.timerfreq != 0 && decide ((now : Int) - mi.lasttimerrun ≥ mi.module.timerfreq.toNat)

/-- This is run by the main loop every so many seconds. -/
def timerrun : Sys Unit :=
  forEach fun addr => do
    if !(← is addr (·.status.loaded)) then pure ()
    else do
      let now ← Prog.read fun w => w.now
      if ← is addr (due now) then do
        if ← is addr (·.module.timer) then do
          let _ ← perform code depth addr .timer
        else die .nulltimer
        let now ← Prog.read fun w => w.now
        modify addr (Item.settimer now)
      else pure ()

/-! ## Protocol detection -/

def owned (conn : Nat) : Sys Bool := Prog.read fun w => (w.owner conn).isSome

def setowner (conn addr : Nat) : Sys Unit :=
  Prog.update fun w => { w with owner := fun c => if c = conn then some addr else w.owner c }

def detectLoop (mod : Option Nat) (conn : Nat) : List Nat → Sys Int
  | [] => pure 0
  | addr :: rest => do
      if ← owned conn then pure 0
      else if mod = some addr then detectLoop mod conn rest
      else if !(← is addr (·.status.loaded)) then detectLoop mod conn rest
      else if !(← is addr (·.module.protocoldetect)) then detectLoop mod conn rest
      else do
        let ret ← perform code depth addr (.protocoldetect conn)
        if ret = 1 then do
          setowner conn addr
          if ← is addr (·.module.takeconn) then do
            let taken ← perform code depth addr (.takeconn conn)
            pure (if taken = -1 then -1 else 1)
          else pure 1
        else if ret = -1 then pure (-1)
        else detectLoop mod conn rest

def protocoldetect (mod : Option Nat) (conn : Nat) : Sys Int := do
  let addrs ← Prog.read fun w => w.items.map (·.addr)
  detectLoop code depth mod conn addrs

def timeoutLoop (mod : Option Nat) (conn : Nat) : List Nat → Sys Int
  | [] => pure 0
  | addr :: rest => do
      if ← owned conn then pure 0
      else if mod = some addr then timeoutLoop mod conn rest
      else if !(← is addr (·.status.loaded)) then timeoutLoop mod conn rest
      else if !(← is addr (·.module.connready)) then timeoutLoop mod conn rest
      else do
        let ret ← perform code depth addr (.connready conn)
        if ret = 1 then do
          setowner conn addr
          pure 1
        else timeoutLoop mod conn rest

def protocoldetecttimeout (mod : Option Nat) (conn : Nat) : Sys Int := do
  let addrs ← Prog.read fun w => w.items.map (·.addr)
  timeoutLoop code depth mod conn addrs

/-! ## Runs -/

/-- What the rest of the process asks of the list, in any order, one after the other. The
core's shutdown method and the handler of SIGINT unload from inside a call and then exit; that
is not among the inputs. -/
inductive Input where
  | add (fn : CStr) (granted : Bool)
  | addLast (fn : CStr) (granted : Bool)
  | registerresident (name : CStr) (startuppri : Int) (granted : Bool)
  | loadall (minpri : Int)
  | unloadall
  | event (source : Option Nat) (event : Nat)
  | signal (source : Option Nat) (signum : Nat)
  | timerrun
  | protocoldetect (mod : Option Nat) (conn : Nat)
  | protocoldetecttimeout (mod : Option Nat) (conn : Nat)
  | newconn (conn : Nat)
  | pass (seconds : Nat)

def handle : Input → Sys Unit
  | .add fn granted => add fn granted
  | .addLast fn granted => addLast fn granted
  | .registerresident name startuppri granted => registerresident name startuppri granted
  | .loadall minpri => loadall code depth minpri
  | .unloadall => unloadall code depth
  | .event source event => nafeventv (perform code depth) source event
  | .signal source signum => nafsignal (perform code depth) source signum
  | .timerrun => timerrun code depth
  | .protocoldetect mod conn => do
      let _ ← protocoldetect code depth mod conn
  | .protocoldetecttimeout mod conn => do
      let _ ← protocoldetecttimeout code depth mod conn
  | .newconn conn => Prog.update fun w => { w with owner := fun c => if c = conn then none else w.owner c }
  | .pass seconds => Prog.update fun w => { w with now := w.now + seconds }

def step (i : Input) (w : Modlist) : Except Crash Modlist := (·.2) <$> handle code depth i w

end

/-- A list without modules. -/
def Start (w : Modlist) : Prop := w.items = [] ∧ w.log = []

end Timps.Naf.Modules
