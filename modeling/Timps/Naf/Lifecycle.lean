-- SUMMARY: The life of a module: what the core may ask of it and when, in every run and whatever the modules do.
import Timps.Base.Triple
import Timps.Naf.Modules

/-!
# The life of a module

`Life` says in which order the core asks things of one module: its object is opened, its
first procedure is called, then `init` if there is one, then the handlers, then `shutdown` if
there is one, and its object is closed. Until then it counts as loaded, so that handlers are
called during `shutdown` as well. The life of an item is what its entries in the log make of
it. `Lives` connects it to the flags of the item; the modules' own code keeps it.
-/

namespace Timps.Naf.Modules

open Prog (Triple)

/-! ## Lives -/

/-- Where a module is in its life. -/
inductive Life where
  | unloaded
  | opened
  | bound
  | failed
  | started
  | up
  | stopping
  | closed
deriving DecidableEq

/-- The procedure is there, and a broadcast does not come back to its source. -/
def Proc.reaches (mi : Item) : Proc → Bool
  | .firstproc => mi.firstproc
  | .init => mi.module.init
  | .event source _ => mi.module.event && source != some mi.addr
  | .signal source _ => mi.module.signal && source != some mi.addr
  | .timer => mi.module.timer
  | .protocoldetect _ => mi.module.protocoldetect
  | .takeconn _ => mi.module.takeconn
  | .connready _ => mi.module.connready
  | .shutdown => mi.module.shutdown
  | .dlopen | .dlsym | .dlclose | .memoryfree => true

/-- A module without `init` is up as soon as it is started. -/
def Life.settled (mi : Item) (s : Life) : Life := if s = .started ∧ !mi.module.init then .up else s

/-- What a module is after a call, if the call may be made. -/
def Life.next (s : Life) (e : Called) : Option Life :=
  if !e.proc.reaches e.mi then none
  else
    match s.settled e.mi, e.proc with
    | .unloaded, .dlopen => if e.mi.status.resident then none else some (if e.ret = 0 then .unloaded else .opened)
    | .opened, .dlsym => some (if e.ret = 0 then .failed else .bound)
    | .bound, .firstproc => some (if e.ret = 0 then .started else .failed)
    | .failed, .dlclose => some .unloaded
    | .unloaded, .firstproc => if e.mi.status.resident then some (if e.ret = 0 then .started else .unloaded) else none
    | .started, .init => some .up
    | .up, .shutdown => some .stopping
    | .up, .dlclose => if e.mi.status.resident || e.mi.module.shutdown then none else some .closed
    | .stopping, .dlclose => if e.mi.status.resident then none else some .closed
    | .up, .memoryfree => if e.mi.status.resident && !e.mi.module.shutdown then some .unloaded else none
    | .stopping, .memoryfree => if e.mi.status.resident then some .unloaded else none
    | .closed, .memoryfree => some .unloaded
    | .up, proc => if proc.handler then some .up else none
    | .stopping, proc => if proc.handler then some .stopping else none
    | _, _ => none

/-- The life of the item at an address. -/
def life (log : List Called) (addr : Nat) : Option Life :=
  (log.filter fun e => e.mi.addr == addr).foldlM Life.next .unloaded

variable {log : List Called} {e : Called} {addr : Nat} {mi : Item} {s : Life}

/-- A call of a module takes its life one step on. -/
theorem life_snoc (h : e.mi.addr = addr) : life (log ++ [e]) addr = (life log addr).bind (·.next e) := by
  have hself : [e].filter (fun e => e.mi.addr == addr) = [e] := by simpa using h
  rw [life, List.filter_append, hself, List.foldlM_append]
  exact Option.bind_congr fun s _ => by simp

/-- A call of another module is no part of it. -/
theorem life_snoc_other (h : e.mi.addr ≠ addr) : life (log ++ [e]) addr = life log addr := by
  have hother : [e].filter (fun e => e.mi.addr == addr) = [] := by simpa using h
  rw [life, List.filter_append, hother, List.append_nil, life]

/-- A handler may be called of a module that is up or stopping, and leaves it there. -/
theorem next_handler (hhandler : e.proc.handler) (hreaches : e.proc.reaches e.mi)
    (hs : s.settled e.mi = .up ∨ s.settled e.mi = .stopping) : s.next e = some (s.settled e.mi) := by
  unfold Life.next
  rw [hreaches]
  generalize e.proc = proc at hhandler
  obtain hs | hs := hs <;> rw [hs] <;> cases proc <;> first | rfl | cases hhandler

/-! ## The log -/

/-- The call begins an attempt to load the module. -/
def Called.attempt (e : Called) : Bool := e.proc == .dlopen || (e.proc == .firstproc && e.mi.status.resident)

/-- The call is one that a timer is counted from. -/
def Called.clocks (e : Called) : Bool := e.proc == .firstproc || e.proc == .timer

/-- If the later call is a timer, the earlier one was as long ago as its frequency says. -/
def Spaced (e' e : Called) : Prop :=
  e.proc = .timer → e'.mi.addr = e.mi.addr → e'.clocks → e'.time + e.mi.module.timerfreq.toNat ≤ e.time

/-- Every module is somewhere in its life, and no timer was early. -/
structure Lawful (w : Modlist) : Prop where
  lives : ∀ addr, (life w.log addr).isSome
  spaced : w.log.Pairwise Spaced

/-! ## Stages -/

/-- What of an item the code of the modules does not change. -/
def Item.frozen (mi : Item) : Item := { mi with module := {} }

/-- A resident module has no object, a loaded one that is not resident has one. -/
structure Item.Sound (mi : Item) : Prop where
  resident : mi.status.resident → mi.firstproc ∧ !mi.dlhandle
  dynamic : mi.status.loaded → !mi.status.resident → mi.dlhandle

/-- Where an operation is: the items as far as the modules leave them alone, the attempts to
load one, the item whose life its flags do not tell, whether it would not do to broadcast
now, the modules whose code is running, and the module whose timer is not set. -/
structure Stage where
  items : List Item
  tried : List Nat
  busy : Option (Nat × Life) := none
  deaf : Bool := false
  acting : List Nat := []
  unclocked : Option Nat := none

/-- The flags of an item tell its life, unless it is busy. -/
structure Stage.Fits (g : Stage) (mi : Item) (s : Life) : Prop where
  busy : ∀ s', g.busy = some (mi.addr, s') → s = s' ∧ (mi.status.loaded → s = .stopping ∨ g.deaf)
  idle : (∀ s', g.busy ≠ some (mi.addr, s')) → if mi.status.loaded then s.settled mi = .up else s = .unloaded

structure Lives (g : Stage) (w : Modlist) : Prop where
  items : w.items.map Item.frozen = g.items
  sound : ∀ mi ∈ g.items, mi.Sound
  nodup : (w.items.map (·.addr)).Nodup
  below : ∀ mi ∈ w.items, mi.addr < w.next
  known : ∀ e ∈ w.log, ∃ mi ∈ w.items, mi.addr = e.mi.addr
  fits : ∀ mi ∈ w.items, ∃ s, life w.log mi.addr = some s ∧ g.Fits mi s
  acting : ∀ a ∈ g.acting, ∃ s, life w.log a = some s ∧ (g.busy = some (a, s) ∨ s = .up)
  tried : (w.log.filter Called.attempt).map (·.mi.addr) = g.tried
  past : ∀ e ∈ w.log, e.time ≤ w.now
  clocked : ∀ mi ∈ w.items, g.unclocked ≠ some mi.addr → mi.status.loaded →
    ∀ e ∈ w.log, e.mi.addr = mi.addr → e.clocks → e.time ≤ mi.lasttimerrun
  spaced : w.log.Pairwise Spaced

variable {g g' : Stage} {w : Modlist} {mi' : Item}

/-- Where addresses are apart, a module of the list is the one that its address finds. -/
theorem find?_of_mem (hnodup : (w.items.map (·.addr)).Nodup) (hmi : mi ∈ w.items) : w.find? mi.addr = some mi := by
  unfold Modlist.find?
  generalize w.items = l at hnodup hmi
  induction l with
  | nil => cases hmi
  | cons first l ih =>
      rw [List.map_cons, List.nodup_cons] at hnodup
      obtain rfl | hmi := List.mem_cons.1 hmi
      · exact List.find?_cons_of_pos (beq_self_eq_true _)
      · have hne : first.addr ≠ mi.addr := fun h => hnodup.1 (h ▸ List.mem_map_of_mem hmi)
        rw [List.find?_cons_of_neg (by simpa using hne)]
        exact ih hnodup.2 hmi

theorem find?_some (h : w.find? addr = some mi) : mi ∈ w.items ∧ mi.addr = addr :=
  ⟨List.mem_of_find?_eq_some h, by simpa using List.find?_some h⟩

theorem Lives.find (h : Lives g w) (hmi : mi ∈ w.items) : w.find? mi.addr = some mi := find?_of_mem h.nodup hmi

/-- Two modules of the list at one address are one. -/
theorem Lives.eq_of_addr (h : Lives g w) (hmi : mi ∈ w.items) (hmi' : mi' ∈ w.items) (heq : mi.addr = mi'.addr) :
    mi = mi' := Option.some.inj ((h.find hmi).symm.trans (heq ▸ h.find hmi'))

/-- A module that was never called is not loaded. -/
theorem life_of_unknown (h : ∀ e ∈ log, e.mi.addr ≠ addr) : life log addr = some .unloaded := by
  have hnone : log.filter (fun e => e.mi.addr == addr) = [] := by
    simpa [List.filter_eq_nil_iff] using h
  rw [life, hnone]
  rfl

/-- Where every module of the list is where its flag says, the calls so far were lawful. -/
theorem Lives.lawful (h : Lives g w) : Lawful w where
  lives := by
    intro addr
    by_cases hknown : ∃ mi ∈ w.items, mi.addr = addr
    · obtain ⟨mi, hmi, rfl⟩ := hknown
      obtain ⟨s, hs, -⟩ := h.fits mi hmi
      rw [hs]
      rfl
    · rw [life_of_unknown fun e he (heq : e.mi.addr = addr) => hknown (heq ▸ h.known e he)]
      rfl
  spaced := h.spaced

/-! ## Steps -/

/-- A call is entered: what it needs of the life of its module and of the timers. -/
theorem Lives.enter (h : Lives g w) (hmi : mi ∈ w.items) {proc : Proc} {ret : Int} {s s' : Life}
    (hs : life w.log mi.addr = some s) (hnext : s.next ⟨mi, proc, ret, w.now⟩ = some s')
    (hitems : g'.items = g.items) (hfits : g'.Fits mi s')
    (hother : ∀ mi', mi'.addr ≠ mi.addr → ∀ s, g.Fits mi' s → g'.Fits mi' s)
    (hacting : ∀ a ∈ g'.acting, if a = mi.addr then g'.busy = some (a, s') ∨ s' = .up else
      a ∈ g.acting ∧ ∀ s, g.busy = some (a, s) → g'.busy = some (a, s))
    (htried : g'.tried = g.tried ++ if Called.attempt ⟨mi, proc, ret, w.now⟩ then [mi.addr] else [])
    (hclock : ∀ a, g'.unclocked ≠ some a → g.unclocked ≠ some a ∧
      (a = mi.addr → Called.clocks ⟨mi, proc, ret, w.now⟩ → mi.status.loaded = false))
    (hdue : proc = .timer → mi.status.loaded ∧ g.unclocked ≠ some mi.addr ∧ due w.now mi) :
    Lives g' { w with log := w.log ++ [⟨mi, proc, ret, w.now⟩] } where
  items := h.items.trans hitems.symm
  sound := hitems ▸ h.sound
  nodup := h.nodup
  below := h.below
  known := by
    intro e he
    obtain he | he := List.mem_append.1 he
    · exact h.known e he
    · cases List.mem_singleton.1 he
      exact ⟨mi, hmi, rfl⟩
  fits := by
    intro mi' hmi'
    -- only the life of the module that is called moves on
    by_cases heq : mi.addr = mi'.addr
    · cases h.eq_of_addr hmi hmi' heq
      exact ⟨s', by rw [life_snoc rfl, hs]; exact hnext, hfits⟩
    · obtain ⟨s, hs, hfit⟩ := h.fits mi' hmi'
      exact ⟨s, by rw [life_snoc_other heq, hs], hother mi' (Ne.symm heq) s hfit⟩
  acting := by
    intro a ha
    have hact := hacting a ha
    by_cases heq : a = mi.addr
    · rw [if_pos heq] at hact
      subst heq
      exact ⟨s', by rw [life_snoc rfl, hs]; exact hnext, hact⟩
    · rw [if_neg heq] at hact
      obtain ⟨s, hs, hup⟩ := h.acting a hact.1
      exact ⟨s, by rw [life_snoc_other (Ne.symm heq), hs], hup.imp_left (hact.2 s)⟩
  tried := by
    rw [List.filter_append, List.map_append, h.tried, htried]
    congr 1
    cases hattempt : Called.attempt ⟨mi, proc, ret, w.now⟩ <;> simp [hattempt]
  past := by
    intro e he
    obtain he | he := List.mem_append.1 he
    · exact h.past e he
    · cases List.mem_singleton.1 he
      exact Nat.le_refl _
  clocked := by
    intro mi' hmi' hun hloaded e he heq hclocks
    obtain ⟨hun, hself⟩ := hclock mi'.addr hun
    obtain he | he := List.mem_append.1 he
    · exact h.clocked mi' hmi' hun hloaded e he heq hclocks
    · cases List.mem_singleton.1 he
      cases h.eq_of_addr hmi hmi' heq
      rw [hself rfl hclocks] at hloaded
      cases hloaded
  spaced := by
    refine List.pairwise_append.2 ⟨h.spaced, List.pairwise_singleton _ _, fun e he e' he' htimer heq hclocks => ?_⟩
    cases List.mem_singleton.1 he'
    obtain ⟨hloaded, hun, hdue⟩ := hdue htimer
    have hlast := h.clocked mi hmi hun hloaded e he heq hclocks
    simp only [due, Bool.and_eq_true, decide_eq_true_eq] at hdue
    have htime := hdue.2
    show e.time + mi.module.timerfreq.toNat ≤ w.now
    omega

/-- The module is loaded and has the procedure; if it is the timer, it is due. -/
structure Ready (g : Stage) (addr : Nat) (proc : Proc) (un : Option Nat) (w : Modlist) (mi : Item) : Prop where
  mem : mi ∈ w.items
  here : mi.addr = addr
  loaded : mi.status.loaded
  reaches : proc.reaches mi
  clock : if proc = .timer then un = some addr ∧ g.unclocked = none ∧ due w.now mi else un = g.unclocked

/-- A handler may be called of a loaded module, and its life stays where it is. -/
theorem Lives.handler {proc : Proc} {un : Option Nat} (h : Lives g w) (hready : Ready g addr proc un w mi)
    (hdeaf : g.deaf = false) (hhandler : proc.handler) (ret : Int) :
    Lives { g with acting := addr :: g.acting, unclocked := un }
      { w with log := w.log ++ [⟨mi, proc, ret, w.now⟩] } := by
  obtain ⟨hmi, rfl, hloaded, hreaches, hclock⟩ := hready
  obtain ⟨s, hs, hfits⟩ := h.fits mi hmi
  have hattempt : Called.attempt ⟨mi, proc, ret, w.now⟩ = false := by
    cases proc <;> first | rfl | cases hhandler
  have hstopping : ∀ s', g.busy = some (mi.addr, s') → s = .stopping := by
    intro s' hs'
    obtain hstopping | hmute := (hfits.busy s' hs').2 hloaded
    · exact hstopping
    · rw [hdeaf] at hmute
      cases hmute
  -- a handler is reached by a module that is up, or by one that is being shut down
  have hsettled : s.settled mi = .up ∨ s.settled mi = .stopping := by
    by_cases hbusy : ∃ s', g.busy = some (mi.addr, s')
    · obtain ⟨s', hbusy⟩ := hbusy
      rw [hstopping s' hbusy]
      exact .inr rfl
    · have hidle := hfits.idle fun s' hs' => hbusy ⟨s', hs'⟩
      rw [if_pos hloaded] at hidle
      exact .inl hidle
  have hbusy : ∀ s', g.busy = some (mi.addr, s') → s.settled mi = s' := by
    intro s' hs'
    rw [← (hfits.busy s' hs').1, hstopping s' hs']
    rfl
  have hup : (∀ s', g.busy ≠ some (mi.addr, s')) → s.settled mi = .up := by
    intro hidle
    have hlife := hfits.idle hidle
    rwa [if_pos hloaded] at hlife
  refine h.enter hmi hs (next_handler hhandler hreaches hsettled) rfl ⟨fun s' hs' => ?_, fun hidle => ?_⟩
    (fun mi' _ s hfit => ⟨hfit.busy, hfit.idle⟩) (fun a ha => ?_) (by simp [hattempt]) (fun a ha => ?_)
    fun htimer => ?_
  · have heq := hbusy s' hs'
    exact ⟨heq, fun _ => .inl (by rw [hstopping s' hs']; rfl)⟩
  · rw [if_pos hloaded, hup hidle]
    rfl
  · split
    · rename_i heq
      cases hb : g.busy with
      | none => exact .inr (hup fun s' hs' => by rw [hb] at hs'; cases hs')
      | some p =>
          obtain ⟨b, s'⟩ := p
          by_cases hba : b = mi.addr
          · subst hba
            rw [heq, hbusy s' hb]
            exact .inl rfl
          · exact .inr (hup fun s'' hs' => hba (by rw [hb] at hs'; injection hs' with hs'; injection hs'))
    · rename_i hne
      exact ⟨(List.mem_cons.1 ha).resolve_left hne, fun s hs => hs⟩
  · split at hclock
    · obtain ⟨rfl, hnone, -⟩ := hclock
      refine ⟨fun h => ?_, fun heq _ => absurd (congrArg some heq.symm) ha⟩
      rw [hnone] at h
      cases h
    · rename_i hne
      rw [← hclock]
      refine ⟨ha, fun _ hclocks => ?_⟩
      simp only [Called.clocks, Bool.or_eq_true, beq_iff_eq] at hclocks
      obtain rfl | htimer := hclocks
      · cases hhandler
      · exact absurd htimer hne
  · rw [if_pos htimer] at hclock
    obtain ⟨-, hnone, hdue⟩ := hclock
    refine ⟨hloaded, fun h => ?_, hdue⟩
    rw [hnone] at h
    cases h

theorem mem_change {f : Item → Item} {l : List Item} (h : mi ∈ change addr f l) :
    ∃ mi' ∈ l, (mi'.addr = addr ∧ mi = f mi') ∨ (mi'.addr ≠ addr ∧ mi = mi') := by
  obtain ⟨mi', hmi', rfl⟩ := List.mem_map.1 h
  by_cases heq : mi'.addr = addr
  · exact ⟨mi', hmi', .inl ⟨heq, if_pos heq⟩⟩
  · exact ⟨mi', hmi', .inr ⟨heq, if_neg heq⟩⟩

theorem addrs_change {f : Item → Item} (haddr : ∀ mi, (f mi).addr = mi.addr) (l : List Item) :
    (change addr f l).map (·.addr) = l.map (·.addr) := by
  rw [change, List.map_map]
  refine List.map_congr_left fun mi _ => ?_
  simp only [Function.comp]
  split
  · exact haddr mi
  · rfl

/-- What a change does to the part of a module that its code cannot touch. -/
theorem frozen_change {f f' : Item → Item} (hf : ∀ mi, (f mi).frozen = f' mi.frozen) (l : List Item) :
    (change addr f l).map Item.frozen = change addr f' (l.map Item.frozen) := by
  rw [change, change, List.map_map, List.map_map]
  refine List.map_congr_left fun mi _ => ?_
  simp only [Function.comp, apply_ite Item.frozen, hf]
  rfl

theorem mem_change_of_mem (addr : Nat) (f : Item → Item) {l : List Item} (hmi : mi ∈ l) :
    (if mi.addr = addr then f mi else mi) ∈ change addr f l := List.mem_map_of_mem hmi

/-- An item is changed: what it needs of the item's life and of its timer. -/
theorem Lives.change {f : Item → Item} (h : Lives g w) (f' : Item → Item) (haddr : ∀ mi, (f mi).addr = mi.addr)
    (hfrozen : ∀ mi, (f mi).frozen = f' mi.frozen) (hitems : g'.items = Modules.change addr f' g.items)
    (hsound : ∀ mi ∈ g.items, mi.addr = addr → (f' mi).Sound)
    (hfits : ∀ mi ∈ w.items, mi.addr = addr → ∀ s, life w.log addr = some s → g.Fits mi s → g'.Fits (f mi) s)
    (hother : ∀ mi, mi.addr ≠ addr → ∀ s, g.Fits mi s → g'.Fits mi s)
    (hacting : ∀ a ∈ g'.acting, ∃ s, life w.log a = some s ∧ (g'.busy = some (a, s) ∨ s = .up))
    (htried : g'.tried = g.tried) (hun : ∀ a, g'.unclocked ≠ some a → a ≠ addr → g.unclocked ≠ some a)
    (hclock : ∀ mi ∈ w.items, mi.addr = addr → g'.unclocked ≠ some addr → (f mi).status.loaded →
      ∀ e ∈ w.log, e.mi.addr = addr → e.clocks → e.time ≤ (f mi).lasttimerrun) :
    Lives g' { w with items := Modules.change addr f w.items } where
  items := by rw [frozen_change hfrozen, h.items, hitems]
  sound := by
    intro mi hmi
    rw [hitems] at hmi
    obtain ⟨mi', hmi', ⟨heq, rfl⟩ | ⟨-, rfl⟩⟩ := mem_change hmi
    · exact hsound mi' hmi' heq
    · exact h.sound mi hmi'
  nodup := by
    rw [addrs_change haddr]
    exact h.nodup
  below := by
    intro mi hmi
    obtain ⟨mi', hmi', ⟨-, rfl⟩ | ⟨-, rfl⟩⟩ := mem_change hmi
    · rw [haddr]
      exact h.below mi' hmi'
    · exact h.below mi hmi'
  known := by
    intro e he
    obtain ⟨mi, hmi, heq⟩ := h.known e he
    refine ⟨_, mem_change_of_mem addr f hmi, ?_⟩
    split
    · rwa [haddr]
    · exact heq
  fits := by
    intro mi hmi
    obtain ⟨mi', hmi', ⟨heq, rfl⟩ | ⟨hne, rfl⟩⟩ := mem_change hmi
    · obtain ⟨s, hs, hfit⟩ := h.fits mi' hmi'
      exact ⟨s, by rwa [haddr], hfits mi' hmi' heq s (heq ▸ hs) hfit⟩
    · obtain ⟨s, hs, hfit⟩ := h.fits mi hmi'
      exact ⟨s, hs, hother mi hne s hfit⟩
  acting := hacting
  tried := h.tried.trans htried.symm
  past := h.past
  clocked := by
    intro mi hmi hnun hloaded e he heq hclocks
    -- only the changed module has a new time of its last timer
    obtain ⟨mi', hmi', ⟨haddr', rfl⟩ | ⟨hne, rfl⟩⟩ := mem_change hmi
    · rw [haddr] at heq hnun
      exact hclock mi' hmi' haddr' (haddr' ▸ hnun) hloaded e he (heq.trans haddr') hclocks
    · exact h.clocked mi hmi' (hun mi.addr hnun hne) hloaded e he heq hclocks
  spaced := h.spaced

theorem change_self (l : List Item) : change addr id l = l := by
  unfold change
  simp

/-- A module whose code is running may change its own context. -/
theorem Lives.write (h : Lives g w) (hacting : addr ∈ g.acting) (f : Context → Context) :
    Lives g { w with items := Modules.change addr (fun mi => { mi with module := f mi.module }) w.items } := by
  refine h.change id (fun _ => rfl) (fun _ => rfl) (change_self _).symm (fun mi hmi _ => h.sound mi hmi) ?_
    (fun _ _ _ hfit => hfit) h.acting rfl (fun _ hun _ => hun) ?_
  · rintro mi hmi rfl s hs hfit
    refine ⟨hfit.busy, fun hidle => ?_⟩
    have hlife := hfit.idle hidle
    obtain ⟨s', hs', hup⟩ := h.acting mi.addr hacting
    cases hs.symm.trans hs'
    cases hup.resolve_left (hidle s)
    exact hlife
  · rintro mi hmi rfl hun hloaded
    exact h.clocked mi hmi hun hloaded

/-- The passing of time is no step of a life. -/
theorem Lives.wait (h : Lives g w) (seconds : Nat) : Lives g { w with now := w.now + seconds } :=
  { h with past := fun e he => Nat.le_add_right_of_le (h.past e he) }

theorem Lives.own (h : Lives g w) (owner : Nat → Option Nat) : Lives g { w with owner } := { h with }

/-! ## The code of the modules -/

/-- What is there when the core dies is lawful. -/
def Safe (c : Crash) : Prop := Lawful c.list

variable {α : Type} {P : Modlist → Prop} {x : Sys α} {Q : α → Modlist → Prop}

theorem is_triple (addr : Nat) (p : Item → Bool) :
    Triple Safe P (is addr p) fun b w => P w ∧ b = (w.find? addr).any p :=
  .read fun _ hw => ⟨hw, rfl⟩

theorem modify_triple {f : Item → Item} {Q : Modlist → Prop}
    (h : ∀ w, P w → Q { w with items := change addr f w.items }) :
    Triple Safe P (modify addr f) fun _ => Q := .update h

theorem forEach_keeps {I : Modlist → Prop} {body : Nat → Sys Unit}
    (h : ∀ addr, Triple Safe I (body addr) fun _ => I) : Triple Safe I (forEach body) fun _ => I :=
  .bind (Q := fun _ => I) (.read fun _ hw => hw) fun _ => .each _ fun addr _ => h addr

/-- A handler, but for the timer, that is called of a loaded module. -/
def Heard (call : Nat → Proc → Sys Int) : Prop :=
  ∀ g addr proc, g.deaf = false → proc.handler → proc ≠ .timer →
    Triple Safe (fun w => Lives g w ∧ ∃ mi, Ready g addr proc g.unclocked w mi) (call addr proc) fun _ => Lives g

/-- A broadcast calls the modules that the procedure reaches, each in its own life. -/
theorem broadcast_keeps {call : Nat → Proc → Sys Int} (hcall : Heard call) {set : Context → Bool} {proc : Proc}
    {source : Option Nat} (hdeaf : g.deaf = false) (hhandler : proc.handler) (htimer : proc ≠ .timer)
    (hset : ∀ mi, source ≠ some mi.addr → set mi.module → proc.reaches mi) :
    Triple Safe (Lives g) (broadcast call set proc source) fun _ => Lives g := by
  refine forEach_keeps fun addr => .ite (fun _ => .pure fun _ hw => hw) fun hsource => ?_
  refine .bind (is_triple addr _) fun loaded => .ite (fun _ => .pure fun _ hw => hw.1) fun hloaded => ?_
  refine .bind (is_triple addr _) fun has => .ite (fun hhas => ?_) fun _ => .pure fun _ hw => hw.1.1
  refine .bind (.pre (hcall g addr proc hdeaf hhandler htimer) ?_) fun _ => .pure fun _ hw => hw
  rintro w ⟨⟨hw, heq⟩, hset'⟩
  cases hfind : w.find? addr with
  | none => simp [hfind] at heq; simp [heq] at hloaded
  | some mi =>
      obtain ⟨hmi, rfl⟩ := find?_some hfind
      rw [hfind] at heq hset'
      refine ⟨hw, mi, hmi, rfl, ?_, hset mi hsource ?_, ?_⟩
      · simpa [heq] using hloaded
      · simpa [hhas] using hset'.symm
      · rw [if_neg htimer]

theorem nafeventv_keeps {call : Nat → Proc → Sys Int} (hcall : Heard call) (hdeaf : g.deaf = false)
    (source : Option Nat) (event : Nat) :
    Triple Safe (Lives g) (nafeventv call source event) fun _ => Lives g := by
  refine broadcast_keeps hcall hdeaf rfl (fun h => by cases h) fun mi hsource hset => ?_
  simp [Proc.reaches, hset, hsource]

theorem nafsignal_keeps {call : Nat → Proc → Sys Int} (hcall : Heard call) (hdeaf : g.deaf = false)
    (source : Option Nat) (signum : Nat) :
    Triple Safe (Lives g) (nafsignal call source signum) fun _ => Lives g := by
  refine broadcast_keeps hcall hdeaf rfl (fun h => by cases h) fun mi hsource hset => ?_
  simp [Proc.reaches, hset, hsource]

/-- Whatever a module does from inside a call, the others are called as their lives allow. -/
theorem deed_keeps {call : Nat → Proc → Sys Int} (hcall : Heard call) (hdeaf : g.deaf = false)
    (hacting : addr ∈ g.acting)
    (d : Deed) :
    Triple Safe (Lives g) (deed call addr d) fun _ => Lives g := by
  cases d with
  | write f => exact modify_triple fun w hw => hw.write hacting f
  | own conn owner => exact .update fun w hw => hw.own _
  | wait seconds => exact .update fun w hw => hw.wait seconds
  | event source event => exact nafeventv_keeps hcall hdeaf source event
  | signal source signum => exact nafsignal_keeps hcall hdeaf source signum

variable {code : Code} {depth : Nat}

theorem enter_triple {proc : Proc} {Q : Reaction → Modlist → Prop}
    (h : ∀ w, P w → ∃ mi, w.find? addr = some mi ∧
      Q (code w.log mi proc) { w with log := w.log ++ [⟨mi, proc, (code w.log mi proc).ret, w.now⟩] }) :
    Triple Safe P (enter code addr proc) Q := by
  intro w hw
  obtain ⟨mi, hfind, hq⟩ := h w hw
  have hrun : enter code addr proc w =
      .ok (code w.log mi proc, { w with log := w.log ++ [⟨mi, proc, (code w.log mi proc).ret, w.now⟩] }) := by
    unfold enter
    rw [hfind]
  refine ⟨fun c hc => ?_, fun r w' hr => ?_⟩
  · rw [hrun] at hc
    cases hc
  · rw [hrun] at hr
    cases hr
    exact hq

/-- A call does what its entry does: what happens inside of it keeps the lives. -/
theorem perform_triple {proc : Proc} (next : Int → Stage) (hdeed : ∀ g addr d, g.deaf = false → addr ∈ g.acting →
      Triple Safe (Lives g) (deed (perform code depth) addr d) fun _ => Lives g)
    (henter : Triple Safe P (enter code addr proc) fun r => Lives (next r.ret))
    (hdeaf : ∀ ret, (next ret).deaf = false) (hacting : ∀ ret, addr ∈ (next ret).acting) :
    Triple Safe P (perform code (depth + 1) addr proc) fun ret => Lives (next ret) :=
  .bind henter fun r => .bind (.each r.deeds fun d _ => hdeed _ addr d (hdeaf r.ret) (hacting r.ret)) fun _ =>
    .pure fun _ hw => hw

/-- Calls that are nested too deep end the run, and it was lawful up to there. -/
theorem overflow_triple {proc : Proc} (hP : ∀ w, P w → Lawful w) {Q : Int → Modlist → Prop} :
    Triple Safe P (perform code 0 addr proc) Q := by
  intro w hw
  refine ⟨fun c hc => ?_, fun r w' hr => by cases hr⟩
  cases hc
  exact hP w hw

/-- A handler is entered where the module is ready for it, and is then at work. -/
theorem enter_handler {proc : Proc} {un : Option Nat} (hdeaf : g.deaf = false) (hhandler : proc.handler) :
    Triple Safe (fun w => Lives g w ∧ ∃ mi, Ready g addr proc un w mi) (enter code addr proc) fun _ =>
      Lives { g with acting := addr :: g.acting, unclocked := un } := by
  refine enter_triple fun w hw => ?_
  obtain ⟨hw, mi, hready⟩ := hw
  exact ⟨mi, hready.here ▸ hw.find hready.mem, hw.handler hready hdeaf hhandler _⟩

/-- The modules that stop acting stay as they are. -/
theorem Lives.leave {acting : List Nat} (h : Lives { g with acting := addr :: acting } w) :
    Lives { g with acting := acting } w :=
  { h with
    fits := fun mi hmi => (h.fits mi hmi).imp fun _ hs => ⟨hs.1, hs.2.busy, hs.2.idle⟩
    acting := fun a ha => h.acting a (List.mem_cons_of_mem addr ha) }

/-- Calls of modules keep the lives at every depth; the induction is on the depth. -/
theorem heard (code : Code) (depth : Nat) : Heard (perform code depth) := by
  induction depth with
  | zero => exact fun g addr proc _ _ _ => overflow_triple fun w hw => hw.1.lawful
  | succ depth ih =>
      intro g addr proc hdeaf hhandler htimer
      have hcall : Triple Safe (fun w => Lives g w ∧ ∃ mi, Ready g addr proc g.unclocked w mi)
          (perform code (depth + 1) addr proc) fun _ => Lives { g with acting := addr :: g.acting } :=
        perform_triple (fun _ => { g with acting := addr :: g.acting })
          (fun g addr d hdeaf hacting => deed_keeps ih hdeaf hacting d) (enter_handler hdeaf hhandler)
          (fun _ => hdeaf)
          fun _ => List.mem_cons_self
      exact hcall.post fun _ w hw => hw.leave

end Timps.Naf.Modules
