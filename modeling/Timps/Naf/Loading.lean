-- SUMMARY: Loading and unloading a module takes it through its life, whatever the modules do meanwhile.
import Timps.Naf.Lifecycle

/-!
# Loading and unloading

While a module is loaded or unloaded its flags do not tell where it is in its life. The
operation takes it from one `Stage` to the next until they do again.
-/

namespace Timps.Naf.Modules

open Prog (Triple)

variable {code : Code} {depth : Nat} {g g' : Stage} {w : Modlist} {addr : Nat} {mi : Item} {s : Life}
  {P : Modlist → Prop}

/-! ## Calls -/

/-- A call of a procedure, at any depth of the stack. -/
theorem call_triple {proc : Proc} (next : Int → Stage) (hP : ∀ w, P w → Lawful w)
    (henter : Triple Safe P (enter code addr proc) fun r => Lives (next r.ret))
    (hdeaf : ∀ ret, (next ret).deaf = false) (hacting : ∀ ret, addr ∈ (next ret).acting) :
    Triple Safe P (perform code depth addr proc) fun ret => Lives (next ret) := by
  cases depth with
  | zero => exact overflow_triple hP
  | succ depth =>
      exact perform_triple next (fun g addr d hdeaf hacting => deed_keeps (heard code depth) hdeaf hacting d)
        henter hdeaf hacting

theorem ask_triple {proc : Proc} {Q : Int → Modlist → Prop}
    (henter : Triple Safe P (enter code addr proc) fun r => Q r.ret) : Triple Safe P (ask code addr proc) Q :=
  .map henter

theorem dvprintf_keeps (hdeaf : g.deaf = false) : Triple Safe (Lives g) (dvprintf code depth) fun _ => Lives g :=
  nafeventv_keeps (heard code depth) hdeaf none genericoutput

/-- A handler that the core calls of its own. -/
theorem handler_triple {proc : Proc} (un : Option Nat) (hdeaf : g.deaf = false) (hhandler : proc.handler) :
    Triple Safe (fun w => Lives g w ∧ ∃ mi, Ready g addr proc un w mi) (perform code depth addr proc) fun _ =>
      Lives { g with unclocked := un } := by
  have hcall : Triple Safe (fun w => Lives g w ∧ ∃ mi, Ready g addr proc un w mi) (perform code depth addr proc)
      fun _ =>
      Lives { g with acting := addr :: g.acting, unclocked := un } :=
    call_triple (fun _ => { g with acting := addr :: g.acting, unclocked := un }) (fun w hw => hw.1.lawful)
      (enter_handler hdeaf hhandler) (fun _ => hdeaf) fun _ => List.mem_cons_self
  exact hcall.post fun _ w hw => Lives.leave (g := { g with unclocked := un }) hw

/-! ## Reading -/

/-- What a test of an item says in front of a program. -/
theorem is_bind {p : Item → Bool} {α : Type} {x : Bool → Sys α} {Q : α → Modlist → Prop}
    (hfalse : Triple Safe (fun w => P w ∧ ∀ mi, w.find? addr = some mi → p mi = false) (x false) Q)
    (htrue : Triple Safe (fun w => P w ∧ ∃ mi, w.find? addr = some mi ∧ p mi) (x true) Q) :
    Triple Safe P (is addr p >>= x) Q := by
  refine .bind (is_triple addr p) fun b => ?_
  cases b with
  | false =>
      refine hfalse.pre fun w hw => ⟨hw.1, fun mi hmi => ?_⟩
      simpa [hmi] using hw.2.symm
  | true =>
      refine htrue.pre fun w hw => ⟨hw.1, ?_⟩
      cases hfind : w.find? addr with
      | none => simp [hfind] at hw
      | some mi => exact ⟨mi, rfl, by simpa [hfind] using hw.2.symm⟩

variable {m : Item}

/-- The item that the list has where the stage has `m`. -/
theorem Lives.item (h : Lives g w) (hm : m ∈ g.items) : ∃ mi ∈ w.items, mi.frozen = m ∧ mi.addr = m.addr := by
  rw [← h.items] at hm
  obtain ⟨mi, hmi, rfl⟩ := List.mem_map.1 hm
  exact ⟨mi, hmi, rfl, rfl⟩

/-- What the modules leave alone is read off the stage. -/
theorem frozen_bind {p : Item → Bool} {α : Type} {x : Bool → Sys α} {Q : α → Modlist → Prop}
    (hp : ∀ mi, p mi.frozen = p mi) (hP : ∀ w, P w → Lives g w) (hm : m ∈ g.items) (hx : Triple Safe P (x (p m)) Q) :
    Triple Safe P (is m.addr p >>= x) Q := by
  refine .bind (is_triple m.addr p) fun b => .fact (p := b = p m) (fun w hw => ?_) ?_
  · obtain ⟨mi, hmi, rfl, haddr⟩ := (hP w hw.1).item hm
    rw [hw.2, ← haddr, (hP w hw.1).find hmi, Option.any_some, hp]
  · rintro rfl
    exact hx.pre fun w hw => hw.1

/-! ## Moves -/

/-- The stage of an item that is being loaded or unloaded. -/
def moving (items : List Item) (tried : List Nat) (addr : Nat) (s : Life) (deaf : Bool) (un : Option Nat) : Stage :=
  { items, tried, busy := some (addr, s), deaf, unclocked := un }

variable {items : List Item} {tried : List Nat} {deaf deaf' : Bool} {un : Option Nat}

/-- The busy item goes on with its life. -/
theorem Lives.move (h : Lives (moving items tried mi.addr s deaf un) w) (hmi : mi ∈ w.items) {proc : Proc} {ret : Int}
    {s' : Life} (hnext : s.next ⟨mi, proc, ret, w.now⟩ = some s')
    (hheard : mi.status.loaded → s' = .stopping ∨ deaf')
    (hclock : Called.clocks ⟨mi, proc, ret, w.now⟩ → mi.status.loaded = false) (htimer : proc ≠ .timer) :
    Lives { moving items (tried ++ if Called.attempt ⟨mi, proc, ret, w.now⟩ then [mi.addr] else [])
        mi.addr s' deaf' un with
        acting := [mi.addr] } { w with log := w.log ++ [⟨mi, proc, ret, w.now⟩] } := by
  obtain ⟨s₀, hs, hfits⟩ := h.fits mi hmi
  obtain rfl : s₀ = s := (hfits.busy s rfl).1
  refine h.enter hmi hs hnext rfl ⟨fun s'' hs'' => ?_, fun hidle => absurd rfl (hidle s')⟩
    (fun mi' hne s hfit => ?_) (fun a ha => ?_)
    rfl (fun a ha => ⟨ha, fun _ => hclock⟩) fun ht => absurd ht htimer
  · cases hs''
    exact ⟨rfl, hheard⟩
  · refine ⟨fun s'' hs'' => ?_, fun _ => hfit.idle fun s'' hs'' => ?_⟩
    · injection hs'' with heq
      injection heq with heq
      exact absurd heq.symm hne
    · injection hs'' with heq
      injection heq with heq
      exact absurd heq.symm hne
  · obtain rfl := List.mem_singleton.1 ha
    rw [if_pos rfl]
    exact .inl rfl

theorem Lives.frozen_mem (h : Lives g w) (hmi : mi ∈ w.items) : mi.frozen ∈ g.items :=
  h.items ▸ List.mem_map_of_mem hmi

/-- A stage may be seen as another one that the lives fit. -/
theorem Lives.refit (h : Lives g w) (hitems : g'.items = g.items) (htried : g'.tried = g.tried)
    (hun : g'.unclocked = g.unclocked) (hacting : g'.acting = [])
    (hfits : ∀ mi ∈ w.items, ∀ s, life w.log mi.addr = some s → g.Fits mi s → g'.Fits mi s) : Lives g' w :=
  { h with
    items := h.items.trans hitems.symm
    sound := hitems ▸ h.sound
    fits := fun mi hmi => (h.fits mi hmi).imp fun s hs => ⟨hs.1, hfits mi hmi s hs.1 hs.2⟩
    acting := fun a ha => by rw [hacting] at ha; cases ha
    tried := h.tried.trans htried.symm
    clocked := fun mi hmi hne => h.clocked mi hmi (hun ▸ hne) }

theorem ne_of_addr {s s' : Life} (hne : mi.addr ≠ addr) : some (addr, s) ≠ some (mi.addr, s') := by
  intro heq
  injection heq with heq
  injection heq with heq
  exact hne heq.symm

/-- The item begins to move. -/
theorem Lives.begin (h : Lives { items, tried } w) (addr : Nat)
    (hs : ∀ mi ∈ w.items, mi.addr = addr → ∀ s', life w.log mi.addr = some s' →
        (if mi.status.loaded then s'.settled mi = .up else s' = .unloaded) →
      s' = s ∧ (mi.status.loaded → deaf)) :
    Lives (moving items tried addr s deaf none) w := by
  refine h.refit rfl rfl rfl rfl fun mi hmi s' hlife hfit => ?_
  have hidle := hfit.idle fun s'' hs'' => by cases hs''
  by_cases heq : mi.addr = addr
  · obtain ⟨rfl, hdeaf⟩ := hs mi hmi heq s' hlife hidle
    refine ⟨fun s'' hs'' => ?_, fun hidle => absurd (heq ▸ rfl) (hidle s')⟩
    cases hs''
    exact ⟨rfl, fun hloaded => .inr (hdeaf hloaded)⟩
  · exact ⟨fun s'' hs'' => absurd hs'' (ne_of_addr heq), fun _ => hidle⟩

/-- The item has come to rest. -/
theorem Lives.rest (h : Lives (moving items tried addr s deaf un) w)
    (hs : ∀ mi ∈ w.items, mi.addr = addr → if mi.status.loaded then s.settled mi = .up else s = .unloaded) :
    Lives { items, tried, unclocked := un } w := by
  refine h.refit rfl rfl rfl rfl fun mi hmi s' _ hfit => ?_
  refine ⟨fun s'' hs'' => (nomatch hs''), fun _ => ?_⟩
  by_cases heq : mi.addr = addr
  · obtain ⟨rfl, -⟩ := hfit.busy s (heq ▸ rfl)
    exact hs mi hmi heq
  · exact hfit.idle fun s'' => ne_of_addr heq

/-- The busy item is changed. -/
theorem Lives.set {f : Item → Item} (h : Lives (moving items tried addr s deaf un) w)
    (haddr : ∀ mi, (f mi).addr = mi.addr) (hfrozen : ∀ mi, (f mi).frozen = f mi.frozen)
    (hsound : ∀ mi ∈ items, mi.addr = addr → (f mi).Sound)
    (hheard : ∀ mi ∈ items, mi.addr = addr → (f mi).status.loaded → s = .stopping ∨ deaf')
    (hun : un = none ∨ un = some addr)
    {un' : Option Nat} (hclock : un' = some addr ∨ un' = none ∧ ∀ mi ∈ items,
      mi.addr = addr → (f mi).status.loaded = false) :
    Lives (moving (Modules.change addr f items) tried addr s deaf' un')
      { w with items := Modules.change addr f w.items } := by
  have hstatus : ∀ mi, (f mi).status = (f mi.frozen).status := fun mi => by rw [← hfrozen]; rfl
  refine h.change f haddr hfrozen rfl hsound ?_ ?_ (fun a ha => by cases ha) rfl ?_ ?_
  · rintro mi hmi rfl s₀ - hfit
    refine ⟨fun s'' hs'' => ?_, fun hidle => absurd (congrArg (fun a => some (a, s)) (haddr mi).symm) (hidle s)⟩
    have hs' : s'' = s := by
      injection hs'' with heq
      injection heq with _ heq
      exact heq.symm
    refine ⟨(hfit.busy s rfl).1.trans hs'.symm, fun hloaded => ?_⟩
    rw [(hfit.busy s rfl).1]
    exact hheard mi.frozen (h.frozen_mem hmi) rfl (hstatus mi ▸ hloaded)
  · exact fun mi hne s' hfit => ⟨fun s'' hs'' => absurd hs'' (ne_of_addr hne),
      fun _ => hfit.idle fun s'' => ne_of_addr hne⟩
  · intro a _ hne
    obtain hun | hun := hun
    · rw [show (moving items tried addr s deaf un).unclocked = none from hun]
      exact fun h => by cases h
    · rw [show (moving items tried addr s deaf un).unclocked = some addr from hun]
      exact fun h => hne (Option.some.inj h).symm
  · rintro mi hmi rfl hne hloaded
    obtain hclock | ⟨-, hclock⟩ := hclock
    · exact absurd hclock hne
    · rw [hstatus, hclock mi.frozen (h.frozen_mem hmi) rfl] at hloaded
      cases hloaded

/-! ## Loading -/

/-- A call that the busy item's life allows, whatever the modules wrote to its context. -/
theorem enter_move (deaf' : Bool) (next : Int → Life) {proc : Proc} (hm : m ∈ items)
    (hnext : ∀ mi ret time, mi.frozen = m → s.next ⟨mi, proc, ret, time⟩ = some (next ret))
    (hheard : ∀ ret, m.status.loaded → next ret = .stopping ∨ deaf')
    (hclock : proc = .firstproc → m.status.loaded = false) (htimer : proc ≠ .timer) {t : List Nat}
    (ht : t = tried ++ if proc = .dlopen ∨ proc = .firstproc ∧ m.status.resident then [m.addr] else []) :
    Triple Safe (Lives (moving items tried m.addr s deaf un)) (enter code m.addr proc) fun r =>
      Lives { moving items t m.addr (next r.ret) deaf' un with acting := [m.addr] } := by
  refine enter_triple fun w hw => ?_
  obtain ⟨mi, hmi, rfl, -⟩ := hw.item hm
  refine ⟨mi, hw.find hmi, ?_⟩
  have hattempt : Called.attempt ⟨mi, proc, (code w.log mi proc).ret, w.now⟩ = true ↔
      proc = .dlopen ∨ proc = .firstproc ∧ mi.frozen.status.resident := by
    simp [Called.attempt, Item.frozen]
  have hmoving : Lives (moving items tried mi.addr s deaf un) w := hw
  have hmove := hmoving.move hmi (hnext mi (code w.log mi proc).ret w.now rfl) (hheard _)
    (fun hclocks => ?_) htimer
  · rw [ht, ← if_congr hattempt rfl rfl]
    exact hmove
  · simp only [Called.clocks, Bool.or_eq_true, beq_iff_eq] at hclocks
    exact hclock (hclocks.resolve_right htimer)

theorem ask_move (deaf' : Bool) (next : Int → Life) {proc : Proc} (hm : m ∈ items)
    (hnext : ∀ mi ret time, mi.frozen = m → s.next ⟨mi, proc, ret, time⟩ = some (next ret))
    (hheard : ∀ ret, m.status.loaded → next ret = .stopping ∨ deaf')
    (hproc : proc ≠ .firstproc) (htimer : proc ≠ .timer) {t : List Nat}
    (ht : t = tried ++ if proc = .dlopen then [m.addr] else []) :
    Triple Safe (Lives (moving items tried m.addr s deaf un)) (ask code m.addr proc) fun ret =>
      Lives (moving items t m.addr (next ret) deaf' un) := by
  refine ask_triple ((enter_move deaf' next hm hnext hheard (fun h => absurd h hproc) htimer ?_).post
    fun r w hw => hw.leave)
  simp [ht, hproc]

/-- What the passes depend on. -/
structure Flags where
  addr : Nat
  startuppri : Int
  loaded : Bool
deriving DecidableEq

def Item.flags (mi : Item) : Flags := ⟨mi.addr, mi.startuppri, mi.status.loaded⟩

/-- The item is the only one at its address. -/
def Only (items : List Item) (m : Item) : Prop := m ∈ items ∧ ∀ mi ∈ items, mi.addr = m.addr → mi = m

theorem Lives.only (h : Lives g w) (hm : m ∈ g.items) : Only g.items m := by
  refine ⟨hm, fun mi hmi heq => ?_⟩
  obtain ⟨mi₁, hmi₁, rfl, -⟩ := h.item hmi
  obtain ⟨mi₂, hmi₂, rfl, -⟩ := h.item hm
  rw [h.eq_of_addr hmi₁ hmi₂ heq]

theorem Only.change {f : Item → Item} (h : Only items m) (haddr : ∀ mi, (f mi).addr = mi.addr) :
    Only (Modules.change m.addr f items) (f m) := by
  refine ⟨?_, fun mi hmi heq => ?_⟩
  · have hmem := mem_change_of_mem m.addr f h.1
    rwa [if_pos rfl] at hmem
  · obtain ⟨mi', hmi', ⟨heq', rfl⟩ | ⟨hne, rfl⟩⟩ := mem_change hmi
    · rw [h.2 mi' hmi' heq']
    · exact absurd (heq.trans (haddr m)) hne

theorem Only.flags_change {f : Item → Item} (h : Only items m) (hflags : (f m).flags = m.flags) :
    (Modules.change m.addr f items).map Item.flags = items.map Item.flags := by
  rw [Modules.change, List.map_map]
  refine List.map_congr_left fun mi hmi => ?_
  simp only [Function.comp]
  split
  · rename_i heq
    rw [h.2 mi hmi heq, hflags]
  · rfl

/-- Between two operations: no item is busy and no code of a module is running. -/
def Rest (flags : List Flags) (tried : List Nat) (w : Modlist) : Prop :=
  ∃ items, items.map Item.flags = flags ∧ Lives { items, tried } w

/-- The first procedure of a module that is not loaded is known. -/
structure Startable (m : Item) (s : Life) : Prop where
  unloaded : m.status.loaded = false
  firstproc : m.firstproc
  life : m.status.resident ∧ s = .unloaded ∨ m.status.resident = false ∧ s = .bound

/-- A module is about to be started. -/
def Bound (flags : List Flags) (tried : List Nat) (addr : Nat) (w : Modlist) : Prop :=
  ∃ items m, items.map Item.flags = flags ∧ Only items m ∧ m.addr = addr ∧ Startable m .bound ∧ m.dlhandle ∧
    Lives (moving items tried addr .bound false none) w

/-- The busy item is changed, and not as far as it is loaded. -/
theorem modify_moving {f : Item → Item} (honly : Only items m) (haddr : ∀ mi, (f mi).addr = mi.addr)
    (hfrozen : ∀ mi, (f mi).frozen = f mi.frozen) (hsound : (f m).Sound) (hunloaded : (f m).status.loaded = false) :
    Triple Safe (Lives (moving items tried m.addr s false none)) (modify m.addr f) fun _ =>
      Lives (moving (Modules.change m.addr f items) tried m.addr s false none) := by
  refine modify_triple fun w hw => ?_
  refine hw.set haddr hfrozen (fun mi hmi heq => ?_) (fun mi hmi heq => ?_) (.inl rfl)
    (.inr ⟨rfl, fun mi hmi heq => ?_⟩)
  · rw [honly.2 mi hmi heq]
    exact hsound
  · rw [honly.2 mi hmi heq, hunloaded]
    exact fun h => by cases h
  · rw [honly.2 mi hmi heq, hunloaded]

theorem Lives.unmoved (h : Lives (moving items tried addr .unloaded deaf none) w) (honly : Only items m)
    (haddr : m.addr = addr) (hunloaded : m.status.loaded = false) : Lives { items, tried } w := by
  refine h.rest fun mi hmi heq => ?_
  have hstatus : mi.status.loaded = m.status.loaded := by
    rw [← honly.2 mi.frozen (h.frozen_mem hmi) (heq.trans haddr.symm)]
    rfl
  rw [hstatus, hunloaded]
  rfl

theorem sound_of_dynamic (hunloaded : mi.status.loaded = false) (hdynamic : mi.status.resident = false) :
    mi.Sound where
  resident h := by
    rw [hdynamic] at h
    cases h
  dynamic h := by
    rw [hunloaded] at h
    cases h

/-- The end of an attempt that failed. -/
theorem fail_triple {f : Item → Item} (honly : Only items m) (haddr : ∀ mi, (f mi).addr = mi.addr)
    (hfrozen : ∀ mi, (f mi).frozen = f mi.frozen) (hsound : (f m).Sound) (hunloaded : (f m).status.loaded = false)
    (hflags : (f m).flags = m.flags) :
    Triple Safe (Lives (moving items tried m.addr .unloaded false none)) (modify m.addr f) fun _ =>
      Rest (items.map Item.flags) tried := by
  refine (modify_moving honly haddr hfrozen hsound hunloaded).post ?_
  exact fun _ w hw => ⟨_, honly.flags_change hflags, hw.unmoved (honly.change haddr) (haddr m) hunloaded⟩

theorem fail_triple_error (honly : Only items m) (hunloaded : m.status.loaded = false) :
    Triple Safe (Lives (moving items tried m.addr .unloaded false none)) (modify m.addr Item.fail) fun _ =>
      Rest (items.map Item.flags) tried :=
  fail_triple honly (fun _ => rfl) (fun _ => rfl) (sound_of_dynamic rfl rfl) rfl
    (by simp [Item.flags, Item.fail, hunloaded])

theorem dynload_triple (honly : Only items m) (hunloaded : m.status.loaded = false)
    (hdynamic : m.status.resident = false) :
    Triple Safe (Lives (moving items tried m.addr .unloaded false none)) (dynload code depth m.addr) fun ok =>
      if ok then Bound (items.map Item.flags) (tried ++ [m.addr]) m.addr
      else Rest (items.map Item.flags) (tried ++ [m.addr]) := by
  have hquiet : ∀ (next : Int → Life) (ret : Int), m.status.loaded → next ret = .stopping ∨ false := by
    intro next ret h
    rw [hunloaded] at h
    cases h
  refine .bind (ask_move false (fun ret => if ret = 0 then .unloaded else .opened) honly.1 (fun mi ret time heq => ?_)
    (hquiet _) (fun h => by cases h) (fun h => by cases h) rfl) fun handle => ?_
  · have hres : mi.status.resident = false := by rw [← hdynamic, ← heq]; rfl
    simp [Life.next, Proc.reaches, Life.settled, hres]
  have honly₁ : Only (Modules.change m.addr (Item.sethandle handle) items) (m.sethandle handle) :=
      honly.change fun _ => rfl
  rw [if_pos rfl, ← honly.flags_change (f := Item.sethandle handle) rfl]
  refine .bind (modify_moving honly (fun _ => rfl) (fun _ => rfl) (sound_of_dynamic hunloaded hdynamic) hunloaded)
    fun _ => ?_
  -- the library could not be opened, or its first procedure is looked up
  refine .ite (fun hnull => ?_) fun hhandle => ?_
  · rw [if_pos hnull]
    exact .bind (dvprintf_keeps rfl) fun _ => .bind (fail_triple_error (m := m.sethandle handle) honly₁ hunloaded)
      fun _ => .pure fun w hw => hw
  · rw [if_neg hhandle]
    refine .bind (ask_move false (fun ret => if ret = 0 then .failed else .bound) honly₁.1 (fun mi ret time heq => ?_)
      (hquiet _) (fun h => by cases h) (fun h => by cases h) rfl) fun sym => ?_
    · simp [Life.next, Proc.reaches, Life.settled]
    have honly₂ : Only (Modules.change m.addr (Item.setfirstproc sym)
        (Modules.change m.addr (Item.sethandle handle) items))
        ((m.sethandle handle).setfirstproc sym) := honly₁.change fun _ => rfl
    rw [if_neg (by simp), List.append_nil, ← honly₁.flags_change (f := Item.setfirstproc sym) rfl]
    refine .bind (modify_moving honly₁ (fun _ => rfl) (fun _ => rfl) (sound_of_dynamic hunloaded hdynamic) hunloaded)
      fun _ => ?_
    refine .ite (fun hnull => ?_) fun hsym => ?_
    · rw [if_pos hnull]
      refine .bind (dvprintf_keeps rfl) fun _ => ?_
      refine .bind (ask_move false (fun _ => .unloaded) honly₂.1 (fun mi ret time heq => ?_) (hquiet _)
        (fun h => by cases h)
        (fun h => by cases h) rfl) fun _ => ?_
      · simp [Life.next, Proc.reaches, Life.settled]
      rw [if_neg (by simp), List.append_nil]
      exact .bind (fail_triple_error (m := (m.sethandle handle).setfirstproc sym) honly₂ hunloaded) fun _ =>
        .pure fun w hw => hw
    · rw [if_neg hsym]
      refine .pure fun w hw => ⟨_, _, rfl, honly₂, rfl, ⟨hunloaded, ?_, .inr ⟨hdynamic, rfl⟩⟩, ?_, hw⟩
      · simpa [Item.setfirstproc] using hsym
      · simpa [Item.setfirstproc, Item.sethandle] using hhandle

/-- The timer is set to the time that it is now. -/
theorem settimer_triple (addr : Nat) :
    Triple Safe (Lives { items, tried, unclocked := some addr })
      (Prog.read (fun w => w.now) >>= fun now => modify addr (Item.settimer now)) fun _ =>
      Rest (items.map Item.flags) tried := by
  refine .bind (Q := fun now w => Lives { items, tried, unclocked := some addr } w ∧ now = w.now)
    (.read fun w hw => ⟨hw, rfl⟩) fun now => modify_triple fun w hw => ?_
  obtain ⟨hw, rfl⟩ := hw
  refine ⟨Modules.change addr (Item.settimer w.now) items, ?_, hw.change (Item.settimer w.now) (fun _ => rfl)
    (fun _ => rfl) rfl
    (fun mi hmi _ => ⟨(hw.sound mi hmi).resident, (hw.sound mi hmi).dynamic⟩)
    (fun mi _ _ s _ hfit => ⟨hfit.busy, hfit.idle⟩) (fun mi _ s hfit => ⟨hfit.busy, hfit.idle⟩)
    (fun a ha => nomatch ha) rfl
    (fun a _ hne heq => hne (Option.some.inj heq).symm) fun mi _ _ _ _ e he _ _ => hw.past e he⟩
  rw [Modules.change, List.map_map]
  refine List.map_congr_left fun mi _ => ?_
  simp only [Function.comp]
  split <;> rfl

theorem Only.loaded (honly : Only items m) (h : Lives g w) (hitems : g.items = items) (hmi : mi ∈ w.items)
    (heq : mi.addr = m.addr) : mi.frozen = m := honly.2 mi.frozen (hitems ▸ h.frozen_mem hmi) heq

/-- A module without `init` is up. -/
theorem started_up (honly : Only items m) (hloaded : m.status.loaded) :
    ∀ w, (Lives (moving items tried m.addr .started true (some m.addr)) w ∧
      ∀ mi, w.find? m.addr = some mi → mi.module.init = false) →
        Lives { items, tried, unclocked := some m.addr } w := by
  intro w hw
  refine hw.1.rest fun mi hmi heq => ?_
  have hinit : mi.module.init = false := hw.2 mi (heq ▸ hw.1.find hmi)
  have hstatus : mi.status.loaded := by
    rw [← honly.loaded hw.1 rfl hmi heq] at hloaded
    exact hloaded
  rw [if_pos hstatus]
  simp [Life.settled, hinit]

/-- `init` is called of a module that has it. -/
theorem init_triple (honly : Only items m) (hloaded : m.status.loaded) :
    Triple Safe (fun w => Lives (moving items tried m.addr .started true (some m.addr)) w ∧
        ∃ mi, w.find? m.addr = some mi ∧ mi.module.init)
      (perform code depth m.addr .init) fun _ => Lives { items, tried, unclocked := some m.addr } := by
  have hcall : Triple Safe (fun w => Lives (moving items tried m.addr .started true (some m.addr)) w ∧
        ∃ mi, w.find? m.addr = some mi ∧ mi.module.init)
      (perform code depth m.addr .init) fun _ =>
      Lives { items, tried, unclocked := some m.addr, acting := [m.addr] } := by
    refine call_triple (fun _ => { items, tried, unclocked := some m.addr, acting := [m.addr] })
      (fun w hw => hw.1.lawful) (enter_triple fun w hw => ?_) (fun _ => rfl) fun _ => List.mem_singleton_self _
    obtain ⟨hw, mi, hfind, hinit⟩ := hw
    obtain ⟨hmi, heq⟩ := find?_some hfind
    obtain rfl := honly.loaded hw rfl hmi heq
    obtain ⟨s, hs, hfits⟩ := hw.fits mi hmi
    obtain rfl := (hfits.busy .started rfl).1
    have hnext : Life.next .started ⟨mi, .init, (code w.log mi .init).ret, w.now⟩ = some .up := by
      simp [Life.next, Proc.reaches, Life.settled, hinit]
    refine ⟨mi, hfind, hw.enter hmi hs hnext rfl ⟨fun s'' hs'' => (by cases hs''), fun _ => ?_⟩
      (fun mi' hne s hfit => ?_)
      (fun a ha => ?_) (by simp [Called.attempt, moving]) (fun a ha => ⟨ha, fun _ h => (by cases h)⟩)
      fun h => (by cases h)⟩
    · rw [if_pos (show mi.status.loaded from hloaded)]
      rfl
    · exact ⟨fun s'' hs'' => (by cases hs''), fun _ => hfit.idle fun s'' => ne_of_addr hne⟩
    · rw [if_pos ((List.mem_singleton.1 ha).trans heq.symm)]
      exact .inr rfl
  exact hcall.post fun _ w hw => Lives.leave (g := { items, tried, unclocked := some m.addr }) hw

/-- What is left after `init`. -/
theorem ready_triple (addr : Nat) :
    Triple Safe (Lives { items, tried, unclocked := some addr })
      (dvprintf code depth >>= fun _ => Prog.read (fun w => w.now) >>= fun now => modify addr (Item.settimer now))
          fun _ =>
      Rest (items.map Item.flags) tried :=
  .bind (dvprintf_keeps rfl) fun _ => settimer_triple addr

/-- The attempts that a first procedure begins: those to load a resident module. -/
def attempts (m : Item) : List Nat := if m.status.resident then [m.addr] else []

/-- The life of a module after its first procedure. -/
def Life.answered (m : Item) (ret : Int) : Life :=
  if ret = 0 then .started else if m.status.resident then .unloaded else .failed

theorem firstproc_triple (honly : Only items m) (hstartable : Startable m s) :
    Triple Safe (Lives (moving items tried m.addr s false none)) (perform code depth m.addr .firstproc) fun ret =>
      Lives (moving items (tried ++ attempts m) m.addr (Life.answered m ret) false none) := by
  obtain ⟨hunloaded, hfirstproc, hlife⟩ := hstartable
  have henter : Triple Safe (Lives (moving items tried m.addr s false none)) (enter code m.addr .firstproc) fun r =>
      Lives { moving items (tried ++ attempts m) m.addr (Life.answered m r.ret) false none with
        acting := [m.addr] } := by
    refine enter_move false (Life.answered m) honly.1 (fun mi ret time heq => ?_) (fun _ h => ?_) (fun _ => hunloaded)
      (fun h => by cases h) (by simp [attempts])
    · subst heq
      have hproc : mi.firstproc := hfirstproc
      obtain ⟨hres, rfl⟩ | ⟨hres, rfl⟩ := hlife
      · have hmi : mi.status.resident = true := hres
        simp [Life.next, Proc.reaches, Life.settled, Life.answered, hproc, hmi, Item.frozen]
      · have hmi : mi.status.resident = false := hres
        simp [Life.next, Proc.reaches, Life.settled, Life.answered, hproc, hmi, Item.frozen]
    · rw [hunloaded] at h
      cases h
  let next := fun ret => { moving items (tried ++ attempts m) m.addr (Life.answered m ret) false none with
    acting := [m.addr] }
  have hcall : Triple Safe (Lives (moving items tried m.addr s false none)) (perform code depth m.addr .firstproc)
      fun ret => Lives (next ret) :=
    call_triple next (fun w hw => hw.lawful) henter (fun _ => rfl) fun _ => List.mem_singleton_self _
  exact hcall.post fun ret w hw =>
    Lives.leave (g := moving items (tried ++ attempts m) m.addr (Life.answered m ret) false none) hw

/-- Set the list to what it is after an operation: the item is loaded or not. -/
def setloaded (addr : Nat) (loaded : Bool) (flags : List Flags) : List Flags :=
  flags.map fun f => if f.addr = addr then { f with loaded } else f

theorem Only.setloaded {f : Item → Item} (h : Only items m) (haddr : ∀ mi, (f mi).addr = mi.addr)
    (hpri : ∀ mi, (f mi).startuppri = mi.startuppri) : (Modules.change m.addr f items).map Item.flags =
      Modules.setloaded m.addr (f m).status.loaded (items.map Item.flags) := by
  rw [Modules.change, Modules.setloaded, List.map_map, List.map_map]
  refine List.map_congr_left fun mi hmi => ?_
  show (if mi.addr = m.addr then f mi else mi).flags =
    if mi.addr = m.addr then ⟨mi.addr, mi.startuppri, (f m).status.loaded⟩ else mi.flags
  by_cases heq : mi.addr = m.addr
  · rw [if_pos heq, if_pos heq, Item.flags, haddr, hpri, h.2 mi hmi heq]
  · rw [if_neg heq, if_neg heq]

theorem Only.setloaded_self (h : Only items m) :
    Modules.setloaded m.addr m.status.loaded (items.map Item.flags) = items.map Item.flags := by
  have hid := h.setloaded (f := id) (fun _ => rfl) fun _ => rfl
  rwa [change_self, eq_comm] at hid

/-- The attempt failed: a shared object is closed again. -/
theorem refused_triple (honly : Only items m) (hunloaded : m.status.loaded = false)
    (hdynamic : m.status.resident = false → m.dlhandle) {ret : Int} (hret : ret ≠ 0) :
    Triple Safe (Lives (moving items tried m.addr (Life.answered m ret) false none)) (refused code depth m.addr)
        fun _ =>
      Rest (items.map Item.flags) tried := by
  refine .fact (p := m.Sound) (fun w hw => hw.sound m honly.1) fun hsound => ?_
  have hend : Triple Safe (Lives (moving items tried m.addr .unloaded false none)) (modify m.addr Item.orerror)
      fun _ =>
      Rest (items.map Item.flags) tried :=
    fail_triple honly (fun _ => rfl) (fun _ => rfl) ⟨hsound.resident, hsound.dynamic⟩ hunloaded rfl
  refine .bind (dvprintf_keeps rfl) fun _ => frozen_bind (fun _ => rfl) (fun w hw => hw) honly.1 ?_
  cases hres : m.status.resident with
  | true =>
      have hhandle : m.dlhandle = false := by simpa using (hsound.resident hres).2
      simp only [hhandle, Life.answered, hret, hres, if_false, if_true]
      exact hend
  | false =>
      simp only [hdynamic hres, Life.answered, hret, hres, if_false, if_true]
      refine .bind (ask_move false (fun _ => .unloaded) honly.1 (fun mi ret time heq => ?_) (fun _ h => ?_)
        (fun h => by cases h) (fun h => by cases h) rfl) fun _ => ?_
      · simp [Life.next, Proc.reaches, Life.settled]
      · rw [hunloaded] at h
        cases h
      · simpa using hend

/-- The module is loaded, and `init` is called if there is one. -/
theorem accepted_triple (honly : Only items m) (hdynamic : m.status.resident = false → m.dlhandle) :
    Triple Safe (Lives (moving items tried m.addr .started false none)) (accepted code depth m.addr) fun _ =>
      Rest (setloaded m.addr true (items.map Item.flags)) tried := by
  refine .fact (p := m.Sound) (fun w hw => hw.sound m honly.1) fun hsound => ?_
  have honly' : Only (Modules.change m.addr Item.orloaded items) m.orloaded := honly.change fun _ => rfl
  have hset : Triple Safe (Lives (moving items tried m.addr .started false none)) (modify m.addr Item.orloaded)
      fun _ =>
      Lives (moving (Modules.change m.addr Item.orloaded items) tried m.addr .started true (some m.addr)) := by
    refine modify_triple fun w hw => Lives.set (f := Item.orloaded) hw (fun _ => rfl) (fun _ => rfl)
      (fun mi hmi heq => ?_)
      (fun _ _ _ _ => .inr rfl) (.inl rfl) (.inl rfl)
    rw [honly.2 mi hmi heq]
    exact ⟨hsound.resident, fun _ h => hdynamic (by simpa [Item.orloaded] using h)⟩
  have hflags : (Modules.change m.addr Item.orloaded items).map Item.flags = setloaded m.addr true
      (items.map Item.flags) :=
    honly.setloaded (fun _ => rfl) fun _ => rfl
  rw [← hflags]
  refine .bind hset fun _ => is_bind ?_ ?_
  · exact .pre (ready_triple m.addr) (started_up (m := m.orloaded) honly' rfl)
  · exact .bind (init_triple (m := m.orloaded) honly' rfl) fun _ => ready_triple m.addr

theorem startmodule_triple (honly : Only items m) (hstartable : Startable m s) (hhandle : s = .bound → m.dlhandle) :
    Triple Safe (Lives (moving items tried m.addr s false none)) (startmodule code depth m.addr) fun _ w =>
      ∃ loaded, Rest (setloaded m.addr loaded (items.map Item.flags)) (tried ++ attempts m) w := by
  have hdynamic : m.status.resident = false → m.dlhandle := by
    intro hres
    obtain ⟨hres', -⟩ | ⟨-, hs⟩ := hstartable.life
    · rw [hres] at hres'
      cases hres'
    · exact hhandle hs
  refine frozen_bind (fun _ => rfl) (fun w hw => hw) honly.1 ?_
  simp only [hstartable.firstproc, if_true]
  refine .bind (firstproc_triple honly hstartable) fun ret => .ite (fun hret => ?_) fun hret => ?_
  · refine (refused_triple honly hstartable.unloaded hdynamic (by simpa using hret)).post fun _ w hw => ⟨false, ?_⟩
    have hself := honly.setloaded_self
    rw [hstartable.unloaded] at hself
    rwa [hself]
  · have hzero : ret = 0 := by simpa using hret
    rw [hzero]
    exact (accepted_triple honly hdynamic).post fun _ w hw => ⟨true, hw⟩

/-- The item at the address is not loaded. -/
def unloadedIn (flags : List Flags) (addr : Nat) : Bool := flags.any fun f => f.addr == addr && !f.loaded

theorem Only.unloadedIn (h : Only items m) : Modules.unloadedIn (items.map Item.flags) m.addr = !m.status.loaded := by
  rw [Bool.eq_iff_iff]
  simp only [Modules.unloadedIn, List.any_map, List.any_eq_true, Function.comp, Item.flags, Bool.and_eq_true,
    beq_iff_eq]
  constructor
  · rintro ⟨mi, hmi, heq, hunloaded⟩
    rwa [← h.2 mi hmi heq]
  · exact fun hunloaded => ⟨m, h.1, rfl, hunloaded⟩

/-- A module that is not loaded begins to move. -/
theorem Lives.begin_unloaded (h : Lives { items, tried } w) (honly : Only items m)
    (hunloaded : m.status.loaded = false) :
    Lives (moving items tried m.addr .unloaded false none) w := by
  refine h.begin m.addr fun mi hmi heq s' _ hs' => ?_
  have hstatus : mi.status.loaded = false := by
    rw [← hunloaded, ← honly.loaded h rfl hmi heq]
    rfl
  rw [hstatus] at hs' ⊢
  exact ⟨hs', fun h => by cases h⟩

/-- There is an attempt to load a module if it is not loaded. -/
theorem load_triple {flags : List Flags} (haddr : addr ∈ flags.map (·.addr)) :
    Triple Safe (Rest flags tried) (load code depth addr) fun _ w =>
      ∃ loaded, Rest (setloaded addr loaded flags) (tried ++ if unloadedIn flags addr then [addr] else []) w := by
  refine .of_exists fun items => .fact (p := items.map Item.flags = flags) (fun w hw => hw.1) ?_
  rintro rfl
  obtain ⟨m, hm, rfl⟩ : ∃ m ∈ items, m.addr = addr := by
    rw [List.map_map] at haddr
    exact List.mem_map.1 haddr
  refine .pre (P := Lives { items, tried }) (.fact (fun w hw => hw.only hm) fun honly => ?_) fun w hw => hw.2
  have honly : Only items m := honly
  refine frozen_bind (fun _ => rfl) (fun w hw => hw) hm ?_
  rw [honly.unloadedIn]
  cases hloaded : m.status.loaded with
  | true =>
      refine .pure fun w hw => ⟨true, items, ?_, by simpa using hw⟩
      rw [← hloaded, honly.setloaded_self]
  | false =>
      refine .fact (p := m.Sound) (fun w hw => hw.sound m hm) fun hsound => ?_
      refine .pre (P := Lives (moving items tried m.addr .unloaded false none)) ?_ fun w hw =>
        hw.begin_unloaded honly hloaded
      refine frozen_bind (fun _ => rfl) (fun w hw => hw) hm ?_
      -- a resident module is started at once, a dynamic one is opened first
      cases hres : m.status.resident with
      | true =>
          have hstart : Triple Safe (Lives (moving items tried m.addr .unloaded false none))
              (startmodule code depth m.addr)
              fun _ w => ∃ loaded, Rest (setloaded m.addr loaded (items.map Item.flags)) (tried ++ attempts m) w :=
            startmodule_triple honly ⟨hloaded, (hsound.resident hres).1, .inl ⟨hres, rfl⟩⟩ fun h => nomatch h
          simpa [attempts, hres] using hstart
      | false =>
          refine .bind (dynload_triple honly hloaded hres) fun ok => ?_
          cases ok with
          | false =>
              have hself := honly.setloaded_self
              rw [hloaded] at hself
              exact .pure fun w hw => ⟨false, hself.symm ▸ hw⟩
          | true =>
              refine .of_exists fun items₁ => .of_exists fun m₁ => ?_
              refine .fact (p := items₁.map Item.flags = items.map Item.flags ∧ Only items₁ m₁ ∧ m₁.addr = m.addr ∧
                Startable m₁ .bound ∧ m₁.dlhandle) (fun w hw => ⟨hw.1, hw.2.1, hw.2.2.1, hw.2.2.2.1, hw.2.2.2.2.1⟩) ?_
              rintro ⟨hflags, honly₁, haddr₁, hstartable, hhandle⟩
              have hres₁ : m₁.status.resident = false := by
                obtain ⟨-, h⟩ | ⟨h, -⟩ := hstartable.life
                · cases h
                · exact h
              have hstart : Triple Safe (Lives (moving items₁ (tried ++ [m.addr]) m₁.addr .bound false none))
                  (startmodule code depth m₁.addr) fun _ w =>
                    ∃ loaded, Rest (setloaded m₁.addr loaded (items₁.map Item.flags))
                      (tried ++ [m.addr] ++ attempts m₁) w :=
                startmodule_triple honly₁ hstartable fun _ => hhandle
              rw [haddr₁, hflags, attempts, hres₁, if_neg (by simp), List.append_nil] at hstart
              exact hstart.pre fun w hw => hw.2.2.2.2.2

/-! ## Unloading -/

/-- The module was shut down, or has nothing to shut down. -/
def Over (m : Item) (s : Life) (mi : Item) : Prop :=
  mi.frozen = m ∧ (s = .stopping ∨ s.settled mi = .up ∧ mi.module.shutdown = false)

/-- A module that is over: what is left is the core's. -/
def Closing (items : List Item) (tried : List Nat) (m : Item) (s : Life) (w : Modlist) : Prop :=
  Lives (moving items tried m.addr s true none) w ∧ ∃ mi ∈ w.items, Over m s mi

/-- The core goes on with a module that is over. -/
theorem close_triple {proc : Proc} {s' : Life}
    (hnext : ∀ mi ret time, Over m s mi → s.next ⟨mi, proc, ret, time⟩ = some s')
    (hclose : proc = .dlclose ∨ proc = .memoryfree) :
    Triple Safe (Closing items tried m s) (ask code m.addr proc) fun _ =>
        Lives (moving items tried m.addr s' true none) := by
  refine ask_triple (enter_triple fun w hw => ?_)
  obtain ⟨hw, mi, hmi, hover⟩ := hw
  obtain rfl := hover.1
  have hmoving : Lives (moving items tried mi.addr s true none) w := hw
  have hattempt : Called.attempt ⟨mi, proc, (code w.log mi proc).ret, w.now⟩ = false := by
    obtain rfl | rfl := hclose <;> rfl
  have hclocks : Called.clocks ⟨mi, proc, (code w.log mi proc).ret, w.now⟩ = false := by
    obtain rfl | rfl := hclose <;> rfl
  have htimer : proc ≠ .timer := by
    obtain rfl | rfl := hclose <;> exact fun h => nomatch h
  have hmove : Lives { moving items (tried ++ []) mi.addr s' true none with acting := [mi.addr] }
      { w with log := w.log ++ [⟨mi, proc, (code w.log mi proc).ret, w.now⟩] } := by
    have hmove := hmoving.move hmi (hnext mi (code w.log mi proc).ret w.now hover) (fun _ => .inr rfl)
      (fun h => by rw [hclocks] at h; cases h) htimer
    rwa [hattempt] at hmove
  rw [List.append_nil] at hmove
  exact ⟨mi, hw.find hmi, Lives.leave (g := moving items tried mi.addr s' true none) hmove⟩

/-- `shutdown` is called of a module that has it. -/
theorem shutdown_triple (honly : Only items m) (hloaded : m.status.loaded) :
    Triple Safe (fun w => Lives { items, tried } w ∧ ∃ mi, w.find? m.addr = some mi ∧ mi.module.shutdown)
      (perform code depth m.addr .shutdown) fun _ w => ∃ s, Closing items tried m s w := by
  have hcall : Triple Safe (fun w => Lives { items, tried } w ∧ ∃ mi, w.find? m.addr = some mi ∧ mi.module.shutdown)
      (perform code depth m.addr .shutdown) fun _ =>
      Lives { moving items tried m.addr .stopping false none with acting := [m.addr] } := by
    refine call_triple (fun _ => { moving items tried m.addr .stopping false none with acting := [m.addr] })
      (fun w hw => hw.1.lawful) (enter_triple fun w hw => ?_) (fun _ => rfl) fun _ => List.mem_singleton_self _
    obtain ⟨hw, mi, hfind, hshutdown⟩ := hw
    obtain ⟨hmi, heq⟩ := find?_some hfind
    obtain rfl := honly.loaded hw rfl hmi heq
    obtain ⟨s, hs, hfits⟩ := hw.fits mi hmi
    have hup := hfits.idle fun s' hs' => by cases hs'
    rw [if_pos (show mi.status.loaded from hloaded)] at hup
    have hnext : s.next ⟨mi, .shutdown, (code w.log mi .shutdown).ret, w.now⟩ = some .stopping := by
      simp [Life.next, Proc.reaches, hshutdown, hup]
    refine ⟨mi, hfind, hw.enter hmi hs hnext rfl ⟨fun s' hs' => ?_, fun hidle => absurd rfl (hidle .stopping)⟩
      (fun mi' hne s hfit => ⟨fun s' hs' => absurd hs' (ne_of_addr hne),
        fun _ => hfit.idle fun s' hs' => (by cases hs')⟩)
      (fun a ha => ?_) (by simp [Called.attempt, moving]) (fun a ha => ⟨ha, fun _ h => (by cases h)⟩)
      fun h => (by cases h)⟩
    · cases hs'
      exact ⟨rfl, fun _ => .inl rfl⟩
    · rw [if_pos ((List.mem_singleton.1 ha).trans heq.symm), List.mem_singleton.1 ha]
      exact .inl rfl
  refine hcall.post fun _ w hw => ⟨.stopping, ?_, ?_⟩
  · refine hw.refit rfl rfl rfl rfl fun mi _ s _ hfit => ⟨fun s' hs' => ?_, hfit.idle⟩
    exact ⟨(hfit.busy s' hs').1, fun _ => .inr rfl⟩
  · obtain ⟨mi, hmi, hfrozen, -⟩ := hw.item honly.1
    exact ⟨mi, hmi, hfrozen, .inl rfl⟩

/-- A module without `shutdown` is over. -/
theorem up_closing (honly : Only items m) (hloaded : m.status.loaded) :
    ∀ w, (Lives { items, tried } w ∧ ∀ mi, w.find? m.addr = some mi → mi.module.shutdown = false) →
      ∃ s, Closing items tried m s w := by
  rintro w ⟨hw, hshutdown⟩
  obtain ⟨mi, hmi, hfrozen, heq⟩ := hw.item honly.1
  obtain ⟨s, hs, hfits⟩ := hw.fits mi hmi
  have hup := hfits.idle fun s' hs' => by cases hs'
  have hmi' : mi.status.loaded := by
    rw [← hfrozen] at hloaded
    exact hloaded
  rw [if_pos hmi'] at hup
  refine ⟨s, ?_, mi, hmi, hfrozen, .inr ⟨hup, hshutdown mi (heq ▸ hw.find hmi)⟩⟩
  refine hw.begin m.addr fun mi₁ hmi₁ heq₁ s₁ hs₁ _ => ⟨?_, fun _ => rfl⟩
  obtain rfl := hw.eq_of_addr hmi hmi₁ (heq.trans heq₁.symm)
  exact Option.some.inj (hs₁.symm.trans hs)

/-- The module is not loaded any more. -/
theorem Lives.unload (h : Lives (moving items tried m.addr s true none) w) :
    Lives (moving (Modules.change m.addr Item.unload items) tried m.addr s true none)
      { w with items := Modules.change m.addr Item.unload w.items } := by
  refine Lives.set (f := Item.unload) h (fun _ => rfl) (fun _ => rfl) (fun mi hmi heq => ?_) (fun _ _ _ _ => .inr rfl)
    (.inl rfl) (.inr ⟨rfl, fun _ _ _ => rfl⟩)
  exact ⟨(h.sound mi hmi).resident, fun h => by cases h⟩

theorem Closing.unload (h : Closing items tried m s w) :
    Closing (Modules.change m.addr Item.unload items) tried m.unload s
      { w with items := Modules.change m.addr Item.unload w.items } := by
  obtain ⟨hw, mi, hmi, hfrozen, hover⟩ := h
  refine ⟨hw.unload, mi.unload, ?_, ?_, hover⟩
  · have hmem := mem_change_of_mem m.addr Item.unload hmi
    rwa [if_pos (by rw [← hfrozen]; rfl)] at hmem
  · rw [← hfrozen]
    rfl

theorem Lives.released
    (h : Lives (moving (Modules.change m.addr Item.unload items) tried m.addr .unloaded true none) w)
    (honly : Only items m) : Rest (setloaded m.addr false (items.map Item.flags)) tried w := by
  refine ⟨_, ?_, h.unmoved (honly.change fun _ => rfl) rfl rfl⟩
  exact honly.setloaded (f := Item.unload) (fun _ => rfl) fun _ => rfl

theorem release_triple (honly : Only items m) (hloaded : m.status.loaded) :
    Triple Safe (Closing items tried m s) (release code m.addr) fun _ =>
      Rest (setloaded m.addr false (items.map Item.flags)) tried := by
  refine .fact (p := m.Sound) (fun w hw => hw.1.sound m honly.1) fun hsound => ?_
  refine frozen_bind (fun _ => rfl) (fun w hw => hw.1) honly.1 ?_
  -- a resident module only gives its memory back, a dynamic one is closed before
  cases hres : m.status.resident with
  | true =>
      have hhandle : m.dlhandle = false := by simpa using (hsound.resident hres).2
      simp only [hhandle]
      refine .bind (modify_triple fun w hw => hw.unload) fun _ => ?_
      have hfree : Triple Safe (Closing (Modules.change m.addr Item.unload items) tried m.unload s)
          (ask code m.unload.addr .memoryfree) fun _ =>
          Lives (moving (Modules.change m.addr Item.unload items) tried m.addr .unloaded true none) := by
        refine close_triple (fun mi ret time hover => ?_) (.inr rfl)
        have hmi : mi.status.resident = true := by
          rw [← hres, show mi.status.resident = mi.frozen.status.resident from rfl, hover.1]
          rfl
        obtain rfl | ⟨hup, hshutdown⟩ := hover.2
        · simp [Life.next, Proc.reaches, Life.settled, hmi]
        · simp [Life.next, Proc.reaches, hup, hmi, hshutdown]
      exact .bind hfree fun _ => .pure fun w hw => hw.released honly
  | false =>
      have hhandle : m.dlhandle := hsound.dynamic hloaded (by simpa using hres)
      simp only [hhandle]
      have hclose : Triple Safe (Closing items tried m s) (ask code m.addr .dlclose) fun _ =>
          Lives (moving items tried m.addr .closed true none) := by
        refine close_triple (fun mi ret time hover => ?_) (.inl rfl)
        have hmi : mi.status.resident = false := by
          rw [← hres, show mi.status.resident = mi.frozen.status.resident from rfl, hover.1]
        obtain rfl | ⟨hup, hshutdown⟩ := hover.2
        · simp [Life.next, Proc.reaches, Life.settled, hmi]
        · simp [Life.next, Proc.reaches, hup, hmi, hshutdown]
      refine .bind hclose fun _ => .bind (modify_triple fun w hw => hw.unload) fun _ => ?_
      have honly' : Only (Modules.change m.addr Item.unload items) m.unload := honly.change fun _ => rfl
      have hfree : Triple Safe
          (Lives (moving (Modules.change m.addr Item.unload items) tried m.addr .closed true none))
          (ask code m.unload.addr .memoryfree) fun _ =>
          Lives (moving (Modules.change m.addr Item.unload items) tried m.addr .unloaded true none) := by
        refine ask_move true (fun _ => .unloaded) honly'.1 (fun mi ret time heq => ?_) (fun _ _ => .inr rfl)
          (fun h => by cases h) (fun h => by cases h) (by simp)
        simp [Life.next, Proc.reaches, Life.settled]
      exact .bind hfree fun _ => .pure fun w hw => hw.released honly

end Timps.Naf.Modules
