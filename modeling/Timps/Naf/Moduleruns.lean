-- SUMMARY: Every run of the module list is lawful, and a pass tries the modules in the order of their priorities.
import Mathlib.Data.List.Nodup
import Timps.Base.Buckets
import Timps.Naf.Loading

/-!
# Runs of the module list

Every operation takes the list from one rest to another. A run is so lawful to its end, even
if that is a crash in the middle of a call, and the attempts that `loadall` makes can be read
off the list before it.
-/

namespace Timps.Naf.Modules

open Prog (Triple)

variable {code : Code} {depth : Nat} {w w' : Modlist} {addr : Nat} {m mi : Item} {P : Modlist → Prop}
  {items : List Item} {tried : List Nat}

/-- The list is between two operations, after these attempts. -/
def Idle (tried : List Nat) (w : Modlist) : Prop := ∃ flags, Rest flags tried w

theorem Rest.idle {flags : List Flags} (h : Rest flags tried w) : Idle tried w := ⟨flags, h⟩

theorem Lives.idle (h : Lives { items, tried } w) : Idle tried w := ⟨_, items, rfl, h⟩

/-- What is done for a module that is loaded. -/
theorem loaded_pre {α : Type} {x : Sys α} {Q : α → Modlist → Prop} (hx : ∀ items m, Only items m → m.addr = addr →
      m.status.loaded → Triple Safe (Lives { items, tried }) x Q) :
    Triple Safe (fun w => Idle tried w ∧ ∃ mi, w.find? addr = some mi ∧ mi.status.loaded) x Q := by
  rintro w ⟨⟨flags, items, hflags, hw⟩, mi, hfind, hloaded⟩
  obtain ⟨hmi, rfl⟩ := find?_some hfind
  exact hx items mi.frozen (hw.only (hw.frozen_mem hmi)) rfl hloaded w hw

/-- The modules that are not loaded are passed over. -/
theorem loaded_bind {x : Sys Unit} (hx : ∀ items m, Only items m → m.addr = addr → m.status.loaded →
      Triple Safe (Lives { items, tried }) x fun _ => Idle tried) :
    Triple Safe (Idle tried) (is addr (·.status.loaded) >>= fun loaded => if !loaded then pure () else x) fun _ =>
      Idle tried :=
  is_bind (.pure fun _ hw => hw.1) (loaded_pre hx)

/-- Every loaded module is shut down, if it is up, and released. -/
theorem unloadall_keeps : Triple Safe (Idle tried) (unloadall code depth) fun _ => Idle tried := by
  refine forEach_keeps fun addr => loaded_bind ?_
  rintro items m honly rfl hloaded
  have hrelease : Triple Safe (fun w => ∃ s, Closing items tried m s w) (release code m.addr) fun _ => Idle tried :=
    .of_exists fun s => (release_triple honly hloaded).post fun _ w hw => hw.idle
  refine is_bind ?_ ?_
  · exact .pre hrelease (up_closing honly hloaded)
  · exact .bind (shutdown_triple honly hloaded) fun _ => hrelease

/-! ## Timers and detection -/

/-- A crash leaves the log as it is. -/
theorem die_triple {Q : Unit → Modlist → Prop} {fault : Fault} (hP : ∀ w, P w → Lawful w) :
    Triple Safe P (die fault) Q := by
  refine fun w hw => ⟨fun c hc => ?_, fun _ _ hr => by cases hr⟩
  cases hc
  exact hP w hw

/-- A loaded item is the one that the stage has. -/
theorem Only.find (honly : Only items m) (h : Lives { items, tried } w) (hfind : w.find? m.addr = some mi)
    (hloaded : m.status.loaded) : mi ∈ w.items ∧ mi.addr = m.addr ∧ mi.status.loaded := by
  obtain ⟨hmi, heq⟩ := find?_some hfind
  refine ⟨hmi, heq, ?_⟩
  rw [← honly.loaded h rfl hmi heq] at hloaded
  exact hloaded

/-- The timers of the loaded modules are called when they are due, and their clocks set. -/
theorem timerrun_keeps : Triple Safe (Idle tried) (timerrun code depth) fun _ => Idle tried := by
  refine forEach_keeps fun addr => loaded_bind ?_
  rintro items m honly rfl hloaded
  refine .bind (Q := fun now w => Lives { items, tried } w ∧ now = w.now) (.read fun w hw => ⟨hw, rfl⟩) fun now => ?_
  refine is_bind (.pure fun w hw => hw.1.1.idle) (is_bind ?_ ?_)
  -- a null timer procedure is called
  · exact .bind (die_triple (Q := fun _ => Lives { items, tried, unclocked := some m.addr }) fun w hw =>
      hw.1.1.1.lawful)
      fun _ => (settimer_triple m.addr).post fun _ w hw => hw.idle
  · refine .bind (.pre (handler_triple (g := { items, tried }) (some m.addr) rfl rfl) ?_) fun _ =>
      (settimer_triple m.addr).post fun _ w hw => hw.idle
    rintro w ⟨⟨⟨hw, rfl⟩, mi, hfind, hdue⟩, mi', hfind', htimer⟩
    cases hfind.symm.trans hfind'
    obtain ⟨hmi, heq, hloaded⟩ := honly.find hw hfind hloaded
    exact ⟨hw, mi, hmi, heq, hloaded, htimer, by rw [if_pos rfl]; exact ⟨rfl, rfl, hdue⟩⟩

/-- A procedure that has to do with connections is called of a loaded module. -/
theorem connhandler_triple {proc : Proc} (honly : Only items m) (hloaded : m.status.loaded) {p : Context → Bool}
    (hhandler : proc.handler) (htimer : proc ≠ .timer) (hreaches : ∀ mi, p mi.module → proc.reaches mi) :
    Triple Safe (fun w => Lives { items, tried } w ∧ ∃ mi, w.find? m.addr = some mi ∧ p mi.module)
      (perform code depth m.addr proc) fun _ => Lives { items, tried } := by
  refine .pre (handler_triple (g := { items, tried }) none rfl hhandler) ?_
  rintro w ⟨hw, mi, hfind, hp⟩
  obtain ⟨hmi, heq, hloaded⟩ := honly.find hw hfind hloaded
  exact ⟨hw, mi, hmi, heq, hloaded, hreaches mi hp, by rw [if_neg htimer]⟩

/-- The modules are asked for a connection until one of them owns it. -/
theorem detectLoop_keeps (mod : Option Nat) (conn : Nat) (l : List Nat) :
    Triple Safe (Idle tried) (detectLoop code depth mod conn l) fun _ => Idle tried := by
  induction l with
  | nil => exact .pure fun w hw => hw
  | cons addr l ih =>
      refine .bind (Q := fun _ => Idle tried) (.read fun w hw => hw) fun owned =>
        .ite (fun _ => .pure fun w hw => hw) fun _ => ?_
      refine .ite (fun _ => ih) fun _ => is_bind (ih.pre fun w hw => hw.1) (loaded_pre ?_)
      rintro items m honly rfl hloaded
      refine is_bind (ih.pre fun w hw => hw.1.idle) ?_
      refine .bind (connhandler_triple honly hloaded rfl (fun h => nomatch h) fun mi hp => hp) fun ret => ?_
      refine .ite (fun _ => ?_) fun _ => .ite (fun _ => .pure fun w hw => hw.idle) fun _ => ih.pre fun w hw => hw.idle
      refine .bind (Q := fun _ => Lives { items, tried }) (.update fun w hw => hw.own _) fun _ => ?_
      refine is_bind (.pure fun w hw => hw.1.idle) ?_
      refine .bind (connhandler_triple honly hloaded rfl (fun h => nomatch h) fun mi hp => hp) fun taken => ?_
      exact .pure fun w hw => hw.idle

/-- They are asked again when its protocol was not detected in time. -/
theorem timeoutLoop_keeps (mod : Option Nat) (conn : Nat) (l : List Nat) :
    Triple Safe (Idle tried) (timeoutLoop code depth mod conn l) fun _ => Idle tried := by
  induction l with
  | nil => exact .pure fun w hw => hw
  | cons addr l ih =>
      refine .bind (Q := fun _ => Idle tried) (.read fun w hw => hw) fun owned =>
        .ite (fun _ => .pure fun w hw => hw) fun _ => ?_
      refine .ite (fun _ => ih) fun _ => is_bind (ih.pre fun w hw => hw.1) (loaded_pre ?_)
      rintro items m honly rfl hloaded
      refine is_bind (ih.pre fun w hw => hw.1.idle) ?_
      refine .bind (connhandler_triple honly hloaded rfl (fun h => nomatch h) fun mi hp => hp) fun ret => ?_
      refine .ite (fun _ => ?_) fun _ => ih.pre fun w hw => hw.idle
      exact .bind (Q := fun _ => Lives { items, tried }) (.update fun w hw => hw.own _) fun _ =>
        .pure fun w hw => hw.idle

/-! ## The list -/

/-- A new item has not been asked anything. -/
theorem Lives.insert {items' : List Item} (h : Lives { items, tried } w) (hfresh : mi.addr = w.next)
    (hunloaded : mi.status.loaded = false) (hsound : mi.Sound) (hperm : items'.Perm (mi :: w.items)) :
    Lives { items := items'.map Item.frozen, tried } { w with items := items', next := w.next + 1 } := by
  have hmem : ∀ mi', mi' ∈ items' ↔ mi' = mi ∨ mi' ∈ w.items := fun mi' => hperm.mem_iff.trans List.mem_cons
  have hnew : ∀ mi' ∈ w.items, mi'.addr ≠ mi.addr := fun mi' hmi' heq =>
    Nat.ne_of_lt (h.below mi' hmi') (heq.trans hfresh)
  -- the address is new, so that no entry of the log is about the new item
  refine ⟨rfl, fun m hm => ?_, ?_, fun mi' hmi' => ?_, fun e he => ?_, fun mi' hmi' => ?_,
    fun a ha => (nomatch ha), h.tried, h.past, fun mi' hmi' hun hloaded => ?_, h.spaced⟩
  · obtain ⟨mi', hmi', rfl⟩ := List.mem_map.1 hm
    obtain rfl | hmi' := (hmem mi').1 hmi'
    · exact ⟨hsound.resident, hsound.dynamic⟩
    · exact h.sound _ (h.frozen_mem hmi')
  · refine (hperm.map _).nodup_iff.2 (List.nodup_cons.2 ⟨fun hin => ?_, h.nodup⟩)
    obtain ⟨mi', hmi', heq⟩ := List.mem_map.1 hin
    exact hnew mi' hmi' heq
  · obtain rfl | hmi' := (hmem mi').1 hmi'
    · rw [hfresh]
      exact Nat.lt_succ_self _
    · exact Nat.lt_succ_of_lt (h.below mi' hmi')
  · obtain ⟨mi', hmi', heq⟩ := h.known e he
    exact ⟨mi', (hmem mi').2 (.inr hmi'), heq⟩
  · obtain rfl | hmi' := (hmem mi').1 hmi'
    · refine ⟨.unloaded, life_of_unknown fun e he heq => ?_, fun s' hs' => (nomatch hs'), fun _ => ?_⟩
      · obtain ⟨mi', hmi', heq'⟩ := h.known e he
        exact hnew mi' hmi' (heq'.trans heq)
      · rw [hunloaded]
        rfl
    · obtain ⟨s, hs, hfit⟩ := h.fits mi' hmi'
      exact ⟨s, hs, hfit.busy, hfit.idle⟩
  · obtain rfl | hmi' := (hmem mi').1 hmi'
    · rw [hunloaded] at hloaded
      cases hloaded
    · exact h.clocked mi' hmi' hun hloaded

theorem Idle.insert {items' : List Item} (h : Idle tried w) (hfresh : mi.addr = w.next)
    (hunloaded : mi.status.loaded = false)
    (hsound : mi.Sound) (hperm : items'.Perm (mi :: w.items)) :
    Idle tried { w with items := items', next := w.next + 1 } := by
  obtain ⟨flags, items, -, hw⟩ := h
  exact (hw.insert hfresh hunloaded hsound hperm).idle

theorem add_idle (fn : CStr) (granted : Bool) : Triple Safe (Idle tried) (add fn granted) fun _ => Idle tried := by
  refine .update fun w hw => ?_
  simp only [newmi]
  split_ifs
  · exact hw
  · exact hw.insert rfl rfl (sound_of_dynamic rfl rfl) (.refl _)

theorem addLast_idle (fn : CStr) (granted : Bool) :
    Triple Safe (Idle tried) (addLast fn granted) fun _ => Idle tried := by
  refine .update fun w hw => ?_
  simp only [newmi]
  split_ifs
  · exact hw
  · exact hw.insert rfl rfl (sound_of_dynamic rfl rfl) (List.perm_append_singleton _ _)

theorem registerresident_idle (name : CStr) (startuppri : Int) (granted : Bool) :
    Triple Safe (Idle tried) (registerresident name startuppri granted) fun _ => Idle tried := by
  refine .update fun w hw => ?_
  cases granted with
  | false => exact hw
  | true => exact hw.insert rfl rfl ⟨fun _ => ⟨rfl, rfl⟩, fun h => by cases h⟩ (.refl _)

/-! ## Passes -/

/-- The module at an address has a priority, and is not loaded. -/
def dueIn (flags : List Flags) (pri : Int) (addr : Nat) : Bool :=
  flags.any fun f => f.addr == addr && f.startuppri == pri && !f.loaded

/-- After a pass for a priority the other modules are as they were. -/
structure Passed (pri : Int) (flags flags' : List Flags) : Prop where
  same : flags'.map (fun f => (f.addr, f.startuppri)) = flags.map fun f => (f.addr, f.startuppri)
  others : ∀ pri' ≠ pri, ∀ addr, dueIn flags' pri' addr = dueIn flags pri' addr

theorem Passed.refl (pri : Int) (flags : List Flags) : Passed pri flags flags := ⟨rfl, fun _ _ _ => rfl⟩

theorem Passed.trans {pri : Int} {flags flags₁ flags₂ : List Flags} (h₁ : Passed pri flags flags₁)
    (h₂ : Passed pri flags₁ flags₂) : Passed pri flags flags₂ :=
  ⟨h₂.same.trans h₁.same, fun pri' hne addr => (h₂.others pri' hne addr).trans (h₁.others pri' hne addr)⟩

theorem dueIn_iff {flags : List Flags} {pri : Int} :
    dueIn flags pri addr ↔ ∃ f ∈ flags, f.addr = addr ∧ f.startuppri = pri ∧ f.loaded = false := by
  simp [dueIn, and_assoc]

/-- A change of LOADED is seen only in the pass for the priority of its module. -/
theorem dueIn_setloaded {flags : List Flags} {pri : Int} {a : Nat} {loaded : Bool}
    (h : a = addr → ∀ f ∈ flags, f.addr = addr → f.startuppri ≠ pri) :
    dueIn (setloaded addr loaded flags) pri a = dueIn flags pri a := by
  rw [Bool.eq_iff_iff, dueIn_iff, dueIn_iff]
  constructor
  · rintro ⟨f, hf, rfl, rfl, hunloaded⟩
    obtain ⟨f', hf', rfl⟩ := List.mem_map.1 hf
    by_cases heq : f'.addr = addr
    · rw [if_pos heq] at h
      exact absurd rfl (h heq f' hf' heq)
    · rw [if_neg heq] at hunloaded ⊢
      exact ⟨f', hf', rfl, rfl, hunloaded⟩
  · rintro ⟨f, hf, rfl, rfl, hunloaded⟩
    have hne : f.addr ≠ addr := fun heq => h heq f hf heq rfl
    have hmem : (if f.addr = addr then { f with loaded } else f) ∈ setloaded addr loaded flags :=
        List.mem_map_of_mem hf
    rw [if_neg hne] at hmem
    exact ⟨f, hmem, rfl, rfl, hunloaded⟩

theorem setloaded_same (addr : Nat) (loaded : Bool) (flags : List Flags) :
    (setloaded addr loaded flags).map (fun f => (f.addr, f.startuppri)) = flags.map fun f =>
        (f.addr, f.startuppri) := by
  rw [setloaded, List.map_map]
  refine List.map_congr_left fun f _ => ?_
  simp only [Function.comp]
  split <;> rfl

theorem Passed.addrs {pri : Int} {flags flags' : List Flags} (h : Passed pri flags flags') :
    flags'.map (·.addr) = flags.map (·.addr) := by
  have hfst := congrArg (List.map Prod.fst) h.same
  simpa only [List.map_map, Function.comp_def] using hfst

theorem Rest.nodup {flags : List Flags} (h : Rest flags tried w) : (flags.map (·.addr)).Nodup := by
  obtain ⟨items, rfl, hw⟩ := h
  have hnodup := hw.nodup
  have haddrs : (items.map Item.flags).map (·.addr) = w.items.map (·.addr) := by
    have hitems : w.items.map Item.frozen = items := hw.items
    rw [← hitems, List.map_map, List.map_map]
    rfl
  rwa [haddrs]

theorem eq_of_nodup {flags : List Flags} (h : (flags.map (·.addr)).Nodup) {f f' : Flags} (hf : f ∈ flags)
    (hf' : f' ∈ flags)
    (heq : f.addr = f'.addr) : f = f' := List.inj_on_of_nodup_map h hf hf' heq

/-- The addresses tell the modules apart. -/
theorem dueIn_self {flags : List Flags} {f : Flags} (hnodup : (flags.map (·.addr)).Nodup) (hf : f ∈ flags)
    (pri : Int) :
    dueIn flags pri f.addr ↔ f.startuppri = pri ∧ f.loaded = false := by
  rw [dueIn_iff]
  constructor
  · rintro ⟨f', hf', heq, hpri, hunloaded⟩
    rw [← eq_of_nodup hnodup hf' hf heq]
    exact ⟨hpri, hunloaded⟩
  · exact fun h => ⟨f, hf, rfl, h⟩

/-- In a pass, the module is tried if its priority is the one of the pass and it is not loaded. -/
theorem try_triple {flags : List Flags} {pri : Int} (haddr : addr ∈ flags.map (·.addr)) :
    Triple Safe (Rest flags tried)
      (is addr (fun mi => mi.startuppri == pri) >>= fun same => if !same then pure () else load code depth addr)
          fun _ w =>
      ∃ flags', Rest flags' (tried ++ if dueIn flags pri addr then [addr] else []) w ∧ Passed pri flags flags' ∧
        ∀ a ≠ addr, dueIn flags' pri a = dueIn flags pri a := by
  refine .fact (fun w hw => hw.nodup) fun hnodup => ?_
  obtain ⟨f, hf, rfl⟩ := List.mem_map.1 haddr
  have hself : ∀ f' ∈ flags, f'.addr = f.addr → f' = f := fun f' hf' heq => eq_of_nodup hnodup hf' hf heq
  have hdue := dueIn_self hnodup hf pri
  have hfound : ∀ w, Rest flags tried w → ∃ mi, w.find? f.addr = some mi ∧ mi.startuppri = f.startuppri := by
    rintro w ⟨items, rfl, hw⟩
    obtain ⟨m, hm, rfl⟩ := List.mem_map.1 hf
    obtain ⟨mi, hmi, rfl, -⟩ := hw.item hm
    exact ⟨mi, hw.find hmi, rfl⟩
  -- the priority is read from the item, and the flags have the same one
  refine is_bind (.fact (p := f.startuppri ≠ pri) ?_ fun hne => ?_) (.fact (p := f.startuppri = pri) ?_
    fun hpri => ?_)
  · rintro w ⟨hw, hother⟩
    obtain ⟨mi, hfind, heq⟩ := hfound w hw
    simpa [heq] using hother mi hfind
  · have hnot : dueIn flags pri f.addr = false := Bool.eq_false_iff.2 fun h => hne (hdue.1 h).1
    exact .pure fun w hw => ⟨flags, by simpa [hnot] using hw.1, .refl pri flags, fun _ _ => rfl⟩
  · rintro w ⟨hw, mi, hfind, hpri⟩
    obtain ⟨mi', hfind', heq⟩ := hfound w hw
    cases hfind.symm.trans hfind'
    rw [← heq]
    simpa using hpri
  · have hunloaded : unloadedIn flags f.addr = dueIn flags pri f.addr := by
      rw [Bool.eq_iff_iff, hdue]
      simp only [unloadedIn, List.any_eq_true, Bool.and_eq_true, beq_iff_eq, Bool.not_eq_true']
      constructor
      · rintro ⟨f', hf', heq, h⟩
        rw [← hself f' hf' heq] at hpri ⊢
        exact ⟨hpri, h⟩
      · exact fun h => ⟨f, hf, rfl, h.2⟩
    rw [← hunloaded]
    refine .pre (P := Rest flags tried) ((load_triple haddr).post fun _ w hw => ?_) fun w hw => hw.1
    obtain ⟨loaded, hw⟩ := hw
    refine ⟨_, hw, ⟨setloaded_same _ _ _, fun pri' hne a => dueIn_setloaded fun _ f' hf' heq => ?_⟩, fun a hne =>
      dueIn_setloaded fun heq => absurd heq hne⟩
    rw [hself f' hf' heq, hpri]
    exact Ne.symm hne

/-- A pass tries the modules of its priority that are not loaded, in the order of the list. -/
theorem pass_triple {pri : Int} (l : List Nat) : ∀ {flags : List Flags} {tried : List Nat}, l.Nodup →
    (∀ addr ∈ l, addr ∈ flags.map (·.addr)) →
    Triple Safe (Rest flags tried) (Prog.each (fun addr => is addr (fun mi => mi.startuppri == pri) >>= fun same =>
        if !same then pure () else load code depth addr) l) fun _ w =>
      ∃ flags', Rest flags' (tried ++ l.filter (dueIn flags pri)) w ∧ Passed pri flags flags' := by
  induction l with
  | nil => exact fun _ _ => .pure fun w hw => ⟨_, by simpa using hw, .refl _ _⟩
  | cons addr l ih =>
      intro flags tried hnodup hmem
      obtain ⟨hnotin, hnodup⟩ := List.nodup_cons.1 hnodup
      refine .bind (try_triple (hmem addr List.mem_cons_self)) fun _ => .of_exists fun flags₁ => ?_
      refine .fact (p := Passed pri flags flags₁ ∧ ∀ a ≠ addr, dueIn flags₁ pri a = dueIn flags pri a)
        (fun w hw => hw.2) ?_
      rintro ⟨hpassed, hothers⟩
      -- the attempt for the head of the list does not change what is due of the others
      have hfilter : (if dueIn flags pri addr then [addr] else []) ++ l.filter (dueIn flags₁ pri) =
          (addr :: l).filter (dueIn flags pri) := by
        have hl : l.filter (dueIn flags₁ pri) = l.filter (dueIn flags pri) := by
          refine List.filter_congr fun a ha => hothers a ?_
          rintro rfl
          exact hnotin ha
        rw [hl, List.filter_cons]
        split <;> rfl
      rw [← hfilter, ← List.append_assoc]
      refine .pre (.post (ih hnodup fun a ha => hpassed.addrs ▸ hmem a (List.mem_cons_of_mem addr ha)) ?_)
        fun w hw => hw.1
      rintro _ w ⟨flags', hw, hpassed'⟩
      exact ⟨flags', hw, hpassed.trans hpassed'⟩

/-- The modules that the passes for these priorities try. -/
def queueOf (flags : List Flags) (pris : List Int) : List Nat :=
  pris.flatMap fun pri => (flags.map (·.addr)).filter (dueIn flags pri)

/-- The passes one after the other. None of them changes what is due in a later one. -/
theorem passes_triple (pris : List Int) : ∀ {flags : List Flags} {tried : List Nat}, pris.Nodup →
    Triple Safe (Rest flags tried) (Prog.each (fun pri => forEach fun addr =>
        is addr (fun mi => mi.startuppri == pri) >>= fun same => if !same then pure () else load code depth addr)
          pris)
      fun _ => Idle (tried ++ queueOf flags pris) := by
  induction pris with
  | nil => exact fun _ => .pure fun w hw => by simpa [queueOf] using hw.idle
  | cons pri pris ih =>
      intro flags tried hnodup
      obtain ⟨hnotin, hnodup⟩ := List.nodup_cons.1 hnodup
      have hpass : Triple Safe (Rest flags tried) (forEach fun addr =>
          is addr (fun mi => mi.startuppri == pri) >>= fun same => if !same then pure () else load code depth addr)
          fun _ w =>
          ∃ flags', Rest flags' (tried ++ (flags.map (·.addr)).filter (dueIn flags pri)) w ∧
            Passed pri flags flags' := by
        refine .fact (fun w hw => hw.nodup) fun hdistinct => ?_
        refine .bind (Q := fun addrs w => Rest flags tried w ∧ addrs = flags.map (·.addr))
          (.read fun w hw => ⟨hw, ?_⟩)
          fun addrs => .fact (fun w hw => hw.2) ?_
        · obtain ⟨items, rfl, hw⟩ := hw
          have hitems : w.items.map Item.frozen = items := hw.items
          rw [← hitems, List.map_map, List.map_map]
          rfl
        · rintro rfl
          exact (pass_triple _ hdistinct fun a ha => ha).pre fun w hw => hw.1
      refine .bind hpass fun _ => .of_exists fun flags₁ => .fact (p := Passed pri flags flags₁) (fun w hw => hw.2)
        fun hpassed => ?_
      have hqueue : queueOf flags₁ pris = queueOf flags pris := by
        unfold queueOf
        refine List.flatMap_congr fun pri' hpri' => ?_
        rw [hpassed.addrs]
        refine List.filter_congr fun a _ => hpassed.others pri' ?_ a
        rintro rfl
        exact hnotin hpri'
      have hrest := @ih flags₁ (tried ++ (flags.map (·.addr)).filter (dueIn flags pri)) hnodup
      rw [hqueue, List.append_assoc] at hrest
      exact hrest.pre fun w hw => hw.1

/-! ## Runs -/

/-- The attempts to load a module, in their order. -/
def attempted (w : Modlist) : List Nat := (w.log.filter Called.attempt).map (·.mi.addr)

theorem Idle.attempted (h : Idle tried w) : attempted w = tried := by
  obtain ⟨flags, items, -, hw⟩ := h
  exact hw.tried

theorem Idle.lawful (h : Idle tried w) : Lawful w := by
  obtain ⟨flags, items, -, hw⟩ := h
  exact hw.lawful

theorem Start.idle (h : Start w) : Idle [] w := by
  obtain ⟨hitems, hlog⟩ := h
  refine ⟨[], [], rfl, ?_⟩
  constructor <;> simp [hitems, hlog]

/-- The highest priority comes first. -/
theorem passes_descend (minpri : Int) : (passes minpri).Pairwise fun k k' => k' < k := by
  refine List.pairwise_map.2 (List.pairwise_lt_range.imp fun h => ?_)
  omega

theorem loadall_triple {flags : List Flags} {minpri : Int} :
    Triple Safe (Rest flags tried) (loadall code depth minpri) fun _ =>
        Idle (tried ++ queueOf flags (passes minpri)) :=
  passes_triple _ ((passes_descend minpri).imp fun h => ne_of_gt h)

/-- The modules that `loadall` is to try: those that are not loaded and have one of the
priorities, sorted by it; modules with the same priority stay in the order of the list. -/
def queue (minpri : Int) (w : Modlist) : List Nat :=
  ((w.items.filter fun mi => !mi.status.loaded && decide (minpri ≤ mi.startuppri ∧ mi.startuppri ≤ primax)).mergeSort
    fun a b => b.startuppri ≤ a.startuppri).map (·.addr)

theorem mem_passes {pri minpri : Int} : pri ∈ passes minpri ↔ minpri ≤ pri ∧ pri ≤ primax := by
  simp only [passes, List.mem_map, List.mem_range]
  constructor
  · rintro ⟨k, hk, rfl⟩
    omega
  · exact fun h => ⟨(primax - pri).toNat, by omega, by omega⟩

theorem queueOf_eq {flags : List Flags} (hnodup : (flags.map (·.addr)).Nodup) (pris : List Int) :
    queueOf flags pris = (Buckets.buckets (·.startuppri) pris (flags.filter fun f => !f.loaded)).map (·.addr) := by
  rw [queueOf, Buckets.buckets, List.map_flatMap]
  refine List.flatMap_congr fun pri _ => ?_
  rw [List.filter_map, List.filter_filter]
  congr 1
  refine List.filter_congr fun f hf => ?_
  rw [Function.comp, Bool.eq_iff_iff, dueIn_self hnodup hf]
  simp

/-- Pass by pass, the modules come in the order of a stable sort by priority. -/
theorem Rest.queueOf_eq {flags : List Flags} (h : Rest flags tried w) (minpri : Int) :
    queueOf flags (passes minpri) = queue minpri w := by
  have hnodup := h.nodup
  obtain ⟨items, rfl, hw⟩ := h
  have hflags : items.map Item.flags = w.items.map Item.flags := by
    have hitems : w.items.map Item.frozen = items := hw.items
    rw [← hitems, List.map_map]
    rfl
  have hfilter : ((w.items.filter ((fun f => !f.loaded) ∘ Item.flags)).filter fun mi =>
      decide (((fun f => f.startuppri) ∘ Item.flags) mi ∈ passes minpri)) =
      w.items.filter fun mi => !mi.status.loaded && decide (minpri ≤ mi.startuppri ∧ mi.startuppri ≤ primax) := by
    rw [List.filter_filter]
    refine List.filter_congr fun mi _ => ?_
    rw [Bool.and_comm]
    simp [Item.flags, mem_passes]
  rw [hflags] at hnodup ⊢
  rw [Modules.queueOf_eq hnodup, List.filter_map, Buckets.buckets_map, List.map_map,
    Buckets.buckets_eq_mergeSort (passes_descend minpri), hfilter]
  rfl

/-- What one operation keeps: it takes the list from one rest to the next. -/
theorem handle_keeps (i : Input) :
    Triple Safe (fun w => ∃ tried, Idle tried w) (handle code depth i) fun _ w => ∃ tried, Idle tried w := by
  refine .of_exists fun tried => ?_
  have hbroadcast : ∀ {x : Sys Unit}, (∀ g, g.deaf = false → Triple Safe (Lives g) x fun _ => Lives g) →
      Triple Safe (Idle tried) x fun _ w => ∃ tried, Idle tried w := fun hx =>
    .of_exists fun flags => .of_exists fun items =>
      .pre ((hx { items, tried } rfl).post fun _ w hw => ⟨tried, hw.idle⟩) fun w hw => hw.2
  cases i with
  | add fn granted => exact (add_idle fn granted).post fun _ w hw => ⟨tried, hw⟩
  | addLast fn granted => exact (addLast_idle fn granted).post fun _ w hw => ⟨tried, hw⟩
  | registerresident name startuppri granted =>
      exact (registerresident_idle name startuppri granted).post fun _ w hw => ⟨tried, hw⟩
  | loadall minpri => exact .of_exists fun flags => loadall_triple.post fun _ w hw => ⟨_, hw⟩
  | unloadall => exact unloadall_keeps.post fun _ w hw => ⟨tried, hw⟩
  | event source event => exact hbroadcast fun g hdeaf => nafeventv_keeps (heard code depth) hdeaf source event
  | signal source signum => exact hbroadcast fun g hdeaf => nafsignal_keeps (heard code depth) hdeaf source signum
  | timerrun => exact timerrun_keeps.post fun _ w hw => ⟨tried, hw⟩
  | protocoldetect mod conn =>
      exact .bind (.bind (.read fun w hw => hw) fun addrs => detectLoop_keeps mod conn addrs) fun _ =>
        .pure fun w hw => ⟨tried, hw⟩
  | protocoldetecttimeout mod conn =>
      exact .bind (.bind (.read fun w hw => hw) fun addrs => timeoutLoop_keeps mod conn addrs) fun _ =>
        .pure fun w hw => ⟨tried, hw⟩
  | newconn conn => exact hbroadcast fun g _ => .update fun w hw => hw.own _
  | pass seconds => exact hbroadcast fun g _ => .update fun w hw => hw.wait seconds

theorem step_ok {i : Input} (h : step code depth i w = .ok w') : handle code depth i w = .ok ((), w') := by
  unfold step at h
  cases hr : handle code depth i w with
  | error c => rw [hr] at h; cases h
  | ok r =>
      rw [hr] at h
      cases h
      rfl

theorem step_error {i : Input} {c : Crash} (h : step code depth i w = .error c) :
    handle code depth i w = .error c := by
  unfold step at h
  cases hr : handle code depth i w with
  | error c => rw [hr] at h; cases h; rfl
  | ok r => rw [hr] at h; cases h

/-- A step that ends, be it with a crash. -/
def Ends (code : Code) (depth : Nat) (i : Input) (w w' : Modlist) : Prop :=
  step code depth i w = .ok w' ∨ ∃ fault, step code depth i w = .error ⟨fault, w'⟩

variable {h : List (Modlist × Input)} {i : Input}

/-- So does a whole run. -/
theorem idle_of_run (hrun : Run (step code depth) Start h w) : ∃ tried, Idle tried w :=
  hrun.invariant (fun _ hs => ⟨[], hs.idle⟩) fun i s s' hs hstep => ((handle_keeps i s hs).2 () s' (step_ok hstep))

/-- The log stays lawful even if the step after the run crashes. -/
theorem lawful_of_run (hrun : Run (step code depth) Start h w) (hend : Ends code depth i w w') : Lawful w' := by
  have hw := idle_of_run hrun
  obtain hok | ⟨fault, herror⟩ := hend
  · obtain ⟨tried, hw'⟩ := (handle_keeps i w hw).2 () w' (step_ok hok)
    exact hw'.lawful
  · exact (handle_keeps i w hw).1 ⟨fault, w'⟩ (step_error herror)

/-- Modules that have every procedure, and talk in their `init`. -/
def chatty : Code := fun _ _ proc =>
  match proc with
  | .firstproc =>
      { deeds := [.write fun c =>
          { c with init := true, event := true, timer := true, timerfreq := 2, shutdown := true }] }
  | .init => { deeds := [.event none genericoutput] }
  | .timer => { deeds := [.wait 1] }
  | _ => {}

/-- What can be computed of a step after some inputs. -/
theorem chatty_reaches {l : List Input} {q : Modlist → Bool}
    (hq : (replayInputs (step chatty 9) l {}).toOption.any (fun r => (step chatty 9 i r.2).toOption.any q) = true) :
    ∃ h w w', Run (step chatty 9) Start h w ∧ step chatty 9 i w = .ok w' ∧ q w' = true := by
  have hstart : Start {} := ⟨rfl, rfl⟩
  obtain ⟨h, w, hrun, -, hw⟩ := Run.exists_of_replay hstart hq
  cases hstep : step chatty 9 i w with
  | error c => simp [hstep, Except.toOption] at hw
  | ok w' => exact ⟨h, w, w', hrun, hstep, by simpa [hstep, Except.toOption] using hw⟩

/-- The core asks of every module only what its life allows, also in the middle of calls and
if it crashes there; between two steps the flags of a module tell where it is in its life. -/
theorem lives_lawful (hrun : Run (step code depth) Start h w) (hend : Ends code depth i w w') :
    (∀ addr, (life w'.log addr).isSome) ∧ (step code depth i w = .ok w' → ∀ mi ∈ w'.items, ∃ s,
      life w'.log mi.addr = some s ∧ if mi.status.loaded then s.settled mi = .up else s = .unloaded) := by
  refine ⟨(lawful_of_run hrun hend).lives, fun hok mi hmi => ?_⟩
  obtain ⟨tried, flags, items, -, hw'⟩ := (handle_keeps i w (idle_of_run hrun)).2 () w' (step_ok hok)
  obtain ⟨s, hs, hfits⟩ := hw'.fits mi hmi
  exact ⟨s, hs, hfits.idle fun s' hs' => nomatch hs'⟩

theorem lives_lawful_chatty : ∃ h w w', Run (step chatty 9) Start h w ∧ step chatty 9 .unloadall w = .ok w' ∧
    w'.log.map (·.proc) = [.firstproc, .init, .event none 1, .event none 1, .timer, .shutdown, .memoryfree] ∧
    (∀ addr, (life w'.log addr).isSome) ∧ ∀ mi ∈ w'.items, ∃ s,
      life w'.log mi.addr = some s ∧ if mi.status.loaded then s.settled mi = .up else s = .unloaded := by
  obtain ⟨h, w, w', hrun, hstep, hlog⟩ := chatty_reaches (i := .unloadall)
    (l := [.registerresident (lit "chatty") 3 true, .loadall 0, .pass 2, .timerrun])
    (q := fun w => w.log.map (·.proc) = [.firstproc, .init, .event none 1, .event none 1, .timer, .shutdown,
        .memoryfree])
    (by decide +kernel)
  obtain ⟨hlives, hflags⟩ := lives_lawful hrun (.inl hstep)
  exact ⟨h, w, w', hrun, hstep, by simpa using hlog, hlives, hflags hstep⟩

/-- No timer is called before its time has come, counted from the call before it or from the
module's first procedure. -/
theorem timers_spaced (hrun : Run (step code depth) Start h w) (hend : Ends code depth i w w') :
    w'.log.Pairwise Spaced := (lawful_of_run hrun hend).spaced

theorem timers_spaced_chatty : ∃ h w w', Run (step chatty 9) Start h w ∧ step chatty 9 .timerrun w = .ok w' ∧
    (w'.log.filter fun e => e.proc = .timer).map (·.time) = [2, 5] ∧ w'.log.Pairwise Spaced := by
  obtain ⟨h, w, w', hrun, hstep, hlog⟩ := chatty_reaches (i := .timerrun)
    (l := [.registerresident (lit "chatty") 3 true, .loadall 0, .pass 2, .timerrun, .pass 1, .timerrun, .pass 1])
    (q := fun w => (w.log.filter fun e => e.proc = .timer).map (·.time) = [2, 5]) (by decide +kernel)
  exact ⟨h, w, w', hrun, hstep, by simpa using hlog, timers_spaced hrun (.inl hstep)⟩

/-- `loadall` tries the modules that it is to try, in their order, and no others. -/
theorem loadall_queue {minpri : Int} (hrun : Run (step code depth) Start h w)
    (hok : step code depth (.loadall minpri) w = .ok w') : attempted w' = attempted w ++ queue minpri w := by
  obtain ⟨tried, hw⟩ := idle_of_run hrun
  rw [hw.attempted]
  obtain ⟨flags, hw⟩ := hw
  have hw' : Idle (tried ++ queueOf flags (passes minpri)) w' := (loadall_triple w hw).2 () w' (step_ok hok)
  rw [hw'.attempted, hw.queueOf_eq]

/-- Two modules have no shared object. They are tried again when the others are loaded. -/
theorem loadall_queue_chatty : ∃ h w w', Run (step chatty 9) Start h w ∧ step chatty 9 (.loadall 0) w = .ok w' ∧
    attempted w' = [3, 0, 1, 2, 1, 2] ∧ attempted w' = attempted w ++ queue 0 w := by
  obtain ⟨h, w, w', hrun, hstep, hattempted⟩ := chatty_reaches (i := .loadall 0)
    (l := [.registerresident (lit "low") 3 true, .add (lit "a.so") true, .addLast (lit "b.so") true,
      .registerresident (lit "high") 5 true, .loadall 3, .loadall 0])
    (q := fun w => attempted w = [3, 0, 1, 2, 1, 2]) (by decide +kernel)
  exact ⟨h, w, w', hrun, hstep, by simpa using hattempted, loadall_queue hrun hstep⟩

end Timps.Naf.Modules
