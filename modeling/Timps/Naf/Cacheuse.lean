-- SUMMARY: Modules that have unregistered from the cache: what is left of them, and when nothing of it can be used.
import Timps.Naf.Cacheruns

/-!
# Use after unregistering

`naf_cache_unregister` releases the lists of a module and leaves the tag that points to
them. Where a run unregisters only modules that are not registered, there is nothing to
release, and an unregistered module is one without a tag.
-/

namespace Timps.Naf.Cache

variable {Φ : Type} {mod : Nafmodule} {s s' : State Φ} {i : Input Φ} {h : List (State Φ × Input Φ)}

/-! ## Modules that have unregistered -/

/-- The calls that use the lists of a module. -/
def Call.uses (mod : Nafmodule) : Call Φ → Prop
  | .addlist m _ _ _ => m = mod
  | .remlist m _ => m = mod
  | .addpair m _ _ _ => m = mod
  | .findpair m _ _ _ => m = mod
  | .rempairs m _ _ => m = mod
  | _ => False

/-- Only modules that are not registered are unregistered. -/
def Unheld (s : State Φ) (i : Input Φ) : Prop :=
  match i.call with
  | .unregister mod => s.addr mod = none
  | _ => True

/-- The module has been unregistered, and not been registered since. -/
def Unregistered (h : List (State Φ × Input Φ)) (mod : Nafmodule) : Prop :=
  ∃ h₁ p h₂, h = h₁ ++ p :: h₂ ∧ p.2.call = .unregister mod ∧
    ∀ q ∈ h₂, q.2.call ≠ .register mod

theorem make_of_none {call : Call Φ} (haddr : s.addr mod = none) (huses : call.uses mod) :
    call.make s = .ok (-1, s) := by
  cases call with
  | register | unregister | timer => cases huses
  | addlist | remlist | addpair | rempairs =>
      obtain rfl := huses
      refine (Prog.bind_of_ok (Prog.read_ok.2 rfl)).trans ?_
      rw [haddr]
      rfl
  | findpair m lid matcher hit =>
      obtain rfl := huses
      have hfind : findpair m lid matcher hit s = .ok ((-1, none), s) := by
        refine (Prog.bind_of_ok (Prog.read_ok.2 rfl)).trans ?_
        rw [haddr]
        rfl
      rw [Call.make, Prog.bind_of_ok hfind]
      rfl

/-- A module whose lists were released cannot be used any more. -/
theorem make_of_released {call : Call Φ} {a : Nat} (haddr : s.addr mod = some a)
    (hreleased : s.ctds a = none) (huses : call.uses mod) : call.make s = .error .released := by
  cases call with
  | register | unregister | timer => cases huses
  | addlist | remlist | addpair | rempairs =>
      obtain rfl := huses
      refine (Prog.bind_of_ok (Prog.read_ok.2 rfl)).trans ?_
      rw [haddr]
      exact Prog.bind_of_error (ctd_of_released hreleased)
  | findpair =>
      obtain rfl := huses
      refine Prog.bind_of_error ((Prog.bind_of_ok (Prog.read_ok.2 rfl)).trans ?_)
      rw [haddr]
      exact Prog.bind_of_error (ctd_of_released hreleased)

/-- Every module that is registered can be used. -/
structure Tied (s : State Φ) : Prop where
  lt : ∀ mod a, s.addr mod = some a → a < s.nextctd
  usable : ∀ mod, Usable s mod

theorem Tied.acts (ht : Tied s) (h : Acts mod s s') : Tied s' where
  usable mod' := h.usable (ht.lt mod') (ht.usable mod')
  lt := by
    cases h with
    | same => exact ht.lt
    | written => exact ht.lt
    | discarded => exact fun mod' a ha => Nat.lt_succ_of_lt (ht.lt mod' a ha)
    | entered _ hmod hfor hdata =>
        intro mod' a ha
        rw [State.addr_entered hmod hfor, hdata] at ha
        split at ha
        · cases ha
          exact Nat.lt_succ_self _
        · exact Nat.lt_succ_of_lt (ht.lt mod' a ha)

/-- Removing a list writes what a module has registered, however it ends. -/
theorem remlist_tied {lid : UInt16} {r : Int} (ht : Tied s) (hs' : remlist mod lid s = .ok (r, s')) :
    Tied s' ∧ ∀ mod, s'.addr mod = s.addr mod := by
  unfold remlist at hs'
  rw [Prog.bind_of_ok (Prog.read_ok.2 rfl)] at hs'
  cases haddr : s.addr mod with
  | none =>
      simp only [haddr] at hs'
      cases hs'
      exact ⟨ht, fun _ => rfl⟩
  | some a =>
      obtain ⟨lists, hlists⟩ := Option.isSome_iff_exists.1 (ht.usable mod a haddr)
      simp only [haddr] at hs'
      rw [Prog.bind_of_ok (ctd_of_live hlists), Prog.bind_ok] at hs'
      obtain ⟨lists', s₁, hloop, hrest⟩ := hs'
      obtain ⟨-, gone, rfl, -⟩ := remlistLoop_ok hloop
      cases hrest
      refine ⟨⟨ht.lt, ?_⟩, fun _ => rfl⟩
      intro mod' a' ha'
      by_cases heq : a' = a
      · subst heq
        simp [State.setCtd]
      · simp only [State.setCtd, Function.update_of_ne heq]
        exact ht.usable mod' a' ha'

theorem Tied.given (ht : Tied s) (i : Input Φ) : Tied (s.given i) := ⟨ht.lt, ht.usable⟩

theorem settles_ok {α : Type} {x : Csys Φ α} {r : α} (h : Settles mod x s)
    (hx : x s = .ok (r, s')) : Acts mod s s' := by
  obtain ⟨r', t, ht, hacts⟩ := h
  rw [hx] at ht
  cases ht
  exact hacts

/-- The step: without unregistering, modules stay usable, and only registering makes a
module that is not registered one. -/
theorem make_tied {call : Call Φ} {r : Int} (ht : Tied s)
    (hunheld : Unheld s ⟨call, s.heap, s.now⟩) (hs' : call.make s = .ok (r, s')) :
    Tied s' ∧ ∀ mod, call ≠ .register mod → s.addr mod = none → s'.addr mod = none := by
  have hacts : ∀ {m : Nafmodule}, (call = .register m ∨ call.uses m) → Acts m s s' →
      Tied s' ∧ ∀ mod, call ≠ .register mod → s.addr mod = none → s'.addr mod = none := by
    intro m hcall hacts
    refine ⟨ht.acts hacts, fun mod hne haddr => ?_⟩
    by_cases heq : mod = m
    · subst heq
      have huses : call.uses mod := hcall.resolve_left hne
      rw [make_of_none haddr huses] at hs'
      cases hs'
      exact haddr
    · rw [hacts.addr_of_ne heq]
      exact haddr
  -- a call acts for the one module it names, the timer goes through them all
  cases call with
  | register m => exact hacts (.inl rfl) (settles_ok (register_settles m s) hs')
  | unregister m =>
      have hsame : s' = s := by
        rw [Call.make, unregister, Prog.bind_of_ok (Prog.read_ok.2 rfl),
          show s.addr m = none from hunheld] at hs'
        cases hs'
        rfl
      subst hsame
      exact ⟨ht, fun mod _ haddr => haddr⟩
  | addlist m lid timeout freepair =>
      exact hacts (.inr rfl) (settles_ok (addlist_settles (ht.usable m) lid timeout freepair) hs')
  | remlist m lid =>
      obtain ⟨ht', haddr⟩ := remlist_tied ht hs'
      exact ⟨ht', fun mod _ hnone => (haddr mod).trans hnone⟩
  | addpair m lid key value =>
      exact hacts (.inr rfl) (settles_ok (addpair_settles (ht.usable m) lid key value) hs')
  | findpair m lid matcher hit =>
      obtain ⟨r', t, hfind, hr⟩ := Prog.bind_ok.1 hs'
      cases hr
      exact hacts (.inr rfl) (settles_ok (findpair_settles (ht.usable m) lid matcher hit) hfind)
  | rempairs m lid matcher =>
      exact hacts (.inr rfl) (settles_ok (rempairs_settles (ht.usable m) lid matcher) hs')
  | timer loaded =>
      obtain ⟨t, htimer, ht', haddr⟩ := timer_returns (fun mod s s' hacts ht => ht.acts hacts)
        (fun s ht => ht.lt) ht loaded fun mod _ _ => ht.usable mod
      rw [Call.make, Prog.bind_of_ok htimer] at hs'
      cases hs'
      exact ⟨ht', fun mod _ hnone => (haddr mod).trans hnone⟩

theorem unregistered_append (hun : Unregistered (h ++ [(s, i)]) mod) :
    i.call = .unregister mod ∨ Unregistered h mod ∧ i.call ≠ .register mod := by
  obtain ⟨h₁, p, h₂, heq, hcall, hrest⟩ := hun
  rcases List.eq_nil_or_concat h₂ with rfl | ⟨h₂', q, rfl⟩
  · obtain ⟨-, hp⟩ := List.append_inj' heq rfl
    cases hp
    exact .inl hcall
  · rw [List.concat_eq_append, ← List.cons_append, ← List.append_assoc] at heq
    obtain ⟨hh, hq⟩ := List.append_inj' heq rfl
    cases hq
    refine .inr ⟨⟨h₁, p, h₂', hh, hcall, fun q hq => hrest q (by simp [hq])⟩, ?_⟩
    exact hrest (s, i) (by simp)

/-- What an unregistered module leaves behind in a run that unregisters only modules that
are not registered: nothing. -/
theorem tied_of_run (hrun : Run next Start h s) (hunheld : ∀ p ∈ h, Unheld p.1 p.2) :
    Tied s ∧ ∀ mod, Unregistered h mod → s.addr mod = none := by
  refine hrun.invariant_history (I := fun h s =>
    Tied s ∧ ∀ mod, Unregistered h mod → s.addr mod = none) hunheld ?_ ?_
  · intro s hs
    refine ⟨⟨hs.good.lt, fun mod a ha => ?_⟩, ?_⟩
    · rw [Option.mem_def, hs.addr] at ha
      cases ha
    · exact fun mod _ => hs.addr mod
  · rintro h i s s' - ⟨ht, hnone⟩ hi hnext
    unfold next at hnext
    cases hmake : i.call.make (s.given i) with
    | error e =>
        simp only [hmake] at hnext
        cases hnext
    | ok r =>
        obtain ⟨r, t⟩ := r
        simp only [hmake] at hnext
        cases hnext
        have hgiven : Unheld (s.given i) ⟨i.call, i.heap, i.now⟩ := hi
        obtain ⟨ht', hkept⟩ := make_tied (ht.given i) hgiven hmake
        refine ⟨ht', fun mod hun => ?_⟩
        rcases unregistered_append hun with hcall | ⟨hun, hcall⟩
        · have hmod : s.addr mod = none := by
            simpa only [Unheld, hcall] using hi
          exact hkept mod (by simp [hcall]) hmod
        · exact hkept mod hcall (hnone mod hun)

theorem register_listsOf (haddr : s.addr mod = none) :
    ∃ r s', register mod s = .ok (r, s') ∧ s'.listsOf mod = [] := by
  obtain ⟨r, s', hs', hacts⟩ := register_settles mod s
  refine ⟨r, s', hs', ?_⟩
  cases hacts with
  | same h => exact listsOf_of_none haddr
  | written haddr' =>
      rw [haddr] at haddr'
      cases haddr'
  | entered _ hmod hfor hdata =>
      refine listsOf_of_live (a := s.nextctd) ?_ (Function.update_self ..)
      rw [State.addr_entered hmod hfor, if_pos rfl, hdata]
  | discarded h => exact listsOf_of_none haddr

/-- Unregistering a module that is registered releases its lists and leaves the pointer. -/
theorem unregister_released {a : Nat} {r : Int} (haddr : s.addr mod = some a)
    (hs' : unregister mod s = .ok (r, s')) : s'.addr mod = some a ∧ s'.ctds a = none := by
  rw [unregister, Prog.bind_of_ok (Prog.read_ok.2 rfl), haddr] at hs'
  simp only [ctdFree] at hs'
  obtain ⟨_, s₂, hfree, hr⟩ := Prog.bind_ok.1 hs'
  obtain ⟨lists, s₁, hctd, hfree⟩ := Prog.bind_ok.1 hfree
  obtain ⟨_, s₃, hloop, hrest⟩ := Prog.bind_ok.1 hfree
  have hsame : s₁ = s := by
    unfold ctd at hctd
    split at hctd
    · cases hctd
      rfl
    · cases hctd
  subst hsame
  obtain ⟨-, gone, rfl, -⟩ := ctdFreeLoop_ok hloop
  cases hrest
  cases hr
  exact ⟨haddr, Function.update_self ..⟩

/-- In a run that unregisters only modules that are not registered, an unregistered module
is refused every call, the timer returns, and a later registration starts without lists.
Of a module that is registered none of this is true. -/
theorem unregistered_unused (hrun : Run next Start h s) (hunheld : ∀ p ∈ h, Unheld p.1 p.2) :
    (∀ mod, Unregistered h mod →
      (∀ i : Input Φ, i.call.uses mod → i.call.make (s.given i) = .ok (-1, s.given i)) ∧
      ∀ i : Input Φ, ∃ r s', register mod (s.given i) = .ok (r, s') ∧ s'.listsOf mod = []) ∧
      (∀ loaded (i : Input Φ), ∃ s', timer loaded (s.given i) = .ok ((), s')) ∧
      ∀ mod r s', unregister mod s = .ok (r, s') →
        ((∀ i : Input Φ, i.call.uses mod → i.call.make (s'.given i) = .ok (-1, s'.given i)) ↔
          s.addr mod = none) := by
  obtain ⟨ht, hnone⟩ := tied_of_run hrun hunheld
  refine ⟨?_, ?_, ?_⟩
  · intro mod hun
    have haddr : ∀ i, (s.given i).addr mod = none := fun i => hnone mod hun
    exact ⟨fun i huses => make_of_none (haddr i) huses, fun i => register_listsOf (haddr i)⟩
  · intro loaded i
    obtain ⟨s', hs', -⟩ := timer_returns (fun mod s s' hacts ht => ht.acts hacts)
      (fun s ht => ht.lt) (ht.given i) loaded fun mod _ _ => ht.usable mod
    exact ⟨s', hs'⟩
  · intro mod r s' hs'
    constructor
    · intro hrefused
      cases haddr : s.addr mod with
      | none => rfl
      | some a =>
          obtain ⟨haddr', hreleased⟩ := unregister_released haddr hs'
          have hremlist : (Call.remlist mod 0).make s' = .ok (-1, s') :=
            hrefused ⟨.remlist mod 0, s'.heap, s'.now⟩ rfl
          rw [make_of_released haddr' hreleased (show Call.uses mod (.remlist mod 0) from rfl)] at hremlist
          cases hremlist
    · intro haddr i huses
      have hsame : s' = s := by
        rw [unregister, Prog.bind_of_ok (Prog.read_ok.2 rfl), haddr] at hs'
        cases hs'
        rfl
      subst hsame
      exact make_of_none haddr huses

theorem unregistered_of_inputs {l : List (Input Φ)}
    (hinputs : h.map (·.2) = l ++ [i]) (hi : i.call = .unregister mod) : Unregistered h mod := by
  obtain ⟨h₁, h₂, rfl, -, hlast⟩ := List.map_eq_append_iff.1 hinputs
  obtain ⟨p, h₃, rfl, hp, hnil⟩ := List.map_eq_cons_iff.1 hlast
  refine ⟨h₁, p, h₃, rfl, by rw [hp, hi], ?_⟩
  intro q hq
  rw [List.map_eq_nil_iff.1 hnil] at hq
  cases hq

/-- A module that has not registered. -/
def client : Nafmodule := ⟨lit "client"⟩

/-- Another module has its pairs in the cache when one that never registered unregisters. -/
theorem unregistered_unused_client :
    ∃ h s, Run next Start h s ∧ h.map (·.2) = filling 2 ++ [⟨.unregister client, .zeroed, 0⟩] ∧
      s.held.length = 2 ∧ (∀ i : Input Nat, i.call.uses client → i.call.make (s.given i) = .ok (-1, s.given i)) ∧
      ∀ loaded (i : Input Nat), ∃ s', timer loaded (s.given i) = .ok ((), s') := by
  have hreach : (replayInputs next (filling 2 ++ [⟨.unregister client, .zeroed, 0⟩]) emptycache).toOption.any
      (fun r => decide (∀ p ∈ r.1, p.1.addr client = none) && decide (r.2.held.length = 2)) = true := by
    decide +kernel
  obtain ⟨h, s, hrun, hinputs, hs⟩ := Run.exists_of_replay emptycache_start hreach
  rw [Bool.and_eq_true, decide_eq_true_eq, decide_eq_true_eq] at hs
  have honly (i : Input Nat) (hi : i ∈ filling 2 ++ [⟨.unregister client, .zeroed, 0⟩]) (mod : Nafmodule)
      (hcall : i.call = .unregister mod) : mod = client := by
    simp only [filling, List.range_succ, List.range_zero, List.nil_append, List.map_cons,
      List.map_nil, List.cons_append, List.mem_cons, List.not_mem_nil, or_false] at hi
    rcases hi with rfl | rfl | rfl | rfl | rfl <;> cases hcall
    rfl
  have hunheld : ∀ p ∈ h, Unheld p.1 p.2 := by
    intro p hp
    have hmem : p.2 ∈ filling 2 ++ [⟨.unregister client, .zeroed, 0⟩] := hinputs ▸ List.mem_map_of_mem hp
    unfold Unheld
    split
    · rename_i mod hcall
      exact honly p.2 hmem mod hcall ▸ hs.1 p hp
    · exact trivial
  have hunregistered : Unregistered h client := unregistered_of_inputs hinputs rfl
  have hunused := unregistered_unused hrun hunheld
  exact ⟨h, s, hrun, hinputs, hs.2, (hunused.1 client hunregistered).1, hunused.2.1⟩

/-- A module that registered, unregistered and adds a list: the released lists are used. -/
theorem released_lists_used : ∃ h s, Run next Start h s ∧ Unregistered h gateway ∧
    (Call.addlist gateway 1 60 (some 1)).make s = .error .released ∧
    (Call.timer fun _ => true).make s = .error .released := by
  have hreach : (replayInputs next
      ([⟨.register gateway, .zeroed, 0⟩] ++ [⟨.unregister gateway, .zeroed, 0⟩])
      emptycache).toOption.any (fun r =>
        [Call.addlist gateway 1 60 (some 1), .timer fun _ => true].all fun call =>
          match call.make r.2 with
          | .error e => decide (e = .released)
          | .ok _ => false) = true := by
    decide +kernel
  obtain ⟨h, s, hrun, hinputs, hs⟩ := Run.exists_of_replay emptycache_start hreach
  have hstops : ∀ call ∈ [Call.addlist gateway 1 60 (some 1), .timer fun _ => true],
      call.make s = .error .released := by
    intro call hcall
    have hstop := List.all_eq_true.1 hs call hcall
    cases hmake : call.make s with
    | ok r =>
        simp only [hmake] at hstop
        cases hstop
    | error e =>
        simp only [hmake, decide_eq_true_eq] at hstop
        rw [hstop]
  exact ⟨h, s, hrun, unregistered_of_inputs hinputs rfl, hstops _ (.head _),
    hstops _ (.tail _ (.head _))⟩

end Timps.Naf.Cache
