-- SUMMARY: Whole runs of the cache in which every pair is freed once, and when a removal frees what there is.
import Timps.Naf.Cachepairs

/-!
# Runs of the cache

A run is sound when it takes lists apart only where they are empty, and uses no module
whose lists have been released: then each pair is freed once.
-/

namespace Timps.Naf.Cache

variable {Φ : Type} {mod : Nafmodule} {s s' : State Φ} {i : Input Φ} {h : List (State Φ × Input Φ)}

/-- The cache before its first call. -/
structure Start (s : State Φ) : Prop where
  modules : s.modules.Nodup
  addr : ∀ mod, s.addr mod = none
  added : s.added = []
  freed : s.freed = []

theorem Start.good (hs : Start s) : Good s where
  modules := hs.modules
  lt mod a ha := by
    rw [hs.addr] at ha
    cases ha
  inj mod mod' a ha := by
    rw [hs.addr] at ha
    cases ha
  pids := by
    rw [hs.added]
    exact List.nodup_nil
  fresh t ht := by
    rw [hs.added] at ht
    cases ht
  balance := by
    have hheld : s.held = [] := by
      rw [State.held, List.flatMap_eq_nil_iff]
      intro mod _
      rw [State.holds, listsOf_of_none (hs.addr mod)]
      rfl
    rw [hheld, hs.freed, hs.added]
    exact .nil

theorem Good.given (hg : Good s) (i : Input Φ) : Good (s.given i) :=
  ⟨⟨hg.balance, hg.pids⟩, hg.modules, hg.lt, hg.inj, hg.fresh⟩

/-! ## The timer -/

theorem timerIter_addr (now : Int) (hu : Usable s mod) :
    ∃ s', timerIter now mod s = .ok ((), s') ∧ Acts mod s s' ∧ ∀ mod', s'.addr mod' = s.addr mod' := by
  obtain ⟨_, s', hs', hacts⟩ := timerIter_settles now hu
  refine ⟨s', hs', hacts, ?_⟩
  intro mod'
  cases hacts with
  | same h => rfl
  | written => rfl
  | discarded => rfl
  | @entered h tag haddr =>
      -- a module without a tag is passed over
      rw [timerIter, Prog.bind_of_ok (Prog.read_ok.2 rfl), haddr] at hs'
      have hsame : s.entered mod tag h = s := (congrArg Prod.snd (Except.ok.inj hs')).symm
      rw [hsame]

/-- The timer returns, and keeps what every call keeps. -/
theorem timer_returns {I : State Φ → Prop}
    (hI : ∀ mod s s', Acts mod s s' → I s → I s')
    (hlt : ∀ s, I s → ∀ mod a, s.addr mod = some a → a < s.nextctd)
    (hs : I s) (loaded : Nafmodule → Bool)
    (hu : ∀ mod ∈ s.modules, loaded mod = true → Usable s mod) :
    ∃ s', timer loaded s = .ok ((), s') ∧ I s' ∧ ∀ mod, s'.addr mod = s.addr mod := by
  have heach : ∀ (now : Int) (l : List Nafmodule) (t : State Φ), I t → (∀ mod ∈ l, Usable t mod) →
      ∃ s', Prog.each (timerIter now) l t = .ok ((), s') ∧ I s' ∧
        ∀ mod, s'.addr mod = t.addr mod := by
    intro now l
    induction l with
    | nil => exact fun t ht _ => ⟨t, rfl, ht, fun _ => rfl⟩
    | cons mod l ih =>
        intro t ht hu
        obtain ⟨t₁, ht₁, hacts, haddr⟩ := timerIter_addr now (hu mod (.head _))
        obtain ⟨s', hs', hI', haddr'⟩ := ih t₁ (hI mod t t₁ hacts ht) fun mod' hmod' =>
          hacts.usable (hlt t ht mod') (hu mod' (.tail _ hmod'))
        refine ⟨s', ?_, hI', ?_⟩
        · rw [Prog.each, Prog.bind_of_ok ht₁]
          exact hs'
        · intro mod'
          rw [haddr', haddr]
  unfold timer
  rw [Prog.bind_of_ok (Prog.read_ok.2 rfl), Prog.bind_of_ok (Prog.read_ok.2 rfl)]
  apply heach s.now _ s hs
  intro mod hmod
  obtain ⟨hmem, hloaded⟩ := List.mem_filter.1 hmod
  exact hu mod hmem hloaded

/-! ## Runs that free every pair once -/

/-- Lists are taken apart only where they hold no pairs, and by twos; what was released is
not used. -/
def Sound (s : State Φ) (i : Input Φ) : Prop :=
  match i.call with
  | .register _ => True
  | .unregister mod =>
      Usable s mod ∧ (s.listsOf mod).length % 2 = 0 ∧ ∀ cl ∈ s.listsOf mod, cl.pairs = []
  | .remlist mod lid => Usable s mod ∧ ∀ cl ∈ s.listsOf mod, cl.lid = lid → cl.pairs = []
  | .addlist mod _ _ _ => Usable s mod
  | .addpair mod _ _ _ => Usable s mod
  | .findpair mod _ _ _ => Usable s mod
  | .rempairs mod _ _ => Usable s mod
  | .timer loaded => ∀ mod ∈ s.modules, loaded mod = true → Usable s mod

instance (s : State Φ) (i : Input Φ) : Decidable (Sound s i) := by
  unfold Sound
  split <;> infer_instance

theorem unregister_of_empty (hu : Usable s mod) (heven : (s.listsOf mod).length % 2 = 0)
    (hempty : ∀ cl ∈ s.listsOf mod, cl.pairs = []) :
    s.addr mod = none ∧ unregister mod s = .ok (0, s) ∨
      ∃ a, s.addr mod = some a ∧ unregister mod s = .ok (0, s.setCtd a none) := by
  unfold unregister
  rw [Prog.bind_of_ok (Prog.read_ok.2 rfl)]
  cases haddr : s.addr mod with
  | none => exact .inl ⟨rfl, rfl⟩
  | some a =>
      obtain ⟨lists, hlists⟩ := Option.isSome_iff_exists.1 (hu a haddr)
      rw [listsOf_of_live haddr hlists] at heven hempty
      refine .inr ⟨a, rfl, ?_⟩
      dsimp only
      rw [Prog.bind_of_ok (ctdFree_of_empty hlists heven hempty)]
      rfl

/-- Lists without pairs can be released. -/
theorem Good.release {a : Nat} (hg : Good s) (haddr : s.addr mod = some a)
    (hempty : ∀ cl ∈ s.listsOf mod, cl.pairs = []) : Good (s.setCtd a none) where
  modules := hg.modules
  lt := hg.lt
  inj := hg.inj
  pids := hg.pids
  fresh := hg.fresh
  balance := by
    have hheld : (s.setCtd a none).held = s.held := by
      apply List.flatMap_congr
      intro mod' _
      by_cases heq : mod' = mod
      · subst heq
        have hnow : (s.setCtd a none).listsOf mod' = [] := by
          have haddr' : (s.setCtd a none).addr mod' = some a := haddr
          rw [State.listsOf, haddr']
          simp [State.setCtd]
        rw [State.holds, State.holds, hnow, tickets_eq_nil.2 hempty]
        rfl
      · refine holds_congr s (s.setCtd a none) rfl fun a' haddr' => ?_
        apply Function.update_of_ne
        rintro rfl
        exact heq (hg.inj _ _ _ haddr' haddr)
    rw [hheld]
    exact hg.balance

theorem settles_good {α : Type} {x : Csys Φ α} (hg : Good s) (h : Settles mod x s) :
    ∃ r s', x s = .ok (r, s') ∧ Good s' := by
  obtain ⟨r, s', hx, hacts⟩ := h
  exact ⟨r, s', hx, hg.acts hacts⟩

theorem tickets_filter {lid : UInt16} {lists : List (Cachelist Φ)}
    (hempty : ∀ cl ∈ lists, cl.lid = lid → cl.pairs = []) :
    tickets mod (lists.filter (·.lid ≠ lid)) = tickets mod lists := by
  induction lists with
  | nil => rfl
  | cons cl lists ih =>
      have hrest := ih fun d hd => hempty d (.tail _ hd)
      by_cases hlid : cl.lid = lid
      · rw [List.filter_cons_of_neg (by simpa using hlid), hrest, tickets_cons,
          hempty cl (.head _) hlid]
        rfl
      · rw [List.filter_cons_of_pos (by simpa using hlid), tickets_cons, tickets_cons, hrest]

theorem remlist_of_empty {lid : UInt16} (hu : Usable s mod)
    (hempty : ∀ cl ∈ s.listsOf mod, cl.lid = lid → cl.pairs = []) :
    s.addr mod = none ∧ remlist mod lid s = .ok (-1, s) ∨
      ∃ a, s.addr mod = some a ∧ remlist mod lid s =
        .ok (0, s.written a ((s.listsOf mod).filter (·.lid ≠ lid)) [] [] s.heap) := by
  unfold remlist
  rw [Prog.bind_of_ok (Prog.read_ok.2 rfl)]
  cases haddr : s.addr mod with
  | none => exact .inl ⟨rfl, rfl⟩
  | some a =>
      obtain ⟨lists, hlists⟩ := Option.isSome_iff_exists.1 (hu a haddr)
      rw [listsOf_of_live haddr hlists] at hempty ⊢
      refine .inr ⟨a, rfl, ?_⟩
      dsimp only
      rw [Prog.bind_of_ok (ctd_of_live hlists), Prog.bind_of_ok (remlistLoop_of_empty hempty),
        ← setCtd_eq_written]
      rfl

theorem remlist_settles {lid : UInt16} (hu : Usable s mod)
    (hempty : ∀ cl ∈ s.listsOf mod, cl.lid = lid → cl.pairs = []) :
    Settles mod (remlist mod lid) s := by
  obtain ⟨-, hs'⟩ | ⟨a, haddr, hs'⟩ := remlist_of_empty hu hempty
  · exact ⟨-1, s, hs', .same s.heap⟩
  · obtain ⟨lists, hlists⟩ := Option.isSome_iff_exists.1 (hu a haddr)
    have hof := listsOf_of_live haddr hlists
    refine ⟨0, _, hs', .written haddr hlists ?_ rfl⟩
    rw [tickets_filter hempty, hof, List.append_nil, List.nil_append]

/-- The step: a sound call returns and keeps the account. -/
theorem make_good {call : Call Φ} (hg : Good s) (hsound : Sound s ⟨call, s.heap, s.now⟩) :
    ∃ r s', call.make s = .ok (r, s') ∧ Good s' := by
  cases call with
  | register mod => exact settles_good hg (register_settles mod s)
  | unregister mod =>
      obtain ⟨hu, heven, hempty⟩ := hsound
      obtain ⟨-, hs'⟩ | ⟨a, haddr, hs'⟩ := unregister_of_empty hu heven hempty
      · exact ⟨0, s, hs', hg⟩
      · exact ⟨0, _, hs', hg.release haddr hempty⟩
  | addlist mod lid timeout freepair =>
      exact settles_good hg (addlist_settles hsound lid timeout freepair)
  | remlist mod lid => exact settles_good hg (remlist_settles hsound.1 hsound.2)
  | addpair mod lid key value => exact settles_good hg (addpair_settles hsound lid key value)
  | findpair mod lid matcher hit =>
      obtain ⟨r, s', hs', hg'⟩ := settles_good hg (findpair_settles hsound lid matcher hit)
      refine ⟨r.1, s', ?_, hg'⟩
      rw [Call.make, Prog.bind_of_ok hs']
      rfl
  | rempairs mod lid matcher => exact settles_good hg (rempairs_settles hsound lid matcher)
  | timer loaded =>
      obtain ⟨s', hs', hg', -⟩ := timer_returns (fun mod s s' hacts hg => hg.acts hacts)
        (fun s hg => hg.lt) hg loaded hsound
      refine ⟨0, s', ?_, hg'⟩
      rw [Call.make, Prog.bind_of_ok hs']
      rfl

theorem next_good (hg : Good s) (hsound : Sound s i) : ∃ s', next i s = .ok s' ∧ Good s' := by
  have hgiven : Sound (s.given i) ⟨i.call, i.heap, i.now⟩ := hsound
  obtain ⟨r, s', hs', hg'⟩ := make_good (hg.given i) hgiven
  exact ⟨s', by rw [next, hs'], hg'⟩

theorem good_of_run (hrun : Run next Start h s) (hsound : ∀ p ∈ h, Sound p.1 p.2) : Good s := by
  refine hrun.invariant_history (I := fun _ s => Good s) hsound ?_ ?_
  · exact fun s hs => hs.good
  · intro h i s s' _ hg hi hnext
    obtain ⟨t, ht, hg'⟩ := next_good hg hi
    rw [ht] at hnext
    cases hnext
    exact hg'

/-- A call returns, and has freed these pairs, each of them once. -/
def Frees (call : Csys Φ Int) (s : State Φ) (gone : List (Ticket Φ)) : Prop :=
  ∃ r s', call s = .ok (r, s') ∧ s'.freed.Perm (s.freed ++ gone)

/-- A list that is removed is rid of its pairs where it had none. -/
theorem remlist_frees_iff (hu : Usable s mod) (lid : UInt16) :
    Frees (remlist mod lid) s (tickets mod ((s.listsOf mod).filter (·.lid = lid))) ↔
      ∀ cl ∈ s.listsOf mod, cl.lid = lid → cl.pairs = [] := by
  constructor
  · rintro ⟨r, s', hs', hperm⟩
    unfold remlist at hs'
    rw [Prog.bind_of_ok (Prog.read_ok.2 rfl)] at hs'
    cases haddr : s.addr mod with
    | none =>
        rw [listsOf_of_none haddr]
        intro cl hcl
        cases hcl
    | some a =>
        obtain ⟨lists, hlists⟩ := Option.isSome_iff_exists.1 (hu a haddr)
        rw [listsOf_of_live haddr hlists] at hperm ⊢
        simp only [haddr] at hs'
        rw [Prog.bind_of_ok (ctd_of_live hlists), Prog.bind_ok] at hs'
        obtain ⟨lists', s₁, hloop, hrest⟩ := hs'
        obtain ⟨-, gone, rfl, hgone⟩ := remlistLoop_ok hloop
        have hfreed : s'.freed = s.freed ++ gone := by
          cases hrest
          rfl
        have hlength := hperm.length_eq
        rw [hfreed, List.length_append, List.length_append] at hlength
        have hnil : tickets mod (lists.filter (·.lid = lid)) = [] :=
          List.eq_nil_of_length_eq_zero (by omega)
        intro cl hcl hlid
        exact tickets_eq_nil.1 hnil cl (List.mem_filter.2 ⟨hcl, by simpa using hlid⟩)
  · intro hempty
    have hnil : tickets mod ((s.listsOf mod).filter (·.lid = lid)) = [] := by
      rw [tickets_eq_nil]
      intro cl hcl
      obtain ⟨hmem, hlid⟩ := List.mem_filter.1 hcl
      exact hempty cl hmem (by simpa using hlid)
    rw [hnil]
    obtain ⟨-, hs'⟩ | ⟨a, -, hs'⟩ := remlist_of_empty hu hempty
    · exact ⟨-1, s, hs', by rw [List.append_nil]⟩
    · exact ⟨0, _, hs', .refl _⟩

/-- A module that is unregistered is rid of its pairs where it had none, in an even
number of lists. -/
theorem unregister_frees_iff (hu : Usable s mod) :
    Frees (unregister mod) s (s.holds mod) ↔
      (s.listsOf mod).length % 2 = 0 ∧ ∀ cl ∈ s.listsOf mod, cl.pairs = [] := by
  constructor
  · rintro ⟨r, s', hs', hperm⟩
    unfold unregister at hs'
    rw [Prog.bind_of_ok (Prog.read_ok.2 rfl)] at hs'
    cases haddr : s.addr mod with
    | none =>
        rw [listsOf_of_none haddr]
        refine ⟨rfl, fun cl hcl => ?_⟩
        cases hcl
    | some a =>
        obtain ⟨lists, hlists⟩ := Option.isSome_iff_exists.1 (hu a haddr)
        rw [holds_of_live haddr hlists] at hperm
        rw [listsOf_of_live haddr hlists]
        simp only [haddr, ctdFree] at hs'
        rw [Prog.bind_ok] at hs'
        obtain ⟨_, s₂, hfree, hr⟩ := hs'
        rw [Prog.bind_of_ok (ctd_of_live hlists), Prog.bind_ok] at hfree
        obtain ⟨_, s₁, hloop, hrest⟩ := hfree
        obtain ⟨heven, gone, rfl, hgone⟩ := ctdFreeLoop_ok hloop
        have hfreed : s'.freed = s.freed ++ gone := by
          cases hr
          cases hrest
          rfl
        have hlength := hperm.length_eq
        rw [hfreed, List.length_append, List.length_append] at hlength
        have hnil : tickets mod lists = [] := List.eq_nil_of_length_eq_zero (by omega)
        exact ⟨heven, tickets_eq_nil.1 hnil⟩
  · rintro ⟨heven, hempty⟩
    have hnil : s.holds mod = [] := tickets_eq_nil.2 hempty
    rw [hnil]
    obtain ⟨-, hs'⟩ | ⟨a, -, hs'⟩ := unregister_of_empty hu heven hempty
    · exact ⟨0, s, hs', by rw [List.append_nil]⟩
    · exact ⟨0, _, hs', by rw [List.append_nil]; exact .refl _⟩

/-- In a sound run every pair added is held or has been freed once, and the next sound call
returns. What a list or a module holds is freed by its removal exactly where that is sound. -/
theorem pairs_freed_once (hrun : Run next Start h s) (hsound : ∀ p ∈ h, Sound p.1 p.2) :
    Accounted s ∧ (∀ i, Sound s i → ∃ s', next i s = .ok s') ∧
      ∀ mod, Usable s mod →
        (∀ lid, Frees (remlist mod lid) s (tickets mod ((s.listsOf mod).filter (·.lid = lid))) ↔
          ∀ cl ∈ s.listsOf mod, cl.lid = lid → cl.pairs = []) ∧
        (Frees (unregister mod) s (s.holds mod) ↔
          (s.listsOf mod).length % 2 = 0 ∧ ∀ cl ∈ s.listsOf mod, cl.pairs = []) := by
  have hg := good_of_run hrun hsound
  refine ⟨hg.toAccounted, ?_, ?_⟩
  · intro i hi
    obtain ⟨s', hs', -⟩ := next_good hg hi
    exact ⟨s', hs'⟩
  · intro mod hu
    exact ⟨remlist_frees_iff hu, unregister_frees_iff hu⟩

/-- A module that uses the cache. -/
def gateway : Nafmodule := ⟨lit "gateway"⟩

/-- The cache when it has just started. -/
def emptycache : State Nat where
  modules := [gateway]
  taglist := fun _ => []
  ctds := fun _ => none
  nextctd := 0
  nextpid := 0
  heap := .zeroed
  now := 0
  added := []
  freed := []

theorem emptycache_start : Start emptycache where
  modules := by simp [emptycache]
  addr mod := by
    unfold State.addr
    split <;> rfl
  added := rfl
  freed := rfl

/-- The module registers, adds a list with freepair function 1, and fills it with `n` pairs. -/
def filling (n : Nat) : List (Input Nat) :=
  [⟨.register gateway, .zeroed, 0⟩, ⟨.addlist gateway 1 60 (some 1), .zeroed, 0⟩] ++
    (List.range n).map fun k => ⟨.addpair gateway 1 k k, .zeroed, 0⟩

/-- It removes all pairs, the list and itself. -/
def emptying : List (Input Nat) :=
  [⟨.rempairs gateway 1 fun _ => true, .zeroed, 0⟩, ⟨.remlist gateway 1, .zeroed, 0⟩,
    ⟨.unregister gateway, .zeroed, 0⟩]

theorem pairs_freed_once_filling : ∃ h s, Run next Start h s ∧
    h.map (·.2) = filling 3 ++ emptying ∧ Accounted s ∧ s.held = [] ∧ s.freed.length = 3 := by
  have hreach : (replayInputs next (filling 3 ++ emptying) emptycache).toOption.any
      (fun r => decide (∀ p ∈ r.1, Sound p.1 p.2) && decide (r.2.held = []) &&
        decide (r.2.freed.length = 3)) = true := by
    decide +kernel
  obtain ⟨h, s, hrun, hinputs, hs⟩ := Run.exists_of_replay emptycache_start hreach
  simp only [Bool.and_eq_true, decide_eq_true_eq] at hs
  exact ⟨h, s, hrun, hinputs, (pairs_freed_once hrun hs.1.1).1, hs.1.2, hs.2⟩

/-- Of a list of two pairs one is lost when the list is removed; a list of one pair is
followed beyond its end. -/
theorem pairs_not_freed :
    (∃ h s, Run next Start h s ∧ h.map (·.2) = filling 2 ++ [⟨.remlist gateway 1, .zeroed, 0⟩] ∧
      ¬Accounted s) ∧
    ∃ h s, Run next Start h s ∧ h.map (·.2) = filling 1 ∧
      next ⟨.remlist gateway 1, .zeroed, 0⟩ s = .error .null := by
  constructor
  · have hreach : (replayInputs next (filling 2 ++ [⟨.remlist gateway 1, .zeroed, 0⟩])
        emptycache).toOption.any (fun r => decide ((r.2.held ++ r.2.freed).length ≠
          r.2.added.length)) = true := by
      decide +kernel
    obtain ⟨h, s, hrun, hinputs, hs⟩ := Run.exists_of_replay emptycache_start hreach
    refine ⟨h, s, hrun, hinputs, fun haccounted => ?_⟩
    exact of_decide_eq_true hs haccounted.balance.length_eq
  · have hreach : (replayInputs next (filling 1) emptycache).toOption.any
        (fun r => match next ⟨.remlist gateway 1, .zeroed, 0⟩ r.2 with
          | .error e => decide (e = .null)
          | .ok _ => false) = true := by
      decide +kernel
    obtain ⟨h, s, hrun, hinputs, hs⟩ := Run.exists_of_replay emptycache_start hreach
    refine ⟨h, s, hrun, hinputs, ?_⟩
    cases hnext : next ⟨.remlist gateway 1, .zeroed, 0⟩ s with
    | ok s' =>
        simp only [hnext] at hs
        cases hs
    | error e =>
        simp only [hnext, decide_eq_true_eq] at hs
        rw [hs]

end Timps.Naf.Cache
