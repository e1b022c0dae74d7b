-- SUMMARY: What becomes of the pairs of the cache: the loops that free them, and the account of every pair added.
import Mathlib.Data.List.Induction
import Mathlib.Data.List.Perm.Basic
import Timps.Base.Run
import Timps.Naf.Cache

/-!
# The pairs of the cache

The loops that take a list apart move on twice after each element: they free every second
one, and fall off the end of a list of odd length. So nothing is lost only where there was
nothing to free. All other calls keep account of every pair: it is held by a list of a
registered module, or has been freed once.
-/

namespace Timps.Naf.Cache

variable {Φ : Type} {mod : Nafmodule} {s s' : State Φ} {a : Nat}

/-- The state after pairs were freed. -/
def State.release (gone : List (Ticket Φ)) (s : State Φ) : State Φ :=
  { s with freed := s.freed ++ gone }

@[simp] theorem release_nil : s.release [] = s := by
  simp [State.release]

/-- Releases one after the other are one release. -/
theorem release_append (gone gone' : List (Ticket Φ)) :
    (s.release gone).release gone' = s.release (gone ++ gone') := by
  simp [State.release]

theorem cpFree_eq (cl : Cachelist Φ) (cp : Cachepair) :
    cpFree mod cl cp s = .ok ((), s.release [ticket mod cl cp]) := rfl

theorem ctd_of_live {lists : List (Cachelist Φ)} (h : s.ctds a = some lists) :
    ctd a s = .ok (lists, s) := by
  simp only [ctd, h]

/-- The data of a client that has unregistered cannot be used. -/
theorem ctd_of_released (h : s.ctds a = none) : ctd a s = .error .released := by
  simp only [ctd, h]

/-- The pairs of some lists. -/
def tickets (mod : Nafmodule) (lists : List (Cachelist Φ)) : List (Ticket Φ) :=
  lists.flatMap fun cl => cl.pairs.map (ticket mod cl)

@[simp] theorem tickets_nil : tickets mod ([] : List (Cachelist Φ)) = [] := rfl

@[simp] theorem tickets_cons (cl : Cachelist Φ) (lists : List (Cachelist Φ)) :
    tickets mod (cl :: lists) = cl.pairs.map (ticket mod cl) ++ tickets mod lists := rfl

@[simp] theorem tickets_append (l l' : List (Cachelist Φ)) :
    tickets mod (l ++ l') = tickets mod l ++ tickets mod l' := List.flatMap_append

/-- Nothing is held just when every list is empty. -/
theorem tickets_eq_nil {lists : List (Cachelist Φ)} :
    tickets mod lists = [] ↔ ∀ cl ∈ lists, cl.pairs = [] := by
  simp [tickets]

/-! ## The loops that move on twice -/

/-- When the loop over the pairs comes to its end, it has released half of them. -/
theorem clFreeLoop_ok {cl : Cachelist Φ} {pairs : List Cachepair}
    (h : clFreeLoop mod cl pairs s = .ok ((), s')) :
    ∃ gone, s' = s.release gone ∧ 2 * gone.length = pairs.length := by
  induction pairs using List.twoStepInduction generalizing s with
  | nil =>
      cases h
      exact ⟨[], release_nil.symm, rfl⟩
  | singleton cp =>
      simp only [clFreeLoop, Prog.bind_of_ok (cpFree_eq cl cp), Prog.fault_ok] at h
  | cons_cons cp cp' pairs ih =>
      simp only [clFreeLoop, Prog.bind_of_ok (cpFree_eq cl cp)] at h
      obtain ⟨gone, rfl, hlength⟩ := ih h
      refine ⟨ticket mod cl cp :: gone, release_append _ _, ?_⟩
      simp only [List.length_cons]
      omega

theorem clFree_of_empty {cl : Cachelist Φ} (h : cl.pairs = []) : clFree mod cl s = .ok ((), s) := by
  rw [clFree, h]
  rfl

/-- Half of the pairs at most are freed, and no list is left over. -/
theorem ctdFreeLoop_ok {lists : List (Cachelist Φ)}
    (h : ctdFreeLoop mod lists s = .ok ((), s')) :
    lists.length % 2 = 0 ∧
      ∃ gone, s' = s.release gone ∧ 2 * gone.length ≤ (tickets mod lists).length := by
  induction lists using List.twoStepInduction generalizing s with
  | nil =>
      cases h
      exact ⟨rfl, [], release_nil.symm, Nat.le_refl _⟩
  | singleton cl =>
      simp only [ctdFreeLoop, Prog.bind_ok, Prog.fault_ok, and_false, exists_false] at h
  | cons_cons cl cl' lists ih =>
      rw [ctdFreeLoop, Prog.bind_ok] at h
      obtain ⟨_, s₁, hcl, hrest⟩ := h
      obtain ⟨gone, rfl, hgone⟩ := clFreeLoop_ok hcl
      obtain ⟨heven, gone', rfl, hgone'⟩ := ih hrest
      refine ⟨by simp only [List.length_cons]; omega, gone ++ gone', release_append _ _, ?_⟩
      simp only [tickets_cons, List.length_append, List.length_map]
      omega

theorem ctdFreeLoop_of_empty {lists : List (Cachelist Φ)} (heven : lists.length % 2 = 0)
    (hempty : ∀ cl ∈ lists, cl.pairs = []) : ctdFreeLoop mod lists s = .ok ((), s) := by
  induction lists using List.twoStepInduction with
  | nil => rfl
  | singleton cl => cases heven
  | cons_cons cl cl' lists ih =>
      rw [ctdFreeLoop, Prog.bind_of_ok (clFree_of_empty (hempty cl (.head _)))]
      apply ih
      · simp only [List.length_cons] at heven
        omega
      · exact fun d hd => hempty d (.tail _ (.tail _ hd))

theorem ctdFree_of_empty {lists : List (Cachelist Φ)} (hlists : s.ctds a = some lists)
    (heven : lists.length % 2 = 0) (hempty : ∀ cl ∈ lists, cl.pairs = []) :
    ctdFree mod a s = .ok ((), s.setCtd a none) := by
  rw [ctdFree, Prog.bind_of_ok (ctd_of_live hlists),
    Prog.bind_of_ok (ctdFreeLoop_of_empty heven hempty)]
  rfl

/-- Half of the pairs of the lists of that id at most are freed; the other lists stay. -/
theorem remlistLoop_ok {lid : UInt16} {lists lists' : List (Cachelist Φ)}
    (h : remlistLoop mod lid lists s = .ok (lists', s')) :
    lists' = lists.filter (·.lid ≠ lid) ∧ ∃ gone, s' = s.release gone ∧
      2 * gone.length = (tickets mod (lists.filter (·.lid = lid))).length := by
  induction lists generalizing s lists' with
  | nil =>
      cases h
      exact ⟨rfl, [], release_nil.symm, rfl⟩
  | cons cl lists ih =>
      rw [remlistLoop] at h
      by_cases hlid : cl.lid = lid
      · rw [if_pos hlid, Prog.bind_ok] at h
        obtain ⟨_, s₁, hcl, hrest⟩ := h
        obtain ⟨gone, rfl, hgone⟩ := clFreeLoop_ok hcl
        obtain ⟨rfl, gone', rfl, hgone'⟩ := ih hrest
        refine ⟨by simp [hlid], gone ++ gone', release_append _ _, ?_⟩
        simp only [hlid, decide_true, List.filter_cons_of_pos, tickets_cons, List.length_append,
          List.length_map]
        omega
      · rw [if_neg hlid, Prog.bind_ok] at h
        obtain ⟨l, s₁, hrest, hr⟩ := h
        cases Prog.pure_ok.1 hr
        obtain ⟨rfl, gone, rfl, hgone⟩ := ih hrest
        exact ⟨by simp [hlid], gone, rfl, by simpa [hlid] using hgone⟩

theorem remlistLoop_of_empty {lid : UInt16} {lists : List (Cachelist Φ)}
    (hempty : ∀ cl ∈ lists, cl.lid = lid → cl.pairs = []) :
    remlistLoop mod lid lists s = .ok (lists.filter (·.lid ≠ lid), s) := by
  induction lists with
  | nil => rfl
  | cons cl lists ih =>
      have hrest := ih fun d hd => hempty d (.tail _ hd)
      rw [remlistLoop]
      by_cases hlid : cl.lid = lid
      · rw [if_pos hlid, Prog.bind_of_ok (clFree_of_empty (hempty cl (.head _) hlid)), hrest]
        simp [hlid]
      · rw [if_neg hlid, Prog.bind_of_ok hrest]
        simp [hlid, Prog.pure_run]

/-! ## The walks that free pairs -/

/-- A sweep releases what is out, and keeps the rest in order. -/
theorem sweep_eq (cl : Cachelist Φ) (out : Cachepair → Bool) (l : List Cachepair) :
    sweep mod cl out l s =
      .ok (l.filter (!out ·), s.release ((l.filter out).map (ticket mod cl))) := by
  induction l generalizing s with
  | nil => rw [List.filter_nil, List.filter_nil, List.map_nil, release_nil]; rfl
  | cons cur l ih =>
      rw [sweep]
      by_cases hout : out cur = true
      · rw [if_pos hout, Prog.bind_of_ok (cpFree_eq cl cur), ih, release_append]
        simp [hout]
      · rw [if_neg hout, Prog.bind_of_ok ih]
        simp [hout, Prog.pure_run]

/-- The list after the timer has run at that time. -/
def aged (now : Int) (cl : Cachelist Φ) : Cachelist Φ :=
  if now - cl.lastrun < cl.timeout then cl
  else
    { cl with
      pairs := cl.pairs.filter fun cur => !decide (now - cur.addtime ≥ cl.timeout)
      lastrun := now }

/-- The pairs that the timer frees. -/
def timedout (now : Int) (cl : Cachelist Φ) : List Cachepair :=
  if now - cl.lastrun < cl.timeout then []
  else cl.pairs.filter fun cur => now - cur.addtime ≥ cl.timeout

/-- The timer releases what has timed out, in every list. -/
theorem timerLists_eq (now : Int) (lists : List (Cachelist Φ)) :
    timerLists mod now lists s = .ok (lists.map (aged now),
      s.release (lists.flatMap fun cl => (timedout now cl).map (ticket mod cl))) := by
  induction lists generalizing s with
  | nil => rw [List.flatMap_nil, release_nil]; rfl
  | cons cl lists ih =>
      rw [timerLists]
      by_cases hdue : now - cl.lastrun < cl.timeout
      · rw [if_pos hdue, Prog.bind_of_ok ih]
        simp [aged, timedout, hdue, Prog.pure_run]
      · rw [if_neg hdue, Prog.bind_of_ok (sweep_eq cl _ _), Prog.bind_of_ok ih, release_append]
        simp [aged, timedout, hdue, Prog.pure_run]

/-! ## The account of the pairs -/

/-- The lists of a registered module. -/
def State.listsOf (s : State Φ) (mod : Nafmodule) : List (Cachelist Φ) :=
  match s.addr mod with
  | none => []
  | some a => (s.ctds a).getD []

/-- The pairs that a registered module holds. -/
def State.holds (s : State Φ) (mod : Nafmodule) : List (Ticket Φ) := tickets mod (s.listsOf mod)

def State.held (s : State Φ) : List (Ticket Φ) := s.modules.flatMap s.holds

/-- What the tag of a module points to has not been released. -/
def Usable (s : State Φ) (mod : Nafmodule) : Prop := ∀ a ∈ s.addr mod, (s.ctds a).isSome

instance (s : State Φ) (mod : Nafmodule) : Decidable (Usable s mod) :=
  inferInstanceAs (Decidable (∀ a ∈ s.addr mod, (s.ctds a).isSome))

/-- Each pair added is held, or has been freed, once. -/
structure Accounted (s : State Φ) : Prop where
  balance : (s.held ++ s.freed).Perm s.added
  pids : (s.added.map (·.pid)).Nodup

structure Good (s : State Φ) : Prop extends Accounted s where
  modules : s.modules.Nodup
  lt : ∀ mod a, s.addr mod = some a → a < s.nextctd
  inj : ∀ mod mod' a, s.addr mod = some a → s.addr mod' = some a → mod = mod'
  fresh : ∀ t ∈ s.added, t.pid < s.nextpid

theorem listsOf_of_none (haddr : s.addr mod = none) : s.listsOf mod = [] := by
  simp only [State.listsOf, haddr]

theorem listsOf_of_live {lists : List (Cachelist Φ)} (haddr : s.addr mod = some a)
    (hlists : s.ctds a = some lists) : s.listsOf mod = lists := by
  simp only [State.listsOf, haddr, hlists, Option.getD_some]

/-- A registered client holds the pairs of its lists. -/
theorem holds_of_live {lists : List (Cachelist Φ)} (haddr : s.addr mod = some a)
    (hlists : s.ctds a = some lists) : s.holds mod = tickets mod lists := by
  rw [State.holds, listsOf_of_live haddr hlists]

theorem mem_modules_of_addr (haddr : s.addr mod = some a) : mod ∈ s.modules := by
  unfold State.addr at haddr
  split at haddr
  · assumption
  · cases haddr

/-- Elements for which two functions agree contribute the same to both. -/
theorem flatMap_perm_at {α β : Type} [DecidableEq α] {l : List α} {x : α} {f g : α → List β}
    (hl : l.Nodup) (hx : x ∈ l) (hfg : ∀ y, y ≠ x → g y = f y) :
    ∃ rest, (l.flatMap f).Perm (f x ++ rest) ∧ (l.flatMap g).Perm (g x ++ rest) := by
  have hperm : l.Perm (x :: l.erase x) := List.perm_cons_erase hx
  have hrest : (l.erase x).flatMap g = (l.erase x).flatMap f := by
    apply List.flatMap_congr
    intro y hy
    apply hfg
    rintro rfl
    exact (hl.not_mem_erase hy).elim
  refine ⟨(l.erase x).flatMap f, hperm.flatMap_right f, ?_⟩
  rw [← hrest]
  exact hperm.flatMap_right g

/-- Modules whose pointers stay the same, to lists that stay the same, hold the same pairs. -/
theorem holds_congr (s s' : State Φ) (haddr : s'.addr mod = s.addr mod)
    (hctds : ∀ a, s.addr mod = some a → s'.ctds a = s.ctds a) : s'.holds mod = s.holds mod := by
  unfold State.holds State.listsOf
  rw [haddr]
  cases h : s.addr mod with
  | none => rfl
  | some a => simp only [hctds a h]

namespace State

/-- The state after the lists of a module were written, pairs freed and pairs added. -/
def written (a : Nat) (lists : List (Cachelist Φ)) (gone new : List (Ticket Φ)) (h : Heap)
    (s : State Φ) : State Φ :=
  { s with
    ctds := Function.update s.ctds a (some lists)
    heap := h
    freed := s.freed ++ gone
    added := new ++ s.added
    nextpid := s.nextpid + new.length }

/-- The state after the tag was put on a module. -/
def entered (mod : Nafmodule) (tag : Tag Nat) (h : Heap) (s : State Φ) : State Φ :=
  { s with
    ctds := Function.update s.ctds s.nextctd (some [])
    heap := h
    nextctd := s.nextctd + 1
    taglist := Function.update s.taglist mod (tag :: s.taglist mod) }

/-- The state after a block was allocated and released again. -/
def discarded (h : Heap) (s : State Φ) : State Φ :=
  { s with
    ctds := Function.update s.ctds s.nextctd none
    heap := h
    nextctd := s.nextctd + 1 }

theorem addr_entered {tag : Tag Nat} {h : Heap} (hmod : mod ∈ s.modules)
    (hfor : Tag.isFor ourmodule cachetag tag = true) (mod' : Nafmodule) :
    (s.entered mod tag h).addr mod' = if mod' = mod then some tag.data else s.addr mod' := by
  unfold State.addr entered
  by_cases heq : mod' = mod
  · subst heq
    rw [if_pos rfl, if_pos hmod]
    simp only [Function.update_self, Tag.fetch_cons_self hfor]
    rfl
  · simp only [if_neg heq, Function.update_of_ne heq]

end State

/-- What a call does to the state. -/
inductive Acts (mod : Nafmodule) (s : State Φ) : State Φ → Prop
  /-- nothing but asking for memory -/
  | same (h : Heap) : Acts mod s { s with heap := h }
  /-- it writes the lists of a registered module, adds pairs and frees pairs -/
  | written {a : Nat} {lists lists' : List (Cachelist Φ)} {gone new : List (Ticket Φ)} {h : Heap} :
      s.addr mod = some a → s.ctds a = some lists →
      (tickets mod lists' ++ gone).Perm (new ++ tickets mod lists) →
      new.map (·.pid) = List.range' s.nextpid new.length →
      Acts mod s (s.written a lists' gone new h)
  /-- it registers the module -/
  | entered {h : Heap} {tag : Tag Nat} :
      s.addr mod = none → mod ∈ s.modules → Tag.isFor ourmodule cachetag tag = true →
      tag.data = s.nextctd → Acts mod s (s.entered mod tag h)
  /-- it releases what it has allocated -/
  | discarded (h : Heap) : Acts mod s (s.discarded h)

theorem nodup_pids_append {new added : List (Ticket Φ)} {n : Nat}
    (hadded : (added.map (·.pid)).Nodup) (hfresh : ∀ t ∈ added, t.pid < n)
    (hnew : new.map (·.pid) = List.range' n new.length) :
    ((new ++ added).map (·.pid)).Nodup := by
  rw [List.map_append, hnew]
  refine List.nodup_append.2 ⟨List.nodup_range', hadded, ?_⟩
  rintro pid hpid _ hpid' rfl
  obtain ⟨t, ht, rfl⟩ := List.mem_map.1 hpid'
  have := hfresh t ht
  have := (List.mem_range'_1.1 hpid).1
  omega

namespace Good

open Classical in
theorem written {lists lists' : List (Cachelist Φ)} {gone new : List (Ticket Φ)} {h : Heap}
    (hg : Good s) (haddr : s.addr mod = some a) (hlists : s.ctds a = some lists)
    (hperm : (tickets mod lists' ++ gone).Perm (new ++ tickets mod lists))
    (hnew : new.map (·.pid) = List.range' s.nextpid new.length) :
    Good (s.written a lists' gone new h) where
  modules := hg.modules
  lt := hg.lt
  inj := hg.inj
  pids := nodup_pids_append hg.pids hg.fresh hnew
  fresh := by
    intro x hx
    rcases List.mem_append.1 hx with hx | hx
    · have hmem : x.pid ∈ List.range' s.nextpid new.length := by
        rw [← hnew]
        exact List.mem_map_of_mem hx
      exact (List.mem_range'_1.1 hmem).2
    · exact Nat.lt_add_right _ (hg.fresh x hx)
  balance := by
    have hothers : ∀ mod', mod' ≠ mod →
        (s.written a lists' gone new h).holds mod' = s.holds mod' := by
      intro mod' hne
      refine holds_congr s (s.written a lists' gone new h) rfl fun a' haddr' => ?_
      apply Function.update_of_ne
      rintro rfl
      exact hne (hg.inj _ _ _ haddr' haddr)
    have hself : (s.written a lists' gone new h).holds mod = tickets mod lists' :=
      holds_of_live (s := s.written a lists' gone new h) haddr (Function.update_self ..)
    obtain ⟨rest, hbefore, hafter⟩ :=
      flatMap_perm_at hg.modules (mem_modules_of_addr haddr) hothers
    rw [hself] at hafter
    rw [holds_of_live haddr hlists] at hbefore
    have hbalance := hg.balance
    rw [List.perm_iff_count] at hbefore hafter hperm hbalance ⊢
    intro x
    have h₁ := hbefore x
    have h₂ := hafter x
    have h₃ := hperm x
    have h₄ := hbalance x
    simp only [State.held, State.written, List.count_append] at h₁ h₂ h₃ h₄ ⊢
    omega

theorem entered {tag : Tag Nat} {h : Heap} (hg : Good s) (haddr : s.addr mod = none)
    (hmod : mod ∈ s.modules) (hfor : Tag.isFor ourmodule cachetag tag = true)
    (hdata : tag.data = s.nextctd) : Good (s.entered mod tag h) := by
  have haddr' := State.addr_entered (h := h) hmod hfor
  rw [hdata] at haddr'
  have hne : ∀ mod' a, s.addr mod' = some a → a ≠ s.nextctd := fun mod' a ha =>
    Nat.ne_of_lt (hg.lt _ _ ha)
  have hholds : ∀ mod', (s.entered mod tag h).holds mod' = s.holds mod' := by
    intro mod'
    by_cases heq : mod' = mod
    · subst heq
      have hnow : (s.entered mod' tag h).holds mod' = tickets mod' [] :=
        holds_of_live ((haddr' mod').trans (if_pos rfl)) (Function.update_self ..)
      rw [hnow, State.holds, listsOf_of_none haddr]
    · exact holds_congr s _ ((haddr' mod').trans (if_neg heq)) fun a ha =>
        Function.update_of_ne (hne _ _ ha) _ _
  refine ⟨⟨?_, hg.pids⟩, hg.modules, ?_, ?_, hg.fresh⟩
  · have hheld : (s.entered mod tag h).held = s.held :=
      List.flatMap_congr fun mod' _ => hholds mod'
    rw [hheld]
    exact hg.balance
  · intro mod' a ha
    rw [haddr'] at ha
    split at ha
    · cases ha
      exact Nat.lt_succ_self _
    · exact Nat.lt_succ_of_lt (hg.lt _ _ ha)
  · intro mod₁ mod₂ a h₁ h₂
    rw [haddr'] at h₁ h₂
    split at h₁ <;> split at h₂
    · rename_i heq₁ heq₂
      rw [heq₁, heq₂]
    · cases h₁
      exact (hne _ _ h₂ rfl).elim
    · cases h₂
      exact (hne _ _ h₁ rfl).elim
    · exact hg.inj _ _ _ h₁ h₂

theorem discarded {h : Heap} (hg : Good s) : Good (s.discarded h) where
  modules := hg.modules
  lt mod a ha := Nat.lt_succ_of_lt (hg.lt mod a ha)
  inj := hg.inj
  pids := hg.pids
  fresh := hg.fresh
  balance := by
    have hheld : (s.discarded h).held = s.held := by
      apply List.flatMap_congr
      intro mod _
      exact holds_congr s (s.discarded h) rfl fun a ha =>
        Function.update_of_ne (Nat.ne_of_lt (hg.lt _ _ ha)) _ _
    rw [hheld]
    exact hg.balance

/-- The step: a call that acts on one module keeps the account. -/
theorem acts (hg : Good s) (h : Acts mod s s') : Good s' := by
  cases h with
  | same h => exact ⟨⟨hg.balance, hg.pids⟩, hg.modules, hg.lt, hg.inj, hg.fresh⟩
  | written haddr hlists hperm hnew => exact hg.written haddr hlists hperm hnew
  | entered haddr hmod hfor hdata => exact hg.entered haddr hmod hfor hdata
  | discarded h => exact hg.discarded

end Good

/-- What is not released stays so. -/
theorem Acts.usable {mod' : Nafmodule} (h : Acts mod s s')
    (hlt : ∀ a, s.addr mod' = some a → a < s.nextctd) (hu : Usable s mod') : Usable s' mod' := by
  cases h with
  | same h => exact hu
  | @written a lists lists' gone new h haddr hlists hperm hnew =>
      intro a' haddr'
      by_cases heq : a' = a
      · subst heq
        simp [State.written]
      · simp only [State.written, Function.update_of_ne heq]
        exact hu a' haddr'
  | @entered h tag haddr hmod hfor hdata =>
      intro a haddr'
      rw [Option.mem_def, State.addr_entered hmod hfor, hdata] at haddr'
      split at haddr'
      · cases haddr'
        simp [State.entered]
      · simp only [State.entered, Function.update_of_ne (Nat.ne_of_lt (hlt _ haddr'))]
        exact hu a haddr'
  | discarded h =>
      intro a haddr'
      simp only [State.discarded, Function.update_of_ne (Nat.ne_of_lt (hlt _ haddr'))]
      exact hu a haddr'

theorem Acts.addr_of_ne {mod' : Nafmodule} (h : Acts mod s s') (hne : mod' ≠ mod) :
    s'.addr mod' = s.addr mod' := by
  cases h with
  | same h => rfl
  | written => rfl
  | entered _ hmod hfor => rw [State.addr_entered hmod hfor, if_neg hne]
  | discarded => rfl

/-! ## The calls -/

/-- A call returns, and acts on one module. -/
def Settles {α : Type} (mod : Nafmodule) (x : Csys Φ α) (s : State Φ) : Prop :=
  ∃ r s', x s = .ok (r, s') ∧ Acts mod s s'

theorem mem_malloc (n : Nat) : ∃ b, mem (malloc n) s = .ok (b, { s with heap := s.heap.next }) :=
  ⟨_, rfl⟩

/-- A tag is refused, or stands in front of the others. -/
theorem tagAdd_cases (mod : Nafmodule) (n : Nat) (s : State Φ) :
    ∃ h, tagAdd mod n s = .ok (false, { s with heap := h }) ∨
      mod ∈ s.modules ∧ ∃ tag, Tag.isFor ourmodule cachetag tag = true ∧ tag.data = n ∧
        tagAdd mod n s = .ok (true, { s with
          heap := h, taglist := Function.update s.taglist mod (tag :: s.taglist mod) }) := by
  unfold tagAdd
  rw [Prog.bind_of_ok (Prog.read_ok.2 rfl)]
  by_cases hmod : mod ∈ s.modules
  · rw [if_pos hmod]
    obtain ⟨l, h, hadd⟩ := Tag.add_returns (s.taglist mod) ourmodule cachetag 'V' n s.heap
    have hmem : mem (Tag.add (s.taglist mod) ourmodule cachetag 'V' n) s =
        .ok (l, { s with heap := h }) := by
      simp only [mem, hadd]
    rw [Prog.bind_of_ok hmem]
    cases l with
    | none => exact ⟨h, .inl rfl⟩
    | some l =>
        obtain ⟨-, rfl⟩ := Tag.add_ok hadd
        have hname : cachetag.take 64 = cachetag := rfl
        exact ⟨h, .inr ⟨hmod, _, by simp [Tag.isFor, hname], rfl, rfl⟩⟩
  · rw [if_neg hmod]
    exact ⟨s.heap, .inl rfl⟩

theorem register_settles (mod : Nafmodule) (s : State Φ) : Settles mod (register mod) s := by
  unfold Settles register
  rw [Prog.bind_of_ok (Prog.read_ok.2 rfl)]
  cases haddr : s.addr mod with
  | some a => exact ⟨_, _, rfl, .same s.heap⟩
  | none =>
      dsimp only
      obtain ⟨b, hb⟩ := mem_malloc (s := s) 8
      rw [Prog.bind_of_ok hb]
      cases b with
      | none => exact ⟨_, _, rfl, .same _⟩
      | some b =>
          dsimp only
          rw [Prog.bind_of_ok (Prog.read_ok.2 rfl), Prog.bind_of_ok (Prog.update_ok.2 rfl)]
          obtain ⟨h, hfailed | ⟨hmod, tag, hfor, hdata, hadded⟩⟩ := tagAdd_cases mod s.nextctd
            { State.setCtd s.nextctd (some []) { s with heap := s.heap.next } with
              nextctd := s.nextctd + 1 }
          · rw [Prog.bind_of_ok hfailed]
            refine ⟨-1, s.discarded h, ?_, .discarded h⟩
            refine (Prog.bind_of_ok (@ctdFree_of_empty Φ mod _ _ [] (Function.update_self ..) rfl
              fun cl hcl => by cases hcl)).trans ?_
            simp only [State.setCtd, Function.update_idem]
            rfl
          · rw [Prog.bind_of_ok hadded]
            exact ⟨_, _, rfl, .entered haddr hmod hfor hdata⟩

theorem setCtd_eq_written (a : Nat) (lists : List (Cachelist Φ)) (h : Heap) :
    State.setCtd a (some lists) { s with heap := h } = s.written a lists [] [] h := by
  simp [State.setCtd, State.written]

/-- A pointer of a registered module leads to its lists. -/
theorem settles_of_addr {α : Type} {f : Option Nat → Csys Φ α} (hu : Usable s mod)
    (hnone : Settles mod (f none) s)
    (hsome : ∀ a lists, s.addr mod = some a → s.ctds a = some lists → Settles mod (f (some a)) s) :
    Settles mod (do f (← Prog.read fun s => s.addr mod)) s := by
  unfold Settles
  rw [Prog.bind_of_ok (Prog.read_ok.2 rfl)]
  cases haddr : s.addr mod with
  | none => exact hnone
  | some a =>
      obtain ⟨lists, hlists⟩ := Option.isSome_iff_exists.1 (hu a haddr)
      exact hsome a lists haddr hlists

theorem addlist_settles (hu : Usable s mod) (lid : UInt16) (timeout : Int) (freepair : Option Φ) :
    Settles mod (addlist mod lid timeout freepair) s := by
  apply settles_of_addr hu
  · exact ⟨_, _, rfl, .same s.heap⟩
  intro a lists haddr hlists
  unfold Settles
  dsimp only
  rw [Prog.bind_of_ok (ctd_of_live hlists)]
  cases findlist lid lists with
  | some r => exact ⟨_, _, rfl, .same s.heap⟩
  | none =>
      obtain ⟨b, hb⟩ := mem_malloc (s := s) 48
      dsimp only
      rw [Prog.bind_of_ok hb]
      cases b with
      | none => exact ⟨_, _, rfl, .same _⟩
      | some b =>
          dsimp only
          rw [Prog.bind_of_ok (Prog.read_ok.2 rfl), Prog.bind_of_ok (Prog.update_ok.2 rfl),
            setCtd_eq_written]
          exact ⟨_, _, rfl, .written haddr hlists (by simp) rfl⟩

theorem findlist_some {lid : UInt16} {lists before behind : List (Cachelist Φ)}
    {cl : Cachelist Φ} (h : findlist lid lists = some (before, cl, behind)) :
    lists = before ++ cl :: behind ∧ cl.lid = lid := by
  induction lists generalizing before with
  | nil => cases h
  | cons d lists ih =>
      rw [findlist] at h
      split at h
      · rename_i hlid
        cases h
        exact ⟨rfl, hlid⟩
      · obtain ⟨⟨l, e, r⟩, hr, heq⟩ := Option.map_eq_some_iff.1 h
        cases heq
        obtain ⟨rfl, hlid⟩ := ih hr
        exact ⟨rfl, hlid⟩

open Classical in
/-- One list of a module is written. -/
theorem tickets_middle {before behind : List (Cachelist Φ)} {cl cl' : Cachelist Φ}
    {gone new : List (Ticket Φ)} (hticket : ticket mod cl' = ticket mod cl)
    (h : (cl'.pairs.map (ticket mod cl) ++ gone).Perm (new ++ cl.pairs.map (ticket mod cl))) :
    (tickets mod (before ++ cl' :: behind) ++ gone).Perm
      (new ++ tickets mod (before ++ cl :: behind)) := by
  rw [List.perm_iff_count] at h ⊢
  intro x
  have hx := h x
  simp only [tickets_append, tickets_cons, hticket, List.count_append] at hx ⊢
  omega

/-- A new pair gets a ticket of its own. -/
theorem addpair_settles (hu : Usable s mod) (lid : UInt16) (key value : Nat) :
    Settles mod (addpair mod lid key value) s := by
  apply settles_of_addr hu
  · exact ⟨_, _, rfl, .same s.heap⟩
  intro a lists haddr hlists
  unfold Settles
  dsimp only
  rw [Prog.bind_of_ok (ctd_of_live hlists)]
  cases hfind : findlist lid lists with
  | none => exact ⟨_, _, rfl, .same s.heap⟩
  | some r =>
      obtain ⟨before, cl, behind⟩ := r
      obtain ⟨rfl, -⟩ := findlist_some hfind
      obtain ⟨b, hb⟩ := mem_malloc (s := s) 32
      dsimp only
      rw [Prog.bind_of_ok hb]
      cases b with
      | none => exact ⟨_, _, rfl, .same _⟩
      | some b =>
          let cp : Cachepair := { pid := s.nextpid, key, value, addtime := s.now }
          have hwritten : Acts mod s (s.written a
              (before ++ { cl with pairs := cp :: cl.pairs } :: behind) [] [ticket mod cl cp]
              s.heap.next) :=
            .written haddr hlists (tickets_middle rfl (by simp)) rfl
          refine ⟨0, _, ?_, hwritten⟩
          dsimp only
          rw [Prog.bind_of_ok (Prog.read_ok.2 rfl), Prog.bind_of_ok (Prog.update_ok.2 rfl),
            Prog.bind_of_ok (Prog.update_ok.2 rfl), setCtd_eq_written]
          simp [State.written, cp, Prog.pure_run]

theorem findcur_some {matcher : Cachepair → Bool} {pairs l r : List Cachepair} {cur : Cachepair}
    (h : findcur matcher pairs = some (l, cur, r)) : pairs = l ++ cur :: r := by
  induction pairs generalizing l with
  | nil => cases h
  | cons cp pairs ih =>
      rw [findcur] at h
      split at h
      · cases h
        rfl
      · obtain ⟨⟨l', d, r'⟩, hr, heq⟩ := Option.map_eq_some_iff.1 h
        cases heq
        rw [ih hr]
        rfl

/-- A search keeps to the lists of its module. -/
theorem findpair_settles (hu : Usable s mod) (lid : UInt16) (matcher : Cachepair → Bool)
    (hit : Bool) : Settles mod (findpair mod lid matcher hit) s := by
  apply settles_of_addr hu
  · exact ⟨_, _, rfl, .same s.heap⟩
  intro a lists haddr hlists
  unfold Settles
  dsimp only
  rw [Prog.bind_of_ok (ctd_of_live hlists)]
  cases hfind : findlist lid lists with
  | none => exact ⟨_, _, rfl, .same s.heap⟩
  | some r =>
      obtain ⟨before, cl, behind⟩ := r
      obtain ⟨rfl, -⟩ := findlist_some hfind
      dsimp only
      cases hcur : findcur matcher cl.pairs with
      | none => exact ⟨_, _, rfl, .same s.heap⟩
      | some r =>
          obtain ⟨l, cur, r⟩ := r
          dsimp only
          cases hit with
          | false => exact ⟨_, _, rfl, .same s.heap⟩
          | true =>
              have hpairs := findcur_some hcur
              rw [if_pos rfl, Prog.bind_of_ok (Prog.read_ok.2 rfl),
                Prog.bind_of_ok (Prog.update_ok.2 rfl)]
              refine ⟨_, _, rfl, ?_⟩
              have hwritten := setCtd_eq_written (s := s) a
                (before ++ { cl with pairs := l ++ { cur with addtime := s.now } :: r } :: behind) s.heap
              rw [show ({ s with heap := s.heap } : State Φ) = s from rfl] at hwritten
              rw [hwritten]
              refine .written haddr hlists (tickets_middle rfl ?_) rfl
              rw [hpairs]
              simp [ticket]

/-- What is taken out of the list is released. -/
theorem rempairs_settles (hu : Usable s mod) (lid : UInt16) (matcher : Cachepair → Bool) :
    Settles mod (rempairs mod lid matcher) s := by
  apply settles_of_addr hu
  · exact ⟨_, _, rfl, .same s.heap⟩
  intro a lists haddr hlists
  unfold Settles
  dsimp only
  rw [Prog.bind_of_ok (ctd_of_live hlists)]
  cases hfind : findlist lid lists with
  | none => exact ⟨_, _, rfl, .same s.heap⟩
  | some r =>
      obtain ⟨before, cl, behind⟩ := r
      obtain ⟨rfl, -⟩ := findlist_some hfind
      have hwritten : Acts mod s (s.written a
          (before ++ { cl with pairs := cl.pairs.filter (!matcher ·) } :: behind)
          ((cl.pairs.filter matcher).map (ticket mod cl)) [] s.heap) := by
        refine .written haddr hlists (tickets_middle rfl ?_) rfl
        rw [← List.map_append, List.nil_append]
        exact (List.perm_append_comm.trans (List.filter_append_perm matcher cl.pairs)).map _
      refine ⟨0, _, ?_, hwritten⟩
      dsimp only
      rw [Prog.bind_of_ok (sweep_eq cl matcher cl.pairs), Prog.bind_of_ok (Prog.update_ok.2 rfl)]
      simp [State.written, State.setCtd, State.release, Prog.pure_run]

open Classical in
/-- A list and what has timed out of it are what the list was. -/
theorem aged_perm (now : Int) (lists : List (Cachelist Φ)) :
    (tickets mod (lists.map (aged now)) ++
      lists.flatMap fun cl => (timedout now cl).map (ticket mod cl)).Perm (tickets mod lists) := by
  induction lists with
  | nil => exact .nil
  | cons cl lists ih =>
      have hcl : ((aged now cl).pairs.map (ticket mod (aged now cl)) ++
          (timedout now cl).map (ticket mod cl)).Perm (cl.pairs.map (ticket mod cl)) := by
        unfold aged timedout
        split
        · simp
        · have hticket : ticket mod { cl with
              pairs := cl.pairs.filter fun cur => !decide (now - cur.addtime ≥ cl.timeout)
              lastrun := now } = ticket mod cl := rfl
          rw [hticket, ← List.map_append]
          exact (List.perm_append_comm.trans (List.filter_append_perm _ cl.pairs)).map _
      rw [List.perm_iff_count] at ih hcl ⊢
      intro x
      have h₁ := ih x
      have h₂ := hcl x
      simp only [List.map_cons, tickets_cons, List.flatMap_cons, List.count_append] at h₁ h₂ ⊢
      omega

theorem timerIter_settles (now : Int) (hu : Usable s mod) : Settles mod (timerIter now mod) s := by
  apply settles_of_addr hu
  · exact ⟨_, _, rfl, .same s.heap⟩
  intro a lists haddr hlists
  unfold Settles
  dsimp only
  have hwritten : Acts mod s (s.written a (lists.map (aged now))
      (lists.flatMap fun cl => (timedout now cl).map (ticket mod cl)) [] s.heap) :=
    .written haddr hlists (aged_perm now lists) rfl
  refine ⟨(), _, ?_, hwritten⟩
  rw [Prog.bind_of_ok (ctd_of_live hlists), Prog.bind_of_ok (timerLists_eq now lists)]
  simp [Prog.update, State.written, State.setCtd, State.release]

end Timps.Naf.Cache
