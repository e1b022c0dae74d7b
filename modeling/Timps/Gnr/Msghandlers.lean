-- SUMMARY: The chains of message handlers over a whole history of registrations, and what a routed message calls.
import Mathlib.Data.List.Sort
import Timps.Base.Run
import Timps.Gnr.Msg

/-!
# Message handlers

Modules add and remove handlers at three stages; each stage keeps a list ordered by
position. A message that is routed calls the handlers of each stage in the order of its
list, and then the output function of the module whose routing handler took it.

Handler functions are known by their addresses, the type `F`. What they do with a
message, with the handler info and with everything else is a parameter.
-/

namespace Timps.Gnr.Msghandler

open Naf (Heap Mem Nafmodule)

/-- GNR_MSG_MSGHANDLER_STAGE_ -/
inductive Stage where
  | prerouting
  | routing
  | postrouting
  deriving DecidableEq

/-- GNR_MSG_MSGHANDLER_POS_MIN -/
def posMin : Int := 0

/-- GNR_MSG_MSGHANDLER_POS_MAX -/
def posMax : Int := 100

/-- `struct mhlist` -/
structure Mhlist (F : Type) where
  position : Int
  module : Nafmodule
  handlerfunc : F
  description : CStr
  deriving DecidableEq

variable {F : Type}

/-- In front of the first handler of at least that position. -/
def mhInsert (mh : Mhlist F) : List (Mhlist F) → List (Mhlist F)
  | [] => [mh]
  | cur :: l => if cur.position ≥ mh.position then mh :: cur :: l else cur :: mhInsert mh l

/-- The first entry of that function, and the list without it. -/
def mhRemove [DecidableEq F] (handlerfunc : F) :
    List (Mhlist F) → Option (Mhlist F) × List (Mhlist F)
  | [] => (none, [])
  | cur :: l =>
      if cur.handlerfunc = handlerfunc then (some cur, l)
      else ((mhRemove handlerfunc l).1, cur :: (mhRemove handlerfunc l).2)

/-- `gnr__msghandlers` -/
abbrev Chains (F : Type) := Stage → List (Mhlist F)

/-- `gnr_msg_addmsghandler` -/
def addmsghandler (chains : Chains F) (mod : Nafmodule) (stage : Stage) (position : Int)
    (handlerfunc : F) (desc : CStr) : Mem (Int × Chains F) :=
  if position < posMin ∨ position > posMax then pure (-1, chains)
  else do
    -- sizeof(struct mhlist)
    match ← Naf.malloc 40 with
    | none => pure (-1, chains)
    | some _ =>
        match ← Naf.malloc (desc.length + 1) with
        | none => pure (-1, chains)
        | some _ => do
            let mh : Mhlist F := { position, module := mod, handlerfunc, description := desc }
            pure (0, Function.update chains stage (mhInsert mh (chains stage)))

/-- `gnr_msg_remmsghandler` -/
def remmsghandler [DecidableEq F] (chains : Chains F) (stage : Stage) (handlerfunc : F) :
    Int × Chains F :=
  match mhRemove handlerfunc (chains stage) with
  | (none, _) => (-1, chains)
  | (some _, l) => (0, Function.update chains stage l)

/-! ## Registering and removing -/

inductive Call (F : Type) where
  | addmsghandler (mod : Nafmodule) (stage : Stage) (position : Int) (handlerfunc : F) (desc : CStr)
  | remmsghandler (mod : Nafmodule) (stage : Stage) (handlerfunc : F)

/-- The answer of a call and the chains after it. -/
def Call.run [DecidableEq F] (call : Call F) (chains : Chains F) : Mem (Int × Chains F) :=
  match call with
  | .addmsghandler mod stage position f desc => Msghandler.addmsghandler chains mod stage position f desc
  | .remmsghandler _ stage f => pure (Msghandler.remmsghandler chains stage f)

/-- One call, with the memory it finds. -/
def register [DecidableEq F] (i : Call F × Heap) (chains : Chains F) : Except Fault (Chains F) :=
  (i.1.run chains i.2).map fun r => r.1.2

/-- No handlers yet. -/
def Unregistered (chains : Chains F) : Prop := ∀ stage, chains stage = []

/-- A history of calls: the chains each one found, the call, and its memory. -/
abbrev Registrations (F : Type) := List (Chains F × (Call F × Heap))

/-- The call has been answered with 0. -/
def taken [DecidableEq F] (p : Chains F × (Call F × Heap)) : Bool :=
  (p.2.1.run p.1 p.2.2).toOption.any fun r => r.1.1 = 0

/-- The handler that the call adds is not in the list of its stage. -/
def Fresh (chains : Chains F) (i : Call F × Heap) : Prop :=
  match i.1 with
  | .addmsghandler _ stage _ f _ => ∀ mh ∈ chains stage, mh.handlerfunc ≠ f
  | .remmsghandler .. => True

/-- What the `n`-th call does to the handlers registered for a stage, newest first and
each with the number of the call that added it. -/
def tally [DecidableEq F] (stage : Stage) (l : List (Nat × Mhlist F))
    (p : (Chains F × (Call F × Heap)) × Nat) : List (Nat × Mhlist F) :=
  match p.1.2.1 with
  | .addmsghandler mod st position f desc =>
      if st = stage ∧ taken p.1 = true then
        (p.2, { position, module := mod, handlerfunc := f, description := desc }) :: l
      else l
  | .remmsghandler _ st f => if st = stage then l.filter (·.2.handlerfunc ≠ f) else l

/-- The handlers that have been added to a stage and not been removed since. -/
def registered [DecidableEq F] (h : Registrations F) (stage : Stage) : List (Nat × Mhlist F) :=
  h.zipIdx.foldl (tally stage) []

/-- Lower positions first; of equal positions, the handler added later. -/
def Before (a b : Nat × Mhlist F) : Prop :=
  a.2.position < b.2.position ∨ a.2.position = b.2.position ∧ b.1 < a.1

/-- A chain holds each of the numbered handlers once, in their order. -/
def Inorder (numbered : List (Nat × Mhlist F)) (chain : List (Mhlist F)) : Prop :=
  ∃ l : List (Nat × Mhlist F), l.map (·.2) = chain ∧ l.Perm numbered ∧ l.Pairwise Before

/-! ## One list -/

section

variable {mh : Mhlist F} {chain : List (Mhlist F)} {numbered l : List (Nat × Mhlist F)}

/-- Of numbered handlers, one stands no lower than another. -/
abbrev nolower (a b : Nat × Mhlist F) : Prop := a.2.position ≤ b.2.position

theorem map_orderedInsert_nolower (n : Nat) :
    (l.orderedInsert nolower (n, mh)).map (·.2) = mhInsert mh (l.map (·.2)) := by
  induction l with
  | nil => rfl
  | cons a l ih =>
      simp only [List.orderedInsert_cons, List.map_cons, mhInsert, ge_iff_le]
      split
      · rfl
      · rw [List.map_cons, ih]

/-- A handler with a number that is not used yet goes in front of those of its position. -/
theorem pairwise_orderedInsert {n : Nat} (hl : l.Pairwise Before) (hn : ∀ a ∈ l, a.1 < n) :
    (l.orderedInsert nolower (n, mh)).Pairwise Before := by
  induction l with
  | nil => exact List.pairwise_singleton _ _
  | cons a l ih =>
      obtain ⟨ha, hl⟩ := List.pairwise_cons.1 hl
      have hna : a.1 < n := hn a (.head _)
      rw [List.orderedInsert_cons]
      split
      · rename_i hle
        have hbefore : Before (n, mh) a := by
          rcases Int.lt_or_eq_of_le hle with hlt | heq
          · exact .inl hlt
          · exact .inr ⟨heq, hna⟩
        have hrest : ∀ b ∈ l, Before (n, mh) b := by
          intro b hb
          have hab : a.2.position ≤ b.2.position := by
            rcases ha b hb with hlt | ⟨heq, -⟩
            · exact hlt.le
            · exact heq.le
          rcases Int.lt_or_eq_of_le (le_trans hle hab) with hlt | heq
          · exact .inl hlt
          · exact .inr ⟨heq, hn b (.tail _ hb)⟩
        refine List.pairwise_cons.2 ⟨?_, List.pairwise_cons.2 ⟨ha, hl⟩⟩
        intro b hb
        rcases List.mem_cons.1 hb with rfl | hb
        · exact hbefore
        · exact hrest b hb
      · rename_i hlt
        refine List.pairwise_cons.2 ⟨?_, ih hl fun b hb => hn b (.tail _ hb)⟩
        intro b hb
        rcases (List.mem_orderedInsert _).1 hb with rfl | hb
        · exact .inl (not_le.1 hlt)
        · exact ha b hb

theorem Inorder.insert {n : Nat} (h : Inorder numbered chain) (hn : ∀ a ∈ numbered, a.1 < n) :
    Inorder ((n, mh) :: numbered) (mhInsert mh chain) := by
  obtain ⟨l, rfl, hperm, hl⟩ := h
  refine ⟨l.orderedInsert nolower (n, mh), map_orderedInsert_nolower n, ?_, ?_⟩
  · exact (List.perm_orderedInsert _ _ _).trans (hperm.cons _)
  · exact pairwise_orderedInsert hl fun a ha => hn a (hperm.subset ha)

theorem mem_mhInsert {mh a : Mhlist F} {l : List (Mhlist F)} :
    a ∈ mhInsert mh l ↔ a = mh ∨ a ∈ l := by
  induction l with
  | nil => simp [mhInsert]
  | cons cur l ih =>
      simp only [mhInsert]
      split
      · simp
      · simp only [List.mem_cons, ih]
        tauto

theorem nodup_mhInsert {mh : Mhlist F} {l : List (Mhlist F)}
    (hl : (l.map (·.handlerfunc)).Nodup) (hfresh : ∀ a ∈ l, a.handlerfunc ≠ mh.handlerfunc) :
    ((mhInsert mh l).map (·.handlerfunc)).Nodup := by
  induction l with
  | nil => exact List.nodup_singleton _
  | cons cur l ih =>
      simp only [mhInsert]
      split
      · refine List.nodup_cons.2 ⟨?_, hl⟩
        intro hmem
        obtain ⟨a, ha, heq⟩ := List.mem_map.1 hmem
        exact hfresh a ha heq
      · obtain ⟨hcur, hl⟩ := List.nodup_cons.1 hl
        refine List.nodup_cons.2 ⟨?_, ih hl fun a ha => hfresh a (.tail _ ha)⟩
        intro hmem
        obtain ⟨a, ha, heq⟩ := List.mem_map.1 hmem
        rcases mem_mhInsert.1 ha with rfl | ha
        · exact hfresh cur (.head _) heq.symm
        · exact hcur (List.mem_map.2 ⟨a, ha, heq⟩)

variable [DecidableEq F] {f : F}

/-- Where no function stands twice, removing it leaves all others. -/
theorem mhRemove_snd (hnodup : (chain.map (·.handlerfunc)).Nodup) :
    (mhRemove f chain).2 = chain.filter (·.handlerfunc ≠ f) := by
  induction chain with
  | nil => rfl
  | cons cur chain ih =>
      obtain ⟨hcur, hchain⟩ := List.nodup_cons.1 hnodup
      simp only [mhRemove]
      split
      · rename_i heq
        subst heq
        have hothers : ∀ mh ∈ chain, mh.handlerfunc ≠ cur.handlerfunc := by
          intro mh hmh heq
          exact hcur (List.mem_map.2 ⟨mh, hmh, heq⟩)
        rw [List.filter_cons_of_neg (by simp)]
        exact (List.filter_eq_self.2 fun mh hmh => by simpa using hothers mh hmh).symm
      · rename_i hne
        rw [List.filter_cons_of_pos (by simpa using hne), ih hchain]

theorem mhRemove_none (h : (mhRemove f chain).1 = none) : (mhRemove f chain).2 = chain := by
  induction chain with
  | nil => rfl
  | cons cur chain ih =>
      simp only [mhRemove] at h ⊢
      split at h
      · cases h
      · rename_i hne
        rw [if_neg hne, ih h]

theorem Inorder.filter (h : Inorder numbered chain) :
    Inorder (numbered.filter (·.2.handlerfunc ≠ f)) (chain.filter (·.handlerfunc ≠ f)) := by
  obtain ⟨l, rfl, hperm, hl⟩ := h
  exact ⟨l.filter (·.2.handlerfunc ≠ f), by rw [List.filter_map]; rfl, hperm.filter _,
    hl.filter _⟩

end

/-! ## A history of calls -/

section

variable {chains chains' : Chains F} {mod : Nafmodule} {stage : Stage} {position : Int} {f : F}
  {desc : CStr} {h h' : Heap}

/-- A handler is added, or all stays as it is. -/
theorem addmsghandler_cases (chains : Chains F) (mod : Nafmodule) (stage : Stage) (position : Int)
    (f : F) (desc : CStr) (h : Heap) :
    ∃ h', addmsghandler chains mod stage position f desc h = .ok ((-1, chains), h') ∨
      addmsghandler chains mod stage position f desc h =
        .ok ((0, Function.update chains stage
          (mhInsert { position, module := mod, handlerfunc := f, description := desc }
            (chains stage))), h') := by
  unfold addmsghandler
  split
  · exact ⟨h, .inl rfl⟩
  · have halloc : ∀ (n : Nat) (h : Heap), ∃ b, Naf.malloc n h = .ok (b, h.next) :=
      fun n h => ⟨_, rfl⟩
    obtain ⟨b, hb⟩ := halloc 40 h
    rw [Prog.bind_of_ok hb]
    cases b with
    | none => exact ⟨_, .inl rfl⟩
    | some b =>
        obtain ⟨d, hd⟩ := halloc (desc.length + 1) h.next
        dsimp only
        rw [Prog.bind_of_ok hd]
        cases d with
        | none => exact ⟨_, .inl rfl⟩
        | some d => exact ⟨_, .inr rfl⟩

/-- A position outside the bounds changes nothing. -/
theorem addmsghandler_outside (hpos : ¬(posMin ≤ position ∧ position ≤ posMax)) :
    addmsghandler chains mod stage position f desc h = .ok ((-1, chains), h) := by
  have hout : position < posMin ∨ position > posMax := by omega
  rw [addmsghandler, if_pos hout]
  rfl

variable [DecidableEq F]

/-- Removing a function leaves all others of its stage, and the other stages. -/
theorem remmsghandler_snd (hnodup : ((chains stage).map (·.handlerfunc)).Nodup) :
    (remmsghandler chains stage f).2 =
      Function.update chains stage ((chains stage).filter (·.handlerfunc ≠ f)) := by
  have hsnd := mhRemove_snd (f := f) hnodup
  unfold remmsghandler
  cases hrem : mhRemove f (chains stage) with
  | mk cur l =>
      rw [hrem] at hsnd
      dsimp only at hsnd ⊢
      cases cur with
      | some cur => rw [hsnd]
      | none =>
          have hsame : l = chains stage := by
            have hnone : (mhRemove f (chains stage)).2 = chains stage :=
              mhRemove_none (by rw [hrem])
            rwa [hrem] at hnone
          rw [← hsnd, hsame]
          exact (Function.update_eq_self stage chains).symm

theorem registered_append (hist : Registrations F) (p : Chains F × (Call F × Heap)) :
    registered (hist ++ [p]) stage = tally stage (registered hist stage) (p, hist.length) := by
  simp [registered, List.zipIdx_append]

/-- What a stage keeps: its chain is that of the numbered handlers, of which no function
stands twice, and the numbers are below `n`. -/
structure Kept (numbered : List (Nat × Mhlist F)) (chain : List (Mhlist F)) (n : Nat) : Prop where
  inorder : Inorder numbered chain
  nodup : (chain.map (·.handlerfunc)).Nodup
  lt : ∀ a ∈ numbered, a.1 < n

namespace Kept

variable {numbered : List (Nat × Mhlist F)} {chain : List (Mhlist F)} {n : Nat} {mh : Mhlist F}

omit [DecidableEq F] in
theorem start : Kept (F := F) [] [] 0 where
  inorder := ⟨[], rfl, .refl _, .nil⟩
  nodup := List.nodup_nil
  lt a ha := by cases ha

omit [DecidableEq F] in
theorem succ (hk : Kept numbered chain n) : Kept numbered chain (n + 1) where
  inorder := hk.inorder
  nodup := hk.nodup
  lt a ha := Nat.lt_succ_of_lt (hk.lt a ha)

omit [DecidableEq F] in
theorem insert (hk : Kept numbered chain n) (hfresh : ∀ a ∈ chain, a.handlerfunc ≠ mh.handlerfunc) :
    Kept ((n, mh) :: numbered) (mhInsert mh chain) (n + 1) where
  inorder := hk.inorder.insert hk.lt
  nodup := nodup_mhInsert hk.nodup hfresh
  lt a ha := by
    rcases List.mem_cons.1 ha with rfl | ha
    · exact Nat.lt_succ_self n
    · exact Nat.lt_succ_of_lt (hk.lt a ha)

theorem filter (hk : Kept numbered chain n) :
    Kept (numbered.filter (·.2.handlerfunc ≠ f)) (chain.filter (·.handlerfunc ≠ f)) (n + 1) where
  inorder := hk.inorder.filter
  nodup := hk.nodup.sublist (List.filter_sublist.map _)
  lt a ha := Nat.lt_succ_of_lt (hk.lt a (List.mem_of_mem_filter ha))

end Kept

/-- The step: a call whose handler is not registered yet keeps every stage in order. -/
theorem register_kept {hist : Registrations F} {i : Call F × Heap}
    (hk : ∀ stage, Kept (registered hist stage) (chains stage) hist.length)
    (hfresh : Fresh chains i) (hstep : register i chains = .ok chains') (stage : Stage) :
    Kept (registered (hist ++ [(chains, i)]) stage) (chains' stage)
      (hist ++ [(chains, i)]).length := by
  obtain ⟨call, h⟩ := i
  rw [registered_append, List.length_append, List.length_singleton]
  cases call with
  | addmsghandler mod st position f desc =>
      obtain ⟨h', hfailed | hadded⟩ := addmsghandler_cases chains mod st position f desc h
      · have hnot : taken (chains, (Call.addmsghandler mod st position f desc, h)) = false := by
          simp [taken, Call.run, hfailed, Except.toOption]
        have hsame : chains' = chains := by
          simpa [register, Call.run, hfailed, Except.map] using hstep.symm
        simp only [tally, hnot, Bool.false_eq_true, and_false, if_false, hsame]
        exact (hk stage).succ
      · have htaken : taken (chains, (Call.addmsghandler mod st position f desc, h)) = true := by
          simp [taken, Call.run, hadded, Except.toOption]
        simp only [register, Call.run, hadded, Except.map, Except.ok.injEq] at hstep
        subst hstep
        simp only [tally, htaken, and_true]
        by_cases heq : st = stage
        · subst heq
          rw [if_pos rfl, Function.update_self]
          exact (hk st).insert hfresh
        · rw [if_neg heq, Function.update_of_ne (Ne.symm heq)]
          exact (hk stage).succ
  | remmsghandler mod st f =>
      have hchains : (remmsghandler chains st f).2 = chains' := by
        simpa [register, Call.run, Except.map, Prog.pure_run] using hstep
      rw [remmsghandler_snd (hk st).nodup] at hchains
      subst hchains
      simp only [tally]
      by_cases heq : st = stage
      · subst heq
        rw [if_pos rfl, Function.update_self]
        exact (hk st).filter
      · rw [if_neg heq, Function.update_of_ne (Ne.symm heq)]
        exact (hk stage).succ

/-- Every stage is in order after any history of calls. -/
theorem kept_of_run {hist : Registrations F} (hrun : Run register Unregistered hist chains)
    (hfresh : ∀ p ∈ hist, Fresh p.1 p.2) (stage : Stage) :
    Kept (registered hist stage) (chains stage) hist.length := by
  have hall : ∀ stage, Kept (registered hist stage) (chains stage) hist.length := by
    refine hrun.invariant_history (I := fun hist chains =>
      ∀ stage, Kept (registered hist stage) (chains stage) hist.length) hfresh ?_ ?_
    · intro chains hstart stage
      rw [hstart stage]
      exact .start
    · intro hist i chains chains' _ hk hfresh hstep
      exact register_kept hk hfresh hstep
  exact hall stage

end

end Timps.Gnr.Msghandler
