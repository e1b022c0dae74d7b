-- SUMMARY: Tag lists as maps from owners and names, and what becomes of the data that is attached.
import Mathlib.Data.List.Perm.Basic
import Timps.Base.Run
import Timps.Naf.Tag

/-!
# Tag lists

Modules attach data to one list under names of their own. The log of the calls says what each of
them holds: what it added last under a name, unless it was removed since. The list is the same map,
and all that was added was removed, or is still there for the owners to free.
-/

namespace Timps.Naf

open Prog (bind_of_ok)

/-- A name that is stored as it is. -/
structure Tagname where
  val : CStr
  nonempty : val ≠ []
  short : val.length ≤ 64

namespace Tag

variable {δ : Type}

/-- What a look-up hands out. -/
def content (tag : Tag δ) : Char × δ := (tag.type, tag.data)

/-- The calls of the owners' `freetag` functions, for the modules that have one. -/
def freelist (freetag : Nafmodule → Bool) : List (Tag δ) → List (Tag δ)
  | [] => []
  | tag :: taglist =>
      if freetag tag.owner then tag :: freelist freetag taglist else freelist freetag taglist

/-! ## Calls -/

inductive Call (δ : Type) where
  | add (mod : Nafmodule) (name : Tagname) (type : Char) (data : δ)
  | remove (mod : Nafmodule) (name : Tagname)
  | fetch (mod : Nafmodule) (name : Tagname)
  | ispresent (mod : Nafmodule) (name : Tagname)

inductive Answer (δ : Type) where
  | added (done : Bool)
  | content (r : Option (Char × δ))
  | present (is : Bool)

namespace Call

/-- The module that calls. -/
def mod : Call δ → Nafmodule
  | add mod _ _ _ | remove mod _ | fetch mod _ | ispresent mod _ => mod

def name : Call δ → Tagname
  | add _ name _ _ | remove _ name | fetch _ name | ispresent _ name => name

def perform : Call δ → List (Tag δ) → Mem (Answer δ × List (Tag δ))
  | add mod name type data, taglist => do
      match ← Tag.add taglist mod name.val type data with
      | none => pure (.added false, taglist)
      | some taglist => pure (.added true, taglist)
  | remove mod name, taglist =>
      pure (.content ((Tag.remove taglist mod name.val).1.map content), (Tag.remove taglist mod name.val).2)
  | fetch mod name, taglist => pure (.content ((Tag.fetch taglist mod name.val).map content), taglist)
  | ispresent mod name, taglist => pure (.present (Tag.ispresent taglist mod name.val), taglist)

end Call

/-- A list, and the calls it had with their answers, the latest first. -/
structure Taglist (δ : Type) where
  tags : List (Tag δ)
  heap : Heap
  log : List (Call δ × Answer δ)

namespace Taglist

/-- No call was made yet. -/
def Fresh (s : Taglist δ) : Prop := s.tags = [] ∧ s.log = []

def next (c : Call δ) (s : Taglist δ) : Except Fault (Taglist δ) :=
  match c.perform s.tags s.heap with
  | .error e => .error e
  | .ok ((a, tags), heap) => .ok { tags, heap, log := (c, a) :: s.log }

end Taglist

/-! ## What the log says -/

/-- What `mod` added last under a name, unless it was removed since. -/
def held (mod : Nafmodule) (name : CStr) : List (Call δ × Answer δ) → Option (Char × δ)
  | [] => none
  | (.add mod' name' type data, .added true) :: log =>
      if mod' = mod ∧ name'.val = name then some (type, data) else held mod name log
  | (.remove mod' name', .content (some _)) :: log =>
      if mod' = mod ∧ name'.val = name then none else held mod name log
  | _ :: log => held mod name log

/-- All that was added. -/
def added : List (Call δ × Answer δ) → List (Tag δ)
  | [] => []
  | (.add mod name type data, .added true) :: log => ⟨mod, name.val, type, data⟩ :: added log
  | _ :: log => added log

/-- All that a removal returned. -/
def taken : List (Call δ × Answer δ) → List (Tag δ)
  | [] => []
  | (.remove mod name, .content (some (type, data))) :: log => ⟨mod, name.val, type, data⟩ :: taken log
  | _ :: log => taken log

/-! ## The list -/

section

variable {taglist : List (Tag δ)} {mod : Nafmodule} {name : CStr}

/-- No two tags of a list have the same owner and name. -/
def Unique (taglist : List (Tag δ)) : Prop :=
  taglist.Pairwise fun tag tag' => ¬(tag.owner = tag'.owner ∧ tag.name = tag'.name)

theorem isFor_iff {tag : Tag δ} : isFor mod name tag = true ↔ tag.owner = mod ∧ tag.name = name := by
  rw [isFor, decide_eq_true_eq]

theorem ispresent_eq_isSome : ispresent taglist mod name = (fetch taglist mod name).isSome :=
  List.isSome_find?.symm

theorem remove_fst : (remove taglist mod name).1 = fetch taglist mod name := by
  induction taglist with
  | nil => rfl
  | cons tag taglist ih =>
      rw [remove]
      by_cases hfor : isFor mod name tag = true
      · rw [if_pos hfor, fetch_cons_self hfor]
      · rw [if_neg hfor, fetch_cons_of_ne (Bool.eq_false_iff.2 hfor), ← ih]

theorem remove_sublist : (remove taglist mod name).2.Sublist taglist := by
  induction taglist with
  | nil => exact .slnil
  | cons tag taglist ih =>
      rw [remove]
      split
      · exact .cons _ (.refl _)
      · exact ih.cons_cons _

/-- A removal that finds nothing leaves the list as it is. -/
theorem remove_of_absent (habsent : fetch taglist mod name = none) : (remove taglist mod name).2 = taglist := by
  induction taglist with
  | nil => rfl
  | cons tag taglist ih =>
      rw [fetch, List.find?_eq_none] at habsent
      have hfor := habsent tag (.head _)
      rw [remove, if_neg hfor]
      exact congrArg _ (ih (List.find?_eq_none.2 fun tag' htag' => habsent tag' (.tail _ htag')))

/-- The tag that is returned and the list that is left are all there was. -/
theorem remove_perm {tag : Tag δ} (hfound : fetch taglist mod name = some tag) :
    taglist.Perm (tag :: (remove taglist mod name).2) := by
  induction taglist with
  | nil => cases hfound
  | cons tag' taglist ih =>
      rw [remove]
      by_cases hfor : isFor mod name tag' = true
      · rw [fetch_cons_self hfor] at hfound
        cases hfound
        rw [if_pos hfor]
      · rw [fetch_cons_of_ne (Bool.eq_false_iff.2 hfor)] at hfound
        rw [if_neg hfor]
        exact ((ih hfound).cons tag').trans (.swap tag tag' _)

/-- What was removed is not found again. -/
theorem fetch_remove_self (hunique : Unique taglist) : fetch (remove taglist mod name).2 mod name = none := by
  induction taglist with
  | nil => rfl
  | cons tag taglist ih =>
      obtain ⟨hhead, htail⟩ := List.pairwise_cons.1 hunique
      rw [remove]
      by_cases hfor : isFor mod name tag = true
      · rw [if_pos hfor]
        refine List.find?_eq_none.2 fun tag' htag' hfor' => ?_
        rw [isFor_iff] at hfor hfor'
        exact hhead tag' htag' ⟨hfor.1.trans hfor'.1.symm, hfor.2.trans hfor'.2.symm⟩
      · rw [if_neg hfor, fetch_cons_of_ne (Bool.eq_false_iff.2 hfor)]
        exact ih htail

end

/-- The list is the map that the log says, and keeps count of what it was given. -/
structure Taglist.Served (freetag : Nafmodule → Bool) (s : Taglist δ) : Prop where
  returns : ∀ c, ∃ s', s.next c = .ok s'
  fetch : ∀ mod name, (Call.fetch mod name).perform s.tags s.heap =
    .ok ((.content (held mod name.val s.log), s.tags), s.heap)
  remove : ∀ mod name, ∃ tags, (Call.remove mod name).perform s.tags s.heap =
    .ok ((.content (held mod name.val s.log), tags), s.heap)
  present : ∀ mod name, (Call.ispresent mod name).perform s.tags s.heap =
    .ok ((.present (held mod name.val s.log).isSome, s.tags), s.heap)
  second : ∀ mod name type data, held mod name.val s.log ≠ none →
    (Call.add mod name type data).perform s.tags s.heap = .ok ((.added false, s.tags), s.heap)
  apart : ∀ c s' mod (name : Tagname), s.next c = .ok s' → c.mod ≠ mod →
    Tag.fetch s'.tags mod name.val = Tag.fetch s.tags mod name.val
  freed : ((added s.log).filter fun tag => freetag tag.owner).Perm
    (((taken s.log).filter fun tag => freetag tag.owner) ++ freelist freetag s.tags)

/-! ## Runs -/

/-- What the list and the log have to do with each other. -/
structure Taglist.Kept (s : Taglist δ) : Prop where
  unique : Unique s.tags
  held : ∀ mod name, (Tag.fetch s.tags mod name).map content = held mod name s.log
  balance : (added s.log).Perm (taken s.log ++ s.tags)

/-- A tag is added at the head, or nothing changes. -/
theorem perform_add (taglist : List (Tag δ)) (mod : Nafmodule) (name : Tagname) (type : Char) (data : δ)
    (h : Heap) :
    ∃ h', (Call.add mod name type data).perform taglist h = .ok ((.added false, taglist), h') ∨
      Tag.fetch taglist mod name.val = none ∧ (Call.add mod name type data).perform taglist h =
        .ok ((.added true, ⟨mod, name.val, type, data⟩ :: taglist), h') := by
  obtain ⟨r, h', hadd⟩ := add_returns taglist mod name.val type data h
  refine ⟨h', ?_⟩
  rw [Call.perform, bind_of_ok hadd]
  cases r with
  | none => exact .inl rfl
  | some l =>
      obtain ⟨habsent, rfl⟩ := add_ok hadd
      rw [ispresent_eq_isSome, Option.isSome_eq_false_iff, Option.isNone_iff_eq_none] at habsent
      rw [List.take_of_length_le name.short]
      exact .inr ⟨habsent, rfl⟩

theorem perform_remove_none {taglist : List (Tag δ)} {mod : Nafmodule} {name : Tagname} {h : Heap}
    (habsent : Tag.fetch taglist mod name.val = none) :
    (Call.remove mod name).perform taglist h = .ok ((.content none, taglist), h) := by
  rw [Call.perform, remove_fst, habsent, remove_of_absent habsent]
  rfl

theorem perform_remove_some {taglist : List (Tag δ)} {mod : Nafmodule} {name : Tagname} {tag : Tag δ} {h : Heap}
    (hfound : Tag.fetch taglist mod name.val = some tag) :
    (Call.remove mod name).perform taglist h =
      .ok ((.content (some (content tag)), (Tag.remove taglist mod name.val).2), h) := by
  rw [Call.perform, remove_fst, hfound]
  rfl

namespace Taglist.Kept

variable {s s' : Taglist δ}

theorem next {c : Call δ} (kept : s.Kept) (hnext : s.next c = .ok s') : s'.Kept := by
  cases c with
  | add mod name type data =>
      obtain ⟨h', hfailed | ⟨habsent, hadded⟩⟩ := perform_add s.tags mod name type data s.heap
      · simp only [Taglist.next, hfailed] at hnext
        cases hnext
        exact ⟨kept.unique, kept.held, kept.balance⟩
      · simp only [Taglist.next, hadded] at hnext
        cases hnext
        refine ⟨List.pairwise_cons.2 ⟨?_, kept.unique⟩, fun mod' name' => ?_, kept.balance.cons _ |>.trans ?_⟩
        · intro tag htag hsame
          have hfor : isFor mod name.val tag = true := isFor_iff.2 ⟨hsame.1.symm, hsame.2.symm⟩
          exact List.find?_eq_none.1 habsent tag htag hfor
        -- the new tag answers for its own owner and name, the older ones for all others
        · rw [Tag.held]
          by_cases hsame : mod = mod' ∧ name.val = name'
          · rw [if_pos hsame, fetch_cons_self (isFor_iff.2 hsame)]
            rfl
          · rw [if_neg hsame, fetch_cons_of_ne (Bool.eq_false_iff.2 fun hfor => hsame (isFor_iff.1 hfor))]
            exact kept.held mod' name'
        · exact List.perm_middle.symm
  | remove mod name =>
      cases hfound : Tag.fetch s.tags mod name.val with
      | none =>
          rw [Taglist.next, perform_remove_none hfound] at hnext
          cases hnext
          exact ⟨kept.unique, kept.held, kept.balance⟩
      | some tag =>
          rw [Taglist.next, perform_remove_some hfound] at hnext
          cases hnext
          obtain ⟨rfl, hname⟩ := isFor_iff.1 (List.find?_some hfound)
          refine ⟨kept.unique.sublist remove_sublist, fun mod' name' => ?_, kept.balance.trans ?_⟩
          · rw [Tag.held]
            by_cases hsame : tag.owner = mod' ∧ name.val = name'
            · obtain ⟨rfl, rfl⟩ := hsame
              rw [if_pos ⟨rfl, rfl⟩, fetch_remove_self kept.unique]
              rfl
            · rw [if_neg hsame, fetch_remove fun heq => hsame (Prod.mk.inj heq)]
              exact kept.held mod' name'
          · have htag : tag = ⟨tag.owner, name.val, tag.type, tag.data⟩ := by rw [← hname]
            rw [taken, content, ← htag]
            exact ((remove_perm hfound).append_left _).trans List.perm_middle
  | fetch mod name =>
      cases hnext
      exact ⟨kept.unique, kept.held, kept.balance⟩
  | ispresent mod name =>
      cases hnext
      exact ⟨kept.unique, kept.held, kept.balance⟩

/-- What another module does is not seen. -/
theorem fetch_next {c : Call δ} {mod : Nafmodule} {name : CStr} (hnext : s.next c = .ok s') (hmod : c.mod ≠ mod) :
    Tag.fetch s'.tags mod name = Tag.fetch s.tags mod name := by
  cases c with
  | add mod' name' type data =>
      obtain ⟨h', hfailed | ⟨-, hadded⟩⟩ := perform_add s.tags mod' name' type data s.heap
      · simp only [Taglist.next, hfailed] at hnext
        cases hnext
        rfl
      · simp only [Taglist.next, hadded] at hnext
        cases hnext
        exact fetch_cons_of_ne (Bool.eq_false_iff.2 fun hfor => hmod (isFor_iff.1 hfor).1)
  | remove mod' name' =>
      cases hnext
      exact fetch_remove fun heq => hmod (Prod.mk.inj heq).1
  | fetch mod' name' =>
      cases hnext
      rfl
  | ispresent mod' name' =>
      cases hnext
      rfl

theorem perform_add_present (kept : s.Kept) {mod : Nafmodule} {name : Tagname} (type : Char) (data : δ)
    (hheld : Tag.held mod name.val s.log ≠ none) :
    (Call.add mod name type data).perform s.tags s.heap = .ok ((.added false, s.tags), s.heap) := by
  have hpresent : ispresent s.tags mod name.val = true := by
    rw [ispresent_eq_isSome, Option.isSome_iff_ne_none]
    intro habsent
    rw [← kept.held, habsent] at hheld
    exact hheld rfl
  have hadd : Tag.add s.tags mod name.val type data s.heap = .ok (none, s.heap) := by
    rw [Tag.add, if_neg name.nonempty, if_pos hpresent]
    rfl
  rw [Call.perform, bind_of_ok hadd]
  rfl

end Taglist.Kept

theorem Taglist.next_returns (s : Taglist δ) (c : Call δ) : ∃ s', s.next c = .ok s' := by
  cases c with
  | add mod name type data =>
      obtain ⟨h', hfailed | ⟨-, hadded⟩⟩ := perform_add s.tags mod name type data s.heap
      · exact ⟨_, by rw [next, hfailed]⟩
      · exact ⟨_, by rw [next, hadded]⟩
  | remove mod name => exact ⟨_, rfl⟩
  | fetch mod name => exact ⟨_, rfl⟩
  | ispresent mod name => exact ⟨_, rfl⟩

theorem freelist_eq_filter (freetag : Nafmodule → Bool) (taglist : List (Tag δ)) :
    freelist freetag taglist = taglist.filter fun tag => freetag tag.owner := by
  induction taglist with
  | nil => rfl
  | cons tag taglist ih => rw [freelist, List.filter_cons, ih]

/-- After any calls of any modules, the list answers as the log says, and what was added was returned
by a removal or is freed by its owner. -/
theorem tags_served (freetag : Nafmodule → Bool) {history : List (Taglist δ × Call δ)} {s : Taglist δ}
    (hrun : Run Taglist.next Taglist.Fresh history s) : s.Served freetag := by
  have kept : s.Kept := by
    refine hrun.invariant (fun s hfresh => ?_) fun _ _ _ kept hnext => kept.next hnext
    obtain ⟨htags, hlog⟩ := hfresh
    refine ⟨?_, fun mod name => ?_, ?_⟩
    · rw [htags]
      exact .nil
    · rw [htags, hlog]
      rfl
    · rw [htags, hlog]
      exact .refl _
  exact
    { returns := s.next_returns
      fetch := fun mod name => by
        rw [Call.perform, kept.held]
        rfl
      remove := fun mod name => by
        refine ⟨(Tag.remove s.tags mod name.val).2, ?_⟩
        rw [Call.perform, remove_fst, kept.held]
        rfl
      present := fun mod name => by
        rw [Call.perform, ispresent_eq_isSome, ← kept.held, Option.isSome_map]
        rfl
      second := fun mod name type data hheld => kept.perform_add_present type data hheld
      apart := fun c s' mod name hnext hmod => Taglist.Kept.fetch_next hnext hmod
      freed := by
        rw [freelist_eq_filter, ← List.filter_append]
        exact kept.balance.filter _ }

/-- A name that two modules use. -/
def probename : Tagname := ⟨lit "conn.screenname", by decide, by decide⟩

/-- Two modules add under one name, and the first one removes what it added. -/
theorem tags_served_two : ∃ history s, Run Taglist.next (Taglist.Fresh : Taglist Nat → Prop) history s ∧
    s.tags.length = 1 ∧ s.Served fun _ => true := by
  have hstart : (⟨[], Heap.zeroed, []⟩ : Taglist Nat).Fresh := ⟨rfl, rfl⟩
  have hreach : (replayInputs Taglist.next
      [.add ⟨lit "a"⟩ probename 'I' 1, .add ⟨lit "b"⟩ probename 'I' 2, .remove ⟨lit "a"⟩ probename]
      (⟨[], Heap.zeroed, []⟩ : Taglist Nat)).toOption.any (fun r => decide (r.2.tags.length = 1)) = true := by
    decide +kernel
  obtain ⟨history, s, hrun, -, hlength⟩ := Run.exists_of_replay hstart hreach
  exact ⟨history, s, hrun, of_decide_eq_true hlength, tags_served _ hrun⟩

/-- What a module without a `freetag` function leaves in the list is neither removed nor freed. -/
theorem tags_left : ∃ history s, Run Taglist.next (Taglist.Fresh : Taglist Nat → Prop) history s ∧
    ¬(added s.log).Perm (taken s.log ++ freelist (fun _ => false) s.tags) := by
  have hstart : (⟨[], Heap.zeroed, []⟩ : Taglist Nat).Fresh := ⟨rfl, rfl⟩
  have hreach : (replayInputs Taglist.next [.add ⟨lit "a"⟩ probename 'I' 1]
      (⟨[], Heap.zeroed, []⟩ : Taglist Nat)).toOption.any (fun r => decide ((added r.2.log).length = 1) &&
        decide ((taken r.2.log ++ freelist (fun _ => false) r.2.tags).length = 0)) = true := by
    decide +kernel
  obtain ⟨history, s, hrun, -, hq⟩ := Run.exists_of_replay hstart hreach
  rw [Bool.and_eq_true, decide_eq_true_eq, decide_eq_true_eq] at hq
  refine ⟨history, s, hrun, fun hperm => ?_⟩
  have hlength := hperm.length_eq
  rw [hq.1, hq.2] at hlength
  cases hlength

end Tag
end Timps.Naf
