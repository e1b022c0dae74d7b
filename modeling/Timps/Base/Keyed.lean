-- SUMMARY: Linked lists whose entries are found by a key, and the partial maps that they stand for.
import Mathlib.Data.List.Nodup
import Mathlib.Logic.Function.Basic

/-!
# Keyed lists

A table of a C program is often a linked list that is searched for the first entry of a
key. `entry key l` is the partial map that the list `l` stands for. In a list that has
every key once, an entry in front and the removal of the first entry of a key are the
updates of that map.
-/

namespace Keyed

variable {α κ : Type} [DecidableEq κ] (key : α → κ)

/-- The first entry of a key. -/
def entry (l : List α) (k : κ) : Option α := l.find? fun a => decide (key a = k)

/-- The list without the first entry of a key. -/
def drop (k : κ) (l : List α) : List α := l.eraseP fun a => decide (key a = k)

/-- Every key is there once. -/
def Unique (l : List α) : Prop := (l.map key).Nodup

variable {key} {l : List α} {a : α} {k : κ}

theorem entry_some (h : entry key l k = some a) : a ∈ l ∧ key a = k :=
  ⟨List.mem_of_find?_eq_some h, by simpa using List.find?_some h⟩

theorem entry_eq_none : entry key l k = none ↔ ∀ a ∈ l, key a ≠ k := by
  simp [entry]

/-- An entry in front is the entry of its key. -/
theorem entry_cons : entry key (a :: l) = Function.update (entry key l) (key a) (some a) := by
  funext k
  by_cases hk : key a = k
  · subst hk
    simp [entry]
  · simp [entry, hk, Ne.symm hk]

/-- An entry at the end is the entry of a key that has none before. -/
theorem entry_snoc (hnone : entry key l (key a) = none) :
    entry key (l ++ [a]) = Function.update (entry key l) (key a) (some a) := by
  funext k
  rw [entry, List.find?_append]
  by_cases hk : k = key a
  · subst hk
    rw [Function.update_self, show l.find? (fun b => decide (key b = key a)) = none from hnone]
    simp
  · rw [Function.update_of_ne hk, List.find?_cons_of_neg (by simpa using Ne.symm hk)]
    exact Option.or_none

omit [DecidableEq κ] in
theorem Unique.nil : Unique key [] := List.nodup_nil

theorem Unique.cons (hl : Unique key l) (hnone : entry key l (key a) = none) : Unique key (a :: l) := by
  refine List.nodup_cons.2 ⟨fun hmem => ?_, hl⟩
  obtain ⟨b, hb, hkey⟩ := List.mem_map.1 hmem
  exact entry_eq_none.1 hnone b hb hkey

theorem Unique.snoc (hl : Unique key l) (hnone : entry key l (key a) = none) : Unique key (l ++ [a]) := by
  have hperm : (l ++ [a]).Perm (a :: l) := by simp
  exact (hperm.map key).nodup_iff.2 (hl.cons hnone)

omit [DecidableEq κ] in
theorem Unique.sublist {l' : List α} (hl : Unique key l) (hsub : l'.Sublist l) : Unique key l' :=
  List.Nodup.sublist (hsub.map key) hl

theorem Unique.drop (hl : Unique key l) : Unique key (Keyed.drop key k l) := hl.sublist List.eraseP_sublist

/-- Where every key is there once, an entry of the list is the entry of its key. -/
theorem Unique.entry (hl : Unique key l) (ha : a ∈ l) : entry key l (key a) = some a := by
  induction l with
  | nil => cases ha
  | cons b l ih =>
      obtain ⟨hb, hl⟩ := List.nodup_cons.1 hl
      rw [entry_cons]
      rcases List.mem_cons.1 ha with rfl | ha
      · exact Function.update_self ..
      · have hne : key a ≠ key b := fun heq => hb (heq ▸ List.mem_map_of_mem ha)
        rw [Function.update_of_ne hne]
        exact ih hl ha

/-- Without its entry, a key has none. -/
theorem Unique.entry_drop (hl : Unique key l) : Keyed.entry key (Keyed.drop key k l) =
    Function.update (Keyed.entry key l) k none := by
  induction l with
  | nil =>
      funext k'
      by_cases hk : k' = k
      · subst hk
        simp [Keyed.drop, Keyed.entry]
      · simp [Keyed.drop, Keyed.entry, hk]
  | cons b l ih =>
      obtain ⟨hb, hl⟩ := List.nodup_cons.1 hl
      by_cases hk : key b = k
      · subst hk
        have hnone : Keyed.entry key l (key b) = none :=
          entry_eq_none.2 fun a ha heq => hb (heq ▸ List.mem_map_of_mem ha)
        rw [show Keyed.drop key (key b) (b :: l) = l by simp [Keyed.drop], entry_cons, Function.update_idem, ← hnone,
          Function.update_eq_self]
      · rw [show Keyed.drop key k (b :: l) = b :: Keyed.drop key k l by simp [Keyed.drop, hk], entry_cons, entry_cons,
          ih hl, Function.update_comm hk]

/-- Writing to the entries of a key writes to the entry of that key. -/
theorem entry_change {f : α → α} (hf : ∀ a, key (f a) = key a) (k : κ) (l : List α) :
    entry key (l.map fun a => if key a = k then f a else a) =
      Function.update (entry key l) k ((entry key l k).map f) := by
  induction l with
  | nil =>
      funext k'
      by_cases hk : k' = k
      · subst hk
        simp [entry]
      · simp [entry, hk]
  | cons b l ih =>
      rw [List.map_cons, entry_cons, entry_cons, ih]
      by_cases hk : key b = k
      · subst hk
        rw [if_pos rfl, hf, Function.update_idem, Function.update_idem, Function.update_self]
        rfl
      · rw [if_neg hk, Function.update_of_ne (Ne.symm hk), Function.update_comm hk]

theorem unique_change {f : α → α} (hf : ∀ a, key (f a) = key a) (k : κ) (hl : Unique key l) :
    Unique key (l.map fun a => if key a = k then f a else a) := by
  have hkeys : (l.map fun a => if key a = k then f a else a).map key = l.map key := by
    rw [List.map_map]
    refine List.map_congr_left fun a _ => ?_
    by_cases hk : key a = k
    · rw [Function.comp_apply, if_pos hk, hf]
    · rw [Function.comp_apply, if_neg hk]
  rw [Unique, hkeys]
  exact hl

/-- Entries that become entries of the same keys, or go. -/
theorem Unique.entry_filterMap {f : α → Option α} (hf : ∀ a b, f a = some b → key b = key a) (hl : Unique key l) :
    Keyed.entry key (l.filterMap f) k = (Keyed.entry key l k).bind f := by
  induction l with
  | nil => rfl
  | cons a l ih =>
      obtain ⟨ha, hl'⟩ := List.nodup_cons.1 hl
      have hkept : Keyed.entry key (l.filterMap f) k = (Keyed.entry key l k).bind f := ih hl'
      rw [entry_cons]
      by_cases hk : k = key a
      · subst hk
        have hnone : Keyed.entry key l (key a) = none :=
          entry_eq_none.2 fun b hb heq => ha (heq ▸ List.mem_map_of_mem hb)
        rw [hnone] at hkept
        rw [Function.update_self, List.filterMap_cons]
        cases hfa : f a with
        | none => exact hkept.trans hfa.symm
        | some b =>
            rw [← hf a b hfa, entry_cons, Function.update_self]
            exact hfa.symm
      · rw [Function.update_of_ne hk, ← hkept, List.filterMap_cons]
        cases hfa : f a with
        | none => rfl
        | some b => rw [entry_cons, hf a b hfa, Function.update_of_ne hk]

end Keyed
