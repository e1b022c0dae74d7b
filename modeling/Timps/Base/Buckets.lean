-- SUMMARY: Taking the elements of a list key by key is a stable sort.
import Mathlib.Order.Lattice
import Mathlib.Data.List.Basic

/-!
# Buckets

A list is gone through once for each of some keys, the largest key first, and the elements
with that key are taken. What comes out is the list sorted by its keys, and elements with the
same key stay in their order.
-/

namespace Buckets

variable {α β κ : Type} [LinearOrder κ] {key : α → κ} {l l₁ l₂ : List α} {keys : List κ}

/-- The elements with each of the keys, key by key. -/
def buckets (key : α → κ) (keys : List κ) (l : List α) : List α :=
  keys.flatMap fun k => l.filter fun a => key a = k

/-- The keys do not increase. -/
def Descends (key : α → κ) (l : List α) : Prop := l.Pairwise fun a b => key b ≤ key a

/-- A list that descends is determined by what it has for each key. -/
theorem eq_of_descends (h₁ : Descends key l₁) (h₂ : Descends key l₂)
    (hkeys : ∀ k, l₁.filter (fun a => key a = k) = l₂.filter fun a => key a = k) : l₁ = l₂ := by
  have hmem : ∀ {l₁ l₂ : List α}, (∀ k, l₁.filter (fun a => key a = k) = l₂.filter fun a => key a = k) →
      ∀ a ∈ l₁, a ∈ l₂ := by
    intro l₁ l₂ hkeys a ha
    have hin : a ∈ l₁.filter fun b => key b = key a := by simpa using ha
    rw [hkeys] at hin
    exact (List.mem_filter.1 hin).1
  induction l₁ generalizing l₂ with
  | nil =>
      cases l₂ with
      | nil => rfl
      | cons b l₂ => exact nomatch hmem (fun k => (hkeys k).symm) b List.mem_cons_self
  | cons a l₁ ih =>
      cases l₂ with
      | nil => exact nomatch hmem hkeys a List.mem_cons_self
      | cons b l₂ =>
          obtain ⟨ha, hrest⟩ := List.pairwise_cons.1 h₁
          obtain ⟨hb, htail⟩ := List.pairwise_cons.1 h₂
          -- both heads have the greatest key, so they share a bucket and are its first element
          have hle : key a ≤ key b := by
            obtain rfl | hin := List.mem_cons.1 (hmem hkeys a List.mem_cons_self)
            · exact le_refl _
            · exact hb a hin
          have hge : key b ≤ key a := by
            obtain rfl | hin := List.mem_cons.1 (hmem (fun k => (hkeys k).symm) b List.mem_cons_self)
            · exact le_refl _
            · exact ha b hin
          have heq : key a = key b := le_antisymm hle hge
          have hhead := hkeys (key a)
          rw [List.filter_cons_of_pos (by simp), List.filter_cons_of_pos (by simp [heq])] at hhead
          obtain rfl : a = b := (List.cons.inj hhead).1
          congr 1
          refine ih hrest htail fun k => ?_
          have hk := hkeys k
          by_cases hka : key a = k
          · rw [List.filter_cons_of_pos (by simpa using hka), List.filter_cons_of_pos (by simpa using hka)] at hk
            exact (List.cons.inj hk).2
          · rwa [List.filter_cons_of_neg (by simpa using hka), List.filter_cons_of_neg (by simpa using hka)] at hk

/-- The sort keeps what the list has for each key. -/
theorem filter_mergeSort (l : List α) (k : κ) :
    (l.mergeSort fun a b => key b ≤ key a).filter (fun a => key a = k) = l.filter fun a => key a = k := by
  have hequal : (l.filter fun a => key a = k).Pairwise fun a b => decide (key b ≤ key a) = true := by
    refine List.pairwise_of_forall_mem_list fun a ha b hb => ?_
    have hka : key a = k := by simpa using (List.mem_filter.1 ha).2
    have hkb : key b = k := by simpa using (List.mem_filter.1 hb).2
    simp [hka, hkb]
  have hsub := List.sublist_mergeSort (fun a b c hab hbc => ?_) (fun a b => ?_) hequal List.filter_sublist
  · have hfilter := hsub.filter fun a => key a = k
    simp only [List.filter_filter, Bool.and_self] at hfilter
    exact (hfilter.eq_of_length ((List.mergeSort_perm l _).filter _).length_eq.symm).symm
  · simp only [decide_eq_true_eq] at *
    exact hbc.trans hab
  · simpa using le_total (key b) (key a)

theorem mergeSort_descends (l : List α) : Descends key (l.mergeSort fun a b => key b ≤ key a) := by
  have hsorted : (l.mergeSort fun a b => key b ≤ key a).Pairwise fun a b => decide (key b ≤ key a) = true :=
    List.pairwise_mergeSort (fun a b c hab hbc => ?_) (fun a b => ?_) l
  · exact hsorted.imp fun h => by simpa using h
  · simp only [decide_eq_true_eq] at *
    exact hbc.trans hab
  · simpa using le_total (key b) (key a)

theorem mem_buckets {a : α} : a ∈ buckets key keys l ↔ a ∈ l ∧ key a ∈ keys := by
  simp [buckets, and_comm]

theorem buckets_descends (hkeys : keys.Pairwise fun k k' => k' < k) : Descends key (buckets key keys l) := by
  induction keys with
  | nil => exact .nil
  | cons k keys ih =>
      obtain ⟨hk, hkeys⟩ := List.pairwise_cons.1 hkeys
      refine List.pairwise_append.2 ⟨?_, ih hkeys, fun a ha b hb => ?_⟩
      · refine List.pairwise_of_forall_mem_list fun a ha b hb => ?_
        have hka : key a = k := by simpa using (List.mem_filter.1 ha).2
        have hkb : key b = k := by simpa using (List.mem_filter.1 hb).2
        exact (hkb.trans hka.symm).le
      · have hka : key a = k := by simpa using (List.mem_filter.1 ha).2
        rw [hka]
        exact (hk _ (mem_buckets.1 hb).2).le

theorem filter_bucket (k k' : κ) : (l.filter fun a => key a = k').filter (fun a => key a = k) =
    if k = k' then l.filter fun a => key a = k else [] := by
  rw [List.filter_filter]
  split
  · rename_i heq
    simp [heq]
  · rename_i hne
    refine List.filter_eq_nil_iff.2 fun a _ ha => ?_
    simp only [Bool.and_eq_true, decide_eq_true_eq] at ha
    exact hne (ha.1.symm.trans ha.2)

theorem filter_buckets (hkeys : keys.Pairwise fun k k' => k' < k) (k : κ) :
    (buckets key keys l).filter (fun a => key a = k) = if k ∈ keys then l.filter fun a => key a = k else [] := by
  induction keys with
  | nil => rfl
  | cons k' keys ih =>
      obtain ⟨hk, hkeys⟩ := List.pairwise_cons.1 hkeys
      have hsplit : buckets key (k' :: keys) l = (l.filter fun a => key a = k') ++ buckets key keys l := rfl
      rw [hsplit, List.filter_append, ih hkeys, filter_bucket]
      by_cases heq : k = k'
      · subst heq
        have hnotin : k ∉ keys := fun hin => lt_irrefl k (hk k hin)
        simp [hnotin]
      · simp [heq]

/-- Bucket after bucket, the elements come out as a stable sort puts them. -/
theorem buckets_eq_mergeSort (hkeys : keys.Pairwise fun k k' => k' < k) :
    buckets key keys l = (l.filter fun a => key a ∈ keys).mergeSort fun a b => key b ≤ key a := by
  refine eq_of_descends (buckets_descends hkeys) (mergeSort_descends _) fun k => ?_
  rw [filter_mergeSort, filter_buckets hkeys, List.filter_filter]
  by_cases hin : k ∈ keys
  · rw [if_pos hin]
    refine List.filter_congr fun a _ => ?_
    by_cases heq : key a = k
    · simp [heq, hin]
    · simp [heq]
  · rw [if_neg hin]
    refine (List.filter_eq_nil_iff.2 fun a _ ha => ?_).symm
    simp only [Bool.and_eq_true, decide_eq_true_eq] at ha
    exact hin (ha.1 ▸ ha.2)

theorem buckets_map {f : β → α} {l : List β} : buckets key keys (l.map f) = (buckets (key ∘ f) keys l).map f := by
  simp [buckets, List.map_flatMap, List.filter_map, Function.comp_def]

end Buckets
