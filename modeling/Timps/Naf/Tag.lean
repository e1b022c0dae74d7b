-- SUMMARY: Tag lists: named data that modules attach to connections and messages.
import Timps.Naf.Memory

/-!
# Tags

A tag is found by its owner and its name. What a tag carries is a parameter: the
source stores a `void *`, and each kind of object has its own kinds of data.
-/

namespace Timps.Naf

/-- A module, as far as the owners of tags, nodes and connections are compared. -/
structure Nafmodule where
  name : CStr
  deriving DecidableEq, Repr

structure Tag (δ : Type) where
  owner : Nafmodule
  name : CStr
  type : Char
  data : δ

namespace Tag

variable {δ : Type}

/-- The owner and name test that all look-ups share. -/
def isFor (mod : Nafmodule) (name : CStr) (tag : Tag δ) : Bool :=
  tag.owner = mod ∧ tag.name = name

def ispresent (taglist : List (Tag δ)) (mod : Nafmodule) (name : CStr) : Bool :=
  taglist.any (isFor mod name)

/-- The stored name is cut to MAXTAGNAMELEN. No data is valid data; no name is not. -/
def add (taglist : List (Tag δ)) (mod : Nafmodule) (name : CStr) (type : Char) (data : δ) :
    Mem (Option (List (Tag δ))) :=
  if name = [] then pure none
  else if ispresent taglist mod name then pure none
  else do
    -- sizeof(naf_tag_t)
    match ← malloc 96 with
    | none => pure none
    | some _ => pure (some ({ owner := mod, name := name.take 64, type, data } :: taglist))

/-- The tag taken out, and the list without it. -/
def remove : List (Tag δ) → Nafmodule → CStr → Option (Tag δ) × List (Tag δ)
  | [], _, _ => (none, [])
  | tag :: taglist, mod, name =>
      if isFor mod name tag then (some tag, taglist)
      else ((remove taglist mod name).1, tag :: (remove taglist mod name).2)

def fetch (taglist : List (Tag δ)) (mod : Nafmodule) (name : CStr) : Option (Tag δ) :=
  taglist.find? (isFor mod name)

theorem add_ok {taglist l' : List (Tag δ)} {mod : Nafmodule} {name : CStr} {type : Char}
    {data : δ} {h h' : Heap} (hr : add taglist mod name type data h = .ok (some l', h')) :
    ispresent taglist mod name = false ∧
      l' = { owner := mod, name := name.take 64, type, data } :: taglist := by
  unfold add at hr
  split at hr
  · simp at hr
  split at hr
  · simp at hr
  · rename_i habsent
    simp only [Prog.bind_ok] at hr
    obtain ⟨b, h₁, hb, hr⟩ := hr
    cases b with
    | none => simp at hr
    | some b =>
        simp only [Prog.pure_ok, Prod.mk.injEq, Option.some.injEq] at hr
        exact ⟨by simpa using habsent, hr.1⟩

/-- Adding a tag always returns. -/
theorem add_returns (taglist : List (Tag δ)) (mod : Nafmodule) (name : CStr) (type : Char)
    (data : δ) (h : Heap) : ∃ l h', add taglist mod name type data h = .ok (l, h') := by
  unfold add
  split
  · exact ⟨_, _, rfl⟩
  split
  · exact ⟨_, _, rfl⟩
  · have halloc : ∃ b, malloc 96 h = .ok (b, h.next) := ⟨_, rfl⟩
    obtain ⟨b, hb⟩ := halloc
    rw [Prog.bind_of_ok hb]
    cases b <;> exact ⟨_, _, rfl⟩

/-- With memory enough, a tag that is not there yet is added. -/
theorem add_of_willing {taglist : List (Tag δ)} {mod : Nafmodule} {name : CStr} {type : Char}
    {data : δ} {h : Heap} (hh : h.refuse = []) (hname : name ≠ [])
    (habsent : ispresent taglist mod name = false) :
    add taglist mod name type data h =
      .ok (some ({ owner := mod, name := name.take 64, type, data } :: taglist), h) := by
  simp only [add, if_neg hname, habsent, Bool.false_eq_true, if_false]
  rw [Prog.bind_of_ok (malloc_of_willing hh)]
  rfl

/-- The list without the tag taken out still has all tags of other owners or names. -/
theorem fetch_remove {taglist : List (Tag δ)} {mod mod' : Nafmodule} {name name' : CStr}
    (hne : (mod, name) ≠ (mod', name')) :
    fetch (remove taglist mod name).2 mod' name' = fetch taglist mod' name' := by
  induction taglist with
  | nil => rfl
  | cons tag taglist ih =>
      simp only [remove]
      split
      · rename_i hfor
        have hother : isFor mod' name' tag = false := by
          simp only [isFor, decide_eq_true_eq, decide_eq_false_iff_not] at hfor ⊢
          rintro ⟨h₁, h₂⟩
          exact hne (by rw [← hfor.1, ← hfor.2, h₁, h₂])
        simp only [fetch, List.find?_cons, hother]
      · simp only [fetch, List.find?_cons] at ih ⊢
        rw [ih]

theorem fetch_cons_self {taglist : List (Tag δ)} {mod : Nafmodule} {name : CStr} {tag : Tag δ}
    (h : isFor mod name tag = true) : fetch (tag :: taglist) mod name = some tag :=
  List.find?_cons_of_pos h

theorem fetch_cons_of_ne {taglist : List (Tag δ)} {mod : Nafmodule} {name : CStr} {tag : Tag δ}
    (h : isFor mod name tag = false) : fetch (tag :: taglist) mod name = fetch taglist mod name :=
  List.find?_cons_of_neg (by simpa using h)

theorem mem_of_mem_remove {taglist : List (Tag δ)} {mod : Nafmodule} {name : CStr} {tag : Tag δ}
    (h : tag ∈ (remove taglist mod name).2) : tag ∈ taglist := by
  induction taglist with
  | nil => cases h
  | cons t taglist ih =>
      simp only [remove] at h
      split at h
      · exact .tail _ h
      · cases h with
        | head => exact .head _
        | tail _ h => exact .tail _ (ih h)

end Tag
end Timps.Naf
