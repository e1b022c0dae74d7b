-- SUMMARY: RPC requests and their arguments.
import Timps.Naf.Cstring

/-!
# RPC requests

A request names a module and a method and carries a list of named arguments of five types.
-/

namespace Timps.Naf

/-! ## Allocations in a row -/

/-- The state after so many allocations. -/
def Heap.skip (h : Heap) (n : Nat) : Heap := { h with refuse := h.refuse.drop n }

theorem Heap.skip_one (h : Heap) : h.skip 1 = h.next := by
  rw [skip, next, List.drop_one]

theorem Heap.skip_skip (h : Heap) (m n : Nat) : (h.skip m).skip n = h.skip (m + n) := by
  simp only [skip, List.drop_drop]

/-- An allocator refuses the next request when a refusal is the first answer it has left. -/
theorem Heap.unwilling_iff {h : Heap} : h.unwilling = true ↔ true ∈ h.refuse.take 1 := by
  obtain ⟨refuse, junk⟩ := h
  cases refuse with
  | nil => simp [unwilling]
  | cons a l => simp [unwilling]

/-- The program allocates `n` times, and gives `a` when none of these allocations is refused. -/
def Asks {α : Type} (n : Nat) (a : α) (x : Mem (Option α)) : Prop :=
  ∀ h : Heap, (true ∉ h.refuse.take n → x h = .ok (some a, h.skip n)) ∧
    (true ∈ h.refuse.take n → ∃ h', x h = .ok (none, h'))

section

variable {α β : Type} {m n : Nat} {a : α} {b : β}

theorem Asks.pure : Asks 0 a (Pure.pure (some a)) :=
  fun h => ⟨fun _ => rfl, fun hmem => by cases hmem⟩

/-- The requests of a sequence are those of its parts. -/
theorem Asks.bind {x : Mem (Option α)} {f : Option α → Mem (Option β)} (hx : Asks m a x)
    (hnone : f none = Pure.pure none) (hsome : Asks n b (f (some a))) : Asks (m + n) b (x >>= f) := by
  intro h
  have htake : h.refuse.take (m + n) = h.refuse.take m ++ (h.skip m).refuse.take n := List.take_add
  rw [htake, List.mem_append, not_or]
  constructor
  · rintro ⟨hm, hn⟩
    rw [Prog.bind_of_ok ((hx h).1 hm), ← Heap.skip_skip]
    exact (hsome _).1 hn
  · intro hmem
    by_cases hm : true ∈ h.refuse.take m
    · obtain ⟨h', hrefused⟩ := (hx h).2 hm
      rw [Prog.bind_of_ok hrefused, hnone]
      exact ⟨h', rfl⟩
    · rw [Prog.bind_of_ok ((hx h).1 hm)]
      exact (hsome _).2 (hmem.resolve_left hm)

theorem Asks.strdup (s : CStr) : Asks 1 s (strdup s) := by
  intro h
  rw [← Heap.unwilling_iff, Bool.not_eq_true, Heap.skip_one]
  exact ⟨fun hh => strdup_granted hh, fun hh => ⟨_, strdup_refused hh⟩⟩

/-- A block that is given is one request, and without it there is nothing. -/
theorem Asks.malloc {size : Nat} {f : Option Block → Mem (Option β)} (hnone : f none = Pure.pure none)
    (hsome : ∀ block, Asks n b (f (some block))) : Asks (1 + n) b (malloc size >>= f) := by
  intro h
  have htake : h.refuse.take (1 + n) = h.refuse.take 1 ++ (h.skip 1).refuse.take n := List.take_add
  rw [htake, List.mem_append, not_or, ← Heap.unwilling_iff, ← Heap.skip_skip, Heap.skip_one]
  cases hh : h.unwilling with
  | true =>
      refine ⟨fun hnot => absurd rfl hnot.1, fun _ => ?_⟩
      rw [Prog.bind_of_ok (malloc_refused hh), hnone]
      exact ⟨h.next, rfl⟩
  | false =>
      rw [Prog.bind_of_ok (malloc_granted hh)]
      exact ⟨fun hnot => (hsome _ h.next).1 hnot.2,
        fun hmem => (hsome _ h.next).2 (hmem.resolve_left Bool.false_ne_true)⟩

end

/-! ## Requests -/

/-- `naf_rpc_arg_t` -/
inductive RpcArg where
  | scalar (name : CStr) (scalar : Nat)
  | array (name : CStr) (children : List RpcArg)
  | generic (name : CStr) (generic : Bytes)
  | bool (name : CStr) (boolean : Bool)
  | string (name : CStr) (string : CStr)

/-- The part of a `naf_rpc_req_t` that a caller fills in. -/
structure RpcReq where
  target : CStr
  method : CStr
  inargs : List RpcArg

namespace RpcReq

/-- `naf_rpc_request_new` -/
def new (targetmod method : CStr) : Mem (Option RpcReq) := do
  -- sizeof(naf_rpc_req_t)
  match ← malloc 40 with
  | none => pure none
  | some _ => do
      match ← strdup targetmod with
      | none => pure none
      | some target => do
          match ← strdup method with
          | none => pure none
          | some method => pure (some { target, method, inargs := [] })

/-- One of the three allocations is refused. -/
def Refused (h : Heap) : Prop := true ∈ h.refuse.take 3

instance (h : Heap) : Decidable (Refused h) := inferInstanceAs (Decidable (_ ∈ _))

theorem asks_new (targetmod method : CStr) : Asks 3 ⟨targetmod, method, []⟩ (new targetmod method) :=
  Asks.malloc (n := 2) rfl fun _ =>
    Asks.bind (n := 1) (Asks.strdup targetmod) rfl (Asks.bind (n := 0) (Asks.strdup method) rfl Asks.pure)

/-- A request is made when none of its allocations is refused. -/
theorem new_eq (targetmod method : CStr) (h : Heap) :
    ∃ h', new targetmod method h = .ok (if Refused h then none else some ⟨targetmod, method, []⟩, h') := by
  by_cases hrefused : Refused h
  · obtain ⟨h', hnone⟩ := (asks_new targetmod method h).2 hrefused
    exact ⟨h', by rw [hnone, if_pos hrefused]⟩
  · exact ⟨h.skip 3, by rw [(asks_new targetmod method h).1 hrefused, if_neg hrefused]⟩

theorem new_of_willing {targetmod method : CStr} {h : Heap} (hh : h.refuse = []) :
    new targetmod method h = .ok (some ⟨targetmod, method, []⟩, h) := by
  rw [new, Prog.bind_of_ok (malloc_of_willing hh)]
  dsimp only
  rw [Prog.bind_of_ok (strdup_of_willing hh)]
  dsimp only
  rw [Prog.bind_of_ok (strdup_of_willing hh)]
  rfl

end RpcReq

namespace RpcArg

def name : RpcArg → CStr
  | scalar name _ => name
  | array name _ => name
  | generic name _ => name
  | bool name _ => name
  | string name _ => name

/-- `naf_rpc_arg_new`: the name, when there is memory for the argument. -/
def new (name : CStr) : Mem (Option CStr) := do
  -- sizeof(naf_rpc_arg_t)
  match ← malloc 32 with
  | none => pure none
  | some _ => strdup name

/-- `naf_rpc_addarg_scalar` and `naf_rpc_addarg_bool`: an argument that cannot be allocated is not
added. -/
def add (head : List RpcArg) (name : CStr) (arg : CStr → RpcArg) : Mem (List RpcArg) := do
  match ← new name with
  | none => pure head
  | some name => pure (head ++ [arg name])

/-- `naf_rpc_addarg_string` -/
def addString (head : List RpcArg) (name : CStr) (s : CStr) : Mem (List RpcArg) := do
  match ← new name with
  | none => pure head
  | some name => do
      match ← strdup s with
      | none => pure head
      | some s => pure (head ++ [string name s])

variable {h : Heap}

theorem new_of_willing {name : CStr} (hh : h.refuse = []) : new name h = .ok (some name, h) := by
  rw [new, Prog.bind_of_ok (malloc_of_willing hh)]
  exact strdup_of_willing hh

/-- With memory enough an argument stands behind those of before. -/
theorem add_of_willing {head : List RpcArg} {name : CStr} {arg : CStr → RpcArg} (hh : h.refuse = []) :
    add head name arg h = .ok (head ++ [arg name], h) := by
  rw [add, Prog.bind_of_ok (new_of_willing hh)]
  rfl

theorem addString_of_willing {head : List RpcArg} {name s : CStr} (hh : h.refuse = []) :
    addString head name s h = .ok (head ++ [string name s], h) := by
  rw [addString, Prog.bind_of_ok (new_of_willing hh)]
  dsimp only
  rw [Prog.bind_of_ok (strdup_of_willing hh)]
  rfl

/-! ## The values of the calls -/

/-- `naf_rpc_addarg_scalar` and `naf_rpc_addarg_bool`; `none` is the value -1, with the list as it was. -/
def addarg (head : List RpcArg) (name : CStr) (arg : CStr → RpcArg) : Mem (Option (List RpcArg)) := do
  match ← new name with
  | none => pure none
  | some name => pure (some (head ++ [arg name]))

/-- `naf_rpc_addarg_string`, in the same way. -/
def addargString (head : List RpcArg) (name : CStr) (s : CStr) : Mem (Option (List RpcArg)) := do
  match ← new name with
  | none => pure none
  | some name => do
      match ← strdup s with
      | none => pure none
      | some s => pure (some (head ++ [string name s]))

theorem asks_new (name : CStr) : Asks 2 name (new name) :=
  Asks.malloc (n := 1) rfl fun _ => Asks.strdup name

theorem asks_addarg (head : List RpcArg) (name : CStr) (arg : CStr → RpcArg) :
    Asks 2 (head ++ [arg name]) (addarg head name arg) :=
  Asks.bind (n := 0) (asks_new name) rfl Asks.pure

theorem asks_addargString (head : List RpcArg) (name s : CStr) :
    Asks 3 (head ++ [string name s]) (addargString head name s) :=
  Asks.bind (n := 1) (asks_new name) rfl (Asks.bind (n := 0) (Asks.strdup s) rfl Asks.pure)

/-- Without a look at the value there is only the list. -/
theorem add_eq (head : List RpcArg) (name : CStr) (arg : CStr → RpcArg) (h : Heap) :
    add head name arg h = (do
      let r ← addarg head name arg
      pure (r.getD head)) h := by
  unfold add addarg
  rw [bind_assoc]
  cases hnew : new name h with
  | error e => rw [Prog.bind_of_error hnew, Prog.bind_of_error hnew]
  | ok x =>
      obtain ⟨r, h'⟩ := x
      rw [Prog.bind_of_ok hnew, Prog.bind_of_ok hnew]
      cases r with
      | none => rfl
      | some name => rfl

/-- So it is with a string, which is copied. -/
theorem addString_eq (head : List RpcArg) (name s : CStr) (h : Heap) :
    addString head name s h = (do
      let r ← addargString head name s
      pure (r.getD head)) h := by
  unfold addString addargString
  rw [bind_assoc]
  cases hnew : new name h with
  | error e => rw [Prog.bind_of_error hnew, Prog.bind_of_error hnew]
  | ok x =>
      obtain ⟨r, h'⟩ := x
      rw [Prog.bind_of_ok hnew, Prog.bind_of_ok hnew]
      cases r with
      | none => rfl
      | some name =>
          dsimp only
          rw [bind_assoc]
          cases hdup : strdup s h' with
          | error e => rw [Prog.bind_of_error hdup, Prog.bind_of_error hdup]
          | ok y =>
              obtain ⟨r, h''⟩ := y
              rw [Prog.bind_of_ok hdup, Prog.bind_of_ok hdup]
              cases r with
              | none => rfl
              | some s => rfl

end RpcArg

end Timps.Naf
