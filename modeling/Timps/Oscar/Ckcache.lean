-- SUMMARY: The cookie cache: what an authorizer handed out, until a client presents it or a minute has passed.
import Timps.World

/-!
# The cookie cache

A list with the newest cookie in front. The server type given to `ckcacheAdd` is not
kept: `ckc__alloc` clears the entry and never sets the field.
-/

namespace Timps.Oscar

/-- CKCACHE_TIMEOUT -/
def ckcacheTimeout : Int := 60

def ckcAlloc (ck : Bytes) (ip sn : CStr) : Naf.Mem (Option Ckcache) := do
  -- the entry (56 bytes), the cookie, the address and the name
  match ← Naf.malloc 56 with
  | none => pure none
  | some _ =>
      match ← Naf.malloc ck.length with
      | none => pure none
      | some _ =>
          match ← Naf.malloc (ip.length + 1) with
          | none => pure none
          | some _ =>
              match ← Naf.malloc (sn.length + 1) with
              | none => pure none
              | some _ => pure (some { ck, ip, sn, servtype := 0, addtime := 0 })

def ckcacheFind (cache : List Ckcache) (ck : Bytes) : Option Ckcache :=
  cache.find? fun ckc => ckc.ck = ck

/-- `ck` is null when its TLV has no value. -/
def ckcacheAdd (ck : Option Bytes) (ip sn : CStr) (_servtype : Nat) : Sys Bool :=
  match ck with
  | none => pure false
  | some ck =>
      if ck = [] then pure false
      else do
        let cache ← Prog.read fun w => w.ckcache
        if (ckcacheFind cache ck).isSome then pure false
        else
          match ← Sys.mem (ckcAlloc ck ip sn) with
          | none => pure false
          | some ckc => do
              let now ← Sys.now
              Prog.update fun w => { w with ckcache := { ckc with addtime := now } :: w.ckcache }
              pure true

/-- The first entry of that cookie, and the cache without it. -/
def ckcacheRemove : List Ckcache → Bytes → Option Ckcache × List Ckcache
  | [], _ => (none, [])
  | cur :: cache, ck =>
      if cur.ck = ck then (some cur, cache)
      else ((ckcacheRemove cache ck).1, cur :: (ckcacheRemove cache ck).2)

def ckcacheRem (ck : Bytes) : Sys (Option Ckcache) := do
  let cache ← Prog.read fun w => w.ckcache
  match ckcacheRemove cache ck with
  | (none, _) => pure none
  | (some ckc, cache) => do
      Prog.update fun w => { w with ckcache := cache }
      pure (some ckc)

def ckcacheTimer (now : Int) : Sys Unit := Prog.update fun w =>
  { w with ckcache := w.ckcache.filter fun ckc => ¬now - ckc.addtime > ckcacheTimeout }

theorem ckcacheRemove_mem {cache : List Ckcache} {ck : Bytes} {ckc : Ckcache}
    (h : (ckcacheRemove cache ck).1 = some ckc) : ckc ∈ cache ∧ ckc.ck = ck := by
  induction cache with
  | nil => cases h
  | cons cur cache ih =>
      simp only [ckcacheRemove] at h
      split at h
      · rename_i heq
        cases h
        exact ⟨.head _, heq⟩
      · exact ⟨.tail _ (ih h).1, (ih h).2⟩

theorem ckcacheRemove_sublist (cache : List Ckcache) (ck : Bytes) :
    (ckcacheRemove cache ck).2.Sublist cache := by
  induction cache with
  | nil => exact .slnil
  | cons cur cache ih =>
      simp only [ckcacheRemove]
      split
      · exact List.sublist_cons_self _ _
      · exact ih.cons_cons _

end Timps.Oscar
