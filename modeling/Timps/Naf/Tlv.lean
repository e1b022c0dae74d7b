-- SUMMARY: Type-length-value chains: parsing off a buffer, when the parser ends, rendering and look-up.
import Timps.Naf.Sbuf

/-!
# TLVs

A `naf_tlv_t` chain is a list. The parser's loop runs while bytes remain, but its
progress is the progress of the getters, which do not move when too few bytes are
left. The loop is written with fuel, and `Fault.diverge` is what a run out of fuel
reports.
-/

namespace Timps.Naf

structure Tlv where
  type : Nat
  length : Nat
  value : Option Bytes
  deriving DecidableEq, Repr

namespace Tlv

def new (type length : Nat) (value : Option Bytes) : Mem (Option Tlv) := do
  -- sizeof(naf_tlv_t)
  let p ← malloc 24
  pure (p.map fun _ => { type, length, value })

/-! ## Parsing -/

/-- One round of the parser's loop, up to `naf_tlv_new`; `none` is a `break`. -/
def parseOne (sb : Sbuf) : Mem (Option Tlv × Sbuf) := do
  let (t, sb) ← sb.get16
  let (l, sb) ← sb.get16
  if l = 0 then do
    let tlv ← new t l none
    pure (tlv, sb)
  else do
    match ← sb.getraw l with
    | (none, sb) => pure (none, sb)
    | (some v, sb) => do
        let tlv ← new t l (some v)
        pure (tlv, sb)

def parseLoop : Nat → Int → Sbuf → Mem (List Tlv × Sbuf)
  | 0, _, _ => Prog.fault .diverge
  | fuel + 1, limit, sb =>
      if sb.bytesremaining > 0 then do
        match ← parseOne sb with
        | (none, sb) => pure ([], sb)
        | (some tlv, sb) =>
            if limit ≠ -1 ∧ limit - 1 ≤ 0 then pure ([tlv], sb)
            else do
              let (tlvs, sb) ← parseLoop fuel (if limit ≠ -1 then limit - 1 else limit) sb
              pure (tlv :: tlvs, sb)
      else pure ([], sb)

/-- `naf_tlv_parse_limit` with at most `fuel` rounds of its loop. -/
def parseWithin (fuel : Nat) (sb : Sbuf) (limit : Int) : Mem (List Tlv × Sbuf) :=
  if limit = 0 then pure ([], sb) else parseLoop fuel limit sb

/-- Enough rounds for every run of the loop that ends. -/
def rounds (sb : Sbuf) (limit : Int) (h : Heap) : Nat :=
  sb.bytesremaining.toNat + limit.toNat + h.refuse.length + 1

def parseLimit (sb : Sbuf) (limit : Int) : Mem (List Tlv × Sbuf) := fun h =>
  parseWithin (rounds sb limit h) sb limit h

def parse (sb : Sbuf) : Mem (List Tlv × Sbuf) := parseLimit sb (-1)

/-! ## Rendering and look-up -/

def render : List Tlv → Sbuf → Mem (Nat × Sbuf)
  | [], destsbuf => pure (0, destsbuf)
  | tlv :: tlvs, destsbuf =>
      if destsbuf.bytesremaining > 0 then do
        let (n₁, destsbuf) ← destsbuf.put16 tlv.type
        let (n₂, destsbuf) ← destsbuf.put16 tlv.length
        let (n₃, destsbuf) ← (match tlv.value with
          | some v => destsbuf.putraw v
          | none => pure (0, destsbuf))
        let (n, destsbuf) ← render tlvs destsbuf
        pure (n₁ + n₂ + n₃ + n, destsbuf)
      else pure (0, destsbuf)

def getrenderedsize (tlvs : List Tlv) : Nat := (tlvs.map fun tlv => 2 + 2 + tlv.length).sum

def gettotallength (tlvs : List Tlv) : Nat := tlvs.length

/-- The first TLV of the type, and the chain without it. -/
def remove : List Tlv → Nat → Option Tlv × List Tlv
  | [], _ => (none, [])
  | cur :: tlvs, type =>
      if cur.type = type then (some cur, tlvs)
      else ((remove tlvs type).1, cur :: (remove tlvs type).2)

def get (tlvs : List Tlv) (type : Nat) : Option Tlv := tlvs.find? fun tlv => tlv.type = type

/-- A copy with a NUL behind it. A TLV without a value has length 0. -/
def getasstring (tlvs : List Tlv) (type : Nat) : Mem (Option CStr) :=
  match get tlvs type with
  | none => pure none
  | some tlv => do
      match ← malloc (tlv.length + 1) with
      | none => pure none
      | some _ => pure (some (cstring (tlv.value.getD [])))

/-- The new TLV goes to the end; without memory the chain stays as it is. -/
def addraw (tlvs : List Tlv) (type : Nat) (value : Bytes) : Mem (Bool × List Tlv) := do
  let room ← if value.length = 0 then pure true else Option.isSome <$> malloc value.length
  if room then do
    match ← new type value.length (if value.length = 0 then none else some value) with
    | none => pure (false, tlvs)
    | some tlv => pure (true, tlvs ++ [tlv])
  else pure (false, tlvs)

/-- The end of `addraw`: what becomes of the chain with a new TLV, or without. -/
def addnew (tlvs : List Tlv) : Option Tlv → Mem (Bool × List Tlv)
  | none => pure (false, tlvs)
  | some tlv => pure (true, tlvs ++ [tlv])

/-- The length is `(naf_u16_t)(strlen(str) + 1)`: the terminator is part of the value. -/
def addstring (tlvs : List Tlv) (type : Nat) (str : CStr) : Mem (Bool × List Tlv) :=
  addraw tlvs type ((str ++ [0]).take ((str.length + 1) % 65536))

def addu16 (tlvs : List Tlv) (type value : Nat) : Mem (Bool × List Tlv) :=
  addraw tlvs type (bytePut16 value)

def addnoval (tlvs : List Tlv) (type : Nat) : Mem (Bool × List Tlv) := addraw tlvs type []

/-- The chain `tlv` as the value of a new TLV. What `naf_tlv_addraw` returns is ignored,
and a buffer of the caller's needs nothing that could be refused. -/
def addtlv (tlvs : List Tlv) (type : Nat) (tlv : List Tlv) : Mem (Bool × List Tlv) := do
  let buflen := getrenderedsize tlv
  match ← malloc buflen with
  | none => pure (false, tlvs)
  | some buf => do
      match ← Sbuf.init (some buf) (buflen % 65536) with
      | none => pure (true, tlvs)
      | some sb => do
          let (_, sb) ← render tlv sb
          let value ← sb.block.load 0 (buflen % 65536)
          let (_, tlvs) ← addraw tlvs type value
          pure (true, tlvs)

/-- What is removed is what look-up finds. -/
theorem remove_fst (tlvs : List Tlv) (type : Nat) : (remove tlvs type).1 = get tlvs type := by
  induction tlvs with
  | nil => rfl
  | cons cur tlvs ih =>
      simp only [remove, get, List.find?_cons]
      by_cases h : cur.type = type
      · simp [h]
      · simp only [h, decide_false, if_false]
        exact ih

/-- Removal of a type leaves the TLVs of the other types as they are. -/
theorem filter_remove (tlvs : List Tlv) (type : Nat) :
    (remove tlvs type).2.filter (fun tlv => tlv.type ≠ type) = tlvs.filter fun tlv => tlv.type ≠ type := by
  induction tlvs with
  | nil => rfl
  | cons cur tlvs ih =>
      simp only [remove]
      by_cases h : cur.type = type
      · simp [h]
      · rw [if_neg h, List.filter_cons_of_pos (by simpa using h), List.filter_cons_of_pos (by simpa using h), ih]

/-- Removal of a type does not matter to a look-up of another. -/
theorem get_remove {type type' : Nat} (hne : type ≠ type') (tlvs : List Tlv) :
    get (remove tlvs type).2 type' = get tlvs type' := by
  induction tlvs with
  | nil => rfl
  | cons cur tlvs ih =>
      simp only [remove]
      by_cases h : cur.type = type
      · have hother : ¬cur.type = type' := fun h' => hne (h.symm.trans h')
        rw [if_pos h]
        simp [get, hother]
      · rw [if_neg h]
        simp only [get, List.find?_cons] at ih ⊢
        rw [ih]

theorem remove_sublist (tlvs : List Tlv) (type : Nat) : (remove tlvs type).2.Sublist tlvs := by
  induction tlvs with
  | nil => exact .slnil
  | cons cur tlvs ih =>
      simp only [remove]
      split
      · exact List.sublist_cons_self _ _
      · exact ih.cons_cons _

/-! ## One round of the loop -/

/-- What `get16` reads off the unread bytes, and how far it moves. -/
def word : Bytes → Nat × Nat
  | a :: b :: _ => (byteGet16 a b, 2)
  | _ => (0, 0)

/-- What one round reads off the unread bytes, and how far it moves. -/
def next (bs : Bytes) : Option (Tlv × Nat) :=
  let (t, m) := word bs
  let (l, k) := word (bs.drop m)
  let v := bs.drop (m + k)
  if l = 0 then some (⟨t, 0, none⟩, m + k)
  else if l ≤ v.length then some (⟨t, l, some (v.take l)⟩, m + k + l)
  else none

theorem word_le (bs : Bytes) : (word bs).2 ≤ bs.length := by
  match bs with
  | [] => exact Nat.zero_le _
  | [_] => exact Nat.zero_le _
  | _ :: _ :: _ => simp [word]

theorem get16_word {sb : Sbuf} {h : Heap} (ok : sb.Readable) :
    sb.get16 h = .ok (((word sb.rest).1, sb.skip (word sb.rest).2), h) := by
  rw [Sbuf.get16, Sbuf.get_rest ok]
  match sb.rest with
  | [] => rfl
  | [_] => rfl
  | _ :: _ :: _ => rw [if_pos (by simp)]; rfl

theorem next_le {bs : Bytes} {tlv : Tlv} {n : Nat} (hn : next bs = some (tlv, n)) :
    n ≤ bs.length := by
  have hm := word_le bs
  have hk := word_le (bs.drop (word bs).2)
  rw [List.length_drop] at hk
  simp only [next] at hn
  split at hn
  · cases hn
    omega
  · split at hn
    · cases hn
      rename_i hl
      rw [List.length_drop] at hl
      omega
    · cases hn

theorem new_eq {t l : Nat} {v : Option Bytes} {h : Heap} :
    new t l v h = .ok (if h.unwilling then none else some ⟨t, l, v⟩, h.next) := by
  simp only [new]
  cases hun : h.unwilling with
  | true =>
      rw [Prog.bind_of_ok (malloc_refused hun)]
      rfl
  | false =>
      rw [Prog.bind_of_ok (malloc_granted hun)]
      rfl

/-- A round reads the two words as `next` does, and the value behind them. -/
theorem parseOne_words {sb : Sbuf} (h : Heap) (ok : sb.Readable) :
    ∃ t l m, (sb.skip m).Readable ∧ (sb.skip m).rest = sb.rest.drop m ∧
      next sb.rest = (if l = 0 then some (⟨t, 0, none⟩, m)
        else if l ≤ (sb.rest.drop m).length then
          some (⟨t, l, some ((sb.rest.drop m).take l)⟩, m + l)
        else none) ∧
      parseOne sb h = (if l = 0 then do
          let tlv ← new t l none
          pure (tlv, sb.skip m)
        else do
          match ← (sb.skip m).getraw l with
          | (none, sb) => pure (none, sb)
          | (some v, sb) => do
              let tlv ← new t l (some v)
              pure (tlv, sb) : Mem (Option Tlv × Sbuf)) h := by
  have hm := word_le sb.rest
  have okm := ok.skip hm
  have hrestm := Sbuf.rest_skip hm
  have hk := word_le (sb.rest.drop (word sb.rest).2)
  rw [← hrestm] at hk
  have hskip : (sb.skip (word sb.rest).2).skip (word (sb.skip (word sb.rest).2).rest).2 =
      sb.skip ((word sb.rest).2 + (word (sb.rest.drop (word sb.rest).2)).2) := by
    rw [hrestm]
    simp only [Sbuf.skip, Nat.add_assoc]
  refine ⟨(word sb.rest).1, (word (sb.rest.drop (word sb.rest).2)).1,
    (word sb.rest).2 + (word (sb.rest.drop (word sb.rest).2)).2, ?_, ?_, rfl, ?_⟩
  · rw [← hskip]
    exact okm.skip hk
  · rw [← hskip, Sbuf.rest_skip hk, hrestm, List.drop_drop]
  · simp only [parseOne]
    rw [Prog.bind_of_ok (get16_word ok)]
    dsimp only
    rw [Prog.bind_of_ok (get16_word okm), hskip, hrestm]

/-- A round of the loop on a well-formed buffer. It creates the TLV that `next` gives,
unless the allocator refuses, and each TLV takes one answer of the allocator at least. -/
theorem parseOne_spec {sb : Sbuf} {h : Heap} (ok : sb.Readable) :
    ∃ r sb' h', parseOne sb h = .ok ((r, sb'), h') ∧ sb'.Readable ∧
      (∀ tlv, r = some tlv → ∃ n, next sb.rest = some (tlv, n) ∧ sb' = sb.skip n ∧
        h'.refuse.length ≤ h.refuse.length - 1) ∧
      (h.refuse = [] → h' = h ∧ (r = none → next sb.rest = none)) := by
  obtain ⟨t, l, m, okm, hrest, hnext, hone⟩ := parseOne_words h ok
  rw [hone, hnext]
  by_cases hl : l = 0
  · -- no value: only the TLV itself is allocated
    rw [if_pos hl, if_pos hl, Prog.bind_of_ok new_eq]
    refine ⟨_, _, _, rfl, okm, ?_, ?_⟩
    · intro tlv hr
      split at hr
      · cases hr
      · cases hr
        exact ⟨m, by rw [hl], rfl, by simp [Heap.next]⟩
    · intro hrefuse
      simp [Heap.willing hrefuse, Heap.next_of_willing hrefuse]
  · rw [if_neg hl, if_neg hl]
    have hraw := Sbuf.getraw_rest (n := l) (h := h) okm
    rw [hrest] at hraw
    by_cases hun : h.unwilling = true
    · rw [if_pos hun] at hraw
      rw [Prog.bind_of_ok hraw]
      refine ⟨none, _, _, rfl, okm, by simp, ?_⟩
      intro hrefuse
      simp [Heap.unwilling, hrefuse] at hun
    by_cases hlen : l ≤ (sb.rest.drop m).length
    · rw [if_neg hun, if_pos hlen] at hraw
      rw [Prog.bind_of_ok hraw, if_pos hlen]
      dsimp only
      rw [Prog.bind_of_ok new_eq]
      refine ⟨_, _, _, rfl, okm.skip (by rw [hrest]; exact hlen), ?_, ?_⟩
      · intro tlv hr
        split at hr
        · cases hr
        · cases hr
          refine ⟨m + l, rfl, by simp [Sbuf.skip, Nat.add_assoc], ?_⟩
          simp only [Heap.next, List.length_tail]
          omega
      · intro hrefuse
        simp [Heap.willing hrefuse, Heap.next_of_willing hrefuse]
    · -- a value that is cut off ends the loop
      rw [if_neg hun, if_neg hlen] at hraw
      rw [Prog.bind_of_ok hraw, if_neg hlen]
      refine ⟨none, _, _, rfl, okm, by simp, ?_⟩
      intro hrefuse
      exact ⟨Heap.next_of_willing hrefuse, fun _ => rfl⟩

/-! ## Rounds in sequence -/

/-- The loop goes on with this limit; `none` is the `break` behind `limit--`. -/
def limitAfter (limit : Int) : Option Int :=
  if limit ≠ -1 ∧ limit - 1 ≤ 0 then none else some (if limit ≠ -1 then limit - 1 else limit)

theorem parseLoop_of_end {fuel : Nat} {limit : Int} {sb : Sbuf} {h : Heap} (ok : sb.Readable)
    (hend : sb.rest = []) : parseLoop (fuel + 1) limit sb h = .ok (([], sb), h) := by
  have hrem : ¬sb.bytesremaining > 0 := by
    rw [ok.bytesremaining, ← Sbuf.length_rest, hend]
    simp
  simp only [parseLoop, if_neg hrem]
  rfl

/-- The loop with bytes left: it ends here, or this round's TLV is followed by those of
the rounds to come. -/
theorem parseLoop_round (limit : Int) {sb : Sbuf} (h : Heap) (ok : sb.Readable)
    (hne : sb.rest ≠ []) :
    (∃ sb' h', (∀ fuel, parseLoop (fuel + 1) limit sb h = .ok (([], sb'), h')) ∧ sb'.Readable ∧
        (h.refuse = [] → h' = h ∧ next sb.rest = none)) ∨
      ∃ tlv n h', next sb.rest = some (tlv, n) ∧ (sb.skip n).Readable ∧
        h'.refuse.length ≤ h.refuse.length - 1 ∧ (h.refuse = [] → h' = h) ∧
        ∀ fuel, parseLoop (fuel + 1) limit sb h =
          match limitAfter limit with
          | none => .ok (([tlv], sb.skip n), h')
          | some limit => match parseLoop fuel limit (sb.skip n) h' with
              | .ok ((tlvs, sb), h) => .ok ((tlv :: tlvs, sb), h)
              | .error e => .error e := by
  have hrem : sb.bytesremaining > 0 := by
    have := List.length_pos_iff.2 hne
    rw [ok.bytesremaining, ← Sbuf.length_rest]
    omega
  obtain ⟨r, sb', h', hone, ok', hsome, hwilling⟩ := parseOne_spec (h := h) ok
  cases r with
  | none =>
      refine .inl ⟨sb', h', fun fuel => ?_, ok', fun hrefuse => ?_⟩
      · simp only [parseLoop, if_pos hrem]
        rw [Prog.bind_of_ok hone]
        rfl
      · exact ⟨(hwilling hrefuse).1, (hwilling hrefuse).2 rfl⟩
  | some tlv =>
      obtain ⟨n, hnext, rfl, hlen⟩ := hsome tlv rfl
      refine .inr ⟨tlv, n, h', hnext, ok', hlen, fun hrefuse => (hwilling hrefuse).1,
        fun fuel => ?_⟩
      simp only [parseLoop, if_pos hrem]
      rw [Prog.bind_of_ok hone]
      simp only [limitAfter]
      split
      · rfl
      · simp only [bind, StateT.bind, Except.bind]
        generalize parseLoop fuel _ (sb.skip n) h' = x
        cases x <;> rfl

end Tlv
end Timps.Naf
