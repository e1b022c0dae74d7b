-- SUMMARY: The cursor contract of the serialising buffer, and the runs of calls that keep it.
import Timps.Base.Run
import Timps.Naf.Sbuf

/-!
# The buffer contract

Any sequence of calls on a buffer that `init` set up. A call keeps the contract when
it stays inside the block, leaves the buffer well formed, changes nothing when it
reports failure, and appends exactly its bytes when a put reports success. The word
getters have no failure to report: where bytes are missing they answer 0 and move nothing.

Growth is the only weak spot: the 16-bit length may wrap, and `putraw` passes only
the low 16 bits of its length to it. `Safe` says that a call does neither.

`naf_sbuf_prepend` is not one of these calls, and no code calls it. It moves the contents
after the length was changed.
-/

namespace Timps.Naf.Sbuf

/-- The data of `naf_sbuf_putraw`, whose length is an `int`. -/
structure Raw where
  bytes : Bytes
  lt : bytes.length < 2 ^ 31

inductive Call where
  | setpos (npos : UInt16)
  | advance (n : UInt16)
  | get8
  | get16
  | get32
  | getrawbuf (len : UInt16)
  | put8 (v : UInt8)
  | put16 (v : UInt16)
  | put32 (v : UInt64)
  | putraw (v : Raw)
  | putstr (v : Raw)

/-- What a call answers: 0 or -1, a word, the bytes of `getrawbuf`, the count of a put. -/
inductive Reply where
  | status (success : Bool)
  | word (v : Nat)
  | raw (v : Option Bytes)
  | count (n : Nat)

namespace Call

/-- The bytes a putter appends. -/
def puts : Call → Option Bytes
  | put8 v => some (bytePut8 v.toNat)
  | put16 v => some (bytePut16 v.toNat)
  | put32 v => some (bytePut32 v.toNat)
  | putraw v => some v.bytes
  | putstr v => some v.bytes
  | _ => none

/-- The bytes that a word getter takes. -/
def gets : Call → Option Nat
  | get8 => some 1
  | get16 => some 2
  | get32 => some 4
  | _ => none

def perform : Call → Sbuf → Mem (Reply × Sbuf)
  | setpos npos, sb => do let (r, sb) ← sb.setpos npos.toNat; pure (.status r, sb)
  | advance n, sb => do let (r, sb) ← sb.advance n.toNat; pure (.status r, sb)
  | get8, sb => do let (v, sb) ← sb.get8; pure (.word v, sb)
  | get16, sb => do let (v, sb) ← sb.get16; pure (.word v, sb)
  | get32, sb => do let (v, sb) ← sb.get32; pure (.word v, sb)
  | getrawbuf len, sb => do let (v, sb) ← sb.getrawbuf len.toNat; pure (.raw v, sb)
  | put8 v, sb => do let (n, sb) ← sb.put8 v.toNat; pure (.count n, sb)
  | put16 v, sb => do let (n, sb) ← sb.put16 v.toNat; pure (.count n, sb)
  | put32 v, sb => do let (n, sb) ← sb.put32 v.toNat; pure (.count n, sb)
  | putraw v, sb => do let (n, sb) ← sb.putraw v.bytes; pure (.count n, sb)
  | putstr v, sb => do let (n, sb) ← sb.putstr v.bytes; pure (.count n, sb)

/-- The number of bytes by which a call asks the buffer to grow. -/
def wants : Call → Sbuf → Option Nat
  | setpos npos, sb => if npos.toNat > sb.buflen then some (npos.toNat - sb.buflen) else none
  | advance n, sb => if sb.bytesremaining < n.toNat then some n.toNat else none
  | c, sb => c.puts.bind fun v => if sb.bytesremaining < v.length then some v.length else none

end Call

/-- The answers that report a failure. -/
def Reply.failed : Reply → Bool
  | status success => !success
  | word _ => false
  | raw v => v.isNone
  | count n => n == 0

/-- `v` was appended at the cursor and everything before the cursor was kept. -/
structure Appended (sb : Sbuf) (v : Bytes) (sb' : Sbuf) : Prop where
  pos : sb'.pos = sb.pos + v.length
  written : sb'.block.bytes sb.pos v.length = v
  kept : sb'.block.bytes 0 sb.pos = sb.block.bytes 0 sb.pos

/-- One call kept the contract. -/
structure Kept (c : Call) (sb : Sbuf) (r : Reply) (sb' : Sbuf) : Prop where
  ok : sb'.Ok
  failure : r.failed = true → sb' = sb
  success : ∀ v, c.puts = some v → r = .count v.length → Appended sb v sb'
  short : ∀ n, c.gets = some n → sb.bytesremaining < n → r = .word 0 ∧ sb' = sb

/-- The call touches no byte outside the block and keeps the contract. -/
def Contract (c : Call) (sb : Sbuf) (h : Heap) : Prop :=
  ∃ r sb' h', c.perform sb h = .ok ((r, sb'), h') ∧ Kept c sb r sb'

/-- Growing by `n` bytes is computed without a wrap. -/
def Fits (sb : Sbuf) (n : Nat) : Prop := n < 65536 ∧ sb.buflen + 256 * steps n < 65536

/-- When the call makes the buffer grow, the request is refused or computed without a wrap. -/
def Safe (c : Call) (sb : Sbuf) (h : Heap) : Prop :=
  ∀ n, c.wants sb = some n → Refused sb (n % 65536) h ∨ Fits sb n

/-! ## One call -/

section

variable {sb : Sbuf} {h : Heap}

/-- A safe request is refused, or leaves a well-formed buffer with the room asked for. -/
theorem extendbuf_safe {n : Nat} (ok : sb.Ok) (hs : Refused sb (n % 65536) h ∨ Fits sb n) :
    (∃ h', sb.extendbuf (n % 65536) h = .ok (none, h')) ∨
      ∃ sb' h', sb.extendbuf (n % 65536) h = .ok (some sb', h') ∧ sb'.Ok ∧ sb'.pos = sb.pos ∧
        sb.buflen + n ≤ sb'.buflen ∧ sb'.block.bytes 0 sb.pos = sb.block.bytes 0 sb.pos := by
  by_cases href : Refused sb (n % 65536) h
  · exact .inl (extendbuf_refused ok.lt (Nat.mod_lt _ (by decide)) href)
  obtain ⟨hn, hfit⟩ := hs.resolve_left href
  rw [Nat.mod_eq_of_lt hn] at href ⊢
  have hgrown : grown sb.buflen n = sb.buflen + 256 * steps n := by
    rw [grown_eq ok.lt hn, Nat.mod_eq_of_lt hfit]
  refine .inr ⟨sb.extended n h, h.next, ?_, extended_ok ok hfit hn, rfl, ?_, ?_⟩
  · rw [extendbuf_granted ok.lt hn href ok.size, if_pos (by omega)]
  · have hlen := extended_buflen (h := h) ok hfit hn
    have := le_steps (n := n)
    omega
  · exact extended_bytes (by have := ok.pos_le; omega)

/-- The same for the test in front of `advance` and of the putters. -/
theorem reserve_safe {n : Nat} (ok : sb.Ok)
    (hs : sb.bytesremaining < n → Refused sb (n % 65536) h ∨ Fits sb n) :
    (∃ h', sb.reserve n h = .ok (none, h')) ∨
      ∃ sb' h', sb.reserve n h = .ok (some sb', h') ∧ sb'.Ok ∧ sb'.pos = sb.pos ∧
        sb.pos + n ≤ sb'.buflen ∧ sb'.block.bytes 0 sb.pos = sb.block.bytes 0 sb.pos := by
  have hrem := ok.bytesremaining
  have hpos := ok.pos_le
  by_cases hshort : sb.bytesremaining < n
  · rw [reserve_of_short hshort]
    rcases extendbuf_safe ok (hs hshort) with hnone | ⟨sb', h', heq, hok, hp, hlen, hkept⟩
    · exact .inl hnone
    · exact .inr ⟨sb', h', heq, hok, hp, by omega, hkept⟩
  · exact .inr ⟨sb, h, reserve_of_room hshort, ok, rfl, by omega, rfl⟩

/-- Every putter that keeps to safe requests keeps the contract. -/
theorem put_contract {v : Bytes} (ok : sb.Ok)
    (hs : sb.bytesremaining < v.length → Refused sb (v.length % 65536) h ∨ Fits sb v.length) :
    ∃ n sb' h', sb.put v h = .ok ((n, sb'), h') ∧ sb'.Ok ∧ (n = 0 → sb' = sb) ∧
      (n = v.length → Appended sb v sb') := by
  rcases reserve_safe ok hs with ⟨h', hnone⟩ | ⟨sb', h', hsome, hok, hpos, hroom, hkept⟩
  · refine ⟨0, sb, h', put_of_refused hnone, ok, fun _ => rfl, ?_⟩
    intro hlen
    obtain rfl : v = [] := List.length_eq_zero_iff.1 hlen.symm
    exact ⟨by simp, rfl, rfl⟩
  · have hsize : sb'.pos + v.length ≤ sb'.block.size := by rw [hok.size, hpos]; exact hroom
    have hlt : sb'.pos + v.length < 65536 := by have := hok.lt; omega
    refine ⟨_, _, h', put_of_reserved hsome hsize hlt, ⟨hok.size, hok.lt, by simpa [hpos]⟩, ?_, ?_⟩
    · -- only an empty put answers 0 after it was granted, and it has room in the old buffer
      intro hzero
      have hv : v = [] := List.length_eq_zero_iff.1 hzero
      subst hv
      have hroom : ¬sb.bytesremaining < (([] : Bytes).length : Int) := by
        rw [ok.bytesremaining]
        simp
      rw [reserve_of_room hroom] at hsome
      cases hsome
      simp
    · intro _
      refine ⟨by simp [hpos], ?_, ?_⟩
      · rw [← hpos]
        exact Block.bytes_fill_same _ _ _
      · rw [← hkept]
        exact Block.bytes_fill_before (b := sb'.block) v (by omega)

/-- The word getters change nothing but the cursor, and keep it inside the buffer. -/
theorem get_contract (n : Nat) (dec : Bytes → Nat) (ok : sb.Ok) :
    ∃ v sb', sb.get n dec h = .ok ((v, sb'), h) ∧ sb'.Ok ∧ (sb.bytesremaining < n → v = 0 ∧ sb' = sb) := by
  by_cases hshort : sb.bytesremaining < n
  · exact ⟨0, sb, get_of_short hshort, ok, fun _ => ⟨rfl, rfl⟩⟩
  · have hrem := ok.bytesremaining
    have hpos := ok.pos_le
    have hlt := ok.lt
    have hsize := ok.size
    exact ⟨_, _, get_of_room hshort (by omega) (by omega),
      ⟨hsize, hlt, show sb.pos + n ≤ sb.buflen by omega⟩, fun h => absurd h hshort⟩

theorem getrawbuf_contract {n : Nat} (ok : sb.Ok) :
    ∃ v sb', sb.getrawbuf n h = .ok ((v, sb'), h) ∧ sb'.Ok ∧ (v = none → sb' = sb) := by
  by_cases hshort : sb.bytesremaining < n
  · exact ⟨none, sb, getrawbuf_of_short hshort, ok, fun _ => rfl⟩
  · have hrem := ok.bytesremaining
    have hpos := ok.pos_le
    have hlt := ok.lt
    have hsize := ok.size
    exact ⟨_, _, getrawbuf_of_room hshort (by omega) (by omega),
      ⟨hsize, hlt, show sb.pos + n ≤ sb.buflen by omega⟩, by simp⟩

theorem advance_contract {n : Nat} (ok : sb.Ok)
    (hs : sb.bytesremaining < n → Refused sb (n % 65536) h ∨ Fits sb n) :
    ∃ r sb' h', sb.advance n h = .ok ((r, sb'), h') ∧ sb'.Ok ∧ (r = false → sb' = sb) := by
  rcases reserve_safe ok hs with ⟨h', hnone⟩ | ⟨sb', h', hsome, hok, hpos, hroom, -⟩
  · exact ⟨false, sb, h', by simp only [advance]; rw [Prog.bind_of_ok hnone]; rfl, ok, fun _ => rfl⟩
  · have hlt : sb'.pos + n < 65536 := by have := hok.lt; omega
    refine ⟨true, { sb' with pos := sb'.pos + n }, h', ?_, ⟨hok.size, hok.lt, by simpa [hpos]⟩,
      by simp⟩
    simp only [advance]
    rw [Prog.bind_of_ok hsome]
    simp only [Nat.mod_eq_of_lt hlt]
    rfl

theorem setpos_contract (npos : Nat) (ok : sb.Ok)
    (hs : npos > sb.buflen →
      Refused sb ((npos - sb.buflen) % 65536) h ∨ Fits sb (npos - sb.buflen)) :
    ∃ r sb' h', sb.setpos npos h = .ok ((r, sb'), h') ∧ sb'.Ok ∧ (r = false → sb' = sb) := by
  simp only [setpos]
  by_cases hgt : npos > sb.buflen
  · rw [if_pos hgt]
    rcases extendbuf_safe ok (hs hgt) with ⟨h', hnone⟩ | ⟨sb', h', hsome, hok, -, hroom, -⟩
    · exact ⟨false, sb, h', by rw [Prog.bind_of_ok hnone]; rfl, ok, fun _ => rfl⟩
    · exact ⟨true, { sb' with pos := npos }, h', by rw [Prog.bind_of_ok hsome]; rfl,
        ⟨hok.size, hok.lt, show npos ≤ sb'.buflen by omega⟩, by simp⟩
  · rw [if_neg hgt]
    exact ⟨true, { sb with pos := npos }, h, rfl, ⟨ok.size, ok.lt, Nat.le_of_not_lt hgt⟩, by simp⟩

end

namespace Contract

variable {sb : Sbuf} {h : Heap} {c : Call}

private theorem of_put {v : Bytes} (ok : sb.Ok) (hs : Safe c sb h)
    (hperform : c.perform sb = do let (n, sb) ← sb.put v; pure (.count n, sb))
    (hputs : c.puts = some v) (hgets : c.gets = none)
    (hwants : c.wants sb = if sb.bytesremaining < v.length then some v.length else none) :
    Contract c sb h := by
  have hsafe : sb.bytesremaining < v.length →
      Refused sb (v.length % 65536) h ∨ Fits sb v.length :=
    fun hshort => hs v.length (by rw [hwants, if_pos hshort])
  obtain ⟨n, sb', h', hput, hok, hzero, happ⟩ := put_contract ok hsafe
  refine ⟨.count n, sb', h', ?_, hok, fun hf => hzero (by simpa [Reply.failed] using hf), ?_, ?_⟩
  · rw [hperform, Prog.bind_of_ok hput]
    rfl
  · intro w hw hn
    rw [hputs] at hw
    cases hw
    cases hn
    exact happ rfl
  · intro m hm
    rw [hgets] at hm
    cases hm

private theorem of_get {n : Nat} {dec : Bytes → Nat} (ok : sb.Ok)
    (hperform : c.perform sb = do let (v, sb) ← sb.get n dec; pure (.word v, sb)) (hgets : c.gets = some n) :
    Contract c sb h := by
  obtain ⟨v, sb', hget, hok, hshort⟩ := get_contract (h := h) n dec ok
  refine ⟨.word v, sb', h, ?_, hok, fun hf => (by cases hf), fun _ _ hn => (by cases hn), fun m hm hless => ?_⟩
  · rw [hperform, Prog.bind_of_ok hget]
    rfl
  · rw [hgets] at hm
    cases hm
    obtain ⟨rfl, rfl⟩ := hshort hless
    exact ⟨rfl, rfl⟩

/-- A safe call on a well-formed buffer keeps the contract. -/
theorem of_safe (ok : sb.Ok) (hs : Safe c sb h) : Contract c sb h := by
  cases c with
  | setpos npos =>
      obtain ⟨r, sb', h', heq, hok, hfail⟩ := setpos_contract (h := h) npos.toNat ok
        fun hgt => hs _ (if_pos hgt)
      refine ⟨.status r, sb', h', ?_, hok, fun hf => hfail (by simpa [Reply.failed] using hf),
        fun _ _ hn => (by cases hn), fun _ hm => (by cases hm)⟩
      simp only [Call.perform]
      rw [Prog.bind_of_ok heq]
      rfl
  | advance n =>
      obtain ⟨r, sb', h', heq, hok, hfail⟩ := advance_contract (n := n.toNat) (h := h) ok
        fun hshort => hs _ (if_pos hshort)
      refine ⟨.status r, sb', h', ?_, hok, fun hf => hfail (by simpa [Reply.failed] using hf),
        fun _ _ hn => (by cases hn), fun _ hm => (by cases hm)⟩
      simp only [Call.perform]
      rw [Prog.bind_of_ok heq]
      rfl
  | get8 => exact of_get ok rfl rfl
  | get16 => exact of_get ok rfl rfl
  | get32 => exact of_get ok rfl rfl
  | getrawbuf len =>
      obtain ⟨v, sb', heq, hok, hfail⟩ := getrawbuf_contract (n := len.toNat) (h := h) ok
      refine ⟨.raw v, sb', h, ?_, hok, fun hf => hfail (by simpa [Reply.failed] using hf),
        fun _ _ hn => (by cases hn), fun _ hm => (by cases hm)⟩
      simp only [Call.perform]
      rw [Prog.bind_of_ok heq]
      rfl
  | put8 v => exact of_put ok hs rfl rfl rfl rfl
  | put16 v => exact of_put ok hs rfl rfl rfl rfl
  | put32 v => exact of_put ok hs rfl rfl rfl rfl
  | putraw v => exact of_put ok hs rfl rfl rfl rfl
  | putstr v => exact of_put ok hs rfl rfl rfl rfl

end Contract

/-! ## Runs of calls -/

/-- A buffer that `naf_sbuf_init` set up, with the heap it left. -/
def Fresh (s : Sbuf × Heap) : Prop :=
  ∃ buf buflen h, buflen < 65536 ∧ (∀ b, buf = some b → b.size = buflen) ∧
    init buf buflen h = .ok (some s.1, s.2)

def next (c : Call) (s : Sbuf × Heap) : Except Fault (Sbuf × Heap) :=
  match c.perform s.1 s.2 with
  | .ok ((_, sb), h) => .ok (sb, h)
  | .error e => .error e

variable {calls : List ((Sbuf × Heap) × Call)} {s : Sbuf × Heap}

/-- Along safe calls the buffer stays well formed. -/
theorem run_ok (hrun : Run next Fresh calls s)
    (hsafe : ∀ p ∈ calls, Safe p.2 p.1.1 p.1.2) : s.1.Ok := by
  apply Run.invariant_history (I := fun _ s => s.1.Ok) (G := fun s c => Safe c s.1 s.2) hrun hsafe
  · rintro s ⟨buf, buflen, h, hlt, hbuf, hinit⟩
    exact (init_ok hlt hbuf hinit).1
  · intro _ c s s' _ hok hs hnext
    obtain ⟨r, sb', h', hperform, hkept⟩ := Contract.of_safe hok hs
    simp only [next, hperform, Except.ok.injEq] at hnext
    subst hnext
    exact hkept.ok

/-- In every run of safe calls, each call made and each safe call that may follow keeps
the contract. -/
theorem run_contract (hrun : Run next Fresh calls s)
    (hsafe : ∀ p ∈ calls, Safe p.2 p.1.1 p.1.2) :
    (∀ p ∈ calls, Contract p.2 p.1.1 p.1.2) ∧ ∀ c, Safe c s.1 s.2 → Contract c s.1 s.2 := by
  constructor
  · intro p hp
    obtain ⟨before, after, _, rfl, hbefore, -⟩ := hrun.of_mem hp
    exact .of_safe (run_ok hbefore fun q hq => hsafe q (by simp [hq])) (hsafe p hp)
  · intro c hs
    exact .of_safe (run_ok hrun hsafe) hs

/-- A zeroed buffer of `n` bytes that resizes itself, with the cursor at `pos`. -/
def zeroed (n pos : Nat) : Sbuf :=
  { autoresize := true, freebuf := true, block := ⟨n, fun _ => 0⟩, buflen := n, pos }

private theorem zeroed_fresh {n : Nat} (hpos : n ≠ 0) (hn : n < 65536) :
    Fresh (zeroed n 0, Heap.zeroed) := by
  refine ⟨none, n, Heap.zeroed, hn, by simp, ?_⟩
  simp only [init, if_neg hpos]
  rfl

theorem run_contract_zeroed :
    Contract .get8 (zeroed 1 0) Heap.zeroed ∧
      Contract (.putraw ⟨[7, 8], by decide⟩) (zeroed 1 1) Heap.zeroed := by
  have hrun : Run next Fresh [((zeroed 1 0, Heap.zeroed), .get8)] (zeroed 1 1, Heap.zeroed) :=
    .step (.start (zeroed_fresh (by decide) (by decide))) rfl
  have hget : ∀ p ∈ [((zeroed 1 0, Heap.zeroed), Call.get8)], Safe p.2 p.1.1 p.1.2 := by
    simp [Safe, Call.wants, Call.puts]
  have hput : Safe (.putraw ⟨[7, 8], by decide⟩) (zeroed 1 1) Heap.zeroed := by
    intro n hn
    cases hn
    exact .inr ⟨by decide, by decide⟩
  have hall := run_contract hrun hget
  exact ⟨hall.1 _ (List.mem_singleton.2 rfl), hall.2 _ hput⟩

/-- One byte more in a full buffer of 65535 bytes: the new length wraps to 255, and the
65535 old bytes are copied into a block of that size. -/
theorem put8_wraps :
    Run next Fresh [((zeroed 65535 0, Heap.zeroed), .advance 65535)]
        (zeroed 65535 65535, Heap.zeroed) ∧
      ¬Contract (.put8 7) (zeroed 65535 65535) Heap.zeroed := by
  refine ⟨.step (.start (zeroed_fresh (by decide) (by decide))) rfl, ?_⟩
  rintro ⟨r, sb', h', hperform, -⟩
  have hextend : (zeroed 65535 65535).reserve 1 Heap.zeroed = .error .outOfBounds := by
    rw [reserve_of_short (by decide), extendbuf_granted (by decide) (by decide) (by decide) rfl]
    rfl
  have hput : (Call.put8 7).perform (zeroed 65535 65535) Heap.zeroed = .error .outOfBounds := by
    simp only [Call.perform, put8, put, length_bytePut8]
    rw [Prog.bind_of_error]
    exact Prog.bind_of_error hextend
  rw [hput] at hperform
  cases hperform

/-! ## Prepending -/

/-- A prepend moves the old contents up by `n` bytes inside the new buffer, or reports a failure and
leaves the buffer as it was. -/
def MakesRoom (sb : Sbuf) (n : Nat) (h : Heap) : Prop :=
  ∃ r sb' h', sb.prepend n h = .ok ((r, sb'), h') ∧
    (r = true → n + sb.buflen ≤ sb'.block.size ∧ sb'.block.size = sb'.buflen ∧
      sb'.block.bytes n sb.buflen = sb.block.bytes 0 sb.buflen) ∧
    (r = false → sb' = sb)

section

variable {sb : Sbuf} {n : Nat} {h : Heap}

theorem prepend_refused (hlt : sb.buflen < 65536) (hn : n < 65536) (href : Refused sb n h) :
    ∃ h', sb.prepend n h = .ok ((false, sb), h') := by
  obtain ⟨h', hnone⟩ := extendbuf_refused hlt hn href
  exact ⟨h', Prog.bind_of_ok hnone⟩

/-- Without a byte to make room for, the contents are moved to where they are. -/
theorem prepend_zero (hlt : sb.buflen < 65536) (hsize : sb.block.size = sb.buflen) (hgrant : ¬Refused sb 0 h) :
    ∃ sb', sb.prepend 0 h = .ok ((true, sb'), h.next) ∧ sb'.block.size = sb.buflen ∧ sb'.buflen = sb.buflen ∧
      sb'.block.bytes 0 sb.buflen = sb.block.bytes 0 sb.buflen := by
  have hgrown : grown sb.buflen 0 = sb.buflen := by
    rw [grown_eq hlt (by decide)]
    exact Nat.mod_eq_of_lt hlt
  have hlen : (sb.extended 0 h).buflen = sb.buflen := hgrown
  have hblock : (sb.extended 0 h).block.size = sb.buflen := hgrown
  have hextend : sb.extendbuf 0 h = .ok (some (sb.extended 0 h), h.next) := by
    rw [extendbuf_granted hlt (by decide) hgrant hsize, if_pos (Nat.le_of_eq hgrown.symm)]
  have hkept : (sb.extended 0 h).block.bytes 0 sb.buflen = sb.block.bytes 0 sb.buflen :=
    extended_bytes (Nat.le_of_eq (Nat.zero_add _))
  refine ⟨{ sb.extended 0 h with block := (sb.extended 0 h).block.fill 0 (sb.block.bytes 0 sb.buflen) }, ?_,
    hblock, hlen, ?_⟩
  · have hload : (sb.extended 0 h).block.load 0 (sb.extended 0 h).buflen h.next =
        .ok (sb.block.bytes 0 sb.buflen, h.next) := by
      rw [Block.load_of_le (by omega), hlen, hkept]
    have hstore : (sb.extended 0 h).block.store 0 (sb.block.bytes 0 sb.buflen) h.next =
        .ok ((sb.extended 0 h).block.fill 0 (sb.block.bytes 0 sb.buflen), h.next) :=
      Block.store_of_le (by rw [Block.length_bytes]; omega)
    rw [prepend, Prog.bind_of_ok hextend]
    dsimp only
    rw [Prog.bind_of_ok hload, Prog.bind_of_ok hstore]
    rfl
  · have hsame := Block.bytes_fill_same (sb.extended 0 h).block 0 (sb.block.bytes 0 sb.buflen)
    rw [Block.length_bytes] at hsame
    exact hsame

/-- As many bytes are moved as the new buffer is long, and so they end behind it. -/
theorem prepend_overrun (hlt : sb.buflen < 65536) (hn : n < 65536) (hsize : sb.block.size = sb.buflen)
    (hpos : n ≠ 0) (hgrant : ¬Refused sb n h) : sb.prepend n h = .error .outOfBounds := by
  rw [prepend]
  have hextend := extendbuf_granted hlt hn hgrant hsize
  by_cases hfits : sb.buflen ≤ grown sb.buflen n
  · rw [if_pos hfits] at hextend
    have hload : (sb.extended n h).block.load 0 (sb.extended n h).buflen h.next =
        .ok ((sb.extended n h).block.bytes 0 (grown sb.buflen n), h.next) :=
      Block.load_of_le (Nat.le_of_eq (Nat.zero_add _))
    have hstore : (sb.extended n h).block.store n ((sb.extended n h).block.bytes 0 (grown sb.buflen n)) h.next =
        .error .outOfBounds := by
      refine if_neg ?_
      rw [Block.length_bytes, show (sb.extended n h).block.size = grown sb.buflen n from rfl]
      omega
    rw [Prog.bind_of_ok hextend]
    dsimp only
    rw [Prog.bind_of_ok hload]
    exact Prog.bind_of_error hstore
  · rw [if_neg hfits] at hextend
    exact Prog.bind_of_error hextend

end

/-- A prepend does what it is for only when it has nothing to do, or is refused. -/
theorem prepend_makes_room {sb : Sbuf} (n : UInt16) (h : Heap) (hlt : sb.buflen < 65536)
    (hsize : sb.block.size = sb.buflen) : MakesRoom sb n.toNat h ↔ n = 0 ∨ Refused sb n.toNat h := by
  have hn : n.toNat < 65536 := n.toNat_lt
  constructor
  · rintro ⟨r, sb', h', hrun, -⟩
    by_cases hzero : n = 0
    · exact .inl hzero
    · refine .inr (Classical.byContradiction fun hgrant => ?_)
      have hpos : n.toNat ≠ 0 := fun heq => hzero (UInt16.toNat_inj.1 heq)
      rw [prepend_overrun hlt hn hsize hpos hgrant] at hrun
      cases hrun
  · intro hcond
    by_cases href : Refused sb n.toNat h
    · obtain ⟨h', hrun⟩ := prepend_refused hlt hn href
      exact ⟨false, sb, h', hrun, fun hr => (by cases hr), fun _ => rfl⟩
    · obtain rfl := hcond.resolve_right href
      obtain ⟨sb', hrun, hblock, hlen, hkept⟩ := prepend_zero hlt hsize href
      have hin : 0 + sb.buflen ≤ sb'.block.size := by omega
      exact ⟨true, sb', h.next, hrun, fun _ => ⟨hin, hblock.trans hlen.symm, hkept⟩, fun hr => (by cases hr)⟩

theorem prepend_makes_room_nothing : MakesRoom (zeroed 512 0) (0 : UInt16).toNat Heap.zeroed :=
  (prepend_makes_room 0 Heap.zeroed (by decide) rfl).2 (.inl rfl)

/-- One byte in front of a new buffer of 512 bytes: 768 bytes are moved to offset 1 of 768. -/
theorem prepend_leaves_block : ¬MakesRoom (zeroed 512 0) 1 Heap.zeroed := by
  rintro ⟨r, sb', h', hrun, -⟩
  rw [prepend_overrun (by decide) (by decide) rfl (by decide) (by decide)] at hrun
  cases hrun

end Timps.Naf.Sbuf
