-- SUMMARY: The serialising buffer of naf: growth, cursor, getters and putters, and what each of them does.
import Timps.Naf.Memory

/-!
# Buffers with a cursor

`naf_sbuf_t` is a block, the length the buffer believes to have and a cursor. Both
numbers are 16-bit. A buffer that was set up without a block resizes itself: the
new length is computed in 16-bit arithmetic, in steps of 256, and compared with the
maximum afterwards.
-/

namespace Timps.Naf

structure Sbuf where
  autoresize : Bool
  freebuf : Bool
  block : Block
  buflen : Nat
  pos : Nat

namespace Sbuf

/-! ## Setting up and growing -/

def init (buf : Option Block) (buflen : Nat) : Mem (Option Sbuf) :=
  match buf with
  | some b => pure (some { autoresize := false, freebuf := false, block := b, buflen, pos := 0 })
  | none => do
      -- NAF_SBUF_DEFAULT_BUFLEN
      let buflen := if buflen = 0 then 512 else buflen
      let b ← malloc buflen
      pure (b.map fun block => { autoresize := true, freebuf := true, block, buflen, pos := 0 })

/-- The loop of `naf_sbuf__extendbuf`. A 16-bit `bytesneeded` allows at most 255 rounds. -/
def growLoop : Nat → Nat → Nat → Nat × Nat
  | 0, nbuflen, bytesneeded => (nbuflen, bytesneeded)
  | fuel + 1, nbuflen, bytesneeded =>
      if bytesneeded > 256 then growLoop fuel ((nbuflen + 256) % 65536) (bytesneeded - 256)
      else (nbuflen, bytesneeded)

/-- The length a buffer grows to, in 16 bits. -/
def grown (buflen bytesneeded : Nat) : Nat :=
  let (nbuflen, bytesneeded) := growLoop 256 buflen bytesneeded
  if bytesneeded > 0 then (nbuflen + 256) % 65536 else nbuflen

def extendbuf (sb : Sbuf) (bytesneeded : Nat) : Mem (Option Sbuf) :=
  if sb.autoresize = false then pure none
  else
    let nbuflen := grown sb.buflen bytesneeded
    -- NAF_SBUF_DEFAULT_MAXBUFLEN
    if nbuflen > 32768 then pure none
    else do
      match ← malloc nbuflen with
      | none => pure none
      | some nbuf => do
          let old ← sb.block.load 0 sb.buflen
          let nbuf ← nbuf.store 0 old
          pure (some { sb with block := nbuf, buflen := nbuflen })

/-- The number of bytes that are moved is read off the buffer after it has grown. -/
def prepend (sb : Sbuf) (bytesneeded : Nat) : Mem (Bool × Sbuf) := do
  match ← sb.extendbuf bytesneeded with
  | none => pure (false, sb)
  | some sb => do
      let moved ← sb.block.load 0 sb.buflen
      let block ← sb.block.store bytesneeded moved
      pure (true, { sb with block })

/-! ## The cursor -/

def bytesremaining (sb : Sbuf) : Int := (sb.buflen : Int) - sb.pos

def setpos (sb : Sbuf) (npos : Nat) : Mem (Bool × Sbuf) := do
  match ← (if npos > sb.buflen then sb.extendbuf ((npos - sb.buflen) % 65536) else pure (some sb)) with
  | none => pure (false, sb)
  | some sb => pure (true, { sb with pos := npos })

/-- The test in front of `advance` and of every putter: room for `n` bytes, or more of it. -/
def reserve (sb : Sbuf) (n : Nat) : Mem (Option Sbuf) :=
  if sb.bytesremaining < n then sb.extendbuf (n % 65536) else pure (some sb)

def advance (sb : Sbuf) (n : Nat) : Mem (Bool × Sbuf) := do
  match ← sb.reserve n with
  | none => pure (false, sb)
  | some sb => pure (true, { sb with pos := (sb.pos + n) % 65536 })

/-! ## Getters

With too few bytes left a getter answers 0 and does not move. -/

/-- The shape of the word getters: `n` bytes, decoded by `dec`. -/
def get (sb : Sbuf) (n : Nat) (dec : Bytes → Nat) : Mem (Nat × Sbuf) :=
  if sb.bytesremaining < n then pure (0, sb)
  else do
    let v ← sb.block.load sb.pos n
    pure (dec v, { sb with pos := (sb.pos + n) % 65536 })

def get8 (sb : Sbuf) : Mem (Nat × Sbuf) := sb.get 1 fun v => (v.getD 0 0).toNat

def get16 (sb : Sbuf) : Mem (Nat × Sbuf) := sb.get 2 fun v => byteGet16 (v.getD 0 0) (v.getD 1 0)

def get32 (sb : Sbuf) : Mem (Nat × Sbuf) :=
  sb.get 4 fun v => byteGet32 (v.getD 0 0) (v.getD 1 0) (v.getD 2 0) (v.getD 3 0)

/-- Copies `len` bytes out, or answers 0 (`none` here) and copies nothing. -/
def getrawbuf (sb : Sbuf) (len : Nat) : Mem (Option Bytes × Sbuf) :=
  if sb.bytesremaining < len then pure (none, sb)
  else do
    let v ← sb.block.load sb.pos len
    pure (some v, { sb with pos := (sb.pos + len) % 65536 })

def getraw (sb : Sbuf) (len : Nat) : Mem (Option Bytes × Sbuf) := do
  match ← malloc len with
  | none => pure (none, sb)
  | some _ => sb.getrawbuf len

/-- The string handed out ends at the first NUL of the bytes copied. -/
def getstr (sb : Sbuf) (len : Nat) : Mem (Option CStr × Sbuf) := do
  match ← malloc (len + 1) with
  | none => pure (none, sb)
  | some _ => do
      let (v, sb) ← sb.getrawbuf len
      pure (v.map cstring, sb)

/-! ## Putters -/

/-- The shape of the putters: the number of bytes written, 0 when there is no room. -/
def put (sb : Sbuf) (v : Bytes) : Mem (Nat × Sbuf) := do
  match ← sb.reserve v.length with
  | none => pure (0, sb)
  | some sb => do
      let block ← sb.block.store sb.pos v
      pure (v.length, { sb with block, pos := (sb.pos + v.length) % 65536 })

def put8 (sb : Sbuf) (v : Nat) : Mem (Nat × Sbuf) := sb.put (bytePut8 v)

def put16 (sb : Sbuf) (v : Nat) : Mem (Nat × Sbuf) := sb.put (bytePut16 v)

def put32 (sb : Sbuf) (v : Nat) : Mem (Nat × Sbuf) := sb.put (bytePut32 v)

def putraw (sb : Sbuf) (inbuf : Bytes) : Mem (Nat × Sbuf) := sb.put inbuf

def putstr (sb : Sbuf) (instr : CStr) : Mem (Nat × Sbuf) := sb.putraw instr

/-! ## Well-formed buffers -/

/-- What the fields of a buffer promise each other. -/
structure Ok (sb : Sbuf) : Prop where
  size : sb.block.size = sb.buflen
  lt : sb.buflen < 65536
  pos_le : sb.pos ≤ sb.buflen

/-- What the getters need of a buffer: its bytes are there. -/
structure Readable (sb : Sbuf) : Prop where
  size : sb.buflen ≤ sb.block.size
  lt : sb.buflen < 65536
  pos_le : sb.pos ≤ sb.buflen

theorem Ok.readable {sb : Sbuf} (ok : sb.Ok) : sb.Readable :=
  ⟨Nat.le_of_eq ok.size.symm, ok.lt, ok.pos_le⟩

theorem Readable.bytesremaining {sb : Sbuf} (ok : sb.Readable) :
    sb.bytesremaining = ((sb.buflen - sb.pos : Nat) : Int) := by
  have := ok.pos_le
  simp only [Sbuf.bytesremaining]
  omega

theorem Ok.bytesremaining {sb : Sbuf} (ok : sb.Ok) :
    sb.bytesremaining = ((sb.buflen - sb.pos : Nat) : Int) := ok.readable.bytesremaining

/-- A buffer that was just set up is well formed. -/
theorem init_ok {buf : Option Block} {buflen : Nat} {h h' : Heap} {sb : Sbuf}
    (hlt : buflen < 65536) (hbuf : ∀ b, buf = some b → b.size = buflen)
    (hr : init buf buflen h = .ok (some sb, h')) : sb.Ok ∧ sb.pos = 0 := by
  cases buf with
  | some b =>
      simp only [init, Prog.pure_ok, Prod.mk.injEq, Option.some.injEq] at hr
      obtain ⟨rfl, -⟩ := hr
      exact ⟨⟨hbuf b rfl, hlt, Nat.zero_le _⟩, rfl⟩
  | none =>
      simp only [init, Prog.bind_ok, malloc, Prog.pure_ok, Except.ok.injEq, Prod.mk.injEq] at hr
      obtain ⟨b, _, ⟨hb, -⟩, hsb, -⟩ := hr
      cases hun : h.unwilling with
      | true =>
          simp only [hun, if_true] at hb
          subst hb
          simp at hsb
      | false =>
          simp only [hun, Bool.false_eq_true, if_false] at hb
          subst hb
          simp only [Option.map_some, Option.some.injEq] at hsb
          subst hsb
          refine ⟨⟨rfl, ?_, Nat.zero_le _⟩, rfl⟩
          dsimp only
          split <;> omega

/-! ## Growth -/

/-- The number of 256-byte steps for `n` more bytes. -/
def steps (n : Nat) : Nat := (n + 255) / 256

private theorem growLoop_eq {fuel n : Nat} (nbuflen : Nat) (hn : n ≤ 256 * (fuel + 1))
    (hb : nbuflen < 65536) :
    growLoop fuel nbuflen n =
      ((nbuflen + 256 * (steps n - 1)) % 65536, n - 256 * (steps n - 1)) := by
  induction fuel generalizing nbuflen n with
  | zero =>
      have hsteps : steps n - 1 = 0 := by simp only [steps]; omega
      simp [growLoop, hsteps, Nat.mod_eq_of_lt hb]
  | succ fuel ih =>
      simp only [growLoop]
      split
      · rename_i hgt
        have hsteps : steps n - 1 = steps (n - 256) - 1 + 1 := by simp only [steps]; omega
        rw [ih _ (by omega) (Nat.mod_lt _ (by decide)), hsteps]
        simp only [Prod.mk.injEq]
        omega
      · have hsteps : steps n - 1 = 0 := by simp only [steps]; omega
        simp [hsteps, Nat.mod_eq_of_lt hb]

/-- The loop adds one step of 256 for each 256 bytes asked for, modulo 2^16. -/
theorem grown_eq {buflen n : Nat} (hb : buflen < 65536) (hn : n < 65536) :
    grown buflen n = (buflen + 256 * steps n) % 65536 := by
  simp only [grown, growLoop_eq buflen (show n ≤ 256 * (256 + 1) by omega) hb]
  split
  · have hsteps : steps n = steps n - 1 + 1 := by simp only [steps] at *; omega
    omega
  · have hsteps : steps n = 0 := by simp only [steps] at *; omega
    simp [hsteps]

/-- A request for `n` more bytes that is answered with -1: the buffer may not grow, its
16-bit new length is above the maximum, or the allocator refuses. -/
def Refused (sb : Sbuf) (n : Nat) (h : Heap) : Prop :=
  sb.autoresize = false ∨ 32768 < (sb.buflen + 256 * steps n) % 65536 ∨ h.unwilling = true

instance (sb : Sbuf) (n : Nat) (h : Heap) : Decidable (Refused sb n h) := by
  unfold Refused
  infer_instance

/-- A request within the maximum asks the allocator once. -/
theorem extendbuf_unwilling {sb : Sbuf} {n : Nat} {h : Heap} (hauto : sb.autoresize = true)
    (hmax : ¬32768 < grown sb.buflen n) (hun : h.unwilling = true) :
    sb.extendbuf n h = .ok (none, h.next) := by
  have hresizes : ¬sb.autoresize = false := by simp [hauto]
  unfold extendbuf
  simp only [if_neg hresizes, gt_iff_lt, if_neg hmax]
  rw [Prog.bind_of_ok (malloc_refused hun)]
  rfl

/-- A growth that is refused gives no buffer. -/
theorem extendbuf_refused {sb : Sbuf} {n : Nat} {h : Heap} (hb : sb.buflen < 65536)
    (hn : n < 65536) (href : Refused sb n h) : ∃ h', sb.extendbuf n h = .ok (none, h') := by
  rw [Refused, ← grown_eq hb hn] at href
  by_cases hauto : sb.autoresize = false
  · exact ⟨h, by rw [extendbuf, if_pos hauto]; rfl⟩
  by_cases hmax : 32768 < grown sb.buflen n
  · exact ⟨h, by simp [extendbuf, hauto, hmax]⟩
  have hun : h.unwilling = true := (href.resolve_left hauto).resolve_left hmax
  exact ⟨h.next, extendbuf_unwilling (by simpa using hauto) hmax hun⟩

/-- A buffer after a granted request for `n` more bytes. -/
def extended (sb : Sbuf) (n : Nat) (h : Heap) : Sbuf :=
  let nbuflen := grown sb.buflen n
  { sb with
    block := (⟨nbuflen, h.junk nbuflen⟩ : Block).fill 0 (sb.block.bytes 0 sb.buflen)
    buflen := nbuflen }

/-- A granted request copies the old buffer into the new one, whatever the lengths are. -/
theorem extendbuf_granted {sb : Sbuf} {n : Nat} {h : Heap} (hb : sb.buflen < 65536)
    (hn : n < 65536) (hgrant : ¬Refused sb n h) (hsize : sb.block.size = sb.buflen) :
    sb.extendbuf n h =
      if sb.buflen ≤ grown sb.buflen n then .ok (some (sb.extended n h), h.next)
      else .error .outOfBounds := by
  rw [Refused, ← grown_eq hb hn] at hgrant
  simp only [not_or] at hgrant
  obtain ⟨hauto, hmax, hwilling⟩ := hgrant
  have hload : ∀ g, sb.block.load 0 sb.buflen g = .ok (sb.block.bytes 0 sb.buflen, g) :=
    fun g => Block.load_of_le (by omega)
  simp only [extendbuf, if_neg hauto, gt_iff_lt, if_neg hmax]
  rw [Prog.bind_of_ok (malloc_granted (by simpa using hwilling))]
  dsimp only
  rw [Prog.bind_of_ok (hload _)]
  by_cases hfits : sb.buflen ≤ grown sb.buflen n
  · rw [if_pos hfits, Prog.bind_of_ok (Block.store_of_le (by simpa using hfits))]
    rfl
  · rw [if_neg hfits, Prog.bind_of_error]
    simp [Block.store, hfits]

section Fits

variable {sb : Sbuf} {n : Nat} {h : Heap}

/-- A buffer grows by whole steps. -/
theorem extended_buflen (ok : sb.Ok) (hfit : sb.buflen + 256 * steps n < 65536)
    (hn : n < 65536) : (sb.extended n h).buflen = sb.buflen + 256 * steps n := by
  simp only [extended, grown_eq ok.lt hn, Nat.mod_eq_of_lt hfit]

/-- Growth without a wrap keeps a buffer well formed. -/
theorem extended_ok (ok : sb.Ok) (hfit : sb.buflen + 256 * steps n < 65536) (hn : n < 65536) :
    (sb.extended n h).Ok := by
  have hlen := extended_buflen (h := h) ok hfit hn
  refine ⟨rfl, by omega, ?_⟩
  have hpos : (sb.extended n h).pos = sb.pos := rfl
  have := ok.pos_le
  omega

/-- Growth keeps the old contents. -/
theorem extended_bytes {off len : Nat} (hle : off + len ≤ sb.buflen) :
    (sb.extended n h).block.bytes off len = sb.block.bytes off len := by
  apply Block.bytes_congr
  intro i hi
  have hin : off + i < sb.buflen := by omega
  simp [extended, Block.fill, hin, List.getD, Block.getElem_bytes]

theorem le_steps : n ≤ 256 * steps n := by
  simp only [steps]
  omega

end Fits

/-! ## What each operation does -/

section Operations

variable {sb : Sbuf} {h : Heap}

theorem reserve_of_room {n : Nat} (hroom : ¬sb.bytesremaining < n) :
    sb.reserve n h = .ok (some sb, h) := by
  simp only [reserve, if_neg hroom]
  rfl

/-- With too little room the buffer is extended, by the number as a word of 16 bits. -/
theorem reserve_of_short {n : Nat} (hshort : sb.bytesremaining < n) :
    sb.reserve n = sb.extendbuf (n % 65536) := if_pos hshort

/-- A getter that finds too few bytes gives 0 and stays where it is. -/
theorem get_of_short {n : Nat} {dec : Bytes → Nat} (hshort : sb.bytesremaining < n) :
    sb.get n dec h = .ok ((0, sb), h) := by
  simp only [get, if_pos hshort]
  rfl

/-- A getter with enough bytes ahead decodes them and moves behind them. -/
theorem get_of_room {n : Nat} {dec : Bytes → Nat} (hroom : ¬sb.bytesremaining < n)
    (hsize : sb.pos + n ≤ sb.block.size) (hpos : sb.pos + n < 65536) :
    sb.get n dec h = .ok ((dec (sb.block.bytes sb.pos n), { sb with pos := sb.pos + n }), h) := by
  simp only [get, if_neg hroom]
  rw [Prog.bind_of_ok (Block.load_of_le hsize), Nat.mod_eq_of_lt hpos]
  rfl

theorem getrawbuf_of_short {n : Nat} (hshort : sb.bytesremaining < n) :
    sb.getrawbuf n h = .ok ((none, sb), h) := by
  simp only [getrawbuf, if_pos hshort]
  rfl

theorem getrawbuf_of_room {n : Nat} (hroom : ¬sb.bytesremaining < n)
    (hsize : sb.pos + n ≤ sb.block.size) (hpos : sb.pos + n < 65536) :
    sb.getrawbuf n h =
      .ok ((some (sb.block.bytes sb.pos n), { sb with pos := sb.pos + n }), h) := by
  simp only [getrawbuf, if_neg hroom]
  rw [Prog.bind_of_ok (Block.load_of_le hsize), Nat.mod_eq_of_lt hpos]
  rfl

/-- A putter without room puts nothing. -/
theorem put_of_refused {v : Bytes} {h' : Heap} (hres : sb.reserve v.length h = .ok (none, h')) :
    sb.put v h = .ok ((0, sb), h') := by
  simp only [put]
  rw [Prog.bind_of_ok hres]
  rfl

/-- Once there is room a putter stores its bytes at the cursor and moves behind them. -/
theorem put_of_reserved {v : Bytes} {sb' : Sbuf} {h' : Heap}
    (hres : sb.reserve v.length h = .ok (some sb', h'))
    (hsize : sb'.pos + v.length ≤ sb'.block.size) (hpos : sb'.pos + v.length < 65536) :
    sb.put v h = .ok ((v.length,
      { sb' with block := sb'.block.fill sb'.pos v, pos := sb'.pos + v.length }), h') := by
  simp only [put]
  rw [Prog.bind_of_ok hres]
  dsimp only
  rw [Prog.bind_of_ok (Block.store_of_le hsize), Nat.mod_eq_of_lt hpos]
  rfl

end Operations

/-! ## Unread bytes -/

/-- The bytes from the cursor to the end. -/
def rest (sb : Sbuf) : Bytes := sb.block.bytes sb.pos (sb.buflen - sb.pos)

/-- The buffer with the cursor `n` bytes on. -/
def skip (sb : Sbuf) (n : Nat) : Sbuf := { sb with pos := sb.pos + n }

section Rest

variable {sb : Sbuf} {h : Heap} {n : Nat}

theorem length_rest : sb.rest.length = sb.buflen - sb.pos := by simp [rest]

theorem Readable.skip (ok : sb.Readable) (hn : n ≤ sb.rest.length) : (sb.skip n).Readable := by
  rw [length_rest] at hn
  have := ok.pos_le
  exact ⟨ok.size, ok.lt, show sb.pos + n ≤ sb.buflen by omega⟩

/-- What was skipped is no longer ahead. -/
theorem rest_skip (hn : n ≤ sb.rest.length) : (sb.skip n).rest = sb.rest.drop n := by
  have hsplit : sb.buflen - sb.pos = n + (sb.buflen - (sb.pos + n)) := by
    rw [length_rest] at hn
    omega
  simp only [rest, skip]
  rw [hsplit, Block.bytes_add, List.drop_left' (by simp)]

theorem take_rest (hn : n ≤ sb.rest.length) : sb.rest.take n = sb.block.bytes sb.pos n := by
  have hsplit : sb.buflen - sb.pos = n + (sb.buflen - (sb.pos + n)) := by
    rw [length_rest] at hn
    omega
  simp only [rest]
  rw [hsplit, Block.bytes_add, List.take_left' (by simp)]

theorem bytesremaining_lt (ok : sb.Readable) : sb.bytesremaining < n ↔ sb.rest.length < n := by
  rw [ok.bytesremaining, length_rest]
  omega

/-- A getter either finds its bytes at the head of the unread ones or does nothing. -/
theorem get_rest {dec : Bytes → Nat} (ok : sb.Readable) :
    sb.get n dec h = if n ≤ sb.rest.length then .ok ((dec (sb.rest.take n), sb.skip n), h)
      else .ok ((0, sb), h) := by
  by_cases hn : n ≤ sb.rest.length
  · have hroom : ¬sb.bytesremaining < n := by rw [bytesremaining_lt ok]; omega
    have hlen : sb.rest.length = sb.buflen - sb.pos := length_rest
    have hpos := ok.pos_le
    have hsize := ok.size
    have hlt := ok.lt
    rw [if_pos hn, get_of_room hroom (by omega) (by omega), take_rest hn]
    rfl
  · rw [if_neg hn, get_of_short (by rw [bytesremaining_lt ok]; omega)]

/-- Raw bytes are taken off what is ahead, if there are enough. -/
theorem getrawbuf_rest (ok : sb.Readable) :
    sb.getrawbuf n h = if n ≤ sb.rest.length then .ok ((some (sb.rest.take n), sb.skip n), h)
      else .ok ((none, sb), h) := by
  by_cases hn : n ≤ sb.rest.length
  · have hroom : ¬sb.bytesremaining < n := by rw [bytesremaining_lt ok]; omega
    have hlen : sb.rest.length = sb.buflen - sb.pos := length_rest
    have hpos := ok.pos_le
    have hsize := ok.size
    have hlt := ok.lt
    rw [if_pos hn, getrawbuf_of_room hroom (by omega) (by omega), take_rest hn]
    rfl
  · rw [if_neg hn, getrawbuf_of_short (by rw [bytesremaining_lt ok]; omega)]

theorem getraw_rest (ok : sb.Readable) :
    sb.getraw n h =
      if h.unwilling then .ok ((none, sb), h.next)
      else if n ≤ sb.rest.length then .ok ((some (sb.rest.take n), sb.skip n), h.next)
      else .ok ((none, sb), h.next) := by
  simp only [getraw]
  cases hun : h.unwilling with
  | true =>
      rw [Prog.bind_of_ok (malloc_refused hun)]
      rfl
  | false =>
      rw [Prog.bind_of_ok (malloc_granted hun)]
      exact getrawbuf_rest ok

end Rest

end Sbuf
end Timps.Naf
