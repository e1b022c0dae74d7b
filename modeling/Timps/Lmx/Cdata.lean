-- SUMMARY: Character data of libmx: escaping, decoding, and what the decoder makes of a piece of a text.
import Timps.Base.Escape
import Timps.Naf.Cstring

/-!
# Character data

Text is kept decoded and escaped when it is written. The decoder works on a piece of a text
of given length: one pass counts the characters, a second one writes that many. The two do
not look at the end of the piece in the same way.
-/

namespace Timps.Lmx

open Escape (Reads Torn decode encode entryAt entryAt_none)
open Naf (Block Heap Mem int lit malloc strncmp strncmp_eq)
open Prog (bind_of_error bind_of_ok)

def convs : Escape.Table UInt8 :=
  [(38, lit "&amp;"), (39, lit "&apos;"), (34, lit "&quot;"), (60, lit "&lt;"), (62, lit "&gt;")]

/-! ## Escaping -/

/-- The length of the escaped text, as an `int`. -/
def cdatastrStrlen : CStr → Int
  | [] => 0
  | c :: s =>
      int ((match convs.find? fun e => e.1 = c with
        | some e => e.2.length
        | none => 1) + cdatastrStrlen s)

/-- Writes the escaped text while there is room, and a terminator in any case: the number of
characters written. -/
def cdatastrPutstr (b : Block) (off : Nat) (buflen : Int) : CStr → Mem (Int × Block)
  | [] => do
      let b ← b.store off [0]
      pure (0, b)
  | c :: s =>
      if buflen = 0 then do
        let b ← b.store off [0]
        pure (0, b)
      else
        match convs.find? fun e => e.1 = c with
        | some e =>
            let z := min buflen e.2.length
            -- `memcpy` takes a `size_t`
            if z < 0 then Prog.fault .outOfBounds
            else do
              let b ← b.store off (e.2.take z.toNat)
              let (n, b) ← cdatastrPutstr b (off + z.toNat) (int (buflen - z)) s
              pure (int (n + z), b)
        | none => do
            let b ← b.store off [c]
            let (n, b) ← cdatastrPutstr b (off + 1) (int (buflen - 1)) s
            pure (int (n + 1), b)

/-! ## Decoding -/

/-- The first entry whose code is found at `p`, when `clip` characters of it are compared. -/
def findconv (b : Block) (p : Nat) (clip : CStr → Nat) : Escape.Table UInt8 → Mem (Option (UInt8 × CStr))
  | [] => pure none
  | e :: t => do
      if ← strncmp b e.2 p (clip e.2) then pure (some e) else findconv b p clip t

/-- How far the counting loop goes on from what it found. -/
def stride : Option (UInt8 × CStr) → Nat
  | some e => e.2.length
  | none => 1

/-- The counting loop. An `instrlen` of 0 stands for negative ones as well. -/
def decodedstrlenFrom (b : Block) : Nat → Nat → Nat → Mem Nat
  | 0, _, _ => Prog.fault .diverge
  | fuel + 1, p, instrlen => do
      let c ← b.peek p
      if c = 0 ∨ instrlen = 0 then pure 0
      else do
        let found ← findconv b p (fun enc => min enc.length instrlen) convs
        let n ← decodedstrlenFrom b fuel (p + stride found) (instrlen - stride found)
        pure (n + 1)

/-- Each round takes something off `instrlen`. -/
def cdatastrDecodedstrlen (b : Block) (p instrlen : Nat) : Mem Nat :=
  decodedstrlenFrom b (instrlen + 1) p instrlen

/-- Writes the decoded text at `off` of `buf`, and a terminator behind it. -/
def cdatastrDecode (instr : Block) : Block → Nat → Nat → Nat → Nat → Mem (Nat × Block)
  | buf, off, 0, p, _ => do
      -- `*p` is looked at before `buflen`
      let _ ← instr.peek p
      let buf ← buf.store off [0]
      pure (0, buf)
  | buf, off, buflen + 1, p, instrlen => do
      let c ← instr.peek p
      if c = 0 ∨ instrlen = 0 then do
        let buf ← buf.store off [0]
        pure (0, buf)
      else do
        match ← findconv instr p List.length convs with
        | some e =>
            let buf ← buf.store off [e.1]
            let (n, buf) ← cdatastrDecode instr buf (off + 1) buflen (p + e.2.length) (instrlen - e.2.length)
            pure (n + 1, buf)
        | none =>
            -- a plain character does not count against `instrlen`
            let buf ← buf.store off [c]
            let (n, buf) ← cdatastrDecode instr buf (off + 1) buflen (p + 1) instrlen
            pure (n + 1, buf)

/-! ## The table -/

theorem marked_convs : Escape.Marked convs 38 where
  codes := by
    intro e he
    simp only [convs, List.mem_cons, List.not_mem_nil, or_false] at he
    rcases he with rfl | rfl | rfl | rfl | rfl <;> exact ⟨_, rfl, by decide⟩
  free := by decide
  self := ⟨_, List.mem_cons_self, rfl⟩

theorem length_conv_le : ∀ e ∈ convs, e.2.length ≤ 6 := by decide

theorem two_le_length_conv : ∀ e ∈ convs, 2 ≤ e.2.length := by decide

theorem zero_notMem_conv : ∀ e ∈ convs, (0 : UInt8) ∉ e.2 := by decide

theorem conv_ne_zero : ∀ e ∈ convs, e.1 ≠ 0 := by decide

/-! ## What is escaped -/

theorem zero_notMem_encode {s : CStr} (hs : 0 ∉ s) : 0 ∉ encode convs s := by
  intro hmem
  obtain ⟨c, hc, hcode⟩ := List.mem_flatMap.1 hmem
  unfold Escape.encodeChar at hcode
  cases hfind : convs.find? fun e => decide (e.1 = c) with
  | some e =>
      rw [hfind] at hcode
      exact zero_notMem_conv e (List.mem_of_find?_eq_some hfind) hcode
  | none =>
      rw [hfind] at hcode
      exact hs (List.mem_singleton.1 hcode ▸ hc)

/-- The length is right as far as an `int` goes. -/
theorem cdatastrStrlen_eq (s : CStr) : cdatastrStrlen s = int (encode convs s).length := by
  induction s with
  | nil => rfl
  | cons c s ih =>
      have hsplit : encode convs (c :: s) = Escape.encodeChar convs c ++ encode convs s := rfl
      rw [cdatastrStrlen, ih, Naf.int_add_int, hsplit, List.length_append, Int.natCast_add, Escape.encodeChar]
      cases convs.find? fun e => decide (e.1 = c) with
      | none => rfl
      | some e => rfl

theorem cdatastrPutstr_eq {b : Block} {off : Nat} {buflen : Int} {s : CStr} {h : Heap}
    (hroom : (encode convs s).length < buflen) (hint : buflen < 2 ^ 31)
    (hfits : off + (encode convs s).length + 1 ≤ b.size) :
    cdatastrPutstr b off buflen s h = .ok (((encode convs s).length, b.lay off (encode convs s)), h) := by
  induction s generalizing b off buflen with
  | nil =>
      rw [cdatastrPutstr, bind_of_ok (Block.store_of_le hfits)]
      rfl
  | cons c s ih =>
      have hsplit : encode convs (c :: s) = Escape.encodeChar convs c ++ encode convs s := rfl
      have hne : buflen ≠ 0 := by omega
      rw [hsplit, List.length_append] at hroom hfits
      rw [cdatastrPutstr, if_neg hne, hsplit, List.length_append]
      -- no sum leaves the range of an `int`
      have hsub : ∀ z : Nat, z ≤ buflen → int (buflen - z) = buflen - z := fun z hz =>
        Naf.int_of_lt (by omega) (by omega)
      unfold Escape.encodeChar at hroom hfits ⊢
      cases hfind : convs.find? fun e => decide (e.1 = c) with
      | some e =>
          rw [hfind] at hroom hfits
          dsimp only at hroom hfits ⊢
          have hz : min buflen (e.2.length : Int) = e.2.length := by omega
          have hsum : int (((encode convs s).length : Int) + e.2.length) =
              ((e.2.length + (encode convs s).length : Nat) : Int) := by
            rw [Naf.int_of_lt (by omega) (by omega)]
            omega
          rw [hz, if_neg (by omega), Int.toNat_natCast, List.take_length, hsub _ (by omega),
            bind_of_ok (Block.store_of_le (by omega)),
            bind_of_ok (ih (by omega) (by omega) (by rw [Block.size_fill]; omega)), Block.fill_lay]
          dsimp only
          rw [hsum]
          rfl
      | none =>
          rw [hfind] at hroom hfits
          dsimp only [List.length_singleton] at hroom hfits ⊢
          have hlay := b.fill_lay off [c] (encode convs s)
          have hsum : int (((encode convs s).length : Int) + 1) =
              ((1 + (encode convs s).length : Nat) : Int) := by
            rw [Naf.int_of_lt (by omega) (by omega)]
            omega
          have hone : int (buflen - 1) = buflen - 1 := hsub 1 (by omega)
          rw [List.length_singleton] at hlay
          rw [hone, bind_of_ok (Block.store_of_le (by rw [List.length_singleton]; omega)),
            bind_of_ok (ih (by omega) (by omega) (by rw [Block.size_fill]; omega)), hlay]
          dsimp only
          rw [hsum]
          rfl

/-! ## What is found -/

section

variable {b : Block} {p : Nat} {h : Heap} {x : CStr}

theorem findconv_eq (clip : CStr → Nat) {t : Escape.Table UInt8} {P : UInt8 × CStr → Bool}
    (hP : ∀ e ∈ t, strncmp b e.2 p (clip e.2) h = .ok (P e, h)) :
    findconv b p clip t h = .ok (t.find? P, h) := by
  induction t with
  | nil => rfl
  | cons e t ih =>
      rw [findconv, bind_of_ok (hP e List.mem_cons_self), List.find?_cons]
      cases P e with
      | true => rfl
      | false => exact ih fun e he => hP e (List.mem_cons_of_mem _ he)

theorem decide_eq_isPrefixOf {P : Prop} [Decidable P] {x y : CStr} (hiff : P ↔ x <+: y) :
    decide P = x.isPrefixOf y := by
  rw [Bool.eq_iff_iff, decide_eq_true_iff, hiff, List.isPrefixOf_iff_prefix]

/-- Characters that agree with a code are a start of it. -/
theorem take_eq_of_bytes {e : UInt8 × CStr} {n : Nat} (hx : b.bytes p x.length = x) (hn : x.length ≤ n)
    (hsame : b.bytes p n = e.2.take n) : x <+: e.2 := by
  obtain ⟨m, rfl⟩ := Nat.exists_eq_add_of_le hn
  rw [Block.bytes_add, hx] at hsame
  exact (List.prefix_append x _).trans (hsame ▸ List.take_prefix _ _)

theorem bytes_eq_take {n : Nat} (hx : b.bytes p x.length = x) (hn : n ≤ x.length) :
    b.bytes p n = x.take n := by
  obtain ⟨m, hm⟩ := Nat.exists_eq_add_of_le hn
  rw [← hx, hm, Block.bytes_add, List.take_left' (by simp)]

/-- A text that is not torn decides what stands in front of it. -/
theorem findconv_of_not_torn (clip : CStr → Nat) (hclip : ∀ enc, min enc.length x.length ≤ clip enc)
    (hle : ∀ enc, clip enc ≤ enc.length) (hne : x ≠ []) (hx : b.bytes p x.length = x)
    (hsize : ∀ enc i, i < clip enc → i ≤ x.length → p + i < b.size) (htorn : ¬Torn convs x) :
    findconv b p clip convs h = .ok (entryAt convs x, h) := by
  refine findconv_eq _ fun e he => ?_
  have hread : ∀ i, i < clip e.2 → b.bytes p i = e.2.take i → p + i < b.size := by
    intro i hi hsame
    by_cases hin : i ≤ x.length
    · exact hsize e.2 i hi hin
    have hxe := take_eq_of_bytes hx (by omega) hsame
    refine absurd ⟨hne, e, he, hxe, fun heq => ?_⟩ htorn
    have hlen := congrArg List.length heq
    have := hle e.2
    omega
  rw [strncmp_eq (hle e.2) (zero_notMem_conv e he) hread]
  have hiff : b.bytes p (clip e.2) = e.2.take (clip e.2) ↔ e.2 <+: x := by
    have := hclip e.2
    have := hle e.2
    constructor
    · intro hsame
      by_cases hlong : e.2.length ≤ x.length
      · have hclipped : clip e.2 = e.2.length := by omega
        rw [hclipped, bytes_eq_take hx hlong, List.take_length] at hsame
        exact hsame ▸ List.take_prefix _ _
      · have hxe := take_eq_of_bytes hx (by omega) hsame
        exact absurd ⟨hne, e, he, hxe, fun heq => hlong (heq ▸ Nat.le_refl _)⟩ htorn
    · intro hpre
      have hlen := hpre.length_le
      have hclipped : clip e.2 = e.2.length := by omega
      rw [hclipped, bytes_eq_take hx hlen, List.take_length]
      exact (List.prefix_iff_eq_take.1 hpre).symm
  rw [decide_eq_isPrefixOf hiff]

/-- When the comparison is clipped to a torn text some code is found in it. -/
theorem findconv_clipped_torn (hx : b.bytes p x.length = x) (hsize : p + x.length ≤ b.size)
    (htorn : Torn convs x) : ∃ e ∈ convs, x.length < e.2.length ∧
      findconv b p (fun enc => min enc.length x.length) convs h = .ok (some e, h) := by
  have hP : ∀ e ∈ convs, strncmp b e.2 p (min e.2.length x.length) h =
      .ok (decide (b.bytes p (min e.2.length x.length) = e.2.take (min e.2.length x.length)), h) := by
    intro e he
    exact strncmp_eq (Nat.min_le_left _ _) (zero_notMem_conv e he) fun i hi _ => by omega
  have hfind := findconv_eq (h := h) (fun enc => min enc.length x.length) hP
  obtain ⟨hne, e, he, hxe, hproper⟩ := id htorn
  have hlen := hxe.length_le
  cases hsome : convs.find? fun e => decide (b.bytes p (min e.2.length x.length) =
      e.2.take (min e.2.length x.length)) with
  | none =>
      have hno := List.find?_eq_none.1 hsome e he
      rw [decide_eq_true_eq, Nat.min_eq_right hlen, hx] at hno
      exact absurd (List.prefix_iff_eq_take.1 hxe) hno
  | some e' =>
      rw [hsome] at hfind
      have he' := List.mem_of_find?_eq_some hsome
      have hsame := List.find?_some hsome
      rw [decide_eq_true_eq] at hsame
      refine ⟨e', he', ?_, hfind⟩
      by_contra hshort
      rw [Nat.min_eq_left (by omega), bytes_eq_take hx (by omega), List.take_length] at hsame
      exact entryAt_none.1 (htorn.entryAt marked_convs) e' he' (hsame ▸ List.take_prefix _ _)

/-- When whole codes are compared at a torn text what follows it decides. -/
theorem findconv_full (hsize : p + 6 ≤ b.size) :
    findconv b p List.length convs h = .ok (entryAt convs (b.bytes p 6), h) := by
  refine findconv_eq _ fun e he => ?_
  have hlen := length_conv_le e he
  rw [strncmp_eq (Nat.le_refl _) (zero_notMem_conv e he) fun i hi _ => by omega]
  have hiff : b.bytes p e.2.length = e.2.take e.2.length ↔ e.2 <+: b.bytes p 6 := by
    have hsix : (b.bytes p 6).length = 6 := Block.length_bytes _ _ _
    rw [bytes_eq_take (x := b.bytes p 6) (by rw [hsix]) (by omega), List.take_length, List.prefix_iff_eq_take]
    exact eq_comm
  rw [decide_eq_isPrefixOf hiff]

end

/-! ## What is decoded -/

section

variable {b : Block} {p fuel instrlen : Nat} {h : Heap} {s d r : CStr}

/-- The number of characters at the torn end of a piece, as both passes count them. -/
def tornCount (r : CStr) : Nat := if r = [] then 0 else 1

/-- What the decoder makes of the torn end at `p`: it looks at what follows the piece. -/
def tornChar (b : Block) (p : Nat) : UInt8 :=
  match entryAt convs (b.bytes p 6) with
  | some e => e.1
  | none => 38

/-- The text that comes out, for a piece that is read as `d` up to its torn end `r`. -/
def pieceText (b : Block) (p : Nat) (d r : CStr) : CStr := d ++ if r = [] then [] else [tornChar b p]

theorem tornCount_le (r : CStr) : tornCount r ≤ r.length := by
  unfold tornCount
  split
  · exact Nat.zero_le _
  · exact List.length_pos_iff.2 ‹_›

theorem length_pieceText : (pieceText b p d r).length = d.length + tornCount r := by
  unfold pieceText tornCount
  split <;> simp

/-- A piece that starts with a whole code is not torn there. -/
theorem not_torn_code {e : UInt8 × CStr} (he : e ∈ convs) : ¬Torn convs (e.2 ++ s) := by
  intro htorn
  exact entryAt_none.1 (htorn.entryAt marked_convs) e he (List.prefix_append _ _)

theorem byte_ne_zero {c : UInt8} (hs : 0 ∉ c :: s) (hx : b.bytes p (c :: s).length = c :: s) :
    b.byte p = c ∧ c ≠ 0 := by
  rw [List.length_cons, Block.bytes_succ, List.cons.injEq] at hx
  exact ⟨hx.1, fun heq => hs (heq ▸ List.mem_cons_self)⟩

theorem bytes_split {x : CStr} (hx : b.bytes p (x ++ s).length = x ++ s) :
    b.bytes p x.length = x ∧ b.bytes (p + x.length) s.length = s := by
  rw [List.length_append, Block.bytes_add] at hx
  exact List.append_inj hx (Block.length_bytes _ _ _)

/-- One round of the counting loop in front of a text. -/
theorem decodedstrlenFrom_step {c : UInt8} {o : Option (UInt8 × CStr)} (hs : 0 ∉ c :: s)
    (hx : b.bytes p (c :: s).length = c :: s) (hp : p < b.size)
    (hfind : findconv b p (fun enc => min enc.length (c :: s).length) convs h = .ok (o, h)) :
    decodedstrlenFrom b (fuel + 1) p (c :: s).length h =
      (decodedstrlenFrom b fuel (p + stride o) ((c :: s).length - stride o) >>= fun n => pure (n + 1)) h := by
  obtain ⟨hbyte, hc⟩ := byte_ne_zero hs hx
  rw [decodedstrlenFrom, bind_of_ok (Block.peek_of_lt hp), if_neg (by simp [hbyte, hc]), bind_of_ok hfind]

theorem decodedstrlenFrom_end (hp : p < b.size) : decodedstrlenFrom b (fuel + 1) p 0 h = .ok (0, h) := by
  rw [decodedstrlenFrom, bind_of_ok (Block.peek_of_lt hp)]
  simp [Prog.pure_run]

/-- The counting pass over a piece, and what it reads behind it. -/
theorem decodedstrlenFrom_eq (hreads : Reads convs s d r) (hs : 0 ∉ s) (hx : b.bytes p s.length = s)
    (hsize : p + s.length + 5 * tornCount r < b.size) (hfuel : s.length < fuel) :
    decodedstrlenFrom b fuel p s.length h = .ok (d.length + tornCount r, h) := by
  obtain ⟨fuel, rfl⟩ : ∃ n, fuel = n + 1 := ⟨fuel - 1, by omega⟩
  induction hreads generalizing p fuel with
  | nil => exact decodedstrlenFrom_end hsize
  | @code e s d r he hreads ih =>
      have hentry := marked_convs.entryAt_of_prefix he (List.prefix_append e.2 s)
      have hfind := findconv_of_not_torn (h := h) (fun enc => min enc.length (e.2 ++ s).length)
        (fun enc => Nat.le_refl _) (fun enc => Nat.min_le_left _ _)
        (by simp [marked_convs.ne_nil he]) hx (fun _ _ _ _ => by omega) (not_torn_code he)
      rw [hentry] at hfind
      obtain ⟨-, hrest⟩ := bytes_split hx
      obtain ⟨l, hl, -⟩ := marked_convs.codes e he
      have hlen : (e.2 ++ s).length = e.2.length + s.length := List.length_append
      have hpos : e.2.length = l.length + 1 := by rw [hl]; rfl
      have hcons : e.2 ++ s = 38 :: (l ++ s) := by rw [hl]; rfl
      rw [hcons] at hs hx hfind ⊢
      rw [hcons] at hlen hsize hfuel
      rw [decodedstrlenFrom_step hs hx (by omega) hfind, stride]
      obtain ⟨fuel, rfl⟩ : ∃ n, fuel = n + 1 := ⟨fuel - 1, by omega⟩
      have hsub : (38 :: (l ++ s)).length - e.2.length = s.length := by omega
      rw [hsub, bind_of_ok (ih (fun hmem => hs (by simp [hmem])) hrest (by omega) fuel (by omega))]
      simp [Prog.pure_run, Nat.add_right_comm]
  | @plain c s d r hentry hnot hreads ih =>
      have hfind := findconv_of_not_torn (h := h) (fun enc => min enc.length (c :: s).length)
        (fun enc => Nat.le_refl _) (fun enc => Nat.min_le_left _ _) (List.cons_ne_nil _ _) hx
        (fun _ _ _ _ => by omega) hnot
      rw [hentry] at hfind
      obtain ⟨-, hrest⟩ := bytes_split (x := [c]) hx
      rw [List.length_singleton] at hrest
      rw [List.length_cons] at hsize hfuel
      rw [decodedstrlenFrom_step hs hx (by omega) hfind, stride]
      obtain ⟨fuel, rfl⟩ : ∃ n, fuel = n + 1 := ⟨fuel - 1, by omega⟩
      have hsub : (c :: s).length - 1 = s.length := rfl
      rw [hsub, bind_of_ok (ih (fun hmem => hs (List.mem_cons_of_mem _ hmem)) hrest (by omega) fuel (by omega))]
      simp [Prog.pure_run, Nat.add_right_comm]
  | @torn s htorn =>
      obtain ⟨e, he, hlong, hfind⟩ := findconv_clipped_torn (h := h) hx (by omega) htorn
      have hsix := length_conv_le e he
      obtain ⟨l, rfl, -⟩ := htorn.eq_cons marked_convs
      have hcount : tornCount (38 :: l) = 1 := rfl
      rw [hcount] at hsize ⊢
      rw [List.length_cons] at hsize hfuel
      rw [decodedstrlenFrom_step hs hx (by omega) hfind, stride]
      obtain ⟨fuel, rfl⟩ : ∃ n, fuel = n + 1 := ⟨fuel - 1, by omega⟩
      -- the torn code is passed as if it were whole
      have hsub : (38 :: l).length - e.2.length = 0 := by omega
      rw [hsub, bind_of_ok (decodedstrlenFrom_end (by omega))]
      rfl

/-- In memory that ends with the piece the counting pass reads on. -/
theorem decodedstrlenFrom_overrun (hreads : Reads convs s d r) (hs : 0 ∉ s) (hx : b.bytes p s.length = s)
    (hsize : b.size = p + s.length) (hfuel : s.length < fuel) :
    decodedstrlenFrom b fuel p s.length h = .error .outOfBounds := by
  obtain ⟨fuel, rfl⟩ : ∃ n, fuel = n + 1 := ⟨fuel - 1, by omega⟩
  induction hreads generalizing p fuel with
  | nil => exact bind_of_error (Block.peek_of_le (Nat.le_of_eq hsize))
  | @code e s d r he hreads ih =>
      have hentry := marked_convs.entryAt_of_prefix he (List.prefix_append e.2 s)
      have hfind := findconv_of_not_torn (h := h) (fun enc => min enc.length (e.2 ++ s).length)
        (fun enc => Nat.le_refl _) (fun enc => Nat.min_le_left _ _)
        (by simp [marked_convs.ne_nil he]) hx (fun _ _ _ _ => by omega) (not_torn_code he)
      rw [hentry] at hfind
      obtain ⟨-, hrest⟩ := bytes_split hx
      obtain ⟨l, hl, -⟩ := marked_convs.codes e he
      have hlen : (e.2 ++ s).length = e.2.length + s.length := List.length_append
      have hpos : e.2.length = l.length + 1 := by rw [hl]; rfl
      have hcons : e.2 ++ s = 38 :: (l ++ s) := by rw [hl]; rfl
      rw [hcons] at hs hx hfind ⊢
      rw [hcons] at hlen hsize hfuel
      rw [decodedstrlenFrom_step hs hx (by omega) hfind, stride]
      obtain ⟨fuel, rfl⟩ : ∃ n, fuel = n + 1 := ⟨fuel - 1, by omega⟩
      have hsub : (38 :: (l ++ s)).length - e.2.length = s.length := by omega
      rw [hsub, bind_of_error (ih (fun hmem => hs (by simp [hmem])) hrest (by omega) fuel (by omega))]
  | @plain c s d r hentry hnot hreads ih =>
      have hfind := findconv_of_not_torn (h := h) (fun enc => min enc.length (c :: s).length)
        (fun enc => Nat.le_refl _) (fun enc => Nat.min_le_left _ _) (List.cons_ne_nil _ _) hx
        (fun _ _ _ _ => by omega) hnot
      rw [hentry] at hfind
      obtain ⟨-, hrest⟩ := bytes_split (x := [c]) hx
      rw [List.length_singleton] at hrest
      rw [List.length_cons] at hsize hfuel
      rw [decodedstrlenFrom_step hs hx (by omega) hfind, stride]
      obtain ⟨fuel, rfl⟩ : ∃ n, fuel = n + 1 := ⟨fuel - 1, by omega⟩
      have hsub : (c :: s).length - 1 = s.length := rfl
      rw [hsub, bind_of_error (ih (fun hmem => hs (List.mem_cons_of_mem _ hmem)) hrest (by omega) fuel (by omega))]
  | @torn s htorn =>
      obtain ⟨e, he, hlong, hfind⟩ := findconv_clipped_torn (h := h) hx (by omega) htorn
      obtain ⟨l, rfl, -⟩ := htorn.eq_cons marked_convs
      rw [List.length_cons] at hsize hfuel
      rw [List.length_cons] at hlong
      rw [decodedstrlenFrom_step hs hx (by omega) hfind, stride]
      obtain ⟨fuel, rfl⟩ : ∃ n, fuel = n + 1 := ⟨fuel - 1, by omega⟩
      exact bind_of_error (bind_of_error (Block.peek_of_le (by omega)))

theorem cdatastrDecode_end {buf : Block} {off : Nat} (hp : p < b.size) (hfits : off + 1 ≤ buf.size) :
    cdatastrDecode b buf off 0 p instrlen h = .ok ((0, buf.lay off []), h) := by
  rw [cdatastrDecode, bind_of_ok (Block.peek_of_lt hp), bind_of_ok (Block.store_of_le hfits)]
  rfl

/-- The writing pass over a piece, into a buffer of the size that the counting pass found. -/
theorem cdatastrDecode_eq {buf : Block} {off : Nat} (hreads : Reads convs s d r) (hs : 0 ∉ s)
    (hx : b.bytes p s.length = s) (hsize : p + s.length + 5 * tornCount r < b.size)
    (hfits : off + (d.length + tornCount r) + 1 ≤ buf.size) (hlen : s.length ≤ instrlen) :
    cdatastrDecode b buf off (d.length + tornCount r) p instrlen h =
      .ok ((d.length + tornCount r, buf.lay off (pieceText b (p + (s.length - r.length)) d r)), h) := by
  -- on the reading: an entity, a plain byte, or the torn code it ends with
  induction hreads generalizing p off buf instrlen with
  | nil => exact cdatastrDecode_end hsize hfits
  | @code e s d r he hreads ih =>
      have hentry := marked_convs.entryAt_of_prefix he (List.prefix_append e.2 s)
      have hfind := findconv_of_not_torn (h := h) List.length
        (fun enc => Nat.min_le_left _ _) (fun enc => Nat.le_refl _)
        (by simp [marked_convs.ne_nil he]) hx (fun _ _ _ _ => by omega) (not_torn_code he)
      rw [hentry] at hfind
      obtain ⟨-, hrest⟩ := bytes_split hx
      obtain ⟨l, hl, -⟩ := marked_convs.codes e he
      have hsum : (e.2 ++ s).length = e.2.length + s.length := List.length_append
      have hpos : e.2.length = l.length + 1 := by rw [hl]; rfl
      have hcons : e.2 ++ s = 38 :: (l ++ s) := by rw [hl]; rfl
      obtain ⟨hbyte, hc⟩ := byte_ne_zero (hcons ▸ hs) (hcons ▸ hx)
      have hle := hreads.length_le
      rw [List.length_cons, Nat.add_right_comm] at hfits ⊢
      rw [cdatastrDecode, bind_of_ok (Block.peek_of_lt (by omega)), if_neg (not_or.2 ⟨hbyte ▸ hc, by omega⟩),
        bind_of_ok hfind]
      dsimp only
      rw [bind_of_ok (Block.store_of_le (by rw [List.length_singleton]; omega)),
        bind_of_ok (ih (fun hmem => hs (by simp [hmem])) hrest (by omega)
          (by rw [Block.size_fill]; omega) (by omega))]
      have hlay := buf.fill_lay off [e.1] (pieceText b (p + e.2.length + (s.length - r.length)) d r)
      rw [List.length_singleton] at hlay
      have hat : p + ((e.2 ++ s).length - r.length) = p + e.2.length + (s.length - r.length) := by omega
      rw [hlay, hat]
      rfl
  | @plain c s d r hentry hnot hreads ih =>
      have hfind := findconv_of_not_torn (h := h) List.length
        (fun enc => Nat.min_le_left _ _) (fun enc => Nat.le_refl _) (List.cons_ne_nil _ _) hx
        (fun _ _ _ _ => by omega) hnot
      rw [hentry] at hfind
      obtain ⟨-, hrest⟩ := bytes_split (x := [c]) hx
      rw [List.length_singleton] at hrest
      obtain ⟨hbyte, hc⟩ := byte_ne_zero hs hx
      have hle := hreads.length_le
      rw [List.length_cons] at hsize hlen
      rw [List.length_cons, Nat.add_right_comm] at hfits ⊢
      rw [cdatastrDecode, bind_of_ok (Block.peek_of_lt (by omega)), if_neg (not_or.2 ⟨hbyte ▸ hc, by omega⟩),
        bind_of_ok hfind]
      dsimp only
      rw [bind_of_ok (Block.store_of_le (by rw [List.length_singleton]; omega)),
        bind_of_ok (ih (fun hmem => hs (List.mem_cons_of_mem _ hmem)) hrest (by omega)
          (by rw [Block.size_fill]; omega) (by omega))]
      have hlay := buf.fill_lay off [b.byte p] (pieceText b (p + 1 + (s.length - r.length)) d r)
      rw [List.length_singleton] at hlay
      have hat : p + ((c :: s).length - r.length) = p + 1 + (s.length - r.length) := by
        rw [List.length_cons]
        omega
      rw [hlay, hat, hbyte]
      rfl
  | @torn s htorn =>
      have hne := htorn.1
      have hpos := List.length_pos_iff.2 hne
      have hcount : tornCount s = 1 := if_neg hne
      obtain ⟨l, rfl, -⟩ := htorn.eq_cons marked_convs
      obtain ⟨hbyte, hc⟩ := byte_ne_zero hs hx
      have htext : pieceText b (p + ((38 :: l).length - (38 :: l).length)) [] (38 :: l) = [tornChar b p] := by
        rw [Nat.sub_self, Nat.add_zero]
        rfl
      rw [hcount] at hsize
      rw [htext]
      rw [hcount, show ([] : CStr).length + 1 = 0 + 1 from rfl] at hfits ⊢
      rw [cdatastrDecode, bind_of_ok (Block.peek_of_lt (by omega)), if_neg (not_or.2 ⟨hbyte ▸ hc, by omega⟩),
        bind_of_ok (findconv_full (by omega))]
      have hstep : ∀ (c : UInt8) (q instrlen : Nat), q < b.size →
          (do
            let buf ← buf.store off [c]
            let (n, buf) ← cdatastrDecode b buf (off + 1) 0 q instrlen
            pure (n + 1, buf) : Mem (Nat × Block)) h = .ok ((0 + 1, buf.lay off [c]), h) := by
        intro c q instrlen hq
        have hlay : (buf.fill off [c]).lay (off + 1) [] = buf.lay off [c] := buf.fill_lay off [c] []
        rw [bind_of_ok (Block.store_of_le (by rw [List.length_singleton]; omega)),
          bind_of_ok (cdatastrDecode_end hq (by rw [Block.size_fill]; omega)), hlay]
        rfl
      unfold tornChar
      cases hentry : entryAt convs (b.bytes p 6) with
      | some e =>
          have hsix := length_conv_le e (Escape.entryAt_some hentry).1
          exact hstep _ _ _ (by omega)
      | none =>
          rw [← hbyte]
          exact hstep _ _ _ (by omega)

theorem tornChar_ne {c : UInt8} (hfree : ∀ e ∈ convs, e.1 ≠ c) : tornChar b p ≠ c := by
  unfold tornChar
  cases hentry : entryAt convs (b.bytes p 6) with
  | some e => exact hfree e (Escape.entryAt_some hentry).1
  | none => exact hfree (38, lit "&amp;") List.mem_cons_self

theorem tornChar_eq_mark : tornChar b p = 38 ↔ ∀ e ∈ convs, e.2 <+: b.bytes p 6 → e.1 = 38 := by
  unfold tornChar
  cases hentry : entryAt convs (b.bytes p 6) with
  | some e =>
      obtain ⟨he, hpre⟩ := Escape.entryAt_some hentry
      constructor
      · intro hmark e' he' hpre'
        rw [marked_convs.eq_of_prefix he' he hpre' hpre]
        exact hmark
      · intro hall
        exact hall e he hpre
  | none =>
      have hno := entryAt_none.1 hentry
      exact ⟨fun _ e he hpre => absurd hpre (hno e he), fun _ => rfl⟩

/-- A character that no code stands for is not made by decoding. -/
theorem notMem_pieceText {c : UInt8} (hfree : ∀ e ∈ convs, e.1 ≠ c) (hreads : Reads convs s d r) (hs : c ∉ s) :
    c ∉ pieceText b p d r := by
  have hd : c ∉ d := by
    induction hreads with
    | nil => exact hs
    | code he _ ih =>
        intro hmem
        rcases List.mem_cons.1 hmem with heq | hmem
        · exact hfree _ he heq.symm
        · exact ih (fun hmem => hs (List.mem_append_right _ hmem)) hmem
    | plain _ _ _ ih =>
        intro hmem
        rcases List.mem_cons.1 hmem with heq | hmem
        · exact hs (heq ▸ List.mem_cons_self)
        · exact ih (fun hmem => hs (List.mem_cons_of_mem _ hmem)) hmem
    | torn _ => exact List.not_mem_nil
  unfold pieceText
  intro hmem
  rcases List.mem_append.1 hmem with hmem | hmem
  · exact hd hmem
  · split at hmem
    · cases hmem
    · exact tornChar_ne hfree (List.mem_singleton.1 hmem).symm

/-- The torn end is kept as it is when it is a lone mark that what follows makes no other code of. -/
theorem pieceText_eq_decode (hreads : Reads convs s d r) :
    pieceText b p d r = decode convs s ↔ r = [] ∨ r = [38] ∧ tornChar b p = 38 := by
  rw [hreads.decode_eq marked_convs, pieceText, List.append_cancel_left_eq]
  by_cases hr : r = []
  · simp [hr]
  · obtain ⟨htorn, -⟩ := hreads.torn_of_ne_nil hr
    obtain ⟨l, rfl, -⟩ := htorn.eq_cons marked_convs
    rw [if_neg hr]
    simp only [List.cons.injEq, reduceCtorEq, false_or, true_and]
    constructor
    · rintro ⟨hmark, hl⟩
      exact ⟨hl.symm, hmark⟩
    · rintro ⟨hl, hmark⟩
      exact ⟨hmark, hl.symm⟩

end

end Timps.Lmx
