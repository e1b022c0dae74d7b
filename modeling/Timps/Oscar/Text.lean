-- SUMMARY: Message text: the string that the extractor builds in place is what the sections of its block say.
import Timps.Oscar.Msgblock

/-!
# Message text

The extractor works in place, on a string that it moves to a larger block for each
section. `Shows` relates the block to the text that is seen in it.
-/

namespace Timps.Oscar

open Naf (Block Heap Mem Sbuf Tlv bytePut16 cstring malloc)
open Naf.Sbuf (Readable)
open Naf.Tlv (word)
open Prog (bind_of_ok)

/-! ## The string -/

/-- The string in the block with its end at `e` is seen as `shown`: up to the end, or up to
the terminator in front of the room of a section that was cut off. -/
structure Shows (s : Block) (e : Nat) (shown : Shown) : Prop where
  room : e < s.size
  le : shown.1.length ≤ e
  whole : shown.2 = true ↔ shown.1.length = e
  bytes : s.bytes 0 shown.1.length = shown.1
  nul : s.byte shown.1.length = 0

/-- No string yet, or one that is seen as `shown`. -/
def TextShows : Text → Option Shown → Prop
  | none, none => True
  | some (s, e), some shown => Shows s e shown
  | _, _ => False

variable {s s' : Block} {e : Nat} {shown : Shown} {h : Heap} {v : Bytes}

/-- Whoever reads the string sees it as far as it is shown, up to a terminator in it. -/
theorem Shows.textstring (shows : Shows s e shown) : textstring (s, e) = cstring shown.1 := by
  have hle := shows.le
  have hroom := shows.room
  obtain ⟨k, hk⟩ : ∃ k, s.size = shown.1.length + (1 + k) := ⟨s.size - shown.1.length - 1, by omega⟩
  simp only [Timps.Oscar.textstring, hk]
  rw [Block.bytes_add, shows.bytes, Nat.zero_add, Nat.add_comm 1 k, Block.bytes_succ, shows.nul]
  unfold cstring
  rw [List.takeWhile_append]
  split
  · rename_i hall
    simp only [List.takeWhile_cons, bne_self_eq_false, Bool.false_eq_true, if_false, List.append_nil]
    exact (List.takeWhile_prefix _).eq_of_length hall |>.symm
  · rfl

/-- A string that agrees up to its end is seen as the same. -/
theorem Shows.congr (shows : Shows s e shown) (hroom : e < s'.size)
    (hsame : ∀ i, i ≤ e → s'.byte i = s.byte i) : Shows s' e shown where
  room := hroom
  le := shows.le
  whole := shows.whole
  bytes := by
    have hle := shows.le
    refine Eq.trans (Block.bytes_congr fun i hi => hsame _ ?_) shows.bytes
    omega
  nul := by rw [hsame _ shows.le, shows.nul]

/-- Room for `n` more characters, unless the allocator refuses. -/
theorem extendstr_spec {text : Text} {shown : Option Shown} (n : Nat) (shows : TextShows text shown) :
    if h.unwilling then extendstr text n h = .ok (none, h.next)
    else ∃ s e, extendstr text n h = .ok (some (s, e), h.next) ∧
      Shows s e (shown.getD ([], true)) ∧ s.size = e + n + 1 := by
  match text, shown, shows with
  | none, none, _ =>
      unfold extendstr
      dsimp only
      split
      · rename_i hun
        rw [bind_of_ok (Naf.malloc_refused hun)]
        rfl
      · rename_i hun
        have hwilling : h.unwilling = false := by simpa using hun
        refine ⟨(⟨n + 1, h.junk (n + 1)⟩ : Block).fill 0 [0], 0, ?_, ?_, by simp⟩
        · rw [bind_of_ok (Naf.malloc_granted hwilling)]
          dsimp only
          rw [bind_of_ok (Block.store_of_le (by simp))]
          rfl
        · exact ⟨by simp, Nat.le_refl _, by simp, rfl, by simp [Block.fill]⟩
  | some (s, e), some shown, shows =>
      have hroom := shows.room
      unfold extendstr
      dsimp only
      split
      · rename_i hun
        rw [bind_of_ok (Naf.malloc_refused hun)]
        rfl
      · rename_i hun
        have hwilling : h.unwilling = false := by simpa using hun
        refine ⟨(⟨e + n + 1, h.junk (e + n + 1)⟩ : Block).fill 0 (s.bytes 0 (e + 1)), e, ?_, ?_, by simp⟩
        · rw [bind_of_ok (Naf.malloc_granted hwilling)]
          dsimp only
          rw [bind_of_ok (Block.load_of_le (by omega)), bind_of_ok (Block.store_of_le (by simp))]
          rfl
        · refine Shows.congr shows (show e < e + n + 1 by omega) fun i hi => ?_
          have hin : i - 0 < (s.bytes 0 (e + 1)).length := by
            rw [Block.length_bytes]
            omega
          have hcopied : 0 ≤ i ∧ i < 0 + (s.bytes 0 (e + 1)).length := ⟨Nat.zero_le _, by omega⟩
          simp only [Block.fill, if_pos hcopied]
          rw [List.getD_eq_getElem?_getD, List.getElem?_eq_getElem hin, Option.getD_some,
            Block.getElem_bytes, Nat.zero_add, Nat.sub_zero]

/-- A section that is all there is seen behind what was seen whole. -/
theorem Shows.write (shows : Shows s e shown) (hwrote : Wrote s e v s')
    (hroom : e + v.length < s.size) :
    Shows (s'.fill (e + v.length) [0]) (e + v.length) (shown.add (some v)) := by
  have hsize := hwrote.size
  have hnul : (s'.fill (e + v.length) [0]).byte (e + v.length) = 0 := by simp [Block.fill]
  have hother : ∀ i, i < e + v.length → (s'.fill (e + v.length) [0]).byte i = s'.byte i := by
    intro i hi
    have hout : ¬(e + v.length ≤ i ∧ i < e + v.length + [(0 : UInt8)].length) := by omega
    simp only [Block.fill, if_neg hout]
  have hle := shows.le
  unfold Shown.add
  split
  · rename_i hwhole
    obtain rfl := shows.whole.1 hwhole
    refine ⟨?_, ?_, ?_, ?_, ?_⟩
    · rw [Block.size_fill, hsize]
      exact hroom
    · simp
    · simp
    · dsimp only
      rw [Option.getD_some, List.length_append, Block.bytes_add, Nat.zero_add]
      have hfirst : (s'.fill (shown.1.length + v.length) [0]).bytes 0 shown.1.length =
          s.bytes 0 shown.1.length :=
        Block.bytes_congr fun i hi => by
          rw [hother _ (by omega), hwrote.before _ (by omega)]
      have hsecond : (s'.fill (shown.1.length + v.length) [0]).bytes shown.1.length v.length =
          s'.bytes shown.1.length v.length :=
        Block.bytes_congr fun i hi => hother _ (by omega)
      rw [hfirst, hsecond, shows.bytes, hwrote.bytes]
    · simp only [Option.getD_some, List.length_append]
      exact hnul
  · rename_i hwhole
    have hlt : shown.1.length < e := by
      have hne := mt shows.whole.2 hwhole
      omega
    refine ⟨by rw [Block.size_fill, hsize]; exact hroom, by omega, ?_, ?_, ?_⟩
    · constructor
      · intro h
        exact absurd h hwhole
      · omega
    · refine Eq.trans (Block.bytes_congr fun i hi => ?_) shows.bytes
      rw [hother _ (by omega), hwrote.before _ (by omega)]
    · rw [hother _ (by omega), hwrote.before _ hlt, shows.nul]

/-- A section that is cut off hides what comes behind it. -/
theorem Shows.cut {n : Nat} (shows : Shows s e shown) (hn : 0 < n) (hroom : e + n < s.size) :
    Shows (s.fill (e + n) [0]) (e + n) (shown.add none) := by
  have hle := shows.le
  have hother : ∀ i, i ≤ e → (s.fill (e + n) [0]).byte i = s.byte i := by
    intro i hi
    have hout : ¬(e + n ≤ i ∧ i < e + n + [(0 : UInt8)].length) := by omega
    simp only [Block.fill, if_neg hout]
  have hshown : (shown.add none).1 = shown.1 := by
    unfold Shown.add
    split <;> simp
  have hcut : (shown.add none).2 = false := by
    unfold Shown.add
    split
    · rfl
    · simpa using ‹¬shown.2 = true›
  have hsame : Shows (s.fill (e + n) [0]) e shown :=
    shows.congr (by rw [Block.size_fill]; exact shows.room) hother
  refine ⟨hroom, by rw [hshown]; omega, ?_, ?_, ?_⟩
  · rw [hcut, hshown]
    constructor
    · intro h
      cases h
    · omega
  · rw [hshown]
    exact hsame.bytes
  · rw [hshown]
    exact hsame.nul

/-! ## Sections -/

theorem Fixed.bytesremaining {sb : Sbuf} {bs : Bytes} (fixed : Fixed sb bs) :
    sb.bytesremaining = (bs.length : Int) := by
  rw [fixed.ok.bytesremaining, ← Sbuf.length_rest, fixed.rest]

/-- The text and what else a section leaves behind. -/
structure Left (text : Text) (sb : Sbuf) (shown : Option Shown) (bs : Bytes) : Prop where
  shows : TextShows text shown
  fixed : Fixed sb bs

section

variable {text : Text} {sb : Sbuf} {shown : Option Shown} {bs bs' : Bytes} {piece : Piece} {u : Nat}

/-- A section of bytes: as many as are announced, or none. -/
theorem extractbytes_spec {n : Nat} (left : Left text sb shown bs) :
    if h.unwilling then ∃ h', (do
        match ← extendstr text n with
        | none => pure .out
        | some (s, e) => do
            let (v, sb) ← sb.getrawbuf n
            let s ← (match v with
              | some v => s.store e v
              | none => pure s)
            let s ← s.store (e + n) [0]
            pure (.next (some (s, e + n)) u sb) : Mem Section) h = .ok (.out, h')
    else ∃ text' sb', (do
        match ← extendstr text n with
        | none => pure .out
        | some (s, e) => do
            let (v, sb) ← sb.getrawbuf n
            let s ← (match v with
              | some v => s.store e v
              | none => pure s)
            let s ← s.store (e + n) [0]
            pure (.next (some (s, e + n)) u sb) : Mem Section) h = .ok (.next text' u sb', h.next) ∧
      Left text' sb' (some ((shown.getD ([], true)).add (if n ≤ bs.length then some (bs.take n) else none)))
        (if n ≤ bs.length then bs.drop n else bs) := by
  have hextend := extendstr_spec (h := h) n left.shows
  split at hextend
  · rename_i hun
    rw [if_pos hun, bind_of_ok hextend]
    exact ⟨_, rfl⟩
  · rename_i hun
    obtain ⟨s, e, hextend, hshows, hsize⟩ := hextend
    rw [if_neg hun, bind_of_ok hextend]
    dsimp only
    by_cases hn : n ≤ bs.length
    · have hlen : (bs.take n).length = n := by simp [hn]
      have hwrote : Wrote s e (bs.take n) (s.fill e (bs.take n)) := by
        have hfill := wrote_fill s e (bs.take n) []
        rwa [List.append_nil] at hfill
      have hshows' := hshows.write hwrote (by omega)
      rw [hlen] at hshows'
      rw [bind_of_ok (left.fixed.getrawbuf hn)]
      dsimp only
      rw [bind_of_ok (Block.store_of_le (by omega)),
        bind_of_ok (Block.store_of_le (by rw [Block.size_fill, List.length_singleton]; omega)),
        if_pos hn, if_pos hn]
      exact ⟨_, _, rfl, hshows', left.fixed.skip hn⟩
    · rw [bind_of_ok (left.fixed.getrawbuf_short hn)]
      dsimp only
      rw [pure_bind, bind_of_ok (Block.store_of_le (by rw [List.length_singleton]; omega)), if_neg hn,
        if_neg hn]
      exact ⟨_, _, rfl, hshows.cut (by omega) (by omega), left.fixed⟩

/-- A section of units: their characters are counted, and then written. -/
theorem extractunits_spec {n : Nat} (left : Left text sb shown bs) (heven : n % 2 = 0)
    (hn : n ≤ bs.length) :
    if h.unwilling then ∃ h', (do
        let start := sb.pos
        let (n', sb) ← countunits (n / 2) 0 sb
        let (_, sb) ← sb.setpos start
        match ← extendstr text n' with
        | none => pure .out
        | some text => do
            let ((s, e), sb) ← putunits (n / 2) text sb
            let s ← s.store e [0]
            pure (.next (some (s, e)) u sb) : Mem Section) h = .ok (.out, h')
    else ∃ text' sb', (do
        let start := sb.pos
        let (n', sb) ← countunits (n / 2) 0 sb
        let (_, sb) ← sb.setpos start
        match ← extendstr text n' with
        | none => pure .out
        | some text => do
            let ((s, e), sb) ← putunits (n / 2) text sb
            let s ← s.store e [0]
            pure (.next (some (s, e)) u sb) : Mem Section) h = .ok (.next text' u sb', h.next) ∧
      Left text' sb' (some ((shown.getD ([], true)).add (some ((units (bs.take n)).flatMap unitchars))))
        (bs.drop n) := by
  have htwice : 2 * (n / 2) = n := by omega
  have hrest := left.fixed.rest
  have hcount := countunits_rest (n / 2) (n := 0) (h := h) left.fixed.ok
    (by rw [htwice, hrest]; exact hn)
  rw [htwice, hrest, Nat.zero_add] at hcount
  have hpos := left.fixed.ok.pos_le
  have hset : (sb.skip n).setpos sb.pos h = .ok ((true, sb), h) := by
    have hin : ¬sb.pos > (sb.skip n).buflen := by
      show ¬sb.pos > sb.buflen
      omega
    unfold Sbuf.setpos
    rw [if_neg hin]
    rfl
  dsimp only
  rw [bind_of_ok hcount]
  dsimp only
  rw [bind_of_ok hset]
  dsimp only
  have hextend := extendstr_spec (h := h) ((units (bs.take n)).flatMap unitchars).length left.shows
  split at hextend
  · rename_i hun
    rw [if_pos hun, bind_of_ok hextend]
    exact ⟨_, rfl⟩
  · rename_i hun
    obtain ⟨s, e, hextend, hshows, hsize⟩ := hextend
    rw [if_neg hun, bind_of_ok hextend]
    dsimp only
    have hput := putunits_rest (n / 2) (e := e) (s := s) (h := h.next) left.fixed.ok
      (by rw [htwice, hrest]; exact hn) (by rw [htwice, hrest]; omega)
    rw [htwice, hrest] at hput
    obtain ⟨s', hput, hwrote⟩ := hput
    have hsize' := hwrote.size
    rw [bind_of_ok hput]
    dsimp only
    rw [bind_of_ok (Block.store_of_le (by rw [List.length_singleton]; omega))]
    exact ⟨_, _, rfl, hshows.write hwrote (by omega), left.fixed.skip hn⟩

/-- The extractor does with a section what `readsection` says. -/
theorem extractsection_spec (left : Left text sb shown bs) :
    match readsection bs with
    | none => ∃ h', extractsection text u sb h = .ok (.out, h')
    | some (piece, bs') =>
        if piece.asks && h.unwilling then ∃ h', extractsection text u sb h = .ok (.out, h')
        else ∃ text' sb', extractsection text u sb h =
            .ok (.next text' (u + if piece.isUnrepresentable then 1 else 0) sb',
              if piece.asks then h.next else h) ∧
          Left text' sb' (showPiece shown piece) bs' := by
  obtain ⟨hshows, hfixed⟩ := left
  match bs with
  | [] =>
      refine ⟨h, ?_⟩
      unfold extractsection
      rw [bind_of_ok hfixed.get8_nil]
      rfl
  | [a] =>
      obtain ⟨sb₁, hget₁, hfixed₁⟩ := hfixed.get8 (h := h)
      refine ⟨h, ?_⟩
      unfold extractsection
      rw [bind_of_ok hget₁]
      dsimp only
      split
      · rfl
      · rw [bind_of_ok hfixed₁.get8_nil]
        rfl
  | a :: b :: bs =>
      obtain ⟨sb₁, hget₁, hfixed₁⟩ := hfixed.get8 (h := h)
      obtain ⟨sb₂, hget₂, hfixed₂⟩ := hfixed₁.get8 (h := h)
      have hone : ∀ c : UInt8, c.toNat = 0x01 ↔ c = 0x01 := fun c => UInt8.toNat_inj (b := 0x01)
      unfold extractsection
      rw [bind_of_ok hget₁]
      dsimp only
      -- the two marks of a section, 01 01, tell whether the loop goes on
      by_cases hmarks : a = 0x01 ∧ b = 0x01
      · have hread : readsection (a :: b :: bs) =
            if (takeword bs).1 < 4 then some (.short, (takeword bs).2)
            else readtext (takeword (takeword bs).2).1 ((takeword bs).1 - 4)
              (takeword (takeword (takeword bs).2).2).2 := if_pos hmarks
        obtain ⟨sb₃, hget₃, hfixed₃⟩ := hfixed₂.get16 (h := h)
        have ha : ¬a.toNat ≠ 0x01 := not_not.2 ((hone a).2 hmarks.1)
        have hb : ¬b.toNat ≠ 0x01 := not_not.2 ((hone b).2 hmarks.2)
        rw [hread, if_neg ha, bind_of_ok hget₂]
        dsimp only
        rw [if_neg hb, bind_of_ok hget₃]
        dsimp only
        by_cases hshort : (takeword bs).1 < 4
        · rw [if_pos hshort, if_pos hshort]
          exact ⟨text, sb₃, rfl, hshows, hfixed₃⟩
        · obtain ⟨sb₄, hget₄, hfixed₄⟩ := hfixed₃.get16 (h := h)
          obtain ⟨sb₅, hget₅, hfixed₅⟩ := hfixed₄.get16 (h := h)
          rw [if_neg hshort, if_neg hshort, bind_of_ok hget₄]
          dsimp only
          rw [bind_of_ok hget₅]
          dsimp only
          generalize (takeword bs).1 - 4 = n at *
          generalize (takeword (takeword bs).2).1 = f1 at *
          generalize (takeword (takeword (takeword bs).2).2).2 = bs₅ at *
          unfold readtext
          have hleft : Left text sb₅ shown bs₅ := ⟨hshows, hfixed₅⟩
          by_cases hbytes : f1 = 0x0000 ∨ f1 = 0x0003
          · have hspec := extractbytes_spec (h := h) (u := u) (n := n) hleft
            rw [if_pos hbytes, if_pos hbytes]
            by_cases hn : n ≤ bs₅.length
            · simp only [if_pos hn] at hspec ⊢
              exact hspec
            · simp only [if_neg hn] at hspec ⊢
              exact hspec
          · rw [if_neg hbytes, if_neg hbytes]
            by_cases hunits : f1 = 0x0002 ∧ n % 2 = 0
            · rw [if_pos hunits, if_pos hunits]
              by_cases hn : n ≤ bs₅.length
              · have hroom : ¬sb₅.bytesremaining < n := by
                  rw [hfixed₅.bytesremaining]
                  omega
                rw [if_pos hn, if_neg hroom]
                exact extractunits_spec (h := h) (u := u) hleft hunits.2 hn
              · have hcut : sb₅.bytesremaining < n := by
                  rw [hfixed₅.bytesremaining]
                  omega
                rw [if_neg hn, if_pos hcut]
                exact ⟨h, rfl⟩
            · rw [if_neg hunits, if_neg hunits]
              obtain ⟨b', sb₆, hadvance, hfixed₆⟩ := hfixed₅.advance (n := n) (h := h)
              rw [bind_of_ok hadvance]
              exact ⟨text, sb₆, rfl, hshows, hfixed₆⟩
      -- one of the two comparisons of the loop fails
      · have hread : readsection (a :: b :: bs) = none := if_neg hmarks
        rw [hread]
        refine ⟨h, ?_⟩
        split
        · rfl
        · rename_i ha
          rw [bind_of_ok hget₂]
          dsimp only
          split
          · rfl
          · rename_i hb
            exact absurd ⟨(hone a).1 (not_not.1 ha), (hone b).1 (not_not.1 hb)⟩ hmarks

theorem takeword_le (bs : Bytes) : (takeword bs).2.length ≤ bs.length := by
  simp [takeword]

theorem readtext_le {f1 n : Nat} (hread : readtext f1 n bs = some (piece, bs')) :
    bs'.length ≤ bs.length := by
  unfold readtext at hread
  split at hread
  · split at hread <;> cases hread <;> simp
  · split at hread
    · split at hread <;> cases hread
      simp
    · cases hread
      split <;> simp

/-- Each section takes its two marks at least. -/
theorem readsection_lt (hread : readsection bs = some (piece, bs')) : bs'.length < bs.length := by
  match bs with
  | [] | [_] => cases hread
  | a :: b :: bs =>
      have h₁ := takeword_le bs
      have h₂ := takeword_le (takeword bs).2
      have h₃ := takeword_le (takeword (takeword bs).2).2
      simp only [readsection] at hread
      split at hread
      · split at hread
        · cases hread
          simp only [List.length_cons]
          omega
        · have hle := readtext_le hread
          simp only [List.length_cons]
          omega
      · cases hread

/-- A word that was put is taken off again. -/
theorem takeword_bytePut16 {v : Nat} (bs : Bytes) (hlt : v < 65536) :
    takeword (bytePut16 v ++ bs) = (v, bs) := by
  simp only [takeword, bytePut16, List.cons_append, List.nil_append, word,
    Naf.byteGet16_bytePut16 hlt]
  rfl

/-- Sections that are read off what follows them are read off one another. -/
theorem piecesWithin_flatMap {α : Type} {encode : α → Bytes} {piece : α → Piece} {ss : List α} {fuel : Nat}
    (hread : ∀ s ∈ ss, ∀ bs, readsection (encode s ++ bs) = some (piece s, bs))
    (hfuel : (ss.flatMap encode).length < fuel) :
    piecesWithin fuel (ss.flatMap encode) = some (ss.map piece) := by
  induction ss generalizing fuel with
  | nil =>
      obtain ⟨fuel, rfl⟩ : ∃ k, fuel = k + 1 := ⟨fuel - 1, by simp at hfuel; omega⟩
      rfl
  | cons s ss ih =>
      obtain ⟨fuel, rfl⟩ : ∃ k, fuel = k + 1 := ⟨fuel - 1, by omega⟩
      have hfirst := hread s (.head _) (ss.flatMap encode)
      have hlt := readsection_lt hfirst
      rw [List.flatMap_cons] at hfuel ⊢
      have hne : encode s ++ ss.flatMap encode ≠ [] := List.ne_nil_of_length_pos (by omega)
      unfold piecesWithin
      rw [if_neg hne, hfirst]
      dsimp only
      rw [ih (fun s hs => hread s (.tail _ hs)) (by omega)]
      rfl

/-- One of the next `n` allocations is refused. -/
def Refuses (h : Heap) (n : Nat) : Prop := true ∈ h.refuse.take n

theorem refuses_succ {n : Nat} : Refuses h (n + 1) ↔ h.unwilling = true ∨ Refuses h.next n := by
  unfold Refuses Heap.unwilling Heap.next
  cases h.refuse with
  | nil => simp
  | cons b refuse => simp [eq_comm]

/-- The loop does with a block what `pieces` says. -/
theorem extractsections_spec (fuel k : Nat) (left : Left text sb shown bs) (hfuel : bs.length < fuel)
    (hk : bs.length < k) :
    match piecesWithin k bs with
    | none => ∃ h', extractsections fuel text u sb h = .ok (none, h')
    | some ps =>
        (Refuses h (ps.countP Piece.asks) → ∃ h', extractsections fuel text u sb h = .ok (none, h')) ∧
        (¬Refuses h (ps.countP Piece.asks) → ∃ text' h', extractsections fuel text u sb h =
            .ok (some (text', u + ps.countP Piece.isUnrepresentable), h') ∧
          TextShows text' (ps.foldl showPiece shown)) := by
  induction k generalizing fuel text sb shown bs u h with
  | zero => omega
  | succ k ih =>
      obtain ⟨fuel, rfl⟩ : ∃ m, fuel = m + 1 := ⟨fuel - 1, by omega⟩
      have hrem : sb.bytesremaining > 0 ↔ bs ≠ [] := by
        rw [left.fixed.bytesremaining, ← List.length_pos_iff]
        omega
      unfold piecesWithin extractsections
      by_cases hend : bs = []
      · have hstop : ¬sb.bytesremaining > 0 := by
          rw [hrem]
          exact not_not.2 hend
        rw [if_pos hend, if_neg hstop]
        refine ⟨fun hrefuses => ?_, fun _ => ⟨text, h, rfl, left.shows⟩⟩
        simp [Refuses] at hrefuses
      · rw [if_neg hend, if_pos (hrem.2 hend)]
        have hone := extractsection_spec (h := h) (u := u) left
        cases hread : readsection bs with
        | none =>
            rw [hread] at hone
            obtain ⟨h', hone⟩ := hone
            rw [bind_of_ok hone]
            exact ⟨h', rfl⟩
        | some r =>
            obtain ⟨piece, bs'⟩ := r
            have hlt := readsection_lt hread
            rw [hread] at hone
            dsimp only at hone ⊢
            split at hone
            · -- the room for this section is refused
              rename_i hun
              simp only [Bool.and_eq_true] at hun
              obtain ⟨h', hone⟩ := hone
              rw [bind_of_ok hone]
              cases hps : piecesWithin k bs' with
              | none => exact ⟨h', rfl⟩
              | some ps =>
                  refine ⟨fun _ => ⟨h', rfl⟩, fun hgrants => absurd ?_ hgrants⟩
                  dsimp only
                  rw [List.countP_cons_of_pos hun.1]
                  exact refuses_succ.2 (.inl hun.2)
            · rename_i hun
              obtain ⟨text', sb', hone, hleft⟩ := hone
              rw [bind_of_ok hone]
              dsimp only
              have hrest := ih fuel (h := if piece.asks then h.next else h)
                (u := u + if piece.isUnrepresentable then 1 else 0) hleft (by omega) (by omega)
              cases hps : piecesWithin k bs' with
              | none =>
                  rw [hps] at hrest
                  exact hrest
              | some ps =>
                  rw [hps] at hrest
                  dsimp only [Option.map_some] at hrest ⊢
                  have hrefuses : Refuses h ((piece :: ps).countP Piece.asks) ↔
                      Refuses (if piece.asks then h.next else h) (ps.countP Piece.asks) := by
                    cases hasks : piece.asks with
                    | false => simp [hasks]
                    | true =>
                        rw [hasks, Bool.true_and] at hun
                        rw [List.countP_cons_of_pos hasks, refuses_succ]
                        simp [hun]
                  rw [hrefuses, List.foldl_cons]
                  rw [List.countP_cons, Nat.add_comm (ps.countP _), ← Nat.add_assoc]
                  exact hrest

end

/-! ## Message blocks -/

/-- The sections behind the features; `none` is a block with an error. -/
def msgblock : Bytes → Option (List Piece)
  | a :: b :: bs =>
      if a = 0x05 ∧ b = 0x01 then
        let (featlen, bs) := takeword bs
        pieces (if featlen ≤ bs.length then bs.drop featlen else bs)
      else none
  | _ => none

/-- A block of such sections has the sections that were put into it. -/
theorem msgblock_flatMap {α : Type} {encode : α → Bytes} {piece : α → Piece} {ss : List α}
    {features : Bytes} (hfeatures : features.length < 65536)
    (hread : ∀ s ∈ ss, ∀ bs, readsection (encode s ++ bs) = some (piece s, bs)) :
    msgblock (0x05 :: 0x01 :: (bytePut16 features.length ++ (features ++ ss.flatMap encode))) =
      some (ss.map piece) := by
  have hfits : features.length ≤ (features ++ ss.flatMap encode).length := by simp
  simp only [msgblock, and_self, if_true, takeword_bytePut16 _ hfeatures, if_pos hfits, List.drop_left]
  exact piecesWithin_flatMap hread (Nat.lt_succ_self _)

/-- What the extractor answers to these sections, with memory for the text. -/
def msgtextof (ps : List Piece) : Int × Option CStr :=
  (if ps.countP Piece.isUnrepresentable = 0 then 0 else 1,
    (ps.foldl showPiece none).map fun shown => cstring shown.1)

/-- The extractor answers as the sections of the block say, or -1 without a text. -/
def Extracts (h : Heap) (block : Option (List Piece)) (r : Int × Option CStr) : Prop :=
  match block with
  | none => r = (-1, none)
  | some ps =>
      (Refuses h (ps.countP Piece.asks) → r = (-1, none)) ∧
        (¬Refuses h (ps.countP Piece.asks) → r = msgtextof ps)

/-- The extractor up to the string in the block: it hands over the block, and does not read it. -/
def extracttext (msgtlv : Tlv) : Mem (Int × Text) := do
  match ← Sbuf.init (msgtlv.value.map fun v => (⟨v.length, fun i => v.getD i 0⟩ : Block)) msgtlv.length with
  | none => pure (-1, none)
  | some sb => do
      let (a, sb) ← sb.get8
      if a ≠ 0x05 then pure (-1, none)
      else do
        let (b, sb) ← sb.get8
        if b ≠ 0x01 then pure (-1, none)
        else do
          let (featlen, sb) ← sb.get16
          let (_, sb) ← sb.advance featlen
          match ← fun h => extractsections (2 ^ 24 + h.refuse.length) none 0 sb h with
          | none => pure (-1, none)
          | some (text, unrepresentable) => pure (if unrepresentable = 0 then 0 else 1, text)

/-- What the extractor answers is what whoever reads the string sees. -/
theorem extractmsgtext_eq_map (msgtlv : Tlv) :
    extractmsgtext msgtlv = (fun r => (r.1, r.2.map textstring)) <$> extracttext msgtlv := by
  unfold extractmsgtext extracttext
  rw [map_bind]
  refine bind_congr fun sb => ?_
  cases sb with
  | none => rw [map_pure]; rfl
  | some sb =>
      dsimp only
      rw [map_bind]
      refine bind_congr fun ⟨a, sb⟩ => ?_
      dsimp only
      split
      · rw [map_pure]; rfl
      · rw [map_bind]
        refine bind_congr fun ⟨b, sb⟩ => ?_
        dsimp only
        split
        · rw [map_pure]; rfl
        · rw [map_bind]
          refine bind_congr fun ⟨featlen, sb⟩ => ?_
          dsimp only
          rw [map_bind]
          refine bind_congr fun ⟨_, sb⟩ => ?_
          dsimp only
          rw [map_bind]
          refine bind_congr fun r => ?_
          cases r with
          | none => rw [map_pure]; rfl
          | some r => rw [map_pure]

/-- The string is the one that the sections of the block build, or there is none and -1. -/
def ExtractsText (h : Heap) (block : Option (List Piece)) (r : Int × Text) : Prop :=
  match block with
  | none => r = (-1, none)
  | some ps =>
      (Refuses h (ps.countP Piece.asks) → r = (-1, none)) ∧
        (¬Refuses h (ps.countP Piece.asks) →
          r.1 = (if ps.countP Piece.isUnrepresentable = 0 then 0 else 1) ∧
            TextShows r.2 (ps.foldl showPiece none))

theorem bytes_of_list (v : Bytes) : (⟨v.length, fun i => v.getD i 0⟩ : Block).bytes 0 v.length = v := by
  apply List.ext_getElem
  · simp
  · intro i h₁ h₂
    rw [Block.getElem_bytes]
    simp [h₂]

/-- A message TLV with a value is extracted by its bytes alone. -/
theorem extracttext_spec {tlv : Tlv} (wf : tlv.Wf) (hv : tlv.value = some v) :
    ∃ r h', extracttext tlv h = .ok (r, h') ∧ ExtractsText h (msgblock v) r := by
  have hlen : v.length = tlv.length := by
    have hlen := wf.length_eq
    rwa [hv] at hlen
  have hlt := wf.length_lt
  obtain ⟨sb, hsb⟩ : ∃ sb : Sbuf, sb = ⟨false, false, ⟨v.length, fun i => v.getD i 0⟩, tlv.length, 0⟩ :=
    ⟨_, rfl⟩
  have hinit : Sbuf.init (tlv.value.map fun v => (⟨v.length, fun i => v.getD i 0⟩ : Block)) tlv.length h =
      .ok (some sb, h) := by
    rw [hv, hsb]
    rfl
  have hfixed : Fixed sb v := by
    rw [hsb]
    refine ⟨⟨Nat.le_of_eq hlen.symm, hlt, Nat.zero_le _⟩, rfl, ?_⟩
    simp only [Sbuf.rest, Nat.sub_zero, ← hlen]
    exact bytes_of_list v
  unfold extracttext
  rw [bind_of_ok hinit]
  dsimp only
  have hmark : ∀ c d : UInt8, c.toNat = d.toNat ↔ c = d := fun c d => UInt8.toNat_inj
  obtain _ | ⟨a, _ | ⟨b, bs⟩⟩ := v
  · rw [bind_of_ok hfixed.get8_nil]
    exact ⟨_, _, rfl, rfl⟩
  · obtain ⟨sb₁, hget₁, hfixed₁⟩ := hfixed.get8 (h := h)
    rw [bind_of_ok hget₁]
    dsimp only
    split
    · exact ⟨_, _, rfl, rfl⟩
    · rw [bind_of_ok hfixed₁.get8_nil]
      exact ⟨_, _, rfl, rfl⟩
  · obtain ⟨sb₁, hget₁, hfixed₁⟩ := hfixed.get8 (h := h)
    obtain ⟨sb₂, hget₂, hfixed₂⟩ := hfixed₁.get8 (h := h)
    rw [bind_of_ok hget₁]
    dsimp only
    -- the block starts with the marks 05 01
    by_cases hmarks : a = 0x05 ∧ b = 0x01
    · obtain ⟨sb₃, hget₃, hfixed₃⟩ := hfixed₂.get16 (h := h)
      obtain ⟨b', sb₄, hadvance, hfixed₄⟩ := hfixed₃.advance (n := (takeword bs).1) (h := h)
      have ha : ¬a.toNat ≠ 0x05 := not_not.2 ((hmark a 0x05).2 hmarks.1)
      have hb : ¬b.toNat ≠ 0x01 := not_not.2 ((hmark b 0x01).2 hmarks.2)
      have hblock : msgblock (a :: b :: bs) = pieces (if (takeword bs).1 ≤ (takeword bs).2.length then
          (takeword bs).2.drop (takeword bs).1 else (takeword bs).2) := if_pos hmarks
      have hshort : (if (takeword bs).1 ≤ (takeword bs).2.length then
          (takeword bs).2.drop (takeword bs).1 else (takeword bs).2).length < 65536 := by
        have hle := takeword_le bs
        simp only [List.length_cons] at hlen
        split
        · rw [List.length_drop]
          omega
        · omega
      rw [if_neg ha, bind_of_ok hget₂]
      dsimp only
      rw [if_neg hb, bind_of_ok hget₃]
      dsimp only
      rw [bind_of_ok hadvance, hblock]
      dsimp only
      -- every section takes four bytes at the least, so the fuel of the loop is enough
      have hloop := extractsections_spec (h := h) (u := 0) (2 ^ 24 + h.refuse.length) _
        (⟨trivial, hfixed₄⟩ : Left none sb₄ none _) (by omega) (Nat.lt_succ_self _)
      unfold pieces
      cases hps : piecesWithin (_ + 1) _ with
      | none =>
          rw [hps] at hloop
          obtain ⟨h', hloop⟩ := hloop
          rw [bind_of_ok (x := fun h => extractsections (2 ^ 24 + h.refuse.length) none 0 sb₄ h) hloop]
          exact ⟨_, _, rfl, rfl⟩
      | some ps =>
          rw [hps] at hloop
          by_cases hrefuses : Refuses h (ps.countP Piece.asks)
          · obtain ⟨h', hloop⟩ := hloop.1 hrefuses
            rw [bind_of_ok (x := fun h => extractsections (2 ^ 24 + h.refuse.length) none 0 sb₄ h) hloop]
            exact ⟨_, _, rfl, fun _ => rfl, fun hgrants => absurd hrefuses hgrants⟩
          · obtain ⟨text', h', hloop, hshows⟩ := hloop.2 hrefuses
            rw [bind_of_ok (x := fun h => extractsections (2 ^ 24 + h.refuse.length) none 0 sb₄ h) hloop]
            refine ⟨_, _, rfl, fun hrefuses' => absurd hrefuses' hrefuses, fun _ => ⟨?_, hshows⟩⟩
            dsimp only
            rw [Nat.zero_add]
    · have hnone : msgblock (a :: b :: bs) = none := if_neg hmarks
      rw [hnone]
      split
      · exact ⟨_, _, rfl, rfl⟩
      · rename_i ha
        rw [bind_of_ok hget₂]
        dsimp only
        split
        · exact ⟨_, _, rfl, rfl⟩
        · rename_i hb
          exact absurd ⟨(hmark a 0x05).1 (not_not.1 ha), (hmark b 0x01).1 (not_not.1 hb)⟩ hmarks

/-- Whoever reads a text sees what is shown of it. -/
theorem TextShows.textstring {text : Text} {shown : Option Shown} (shows : TextShows text shown) :
    text.map textstring = shown.map fun shown => cstring shown.1 := by
  match text, shown, shows with
  | none, none, _ => rfl
  | some (s, e), some shown, shows => exact congrArg some (Shows.textstring shows)

theorem extractmsgtext_spec {tlv : Tlv} (wf : tlv.Wf) (hv : tlv.value = some v) :
    ∃ r h', extractmsgtext tlv h = .ok (r, h') ∧ Extracts h (msgblock v) r := by
  obtain ⟨⟨code, text⟩, h', hr, hextracts⟩ := extracttext_spec (h := h) wf hv
  refine ⟨(code, text.map textstring), h', ?_, ?_⟩
  · rw [extractmsgtext_eq_map]
    exact Prog.map_ok.2 ⟨_, _, hr, rfl⟩
  · cases hblock : msgblock v with
    | none =>
        rw [hblock] at hextracts
        cases hextracts
        exact rfl
    | some ps =>
        rw [hblock] at hextracts
        refine ⟨fun hrefuses => ?_, fun hgrants => ?_⟩
        · cases hextracts.1 hrefuses
          rfl
        · obtain ⟨hcode, hshows⟩ := hextracts.2 hgrants
          unfold msgtextof
          rw [← hshows.textstring, ← hcode]

/-! ## Fresh memory -/

/-- The answer of the extractor is the same whatever fresh memory holds. -/
def Clean (tlv : Tlv) (refuse : List Bool) : Prop :=
  ∀ junk₁ junk₂ : Nat → Nat → UInt8,
    (extractmsgtext tlv ⟨refuse, junk₁⟩).map Prod.fst = (extractmsgtext tlv ⟨refuse, junk₂⟩).map Prod.fst

/-- Of a block, the extractor gives one answer only. -/
theorem Extracts.unique {block : Option (List Piece)} {h₁ h₂ : Heap} {r₁ r₂ : Int × Option CStr}
    (hrefuse : h₁.refuse = h₂.refuse) (h₁r : Extracts h₁ block r₁) (h₂r : Extracts h₂ block r₂) :
    r₁ = r₂ := by
  cases block with
  | none => exact Eq.trans h₁r (Eq.symm h₂r)
  | some ps =>
      have hsame : Refuses h₁ (ps.countP Piece.asks) ↔ Refuses h₂ (ps.countP Piece.asks) := by
        unfold Refuses
        rw [hrefuse]
      by_cases hrefuses : Refuses h₁ (ps.countP Piece.asks)
      · rw [h₁r.1 hrefuses, h₂r.1 (hsame.1 hrefuses)]
      · rw [h₁r.2 hrefuses, h₂r.2 (mt hsame.2 hrefuses)]

theorem clean_of_value {tlv : Tlv} (wf : tlv.Wf) (hv : tlv.value = some v) (refuse : List Bool) :
    Clean tlv refuse := by
  intro junk₁ junk₂
  obtain ⟨r₁, h₁, hr₁, hextracts₁⟩ := extractmsgtext_spec (h := ⟨refuse, junk₁⟩) wf hv
  obtain ⟨r₂, h₂, hr₂, hextracts₂⟩ := extractmsgtext_spec (h := ⟨refuse, junk₂⟩) wf hv
  rw [hr₁, hr₂, hextracts₁.unique rfl hextracts₂]
  rfl

/-- A fresh block that looks like a message block with features up to its end. -/
def blocklike (_ i : Nat) : UInt8 := [0x05, 0x01, 0x01, 0xfc].getD i 0

theorem extractmsgtext_empty (type : Nat) (refuse : List Bool) (junk : Nat → Nat → UInt8) :
    extractmsgtext ⟨type, 0, none⟩ ⟨true :: refuse, junk⟩ = .ok ((-1, none), ⟨refuse, junk⟩) := rfl

theorem extractmsgtext_blocklike (type : Nat) {refuse : List Bool} (hgrant : refuse.head? ≠ some true) :
    ∃ h', extractmsgtext ⟨type, 0, none⟩ ⟨refuse, blocklike⟩ = .ok ((0, none), h') := by
  have hwilling : (⟨refuse, blocklike⟩ : Heap).unwilling = false := by
    simpa [Heap.unwilling] using hgrant
  generalize hheap : (⟨refuse, blocklike⟩ : Heap).next = h'
  have hinit : Sbuf.init ((none : Option Bytes).map fun v => (⟨v.length, fun i => v.getD i 0⟩ : Block)) 0
      ⟨refuse, blocklike⟩ = .ok (some ⟨true, true, ⟨512, blocklike 512⟩, 512, 0⟩, h') := by
    simp only [Option.map_none, Sbuf.init, if_true]
    rw [bind_of_ok (Naf.malloc_granted hwilling), hheap]
    rfl
  have hread : ∀ pos : Nat, ∃ sb : Sbuf, sb = ⟨true, true, ⟨512, blocklike 512⟩, 512, pos⟩ := fun _ => ⟨_, rfl⟩
  obtain ⟨sb₁, hsb₁⟩ := hread 1
  obtain ⟨sb₂, hsb₂⟩ := hread 2
  obtain ⟨sb₃, hsb₃⟩ := hread 4
  obtain ⟨sb₄, hsb₄⟩ := hread 512
  have hfirst : Sbuf.get8 ⟨true, true, ⟨512, blocklike 512⟩, 512, 0⟩ h' = .ok ((0x05, sb₁), h') := by
    rw [hsb₁]
    rfl
  have hsecond : sb₁.get8 h' = .ok ((0x01, sb₂), h') := by
    rw [hsb₁, hsb₂]
    rfl
  have hlength : sb₂.get16 h' = .ok ((508, sb₃), h') := by
    rw [hsb₂, hsb₃]
    rfl
  have hfeatures : sb₃.advance 508 h' = .ok ((true, sb₄), h') := by
    rw [hsb₃, hsb₄]
    rfl
  -- the features take all that is left
  obtain ⟨fuel, hfuel⟩ : ∃ fuel, 2 ^ 24 + h'.refuse.length = fuel + 1 :=
    ⟨2 ^ 24 + h'.refuse.length - 1, by omega⟩
  have hend : extractsections (2 ^ 24 + h'.refuse.length) none 0 sb₄ h' = .ok (some (none, 0), h') := by
    rw [hsb₄, hfuel]
    rfl
  refine ⟨h', ?_⟩
  unfold extractmsgtext
  rw [bind_of_ok hinit]
  dsimp only
  rw [bind_of_ok hfirst]
  dsimp only
  rw [if_neg (by decide), bind_of_ok hsecond]
  dsimp only
  rw [if_neg (by decide), bind_of_ok hlength]
  dsimp only
  rw [bind_of_ok hfeatures]
  dsimp only
  rw [bind_of_ok (x := fun h => extractsections (2 ^ 24 + h.refuse.length) none 0 sb₄ h) hend]
  rfl

theorem not_clean_of_granted {refuse : List Bool} (type : Nat) (hgrant : refuse.head? ≠ some true) :
    ¬Clean ⟨type, 0, none⟩ refuse := by
  intro hclean
  have hdiff := hclean (fun _ _ => 0) blocklike
  have hzero : (extractmsgtext ⟨type, 0, none⟩ ⟨refuse, fun _ _ => 0⟩).map Prod.fst = .ok (-1, none) := by
    match refuse, hgrant with
    | [], _ => rfl
    | false :: refuse, _ => rfl
    | true :: refuse, hgrant => exact absurd rfl hgrant
  obtain ⟨h', hlike⟩ := extractmsgtext_blocklike type hgrant
  rw [hzero, hlike] at hdiff
  cases hdiff

/-- The answer of the extractor does not depend on fresh memory, unless the TLV has no value
and a buffer is allocated in place of one. -/
theorem clean_iff {tlv : Tlv} (wf : tlv.Wf) (refuse : List Bool) :
    Clean tlv refuse ↔ tlv.length ≠ 0 ∨ refuse.head? = some true := by
  obtain ⟨type, length, value⟩ := tlv
  constructor
  · intro hclean
    by_cases hlen : length = 0
    · right
      by_contra hgrant
      subst hlen
      obtain rfl : value = none := wf.value
      exact not_clean_of_granted type hgrant hclean
    · exact .inl hlen
  · rintro (hlen | hrefused)
    · exact clean_of_value wf (wf.value.trans (if_neg hlen)) refuse
    · cases value with
      | some v => exact clean_of_value wf rfl refuse
      | none =>
          obtain ⟨refuse, rfl⟩ : ∃ rest, refuse = true :: rest := by
            cases refuse with
            | nil => cases hrefused
            | cons b rest => exact ⟨rest, by rw [Option.some.inj hrefused]⟩
          have hzero : length = 0 := (wf.length_eq).symm
          subst hzero
          intro junk₁ junk₂
          rw [extractmsgtext_empty, extractmsgtext_empty]
          rfl

/-- A block with one section that is cut off. -/
theorem clean_cut : Clean ⟨0x0002, 13, some [0x05, 0x01, 0, 0, 1, 1, 0, 8, 0, 0, 0, 0, 65]⟩ [] ↔
    (13 : Nat) ≠ 0 ∨ ([] : List Bool).head? = some true :=
  clean_iff ⟨by decide, by decide, rfl, rfl⟩ []

/-- Without a value the answer is up to what the memory held. -/
theorem not_clean_none : ¬Clean ⟨0x0002, 0, none⟩ [] := not_clean_of_granted 0x0002 (by simp)

end Timps.Oscar
