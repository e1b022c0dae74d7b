-- SUMMARY: Blocks of sections of 8-bit characters: their text is what the sections say, and the block made of a text is one.
import Timps.Oscar.Transit

/-!
# Sections of 8-bit characters

The first encoding word of such a section is 0 or 3, and its characters go into the text
as they are, NULs included. A text that the gateway sends is a block with one of them.
-/

namespace Timps.Oscar

open Naf (Block Heap Tlv bytePut16 cstring cstring_self)

/-- A section: its two encoding words and its characters. -/
structure Narrow where
  encoding : Nat
  subset : Nat
  text : Bytes

/-- The numbers fit the words they are written in, and the encoding is one of 8 bits. -/
structure Narrow.Ok (s : Narrow) : Prop where
  encoding : s.encoding = 0x0000 ∨ s.encoding = 0x0003
  length_lt : 4 + s.text.length < 65536

def encodenarrow (s : Narrow) : Bytes :=
  [0x01, 0x01] ++ bytePut16 (4 + s.text.length) ++ bytePut16 s.encoding ++ bytePut16 s.subset ++ s.text

def narrowblock (features : Bytes) (ss : List Narrow) : Bytes :=
  [0x05, 0x01] ++ bytePut16 features.length ++ features ++ ss.flatMap encodenarrow

/-- The message TLV with this block. -/
def narrowtlv (type : Nat) (features : Bytes) (ss : List Narrow) : Tlv :=
  ⟨type, (narrowblock features ss).length, some (narrowblock features ss)⟩

/-- What such a section does to the text: it adds its characters. -/
def narrowpiece (s : Narrow) : Piece := .chars s.text.length (some s.text)

section

variable {features : Bytes} {ss : List Narrow} {s : Narrow} {type : Nat} {h : Heap}

theorem readsection_encodenarrow (ok : s.Ok) (bs : Bytes) :
    readsection (encodenarrow s ++ bs) = some (narrowpiece s, bs) := by
  have hsplit : encodenarrow s ++ bs = 0x01 :: 0x01 :: (bytePut16 (4 + s.text.length) ++
      (bytePut16 s.encoding ++ (bytePut16 s.subset ++ (s.text ++ bs)))) := by
    simp [encodenarrow]
  have hlong : ¬4 + s.text.length < 4 := by omega
  have hbody : 4 + s.text.length - 4 = s.text.length := by omega
  have hencoding : s.encoding < 65536 := by
    rcases ok.encoding with h | h <;> omega
  rw [hsplit]
  simp only [readsection, and_self, if_true, takeword_bytePut16 _ ok.length_lt,
    takeword_bytePut16 _ hencoding, if_neg hlong, hbody]
  have hthird : (takeword (bytePut16 s.subset ++ (s.text ++ bs))).2 = s.text ++ bs := rfl
  rw [hthird]
  unfold readtext
  rw [if_pos ok.encoding, if_pos (by simp), List.take_left, List.drop_left]
  rfl

theorem msgblock_narrowblock (hfeatures : features.length < 65536) (ok : ∀ s ∈ ss, s.Ok) :
    msgblock (narrowblock features ss) = some (ss.map narrowpiece) := by
  have hsplit : narrowblock features ss =
      0x05 :: 0x01 :: (bytePut16 features.length ++ (features ++ ss.flatMap encodenarrow)) := by
    simp [narrowblock]
  rw [hsplit]
  exact msgblock_flatMap hfeatures fun s hs => readsection_encodenarrow (ok s hs)

/-- Behind the text so far come the characters of the sections, in their order. -/
theorem foldl_showPiece_narrow (ss : List Narrow) (t : Bytes) :
    (ss.map narrowpiece).foldl showPiece (some (t, true)) = some (t ++ ss.flatMap Narrow.text, true) := by
  induction ss generalizing t with
  | nil => simp
  | cons s ss ih =>
      simp only [List.map_cons, List.foldl_cons, narrowpiece, showPiece, Option.getD_some, Shown.add,
        if_true, Option.isSome_some]
      rw [ih]
      simp only [List.flatMap_cons, List.append_assoc]

/-- The first section makes the text. -/
theorem foldl_showPiece_first (hne : ss ≠ []) :
    (ss.map narrowpiece).foldl showPiece none = some (ss.flatMap Narrow.text, true) := by
  cases ss with
  | nil => exact absurd rfl hne
  | cons s ss =>
      simp only [List.map_cons, List.foldl_cons, narrowpiece, showPiece, Option.getD_none, Shown.add,
        if_true, List.nil_append, Option.getD_some, Option.isSome_some]
      exact foldl_showPiece_narrow ss s.text

theorem narrowtlv_wf (htype : type < 65536) (hlen : (narrowblock features ss).length < 65536) :
    (narrowtlv type features ss).Wf := by
  have hne : (narrowblock features ss).length ≠ 0 := by simp [narrowblock]
  exact ⟨htype, hlen, rfl, (if_neg hne).symm⟩

/-- The string in the block is the text, with a terminator behind it that is in the block too. -/
structure Holds (s : Block) (e : Nat) (text : Bytes) : Prop where
  length : e = text.length
  room : e < s.size
  bytes : s.bytes 0 e = text
  nul : s.byte e = 0

/-- What is seen whole is held. -/
theorem Shows.holds {s : Block} {e : Nat} {text : Bytes} (shows : Shows s e (text, true)) :
    Holds s e text := by
  have hend : text.length = e := shows.whole.1 rfl
  refine ⟨hend.symm, shows.room, ?_, ?_⟩
  · rw [← hend]
    exact shows.bytes
  · rw [← hend]
    exact shows.nul

theorem extracttext_narrow (hwilling : h.refuse = []) (htype : type < 65536)
    (hlen : (narrowblock features ss).length < 65536) (ok : ∀ s ∈ ss, s.Ok) (hne : ss ≠ []) :
    ∃ s e, extracttext (narrowtlv type features ss) h = .ok ((0, some (s, e)), h) ∧
      Shows s e (ss.flatMap Narrow.text, true) := by
  have hfeatures : features.length < 65536 := by
    simp only [narrowblock, List.length_append] at hlen
    omega
  obtain ⟨⟨code, text⟩, h', hr, hextracts⟩ :=
    extracttext_spec (h := h) (narrowtlv_wf htype hlen) rfl
  obtain rfl := (extracttext_plain _).steady hwilling hr
  rw [msgblock_narrowblock hfeatures ok] at hextracts
  have hgranted : ¬Refuses h' ((ss.map narrowpiece).countP Piece.asks) := by
    simp [Refuses, hwilling]
  have hnone : (ss.map narrowpiece).countP Piece.isUnrepresentable = 0 := by
    rw [List.countP_map, List.countP_eq_zero]
    exact fun _ _ => Bool.false_ne_true
  obtain ⟨hcode, hshows⟩ := hextracts.2 hgranted
  rw [foldl_showPiece_first hne] at hshows
  obtain rfl : code = 0 := hcode.trans (if_pos hnone)
  cases text with
  | none => exact hshows.elim
  | some text => exact ⟨text.1, text.2, hr, hshows⟩

/-! ## The block of a text -/

/-- The block that is made of a text has the text as its only section. -/
theorem blockpieces_eq_narrowblock {text : CStr} (hshort : text.length ≤ 65519) :
    (blockpieces text).flatten = narrowblock [0x01, 0x01, 0x01, 0x02] [⟨0x0000, 0x0000, text⟩] := by
  have hmod : (text.length + 4) % 65536 = 4 + text.length := by omega
  unfold blockpieces
  rw [hmod]
  simp [narrowblock, encodenarrow, bytePut16, Naf.bytePut8]

theorem texttlv_eq_narrowtlv (type : Nat) {text : CStr} (hshort : text.length ≤ 65519) :
    texttlv type text = narrowtlv type [0x01, 0x01, 0x01, 0x02] [⟨0x0000, 0x0000, text⟩] := by
  have hblock := blockpieces_eq_narrowblock hshort
  unfold texttlv narrowtlv
  rw [hblock, ← length_blockpieces, hblock]

/-- The text of a block is what its sections say, with a terminator in the memory that was
made for it, and a text comes out of the block that is made of it. -/
theorem extracts_sections (hwilling : h.refuse = []) (htype : type < 65536)
    (hlen : (narrowblock features ss).length < 65536) (ok : ∀ s ∈ ss, s.Ok) (hne : ss ≠ []) :
    (∃ s e, extracttext (narrowtlv type features ss) h = .ok ((0, some (s, e)), h) ∧
      Holds s e (ss.flatMap Narrow.text)) ∧
    (∀ tlv, extractmsgtext tlv = (fun r => (r.1, r.2.map textstring)) <$> extracttext tlv) ∧
    ∀ text : CStr, text.length ≤ 65519 → 0 ∉ text →
      ∃ tlv, addoscarmsgblock [] type (some text) h = .ok ([tlv], h) ∧
        extractmsgtext tlv h = .ok ((0, some text), h) := by
  obtain ⟨s, e, hextract, hshows⟩ := extracttext_narrow hwilling htype hlen ok hne
  refine ⟨⟨s, e, hextract, hshows.holds⟩, extractmsgtext_eq_map, ?_⟩
  intro text hshort hnonzero
  refine ⟨texttlv type text, addoscarmsgblock_eq [] type hwilling (by omega), ?_⟩
  have hone : ∀ s ∈ [(⟨0x0000, 0x0000, text⟩ : Narrow)], s.Ok := by
    intro s hs
    rw [List.mem_singleton.1 hs]
    exact ⟨.inl rfl, show 4 + text.length < 65536 by omega⟩
  have hblock : (narrowblock [0x01, 0x01, 0x01, 0x02] [⟨0x0000, 0x0000, text⟩]).length < 65536 := by
    have hlong := length_blockpieces text
    rw [blockpieces_eq_narrowblock hshort] at hlong
    omega
  obtain ⟨s, e, hextract, hshows⟩ :=
    extracttext_narrow hwilling htype hblock hone (List.cons_ne_nil _ _)
  have htext : [(⟨0x0000, 0x0000, text⟩ : Narrow)].flatMap Narrow.text = text := by simp
  rw [htext] at hshows
  rw [texttlv_eq_narrowtlv type hshort, extractmsgtext_eq_map]
  refine Prog.map_ok.2 ⟨_, _, hextract, ?_⟩
  dsimp only [Option.map_some]
  rw [hshows.textstring, cstring_self hnonzero]

end

/-- Two sections, with a NUL in the second. -/
def hello : List Narrow := [⟨0x0000, 0x0000, [72, 105]⟩, ⟨0x0003, 0x0000, [0, 33]⟩]

theorem hello_ok : ∀ s ∈ hello, s.Ok := by
  intro s hs
  simp only [hello, List.mem_cons, List.not_mem_nil, or_false] at hs
  rcases hs with rfl | rfl
  · exact ⟨.inl rfl, by decide⟩
  · exact ⟨.inr rfl, by decide⟩

theorem extracts_sections_hello :
    (∃ s e, extracttext (narrowtlv 0x0002 [] hello) Heap.zeroed = .ok ((0, some (s, e)), Heap.zeroed) ∧
      Holds s e (hello.flatMap Narrow.text)) ∧
    (∀ tlv, extractmsgtext tlv = (fun r => (r.1, r.2.map textstring)) <$> extracttext tlv) ∧
    ∀ text : CStr, text.length ≤ 65519 → 0 ∉ text →
      ∃ tlv, addoscarmsgblock [] 0x0002 (some text) Heap.zeroed = .ok ([tlv], Heap.zeroed) ∧
        extractmsgtext tlv Heap.zeroed = .ok ((0, some text), Heap.zeroed) :=
  extracts_sections rfl (by decide) (by decide) hello_ok (List.cons_ne_nil _ _)

/-- Of a block without sections there is no text, and without memory there is an error. -/
theorem extracts_nothing :
    extractmsgtext (narrowtlv 0x0002 [] []) Heap.zeroed = .ok ((0, none), Heap.zeroed) ∧
    ∃ h', extractmsgtext (narrowtlv 0x0002 [] hello) ⟨[true], fun _ _ => 0⟩ = .ok ((-1, none), h') :=
  ⟨rfl, _, rfl⟩

end Timps.Oscar
