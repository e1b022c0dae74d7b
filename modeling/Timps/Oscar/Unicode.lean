-- SUMMARY: Sections of 16-bit units: the text that is made of them, and when it still means the same units.
import Timps.Base.Charref
import Timps.Oscar.Text

/-!
# Sections of 16-bit units

Units below 128 go into the text as they are, all others as `&#hhhh;` with four digits
that are hexadecimal. A reader takes them for decimal ones, or for no reference at all.
-/

namespace Timps.Oscar

open Charref (Breaks IsDigit decode decodeFrom number decode_append decode_cons decodeFrom_literal
  decodeFrom_reference)
open Naf (Heap Tlv byteGet16 bytePut16 cstring cstring_append)
open Naf.Tlv (word)

/-! ## Blocks of such sections -/

/-- A section: its second encoding word, and its units. -/
abbrev Wide := Nat × List Nat

def encodeunits (us : List Nat) : Bytes := us.flatMap bytePut16

def encodewide (s : Wide) : Bytes :=
  [0x01, 0x01] ++ bytePut16 (4 + 2 * s.2.length) ++ bytePut16 0x0002 ++ bytePut16 s.1 ++ encodeunits s.2

def encodeblock (features : Bytes) (ss : List Wide) : Bytes :=
  [0x05, 0x01] ++ bytePut16 features.length ++ features ++ ss.flatMap encodewide

/-- What such a section does to the text: it adds the characters of its units. -/
def widepiece (s : Wide) : Piece :=
  .chars (s.2.flatMap unitchars).length (some (s.2.flatMap unitchars))

/-- The numbers fit the words they are written in. -/
structure Wide.Ok (s : Wide) : Prop where
  length_lt : 4 + 2 * s.2.length < 65536
  unit_lt : ∀ u ∈ s.2, u < 65536

theorem length_encodeunits (us : List Nat) : (encodeunits us).length = 2 * us.length := by
  induction us with
  | nil => rfl
  | cons u us ih =>
      simp only [encodeunits, List.flatMap_cons, List.length_append, Naf.length_bytePut16,
        List.length_cons] at ih ⊢
      omega

theorem units_encodeunits {us : List Nat} (hlt : ∀ u ∈ us, u < 65536) :
    units (encodeunits us) = us := by
  induction us with
  | nil => rfl
  | cons u us ih =>
      have hu := Naf.byteGet16_bytePut16 (hlt u (.head _))
      have hus := ih fun u hu => hlt u (.tail _ hu)
      simp only [encodeunits, List.flatMap_cons, bytePut16, List.cons_append, List.nil_append,
        units] at hus ⊢
      rw [hu, hus]

/-- A section of units is read as the characters of its units. -/
theorem readsection_encodewide {s : Wide} (ok : s.Ok) (bs : Bytes) :
    readsection (encodewide s ++ bs) =
      some (widepiece s, bs) := by
  have hlen := length_encodeunits s.2
  have hsplit : encodewide s ++ bs = 0x01 :: 0x01 :: (bytePut16 (4 + 2 * s.2.length) ++
      (bytePut16 0x0002 ++ (bytePut16 s.1 ++ (encodeunits s.2 ++ bs)))) := by
    simp [encodewide]
  have hlong : ¬4 + 2 * s.2.length < 4 := by omega
  have hbody : 4 + 2 * s.2.length - 4 = 2 * s.2.length := by omega
  rw [hsplit]
  simp only [readsection, and_self, if_true, takeword_bytePut16 _ ok.length_lt,
    takeword_bytePut16 _ (show 0x0002 < 65536 by decide), if_neg hlong, hbody]
  have hthird : (takeword (bytePut16 s.1 ++ (encodeunits s.2 ++ bs))).2 = encodeunits s.2 ++ bs := rfl
  rw [hthird]
  unfold readtext
  rw [if_neg (by decide), if_pos ⟨rfl, by omega⟩, if_pos (by rw [List.length_append]; omega),
    List.take_left' hlen, List.drop_left' hlen, units_encodeunits ok.unit_lt]
  rfl

/-- Such a block has the sections that were put into it. -/
theorem msgblock_encodeblock {features : Bytes} {ss : List Wide} (hfeatures : features.length < 65536)
    (ok : ∀ s ∈ ss, s.Ok) : msgblock (encodeblock features ss) =
      some (ss.map widepiece) := by
  have hsplit : encodeblock features ss =
      0x05 :: 0x01 :: (bytePut16 features.length ++ (features ++ ss.flatMap encodewide)) := by
    simp [encodeblock]
  rw [hsplit]
  exact msgblock_flatMap hfeatures fun s hs => readsection_encodewide (ok s hs)

/-- The text of the sections is the characters of all their units. -/
theorem foldl_showPiece_wide (ss : List Wide) (t : Bytes) :
    (ss.map widepiece).foldl
      showPiece (some (t, true)) = some (t ++ (ss.flatMap (·.2)).flatMap unitchars, true) := by
  induction ss generalizing t with
  | nil => simp
  | cons s ss ih =>
      simp only [List.map_cons, List.foldl_cons, widepiece, showPiece, Option.getD_some, Shown.add,
        if_true, Option.isSome_some]
      rw [ih]
      simp only [List.flatMap_cons, List.flatMap_append, List.append_assoc]

/-! ## What the text means -/

/-- Bytes as code units. -/
def codeunits (text : Bytes) : List Nat := text.map UInt8.toNat

theorem toNat_hexdigit {n : Nat} (hn : n < 16) :
    (hexdigit n).toNat = if n < 10 then 48 + n else 87 + n := by
  unfold hexdigit
  split
  · rw [UInt8.toNat_ofNat']
    omega
  · rw [UInt8.toNat_ofNat']
    omega

/-- The four digits of an entity. -/
def hexdigits (c : Nat) : List Nat :=
  [c / 4096 % 16, c / 256 % 16, c / 16 % 16, c % 16].map fun n => (hexdigit n).toNat

theorem codeunits_entity (c : Nat) : codeunits (entity c) = 38 :: 35 :: (hexdigits c ++ [59]) := rfl

theorem mem_hexdigits {c d : Nat} (hd : d ∈ hexdigits c) : IsDigit d ∨ 97 ≤ d ∧ d ≤ 102 := by
  obtain ⟨n, hn, rfl⟩ := List.mem_map.1 hd
  have hlt : n < 16 := by
    simp only [List.mem_cons, List.not_mem_nil, or_false] at hn
    omega
  rw [toNat_hexdigit hlt]
  unfold IsDigit
  split <;> omega

/-- Hexadecimal digits that are decimal ones denote less as those. -/
theorem number_hexdigits {c : Nat} (hwide : 128 ≤ c) (hlt : c < 65536)
    (hdigits : ∀ d ∈ hexdigits c, IsDigit d) : number (hexdigits c) ≠ c := by
  have hdigit : ∀ n, n < 16 → IsDigit (hexdigit n).toNat → (hexdigit n).toNat = 48 + n ∧ n < 10 := by
    intro n hn hd
    rw [toNat_hexdigit hn] at hd ⊢
    unfold IsDigit at hd
    split at hd
    · rename_i h
      rw [if_pos h]
      exact ⟨rfl, h⟩
    · omega
  have h₁ := hdigit (c / 4096 % 16) (Nat.mod_lt _ (by decide)) (hdigits _ (by simp [hexdigits]))
  have h₂ := hdigit (c / 256 % 16) (Nat.mod_lt _ (by decide)) (hdigits _ (by simp [hexdigits]))
  have h₃ := hdigit (c / 16 % 16) (Nat.mod_lt _ (by decide)) (hdigits _ (by simp [hexdigits]))
  have h₄ := hdigit (c % 16) (Nat.mod_lt _ (by decide)) (hdigits _ (by simp [hexdigits]))
  have hsum : c = 4096 * (c / 4096 % 16) + 256 * (c / 256 % 16) + 16 * (c / 16 % 16) + c % 16 := by
    omega
  simp only [hexdigits, List.map_cons, List.map_nil, number, List.foldl_cons, List.foldl_nil, h₁.1,
    h₂.1, h₃.1, h₄.1, Nat.add_sub_cancel_left]
  generalize c / 4096 % 16 = n₁, c / 256 % 16 = n₂, c / 16 % 16 = n₃, c % 16 = n₄ at *
  omega

/-- An entity does not stand for its unit. -/
theorem decode_entity {c : Nat} (hwide : 128 ≤ c) (hlt : c < 65536) (cs : List Nat) :
    ∃ n rest, decode (codeunits (entity c) ++ cs) = n :: rest ∧ n ≠ c := by
  have hstart : decode (codeunits (entity c) ++ cs) = decodeFrom [38, 35] (hexdigits c ++ 59 :: cs) := by
    rw [codeunits_entity]
    simp [decode, decodeFrom]
  rw [hstart]
  by_cases hdigits : ∀ d ∈ hexdigits c, IsDigit d
  · have hlen : (hexdigits c).length = 4 := rfl
    rw [decodeFrom_reference cs (Nat.le_refl _) (by rw [hlen]; decide) hdigits]
    exact ⟨_, _, rfl, number_hexdigits hwide hlt hdigits⟩
  · -- the first letter ends what looked like a reference
    obtain ⟨ds, d, rest, hsplit, hds, hd⟩ := Charref.exists_first hdigits
    have hletter : 97 ≤ d ∧ d ≤ 102 :=
      (mem_hexdigits (c := c) (by rw [hsplit]; simp)).resolve_left hd
    rw [hsplit, List.append_assoc, List.cons_append,
      decodeFrom_literal _ (Nat.le_refl _) hds ⟨by omega, by omega, hd⟩ (by omega)]
    exact ⟨38, _, rfl, by omega⟩

/-- A unit that its text stands for. -/
def Plainunit (u : Nat) : Prop := 0 < u ∧ u < 128

theorem entity_ne_zero {c : Nat} : ∀ b ∈ entity c, b ≠ 0 := by
  have hdigit : ∀ n, n < 16 → hexdigit n ≠ 0 := by decide
  intro b hb
  simp only [entity, List.mem_cons, List.not_mem_nil, or_false] at hb
  rcases hb with rfl | rfl | rfl | rfl | rfl | rfl | rfl
  · decide
  · decide
  · exact hdigit _ (Nat.mod_lt _ (by decide))
  · exact hdigit _ (Nat.mod_lt _ (by decide))
  · exact hdigit _ (Nat.mod_lt _ (by decide))
  · exact hdigit _ (Nat.mod_lt _ (by decide))
  · decide

/-- Plain units go into the text as they are. -/
theorem flatMap_unitchars {us : List Nat} (hplain : ∀ u ∈ us, Plainunit u) :
    us.flatMap unitchars = us.map UInt8.ofNat ∧ (∀ b ∈ us.flatMap unitchars, b ≠ 0) ∧
      codeunits (us.flatMap unitchars) = us := by
  have hchars : us.flatMap unitchars = us.map UInt8.ofNat := by
    rw [List.map_eq_flatMap]
    exact List.flatMap_congr fun u hu => if_pos (hplain u hu).2
  have hback : ∀ u ∈ us, (UInt8.ofNat u).toNat = u := fun u hu => by
    have hlt := (hplain u hu).2
    rw [UInt8.toNat_ofNat']
    omega
  refine ⟨hchars, ?_, ?_⟩
  · rw [hchars]
    intro b hb
    obtain ⟨u, hu, rfl⟩ := List.mem_map.1 hb
    intro hzero
    have hpos := (hplain u hu).1
    rw [← hback u hu, hzero] at hpos
    exact absurd hpos (by decide)
  · rw [hchars, codeunits, List.map_map]
    exact (List.map_congr_left hback).trans (List.map_id us)

/-- The text of the units means the same when they are all plain. -/
theorem decode_text_iff {us : List Nat} (hlt : ∀ u ∈ us, u < 65536) :
    decode (codeunits (cstring (us.flatMap unitchars))) = decode us ↔ ∀ u ∈ us, Plainunit u := by
  constructor
  · intro hsame
    by_contra hplain
    -- up to the first unit that is not plain the two are the same
    obtain ⟨ds, c, rest, rfl, hds, hc⟩ := Charref.exists_first hplain
    obtain ⟨-, hnonzero, hunits⟩ := flatMap_unitchars hds
    have hclt : c < 65536 := hlt c (by simp)
    have hbreaks : Breaks c := by
      unfold Plainunit at hc
      unfold Breaks IsDigit
      omega
    have hamp : c ≠ 38 := by
      unfold Plainunit at hc
      omega
    rw [decode_append ds rest hbreaks, decode_cons rest hbreaks hamp, List.flatMap_append,
      List.flatMap_cons, cstring_append hnonzero] at hsame
    by_cases hzero : c = 0
    · subst hzero
      have hend : cstring (unitchars 0 ++ rest.flatMap unitchars) = [] := rfl
      rw [hend, List.append_nil, hunits] at hsame
      have hlen := congrArg List.length hsame
      simp at hlen
    · have hwide : 128 ≤ c := by
        unfold Plainunit at hc
        omega
      have hchars : unitchars c = entity c := if_neg (by omega)
      rw [hchars, cstring_append entity_ne_zero] at hsame
      generalize cstring (rest.flatMap unitchars) = tail at hsame
      have hmap : codeunits (ds.flatMap unitchars ++ (entity c ++ tail)) =
          ds ++ (codeunits (entity c) ++ codeunits tail) := by
        rw [codeunits, List.map_append, List.map_append]
        exact congrArg (· ++ _) hunits
      obtain ⟨n, rest', hentity, hne⟩ := decode_entity hwide hclt (codeunits tail)
      have hstart : decode (ds ++ (codeunits (entity c) ++ codeunits tail)) =
          decode ds ++ decode (codeunits (entity c) ++ codeunits tail) := by
        rw [codeunits_entity]
        exact decode_append ds _ ⟨by decide, by decide, by decide⟩
      rw [hmap, hstart, hentity, List.append_cancel_left_eq] at hsame
      exact hne (List.cons.inj hsame).1
  · intro hplain
    obtain ⟨-, hnonzero, hunits⟩ := flatMap_unitchars hplain
    have hwhole : cstring (us.flatMap unitchars) = us.flatMap unitchars := by
      have happ := cstring_append (r := []) hnonzero
      simpa [cstring] using happ
    rw [hwhole, hunits]

/-! ## The extractor -/

/-- The extractor gives a text that means what the sections mean. No text is the empty one. -/
def KeepsMeaning (tlv : Tlv) (ss : List Wide) (h : Heap) : Prop :=
  ∃ r h', extractmsgtext tlv h = .ok (r, h') ∧ r.1 = 0 ∧
    decode (codeunits (r.2.getD [])) = decode (ss.flatMap (·.2))

theorem msgtextof_wide (ss : List Wide) :
    (msgtextof (ss.map widepiece)).1 = 0 ∧
    (msgtextof (ss.map widepiece)).2.getD [] = cstring ((ss.flatMap (·.2)).flatMap unitchars) := by
  constructor
  · have hnone : (ss.map widepiece).countP Piece.isUnrepresentable = 0 := by
      rw [List.countP_map, List.countP_eq_zero]
      exact fun _ _ => Bool.false_ne_true
    exact if_pos hnone
  · cases ss with
    | nil => rfl
    | cons s ss =>
        have hfold := foldl_showPiece_wide ss (s.2.flatMap unitchars)
        simp only [msgtextof, List.map_cons, List.foldl_cons, widepiece, showPiece, Option.getD_none, Shown.add,
          if_true, List.nil_append, Option.getD_some, Option.isSome_some]
        rw [hfold]
        simp only [Option.map_some, Option.getD_some,
          List.flatMap_cons, List.flatMap_append]

/-- Sections of 16-bit units keep their meaning when all units are ASCII and none is NUL, and
memory is found for each of them. -/
theorem keepsMeaning_iff {type : Nat} {features : Bytes} {ss : List Wide} {h : Heap}
    (htype : type < 65536) (hlen : (encodeblock features ss).length < 65536) (ok : ∀ s ∈ ss, s.Ok) :
    KeepsMeaning ⟨type, (encodeblock features ss).length, some (encodeblock features ss)⟩ ss h ↔
      ¬Refuses h ss.length ∧ ∀ s ∈ ss, ∀ u ∈ s.2, Plainunit u := by
  have hne : (encodeblock features ss).length ≠ 0 := by simp [encodeblock]
  have wf : Tlv.Wf ⟨type, (encodeblock features ss).length, some (encodeblock features ss)⟩ :=
    ⟨htype, hlen, rfl, (if_neg hne).symm⟩
  have hfeatures : features.length < 65536 := by
    simp only [encodeblock, List.length_append] at hlen
    omega
  obtain ⟨r, h', hr, hextracts⟩ := extractmsgtext_spec (h := h) wf rfl
  rw [msgblock_encodeblock hfeatures ok] at hextracts
  -- every section is text, so each asks for memory once
  have hasks : (ss.map widepiece).countP Piece.asks = ss.length := by
    rw [List.countP_map]
    exact List.countP_eq_length.2 fun _ _ => rfl
  unfold Extracts at hextracts
  dsimp only at hextracts
  rw [hasks] at hextracts
  obtain ⟨hzero, htext⟩ := msgtextof_wide ss
  have hdecode : decode (codeunits (cstring ((ss.flatMap (·.2)).flatMap unitchars))) = _ ↔ _ :=
      decode_text_iff fun u hu => by
    obtain ⟨s, hs, hu⟩ := List.mem_flatMap.1 hu
    exact (ok s hs).unit_lt u hu
  have hall : (∀ u ∈ ss.flatMap (·.2), Plainunit u) ↔ ∀ s ∈ ss, ∀ u ∈ s.2, Plainunit u := by
    simp only [List.mem_flatMap]
    exact ⟨fun hplain s hs u hu => hplain u ⟨s, hs, hu⟩, fun hplain u ⟨s, hs, hu⟩ => hplain s hs u hu⟩
  by_cases hrefuses : Refuses h ss.length
  · have hfail := hextracts.1 hrefuses
    constructor
    · rintro ⟨r', h'', hr', hcode, -⟩
      rw [hr] at hr'
      cases hr'
      rw [hfail] at hcode
      cases hcode
    · exact fun hcond => absurd hrefuses hcond.1
  · have hdone := hextracts.2 hrefuses
    rw [← hall, ← hdecode]
    constructor
    · rintro ⟨r', h'', hr', -, hmeaning⟩
      rw [hr] at hr'
      cases hr'
      rw [hdone, htext] at hmeaning
      exact ⟨hrefuses, hmeaning⟩
    · rintro ⟨-, hmeaning⟩
      exact ⟨r, h', hr, by rw [hdone, hzero], by rw [hdone, htext]; exact hmeaning⟩

/-- "Hi" in 16-bit units. -/
theorem keepsMeaning_ascii :
    KeepsMeaning ⟨0x0002, (encodeblock [] [(0, [72, 105])]).length, some (encodeblock [] [(0, [72, 105])])⟩
        [(0, [72, 105])] Heap.zeroed ↔
      ¬Refuses Heap.zeroed 1 ∧ ∀ s ∈ [((0, [72, 105]) : Wide)], ∀ u ∈ s.2, Plainunit u :=
  keepsMeaning_iff (by decide) (by decide) (by
    intro s hs
    rw [List.mem_singleton.1 hs]
    exact ⟨by decide, by decide⟩)

/-- An e with an acute accent becomes `&#00e9;`, which is no reference. -/
theorem not_keepsMeaning_accent :
    ¬KeepsMeaning ⟨0x0002, (encodeblock [] [(0, [233])]).length, some (encodeblock [] [(0, [233])])⟩
      [(0, [233])] Heap.zeroed := by
  rintro ⟨r, h', hr, -, hmeaning⟩
  have htext : extractmsgtext
      ⟨0x0002, (encodeblock [] [(0, [233])]).length, some (encodeblock [] [(0, [233])])⟩ Heap.zeroed =
        .ok ((0, some (entity 233)), Heap.zeroed) := rfl
  rw [htext] at hr
  cases hr
  revert hmeaning
  decide

end Timps.Oscar
