-- SUMMARY: TLV chains on the wire: what the parser makes of an encoding, and of any bytes.
import Mathlib.Data.List.Flatten
import Timps.Naf.Plain
import Timps.Naf.Render
import Timps.Naf.TlvParse

/-!
# Chains on the wire

The TLVs that the parser creates are well formed, and of well-formed TLVs the encoding
says everything: it splits in one way only, and the parser gets the chain back.
-/

namespace Timps.Naf.Tlv

open Prog (Gives bind_ok bind_of_ok pure_ok)

/-- The words of a TLV fit, and there is a value when there is a length. -/
structure Wf (tlv : Tlv) : Prop where
  type_lt : tlv.type < 65536
  length_lt : tlv.length < 65536
  length_eq : (tlv.value.getD []).length = tlv.length
  value : tlv.value = if tlv.length = 0 then none else some (tlv.value.getD [])

theorem length_encode_of_wf {tlvs : List Tlv} (hwf : ∀ tlv ∈ tlvs, tlv.Wf) :
    (encode tlvs).length = getrenderedsize tlvs := by
  induction tlvs with
  | nil => rfl
  | cons tlv tlvs ih =>
      have hrest := ih fun t ht => hwf t (.tail _ ht)
      have hlen := (hwf tlv (.head _)).length_eq
      rw [encode_cons, List.length_append, length_encodeOne, hrest, hlen]
      simp only [getrenderedsize, List.map_cons, List.sum_cons]
      omega

theorem length_encode_sublist {tlvs tlvs' : List Tlv} (hsub : tlvs.Sublist tlvs') :
    (encode tlvs).length ≤ (encode tlvs').length := (hsub.flatMap _).length_le

/-! ## One TLV -/

section

variable {tlv tlv' : Tlv} {bs bs' : Bytes} {n : Nat}

/-- A round on an encoding reads its first TLV. -/
theorem next_encodeOne (wf : tlv.Wf) :
    next (encodeOne tlv ++ bs) = some (tlv, (encodeOne tlv).length) := by
  obtain ⟨type, length, value⟩ := tlv
  have htype : byteGet16 (UInt8.ofNat (type >>> 8)) (UInt8.ofNat type) = type :=
    byteGet16_bytePut16 wf.type_lt
  have hlength : byteGet16 (UInt8.ofNat (length >>> 8)) (UInt8.ofNat length) = length :=
    byteGet16_bytePut16 wf.length_lt
  have hlen := wf.length_eq
  have hvalue := wf.value
  dsimp only at hlen hvalue
  have hcons : encodeOne ⟨type, length, value⟩ ++ bs =
      UInt8.ofNat (type >>> 8) :: UInt8.ofNat type :: UInt8.ofNat (length >>> 8) ::
        UInt8.ofNat length :: (value.getD [] ++ bs) := by
    simp [encodeOne, bytePut16]
  rw [hcons, next_long, htype, hlength, length_encodeOne]
  by_cases hzero : length = 0
  · subst hzero
    rw [if_pos rfl] at hvalue
    simp [hvalue]
  · rw [if_neg hzero] at hvalue
    have hle : length ≤ (value.getD [] ++ bs).length := by
      rw [List.length_append]
      omega
    have htake : (value.getD [] ++ bs).take length = value.getD [] := by
      rw [← hlen]
      exact List.take_left
    have hsum : 4 + length = 2 + (2 + (value.getD []).length) := by omega
    rw [if_neg hzero, if_pos hle, htake, ← hvalue, hsum]

/-- The encoding of a TLV ends where it says. -/
theorem encodeOne_append_inj (wf : tlv.Wf) (wf' : tlv'.Wf)
    (heq : encodeOne tlv ++ bs = encodeOne tlv' ++ bs') : tlv = tlv' ∧ bs = bs' := by
  have hnext : next (encodeOne tlv ++ bs) = _ := next_encodeOne wf
  rw [heq, next_encodeOne wf'] at hnext
  cases hnext
  exact ⟨rfl, List.append_cancel_left heq⟩

end

/-- Of well-formed TLVs the encoding says everything. -/
theorem encode_injective {tlvs tlvs' : List Tlv} (hwf : ∀ tlv ∈ tlvs, tlv.Wf)
    (hwf' : ∀ tlv ∈ tlvs', tlv.Wf) (heq : encode tlvs = encode tlvs') : tlvs = tlvs' := by
  induction tlvs generalizing tlvs' with
  | nil =>
      cases tlvs' with
      | nil => rfl
      | cons tlv' tlvs' =>
          have hlen := congrArg List.length heq
          rw [encode_cons, List.length_append, length_encodeOne] at hlen
          simp only [encode_nil, List.length_nil] at hlen
          omega
  | cons tlv tlvs ih =>
      cases tlvs' with
      | nil =>
          have hlen := congrArg List.length heq
          rw [encode_cons, List.length_append, length_encodeOne] at hlen
          simp only [encode_nil, List.length_nil] at hlen
          omega
      | cons tlv' tlvs' =>
          obtain ⟨rfl, hrest⟩ :=
            encodeOne_append_inj (hwf tlv (.head _)) (hwf' tlv' (.head _)) heq
          rw [ih (fun t ht => hwf t (.tail _ ht)) (fun t ht => hwf' t (.tail _ ht)) hrest]

/-! ## Parsing an encoding -/

section

variable {sb : Sbuf} {h : Heap} {tlvs : List Tlv} {bs : Bytes}

/-- The loop reads the chain back, to the end of the bytes or as far as it is told. -/
theorem parseLoop_encode {fuel : Nat} {limit : Int} (ok : sb.Readable) (hwilling : h.refuse = [])
    (hwf : ∀ tlv ∈ tlvs, tlv.Wf) (hrest : sb.rest = encode tlvs ++ bs) (hfuel : tlvs.length < fuel)
    (hlimit : limit = -1 ∧ bs = [] ∨ limit = tlvs.length ∧ tlvs ≠ []) :
    parseLoop fuel limit sb h = .ok ((tlvs, sb.skip (encode tlvs).length), h) := by
  induction tlvs generalizing sb fuel limit with
  | nil =>
      rcases hlimit with ⟨-, rfl⟩ | ⟨-, hne⟩
      · obtain ⟨fuel, rfl⟩ := Nat.exists_eq_succ_of_ne_zero (Nat.ne_of_gt hfuel)
        exact parseLoop_of_end ok hrest
      · exact absurd rfl hne
  | cons tlv tlvs ih =>
      obtain ⟨fuel, rfl⟩ := Nat.exists_eq_succ_of_ne_zero (Nat.ne_of_gt (Nat.zero_lt_of_lt hfuel))
      rw [encode_cons, List.append_assoc] at hrest
      have hnext : next sb.rest = some (tlv, (encodeOne tlv).length) := by
        rw [hrest]
        exact next_encodeOne (hwf tlv (.head _))
      have hlong := length_encodeOne tlv
      have hne : sb.rest ≠ [] := by
        apply List.ne_nil_of_length_pos
        rw [hrest, List.length_append]
        omega
      rcases parseLoop_round limit h ok hne with
        ⟨sb', h', -, -, hend⟩ | ⟨tlv', n, h', hnext', ok', -, hkeep, hround⟩
      · rw [(hend hwilling).2] at hnext
        cases hnext
      · rw [hnext] at hnext'
        cases hnext'
        obtain rfl := hkeep hwilling
        have hle : (encodeOne tlv).length ≤ sb.rest.length := by
          rw [hrest, List.length_append]
          omega
        have hrest' : (sb.skip (encodeOne tlv).length).rest = encode tlvs ++ bs := by
          rw [Sbuf.rest_skip hle, hrest, List.drop_left]
        have hskip : (sb.skip (encodeOne tlv).length).skip (encode tlvs).length =
            sb.skip (encode (tlv :: tlvs)).length := by
          rw [encode_cons, List.length_append]
          simp only [Sbuf.skip, Nat.add_assoc]
        have hwf' : ∀ t ∈ tlvs, t.Wf := fun t ht => hwf t (.tail _ ht)
        rw [hround, ← hskip]
        by_cases hlast : limitAfter limit = none
        · -- the limit is used up by the last TLV
          have hnil : tlvs = [] := by
            simp only [limitAfter] at hlast
            split at hlast
            · apply List.eq_nil_of_length_eq_zero
              simp only [List.length_cons] at hlimit
              omega
            · cases hlast
          subst hnil
          rw [hlast]
          rfl
        · obtain ⟨limit', hlimit'⟩ := Option.ne_none_iff_exists'.1 hlast
          have hgo : limit' = -1 ∧ bs = [] ∨ limit' = tlvs.length ∧ tlvs ≠ [] := by
            simp only [limitAfter] at hlimit'
            simp only [List.length_cons] at hlimit
            split at hlimit'
            · cases hlimit'
            · rename_i hmore
              obtain rfl := Option.some.inj hlimit'
              rcases hlimit with ⟨rfl, hbs⟩ | ⟨rfl, -⟩
              · exact .inl ⟨rfl, hbs⟩
              · have hpos : tlvs ≠ [] := by
                  rintro rfl
                  simp at hmore
                refine .inr ⟨?_, hpos⟩
                rw [if_pos (by omega)]
                omega
          rw [hlimit']
          dsimp only
          rw [ih ok' hwf' hrest' (Nat.lt_of_succ_lt_succ hfuel) hgo]

/-- The parser gets back the chain that the bytes are an encoding of. -/
theorem parse_encode (ok : sb.Readable) (hwilling : h.refuse = []) (hwf : ∀ tlv ∈ tlvs, tlv.Wf)
    (hrest : sb.rest = encode tlvs) :
    parse sb h = .ok ((tlvs, sb.skip (encode tlvs).length), h) :=
  parseLimit_of_within ok (by decide) <|
    parseLoop_encode ok hwilling hwf (by rw [hrest, List.append_nil]) (Nat.lt_succ_self _) (.inl ⟨rfl, rfl⟩)

/-- With a limit it leaves what comes behind so many TLVs. -/
theorem parseLimit_encode (ok : sb.Readable) (hwilling : h.refuse = []) (hwf : ∀ tlv ∈ tlvs, tlv.Wf)
    (hrest : sb.rest = encode tlvs ++ bs) :
    parseLimit sb tlvs.length h = .ok ((tlvs, sb.skip (encode tlvs).length), h) := by
  have hwithin : parseWithin (tlvs.length + 1) sb tlvs.length h =
      .ok ((tlvs, sb.skip (encode tlvs).length), h) := by
    unfold parseWithin
    cases tlvs with
    | nil => rfl
    | cons tlv tlvs =>
        rw [if_neg (by simp only [List.length_cons]; omega)]
        exact parseLoop_encode ok hwilling hwf hrest (Nat.lt_succ_self _) (.inr ⟨rfl, List.cons_ne_nil _ _⟩)
  exact parseLimit_of_within ok (by omega) hwithin

end

/-! ## The parser

What follows holds of any bounds a buffer believes to have: a getter stays inside the
block, or it stops with a fault. -/

section

variable {sb sb' : Sbuf} {h h' : Heap} {v : Nat}

theorem word_lt (hget : sb.get16 h = .ok ((v, sb'), h')) : v < 65536 := by
  unfold Sbuf.get16 Sbuf.get at hget
  split at hget
  · cases hget
    decide
  · obtain ⟨bs, h₁, -, hget⟩ := bind_ok.1 hget
    cases hget
    exact byteGet16_lt _ _

/-- A word getter reads two bytes of the block, or does nothing. -/
theorem get16_ok (hsize : sb.block.size < 65536) (hget : sb.get16 h = .ok ((v, sb'), h')) :
    h' = h ∧ (sb.bytesremaining < 2 ∧ v = 0 ∧ sb' = sb ∨
      ¬sb.bytesremaining < 2 ∧ sb.pos + 2 ≤ sb.block.size ∧ sb' = sb.skip 2) := by
  unfold Sbuf.get16 Sbuf.get at hget
  split at hget
  · rename_i hshort
    cases hget
    exact ⟨rfl, .inl ⟨hshort, rfl, rfl⟩⟩
  · rename_i hroom
    obtain ⟨bs, h₁, hload, hget⟩ := bind_ok.1 hget
    obtain ⟨hle, hload⟩ := Block.load_ok.1 hload
    cases hload
    cases hget
    rw [Nat.mod_eq_of_lt (by omega)]
    exact ⟨rfl, .inr ⟨hroom, hle, rfl⟩⟩

theorem getraw_ok {n : Nat} {bs : Bytes} (hget : sb.getraw n h = .ok ((some bs, sb'), h')) :
    bs.length = n ∧ sb.pos + n ≤ sb.block.size ∧ (sb.block.size < 65536 → sb' = sb.skip n) := by
  obtain ⟨b, h₁, -, hget⟩ := bind_ok.1 hget
  cases b with
  | none => cases hget
  | some b =>
      dsimp only at hget
      unfold Sbuf.getrawbuf at hget
      split at hget
      · cases hget
      · obtain ⟨bs', h₂, hload, hget⟩ := bind_ok.1 hget
        obtain ⟨hle, hload⟩ := Block.load_ok.1 hload
        cases hload
        cases hget
        refine ⟨Block.length_bytes _ _ _, hle, fun hsize => ?_⟩
        rw [Nat.mod_eq_of_lt (by omega)]
        rfl

end

section

variable {sb sb' : Sbuf} {h h' : Heap} {tlv : Tlv} {tlvs : List Tlv}

theorem new_ok {t l : Nat} {v : Option Bytes} (hnew : new t l v h = .ok (some tlv, h')) :
    tlv = ⟨t, l, v⟩ := by
  rw [new_eq] at hnew
  simp only [Except.ok.injEq, Prod.mk.injEq] at hnew
  obtain ⟨hsome, -⟩ := hnew
  split at hsome
  · cases hsome
  · exact (Option.some.inj hsome).symm

/-- A chain gets the TLV or stays as it is. -/
theorem addraw_adds (tlvs : List Tlv) (type : Nat) (v : Bytes) :
    Gives (addraw tlvs type v) fun r =>
      r.2 = tlvs ∨ r.2 = tlvs ++ [⟨type, v.length, if v.length = 0 then none else some v⟩] := by
  have hlast : Gives (new type v.length (if v.length = 0 then none else some v) >>= addnew tlvs) fun r =>
      r.2 = tlvs ∨ r.2 = tlvs ++ [⟨type, v.length, if v.length = 0 then none else some v⟩] := by
    refine .bind
      (P := fun t => ∀ tlv, t = some tlv → tlv = ⟨type, v.length, if v.length = 0 then none else some v⟩)
      (fun _ _ _ hr tlv heq => new_ok (heq ▸ hr)) fun t ht => ?_
    cases t with
    | none => exact .pure (.inl rfl)
    | some tlv => exact .pure (.inr (by rw [ht tlv rfl]))
  refine .ite (fun _ => .bind (P := fun _ => True) .trivial fun room _ => ?_) fun _ => ?_
  · exact .ite (fun _ => hlast) fun _ => .pure (.inl rfl)
  · exact .bind (P := fun _ => True) .trivial fun room _ => .ite (fun _ => hlast) fun _ => .pure (.inl rfl)

/-- What `addraw` adds to an empty chain is well formed. -/
theorem addraw_gives {type : Nat} {v : Bytes} (htype : type < 65536) (hv : v.length < 65536) :
    Gives (addraw [] type v) fun r => r.2.length ≤ 1 ∧ ∀ tlv ∈ r.2, tlv.type = type ∧ tlv.Wf := by
  have hnew : Wf ⟨type, v.length, if v.length = 0 then none else some v⟩ := by
    by_cases hzero : v.length = 0
    · exact ⟨htype, hv, by simp [hzero], by simp [hzero]⟩
    · exact ⟨htype, hv, by simp [hzero], by simp [hzero]⟩
  refine (addraw_adds [] type v).mono ?_
  rintro ⟨b, tlvs⟩ (rfl | rfl)
  · exact ⟨Nat.zero_le _, fun _ htlv => nomatch htlv⟩
  · refine ⟨Nat.le_refl _, fun tlv htlv => ?_⟩
    rw [List.mem_singleton.1 htlv]
    exact ⟨rfl, hnew⟩

/-- A chain grows by the bytes of one TLV at most. -/
theorem addraw_bound (tlvs : List Tlv) (type : Nat) (v : Bytes) :
    Gives (addraw tlvs type v) fun r => (encode r.2).length ≤ (encode tlvs).length + (4 + v.length) := by
  refine (addraw_adds tlvs type v).mono ?_
  rintro ⟨b, tlvs'⟩ (rfl | rfl)
  · exact Nat.le_add_right _ _
  · have hvalue : ((if v.length = 0 then none else some v).getD []).length ≤ v.length := by
      split <;> simp
    rw [encode_append, List.length_append, encode_cons, encode_nil, List.append_nil, length_encodeOne]
    dsimp only
    omega

/-- The TLV that a round creates is well formed, whatever memory there is. -/
theorem parseOne_wf (sb : Sbuf) : Gives (parseOne sb) fun r => ∀ tlv, r.1 = some tlv → tlv.Wf := by
  rintro h ⟨t, sb'⟩ h' hone tlv rfl
  obtain ⟨⟨t, sb₁⟩, h₁, ht, hone⟩ := bind_ok.1 hone
  obtain ⟨⟨l, sb₂⟩, h₂, hl, hone⟩ := bind_ok.1 hone
  have htype := word_lt ht
  have hlength := word_lt hl
  dsimp only at hone
  split at hone
  · rename_i hzero
    obtain ⟨tlv', h₃, hnew, hone⟩ := bind_ok.1 hone
    cases hone
    cases new_ok hnew
    subst hzero
    exact ⟨htype, Nat.zero_lt_succ _, rfl, rfl⟩
  · rename_i hne
    obtain ⟨⟨bs, sb₃⟩, h₃, hraw, hone⟩ := bind_ok.1 hone
    cases bs with
    | none => cases hone
    | some bs =>
        obtain ⟨tlv', h₄, hnew, hone⟩ := bind_ok.1 hone
        cases hone
        cases new_ok hnew
        exact ⟨htype, hlength, (getraw_ok hraw).1, by simp [hne]⟩

theorem parseLoop_wf (fuel : Nat) (limit : Int) (sb : Sbuf) :
    Gives (parseLoop fuel limit sb) fun r => ∀ tlv ∈ r.1, tlv.Wf := by
  induction fuel generalizing limit sb with
  | zero => exact .fault
  | succ fuel ih =>
      refine .ite (fun _ => .bind (parseOne_wf sb) fun r hwf => ?_) fun _ => .pure (by simp)
      obtain ⟨tlv, sb₁⟩ := r
      cases tlv with
      | none => exact .pure (by simp)
      | some tlv =>
          have hone : ∀ t ∈ [tlv], t.Wf := fun t ht => hwf t (by rw [List.mem_singleton.1 ht])
          refine .ite (fun _ => .pure hone) fun _ => .bind (ih _ sb₁) fun r hrest => .pure fun t ht => ?_
          rcases List.mem_cons.1 ht with rfl | ht
          · exact hwf t rfl
          · exact hrest t ht

/-- The parser returns well-formed TLVs, whatever memory there is. -/
theorem parse_wf (sb : Sbuf) : Gives (parse sb) fun r => ∀ tlv ∈ r.1, tlv.Wf :=
  fun h r h' hparse => parseLoop_wf (rounds sb (-1) h) (-1) sb h r h' hparse

/-- A round took no less than the encoding of the TLV that it creates, unless fewer than
four bytes were left. -/
theorem parseOne_made (hsize : sb.block.size < 65536)
    (hone : parseOne sb h = .ok ((some tlv, sb'), h')) :
    sb.bytesremaining < 2 ∧ sb' = sb ∨
      sb.bytesremaining < 4 ∧ sb.pos + 2 ≤ sb.block.size ∧ sb' = sb.skip 2 ∧
        (encodeOne tlv).length = 4 ∨
      sb.pos + (encodeOne tlv).length ≤ sb.block.size ∧ sb' = sb.skip (encodeOne tlv).length := by
  obtain ⟨⟨t, sb₁⟩, h₁, ht, hone⟩ := bind_ok.1 hone
  obtain ⟨⟨l, sb₂⟩, h₂, hl, hone⟩ := bind_ok.1 hone
  obtain ⟨-, ht⟩ := get16_ok hsize ht
  have hblock : sb₁.block = sb.block := by rcases ht with ⟨-, -, rfl⟩ | ⟨-, -, rfl⟩ <;> rfl
  obtain ⟨-, hl⟩ := get16_ok (by rw [hblock]; exact hsize) hl
  dsimp only at hone
  split at hone
  · rename_i hzero
    obtain ⟨tlv', h₃, hnew, hone⟩ := bind_ok.1 hone
    cases hone
    cases new_ok hnew
    subst hzero
    rcases ht with ⟨hshort, -, rfl⟩ | ⟨-, hle, rfl⟩
    · rcases hl with ⟨-, -, rfl⟩ | ⟨hroom, -, -⟩
      · exact .inl ⟨hshort, rfl⟩
      · exact absurd hshort hroom
    · rcases hl with ⟨hshort, -, rfl⟩ | ⟨-, hle', rfl⟩
      · refine .inr (.inl ⟨?_, hle, rfl, rfl⟩)
        simp only [Sbuf.bytesremaining, Sbuf.skip] at hshort ⊢
        omega
      · exact .inr (.inr ⟨hle', rfl⟩)
  · rename_i hne
    obtain ⟨⟨bs, sb₃⟩, h₃, hraw, hone⟩ := bind_ok.1 hone
    cases bs with
    | none => cases hone
    | some bs =>
        obtain ⟨tlv', h₄, hnew, hone⟩ := bind_ok.1 hone
        cases hone
        cases new_ok hnew
        -- a length was read, so both words were there
        rcases hl with ⟨-, hzero, -⟩ | ⟨hroom, hle', rfl⟩
        · exact absurd hzero hne
        rcases ht with ⟨hshort, -, rfl⟩ | ⟨-, hle, rfl⟩
        · exact absurd hshort hroom
        obtain ⟨hlen, hle'', hskip⟩ := getraw_ok hraw
        obtain rfl := hskip hsize
        refine .inr (.inr ?_)
        rw [length_encodeOne, Option.getD_some, hlen]
        simp only [Sbuf.skip] at hle'' ⊢
        refine ⟨by omega, ?_⟩
        simp only [Sbuf.mk.injEq, true_and]
        omega

/-- With one byte left and memory enough the loop never returns. -/
theorem parseLoop_stuck {fuel : Nat} (hone : sb.bytesremaining = 1) (hwilling : h.refuse = []) :
    parseLoop fuel (-1) sb h = .error .diverge := by
  have hget : sb.get16 h = .ok ((0, sb), h) := Sbuf.get_of_short (by rw [hone]; decide)
  induction fuel with
  | zero => rfl
  | succ fuel ih =>
      have hround : parseOne sb h = .ok ((some ⟨0, 0, none⟩, sb), h) := by
        unfold parseOne
        rw [bind_of_ok hget]
        dsimp only
        rw [bind_of_ok hget]
        dsimp only
        rw [if_pos rfl, bind_of_ok new_eq, Heap.willing hwilling, Heap.next_of_willing hwilling]
        rfl
      unfold parseLoop
      rw [if_pos (by omega), bind_of_ok hround]
      dsimp only
      rw [if_neg (by decide), Prog.bind_of_error]
      exact ih

/-- What the parser returns is no larger than what it read, except for two bytes at the end
that become a TLV without a value. -/
theorem parseLoop_made {fuel : Nat} (hsize : sb.block.size < 65536) (hwilling : h.refuse = [])
    (hloop : parseLoop fuel (-1) sb h = .ok ((tlvs, sb'), h')) :
    (encode tlvs).length ≤ sb.block.size - sb.pos + 2 ∧ (sb.bytesremaining ≤ 0 → tlvs = []) := by
  induction fuel generalizing sb tlvs with
  | zero => cases hloop
  | succ fuel ih =>
      unfold parseLoop at hloop
      split at hloop
      · rename_i hleft
        obtain ⟨⟨r, sb₁⟩, h₁, hone, hloop⟩ := bind_ok.1 hloop
        obtain rfl := (parseOne_plain sb).steady hwilling hone
        cases r with
        | none =>
            cases hloop
            exact ⟨Nat.zero_le _, fun _ => rfl⟩
        | some tlv =>
            dsimp only at hloop
            rw [if_neg (by decide)] at hloop
            obtain ⟨⟨tlvs', sb₂⟩, h₂, hrest, hloop⟩ := bind_ok.1 hloop
            cases hloop
            have htook := parseOne_made hsize hone
            have hblock : sb₁.block = sb.block := by
              rcases htook with ⟨-, rfl⟩ | ⟨-, -, rfl, -⟩ | ⟨-, rfl⟩ <;> rfl
            obtain ⟨hlen, hnil⟩ := ih (by rw [hblock]; exact hsize) hrest
            rw [hblock] at hlen
            refine ⟨?_, fun h => absurd hleft (by omega)⟩
            rw [encode_cons, List.length_append]
            rcases htook with ⟨hshort, rfl⟩ | ⟨hshort, hle, rfl, hfour⟩ | ⟨hle, rfl⟩
            · -- one byte left
              rw [show (if (-1 : Int) ≠ -1 then (-1 : Int) - 1 else -1) = -1 from rfl,
                parseLoop_stuck (by omega) hwilling] at hrest
              cases hrest
            · -- two or three bytes left
              by_cases hend : (sb.skip 2).bytesremaining ≤ 0
              · rw [hnil hend]
                simp only [encode_nil, List.length_nil]
                omega
              · rw [show (if (-1 : Int) ≠ -1 then (-1 : Int) - 1 else -1) = -1 from rfl,
                  parseLoop_stuck (by simp only [Sbuf.bytesremaining, Sbuf.skip] at *; omega) hwilling] at hrest
                cases hrest
            · simp only [Sbuf.skip] at hlen
              dsimp only
              omega
      · rename_i hend
        cases hloop
        exact ⟨Nat.zero_le _, fun _ => rfl⟩

/-- The parser returns well-formed TLVs, and leaves a willing allocator alone. -/
theorem parse_made (hsize : sb.block.size < 65536) (hwilling : h.refuse = [])
    (hparse : parse sb h = .ok ((tlvs, sb'), h')) :
    h' = h ∧ (∀ tlv ∈ tlvs, tlv.Wf) ∧ (encode tlvs).length ≤ sb.block.size - sb.pos + 2 := by
  have hloop : parseLoop (rounds sb (-1) h) (-1) sb h = .ok ((tlvs, sb'), h') := hparse
  obtain ⟨hlen, -⟩ := parseLoop_made hsize hwilling hloop
  exact ⟨(parse_plain sb).steady hwilling hparse, parse_wf sb _ _ _ hparse, hlen⟩

end

/-! ### Without memory enough -/

section

variable {sb sb₁ sb₂ : Sbuf} {h h' g g' : Heap} {tlv : Tlv} {tlvs tlvs' : List Tlv}

/-- A word getter does not ask the allocator. -/
theorem get16_any {r : Nat × Sbuf} (hget : sb.get16 h = .ok (r, h')) (g : Heap) :
    h' = h ∧ sb.get16 g = .ok (r, g) := by
  unfold Sbuf.get16 Sbuf.get at hget ⊢
  split at hget
  · rename_i hshort
    cases hget
    rw [if_pos hshort]
    exact ⟨rfl, rfl⟩
  · rename_i hroom
    obtain ⟨bs, h₁, hload, hget⟩ := bind_ok.1 hget
    obtain ⟨hle, hload⟩ := Block.load_ok.1 hload
    cases hload
    cases hget
    rw [if_neg hroom, bind_of_ok (Block.load_of_le hle)]
    exact ⟨rfl, rfl⟩

/-- Bytes that were got are got again when there is memory. -/
theorem getraw_willing {n : Nat} {bs : Bytes} (hget : sb.getraw n h = .ok ((some bs, sb₁), h'))
    (hwilling : g.refuse = []) : sb.getraw n g = .ok ((some bs, sb₁), g) := by
  obtain ⟨b, h₁, -, hget⟩ := bind_ok.1 hget
  unfold Sbuf.getraw
  rw [bind_of_ok (malloc_of_willing hwilling)]
  cases b with
  | none => cases hget
  | some b =>
      unfold Sbuf.getrawbuf at hget ⊢
      dsimp only at hget ⊢
      split at hget
      · cases hget
      · rename_i hroom
        obtain ⟨bs', h₂, hload, hget⟩ := bind_ok.1 hget
        obtain ⟨hle, hload⟩ := Block.load_ok.1 hload
        cases hload
        cases hget
        rw [if_neg hroom, bind_of_ok (Block.load_of_le hle)]
        rfl

/-- A round that creates a TLV creates it with memory enough, too. -/
theorem parseOne_willing (hone : parseOne sb h = .ok ((some tlv, sb₁), h')) (hwilling : g.refuse = []) :
    parseOne sb g = .ok ((some tlv, sb₁), g) := by
  obtain ⟨⟨t, sb₂⟩, h₁, ht, hone⟩ := bind_ok.1 hone
  obtain ⟨⟨l, sb₃⟩, h₂, hl, hone⟩ := bind_ok.1 hone
  have hnew : ∀ v, new t l v g = .ok (some ⟨t, l, v⟩, g) := fun v => by
    rw [new_eq, Heap.willing hwilling, Heap.next_of_willing hwilling]
    rfl
  unfold parseOne
  rw [bind_of_ok (get16_any ht g).2]
  dsimp only
  rw [bind_of_ok (get16_any hl g).2]
  dsimp only at hone ⊢
  split at hone
  · rename_i hzero
    obtain ⟨tlv', h₃, hcreate, hone⟩ := bind_ok.1 hone
    cases hone
    cases new_ok hcreate
    rw [if_pos hzero, bind_of_ok (hnew _)]
    rfl
  · rename_i hne
    obtain ⟨⟨bs, sb₄⟩, h₃, hraw, hone⟩ := bind_ok.1 hone
    rw [if_neg hne]
    cases bs with
    | none => cases hone
    | some bs =>
        obtain ⟨tlv', h₄, hcreate, hone⟩ := bind_ok.1 hone
        cases hone
        cases new_ok hcreate
        rw [bind_of_ok (getraw_willing hraw hwilling)]
        dsimp only
        rw [bind_of_ok (hnew _)]
        rfl

theorem parseLoop_less {fuel fuel' : Nat} (hloop : parseLoop fuel (-1) sb h = .ok ((tlvs, sb₁), h'))
    (hwilling : g.refuse = []) (hloop' : parseLoop fuel' (-1) sb g = .ok ((tlvs', sb₂), g')) :
    tlvs <+: tlvs' := by
  induction fuel generalizing fuel' sb h tlvs tlvs' with
  | zero => cases hloop
  | succ fuel ih =>
      unfold parseLoop at hloop
      split at hloop
      · rename_i hleft
        obtain ⟨⟨r, sb₃⟩, h₁, hone, hloop⟩ := bind_ok.1 hloop
        cases r with
        | none =>
            cases hloop
            exact List.nil_prefix
        | some tlv =>
            dsimp only at hloop
            rw [if_neg (by decide)] at hloop
            obtain ⟨⟨rest, sb₄⟩, h₂, hrest, hloop⟩ := bind_ok.1 hloop
            cases hloop
            cases fuel' with
            | zero => cases hloop'
            | succ fuel' =>
                unfold parseLoop at hloop'
                rw [if_pos hleft, bind_of_ok (parseOne_willing hone hwilling)] at hloop'
                dsimp only at hloop'
                rw [if_neg (by decide)] at hloop'
                obtain ⟨⟨rest', sb₅⟩, g₁, hrest', hloop'⟩ := bind_ok.1 hloop'
                cases hloop'
                exact (List.prefix_cons_inj tlv).2 (ih hrest hrest')
      · cases hloop
        exact List.nil_prefix

/-- What the parser has no memory for is missing at the end. -/
theorem parse_less (hparse : parse sb h = .ok ((tlvs, sb₁), h')) (hwilling : g.refuse = [])
    (hparse' : parse sb g = .ok ((tlvs', sb₂), g')) : tlvs <+: tlvs' :=
  parseLoop_less (show parseLoop (rounds sb (-1) h) (-1) sb h = _ from hparse) hwilling
    (show parseLoop (rounds sb (-1) g) (-1) sb g = _ from hparse')

/-- What `addstring` makes of a chain, and the memory behind it: the TLV goes to the end, if
there is memory for its value and for itself. -/
def withstring (tlvs : List Tlv) (type : Nat) (str : CStr) (h : Heap) : List Tlv × Heap :=
  if h.unwilling then (tlvs, h.next)
  else if h.next.unwilling then (tlvs, h.next.next)
  else (tlvs ++ [⟨type, str.length + 1, some (str ++ [0])⟩], h.next.next)

theorem addstring_eq (tlvs : List Tlv) (type : Nat) {str : CStr} (hlen : str.length + 1 < 65536) (h : Heap) :
    ∃ b, addstring tlvs type str h =
      .ok ((b, (withstring tlvs type str h).1), (withstring tlvs type str h).2) := by
  have htake : (str ++ [0]).take ((str.length + 1) % 65536) = str ++ [0] := by
    rw [Nat.mod_eq_of_lt hlen]
    exact List.take_of_length_le (by simp)
  have hne : ¬(str ++ [(0 : UInt8)]).length = 0 := by simp
  unfold addstring addraw withstring
  rw [htake, if_neg hne]
  cases hun : h.unwilling with
  | true =>
      have hmalloc : (Option.isSome <$> malloc (str ++ [0]).length) h = .ok (false, h.next) :=
        Prog.map_ok.2 ⟨none, _, malloc_refused hun, rfl⟩
      rw [bind_of_ok hmalloc]
      exact ⟨false, rfl⟩
  | false =>
      have hmalloc : (Option.isSome <$> malloc (str ++ [0]).length) h = .ok (true, h.next) :=
        Prog.map_ok.2 ⟨some _, _, malloc_granted hun, rfl⟩
      rw [bind_of_ok hmalloc]
      dsimp only
      rw [if_pos rfl, bind_of_ok new_eq, if_neg hne]
      cases hun' : h.next.unwilling with
      | true => exact ⟨false, rfl⟩
      | false => exact ⟨true, by simp⟩

end

end Timps.Naf.Tlv
