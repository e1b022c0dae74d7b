-- SUMMARY: Rendering TLV chains: what a buffer that grows while it is written to ends up with, and when the renderer stops early.
import Timps.Naf.SbufBuild
import Timps.Naf.Tlv

/-!
# Rendering

`Tlv.render` looks at the space that is left before each TLV, but only the putters grow
the buffer. `Shape` follows the numbers of a buffer through puts, without its contents.
A chain is rendered as a whole just when `Shape.render` gets through it.
-/

namespace Timps.Naf

open Prog (Gives bind_ok bind_of_ok pure_ok)

namespace Sbuf

/-! ## Appending -/

/-- The bytes in front of the cursor. -/
def written (sb : Sbuf) : Bytes := sb.block.bytes 0 sb.pos

/-- `sb'` is `sb` with `v` written behind the cursor. -/
structure Appends (sb : Sbuf) (v : Bytes) (sb' : Sbuf) : Prop where
  ok : sb'.Ok
  le : sb.buflen ≤ sb'.buflen
  pos : sb'.pos = sb.pos + v.length
  written : sb'.written = sb.written ++ v

section

variable {sb sb₁ sb₂ : Sbuf} {u v : Bytes} {h : Heap} {n : Nat}

theorem Appends.refl (ok : sb.Ok) : Appends sb [] sb := ⟨ok, Nat.le_refl _, rfl, by simp⟩

theorem Appends.trans (h₁ : Appends sb u sb₁) (h₂ : Appends sb₁ v sb₂) : Appends sb (u ++ v) sb₂ where
  ok := h₂.ok
  le := Nat.le_trans h₁.le h₂.le
  pos := by
    rw [h₂.pos, h₁.pos, List.length_append]
    omega
  written := by rw [h₂.written, h₁.written, List.append_assoc]

@[simp] theorem length_written : sb.written.length = sb.pos := Block.length_bytes _ _ _

/-- What was appended is behind the old cursor. -/
theorem Appends.bytes (happ : Appends sb v sb₁) : sb₁.block.bytes sb.pos v.length = v := by
  have hsplit := Block.bytes_add sb₁.block 0 sb.pos v.length
  have hwritten := happ.written
  rw [Sbuf.written, happ.pos, hsplit] at hwritten
  have hright := (List.append_inj hwritten (by simp)).2
  simpa using hright

/-- The numbers of a buffer, and what the allocator will answer to it. -/
structure Shape where
  autoresize : Bool
  buflen : Nat
  pos : Nat
  refuse : List Bool

def shape (sb : Sbuf) (h : Heap) : Shape := ⟨sb.autoresize, sb.buflen, sb.pos, h.refuse⟩

/-- A put of `n` bytes, with growth when there is too little room; `none` when the growth
is refused. -/
def Shape.put (s : Shape) (n : Nat) : Option Shape :=
  if n ≤ s.buflen - s.pos then some { s with pos := s.pos + n }
  else if s.autoresize = false ∨ 32768 < s.buflen + 256 * steps n ∨ s.refuse.head? = some true then
    none
  else some { s with buflen := s.buflen + 256 * steps n, pos := s.pos + n, refuse := s.refuse.tail }

theorem Shape.put_of_room {s : Shape} {n : Nat} (hroom : s.pos + n ≤ s.buflen) :
    s.put n = some { s with pos := s.pos + n } := if_pos (by omega)

/-- Whatever grows the buffer for `n` bytes more is computed without a wrap. -/
def Small (sb : Sbuf) (n : Nat) : Prop := sb.pos + n ≤ 32640 ∨ sb.pos + n ≤ sb.buflen

/-- Growth for `n` bytes more is computed without a wrap. -/
def Unwrapped (sb : Sbuf) (n : Nat) : Prop :=
  sb.pos + n ≤ sb.buflen ∨ n < 65536 ∧ sb.buflen + 256 * steps n < 65536

theorem Small.unwrapped (ok : sb.Ok) (hsmall : Small sb n) : Unwrapped sb n := by
  have hpos := ok.pos_le
  unfold Small at hsmall
  unfold Unwrapped
  simp only [steps]
  omega

theorem Small.first {m : Nat} (hsmall : Small sb (n + m)) : Small sb n := by
  unfold Small at *
  omega

/-- What is small is small behind the bytes that were appended. -/
theorem Small.behind (hsmall : Small sb (u.length + n)) (happ : Appends sb u sb₁) : Small sb₁ n := by
  have hpos := happ.pos
  have hle := happ.le
  unfold Small at *
  omega

/-- A write at the cursor appends. -/
theorem appends_fill (ok : sb.Ok) (hroom : sb.pos + v.length ≤ sb.buflen) :
    Appends sb v { sb with block := sb.block.fill sb.pos v, pos := sb.pos + v.length } where
  ok := ⟨ok.size, ok.lt, hroom⟩
  le := Nat.le_refl _
  pos := rfl
  written := by
    have hown := Block.bytes_fill_same sb.block sb.pos v
    have hbefore : (sb.block.fill sb.pos v).bytes 0 sb.pos = sb.block.bytes 0 sb.pos :=
      Block.bytes_fill_before _ _ (by omega)
    simp only [Sbuf.written]
    rw [Block.bytes_add, hbefore, Nat.zero_add, hown]

/-- A put with room appends its bytes and leaves the length and the heap alone. -/
theorem put_appends (ok : sb.Ok) (hroom : sb.pos + v.length ≤ sb.buflen) :
    ∃ sb', sb.put v h = .ok ((v.length, sb'), h) ∧ Appends sb v sb' ∧ sb'.buflen = sb.buflen ∧
      sb'.autoresize = sb.autoresize := by
  have hlt := ok.lt
  have hsize := ok.size
  have henough : ¬sb.bytesremaining < v.length := by
    rw [ok.bytesremaining]
    omega
  exact ⟨_, put_of_reserved (reserve_of_room henough) (by omega) (by omega), appends_fill ok hroom, rfl, rfl⟩

/-- A put that the numbers of the buffer let through appends its bytes. -/
theorem put_of_shape {s : Shape} (ok : sb.Ok) (hput : (sb.shape h).put v.length = some s) :
    ∃ sb' h', sb.put v h = .ok ((v.length, sb'), h') ∧ Appends sb v sb' ∧ sb'.shape h' = s := by
  have hlt := ok.lt
  have hpos := ok.pos_le
  have hsize := ok.size
  unfold Shape.put shape at hput
  dsimp only at hput
  split at hput
  · rename_i hroom
    cases hput
    have henough : ¬sb.bytesremaining < v.length := by
      rw [ok.bytesremaining]
      omega
    have hfill := appends_fill (v := v) ok (by omega)
    refine ⟨_, _, put_of_reserved (reserve_of_room henough) (by omega) (by omega), hfill, rfl⟩
  rename_i hroom
  split at hput
  · cases hput
  rename_i hgrant
  cases hput
  -- the buffer has to grow, and the shape says that it may
  have hshort : sb.bytesremaining < v.length := by
    rw [ok.bytesremaining]
    omega
  have hmax : ¬32768 < sb.buflen + 256 * steps v.length := fun h => hgrant (.inr (.inl h))
  have hwrap : sb.buflen + 256 * steps v.length < 65536 := by omega
  have hsteps := le_steps (n := v.length)
  have hn : v.length < 65536 := by omega
  have hgrant' : ¬Refused sb v.length h := by
    unfold Refused
    rw [Nat.mod_eq_of_lt hwrap]
    simpa [Heap.unwilling] using hgrant
  have hlen := extended_buflen (h := h) ok hwrap hn
  have hext := extendbuf_granted hlt hn hgrant' hsize
  rw [if_pos (by rw [grown_eq hlt hn, Nat.mod_eq_of_lt hwrap]; omega)] at hext
  have hres : sb.reserve v.length h = .ok (some (sb.extended v.length h), h.next) := by
    rw [reserve_of_short hshort, Nat.mod_eq_of_lt hn]
    exact hext
  have ok' := extended_ok (h := h) ok hwrap hn
  have hpos' : (sb.extended v.length h).pos = sb.pos := rfl
  have hroom' : (sb.extended v.length h).pos + v.length ≤ (sb.extended v.length h).buflen := by
    omega
  have hfill := appends_fill ok' hroom'
  refine ⟨_, _, put_of_reserved hres (by rw [ok'.size]; exact hroom') (by omega), ?_, ?_⟩
  · refine ⟨hfill.ok, by rw [hlen]; omega, hfill.pos, hfill.written.trans ?_⟩
    have hkept : (sb.extended v.length h).written = sb.written := extended_bytes (by omega)
    rw [hkept]
  · simp only [shape, hlen]
    rfl

/-- A put of nothing changes nothing. -/
theorem put_nil (ok : sb.Ok) : sb.put [] h = .ok ((0, sb), h) := by
  have hpos := ok.pos_le
  have hlt := ok.lt
  have henough : ¬sb.bytesremaining < (([] : Bytes).length : Nat) := by
    rw [ok.bytesremaining]
    simp
  have hsize := ok.size
  rw [put_of_reserved (reserve_of_room henough) (by simp only [List.length_nil]; omega)
    (by simp only [List.length_nil]; omega)]
  simp

theorem put_of_no_shape (ok : sb.Ok) (hunwrapped : Unwrapped sb v.length)
    (hput : (sb.shape h).put v.length = none) : ∃ h', sb.put v h = .ok ((0, sb), h') := by
  have hlt := ok.lt
  have hpos := ok.pos_le
  unfold Unwrapped at hunwrapped
  unfold Shape.put shape at hput
  dsimp only at hput
  split at hput
  · cases hput
  rename_i hroom
  split at hput
  · rename_i href
    have hshort : sb.bytesremaining < v.length := by
      rw [ok.bytesremaining]
      omega
    have hwrap : sb.buflen + 256 * steps v.length < 65536 := by omega
    have href' : Refused sb v.length h := by
      unfold Refused
      rw [Nat.mod_eq_of_lt hwrap]
      simpa [Heap.unwilling] using href
    obtain ⟨h', hext⟩ := extendbuf_refused hlt (by omega) href'
    refine ⟨h', put_of_refused ?_⟩
    rw [reserve_of_short hshort, Nat.mod_eq_of_lt (by omega)]
    exact hext
  · cases hput

/-- A put that took all its bytes was let through. -/
theorem shape_of_put {h' : Heap} (ok : sb.Ok) (hsmall : Small sb v.length)
    (hr : sb.put v h = .ok ((v.length, sb₁), h')) :
    (sb.shape h).put v.length = some (sb₁.shape h') ∧ Appends sb v sb₁ := by
  cases hput : (sb.shape h).put v.length with
  | some s =>
      obtain ⟨sb', h₁, hr', happ, rfl⟩ := put_of_shape ok hput
      rw [hr] at hr'
      cases hr'
      exact ⟨rfl, happ⟩
  | none =>
      obtain ⟨h₁, hr'⟩ := put_of_no_shape ok (hsmall.unwrapped ok) hput
      rw [hr] at hr'
      have hzero : v.length = 0 := congrArg (fun r => r.1.1) (Except.ok.inj hr')
      rw [hzero] at hput
      simp [Shape.put] at hput

/-- A put answers with the bytes it took, or with 0. -/
theorem put_le : Gives (sb.put v) fun r => r.1 ≤ v.length := by
  intro h r h' hr
  simp only [Sbuf.put] at hr
  obtain ⟨o, h₁, -, hr⟩ := bind_ok.1 hr
  cases o with
  | none =>
      cases pure_ok.1 hr
      exact Nat.zero_le _
  | some sb' =>
      obtain ⟨block, h₂, -, hr⟩ := bind_ok.1 hr
      cases pure_ok.1 hr
      exact Nat.le_refl _

end
end Sbuf

namespace Tlv

open Sbuf (Appends Shape put_nil put_of_shape shape_of_put put_le)

/-! ## Encodings -/

/-- A type word, a length word and the value. -/
def encodeOne (tlv : Tlv) : Bytes :=
  bytePut16 tlv.type ++ bytePut16 tlv.length ++ tlv.value.getD []

def encode (tlvs : List Tlv) : Bytes := tlvs.flatMap encodeOne

/-- The value is as long as the length says. -/
def Sized (tlv : Tlv) : Prop := ∀ v, tlv.value = some v → v.length = tlv.length

@[simp] theorem encode_nil : encode [] = [] := rfl

@[simp] theorem encode_cons (tlv : Tlv) (tlvs : List Tlv) :
    encode (tlv :: tlvs) = encodeOne tlv ++ encode tlvs := rfl

theorem encode_append (tlvs tlvs' : List Tlv) : encode (tlvs ++ tlvs') = encode tlvs ++ encode tlvs' :=
  List.flatMap_append

theorem length_encodeOne (tlv : Tlv) :
    (encodeOne tlv).length = 2 + (2 + (tlv.value.getD []).length) := by
  simp only [encodeOne, List.length_append, length_bytePut16]
  omega

/-- The three puts of a TLV are small when the TLV is. -/
theorem small_encodeOne {tlv : Tlv} {sb : Sbuf} (hsmall : sb.Small (encodeOne tlv).length) :
    sb.Small ((bytePut16 tlv.type).length +
      ((bytePut16 tlv.length).length + (tlv.value.getD []).length)) := by
  rwa [length_encodeOne] at hsmall

/-- The rendered size is not less than the length of the encoding. -/
theorem length_encode_le {tlvs : List Tlv} (hsized : ∀ tlv ∈ tlvs, Sized tlv) :
    (encode tlvs).length ≤ getrenderedsize tlvs := by
  induction tlvs with
  | nil => exact Nat.le_refl _
  | cons tlv tlvs ih =>
      have hone : (tlv.value.getD []).length ≤ tlv.length := by
        cases hv : tlv.value with
        | none => exact Nat.zero_le _
        | some v => exact Nat.le_of_eq (hsized tlv (.head _) v hv)
      have hrest := ih fun t ht => hsized t (.tail _ ht)
      simp only [getrenderedsize, List.map_cons, List.sum_cons, encode_cons, List.length_append,
        length_encodeOne] at hrest ⊢
      omega

/-! ## The renderer -/

/-- The numbers of a buffer while one TLV is rendered. -/
def shapeOne (tlv : Tlv) (s : Shape) : Option Shape := do
  let s ← s.put 2
  let s ← s.put 2
  s.put (tlv.value.getD []).length

/-- The numbers of a buffer while a chain is rendered; `none` when a TLV finds the buffer
full, or a put is refused. -/
def shape : List Tlv → Shape → Option Shape
  | [], s => some s
  | tlv :: tlvs, s => if s.pos < s.buflen then shapeOne tlv s >>= shape tlvs else none

def renderOne (tlv : Tlv) (sb : Sbuf) : Mem (Nat × Sbuf) := do
  let (n₁, sb) ← sb.put16 tlv.type
  let (n₂, sb) ← sb.put16 tlv.length
  let (n₃, sb) ← (match tlv.value with
    | some v => sb.putraw v
    | none => pure (0, sb))
  pure (n₁ + n₂ + n₃, sb)

theorem render_cons (tlv : Tlv) (tlvs : List Tlv) (sb : Sbuf) :
    render (tlv :: tlvs) sb =
      if sb.bytesremaining > 0 then do
        let (n, sb) ← renderOne tlv sb
        let (n', sb) ← render tlvs sb
        pure (n + n', sb)
      else pure (0, sb) := by
  obtain ⟨type, length, value⟩ := tlv
  cases value <;> simp only [render, renderOne, bind_assoc, pure_bind]

section

variable {tlv : Tlv} {tlvs : List Tlv} {sb : Sbuf} {h : Heap}

theorem renderValue_le (sb : Sbuf) : Gives (match tlv.value with
    | some v => sb.putraw v
    | none => pure (0, sb)) fun r => r.1 ≤ (tlv.value.getD []).length := by
  cases tlv.value with
  | some v => exact put_le
  | none => exact .pure (Nat.le_refl _)

/-- The value is put as the other two are; no value is like an empty one. -/
theorem renderValue_eq (ok : sb.Ok) : (match tlv.value with
    | some v => sb.putraw v
    | none => pure (0, sb)) h = sb.put (tlv.value.getD []) h := by
  cases tlv.value with
  | some v => rfl
  | none => exact (put_nil ok).symm

theorem renderOne_le : Gives (renderOne tlv sb) fun r => r.1 ≤ (encodeOne tlv).length := by
  rw [length_encodeOne]
  refine .bind put_le fun (n₁, sb₁) h₁ => .bind put_le fun (n₂, sb₂) h₂ => ?_
  refine .bind (renderValue_le sb₂) fun (n₃, sb₃) h₃ => .pure ?_
  simp only [length_bytePut16] at h₁ h₂ h₃ ⊢
  omega

theorem renderOne_of_shape {s : Shape} (ok : sb.Ok) (hshape : shapeOne tlv (sb.shape h) = some s) :
    ∃ sb' h', renderOne tlv sb h = .ok (((encodeOne tlv).length, sb'), h') ∧
      Appends sb (encodeOne tlv) sb' ∧ sb'.shape h' = s := by
  simp only [shapeOne, Option.bind_eq_bind, Option.bind_eq_some_iff] at hshape
  obtain ⟨s₁, hs₁, s₂, hs₂, hs₃⟩ := hshape
  obtain ⟨sb₁, h₁, hput₁, happ₁, rfl⟩ := put_of_shape (v := bytePut16 tlv.type) ok hs₁
  obtain ⟨sb₂, h₂, hput₂, happ₂, rfl⟩ := put_of_shape (v := bytePut16 tlv.length) happ₁.ok hs₂
  obtain ⟨sb₃, h₃, hput₃, happ₃, rfl⟩ := put_of_shape happ₂.ok hs₃
  refine ⟨sb₃, h₃, ?_, (happ₁.trans happ₂).trans happ₃, rfl⟩
  unfold renderOne Sbuf.put16
  rw [bind_of_ok hput₁]
  dsimp only
  rw [bind_of_ok hput₂]
  dsimp only
  rw [bind_of_ok ((renderValue_eq happ₂.ok).trans hput₃)]
  rw [length_encodeOne]
  simp only [length_bytePut16, Nat.add_assoc]
  rfl

/-- A TLV that was rendered as a whole was let through. -/
theorem shapeOne_of_renderOne {sb' : Sbuf} {h' : Heap} (ok : sb.Ok)
    (hsmall : sb.Small (encodeOne tlv).length)
    (hr : renderOne tlv sb h = .ok (((encodeOne tlv).length, sb'), h')) :
    shapeOne tlv (sb.shape h) = some (sb'.shape h') ∧ Appends sb (encodeOne tlv) sb' := by
  have hsmall₁ := small_encodeOne hsmall
  rw [length_encodeOne] at hr
  unfold renderOne Sbuf.put16 at hr
  obtain ⟨⟨n₁, sb₁⟩, h₁, hput₁, hr⟩ := bind_ok.1 hr
  obtain ⟨⟨n₂, sb₂⟩, h₂, hput₂, hr⟩ := bind_ok.1 hr
  obtain ⟨⟨n₃, sb₃⟩, h₃, hput₃, hr⟩ := bind_ok.1 hr
  have hle₁ := put_le _ _ _ hput₁
  have hle₂ := put_le _ _ _ hput₂
  have hle₃ := renderValue_le sb₂ _ _ _ hput₃
  simp only [pure_ok, Prod.mk.injEq] at hr
  obtain ⟨⟨hsum, rfl⟩, rfl⟩ := hr
  simp only [length_bytePut16] at hle₁ hle₂ hle₃
  -- no put took less than its bytes
  obtain rfl : n₁ = (bytePut16 tlv.type).length := by
    simp only [length_bytePut16]
    omega
  obtain rfl : n₂ = (bytePut16 tlv.length).length := by
    simp only [length_bytePut16] at hsum ⊢
    omega
  obtain rfl : n₃ = (tlv.value.getD []).length := by
    simp only [length_bytePut16] at hsum
    omega
  obtain ⟨hs₁, happ₁⟩ := shape_of_put ok hsmall₁.first hput₁
  have hsmall₂ := hsmall₁.behind happ₁
  obtain ⟨hs₂, happ₂⟩ := shape_of_put happ₁.ok hsmall₂.first hput₂
  have hsmall₃ := hsmall₂.behind happ₂
  rw [renderValue_eq happ₂.ok] at hput₃
  obtain ⟨hs₃, happ₃⟩ := shape_of_put happ₂.ok hsmall₃ hput₃
  refine ⟨?_, (happ₁.trans happ₂).trans happ₃⟩
  simp only [length_bytePut16] at hs₁ hs₂
  simp only [shapeOne, Option.bind_eq_bind, hs₁, hs₂, hs₃, Option.bind_some]

theorem render_le : Gives (render tlvs sb) fun r => r.1 ≤ (encode tlvs).length := by
  induction tlvs generalizing sb with
  | nil => exact .pure (Nat.le_refl _)
  | cons tlv tlvs ih =>
      rw [render_cons, encode_cons, List.length_append]
      refine .ite (fun _ => ?_) fun _ => .pure (Nat.zero_le _)
      refine .bind renderOne_le fun (n, sb₁) hn => .bind ih fun (n', sb₂) hn' => .pure ?_
      exact Nat.add_le_add hn hn'

/-- A chain that the numbers of the buffer let through is appended as a whole. -/
theorem render_of_shape {s : Shape} (ok : sb.Ok) (hshape : shape tlvs (sb.shape h) = some s) :
    ∃ sb' h', render tlvs sb h = .ok (((encode tlvs).length, sb'), h') ∧
      Appends sb (encode tlvs) sb' ∧ sb'.shape h' = s := by
  induction tlvs generalizing sb h with
  | nil =>
      cases hshape
      exact ⟨sb, h, rfl, .refl ok, rfl⟩
  | cons tlv tlvs ih =>
      unfold shape at hshape
      split at hshape
      · rename_i hroom
        obtain ⟨s₁, hone, hrest⟩ := Option.bind_eq_some_iff.1 hshape
        obtain ⟨sb₁, h₁, hr₁, happ₁, rfl⟩ := renderOne_of_shape ok hone
        obtain ⟨sb₂, h₂, hr₂, happ₂, rfl⟩ := ih happ₁.ok hrest
        have hrem : sb.bytesremaining > 0 := by
          have hroom : sb.pos < sb.buflen := hroom
          rw [ok.bytesremaining]
          omega
        refine ⟨sb₂, h₂, ?_, happ₁.trans happ₂, rfl⟩
        rw [render_cons, if_pos hrem, bind_of_ok hr₁]
        dsimp only
        rw [bind_of_ok hr₂, encode_cons, List.length_append]
        rfl
      · cases hshape

/-- A chain of which every byte was rendered was let through. -/
theorem shape_of_render {sb' : Sbuf} {h' : Heap} (ok : sb.Ok)
    (hsmall : sb.Small (encode tlvs).length)
    (hr : render tlvs sb h = .ok (((encode tlvs).length, sb'), h')) :
    shape tlvs (sb.shape h) = some (sb'.shape h') := by
  induction tlvs generalizing sb h with
  | nil =>
      cases hr
      rfl
  | cons tlv tlvs ih =>
      rw [render_cons] at hr
      rw [encode_cons, List.length_append] at hsmall hr
      split at hr
      · rename_i hrem
        obtain ⟨⟨n₁, sb₁⟩, h₁, hr₁, hr⟩ := bind_ok.1 hr
        obtain ⟨⟨n₂, sb₂⟩, h₂, hr₂, hr⟩ := bind_ok.1 hr
        simp only [pure_ok, Prod.mk.injEq] at hr
        obtain ⟨⟨hsum, rfl⟩, rfl⟩ := hr
        have hle₁ := renderOne_le _ _ _ hr₁
        have hle₂ := render_le _ _ _ hr₂
        dsimp only at hle₁ hle₂
        obtain rfl : n₁ = (encodeOne tlv).length := by omega
        obtain rfl : n₂ = (encode tlvs).length := by omega
        obtain ⟨hone, happ₁⟩ := shapeOne_of_renderOne ok hsmall.first hr₁
        have hroom : (sb.shape h).pos < (sb.shape h).buflen := by
          rw [ok.bytesremaining] at hrem
          simp only [Sbuf.shape]
          omega
        have hrest := ih happ₁.ok (hsmall.behind happ₁) hr₂
        unfold shape
        rw [if_pos hroom, hone]
        exact hrest
      · have hlen := congrArg (fun r => r.1.1) (Except.ok.inj hr)
        have hfour := length_encodeOne tlv
        dsimp only at hlen
        omega

/-- A buffer with room for the whole chain lets it through as it is. -/
theorem shape_of_room {s : Shape} (hroom : s.pos + (encode tlvs).length ≤ s.buflen) :
    shape tlvs s = some { s with pos := s.pos + (encode tlvs).length } := by
  induction tlvs generalizing s with
  | nil => rfl
  | cons tlv tlvs ih =>
      have hfour := length_encodeOne tlv
      rw [encode_cons, List.length_append] at hroom ⊢
      have hone : shapeOne tlv s = some { s with pos := s.pos + (encodeOne tlv).length } := by
        simp only [shapeOne, Option.bind_eq_bind]
        rw [Sbuf.Shape.put_of_room (by omega), Option.bind_some,
          Sbuf.Shape.put_of_room (by dsimp only; omega), Option.bind_some,
          Sbuf.Shape.put_of_room (by dsimp only; omega), hfour]
        simp only [Nat.add_assoc]
      unfold shape
      rw [if_pos (by omega), hone]
      have hrest := ih (s := { s with pos := s.pos + (encodeOne tlv).length }) (by dsimp only; omega)
      simp only [Option.bind_eq_bind, Option.bind_some, hrest, Nat.add_assoc]

/-- The chain is rendered into the buffer as it is into any fixed buffer with enough room. -/
def LikeFixed (tlvs : List Tlv) (sb : Sbuf) (h : Heap) : Prop :=
  ∀ fixed g n fixed' g', fixed.autoresize = false → fixed.Ok →
    fixed.pos + getrenderedsize tlvs ≤ fixed.buflen →
    render tlvs fixed g = .ok ((n, fixed'), g') →
    ∃ sb' h', render tlvs sb h = .ok ((n, sb'), h') ∧
      Appends sb (fixed'.block.bytes fixed.pos n) sb' ∧ sb'.pos = sb.pos + n

/-- A fixed buffer with enough room gets the encoding. -/
theorem render_fixed {fixed : Sbuf} (g : Heap) (ok : fixed.Ok) (hsized : ∀ tlv ∈ tlvs, Sized tlv)
    (hroom : fixed.pos + getrenderedsize tlvs ≤ fixed.buflen) :
    ∃ fixed' g', render tlvs fixed g = .ok (((encode tlvs).length, fixed'), g') ∧
      fixed'.block.bytes fixed.pos (encode tlvs).length = encode tlvs := by
  have hle := length_encode_le hsized
  have hshape : shape tlvs (fixed.shape g) = _ := shape_of_room
    (by simp only [Sbuf.shape]; omega)
  obtain ⟨fixed', g', hr, happ, -⟩ := render_of_shape ok hshape
  exact ⟨fixed', g', hr, happ.bytes⟩

/-- A chain is rendered as into a fixed buffer when no TLV of it finds the buffer exactly
full, and no growth is refused. -/
theorem likeFixed_iff (ok : sb.Ok) (hsized : ∀ tlv ∈ tlvs, Sized tlv)
    (hsmall : sb.pos + getrenderedsize tlvs ≤ 16000) :
    LikeFixed tlvs sb h ↔ (shape tlvs (sb.shape h)).isSome := by
  have hle := length_encode_le hsized
  have hsmall' : sb.Small (encode tlvs).length := by
    unfold Sbuf.Small
    omega
  constructor
  · intro hlike
    -- a fixed buffer to compare with
    obtain ⟨fixed, hauto, okf, hroom⟩ : ∃ fixed : Sbuf, fixed.autoresize = false ∧ fixed.Ok ∧
        fixed.pos + getrenderedsize tlvs ≤ fixed.buflen :=
      ⟨⟨false, false, ⟨16000, fun _ => 0⟩, 16000, 0⟩, rfl, ⟨rfl, by decide, Nat.zero_le _⟩, by
        dsimp only
        omega⟩
    obtain ⟨fixed', g', hr, -⟩ := render_fixed h okf hsized hroom
    obtain ⟨sb', h', hr', -⟩ := hlike fixed h _ fixed' g' hauto okf hroom hr
    rw [shape_of_render ok hsmall' hr']
    rfl
  · intro hthrough fixed g n fixed' g' _ okf hroom hr
    obtain ⟨s, hshape⟩ := Option.isSome_iff_exists.1 hthrough
    obtain ⟨sb', h', hr', happ, -⟩ := render_of_shape ok hshape
    obtain ⟨fixed'', g'', hrf, hbytes⟩ := render_fixed g okf hsized hroom
    rw [hr] at hrf
    cases hrf
    refine ⟨sb', h', hr', ?_, happ.pos⟩
    rw [hbytes]
    exact happ

end

/-- A buffer of the default length with four bytes left. -/
def nearlyFull : Sbuf :=
  { autoresize := true, freebuf := true, block := ⟨512, fun _ => 0⟩, buflen := 512, pos := 508 }

theorem nearlyFull_ok : nearlyFull.Ok := ⟨rfl, by decide, by decide⟩

theorem sized_of_none {tlvs : List Tlv} (hnone : ∀ tlv ∈ tlvs, tlv.value = none) :
    ∀ tlv ∈ tlvs, Sized tlv := by
  intro tlv htlv v hv
  rw [hnone tlv htlv] at hv
  cases hv

/-- One TLV without a value still fits. -/
theorem likeFixed_one : LikeFixed [⟨1, 0, none⟩] nearlyFull Heap.zeroed ↔
    (shape [⟨1, 0, none⟩] (nearlyFull.shape Heap.zeroed)).isSome :=
  likeFixed_iff nearlyFull_ok (sized_of_none (by simp)) (by decide)

/-- Of two, the second finds the buffer full and is dropped. -/
theorem not_likeFixed_two :
    (render [⟨1, 0, none⟩, ⟨2, 0, none⟩] nearlyFull Heap.zeroed).toOption.map (·.1.1) = some 4 ∧
      ¬LikeFixed [⟨1, 0, none⟩, ⟨2, 0, none⟩] nearlyFull Heap.zeroed := by
  refine ⟨rfl, fun hlike => ?_⟩
  have okf : (⟨false, false, ⟨8, fun _ => 0⟩, 8, 0⟩ : Sbuf).Ok := ⟨rfl, by decide, by decide⟩
  have hsized : ∀ tlv ∈ [(⟨1, 0, none⟩ : Tlv), ⟨2, 0, none⟩], Sized tlv := sized_of_none (by simp)
  obtain ⟨fixed', g', hr, -⟩ := render_fixed Heap.zeroed okf hsized (by decide)
  obtain ⟨sb', h', hr', -⟩ := hlike _ _ _ _ _ rfl okf (by decide) hr
  have hshape := shape_of_render nearlyFull_ok (.inl (by decide)) hr'
  have hnone : shape [⟨1, 0, none⟩, ⟨2, 0, none⟩] (nearlyFull.shape Heap.zeroed) = none := rfl
  rw [hnone] at hshape
  cases hshape

end Tlv
end Timps.Naf
