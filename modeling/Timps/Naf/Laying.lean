-- SUMMARY: Several chains in one buffer: when each of them is rendered in full, and how many bytes they take in any case.
import Timps.Naf.Growing

/-!
# Chains behind each other

A SNAC is built of several chains. What a growing buffer takes of them can be told from
its numbers alone: a put takes all of its bytes or, beyond the maximum, none, and the
renderer stops at a TLV that finds the buffer full.
-/

namespace Timps.Naf

open Prog (Gives bind_ok bind_of_ok)

namespace Sbuf

/-- The numbers of a buffer after a put, and how many bytes that took. -/
def Shape.take (s : Shape) (n : Nat) : Nat × Shape :=
  match s.put n with
  | some s => (n, s)
  | none => (0, s)

/-- An automatic buffer below its maximum, with memory for its growth. -/
structure Elastic (sb : Sbuf) (h : Heap) : Prop where
  ok : sb.Ok
  autoresize : sb.autoresize = true
  willing : h.refuse = []
  le : sb.buflen ≤ 32768

variable {sb : Sbuf} {h : Heap} {v : Bytes} {n : Nat}

/-- A put for which the length of the buffer wraps is refused, if it does not write beyond the block. -/
theorem Elastic.put_wrapped (elastic : Elastic sb h) (hwrapped : ¬Unwrapped sb v.length) {r : Nat × Sbuf}
    {h' : Heap} (hr : sb.put v h = .ok (r, h')) : r = (0, sb) := by
  have hle := elastic.le
  have hpos := elastic.ok.pos_le
  have hsize := elastic.ok.size
  unfold Unwrapped at hwrapped
  have hn : v.length % 65536 < 65536 := Nat.mod_lt _ (by decide)
  have hshort : sb.bytesremaining < v.length := by
    rw [elastic.ok.bytesremaining]
    omega
  unfold Sbuf.put at hr
  rw [reserve_of_short hshort] at hr
  obtain ⟨o, h₁, hext, hr⟩ := bind_ok.1 hr
  by_cases href : Refused sb (v.length % 65536) h
  · obtain ⟨h₂, hnone⟩ := extendbuf_refused elastic.ok.lt hn href
    cases hnone.symm.trans hext
    cases hr
    rfl
  · -- the block is as long as the wrapped length says
    have hmax : ¬32768 < (sb.buflen + 256 * steps (v.length % 65536)) % 65536 := fun h => href (.inr (.inl h))
    rw [extendbuf_granted elastic.ok.lt hn href hsize] at hext
    split at hext
    · cases hext
      obtain ⟨block, h₂, hstore, -⟩ := bind_ok.1 hr
      obtain ⟨hfits, -⟩ := Block.store_ok.1 hstore
      have hnew : sb.pos + v.length ≤ (sb.buflen + 256 * steps (v.length % 65536)) % 65536 := by
        rw [← grown_eq elastic.ok.lt hn]
        exact hfits
      simp only [steps] at hmax hnew hwrapped
      omega
    · cases hext

theorem Growing.elastic (growing : Growing sb h n) : Elastic sb h :=
  ⟨growing.ok, growing.autoresize, growing.willing, growing.le⟩

/-- What became of a buffer that took a part of what was written to it. -/
structure Took (sb : Sbuf) (h : Heap) (taken : Nat × Shape) (sb' : Sbuf) (h' : Heap) : Prop where
  same : h' = h
  appends : ∃ u, Appends sb u sb' ∧ (u.length, sb'.shape h) = taken
  elastic : Elastic sb' h

theorem Took.shape {taken : Nat × Shape} {sb' : Sbuf} {h' : Heap} (took : Took sb h taken sb' h') :
    sb'.shape h = taken.2 := by
  obtain ⟨u, -, htaken⟩ := took.appends
  rw [← htaken]

theorem Took.pos {taken : Nat × Shape} {sb' : Sbuf} {h' : Heap} (took : Took sb h taken sb' h') :
    sb'.pos = sb.pos + taken.1 := by
  obtain ⟨u, happ, htaken⟩ := took.appends
  rw [happ.pos, ← htaken]

/-- What is taken behind what was taken. -/
theorem Took.trans {n m : Nat} {s s' : Shape} {sb₁ sb₂ : Sbuf} {h₁ h₂ : Heap} (took : Took sb h (n, s) sb₁ h₁)
    (took' : Took sb₁ h₁ (m, s') sb₂ h₂) : Took sb h (n + m, s') sb₂ h₂ := by
  obtain ⟨rfl, ⟨u, happ, htaken⟩, -⟩ := took
  obtain ⟨rfl, ⟨u', happ', htaken'⟩, elastic⟩ := took'
  refine ⟨rfl, ⟨u ++ u', happ.trans happ', ?_⟩, elastic⟩
  rw [Prod.mk.injEq] at htaken htaken' ⊢
  exact ⟨by rw [List.length_append, htaken.1, htaken'.1], htaken'.2⟩

theorem Elastic.took_nothing (elastic : Elastic sb h) : Took sb h (0, sb.shape h) sb h :=
  ⟨rfl, ⟨[], .refl elastic.ok, rfl⟩, elastic⟩

/-- A put that goes through takes all of its bytes or none, as the numbers of the buffer say. -/
theorem Elastic.put (elastic : Elastic sb h) {r : Nat × Sbuf} {h' : Heap} (hr : sb.put v h = .ok (r, h')) :
    Took sb h ((sb.shape h).take v.length) r.2 h' := by
  have hle := elastic.le
  have hsame : h' = h := (put_plain sb v).steady elastic.willing hr
  unfold Shape.take
  cases hput : (sb.shape h).put v.length with
  | some s =>
      obtain ⟨sb', h₁, hr', happ, hshape⟩ := put_of_shape elastic.ok hput
      cases hr'.symm.trans hr
      obtain ⟨hauto, hmax⟩ := Shape.put_autoresize hput
      subst hshape hsame
      exact ⟨rfl, ⟨v, happ, rfl⟩, happ.ok, hauto.trans elastic.autoresize, elastic.willing, hmax hle⟩
  | none =>
      have hnone : r = (0, sb) := by
        by_cases hunwrapped : Unwrapped sb v.length
        · obtain ⟨h₁, hr'⟩ := put_of_no_shape elastic.ok hunwrapped hput
          cases hr'.symm.trans hr
          rfl
        · exact elastic.put_wrapped hunwrapped hr
      rw [hnone, hsame]
      exact elastic.took_nothing

/-- The bytes that a buffer takes of pieces, and its numbers after them. -/
def Shape.takeEach : List Bytes → Shape → Nat × Shape
  | [], s => (0, s)
  | v :: vs, s =>
      let (n, s) := s.take v.length
      let (m, s) := takeEach vs s
      (n + m, s)

theorem Elastic.putEach {vs : List Bytes} (elastic : Elastic sb h) {sb' : Sbuf} {h' : Heap}
    (hr : sb.putEach vs h = .ok (sb', h')) : Took sb h ((sb.shape h).takeEach vs) sb' h' := by
  induction vs generalizing sb with
  | nil =>
      cases hr
      exact elastic.took_nothing
  | cons v vs ih =>
      obtain ⟨r, h₁, hput, hrest⟩ := bind_ok.1 hr
      have took := elastic.put hput
      obtain rfl := took.same
      have took' := ih took.elastic hrest
      rw [took.shape] at took'
      exact took.trans took'

/-! ### Without memory enough -/

/-- What an automatic buffer takes of a put, and its numbers after it: growth that is refused
costs the piece. -/
def Shape.offer (s : Shape) (v : Bytes) : Bytes × Shape :=
  match s.put v.length with
  | some s => (v, s)
  | none => ([], { s with refuse := s.refuse.tail })

theorem Shape.length_offer (s : Shape) (v : Bytes) : (s.offer v).1.length ≤ v.length := by
  unfold offer
  split
  · exact Nat.le_refl _
  · exact Nat.zero_le _

theorem Shape.offer_autoresize (s : Shape) (v : Bytes) : (s.offer v).2.autoresize = s.autoresize := by
  unfold offer
  split
  · rename_i s' hput
    exact (put_autoresize hput).1
  · rfl

theorem Shape.offer_of_put {s s' : Shape} (hput : s.put v.length = some s') : s.offer v = (v, s') := by
  unfold offer
  rw [hput]

/-- A piece that is lost is not empty. -/
theorem Shape.offer_of_refused {s : Shape} (hput : s.put v.length = none) :
    (s.offer v).1 = [] ∧ 0 < v.length := by
  refine ⟨by rw [offer, hput], Nat.pos_of_ne_zero fun hzero => ?_⟩
  rw [hzero] at hput
  simp [put] at hput

/-- Below half of the maximum only the allocator refuses a put, and it is asked once. -/
theorem put_offer (ok : sb.Ok) (hauto : sb.autoresize = true) (hroom : sb.pos + v.length ≤ 16000) :
    ∃ n sb' h', sb.put v h = .ok ((n, sb'), h') ∧ Appends sb ((sb.shape h).offer v).1 sb' ∧
      sb'.shape h' = ((sb.shape h).offer v).2 := by
  cases hput : (sb.shape h).put v.length with
  | some s =>
      obtain ⟨sb', h', hr, happ, hshape⟩ := put_of_shape ok hput
      rw [Shape.offer_of_put hput]
      exact ⟨_, sb', h', hr, happ, hshape⟩
  | none =>
      have hoffer : (sb.shape h).offer v = ([], sb.shape h.next) := by
        unfold Shape.offer
        rw [hput]
        rfl
      rw [hoffer]
      have hlt := ok.lt
      have hpos := ok.pos_le
      unfold Shape.put shape at hput
      dsimp only at hput
      split at hput
      · cases hput
      rename_i hshort
      split at hput
      · rename_i hrefused
        have hmax : ¬32768 < sb.buflen + 256 * steps v.length := by
          simp only [steps]
          omega
        have hun : h.unwilling = true := by
          rcases hrefused with hfixed | hlong | hhead
          · rw [hauto] at hfixed
            cases hfixed
          · exact absurd hlong hmax
          · simpa [Heap.unwilling] using hhead
        have hgrown : grown sb.buflen v.length = sb.buflen + 256 * steps v.length := by
          rw [grown_eq hlt (by omega), Nat.mod_eq_of_lt (by omega)]
        have hext : sb.extendbuf v.length h = .ok (none, h.next) :=
          extendbuf_unwilling hauto (by rw [hgrown]; exact hmax) hun
        have hres : sb.reserve v.length h = .ok (none, h.next) := by
          rw [reserve_of_short (by rw [ok.bytesremaining]; omega), Nat.mod_eq_of_lt (by omega)]
          exact hext
        exact ⟨0, sb, h.next, put_of_refused hres, .refl ok, rfl⟩
      · cases hput

theorem reserve_pos : Gives (sb.reserve n) fun o => ∀ sb', o = some sb' → sb'.pos = sb.pos := by
  unfold reserve extendbuf
  refine .ite (fun _ => .ite (fun _ => .pure (by simp)) fun _ => .ite (fun _ => .pure (by simp)) fun _ => ?_)
    fun _ => .pure (by simp)
  refine .bind (P := fun _ => True) .trivial fun b _ => ?_
  cases b with
  | none => exact .pure (by simp)
  | some b =>
      refine .bind (P := fun _ => True) .trivial fun old _ => .bind (P := fun _ => True) .trivial fun nbuf _ => ?_
      refine .pure ?_
      rintro sb' ⟨⟩
      rfl

/-- A put takes no more than its bytes, whatever memory there is. -/
theorem put_bound (hbound : sb.pos ≤ n) : Gives (sb.put v) fun r => r.2.pos ≤ n + v.length := by
  refine .bind reserve_pos fun o hsame => ?_
  cases o with
  | none => exact .pure (by dsimp only; omega)
  | some sb' =>
      have hsame' := hsame sb' rfl
      refine .bind (P := fun _ => True) .trivial fun block _ => .pure ?_
      have hle := Nat.mod_le (sb'.pos + v.length) 65536
      dsimp only
      omega

theorem putEach_bound (hbound : sb.pos ≤ n) (vs : List Bytes) :
    Gives (sb.putEach vs) fun sb => sb.pos ≤ n + vs.flatten.length := by
  induction vs generalizing sb n with
  | nil => exact .pure hbound
  | cons v vs ih =>
      refine .bind (put_bound hbound) fun r h₁ => (ih h₁).mono fun sb h₂ => ?_
      rw [List.flatten_cons, List.length_append]
      omega

end Sbuf

namespace Tlv

open Sbuf (Appends Elastic Shape)

/-! ## Sizes -/

/-- The bytes that a buffer takes of one TLV, and its numbers after it. -/
def laidOne (tlv : Tlv) (s : Shape) : Nat × Shape :=
  let (n₁, s) := s.take 2
  let (n₂, s) := s.take 2
  let (n₃, s) := s.take (tlv.value.getD []).length
  (n₁ + n₂ + n₃, s)

/-- The bytes that a buffer takes of a chain, and its numbers after it. -/
def laid : List Tlv → Shape → Nat × Shape
  | [], s => (0, s)
  | tlv :: tlvs, s =>
      if s.pos < s.buflen then
        let (n, s) := laidOne tlv s
        let (m, s) := laid tlvs s
        (n + m, s)
      else (0, s)

/-- The bytes that a buffer takes of several chains. -/
def laidEach : List (List Tlv) → Shape → Nat
  | [], _ => 0
  | tlvs :: chains, s =>
      let (n, s) := laid tlvs s
      n + laidEach chains s

/-! ## Rendering -/

/-- Render chains one behind the other. -/
def renderEach : List (List Tlv) → Sbuf → Mem Sbuf
  | [], sb => pure sb
  | tlvs :: chains, sb => do
      let (_, sb) ← render tlvs sb
      renderEach chains sb

/-- Each of the chains is appended as a whole when it is rendered behind the ones before. -/
def Fully : List (List Tlv) → Sbuf → Heap → Prop
  | [], _, _ => True
  | tlvs :: chains, sb, h => ∀ n sb' h', render tlvs sb h = .ok ((n, sb'), h') →
      Appends sb (encode tlvs) sb' ∧ Fully chains sb' h'

/-- The numbers of a buffer while several chains are rendered; `none` when one of them is not
rendered as a whole. -/
def shapeEach : List (List Tlv) → Shape → Option Shape
  | [], s => some s
  | tlvs :: chains, s => shape tlvs s >>= shapeEach chains

theorem renderEach_plain (chains : List (List Tlv)) (sb : Sbuf) : Plain (renderEach chains sb) := by
  induction chains generalizing sb with
  | nil => exact .pure _
  | cons tlvs chains ih => exact .bind (render_plain tlvs sb) fun (_, sb) => ih sb

theorem renderEach_append (chains chains' : List (List Tlv)) (sb : Sbuf) :
    renderEach (chains ++ chains') sb = renderEach chains sb >>= renderEach chains' := by
  induction chains generalizing sb with
  | nil => exact (pure_bind _ _).symm
  | cons tlvs chains ih =>
      simp only [List.cons_append, renderEach, bind_assoc]
      congr 1
      funext r
      exact ih r.2

section

variable {chains : List (List Tlv)} {tlvs : List Tlv} {tlv : Tlv} {sb sb' : Sbuf} {h h' : Heap} {n : Nat}

theorem renderEach_of_fully (ok : sb.Ok) (hfully : Fully chains sb h)
    (hr : renderEach chains sb h = .ok (sb', h')) : Appends sb (encode chains.flatten) sb' := by
  induction chains generalizing sb h with
  | nil =>
      cases hr
      exact .refl ok
  | cons tlvs chains ih =>
      obtain ⟨⟨n, sb₁⟩, h₁, hone, hrest⟩ := bind_ok.1 hr
      obtain ⟨happ, hfully'⟩ := hfully _ _ _ hone
      rw [List.flatten_cons, encode_append]
      exact happ.trans (ih happ.ok hfully' hrest)

/-- Chains that the numbers of the buffer let through are rendered as a whole. -/
theorem fully_of_shape (ok : sb.Ok) (hshape : (shapeEach chains (sb.shape h)).isSome) :
    Fully chains sb h := by
  induction chains generalizing sb h with
  | nil => exact trivial
  | cons tlvs chains ih =>
      obtain ⟨s', hs'⟩ := Option.isSome_iff_exists.1 hshape
      obtain ⟨s, hs, hrest⟩ := Option.bind_eq_some_iff.1 hs'
      intro n sb' h' hr
      obtain ⟨sb₁, h₁, hr₁, happ, rfl⟩ := render_of_shape ok hs
      rw [hr] at hr₁
      cases hr₁
      exact ⟨happ, ih happ.ok (by rw [hrest]; rfl)⟩

theorem renderOne_took (elastic : Elastic sb h) {r : Nat × Sbuf} (hr : renderOne tlv sb h = .ok (r, h')) :
    Sbuf.Took sb h (laidOne tlv (sb.shape h)) r.2 h' := by
  obtain ⟨⟨n₁, sb₁⟩, h₁, hput₁, hrest₁⟩ := bind_ok.1 hr
  have took₁ := elastic.put hput₁
  obtain rfl := took₁.same
  obtain ⟨⟨n₂, sb₂⟩, h₂, hput₂, hrest₂⟩ := bind_ok.1 hrest₁
  have took₂ := took₁.elastic.put hput₂
  obtain rfl := took₂.same
  obtain ⟨⟨n₃, sb₃⟩, h₃, hput₃, hend⟩ := bind_ok.1 hrest₂
  cases hend
  rw [renderValue_eq took₂.elastic.ok] at hput₃
  have took₃ := took₂.elastic.put hput₃
  rw [took₂.shape] at took₃
  rw [took₁.shape] at took₂ took₃
  exact (took₁.trans took₂).trans took₃

theorem render_took (elastic : Elastic sb h) {r : Nat × Sbuf} (hr : render tlvs sb h = .ok (r, h')) :
    Sbuf.Took sb h (laid tlvs (sb.shape h)) r.2 h' := by
  induction tlvs generalizing sb r with
  | nil =>
      cases hr
      exact elastic.took_nothing
  | cons tlv tlvs ih =>
      have hrem : sb.bytesremaining > 0 ↔ (sb.shape h).pos < (sb.shape h).buflen := by
        rw [elastic.ok.bytesremaining]
        simp only [Sbuf.shape]
        omega
      rw [render_cons] at hr
      unfold laid
      by_cases hfull : (sb.shape h).pos < (sb.shape h).buflen
      · rw [if_pos (hrem.2 hfull)] at hr
        rw [if_pos hfull]
        obtain ⟨⟨n, sb₁⟩, h₁, hone, hbehind⟩ := bind_ok.1 hr
        have took := renderOne_took elastic hone
        obtain rfl := took.same
        obtain ⟨⟨m, sb₂⟩, h₂, hrest, hend⟩ := bind_ok.1 hbehind
        cases hend
        have took' := ih took.elastic hrest
        rw [took.shape] at took'
        exact took.trans took'
      · rw [if_neg fun h => hfull (hrem.1 h)] at hr
        rw [if_neg hfull]
        cases hr
        exact elastic.took_nothing

/-- What a buffer takes of several chains can be told from its numbers. -/
theorem renderEach_took (elastic : Elastic sb h) (hr : renderEach chains sb h = .ok (sb', h')) :
    sb'.pos = sb.pos + laidEach chains (sb.shape h) := by
  induction chains generalizing sb with
  | nil =>
      cases hr
      rfl
  | cons tlvs chains ih =>
      obtain ⟨⟨n, sb₁⟩, h₁, hone, hrest⟩ := bind_ok.1 hr
      have took := render_took elastic hone
      obtain rfl := took.same
      have hpos := ih took.elastic hrest
      rw [took.shape, took.pos] at hpos
      simp only [laidEach]
      omega

/-! ### Without memory enough -/

/-- The numbers of a buffer after one TLV of which no piece is lost. -/
def afterOne (tlv : Tlv) (s : Shape) : Shape :=
  ((s.after 2).after 2).after (tlv.value.getD []).length

/-- The part of a chain that is rendered: up to the first TLV that finds the buffer full. -/
def fitting : List Tlv → Shape → List Tlv
  | [], _ => []
  | tlv :: tlvs, s => if s.pos < s.buflen then tlv :: fitting tlvs (afterOne tlv s) else []

theorem fitting_prefix (tlvs : List Tlv) (s : Shape) : fitting tlvs s <+: tlvs := by
  induction tlvs generalizing s with
  | nil => exact List.nil_prefix
  | cons tlv tlvs ih =>
      unfold fitting
      split
      · exact List.prefix_cons_inj tlv |>.2 (ih _)
      · exact List.nil_prefix

/-- What an automatic buffer takes of one TLV, and its numbers after it. -/
def takenOne (tlv : Tlv) (s : Shape) : Bytes × Shape :=
  let (u₁, s) := s.offer (bytePut16 tlv.type)
  let (u₂, s) := s.offer (bytePut16 tlv.length)
  let (u₃, s) := s.offer (tlv.value.getD [])
  (u₁ ++ u₂ ++ u₃, s)

/-- What an automatic buffer takes of a chain. -/
def taken : List Tlv → Shape → Bytes
  | [], _ => []
  | tlv :: tlvs, s =>
      if s.pos < s.buflen then
        let (u, s) := takenOne tlv s
        u ++ taken tlvs s
      else []

/-- No growth is refused while the buffer takes of the chain. -/
def lasting : List Tlv → Shape → Bool
  | [], _ => true
  | tlv :: tlvs, s => if s.pos < s.buflen then (shapeOne tlv s).any (lasting tlvs) else true

theorem length_takenOne (tlv : Tlv) (s : Shape) : (takenOne tlv s).1.length ≤ (encodeOne tlv).length := by
  have h₁ := s.length_offer (bytePut16 tlv.type)
  have h₂ := (s.offer (bytePut16 tlv.type)).2.length_offer (bytePut16 tlv.length)
  have h₃ := ((s.offer (bytePut16 tlv.type)).2.offer (bytePut16 tlv.length)).2.length_offer (tlv.value.getD [])
  rw [length_encodeOne]
  simp only [takenOne, List.length_append, length_bytePut16] at *
  omega

theorem takenOne_autoresize (tlv : Tlv) (s : Shape) : (takenOne tlv s).2.autoresize = s.autoresize := by
  simp only [takenOne, Shape.offer_autoresize]

/-- A TLV whose pieces are all let through is taken as a whole. -/
theorem takenOne_of_shape {s s' : Shape} (hshape : shapeOne tlv s = some s') :
    takenOne tlv s = (encodeOne tlv, s') ∧ afterOne tlv s = s' := by
  simp only [shapeOne, Option.bind_eq_bind, Option.bind_eq_some_iff] at hshape
  obtain ⟨s₁, hs₁, s₂, hs₂, hs₃⟩ := hshape
  have hone : s.offer (bytePut16 tlv.type) = (_, s₁) := Shape.offer_of_put hs₁
  have htwo : s₁.offer (bytePut16 tlv.length) = (_, s₂) := Shape.offer_of_put hs₂
  constructor
  · simp only [takenOne, hone, htwo, Shape.offer_of_put hs₃]
    rfl
  · simp only [afterOne, Shape.after, hs₁, hs₂, hs₃, Option.getD_some]

/-- As long as memory lasts a chain is taken up to the first TLV that finds the buffer full. -/
theorem taken_of_lasting {s : Shape} (hlasting : lasting tlvs s = true) :
    taken tlvs s = encode (fitting tlvs s) := by
  induction tlvs generalizing s with
  | nil => rfl
  | cons tlv tlvs ih =>
      unfold lasting at hlasting
      unfold taken fitting
      by_cases hfull : s.pos < s.buflen
      · rw [if_pos hfull] at hlasting ⊢
        rw [if_pos hfull]
        obtain ⟨s', hshape, hrest⟩ := (Option.any_eq_true _ _).1 hlasting
        obtain ⟨htaken, hafter⟩ := takenOne_of_shape hshape
        rw [htaken, hafter, encode_cons, ← ih hrest]
      · rw [if_neg hfull, if_neg hfull]
        rfl

/-- A TLV that loses a piece is taken in part. -/
theorem length_takenOne_lt {s : Shape} (hshape : shapeOne tlv s = none) :
    (takenOne tlv s).1.length < (encodeOne tlv).length := by
  have h₁ := s.length_offer (bytePut16 tlv.type)
  have h₂ := (s.offer (bytePut16 tlv.type)).2.length_offer (bytePut16 tlv.length)
  have h₃ := ((s.offer (bytePut16 tlv.type)).2.offer (bytePut16 tlv.length)).2.length_offer (tlv.value.getD [])
  rw [length_encodeOne]
  simp only [takenOne, List.length_append, length_bytePut16] at *
  simp only [shapeOne, Option.bind_eq_bind, Option.bind_eq_none_iff] at hshape
  cases hs₁ : s.put 2 with
  | none =>
      have hlost := Shape.offer_of_refused (v := bytePut16 tlv.type) hs₁
      rw [hlost.1] at h₁ ⊢
      simp only [List.length_nil]
      omega
  | some s₁ =>
  have hone : s.offer (bytePut16 tlv.type) = (_, s₁) := Shape.offer_of_put hs₁
  rw [hone] at h₂ h₃ ⊢
  cases hs₂ : s₁.put 2 with
  | none =>
      have hlost := Shape.offer_of_refused (v := bytePut16 tlv.length) hs₂
      dsimp only at h₃ ⊢
      rw [hlost.1]
      simp only [List.length_nil, length_bytePut16]
      omega
  | some s₂ =>
  have htwo : s₁.offer (bytePut16 tlv.length) = (_, s₂) := Shape.offer_of_put hs₂
  have hlost := Shape.offer_of_refused (hshape s₁ hs₁ s₂ hs₂)
  dsimp only at h₃ ⊢
  rw [htwo, hlost.1]
  simp only [List.length_nil, length_bytePut16]
  omega

theorem length_taken (tlvs : List Tlv) (s : Shape) : (taken tlvs s).length ≤ (encode tlvs).length := by
  induction tlvs generalizing s with
  | nil => exact Nat.le_refl _
  | cons tlv tlvs ih =>
      have hone := length_takenOne tlv s
      have hrest := ih (takenOne tlv s).2
      unfold taken
      rw [encode_cons, List.length_append]
      split
      · rw [List.length_append]
        omega
      · exact Nat.zero_le _

/-- When growth is refused, a chain is not taken as a whole. -/
theorem length_taken_lt {s : Shape} (hrefused : lasting tlvs s = false) :
    (taken tlvs s).length < (encode tlvs).length := by
  induction tlvs generalizing s with
  | nil => cases hrefused
  | cons tlv tlvs ih =>
      unfold lasting at hrefused
      unfold taken
      rw [encode_cons, List.length_append]
      split at hrefused
      · rename_i hfull
        rw [if_pos hfull, List.length_append]
        cases hshape : shapeOne tlv s with
        | none =>
            have hone := length_takenOne_lt hshape
            have hrest := length_taken tlvs (takenOne tlv s).2
            omega
        | some s' =>
            rw [hshape] at hrefused
            have hrest := ih (s := s') hrefused
            rw [(takenOne_of_shape hshape).1]
            dsimp only
            omega
      · cases hrefused

theorem renderOne_taken (ok : sb.Ok) (hauto : sb.autoresize = true)
    (hroom : sb.pos + (encodeOne tlv).length ≤ 16000) :
    ∃ n sb' h', renderOne tlv sb h = .ok ((n, sb'), h') ∧
      Appends sb (takenOne tlv (sb.shape h)).1 sb' ∧ sb'.shape h' = (takenOne tlv (sb.shape h)).2 := by
  rw [length_encodeOne] at hroom
  obtain ⟨n₁, sb₁, h₁, hput₁, happ₁, hs₁⟩ :=
    Sbuf.put_offer (v := bytePut16 tlv.type) (h := h) ok hauto (by rw [length_bytePut16]; omega)
  have hpos₁ := happ₁.pos
  have hlen₁ := (sb.shape h).length_offer (bytePut16 tlv.type)
  have hauto₁ : sb₁.autoresize = true := by
    rw [show sb₁.autoresize = (sb₁.shape h₁).autoresize from rfl, hs₁, Sbuf.Shape.offer_autoresize]
    exact hauto
  obtain ⟨n₂, sb₂, h₂, hput₂, happ₂, hs₂⟩ :=
    Sbuf.put_offer (v := bytePut16 tlv.length) (h := h₁) happ₁.ok hauto₁
      (by rw [length_bytePut16] at *; omega)
  have hpos₂ := happ₂.pos
  have hlen₂ := (sb₁.shape h₁).length_offer (bytePut16 tlv.length)
  have hauto₂ : sb₂.autoresize = true := by
    rw [show sb₂.autoresize = (sb₂.shape h₂).autoresize from rfl, hs₂, Sbuf.Shape.offer_autoresize]
    exact hauto₁
  obtain ⟨n₃, sb₃, h₃, hput₃, happ₃, hs₃⟩ :=
    Sbuf.put_offer (v := tlv.value.getD []) (h := h₂) happ₂.ok hauto₂
      (by rw [length_bytePut16] at *; omega)
  rw [hs₁] at happ₂ hs₂
  rw [hs₂] at happ₃ hs₃
  refine ⟨n₁ + n₂ + n₃, sb₃, h₃, ?_, (happ₁.trans happ₂).trans happ₃, hs₃⟩
  unfold renderOne Sbuf.put16
  rw [bind_of_ok hput₁]
  dsimp only
  rw [bind_of_ok hput₂]
  dsimp only
  rw [bind_of_ok ((renderValue_eq happ₂.ok).trans hput₃)]
  rfl

/-- Whatever memory there is, the renderer appends what the buffer takes of the chain. -/
theorem render_taken (tlvs : List Tlv) (ok : sb.Ok) (hauto : sb.autoresize = true)
    (hroom : sb.pos + (encode tlvs).length ≤ 16000) :
    ∃ n sb' h', render tlvs sb h = .ok ((n, sb'), h') ∧ Appends sb (taken tlvs (sb.shape h)) sb' := by
  induction tlvs generalizing sb h with
  | nil => exact ⟨0, sb, h, rfl, .refl ok⟩
  | cons tlv tlvs ih =>
      rw [encode_cons, List.length_append] at hroom
      rw [render_cons]
      unfold taken
      have hrem : sb.bytesremaining > 0 ↔ (sb.shape h).pos < (sb.shape h).buflen := by
        rw [ok.bytesremaining]
        simp only [Sbuf.shape]
        omega
      by_cases hfull : (sb.shape h).pos < (sb.shape h).buflen
      · rw [if_pos (hrem.2 hfull), if_pos hfull]
        obtain ⟨n₁, sb₁, h₁, hone, happ₁, hs₁⟩ := renderOne_taken (h := h) ok hauto
          (show sb.pos + (encodeOne tlv).length ≤ 16000 by omega)
        have hpos₁ := happ₁.pos
        have hlen₁ := length_takenOne tlv (sb.shape h)
        have hauto₁ : sb₁.autoresize = true := by
          rw [show sb₁.autoresize = (sb₁.shape h₁).autoresize from rfl, hs₁, takenOne_autoresize]
          exact hauto
        obtain ⟨n₂, sb₂, h₂, hrest, happ₂⟩ := ih (h := h₁) happ₁.ok hauto₁ (by omega)
        rw [hs₁] at happ₂
        refine ⟨n₁ + n₂, sb₂, h₂, ?_, happ₁.trans happ₂⟩
        rw [bind_of_ok hone]
        dsimp only
        rw [bind_of_ok hrest]
        rfl
      · rw [if_neg fun h => hfull (hrem.1 h), if_neg hfull]
        exact ⟨0, sb, h, rfl, .refl ok⟩

theorem render_bound (hbound : sb.pos ≤ n) (tlvs : List Tlv) :
    Gives (render tlvs sb) fun r => r.2.pos ≤ n + (encode tlvs).length := by
  induction tlvs generalizing sb n with
  | nil => exact .pure hbound
  | cons tlv tlvs ih =>
      have hlen : (encode (tlv :: tlvs)).length =
          2 + 2 + (tlv.value.getD []).length + (encode tlvs).length := by
        rw [encode_cons, List.length_append, length_encodeOne]
        omega
      rw [render_cons, hlen]
      refine .ite (fun _ => ?_) fun _ => .pure (by dsimp only; omega)
      refine .bind (P := fun r => r.2.pos ≤ n + 2 + 2 + (tlv.value.getD []).length) ?_ fun r₁ h₁ => ?_
      · refine .bind (Sbuf.put_bound hbound) fun r₁ h₁ => .bind (Sbuf.put_bound h₁) fun r₂ h₂ => ?_
        refine .bind (P := fun r => r.2.pos ≤ n + 2 + 2 + (tlv.value.getD []).length) ?_ fun r₃ h₃ => .pure h₃
        cases tlv.value with
        | some v => exact Sbuf.put_bound h₂
        | none => exact .pure h₂
      · exact .bind (ih h₁) fun r₂ h₂ => .pure (by dsimp only; omega)

theorem renderEach_bound (hbound : sb.pos ≤ n) (chains : List (List Tlv)) :
    Gives (renderEach chains sb) fun sb => sb.pos ≤ n + (encode chains.flatten).length := by
  induction chains generalizing sb n with
  | nil => exact .pure hbound
  | cons tlvs chains ih =>
      refine .bind (render_bound hbound tlvs) fun r h₁ => (ih h₁).mono fun sb h₂ => ?_
      rw [List.flatten_cons, encode_append, List.length_append]
      omega

end

end Tlv
end Timps.Naf
