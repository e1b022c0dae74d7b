-- SUMMARY: The stream of bytes that comes in on a connection, and the frames the reader hands on.
import Timps.Base.Framing
import Timps.Oscar.Runs

/-!
# Incoming streams

`Reading` is the state of a reader between two events: what is left of the stream behind
the last frame is what its buffer holds up to the offset of the request. A step touches
no other connection's request, so the reader is followed through its own steps only.
-/

namespace Timps.Oscar

open Framing (PrefixFree Splits)
open Naf (Block lit byteGet16 bytePut16)
open Naf.Conn (reqread takeread)
open Prog (DoesFrom keep bind_ok pure_ok read_ok update_ok)
open Relation (ReflTransGen)
open Sys (mem conn modify)

variable {p : Perm} {w w' : World} {cid k : Nat}

/-! ## Frames -/

/-- A frame that the reader accepts. -/
def Flap (f : Bytes) : Prop :=
  ∃ chan seq₁ seq₂ body, (chan = 0x01 ∨ chan = 0x02 ∨ chan = 0x04 ∨ chan = 0x05) ∧
    body.length ≤ maxsnaclen ∧ f = 42 :: chan :: seq₁ :: seq₂ :: (bytePut16 body.length ++ body)

theorem flap_prefixFree : PrefixFree Flap where
  ne_nil := by
    rintro ⟨chan, seq₁, seq₂, body, -, -, h⟩
    cases h
  eq_of_append := by
    rintro f g x y ⟨c, s₁, s₂, b, -, hb, rfl⟩ ⟨d, t₁, t₂, b', -, hb', rfl⟩ heq
    simp only [List.cons_append, List.cons.injEq, List.append_assoc] at heq
    obtain ⟨-, rfl, rfl, rfl, heq⟩ := heq
    obtain ⟨hword, hbody⟩ := List.append_inj heq (by simp)
    simp only [bytePut16, List.cons.injEq, and_true] at hword
    have hlen : b.length = b'.length := by
      have hb₁ := Naf.byteGet16_bytePut16 (v := b.length) (by simp only [maxsnaclen] at hb; omega)
      have hb₂ := Naf.byteGet16_bytePut16 (v := b'.length) (by simp only [maxsnaclen] at hb'; omega)
      rw [← hb₁, ← hb₂, hword.1, hword.2]
    rw [(List.append_inj hbody hlen).1]

/-- The first bytes of a buffer are its header. -/
theorem bytes_header (buf : Block) (n : Nat) : buf.bytes 0 (6 + n) =
    buf.byte 0 :: buf.byte 1 :: buf.byte 2 :: buf.byte 3 ::
      (bytePut16 (flaphdrLen buf) ++ buf.bytes 6 n) := by
  have hword : bytePut16 (flaphdrLen buf) = [buf.byte 4, buf.byte 5] := Naf.bytePut16_byteGet16 _ _
  rw [Nat.add_comm, hword]
  simp only [Block.bytes_succ, Nat.zero_add, List.cons_append, List.nil_append]

theorem hdrok_iff {buf : Block} : hdrok buf = true ↔ buf.byte 0 = 42 ∧
    (buf.byte 1 = 0x01 ∨ buf.byte 1 = 0x02 ∨ buf.byte 1 = 0x04 ∨ buf.byte 1 = 0x05) ∧
    flaphdrLen buf ≤ maxsnaclen := by
  simp [hdrok, and_assoc, or_assoc]

theorem flap_of_hdrok {buf : Block} {buflen : Nat} (hhdr : hdrok buf = true)
    (hlen : buflen = flaphdrLen buf + flaphdrlen) : Flap (buf.bytes 0 buflen) := by
  obtain ⟨hmagic, hchan, hmax⟩ := hdrok_iff.1 hhdr
  refine ⟨buf.byte 1, buf.byte 2, buf.byte 3, buf.bytes 6 (flaphdrLen buf), hchan, by simpa using hmax, ?_⟩
  rw [hlen, Nat.add_comm, flaphdrlen, bytes_header, hmagic, Block.length_bytes]

/-- A buffer with no more than a header starts with a frame only if that has no body. -/
theorem header_of_flap {buf : Block} {f : Bytes} (hf : Flap f) (hinit : f <+: buf.bytes 0 6) :
    hdrok buf = true ∧ flaphdrLen buf = 0 := by
  obtain ⟨chan, seq₁, seq₂, body, hchan, -, rfl⟩ := hf
  have hbody : body = [] := by
    have hle := hinit.length_le
    simp only [List.length_cons, List.length_append, Naf.length_bytePut16, Block.length_bytes] at hle
    exact List.eq_nil_of_length_eq_zero (by omega)
  subst hbody
  have heq := hinit.eq_of_length (by simp)
  have hhdr := bytes_header buf 0
  simp only [Nat.add_zero, Block.bytes_zero, List.append_nil] at hhdr
  rw [hhdr] at heq
  simp only [List.cons.injEq, bytePut16, and_true, List.length_nil, List.append_nil] at heq
  obtain ⟨hmagic, hchan', -, -, h₄, h₅⟩ := heq
  have hlen : flaphdrLen buf = 0 := by
    have hlt : flaphdrLen buf < 65536 := Naf.byteGet16_lt _ _
    rw [← Naf.byteGet16_bytePut16 hlt, ← h₄, ← h₅]
    rfl
  exact ⟨hdrok_iff.2 ⟨hmagic.symm, hchan' ▸ hchan, by rw [hlen]; decide⟩, hlen⟩

/-! ## The state of a reader -/

/-- What the reader waits for, when `rest` is what has arrived behind the last frame: a
header, or the body that the header in its buffer announces. -/
structure Reading (rx : Rx) (rest : Bytes) : Prop where
  size : rx.buf.size = maxflaplen
  rest : rest = rx.buf.bytes 0 rx.offset
  wants : rx.offset = 0 ∧ rx.len = flaphdrlen ∨
    rx.offset = flaphdrlen ∧ hdrok rx.buf = true ∧ 0 < flaphdrLen rx.buf ∧
      rx.len = flaphdrlen + flaphdrLen rx.buf

theorem Wanted.reading {rx : Rx} (h : Wanted rx) : Reading rx [] where
  size := h.size
  rest := by rw [h.offset, Block.bytes_zero]
  wants := .inl ⟨h.offset, h.len⟩

/-- The request ends inside the buffer. -/
theorem Reading.len_le {rx : Rx} {rest : Bytes} (h : Reading rx rest) :
    rx.offset < rx.len ∧ rx.len ≤ maxflaplen := by
  obtain ⟨hoffset, hlen⟩ | ⟨hoffset, hhdr, hpos, hlen⟩ := h.wants
  · rw [hoffset, hlen]
    decide
  · have hmax := (hdrok_iff.1 hhdr).2.2
    simp only [maxflaplen, flaphdrlen] at *
    omega

/-- The buffer once the request is completed holds all that has arrived. -/
theorem Reading.filled {rx : Rx} {rest bytes : Bytes} (h : Reading rx rest)
    (hlen : rx.offset + bytes.length = rx.len) :
    (rx.buf.fill rx.offset bytes).bytes 0 rx.len = rest ++ bytes := by
  rw [← hlen, Block.bytes_add, Nat.zero_add, Block.bytes_fill_same,
    Block.bytes_fill_before _ _ (by omega), ← h.rest]

/-- A completed request either completes a frame, or it was for the header. -/
theorem Reading.header {rx : Rx} {rest bytes : Bytes} (h : Reading rx rest)
    (hpart : ¬(hdrok (rx.buf.fill rx.offset bytes) = true ∧
      rx.len = flaphdrLen (rx.buf.fill rx.offset bytes) + flaphdrlen)) : rx.len = flaphdrlen := by
  obtain ⟨-, hlen⟩ | ⟨hoffset, hhdr, -, hlen⟩ := h.wants
  · exact hlen
  · -- storing the body has left the header as it was
    have hbyte : ∀ i, i < 6 → (rx.buf.fill rx.offset bytes).byte i = rx.buf.byte i := by
      intro i hi
      have hbefore : ¬rx.offset ≤ i := by
        simp only [hoffset, flaphdrlen]
        omega
      simp [Block.fill, hbefore]
    refine absurd ⟨?_, ?_⟩ hpart
    · rw [hdrok_iff] at hhdr ⊢
      simpa [flaphdrLen, hbyte] using hhdr
    · simp only [flaphdrLen, hbyte, Nat.reduceLT] at hlen ⊢
      rw [hlen, Nat.add_comm]

/-! ## What does not disturb a reader -/

/-- The frames that a list of observations shows handed on from a connection. -/
def handed (k : Nat) (obs : List Obs) : List Bytes :=
  obs.filterMap fun
    | .handed cid frame => if cid = k then some frame else none
    | _ => none

theorem handed_snoc_other {obs : List Obs} {o : Obs} (h : ∀ frame, o ≠ .handed k frame) :
    handed k (obs ++ [o]) = handed k obs := by
  cases o with
  | handed cid frame =>
      have hne : cid ≠ k := by
        rintro rfl
        exact h frame rfl
      simp [handed, List.filterMap_append, hne]
  | queued _ _ | answered _ _ _ _ | refused _ => simp [handed, List.filterMap_append]

theorem handed_snoc {obs : List Obs} {frame : Bytes} :
    handed k (obs ++ [.handed k frame]) = handed k obs ++ [frame] := by
  simp [handed, List.filterMap_append]

/-- Since `w₀`, no frame of the connection was handed on, and its request is the one it had,
or the first one of a new connection. -/
structure Undisturbed (p : Perm) (k : Nat) (w₀ w : World) : Prop where
  handed : handed k w.trace = handed k w₀.trace
  rx : ∀ c, w.conn? k = some c → (∃ c₀, w₀.conn? k = some c₀ ∧ c.rx = c₀.rx) ∨
    p.start ≤ k ∧ ∀ rx, c.rx = some rx → Wanted rx

namespace Undisturbed

variable {w₀ : World}

theorem refl : Undisturbed p k w w := ⟨rfl, fun c hc => .inl ⟨c, hc, rfl⟩⟩

theorem congr (h : Undisturbed p k w₀ w) (hconns : w'.conns = w.conns)
    (htrace : Oscar.handed k w'.trace = Oscar.handed k w.trace) : Undisturbed p k w₀ w' where
  handed := htrace.trans h.handed
  rx := fun c hc => h.rx c (by rw [← hc, World.conn?, World.conn?, hconns])

theorem modify {f : Conn → Conn} (h : Undisturbed p k w₀ w) (hcid : ∀ c, (f c).cid = c.cid)
    (hrx : ∀ c, w.conn? cid = some c → (f c).rx = c.rx) : Undisturbed p k w₀ (w.modify cid f) where
  handed := h.handed
  rx := fun c hc => by
    rw [World.conn?_modify hcid] at hc
    split at hc
    · rename_i hk
      obtain ⟨d, hd, rfl⟩ := Option.map_eq_some_iff.1 hc
      rw [hrx d (hk ▸ hd)]
      exact h.rx d hd
    · exact h.rx c hc

theorem setRx {rx : Option Rx} (h : Undisturbed p k w₀ w) (hk : cid ≠ k) :
    Undisturbed p k w₀ (w.modify cid (.setRx rx)) where
  handed := h.handed
  rx := fun c hc => by
    rw [World.conn?_modify (Conn.setRx_cid _), if_neg (Ne.symm hk)] at hc
    exact h.rx c hc

theorem request {rx : Rx} (h : Undisturbed p k w₀ w) (hnew : p.start ≤ cid) (hrx : Wanted rx) :
    Undisturbed p k w₀ (w.modify cid (.setRx (some rx))) := by
  by_cases hk : cid = k
  · refine ⟨h.handed, fun c hc => .inr ⟨hk ▸ hnew, fun rx' hrx' => ?_⟩⟩
    rw [World.conn?_modify (Conn.setRx_cid _), if_pos hk.symm] at hc
    obtain ⟨d, -, rfl⟩ := Option.map_eq_some_iff.1 hc
    obtain rfl : rx = rx' := Option.some.inj hrx'
    exact hrx
  · exact h.setRx hk

theorem insert {pos : Nat} {c : Conn} (h : Undisturbed p k w₀ w) (wf : w.Wf)
    (hstart : p.start ≤ w.nextcid) (hnew : New w c) : Undisturbed p k w₀ (w.insert pos c) where
  handed := h.handed
  rx := fun d hd => by
    rw [wf.conn?_insert hnew.cid] at hd
    split at hd
    · rename_i hk
      cases hd
      refine .inr ⟨hk ▸ hstart, fun rx hrx => ?_⟩
      rw [hnew.rx] at hrx
      cases hrx
    · exact h.rx d hd

theorem close (h : Undisturbed p k w₀ w) : Undisturbed p k w₀ (w.close cid) where
  handed := h.handed
  rx := fun c hc => by
    rw [World.conn?_close] at hc
    split at hc
    · cases hc
    · exact h.rx c hc

theorem sent {b : Bool} {frame : Bytes} {env : Env} (h : Undisturbed p k w₀ w) :
    Undisturbed p k w₀ (sent w cid b frame env) where
  handed := by
    rw [← h.handed]
    exact handed_snoc_other fun _ => by cases b <;> simp
  rx := fun c hc => by
    rw [conn?_sent] at hc
    split at hc
    · obtain ⟨d, hd, rfl⟩ := Option.map_eq_some_iff.1 hc
      exact h.rx d hd
    · exact h.rx c hc

end Undisturbed

theorem Quiet.undisturbed {w₀ : World} (h : Quiet p w w') (hu : Undisturbed p k w₀ w) :
    Undisturbed p k w₀ w' := by
  cases h with
  | env _ _ | count _ _ _ => exact hu.congr rfl rfl
  | touch hc ht =>
      refine hu.modify ht.cid fun d hd => ?_
      rw [hc, Option.some.injEq] at hd
      exact hd ▸ ht.rx
  | send _ _ _ => exact hu.sent
  | request _ hnew _ hrx => exact hu.request hnew hrx

/-- Only the reader of a connection disturbs it. -/
theorem Act.undisturbed {w₀ : World} (h : Act p w w') (wf : w.Wf) (hstart : p.start ≤ w.nextcid)
    (hown : p.own ≠ some k) (hu : Undisturbed p k w₀ w) : Undisturbed p k w₀ w' := by
  have hother : ∀ {cid}, p.own = some cid → cid ≠ k := by
    rintro cid hcid rfl
    exact hown hcid
  cases h with
  | quiet h => exact h.undisturbed hu
  | accept hnew => exact hu.insert wf hstart hnew
  | connect _ _ _ hnew _ hquiet =>
      have hkept := keep (I := fun v => Undisturbed p k w₀ v) (fun _ _ h => h.undisturbed) hquiet
        ((hu.insert wf hstart hnew).modify (Conn.setEndpoint_cid _) fun _ _ => Conn.setEndpoint_rx _ _)
      refine .modify (.modify hkept (Conn.setOwner_cid _) fun _ _ => ?_) (Conn.setEndpoint_cid _)
        fun _ _ => Conn.setEndpoint_rx _ _
      exact Conn.setOwner_rx _ _
  | disconnect _ _ | unlink _ _ _ =>
      exact hu.modify (Conn.setEndpoint_cid _) fun _ _ => Conn.setEndpoint_rx _ _
  | name _ _ _ _ _ => exact hu.modify (Conn.setTaglist_cid _) fun _ _ => Conn.setTaglist_rx _ _
  | bury _ => exact hu.close.congr rfl rfl
  | read hcid => exact hu.setRx (hother hcid)
  | hand hcid =>
      refine hu.congr rfl (handed_snoc_other fun _ h => ?_)
      exact hother hcid (Obs.handed.inj h).1
  | answer _ _ => exact hu.congr rfl (handed_snoc_other fun _ => by simp)
  | forward _ _ _ _ _ => exact .sent (hu.congr rfl (handed_snoc_other fun _ => by simp))
  | cookieAdd _ | cookieDrop _ | online _ _ | usehit | timeout | confchange => exact hu.congr rfl rfl

/-- Neither do many acts. -/
theorem acts_undisturbed (h : ReflTransGen (Act p) w w') (wf : w.Wf) (hstart : p.start ≤ w.nextcid)
    (hown : p.own ≠ some k) : w'.Wf ∧ w.nextcid ≤ w'.nextcid ∧ Undisturbed p k w w' := by
  refine keep (I := fun v => v.Wf ∧ w.nextcid ≤ v.nextcid ∧ Undisturbed p k w v)
    (fun v v' hact ⟨wf, hle, hu⟩ => ?_) h ⟨wf, Nat.le_refl _, .refl⟩
  exact ⟨hact.wf wf, Nat.le_trans hle hact.nextcid_le,
    hact.undisturbed wf (Nat.le_trans hstart hle) hown hu⟩

/-! ## The reader's own step -/

theorem reqread_ok {buf : Block} {buflen offset : Nat} {b : Bool} (hlen : buflen ≠ 0)
    (hr : reqread cid (some buf) buflen offset w = .ok (b, w')) :
    w'.trace = w.trace ∧
      (b = true → ∃ c, w'.conn? cid = some c ∧ c.rx = some { buf, len := buflen, offset }) := by
  simp only [reqread, if_neg hlen, bind_ok, Sys.conn_ok] at hr
  obtain ⟨c, w, ⟨hc, rfl⟩, refused, _, hrefused, hr⟩ := hr
  cases hrefused
  split at hr
  · cases pure_ok.1 hr
    exact ⟨rfl, by simp⟩
  · obtain ⟨_, _, hmod, hr⟩ := bind_ok.1 hr
    obtain ⟨-, hmod⟩ := Sys.modify_ok.1 hmod
    cases hmod
    cases pure_ok.1 hr
    refine ⟨rfl, fun _ => ⟨c.setRx (some { buf, len := buflen, offset }), ?_, rfl⟩⟩
    rw [World.conn?_modify (Conn.setRx_cid _), if_pos rfl]
    exact congrArg (Option.map _) hc

theorem reqflap_ok {oldbuf : Option Block} {b : Bool}
    (hsize : ∀ buf, oldbuf = some buf → buf.size = maxflaplen)
    (hr : reqflap cid oldbuf w = .ok (b, w')) :
    w'.trace = w.trace ∧ (b = true → ∃ c rx, w'.conn? cid = some c ∧ c.rx = some rx ∧ Wanted rx) := by
  cases oldbuf with
  | none =>
      obtain ⟨buf, _, hmem, hr⟩ := bind_ok.1 hr
      obtain ⟨_, h, hmalloc, hmem⟩ := Sys.mem_ok.1 hmem
      cases hmem
      cases buf with
      | none =>
          cases pure_ok.1 hr
          exact ⟨rfl, by simp⟩
      | some buf =>
          obtain ⟨htrace, hrx⟩ := reqread_ok (by decide) hr
          refine ⟨htrace, fun hb => ?_⟩
          obtain ⟨c, hc, hcrx⟩ := hrx hb
          exact ⟨c, _, hc, hcrx, Naf.malloc_size _ _ _ _ hmalloc buf rfl, rfl, rfl⟩
  | some buf =>
      obtain ⟨accepted, w₁, hread, hr⟩ := bind_ok.1 hr
      obtain ⟨htrace, hrx⟩ := reqread_ok (by decide) hread
      cases accepted with
      | false => cases hr
      | true =>
          cases pure_ok.1 hr
          obtain ⟨c, hc, hcrx⟩ := hrx rfl
          exact ⟨htrace, fun _ => ⟨c, _, hc, hcrx, hsize buf rfl, rfl, rfl⟩⟩

/-- However a frame is dealt with, the reader goes on with a header or not at all. -/
theorem conclude_ok {buf : Block} {buflen : Nat} {hret : Hret} {b : Bool}
    (hsize : buf.size = maxflaplen) (hhdr : 6 ≤ buflen) (hlt : buflen < 65536)
    (hr : conclude cid buf buflen hret w = .ok (b, w')) :
    handed k w'.trace = handed k w.trace ∧
      (b = true → ∃ c rx, w'.conn? cid = some c ∧ c.rx = some rx ∧ Wanted rx) := by
  obtain ⟨c, -, hconcluded⟩ := conclude_cases hhdr hlt hr
  have hanswered : handed k (w.observe (.answered cid (buf.bytes 0 buflen) hret c.endpoint)).trace =
      handed k w.trace := handed_snoc_other fun _ => by simp
  have hsent (w₁ : World) (e : Nat) (accepted : Bool) (frame : Bytes) (env : Env) :
      handed k (sent w₁ e accepted frame env).trace = handed k w₁.trace :=
    handed_snoc_other fun _ => by cases accepted <;> simp
  cases hconcluded with
  | error => exact ⟨hanswered, by simp⟩
  | reused _ hflap =>
      obtain ⟨htrace, hrx⟩ := reqflap_ok (by rintro _ ⟨⟩; exact hsize) hflap
      exact ⟨by rw [htrace, hanswered], hrx⟩
  | unsent => exact ⟨(hsent _ _ _ _ _).trans hanswered, by simp⟩
  | sent _ _ _ hflap =>
      obtain ⟨htrace, hrx⟩ := reqflap_ok (by simp) hflap
      exact ⟨by rw [htrace, hsent, hanswered], hrx⟩

/-- A bad header makes the reader return -1 before anything is handed on. -/
theorem handleread_badheader {c : Conn} {rx : Rx} (hc : w.conn? cid = some c) (hrx : c.rx = some rx)
    (hsize : rx.buf.size = maxflaplen) (hhdr : hdrok rx.buf = false) :
    handleread cid w = .ok (false, w.modify cid (.setRx none)) := by
  have htake : takeread cid w = .ok (some (rx.buf, rx.len), w.modify cid (.setRx none)) := by
    unfold takeread
    rw [Prog.bind_of_ok (Sys.conn_ok.2 ⟨hc, rfl⟩), hrx]
    dsimp only
    rw [Prog.bind_of_ok (Sys.modify_ok.2 ⟨⟨c, hc⟩, rfl⟩)]
    rfl
  have hload : mem (rx.buf.load 0 flaphdrlen) (w.modify cid (.setRx none)) =
      .ok (rx.buf.bytes 0 flaphdrlen, w.modify cid (.setRx none)) :=
    Sys.mem_load_ok.2 ⟨by rw [hsize]; decide, rfl⟩
  unfold handleread
  rw [Prog.bind_of_ok htake]
  dsimp only
  rw [Prog.bind_of_ok hload, if_pos hhdr]
  rfl

/-- What the reader makes of a completed request. -/
theorem handleread_ok {c : Conn} {rx : Rx} {b : Bool} (wf : w.Wf) (hc : w.conn? cid = some c)
    (hrx : c.rx = some rx) (hsize : rx.buf.size = maxflaplen)
    (hr : handleread cid w = .ok (b, w')) :
    if hdrok rx.buf then
      if rx.len = flaphdrLen rx.buf + flaphdrlen then
        handed cid w'.trace = handed cid w.trace ++ [rx.buf.bytes 0 rx.len] ∧
          (b = true → ∃ c rx, w'.conn? cid = some c ∧ c.rx = some rx ∧ Wanted rx)
      else
        handed cid w'.trace = handed cid w.trace ∧
          (b = true → rx.len ≠ 0 → ∃ c, w'.conn? cid = some c ∧
            c.rx = some { rx with len := rx.len + flaphdrLen rx.buf, offset := rx.len })
    else b = false ∧ handed cid w'.trace = handed cid w.trace := by
  split
  · rename_i hhdr
    obtain ⟨taken, w₁, htake, hr⟩ := bind_ok.1 hr
    obtain ⟨c', hc', ⟨hnone, -, -⟩ | ⟨rx', hrx', rfl, rfl⟩⟩ := takeread_ok htake
    · rw [hc, Option.some.injEq] at hc'
      rw [← hc', hrx] at hnone
      cases hnone
    obtain rfl : rx = rx' := by
      rw [hc, Option.some.injEq] at hc'
      rw [← hc', hrx] at hrx'
      exact Option.some.inj hrx'
    obtain ⟨_, _, hload, hr⟩ := bind_ok.1 hr
    obtain ⟨-, hload⟩ := Sys.mem_load_ok.1 hload
    cases hload
    rw [if_neg (by simp [hhdr])] at hr
    split
    · rename_i hlen
      rw [if_neg (by simp [hlen])] at hr
      obtain ⟨_, w₁, hobs, hr⟩ := bind_ok.1 hr
      cases update_ok.1 hobs
      obtain ⟨hret, w₂, hdispatch, hr⟩ := bind_ok.1 hr
      have wf₁ : ((w.modify cid (.setRx none)).observe (.handed cid (rx.buf.bytes 0 rx.len))).Wf :=
        (wf.modify (Conn.setRx_cid _)).congr rfl (Nat.le_refl _)
      -- nothing that a handler does reaches the connection's request
      have hacts := dispatch_acts (p := ⟨w.nextcid, none, fun _ => True, fun _ => True, True⟩) wf₁
        (Nat.le_refl _) (fun _ _ => trivial) (fun _ _ _ => trivial) (fun _ _ => trivial) _ _ hdispatch
      have hundisturbed := (acts_undisturbed (k := cid) hacts wf₁ (Nat.le_refl _) (by simp)).2.2
      have hmax := (hdrok_iff.1 hhdr).2.2
      simp only [maxsnaclen, flaphdrlen] at hmax hlen
      obtain ⟨hhanded, hrx'⟩ := conclude_ok (k := cid) hsize (by omega) (by omega) hr
      refine ⟨?_, hrx'⟩
      rw [hhanded, hundisturbed.handed]
      exact handed_snoc
    · rename_i hlen
      rw [if_pos hlen] at hr
      by_cases hzero : rx.len + flaphdrLen rx.buf = 0
      · refine ⟨?_, fun _ hne => absurd (by omega) hne⟩
        simp only [reqread, hzero, if_true] at hr
        cases pure_ok.1 hr
        rfl
      · obtain ⟨htrace, hrx'⟩ := reqread_ok hzero hr
        exact ⟨by rw [htrace]; rfl, fun hb _ => hrx' hb⟩
  · rename_i hhdr
    rw [handleread_badheader hc hrx hsize (by simpa using hhdr)] at hr
    cases hr
    exact ⟨rfl, rfl⟩

/-! ## Runs -/

/-- The bytes that a step brings to the reader of a connection. -/
def arrived (k : Nat) (s : World × Input) : Bytes :=
  match s.2.event with
  | .readable cid bytes => if cid = k ∧ (received s.1 s.2.event).isSome then bytes else []
  | _ => []

/-- The stream that a connection has delivered. -/
def delivered (k : Nat) (h : List (World × Input)) : Bytes := h.flatMap (arrived k)

/-- All frames of the stream were handed on, and the connection waits for what follows. -/
structure Reader (k : Nat) (stream : Bytes) (w : World) : Prop where
  fresh : w.nextcid ≤ k → stream = [] ∧ handed k w.trace = []
  split : ∃ rest, Splits Flap stream (handed k w.trace) rest ∧ ∀ c, w.conn? k = some c →
    (∀ rx, c.rx = some rx → Reading rx rest) ∧ (stream ≠ [] → c.rx.isSome)

variable {stream : Bytes}

theorem Reader.undisturbed (hreader : Reader k stream w) (hstart : w.nextcid ≤ p.start)
    (hnext : w.nextcid ≤ w'.nextcid) (hu : Undisturbed p k w w') : Reader k stream w' where
  fresh := fun hk => by
    rw [hu.handed]
    exact hreader.fresh (Nat.le_trans hnext hk)
  split := by
    obtain ⟨rest, hsplit, hrx⟩ := hreader.split
    refine ⟨rest, by rw [hu.handed]; exact hsplit, fun c hc => ?_⟩
    obtain ⟨c₀, hc₀, heq⟩ | ⟨hnew, hwanted⟩ := hu.rx c hc
    · rw [heq]
      exact hrx c₀ hc₀
    · obtain ⟨hstream, hnone⟩ := hreader.fresh (Nat.le_trans hstart hnew)
      have hrest : rest = [] := by
        have heq := hsplit.eq
        rw [hstream, hnone] at heq
        exact heq.symm
      exact ⟨fun rx hrx => hrest ▸ (hwanted rx hrx).reading, fun hne => absurd hstream hne⟩

/-- When a connection is closed its reader is done. -/
theorem Reader.free {rest : Bytes} {u : Unit} (wf : w.Wf)
    (hsplit : Splits Flap stream (handed k w.trace) rest)
    (hr : Naf.Conn.free ops k w = .ok (u, w')) : Reader k stream w' := by
  obtain ⟨hacts, hgone⟩ := free_ok (p := ⟨w.nextcid, none, fun _ => True, fun _ => True, True⟩) wf hr
  have hu := (acts_undisturbed (k := k) hacts wf (Nat.le_refl _) (by simp)).2.2
  refine ⟨fun hk => absurd hgone.lt (Nat.not_lt.2 hk), rest, by rw [hu.handed]; exact hsplit, ?_⟩
  intro c hc
  rw [hgone.none] at hc
  cases hc

/-- The reader takes a completed request as far as the frames in it go. -/
theorem Reader.handleread {c : Conn} {rx : Rx} {bytes : Bytes} {u : Unit} (wf : w.Wf)
    (hreader : Reader k stream w) (hc : w.conn? k = some c) (hrx : c.rx = some rx)
    (hlen : rx.offset + bytes.length = rx.len)
    (hr : (do if ← handleread k then pure () else Naf.Conn.free ops k : Sys Unit)
      (stored w k rx bytes) = .ok (u, w')) : Reader k (stream ++ bytes) w' := by
  obtain ⟨rest, hsplit, hreading⟩ := hreader.split
  have hstate := (hreading c hc).1 rx hrx
  have hfilled := hstate.filled hlen
  have wf₁ : (stored w k rx bytes).Wf := wf.modify (Conn.setRx_cid _)
  have hk : k < (stored w k rx bytes).nextcid := wf.lt_nextcid hc
  obtain ⟨b, w₂, hread, hrest⟩ := bind_ok.1 hr
  have hacts := handleread_acts (p := ⟨w.nextcid, some k, fun _ => True, fun _ => True, True⟩) wf₁
    (Nat.le_refl _) rfl (fun _ _ => trivial) (fun _ _ _ _ _ _ _ _ _ => trivial)
    (fun _ _ _ _ _ _ _ _ => trivial) _ _ hread
  have hkept := keep (I := fun v => v.Wf ∧ k < v.nextcid)
    (fun _ _ hact hv => ⟨hact.wf hv.1, Nat.lt_of_lt_of_le hv.2 hact.nextcid_le⟩) hacts ⟨wf₁, hk⟩
  -- it suffices to say what is left, and what the reader waits for if it goes on
  suffices hfinal : ∃ rest', Splits Flap (stream ++ bytes) (handed k w₂.trace) rest' ∧
      (b = true → ∃ c rx, w₂.conn? k = some c ∧ c.rx = some rx ∧ Reading rx rest') by
    obtain ⟨rest', hsplit', hgoes⟩ := hfinal
    cases b with
    | false => exact .free hkept.1 hsplit' hrest
    | true =>
        cases pure_ok.1 hrest
        obtain ⟨c', rx', hc', hrx', hreading'⟩ := hgoes rfl
        refine ⟨fun hle => absurd hkept.2 (Nat.not_lt.2 hle), rest', hsplit', fun d hd => ?_⟩
        rw [hc', Option.some.injEq] at hd
        subst hd
        rw [hrx']
        exact ⟨by rintro _ ⟨⟩; exact hreading', fun _ => rfl⟩
  have hspec := handleread_ok wf₁ (conn?_stored hc) rfl hstate.size hread
  dsimp only at hspec
  split at hspec
  · rename_i hhdr
    split at hspec
    · -- a frame is complete
      rename_i hcomplete
      refine ⟨[], ?_, fun hb => ?_⟩
      · rw [hspec.1, hfilled]
        exact hsplit.complete flap_prefixFree (hfilled ▸ flap_of_hdrok hhdr hcomplete)
      · obtain ⟨c', rx', hc', hrx', hwanted⟩ := hspec.2 hb
        exact ⟨c', rx', hc', hrx', hwanted.reading⟩
    · -- a header that announces a body
      rename_i hpart
      have hsix := hstate.header fun h => hpart h.2
      have hbody : flaphdrLen (rx.buf.fill rx.offset bytes) ≠ 0 := by
        rintro hzero
        exact hpart (by rw [hsix, hzero, Nat.zero_add])
      refine ⟨rest ++ bytes, ?_, fun hb => ?_⟩
      · rw [hspec.1]
        refine hsplit.more fun f hf hinit => hbody ?_
        rw [← hfilled, hsix] at hinit
        exact (header_of_flap hf hinit).2
      · obtain ⟨c', hc', hrx'⟩ := hspec.2 hb (by rw [hsix]; decide)
        refine ⟨c', _, hc', hrx', hstate.size, hfilled.symm, .inr ⟨hsix, hhdr, ?_, ?_⟩⟩
        · exact Nat.pos_of_ne_zero hbody
        · rw [hsix]
  · -- a bad header
    rename_i hhdr
    have hsix := hstate.header fun h => hhdr h.1
    refine ⟨rest ++ bytes, ?_, fun hb => absurd hb (by simp [hspec.1])⟩
    rw [hspec.2]
    refine hsplit.more fun f hf hinit => hhdr ?_
    rw [← hfilled, hsix] at hinit
    exact (header_of_flap hf hinit).1

theorem Reader.step {i : Input} (wf : w.Wf) (hreader : Reader k stream w)
    (hstep : step i w = .ok w') : Reader k (stream ++ arrived k (w, i)) w' := by
  have wf' : ({ w with env := i.env } : World).Wf := wf.congr rfl (Nat.le_refl _)
  have hreader' : Reader k stream { w with env := i.env } := ⟨hreader.fresh, hreader.split⟩
  -- only its own reads move the reader of a connection
  by_cases hown : (permOf w i).own = some k
  · obtain ⟨bytes, hevent⟩ : ∃ bytes, i.event = .readable k bytes := by
      simp only [permOf] at hown
      split at hown
      · rename_i bytes hevent
        cases hown
        exact ⟨bytes, hevent⟩
      · cases hown
    have hrun : ∃ u, completeread k bytes { w with env := i.env } = .ok (u, w') := by
      simp only [Oscar.step, hevent, handle] at hstep
      split at hstep
      · rename_i u w₁ hrun
        cases hstep
        exact ⟨u, hrun⟩
      · cases hstep
    obtain ⟨u, hrun⟩ := hrun
    have harrived : arrived k (w, i) =
        if (received { w with env := i.env } (.readable k bytes)).isSome then bytes else [] := by
      simp only [arrived, hevent, true_and]
      rfl
    obtain ⟨hno, rfl⟩ | ⟨c, rx, hc, hrx, hlen, -, ⟨hno, hfree⟩ | ⟨hyes, hread⟩⟩ := completeread_ok hrun
    · rw [harrived, hno]
      simpa using hreader'
    · rw [harrived, hno]
      obtain ⟨rest, hsplit, -⟩ := hreader'.split
      have hclosed := Reader.free (w := stored { w with env := i.env } k rx bytes)
        (wf'.modify (Conn.setRx_cid _)) hsplit hfree
      simpa using hclosed
    · rw [harrived, hyes]
      exact hreader'.handleread wf' hc hrx hlen hread
  · have harrived : arrived k (w, i) = [] := by
      simp only [arrived]
      split
      · rename_i cid bytes hevent
        have hne : cid ≠ k := by
          rintro rfl
          exact hown (by simp [permOf, hevent])
        rw [if_neg fun h => hne h.1]
      · rfl
    rw [harrived, List.append_nil]
    obtain ⟨-, hnext, hu⟩ := acts_undisturbed (step_acts wf hstep) wf' (Nat.le_refl _) hown
    exact hreader'.undisturbed (Nat.le_refl _) hnext hu

/-- What the reader of `k` has made of the steps `h`. -/
structure ReadsFrames (k : Nat) (h : List (World × Input)) (w : World) : Prop where
  /-- every frame that is complete was handed on, in order -/
  split : ∃ rest, Splits Flap (delivered k h) (handed k w.trace) rest
  /-- of a concatenation of frames exactly these were handed on -/
  whole : ∀ frames, (∀ f ∈ frames, Flap f) → delivered k h = frames.flatten →
    handed k w.trace = frames
  /-- and while it arrives, the first of them -/
  begun : ∀ frames, (∀ f ∈ frames, Flap f) → delivered k h <+: frames.flatten →
    handed k w.trace <+: frames
  /-- as long as the connection is open, there is a request for what follows -/
  goes : ∀ c, w.conn? k = some c → delivered k h ≠ [] → c.rx.isSome
  /-- which ends inside its buffer -/
  bounds : ∀ c rx, w.conn? k = some c → c.rx = some rx →
    rx.offset < rx.len ∧ rx.len ≤ maxflaplen ∧ rx.buf.size = maxflaplen

/-- The reader hands on exactly the frames of the stream, and never asks for more than its
buffer holds. At a bad header it returns -1, and nothing is handed on or answered. -/
theorem reader_frames {h : List (World × Input)} (hrun : Run step Initial h w) (k : Nat) :
    ReadsFrames k h w ∧
    ∀ w c rx, w.conn? k = some c → c.rx = some rx → rx.buf.size = maxflaplen →
      hdrok rx.buf = false → ∃ w', handleread k w = .ok (false, w') ∧ w'.trace = w.trace := by
  have hreader : Reader k (delivered k h) w := by
    refine hrun.invariant_history (I := fun h w => Reader k (delivered k h) w) (G := fun _ _ => True)
      (fun _ _ => trivial) (fun w hinit => ?_) ?_
    · obtain ⟨hconns, -, -, -, -, htrace⟩ := hinit
      have hnone : handed k w.trace = [] := by simp [htrace, handed]
      refine ⟨fun _ => ⟨rfl, hnone⟩, [], hnone ▸ .nil flap_prefixFree, fun c hc => ?_⟩
      simp [World.conn?, hconns] at hc
    · intro h i w w' hrun hreader _ hstep
      have hdelivered : delivered k (h ++ [(w, i)]) = delivered k h ++ arrived k (w, i) := by
        simp [delivered]
      rw [hdelivered]
      exact hreader.step (run_wf hrun) hstep
  obtain ⟨rest, hsplit, hrx⟩ := hreader.split
  refine ⟨⟨⟨rest, hsplit⟩, ?_, ?_, fun c hc => (hrx c hc).2, fun c rx hc hcrx => ?_⟩, ?_⟩
  · exact fun frames hframes => hsplit.eq_of_flatten flap_prefixFree hframes
  · exact fun frames hframes => hsplit.prefix_of_prefix flap_prefixFree hframes
  · have hreading := (hrx c hc).1 rx hcrx
    exact ⟨hreading.len_le.1, hreading.len_le.2, hreading.size⟩
  · exact fun w c rx hc hcrx hsize hhdr => ⟨_, handleread_badheader hc hcrx hsize hhdr, rfl⟩

/-- A client sends two frames: the cookie is digested, and going online is sent on. -/
theorem reader_frames_online :
    ∃ h w, Run step Initial h w ∧ h.map (·.2) = onlineframes (lit "alice") [1, 2, 3, 4] ∧
      handed 2 w.trace = [cookieframe [1, 2, 3, 4], snacframe 0x0001 0x0002 []] ∧
      ReadsFrames 2 h w ∧
      ∀ w c rx, w.conn? 2 = some c → c.rx = some rx → rx.buf.size = maxflaplen →
        hdrok rx.buf = false → ∃ w', handleread 2 w = .ok (false, w') ∧ w'.trace = w.trace := by
  have hreach : (replayInputs step (onlineframes (lit "alice") [1, 2, 3, 4]) started).toOption.any
      (fun r => handed 2 r.2.trace = [cookieframe [1, 2, 3, 4], snacframe 0x0001 0x0002 []]) = true := by
    decide +kernel
  obtain ⟨h, w, hrun, hinputs, hw⟩ := Run.exists_of_replay started_initial hreach
  exact ⟨h, w, hrun, hinputs, by simpa using hw, reader_frames hrun 2⟩

end Timps.Oscar
