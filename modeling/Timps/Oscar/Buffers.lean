-- SUMMARY: Frame buffers as pointers: what the reader does with the buffer it takes, and what it frees.
import Timps.Oscar.Making

/-!
# Frame buffers

The reader takes a buffer off the connection and has to get rid of it. Here a buffer is its
address, and the trace of a call says what was done with it. What the calls outside answer is
`Outcomes`. Every call of the reader that has the whole world is one here: with the same result,
with the answer of the handler and the endpoint that its world shows, and with a write of the
buffer exactly if the frame was queued.
-/

namespace Timps.Oscar

open Naf (Block)
open Prog (bind_ok bind_of_ok bind_of_error)

/-- What happens to buffers. -/
inductive Use where
  /-- libnbio has it, for the read request of the connection -/
  | read (buf : Nat)
  /-- libnbio has it, for a write request of the endpoint -/
  | write (buf : Nat)
  | alloc (buf : Nat)
  /-- an argument of `naf_free` -/
  | free (buf : Option Nat)
  deriving DecidableEq

/-- What is answered during one call of the reader. -/
structure Outcomes where
  /-- the handler of the frame's channel -/
  hret : Hret
  /-- the connection has an endpoint -/
  endpoint : Bool
  /-- libnbio takes a read request -/
  canread : Bool
  /-- libnbio takes a write request on the endpoint -/
  canwrite : Bool
  /-- what `naf_malloc_type` gives -/
  alloc : Option Nat

/-- Programs that leave a trace of what they do with buffers. -/
abbrev Uses := Prog Fault (List Use)

namespace Uses

def note (u : Use) : Uses Unit := Prog.update fun t => t ++ [u]

/-! ## Calls -/

/-- `naf_free` does nothing for a null pointer. -/
def free (buf : Option Nat) : Uses Unit := note (.free buf)

section

variable (o : Outcomes)

def malloc : Uses (Option Nat) :=
  match o.alloc with
  | none => pure none
  | some buf => do
      note (.alloc buf)
      pure (some buf)

def reqread (buf : Option Nat) (buflen : Nat) : Uses Bool :=
  match buf with
  | none => pure false
  | some buf =>
      if buflen = 0 then pure false
      else if o.canread then do
        note (.read buf)
        pure true
      else pure false

def reqwrite (buf buflen : Nat) : Uses Bool :=
  if buflen = 0 then pure false
  else if o.canwrite then do
    note (.write buf)
    pure true
  else pure false

/-- When a request for the old buffer is refused, the local `buf` was never set. -/
def reqflap (oldbuf : Option Nat) : Uses Bool :=
  match oldbuf with
  | some oldbuf => do
      if ← reqread o (some oldbuf) flaphdrlen then pure true
      else Prog.fault .uninitialised
  | none => do
      let buf ← malloc o
      if ← reqread o buf flaphdrlen then pure true
      else do
        (if buf.isSome then free buf else pure ())
        pure false

/-- The buffer is not consumed unless it is queued. -/
def sendraw (buf buflen : Nat) : Uses Bool :=
  if o.endpoint then reqwrite o buf buflen else pure false

/-- errout -/
def errout (buf : Option Nat) : Uses Bool := do
  free buf
  pure false

/-- go again -/
def again (buf : Option Nat) : Uses Bool := do
  if ← reqflap o buf then pure true else errout buf

/-- The reader, from where it took `buf` with these contents. -/
def handleread (buf : Nat) (frame : Block) (buflen : Nat) : Uses Bool :=
  if hdrok frame = false then errout (some buf)
  else if buflen ≠ flaphdrLen frame + flaphdrlen then do
    -- continue later
    if ← reqread o (some buf) (buflen + flaphdrLen frame) then pure true else errout (some buf)
  else
    match o.hret with
    | .error => errout (some buf)
    | .forward =>
        if o.endpoint then do
          if ← sendraw o buf buflen then again o none else errout (some buf)
        else again o (some buf)
    | .digested => again o (some buf)

end

end Uses

/-! ## Ownership -/

namespace Use

/-- The buffer that something happens to. -/
def buf : Use → Option Nat
  | read buf | write buf | alloc buf => some buf
  | free buf => buf

/-- Every buffer that is freed was allocated and not yet released. -/
def Sound : List Nat → List Use → Prop
  | _, [] => True
  | live, alloc buf :: t => Sound (buf :: live) t
  | live, free (some buf) :: t => buf ∈ live ∧ Sound (live.erase buf) t
  | live, _ :: t => Sound live t

/-- The buffer is requested again for reading, or queued for writing, or freed by a call that failed:
one of them, and once. -/
def One (buf : Nat) (r : Bool) (t : List Use) : Prop :=
  ∃ u, t.filter (fun u => u.buf = some buf) = [u] ∧
    (u = read buf ∨ u = write buf ∨ u = free (some buf) ∧ r = false)

end Use

/-- A frame that is all there. -/
def Complete (frame : Block) (buflen : Nat) : Prop :=
  hdrok frame = true ∧ buflen = flaphdrLen frame + flaphdrlen

/-- The reader wants to read into the buffer of a complete frame again, and libnbio does not take it. -/
def Outcomes.Rejects (o : Outcomes) (frame : Block) (buflen : Nat) : Prop :=
  Complete frame buflen ∧ (o.hret = .digested ∨ o.hret = .forward ∧ o.endpoint = false) ∧ o.canread = false

namespace Uses

variable {o : Outcomes} {buf buflen : Nat} {t : List Use}

/-! ## The ways of a buffer -/

theorem reqread_taken (hcan : o.canread = true) (hlen : buflen ≠ 0) :
    reqread o (some buf) buflen t = .ok (true, t ++ [.read buf]) := by
  rw [reqread, if_neg hlen, if_pos hcan]
  rfl

theorem reqread_refused (hcan : ¬(o.canread = true ∧ buflen ≠ 0)) (b : Option Nat) :
    reqread o b buflen t = .ok (false, t) := by
  cases b with
  | none => rfl
  | some buf =>
      by_cases hlen : buflen = 0
      · rw [reqread, if_pos hlen]
        rfl
      · rw [reqread, if_neg hlen, if_neg fun h => hcan ⟨h, hlen⟩]
        rfl

theorem sendraw_queued (hend : o.endpoint = true) (hcan : o.canwrite = true) (hlen : buflen ≠ 0) :
    sendraw o buf buflen t = .ok (true, t ++ [.write buf]) := by
  rw [sendraw, if_pos hend, reqwrite, if_neg hlen, if_pos hcan]
  rfl

theorem sendraw_refused (hcan : ¬o.canwrite = true) : sendraw o buf buflen t = .ok (false, t) := by
  rw [sendraw, reqwrite, if_neg hcan, ite_self, ite_self]
  rfl

/-- A buffer that was not consumed is read into again. -/
theorem again_kept (hcan : o.canread = true) : again o (some buf) t = .ok (true, t ++ [.read buf]) := by
  have hreq : reqflap o (some buf) t = .ok (true, t ++ [.read buf]) := by
    rw [reqflap, bind_of_ok (reqread_taken hcan (by decide))]
    rfl
  rw [again, bind_of_ok hreq]
  rfl

/-- A refusal reaches the local that was never set. -/
theorem again_rejected (hcan : o.canread = false) : again o (some buf) t = .error .uninitialised := by
  have hreq : reqflap o (some buf) t = .error .uninitialised := by
    rw [reqflap, bind_of_ok (reqread_refused (by rw [hcan]; exact fun h => nomatch h.1) _)]
    rfl
  rw [again, bind_of_error hreq]

/-- What happens to the buffer that takes the place of one that was consumed. -/
def Replaced (fresh : Option Nat) (r : Bool) (t : List Use) : Prop :=
  (fresh = none ∧ r = false ∧ t = [.free none]) ∨
    ∃ p, fresh = some p ∧ ((r = true ∧ t = [.alloc p, .read p]) ∨
      (r = false ∧ t = [.alloc p, .free (some p), .free none]))

theorem again_replaced (o : Outcomes) (t : List Use) :
    ∃ r t', again o none t = .ok (r, t ++ t') ∧ Replaced o.alloc r t' := by
  cases halloc : o.alloc with
  | none =>
      have hmalloc : malloc o t = .ok (none, t) := by
        rw [malloc, halloc]
        rfl
      have hreq : reqflap o none t = .ok (false, t) := by
        rw [reqflap, bind_of_ok hmalloc]
        rfl
      rw [again, bind_of_ok hreq]
      exact ⟨false, [.free none], rfl, .inl ⟨rfl, rfl, rfl⟩⟩
  | some p =>
      have hmalloc : malloc o t = .ok (some p, t ++ [.alloc p]) := by
        rw [malloc, halloc]
        rfl
      by_cases hcan : o.canread = true
      · have hreq : reqflap o none t = .ok (true, t ++ [.alloc p] ++ [.read p]) := by
          rw [reqflap, bind_of_ok hmalloc, bind_of_ok (reqread_taken hcan (by decide))]
          rfl
        rw [again, bind_of_ok hreq, List.append_assoc]
        exact ⟨true, [.alloc p, .read p], rfl, .inr ⟨p, rfl, .inl ⟨rfl, rfl⟩⟩⟩
      · have hreq : reqflap o none t = .ok (false, t ++ [.alloc p] ++ [.free (some p)]) := by
          rw [reqflap, bind_of_ok hmalloc, bind_of_ok (reqread_refused (fun h => hcan h.1) _)]
          rfl
        rw [again, bind_of_ok hreq]
        refine ⟨false, [.alloc p, .free (some p), .free none], ?_, .inr ⟨p, rfl, .inr ⟨rfl, rfl⟩⟩⟩
        rw [show [Use.alloc p, .free (some p), .free none] = [.alloc p] ++ [.free (some p)] ++ [.free none] from rfl,
          ← List.append_assoc, ← List.append_assoc]
        rfl

/-- The ways of the buffer that the reader took: it is left to libnbio again, or freed, or queued and replaced. -/
inductive Way (o : Outcomes) (buf : Nat) : Bool → List Use → Prop
  | kept : Way o buf true [.read buf]
  | freed : Way o buf false [.free (some buf)]
  | queued {r : Bool} {t : List Use} : Replaced o.alloc r t → Way o buf r (.write buf :: t)

theorem handleread_way (frame : Block) (haccepted : ¬o.Rejects frame buflen) :
    ∃ r t, handleread o buf frame buflen [] = .ok (r, t) ∧ Way o buf r t := by
  rw [handleread]
  by_cases hhdr : hdrok frame = false
  · rw [if_pos hhdr]
    exact ⟨_, _, rfl, .freed⟩
  rw [if_neg hhdr]
  by_cases hmore : buflen ≠ flaphdrLen frame + flaphdrlen
  · rw [if_pos hmore]
    by_cases hcan : o.canread = true ∧ buflen + flaphdrLen frame ≠ 0
    · rw [bind_of_ok (reqread_taken hcan.1 hcan.2)]
      exact ⟨_, _, rfl, .kept⟩
    · rw [bind_of_ok (reqread_refused hcan _)]
      exact ⟨_, _, rfl, .freed⟩
  rw [if_neg hmore]
  have hcomplete : Complete frame buflen := ⟨Bool.eq_true_of_not_eq_false hhdr, not_not.1 hmore⟩
  have hlen : buflen ≠ 0 := by
    rw [hcomplete.2, flaphdrlen]
    omega
  have hagain (hkept : o.hret = .digested ∨ o.hret = .forward ∧ o.endpoint = false) : o.canread = true :=
    Bool.eq_true_of_not_eq_false fun hcan => haccepted ⟨hcomplete, hkept, hcan⟩
  cases hret : o.hret with
  | error => exact ⟨_, _, rfl, .freed⟩
  | digested => exact ⟨_, _, again_kept (hagain (.inl hret)), .kept⟩
  | forward =>
      dsimp only
      by_cases hend : o.endpoint = true
      · rw [if_pos hend]
        by_cases hcan : o.canwrite = true
        · obtain ⟨r, t, hrest, hreplaced⟩ := again_replaced o [.write buf]
          rw [bind_of_ok (sendraw_queued hend hcan hlen)]
          exact ⟨r, _, hrest, .queued hreplaced⟩
        · rw [bind_of_ok (sendraw_refused hcan)]
          exact ⟨_, _, rfl, .freed⟩
      · rw [if_neg hend]
        exact ⟨_, _, again_kept (hagain (.inr ⟨hret, Bool.eq_false_iff.2 hend⟩)), .kept⟩

theorem Way.one {r : Bool} (way : Way o buf r t) (hfresh : ∀ p, o.alloc = some p → p ≠ buf) :
    Use.One buf r t := by
  cases way with
  | kept => exact ⟨.read buf, by simp [Use.buf], .inl rfl⟩
  | freed => exact ⟨.free (some buf), by simp [Use.buf], .inr (.inr ⟨rfl, rfl⟩)⟩
  | queued hreplaced =>
      refine ⟨.write buf, ?_, .inr (.inl rfl)⟩
      obtain ⟨-, -, rfl⟩ | ⟨p, hp, ⟨-, rfl⟩ | ⟨-, rfl⟩⟩ := hreplaced
      · simp [Use.buf]
      · simp [Use.buf, hfresh p hp]
      · simp [Use.buf, hfresh p hp]

theorem Way.sound {r : Bool} {live : List Nat} (way : Way o buf r t) (hbuf : buf ∈ live) : Use.Sound live t := by
  cases way with
  | kept => exact True.intro
  | freed => exact ⟨hbuf, True.intro⟩
  | queued hreplaced =>
      obtain ⟨-, -, rfl⟩ | ⟨p, -, ⟨-, rfl⟩ | ⟨-, rfl⟩⟩ := hreplaced
      · exact True.intro
      · exact True.intro
      · exact ⟨.head _, True.intro⟩

theorem handleread_rejected {frame : Block} (hrejects : o.Rejects frame buflen) :
    handleread o buf frame buflen [] = .error .uninitialised := by
  obtain ⟨⟨hhdr, hlen⟩, hkept, hcan⟩ := hrejects
  rw [handleread, if_neg (by rw [hhdr]; exact Bool.noConfusion), if_neg (not_not.2 hlen)]
  obtain hret | ⟨hret, hend⟩ := hkept
  · rw [hret]
    exact again_rejected hcan
  · rw [hret]
    dsimp only
    rw [if_neg (by rw [hend]; exact Bool.noConfusion)]
    exact again_rejected hcan

/-- The buffer that the reader takes has one use and nothing is freed twice, unless the reader wants to
read into the buffer of a complete frame again and is refused. -/
theorem buffer_one_owner {live : List Nat} (hbuf : buf ∈ live) (hfresh : ∀ p, o.alloc = some p → p ∉ live)
    (frame : Block) :
    (∃ r t, handleread o buf frame buflen [] = .ok (r, t) ∧ Use.One buf r t ∧ Use.Sound live t) ↔
      ¬o.Rejects frame buflen := by
  constructor
  · rintro ⟨r, t, hcall, -⟩ hrejects
    rw [handleread_rejected hrejects] at hcall
    cases hcall
  · intro haccepted
    obtain ⟨r, t, hcall, way⟩ := handleread_way frame haccepted
    refine ⟨r, t, hcall, way.one fun p hp heq => ?_, way.sound hbuf⟩
    rw [heq] at hp
    exact hfresh buf hp hbuf

/-- A keepalive frame without data. -/
def nop : Block := (⟨maxflaplen, fun _ => 0⟩ : Block).fill 0 [42, 5, 0, 1, 0, 0]

/-- A keepalive that is sent on, with a new buffer for the next frame. -/
theorem buffer_one_owner_nop :
    ∃ r t, handleread ⟨.forward, true, true, true, some 8⟩ 7 nop 6 [] = .ok (r, t) ∧
      Use.One 7 r t ∧ Use.Sound [7] t := by
  have hfresh (p : Nat) (hp : some 8 = some p) : p ∉ [7] := by
    cases hp
    decide
  exact (buffer_one_owner (o := ⟨.forward, true, true, true, some 8⟩) (.head _) hfresh nop).2
    fun hrejects => nomatch hrejects.2.2

/-- A keepalive on a connection without an endpoint, and the request for the next frame is refused. -/
theorem buffer_unowned : ¬∃ r t, handleread ⟨.forward, false, false, true, some 8⟩ 7 nop 6 [] = .ok (r, t) ∧
    Use.One 7 r t ∧ Use.Sound [7] t := by
  rintro ⟨r, t, hcall, -⟩
  have hrejects : Outcomes.Rejects ⟨.forward, false, false, true, some 8⟩ nop 6 :=
    ⟨⟨by decide +kernel, by decide +kernel⟩, .inr ⟨rfl, rfl⟩, rfl⟩
  rw [handleread_rejected hrejects] at hcall
  cases hcall

/-! ## The reader -/

/-- The world shows the answer of the frame's handler, to a connection with or without an endpoint, and that
the frame was queued if its buffer is written. -/
def Shown (o : Outcomes) (cid buf : Nat) (frame : Bytes) (t : List Use) (trace : List Obs) : Prop :=
  ∃ before endpoint after, trace = before ++ .answered cid frame o.hret endpoint :: after ∧
    o.endpoint = endpoint.isSome ∧ (.write buf ∈ t ↔ ∃ e g, after = [.queued e g])

variable {w w' : World} {cid fresh : Nat} {r : Bool}

/-- The next request answers what it answers in the world, and writes nothing. -/
theorem again_outcomes (buf fresh : Nat) {old : Option Block} (hr : Oscar.reqflap cid old w = .ok (r, w'))
    (hret : Hret) (endpoint canwrite : Bool) (t : List Use) :
    ∃ canread alloc t', (∀ p, alloc = some p → p = fresh) ∧ (.write buf ∈ t' ↔ .write buf ∈ t) ∧
      again ⟨hret, endpoint, canread, canwrite, alloc⟩ (old.map fun _ => buf) t = .ok (r, t') := by
  cases old with
  | some oldbuf =>
      obtain ⟨b, w₁, -, hr⟩ := bind_ok.1 hr
      cases b with
      | false => cases hr
      | true =>
          cases hr
          exact ⟨true, none, _, by simp, by simp, again_kept rfl⟩
  | none =>
      obtain ⟨block, w₁, -, hr⟩ := bind_ok.1 hr
      cases block with
      | none =>
          cases hr
          exact ⟨true, none, t ++ [.free none], by simp, by simp, rfl⟩
      | some block =>
          have hfresh (p : Nat) (hp : some fresh = some p) : p = fresh := (Option.some.inj hp).symm
          cases r with
          | true => exact ⟨true, some fresh, t ++ [.alloc fresh] ++ [.read fresh], hfresh, by simp, rfl⟩
          | false =>
              exact ⟨false, some fresh, t ++ [.alloc fresh] ++ [.free (some fresh)] ++ [.free none], hfresh, by simp,
                rfl⟩

/-- A call of the reader has outcomes with which the pointers give its result. -/
def Ran (cid buf fresh : Nat) (frame : Block) (buflen : Nat) (r : Bool) (trace : List Obs) (o : Outcomes)
    (t : List Use) : Prop :=
  (∀ p, o.alloc = some p → p = fresh) ∧ handleread o buf frame buflen [] = .ok (r, t) ∧
    (Complete frame buflen → Shown o cid buf (frame.bytes 0 buflen) t trace)

/-- What the world does with a complete frame is a run of the buffer model that shows the same events. -/
theorem conclude_outcomes {frame : Block} {hret : Hret} (hcomplete : Complete frame buflen)
    (hr : conclude cid frame buflen hret w = .ok (r, w')) (buf fresh : Nat) :
    ∃ o t, Ran cid buf fresh frame buflen r w'.trace o t := by
  obtain ⟨hle, hlt⟩ := length_of_hdrok hcomplete.1 hcomplete.2
  obtain ⟨c, -, hconcluded⟩ := conclude_cases hle hlt hr
  have hlen : buflen ≠ 0 := by omega
  simp only [Ran, handleread, hcomplete.1, if_neg (not_not.2 hcomplete.2), Bool.true_eq_false, if_false]
  -- the frame is dropped, kept for the next header, refused by the endpoint, or passed on
  cases hconcluded with
  | error =>
      have hshown : Shown ⟨.error, c.endpoint.isSome, true, true, none⟩ cid buf (frame.bytes 0 buflen)
          [.free (some buf)] (w.observe (.answered cid (frame.bytes 0 buflen) .error c.endpoint)).trace :=
        ⟨w.trace, c.endpoint, [], rfl, rfl, by simp⟩
      exact ⟨_, _, by simp, rfl, fun _ => hshown⟩
  | @reused hret r _ hreused hflap =>
      obtain ⟨canread, alloc, t, halloc, hwrite, hagain⟩ :=
        again_outcomes buf fresh hflap hret c.endpoint.isSome true []
      have htrace := trace_of_silent (reqflap_silent _ _) hflap
      refine ⟨⟨hret, c.endpoint.isSome, canread, true, alloc⟩, t, halloc, ?_, fun _ => ?_⟩
      · obtain rfl | ⟨rfl, hend⟩ := hreused
        · exact hagain
        · rw [hend] at hagain ⊢
          exact hagain
      · exact ⟨w.trace, c.endpoint, [], htrace, rfl, by simp [hwrite]⟩
  | @unsent e d env hend =>
      refine ⟨⟨.forward, true, true, false, none⟩, [.free (some buf)], by simp, ?_, fun _ => ?_⟩
      · dsimp only
        rw [if_pos rfl, bind_of_ok (sendraw_refused Bool.false_ne_true)]
        rfl
      · exact ⟨w.trace, some e, [.refused e], by simp [sent, World.observe, hend], rfl, by simp⟩
  | @sent e d env r _ hend _ _ hflap =>
      obtain ⟨canread, alloc, t, halloc, hwrite, hagain⟩ :=
        again_outcomes buf fresh hflap .forward true true [.write buf]
      have htrace := trace_of_silent (reqflap_silent _ _) hflap
      refine ⟨⟨.forward, true, canread, true, alloc⟩, t, halloc, ?_, fun _ => ?_⟩
      · dsimp only
        rw [if_pos rfl, bind_of_ok (sendraw_queued rfl rfl hlen)]
        exact hagain
      · refine ⟨w.trace, some e, [.queued e (frameOf frame d.nextseqnum buflen)], ?_, rfl, ?_⟩
        · rw [htrace]
          simp [sent, World.observe, hend]
        · simp [hwrite]

/-- What the reader of the whole world answers is one of the outcomes here. -/
theorem handleread_outcomes {c : Conn} {rx : Rx} (hc : w.conn? cid = some c) (hrx : c.rx = some rx)
    (hr : Oscar.handleread cid w = .ok (r, w')) (buf fresh : Nat) :
    ∃ o t, Ran cid buf fresh rx.buf rx.len r w'.trace o t := by
  obtain ⟨taken, w₁, htake, hr⟩ := bind_ok.1 hr
  obtain ⟨c', hc', ⟨hnone, -, -⟩ | ⟨rx', hrx', rfl, rfl⟩⟩ := takeread_ok htake
  · rw [hc, Option.some.injEq] at hc'
    rw [← hc', hrx] at hnone
    cases hnone
  obtain rfl : rx = rx' := by
    rw [hc, Option.some.injEq] at hc'
    rw [← hc', hrx] at hrx'
    exact Option.some.inj hrx'
  obtain ⟨_, _, -, hr⟩ := bind_ok.1 hr
  by_cases hhdr : hdrok rx.buf = false
  · rw [if_pos hhdr] at hr
    cases hr
    refine ⟨⟨.error, true, true, true, none⟩, [.free (some buf)], by simp, ?_, fun hcomplete => ?_⟩
    · rw [handleread, if_pos hhdr]
      rfl
    · exact absurd (hcomplete.1.symm.trans hhdr) Bool.noConfusion
  rw [if_neg hhdr] at hr
  by_cases hmore : rx.len ≠ flaphdrLen rx.buf + flaphdrlen
  · rw [if_pos hmore] at hr
    have hpartial {o : Outcomes} {t : List Use} (halloc : o.alloc = none)
        (hrun : handleread o buf rx.buf rx.len [] = .ok (r, t)) :
        ∃ o t, Ran cid buf fresh rx.buf rx.len r w'.trace o t :=
      ⟨o, t, by simp [halloc], hrun, fun hcomplete => absurd hcomplete.2 hmore⟩
    by_cases htook : r = true ∧ rx.len + flaphdrLen rx.buf ≠ 0
    · refine hpartial (o := ⟨.error, true, true, true, none⟩) (t := [.read buf]) rfl ?_
      rw [handleread, if_neg hhdr, if_pos hmore, bind_of_ok (reqread_taken rfl htook.2), htook.1]
      rfl
    · have hfalse : r = false := by
        by_cases hzero : rx.len + flaphdrLen rx.buf = 0
        · rw [Naf.Conn.reqread, if_pos hzero] at hr
          cases hr
          rfl
        · exact Bool.eq_false_iff.2 fun hr => htook ⟨hr, hzero⟩
      have hcan : ¬(false = true ∧ rx.len + flaphdrLen rx.buf ≠ 0) := fun h => Bool.false_ne_true h.1
      refine hpartial (o := ⟨.error, true, false, true, none⟩) (t := [.free (some buf)]) rfl ?_
      rw [handleread, if_neg hhdr, if_pos hmore, bind_of_ok (reqread_refused hcan _), hfalse]
      rfl
  · rw [if_neg hmore] at hr
    obtain ⟨_, w₂, -, hr⟩ := bind_ok.1 hr
    obtain ⟨hret, w₃, -, hr⟩ := bind_ok.1 hr
    exact conclude_outcomes ⟨Bool.eq_true_of_not_eq_false hhdr, not_not.1 hmore⟩ hr buf fresh

/-- Whenever the reader of the whole world returns, the buffer that it took has one use, and nothing is freed
twice. -/
theorem handleread_owned {c : Conn} {rx : Rx} {live : List Nat} (hc : w.conn? cid = some c) (hrx : c.rx = some rx)
    (hr : Oscar.handleread cid w = .ok (r, w')) (hbuf : buf ∈ live) (hfresh : fresh ∉ live) :
    ∃ o t, Ran cid buf fresh rx.buf rx.len r w'.trace o t ∧ Use.One buf r t ∧ Use.Sound live t := by
  obtain ⟨o, t, hran⟩ := handleread_outcomes hc hrx hr buf fresh
  have haccepted : ¬o.Rejects rx.buf rx.len := by
    intro hrejects
    have hcall := hran.2.1
    rw [handleread_rejected hrejects] at hcall
    cases hcall
  obtain ⟨r', t', hcall, way⟩ := handleread_way rx.buf haccepted
  rw [hran.2.1] at hcall
  cases hcall
  refine ⟨o, t, hran, way.one fun p hp heq => ?_, way.sound hbuf⟩
  exact hfresh (hran.1 p hp ▸ heq ▸ hbuf)

end Uses

end Timps.Oscar
