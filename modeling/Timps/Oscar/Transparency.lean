-- SUMMARY: The proxy is transparent: what a run shows is one exchange after the other.
import Timps.Oscar.Incoming
import Timps.Oscar.Making

/-!
# Transparency

A frame goes one of two ways. Its handler may keep it and send frames of the module's
making in its place, or none. Or it is sent on at once: it alone, as it came but for the
sequence number, to the connection that its own is looped together with.
-/

namespace Timps.Oscar

open Naf (Block lit)
open Naf.Conn (reqread takeread)
open Prog (Does bind_ok pure_ok update_ok)
open Sys (mem observe)

variable {w w' : World}

/-- What is seen when a frame, rewritten, is offered to a connection. -/
inductive Offered (cid : Nat) (frame : Bytes) : Obs → Prop
  | queued {g : Bytes} : Rewritten frame g → Offered cid frame (.queued cid g)
  | refused : Offered cid frame (.refused cid)

/-- What is seen of one exchange. -/
inductive Exchange : List Obs → Prop
  /-- the module sends a frame of its own accord -/
  | own {o : Obs} : Made o → Exchange [o]
  /-- a handler keeps the frame, and what it sends is of the module's making -/
  | kept {cid : Nat} {frame : Bytes} {sent : List Obs} {ret : Hret} {endpoint : Option Nat} :
      Flap frame → (∀ o ∈ sent, Made o) → ret ≠ .forward →
      Exchange (.handed cid frame :: (sent ++ [.answered cid frame ret endpoint]))
  /-- the frame is sent on, and nothing else is sent -/
  | relayed {cid e : Nat} {frame : Bytes} {o : Obs} : Flap frame → Offered e frame o →
      Exchange [.handed cid frame, .answered cid frame .forward (some e), o]
  /-- there is no connection to send the frame on to -/
  | dropped {cid : Nat} {frame : Bytes} : Flap frame →
      Exchange [.handed cid frame, .answered cid frame .forward none]

/-- What is seen in between is one exchange after the other. -/
def Exchanges (w w' : World) : Prop :=
  ∃ l : List (List Obs), w'.trace = w.trace ++ l.flatten ∧ ∀ x ∈ l, Exchange x

namespace Exchanges

theorem refl (w : World) : Exchanges w w := ⟨[], by simp, fun x hx => nomatch hx⟩

/-- Exchanges one after the other are exchanges. -/
theorem trans {w₁ : World} (h₁ : Exchanges w w₁) (h₂ : Exchanges w₁ w') : Exchanges w w' := by
  obtain ⟨l₁, htrace₁, hall₁⟩ := h₁
  obtain ⟨l₂, htrace₂, hall₂⟩ := h₂
  refine ⟨l₁ ++ l₂, by rw [htrace₂, htrace₁, List.flatten_append, List.append_assoc], fun x hx => ?_⟩
  rcases List.mem_append.1 hx with hx | hx
  · exact hall₁ x hx
  · exact hall₂ x hx

theorem of_exchange {x : List Obs} (htrace : w'.trace = w.trace ++ x) (hx : Exchange x) : Exchanges w w' :=
  ⟨[x], by rw [htrace, List.flatten_singleton], fun y hy => List.mem_singleton.1 hy ▸ hx⟩

/-- Frames that the module sends of its own accord are exchanges of one observation each. -/
theorem of_made (h : Emits Made w w') : Exchanges w w' := by
  obtain ⟨obs, htrace, hmade⟩ := h
  refine ⟨obs.map fun o => [o], ?_, fun x hx => ?_⟩
  · rw [htrace, ← List.flatMap_def, List.flatMap_singleton']
  · obtain ⟨o, ho, rfl⟩ := List.mem_map.1 hx
    exact .own (hmade o ho)

end Exchanges

/-- Each frame of the own making is an exchange. -/
theorem exchanges_of_made {α : Type} {x : Sys α} (hx : Does (Emits Made) x) : Does Exchanges x :=
  hx.mono fun _ _ => .of_made

/-! ## The reader -/

/-- How an answered frame is dealt with. -/
theorem conclude_ends {cid : Nat} {buf : Block} {buflen : Nat} {ret : Hret} {b : Bool} (hhdr : hdrok buf = true)
    (hlen : buflen = flaphdrLen buf + flaphdrlen) (hr : conclude cid buf buflen ret w = .ok (b, w')) :
    ret ≠ .forward ∧ (∃ endpoint, w'.trace = w.trace ++ [.answered cid (buf.bytes 0 buflen) ret endpoint]) ∨
      ret = .forward ∧ (w'.trace = w.trace ++ [.answered cid (buf.bytes 0 buflen) .forward none] ∨
        ∃ e o, Offered e (buf.bytes 0 buflen) o ∧
          w'.trace = w.trace ++ [.answered cid (buf.bytes 0 buflen) .forward (some e), o]) := by
  obtain ⟨hle, hlt⟩ := length_of_hdrok hhdr hlen
  obtain ⟨c, -, hconcluded⟩ := conclude_cases hle hlt hr
  have hoffered (e seq : Nat) (accepted : Bool) : Offered e (buf.bytes 0 buflen)
      (if accepted then .queued e (frameOf buf seq buflen) else .refused e) := by
    cases accepted with
    | true => exact .queued (rewritten_frameOf hhdr hlen)
    | false => exact .refused
  cases hconcluded with
  | error => exact .inl ⟨by simp, c.endpoint, rfl⟩
  | reused hreused hflap =>
      have htrace := trace_of_silent (reqflap_silent _ _) hflap
      obtain rfl | ⟨rfl, hend⟩ := hreused
      · exact .inl ⟨by simp, c.endpoint, htrace⟩
      · exact .inr ⟨rfl, .inl (hend ▸ htrace)⟩
  | @unsent e d env hend =>
      exact .inr ⟨rfl, .inr ⟨e, _, hoffered e d.nextseqnum false, by simp [sent, World.observe, hend]⟩⟩
  | @sent e d env _ _ hend _ _ hflap =>
      refine .inr ⟨rfl, .inr ⟨e, _, hoffered e d.nextseqnum true, ?_⟩⟩
      rw [trace_of_silent (reqflap_silent _ _) hflap]
      simp [sent, World.observe, hend]

/-- The reader hands on one frame at most. -/
theorem handleread_exchanges (cid : Nat) : Does Exchanges (handleread cid) := by
  refine .bind (exchanges_of_made (takeread_silent cid)) fun taken => ?_
  cases taken with
  | none => exact .pure _
  | some taken =>
  obtain ⟨buf, buflen⟩ := taken
  refine .bind (exchanges_of_made mem_emits) fun _ => .ite (fun _ => .pure _) fun hhdr => ?_
  refine .ite (fun _ => exchanges_of_made (reqread_silent _ _ _ _)) fun hlen => ?_
  simp only [Bool.not_eq_false, ne_eq, Decidable.not_not] at hhdr hlen
  intro w b w' hr
  obtain ⟨_, w₁, hobs, hr⟩ := bind_ok.1 hr
  cases update_ok.1 hobs
  obtain ⟨ret, w₂, hdispatch, hr⟩ := bind_ok.1 hr
  obtain ⟨⟨sent, hsent, hmade⟩, hforward⟩ := dispatch_deals _ _ _ _ _ _ hdispatch
  refine .single ?_
  have hflap := flap_of_hdrok hhdr hlen
  obtain ⟨hret, endpoint, htrace⟩ | ⟨rfl, htrace | ⟨e, o, hoffered, htrace⟩⟩ := conclude_ends hhdr hlen hr
  · have hkept : Exchange (.handed cid _ :: (sent ++ [.answered cid _ ret endpoint])) := .kept hflap hmade hret
    exact .of_exchange (by rw [htrace, hsent]; simp [World.observe]) hkept
  · have hdropped : Exchange [.handed cid _, .answered cid _ .forward none] := .dropped hflap
    exact .of_exchange (by rw [htrace, hforward rfl]; simp [World.observe]) hdropped
  · have hrelayed : Exchange [.handed cid _, .answered cid _ .forward (some e), o] := .relayed hflap hoffered
    exact .of_exchange (by rw [htrace, hforward rfl]; simp [World.observe]) hrelayed

/-! ## The other events -/

theorem orfree_exchanges {x : Sys Bool} (cid : Nat) (hx : Does Exchanges x) :
    Does Exchanges (do if ← x then pure () else Naf.Conn.free ops cid) :=
  .bind hx fun _ => .ite (fun _ => .pure _) fun _ => exchanges_of_made (free_silent cid)

/-- The reader has one exchange, and a close behind it offers nothing. -/
theorem connhandlerRead_exchanges (cid : Nat) : Does Exchanges (Naf.Conn.connhandlerRead ops cid) := by
  refine .bind (conn_does cid) fun c => .ite (fun _ => .pure _) fun _ => ?_
  refine .ite (fun _ => exchanges_of_made (free_silent cid)) fun _ => ?_
  rw [connready_of_owner]
  by_cases howner : c.owner = some module
  · rw [if_pos howner]
    exact orfree_exchanges cid (handleread_exchanges cid)
  · rw [if_neg howner]
    exact exchanges_of_made (free_silent cid)

theorem completeread_exchanges (cid : Nat) (bytes : Bytes) : Does Exchanges (completeread cid bytes) := by
  refine .bind (.read _) fun found => ?_
  cases found with
  | none => exact .pure _
  | some c =>
      refine .ite (fun _ => connhandlerRead_exchanges cid) fun _ => ?_
      cases c.rx with
      | none => exact .pure _
      | some rx =>
          refine .ite (fun _ => .bind (exchanges_of_made mem_emits) fun buf => ?_) fun _ => .pure _
          exact .bind (exchanges_of_made (modify_silent _ _)) fun _ => connhandlerRead_exchanges cid

theorem finishconnect_silent {P : Obs → Prop} (cid : Nat) : Does (Emits P) (Naf.Conn.finishconnect ops cid) := by
  refine .bind (.read _) fun connected => .ite (fun _ => ?_) fun _ => .pure _
  refine .bind (.read _) fun sockname => .bind (modify_silent _ _) fun _ => .bind (conn_does cid) fun c => ?_
  rw [connready_of_owner]
  by_cases howner : c.owner = some module
  · rw [if_pos howner]
    exact .pure _
  · rw [if_neg howner]
    exact .pure _

theorem connhandlerWrite_exchanges (cid : Nat) : Does Exchanges (Naf.Conn.connhandlerWrite ops cid) := by
  refine .bind (conn_does cid) fun c => .ite (fun _ => ?_) fun _ => ?_
  · exact orfree_exchanges cid (exchanges_of_made (finishconnect_silent cid))
  rw [connready_of_owner]
  by_cases howner : c.owner = some module
  · rw [if_pos howner]
    exact orfree_exchanges cid (exchanges_of_made (takewrite_silent cid))
  · rw [if_neg howner]
    exact exchanges_of_made (free_silent cid)

theorem connhandlerIncomingconn_made : Does (Emits Made) (Naf.Conn.connhandlerIncomingconn ops module) := by
  refine .bind (addconn_silent _ _) fun r => ?_
  cases r with
  | none => exact .pure _
  | some cid =>
      refine .bind (modify_silent _ _) fun _ => ?_
      simp only [ops, if_true]
      exact .bind (takeconn_made cid) fun _ => .pure _

theorem keepaliveMatcher_made (now : Int) (c : Conn) : Does (Emits Made) (keepaliveMatcher now c) := by
  refine .ite (fun _ => .bind (.read _) fun config => ?_) fun _ => .pure _
  refine .bind (.ite (fun _ => ?_) fun _ => .pure _) fun _ => ?_
  · exact .bind (sendnop_made _) fun _ => .pure _
  · exact .bind (.ite (fun _ => schedulekill_silent _) fun _ => .pure _) fun _ => .pure _

/-- The timer offers keepalives. -/
theorem timerhandler_made : Does (Emits Made) timerhandler := by
  refine .bind now_does fun now => .bind (update_silent fun _ => rfl) fun _ => ?_
  exact .bind (find_quiet fun c => keepaliveMatcher_made now c) fun _ => .pure _

theorem ifopen_exchanges (cid : Nat) {x : Sys Unit} (hx : Does Exchanges x) : Does Exchanges (ifopen cid x) :=
  .bind (.read _) fun _ => .ite (fun _ => hx) fun _ => .pure _

/-- Every event is a row of exchanges. -/
theorem handle_exchanges (e : Event) : Does Exchanges (handle e) := by
  cases e with
  | accept => exact exchanges_of_made connhandlerIncomingconn_made
  | readable cid bytes => exact completeread_exchanges cid bytes
  | writable cid => exact ifopen_exchanges cid (connhandlerWrite_exchanges cid)
  | closed cid => exact ifopen_exchanges cid (exchanges_of_made (free_silent cid))
  | gnrTimer => exact exchanges_of_made (update_silent fun _ => rfl)
  | oscarTimer => exact exchanges_of_made timerhandler_made
  | confchange config => exact exchanges_of_made (update_silent fun _ => rfl)
  | disconnectuser sn => exact exchanges_of_made (.bind (forceDisconnect_silent sn) fun _ => .pure _)

theorem step_exchanges {i : Input} (hstep : step i w = .ok w') : Exchanges w w' := by
  simp only [step] at hstep
  cases hrun : handle i.event { w with env := i.env } with
  | error e =>
      rw [hrun] at hstep
      cases hstep
  | ok r =>
      obtain ⟨u, w₁⟩ := r
      rw [hrun] at hstep
      cases hstep
      have hshows := handle_exchanges i.event _ _ _ hrun
      exact Prog.keep (I := fun v => Exchanges w v) (fun _ _ h hw => hw.trans h) hshows (.refl w)

/-! ## Runs -/

/-- Everything that a run shows is one exchange after the other. -/
theorem run_exchanges {h : List (World × Input)} (hrun : Run step Initial h w) :
    ∃ l : List (List Obs), w.trace = l.flatten ∧ ∀ x ∈ l, Exchange x := by
  have hshows : ∃ w₀, w₀.trace = [] ∧ Exchanges w₀ w := by
    refine hrun.invariant (I := fun w => ∃ w₀ : World, w₀.trace = [] ∧ Exchanges w₀ w)
      (fun w hinit => ⟨w, hinit.2.2.2.2.2, .refl w⟩) fun i w w' hw hstep => ?_
    obtain ⟨w₀, hnil, hshows⟩ := hw
    exact ⟨w₀, hnil, hshows.trans (step_exchanges hstep)⟩
  obtain ⟨w₀, hnil, l, htrace, hall⟩ := hshows
  exact ⟨l, by rw [htrace, hnil, List.nil_append], hall⟩

/-- A user goes online: the cookie is kept, and the SNAC that says so is sent on. -/
theorem run_exchanges_alice :
    ∃ h w, Run step Initial h w ∧ h.map (·.2) = onlineframes (lit "alice") [1, 2, 3, 4] ∧
      handed 2 w.trace = [cookieframe [1, 2, 3, 4], snacframe 0x0001 0x0002 []] ∧
      ∃ l : List (List Obs), w.trace = l.flatten ∧ ∀ x ∈ l, Exchange x := by
  have hreach : (replayInputs step (onlineframes (lit "alice") [1, 2, 3, 4]) started).toOption.any
      (fun r => handed 2 r.2.trace = [cookieframe [1, 2, 3, 4], snacframe 0x0001 0x0002 []]) = true := by
    decide +kernel
  obtain ⟨h, w, hrun, hinputs, hw⟩ := Run.exists_of_replay started_initial hreach
  exact ⟨h, w, hrun, hinputs, by simpa using hw, run_exchanges hrun⟩

end Timps.Oscar
