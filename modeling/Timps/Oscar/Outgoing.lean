-- SUMMARY: The stream of frames that goes out on a connection, and the frames that are sent on.
import Timps.Oscar.Runs

/-!
# Outgoing streams

`Sequenced` ties the frames queued on a connection to the counter that the connection
carries: every send uses the number that the count of the frames before it has. Frames
that are sent on stand in the trace right behind the answer that caused them.
-/

namespace Timps.Oscar

open Naf (lit)
open Prog (keep)

variable {p : Perm} {w w' : World} {obs : List Obs} {cid : Nat}

/-! ## Numbered frames -/

/-- The frames that a list of observations shows queued on a connection. -/
def queued (k : Nat) (obs : List Obs) : List Bytes :=
  obs.filterMap fun
    | .queued cid frame => if cid = k then some frame else none
    | _ => none

/-- Frames that carry the numbers 0, 1, 2 and so on, modulo 65536. -/
def Numbered (frames : List Bytes) : Prop :=
  ∀ j frame, frames[j]? = some frame → Framed (j % 65536) frame

/-- The next frame has the next number. -/
theorem Numbered.snoc {frames : List Bytes} {frame : Bytes} (h : Numbered frames)
    (hframe : Framed (frames.length % 65536) frame) : Numbered (frames ++ [frame]) := by
  intro j f hj
  rw [List.getElem?_append] at hj
  split at hj
  · exact h j f hj
  · have hlast : j = frames.length := by
      have hlt := (List.getElem?_eq_some_iff.1 hj).1
      simp only [List.length_singleton] at hlt
      omega
    subst hlast
    obtain rfl : frame = f := by simpa using hj
    exact hframe

/-- An observation that is not of a frame queued on `k`. -/
def Silent (k : Nat) (o : Obs) : Prop := ∀ frame, o ≠ .queued k frame

theorem queued_snoc_silent {k : Nat} {o : Obs} (h : Silent k o) :
    queued k (obs ++ [o]) = queued k obs := by
  cases o with
  | queued cid frame =>
      have hne : cid ≠ k := by
        rintro rfl
        exact h frame rfl
      simp [queued, List.filterMap_append, hne]
  | handed _ _ | answered _ _ _ _ | refused _ => simp [queued, List.filterMap_append]

/-- What is queued last is the last frame. -/
theorem queued_snoc {frame : Bytes} :
    queued cid (obs ++ [.queued cid frame]) = queued cid obs ++ [frame] := by
  simp [queued, List.filterMap_append]

/-! ## The counter of a connection -/

structure Sequenced (w : World) : Prop where
  numbered : ∀ k, Numbered (queued k w.trace)
  next : ∀ k c, w.conn? k = some c → c.nextseqnum = (queued k w.trace).length % 65536
  fresh : ∀ k, w.nextcid ≤ k → queued k w.trace = []

theorem Sequenced.congr (hs : Sequenced w) (hconns : w'.conns = w.conns)
    (hnext : w.nextcid ≤ w'.nextcid) (htrace : w'.trace = w.trace) : Sequenced w' where
  numbered := htrace ▸ hs.numbered
  next := fun k c hc => by
    rw [htrace]
    exact hs.next k c (by rw [← hc, World.conn?, World.conn?, hconns])
  fresh := fun k hk => htrace ▸ hs.fresh k (Nat.le_trans hnext hk)

theorem Sequenced.observe {o : Obs} (hs : Sequenced w) (ho : ∀ k, Silent k o) :
    Sequenced (w.observe o) where
  numbered := fun k => by
    rw [World.observe, queued_snoc_silent (ho k)]
    exact hs.numbered k
  next := fun k c hc => by
    rw [World.observe, queued_snoc_silent (ho k)]
    exact hs.next k c hc
  fresh := fun k hk => by
    rw [World.observe, queued_snoc_silent (ho k)]
    exact hs.fresh k hk

/-- A change that does not touch the counter. -/
theorem Sequenced.modify {f : Conn → Conn} (hs : Sequenced w) (hcid : ∀ c, (f c).cid = c.cid)
    (hseq : ∀ c, w.conn? cid = some c → (f c).nextseqnum = c.nextseqnum) :
    Sequenced (w.modify cid f) where
  numbered := hs.numbered
  next := fun k c hc => by
    rw [World.conn?_modify hcid] at hc
    split at hc
    · rename_i hk
      obtain ⟨d, hd, rfl⟩ := Option.map_eq_some_iff.1 hc
      rw [hseq d (hk ▸ hd)]
      exact hs.next k d hd
    · exact hs.next k c hc
  fresh := hs.fresh

theorem Sequenced.insert {pos : Nat} {c : Conn} (hs : Sequenced w) (wf : w.Wf) (hnew : New w c) :
    Sequenced (w.insert pos c) where
  numbered := hs.numbered
  next := fun k d hd => by
    rw [wf.conn?_insert hnew.cid] at hd
    split at hd
    · rename_i hk
      cases hd
      have hempty : queued k (w.insert pos c).trace = [] :=
        hs.fresh k (Nat.le_of_eq hk.symm)
      rw [hempty, hnew.nextseqnum]
      rfl
    · exact hs.next k d hd
  fresh := fun k hk => by
    have hcid := hnew.cid
    have hlt : c.cid + 1 ≤ k := hk
    exact hs.fresh k (by omega)

/-- The frames of a closed connection stay numbered. -/
theorem Sequenced.close (hs : Sequenced w) : Sequenced (w.close cid) where
  numbered := hs.numbered
  next := fun k c hc => by
    rw [World.conn?_close] at hc
    split at hc
    · cases hc
    · exact hs.next k c hc
  fresh := hs.fresh

/-- A send that is accepted uses up its number, and one that is refused does not. -/
theorem Sequenced.sent {c : Conn} {b : Bool} {frame : Bytes} {env : Env} (hs : Sequenced w)
    (wf : w.Wf) (hc : w.conn? cid = some c) (hframe : Framed c.nextseqnum frame) :
    Sequenced (sent w cid b frame env) := by
  have hother : ∀ k, k ≠ cid → queued k (Oscar.sent w cid b frame env).trace = queued k w.trace := by
    intro k hk
    apply queued_snoc_silent
    cases b with
    | true => simpa [Silent] using fun h => absurd h.symm hk
    | false => simp [Silent]
  have hown : queued cid (Oscar.sent w cid b frame env).trace =
      if b then queued cid w.trace ++ [frame] else queued cid w.trace := by
    cases b with
    | true => exact queued_snoc
    | false => exact queued_snoc_silent fun _ => by simp
  -- a queued frame has the number its connection was to use next
  have hseq := hs.next cid c hc
  refine ⟨fun k => ?_, fun k d hd => ?_, fun k hk => ?_⟩
  · by_cases hk : k = cid
    · subst hk
      rw [hown]
      cases b with
      | true => exact (hs.numbered k).snoc (hseq ▸ hframe)
      | false => exact hs.numbered k
    · rw [hother k hk]
      exact hs.numbered k
  · rw [conn?_sent] at hd
    split at hd
    · rename_i hk
      subst hk
      rw [hc, Option.map_some, Option.some.injEq] at hd
      subst hd
      rw [hown]
      cases b with
      | true => simp only [if_true, List.length_append, List.length_singleton, hseq, Nat.mod_add_mod]
      | false => simpa using hseq
    · rename_i hk
      rw [hother k hk]
      exact hs.next k d hd
  · have hlt := wf.lt_nextcid hc
    have hle : w.nextcid ≤ k := hk
    rw [hother k (by omega)]
    exact hs.fresh k hle

theorem Quiet.sequenced (h : Quiet p w w') (wf : w.Wf) (hs : Sequenced w) : Sequenced w' := by
  cases h with
  | env _ _ => exact hs.congr rfl (Nat.le_refl _) rfl
  | count _ _ hle => exact hs.congr rfl hle rfl
  | touch hc ht =>
      refine hs.modify ht.cid fun d hd => ?_
      rw [hc, Option.some.injEq] at hd
      exact hd ▸ ht.nextseqnum
  | send hc _ hframe => exact hs.sent wf hc hframe
  | request _ _ _ _ => exact hs.modify (Conn.setRx_cid _) fun _ _ => Conn.setRx_nextseqnum _ _

/-- Every step numbers its frame by those that were queued before. -/
theorem Act.sequenced (h : Act p w w') (wf : w.Wf) (hs : Sequenced w) : Sequenced w' := by
  cases h with
  | quiet h => exact h.sequenced wf hs
  | accept hnew => exact hs.insert wf hnew
  | connect _ _ _ hnew _ hquiet =>
      have hkept := keep (I := fun v => v.Wf ∧ Sequenced v)
        (fun _ _ h hv => ⟨h.wf hv.1, h.sequenced hv.1 hv.2⟩) hquiet
        ⟨(wf.insert hnew.cid).modify (Conn.setEndpoint_cid _),
          (hs.insert wf hnew).modify (Conn.setEndpoint_cid _)
            fun _ _ => Conn.setEndpoint_nextseqnum _ _⟩
      refine .modify (.modify hkept.2 (Conn.setOwner_cid _) fun _ _ => ?_) (Conn.setEndpoint_cid _)
        fun _ _ => Conn.setEndpoint_nextseqnum _ _
      exact Conn.setOwner_nextseqnum _ _
  | disconnect _ _ | unlink _ _ _ =>
      exact hs.modify (Conn.setEndpoint_cid _) fun _ _ => Conn.setEndpoint_nextseqnum _ _
  | name _ _ _ _ _ =>
      exact hs.modify (Conn.setTaglist_cid _) fun _ _ => Conn.setTaglist_nextseqnum _ _
  | read _ => exact hs.modify (Conn.setRx_cid _) fun _ _ => Conn.setRx_nextseqnum _ _
  | bury _ => exact hs.close.congr rfl (Nat.le_refl _) rfl
  | hand _ | answer _ _ => exact hs.observe fun _ _ => by simp
  | forward _ hc _ hframe _ =>
      exact .sent (hs.observe fun _ _ => by simp) (wf.congr rfl (Nat.le_refl _)) hc hframe
  | cookieAdd _ | cookieDrop _ | online _ _ | usehit | timeout | confchange =>
      exact hs.congr rfl (Nat.le_refl _) rfl

/-! ## Frames that are sent on -/

/-- Behind every answer that sends a frame on stands that frame, but for its sequence
number, or the refusal of the request. -/
def Forwarded (obs : List Obs) : Prop :=
  ∀ m cid f e, obs[m]? = some (.answered cid f .forward (some e)) →
    obs[m + 1]? = some (.refused e) ∨ ∃ g, obs[m + 1]? = some (.queued e g) ∧ Rewritten f g

/-- An answer on which nothing is sent. -/
def Keeping (o : Obs) : Prop := ∀ cid f e, o ≠ .answered cid f .forward (some e)

theorem Forwarded.snoc {o : Obs} (h : Forwarded obs) (ho : Keeping o) : Forwarded (obs ++ [o]) := by
  intro m cid f e hm
  rw [List.getElem?_append] at hm
  split at hm
  · obtain hrefused | ⟨g, hqueued, hg⟩ := h m cid f e hm
    · exact .inl (by rw [List.getElem?_append_left (List.getElem?_eq_some_iff.1 hrefused).1, hrefused])
    · refine .inr ⟨g, ?_, hg⟩
      rw [List.getElem?_append_left (List.getElem?_eq_some_iff.1 hqueued).1, hqueued]
  · obtain ⟨hlt, hlast⟩ := List.getElem?_eq_some_iff.1 hm
    simp only [List.length_singleton, Nat.lt_one_iff] at hlt
    simp only [hlt, List.getElem_cons_zero] at hlast
    exact absurd hlast (ho cid f e)

/-- A frame that is forwarded has its answer in front of it. -/
theorem Forwarded.snoc_sent {b : Bool} {f g : Bytes} {e : Nat} (h : Forwarded obs)
    (hg : Rewritten f g) :
    Forwarded (obs ++ [.answered cid f .forward (some e)] ++
      [if b then .queued e g else .refused e]) := by
  intro m cid' f' e' hm
  by_cases hlast : m = obs.length
  · subst hlast
    simp only [List.append_assoc, List.getElem?_append_right (Nat.le_refl _), Nat.sub_self,
      List.singleton_append, List.getElem?_cons_zero, Option.some.injEq, Obs.answered.injEq] at hm
    obtain ⟨-, rfl, -, rfl⟩ := hm
    have hnext : (obs ++ [.answered cid f .forward (some e)] ++
        [if b then Obs.queued e g else .refused e])[obs.length + 1]? =
          some (if b then .queued e g else .refused e) := by
      simp
    rw [hnext]
    cases b with
    | true => exact .inr ⟨g, rfl, hg⟩
    | false => exact .inl rfl
  · -- the answer is older, or it would be the report on the request
    have hlt := (List.getElem?_eq_some_iff.1 hm).1
    simp only [List.length_append, List.length_singleton] at hlt
    have hold : m < obs.length := by
      by_contra hge
      obtain rfl : m = obs.length + 1 := by omega
      rw [List.getElem?_append_right (by simp)] at hm
      simp only [List.length_append, List.length_singleton, Nat.sub_self,
        List.getElem?_cons_zero, Option.some.injEq] at hm
      split at hm <;> cases hm
    rw [List.append_assoc, List.getElem?_append_left hold] at hm
    obtain hrefused | ⟨g', hqueued, hg'⟩ := h m cid' f' e' hm
    · left
      rw [List.append_assoc, List.getElem?_append_left (List.getElem?_eq_some_iff.1 hrefused).1,
        hrefused]
    · refine .inr ⟨g', ?_, hg'⟩
      rw [List.append_assoc, List.getElem?_append_left (List.getElem?_eq_some_iff.1 hqueued).1,
        hqueued]

theorem Quiet.forwarded (h : Quiet p w w') (hf : Forwarded w.trace) : Forwarded w'.trace := by
  cases h with
  | @send cid c b frame env _ _ _ => exact hf.snoc fun _ _ _ => by cases b <;> simp
  | env _ _ | count _ _ _ | touch _ _ | request _ _ _ _ => exact hf

/-- Every step leaves behind each such answer the frame it is about. -/
theorem Act.forwarded (h : Act p w w') (hf : Forwarded w.trace) : Forwarded w'.trace := by
  cases h with
  | quiet h => exact h.forwarded hf
  | connect _ _ _ _ _ hquiet => exact keep (I := fun v => Forwarded v.trace) (fun _ _ h => h.forwarded) hquiet hf
  | hand _ => exact hf.snoc fun _ _ _ => by simp
  | answer _ hkeep =>
      refine hf.snoc fun cid f e heq => ?_
      simp only [Obs.answered.injEq] at heq
      rw [hkeep heq.2.2.1] at heq
      cases heq.2.2.2
  | forward _ _ _ _ hg => exact hf.snoc_sent hg
  | accept _ | disconnect _ _ | cookieAdd _ | cookieDrop _ | name _ _ _ _ _ | online _ _ | usehit
  | timeout | bury _ | unlink _ _ _ | confchange | read _ => exact hf

/-! ## Runs -/

/-- A frame that was answered with `forward` while there is an endpoint. -/
def forwarding : Obs → Bool
  | .answered _ _ .forward (some _) => true
  | _ => false

/-- Whatever happens, the frames queued on a connection are well formed and numbered without
a gap, and what is sent on is what was received but for the number. -/
theorem outgoing_stream {h : List (World × Input)} (hrun : Run step Initial h w) :
    (∀ k j frame, (queued k w.trace)[j]? = some frame → Framed (j % 65536) frame) ∧
    ∀ m cid f e, w.trace[m]? = some (.answered cid f .forward (some e)) →
      w.trace[m + 1]? = some (.refused e) ∨
        ∃ g, w.trace[m + 1]? = some (.queued e g) ∧ f.length = g.length ∧
          ∀ i, i ≠ 2 → i ≠ 3 → f[i]? = g[i]? := by
  have hinv : Sequenced w ∧ Forwarded w.trace := by
    refine run_acts (I := fun w => Sequenced w ∧ Forwarded w.trace) (G := fun _ _ => True) hrun
      (fun _ _ => trivial) (fun w hinit => ?_) (fun w env hw => ?_) ?_
    · obtain ⟨hconns, -, -, -, -, htrace⟩ := hinit
      have hempty : ∀ k, queued k w.trace = [] := by simp [htrace, queued]
      refine ⟨⟨fun k => ?_, fun k c hc => ?_, fun k _ => hempty k⟩, ?_⟩
      · simp [hempty, Numbered]
      · simp [World.conn?, hconns] at hc
      · simp [Forwarded, htrace]
    · exact ⟨hw.1.congr rfl (Nat.le_refl _) rfl, hw.2⟩
    · exact fun _ wf hact hw => ⟨hact.sequenced wf hw.1, hact.forwarded hw.2⟩
  exact ⟨hinv.1.numbered, hinv.2⟩

/-- A user goes online: one frame of that run is sent on. -/
theorem outgoing_stream_online :
    ∃ h w, Run step Initial h w ∧ h.map (·.2) = onlineframes (lit "alice") [1, 2, 3, 4] ∧
      (∃ cid f e, .answered cid f .forward (some e) ∈ w.trace) ∧
      (∀ k j frame, (queued k w.trace)[j]? = some frame → Framed (j % 65536) frame) ∧
      ∀ m cid f e, w.trace[m]? = some (.answered cid f .forward (some e)) →
        w.trace[m + 1]? = some (.refused e) ∨
          ∃ g, w.trace[m + 1]? = some (.queued e g) ∧ f.length = g.length ∧
            ∀ i, i ≠ 2 → i ≠ 3 → f[i]? = g[i]? := by
  have hreach : (replayInputs step (onlineframes (lit "alice") [1, 2, 3, 4]) started).toOption.any
      (fun r => r.2.trace.any forwarding) = true := by
    decide +kernel
  obtain ⟨h, w, hrun, hinputs, hw⟩ := Run.exists_of_replay started_initial hreach
  obtain ⟨o, ho, hforward⟩ := List.any_eq_true.1 hw
  refine ⟨h, w, hrun, hinputs, ?_, outgoing_stream hrun⟩
  unfold forwarding at hforward
  split at hforward
  · exact ⟨_, _, _, ho⟩
  · cases hforward

end Timps.Oscar
