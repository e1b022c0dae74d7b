-- SUMMARY: Endpoints: what acts do to the pointers between connections, and when these point back.
import Timps.Base.Pairing
import Timps.Oscar.Runs

/-!
# Endpoint pairing

`ends` is what is left of a world when only the endpoint pointers are looked at. Unless
a connection that has an endpoint is connected once more, every act either leaves `ends`
alone or is one of the changes of `Ends.Relink`.
-/

namespace Timps.Oscar

open Naf (lit)
open Function (update update_apply)
open Prog (keep)
open Relation (ReflTransGen)

variable {p : Perm} {w w' : World} {cid : Nat}

/-- The endpoint pointers. -/
def ends (w : World) : Ends Nat := fun k => (w.conn? k).map (·.endpoint)

/-- Pointers lead to connections that were made at some time. -/
def Known (w : World) : Prop := ∀ a e, ends w a = some (some e) → e < w.nextcid

theorem ends_eq_none {k : Nat} : ends w k = none ↔ w.conn? k = none := by
  simp [ends]

theorem ends_of_conn {c : Conn} (hc : w.conn? cid = some c) : ends w cid = some c.endpoint := by
  rw [ends, hc]
  rfl

theorem ends_congr (hconns : w'.conns = w.conns) : ends w' = ends w := by
  funext k
  simp only [ends, World.conn?, hconns]

theorem ends_modify {f : Conn → Conn} (hcid : ∀ c, (f c).cid = c.cid)
    (hend : ∀ c, (f c).endpoint = c.endpoint) : ends (w.modify cid f) = ends w := by
  funext k
  simp only [ends, World.conn?_modify hcid]
  split
  · cases w.conn? k <;> simp [hend]
  · rfl

/-- A new endpoint is the only change. -/
theorem ends_setEndpoint {c : Conn} {x : Option Nat} (hc : w.conn? cid = some c) :
    ends (w.modify cid (.setEndpoint x)) = update (ends w) cid (some x) := by
  funext k
  simp only [ends, World.conn?_modify (Conn.setEndpoint_cid _), update_apply]
  split
  · rename_i hk
    rw [hk, hc]
    rfl
  · rfl

theorem ends_insert (pos : Nat) {c : Conn} (wf : w.Wf) (hnew : New w c) :
    ends (w.insert pos c) = update (ends w) w.nextcid (some none) := by
  funext k
  simp only [ends, wf.conn?_insert hnew.cid, update_apply]
  split
  · simp [hnew.endpoint]
  · rfl

theorem ends_close : ends (w.close cid) = update (ends w) cid none := by
  funext k
  simp only [ends, World.conn?_close, update_apply]
  split <;> rfl

theorem ends_sent {b : Bool} {frame : Bytes} {env : Env} :
    ends (sent w cid b frame env) = ends w := by
  funext k
  simp only [ends, conn?_sent]
  split
  · cases w.conn? k <;> rfl
  · rfl

theorem Quiet.ends (h : Quiet p w w') : ends w' = ends w := by
  funext k
  have hview := congrArg (Option.map Prod.fst) (h.view k)
  simp only [Option.map_map] at hview
  exact hview

/-- No connection points to a number that was not given. -/
theorem Known.fresh (hknown : Known w) (wf : w.Wf) : (ends w).Fresh w.nextcid where
  closed := ends_eq_none.2 (wf.conn?_nextcid (Nat.le_refl _))
  unknown := fun a ha => Nat.lt_irrefl _ (hknown a _ ha)

/-- Connecting couples `l` with the new connection. -/
theorem ends_connect {l pos : Nat} {c n : Conn} (owner : Option Naf.Nafmodule) (wf : w.Wf)
    (hc : w.conn? l = some c) (hnew : New w n)
    (hquiet : ReflTransGen (Quiet p) ((w.insert pos n).modify l (.setEndpoint (some n.cid))) w') :
    w.nextcid < w'.nextcid ∧
      ends ((w'.modify n.cid (.setOwner owner)).modify n.cid (.setEndpoint (some l))) =
        update (update (ends w) l (some (some w.nextcid))) w.nextcid (some (some l)) := by
  have hne : l ≠ w.nextcid := Nat.ne_of_lt (wf.lt_nextcid hc)
  have hl : (w.insert pos n).conn? l = some c := by
    rw [wf.conn?_insert hnew.cid, if_neg hne, hc]
  have hends : ends w' =
      update (update (ends w) w.nextcid (some none)) l (some (some w.nextcid)) := by
    rw [← ends_insert pos wf hnew, ← hnew.cid, ← ends_setEndpoint hl]
    exact keep (I := fun v => ends v = _) (fun _ _ h heq => h.ends.trans heq) hquiet rfl
  constructor
  · have hle := keep (I := fun v => (w.insert pos n).nextcid ≤ v.nextcid)
      (fun _ _ h hle => Nat.le_trans hle h.nextcid_le) hquiet (Nat.le_refl _)
    have hcid := hnew.cid
    simp only [World.insert] at hle
    omega
  · have hopen : ends w' w.nextcid ≠ none := by
      rw [hends]
      simp [Ne.symm hne]
    obtain ⟨n', hn'⟩ : ∃ n', w'.conn? w.nextcid = some n' :=
      Option.ne_none_iff_exists'.1 fun h => hopen (ends_eq_none.2 h)
    have hn'' : (w'.modify w.nextcid (.setOwner owner)).conn? w.nextcid =
        some (n'.setOwner owner) := by
      rw [World.conn?_modify (Conn.setOwner_cid _), if_pos rfl, hn']
      rfl
    rw [hnew.cid, ends_setEndpoint hn'',
      ends_modify (Conn.setOwner_cid _) (Conn.setOwner_endpoint _), hends,
      Function.update_comm hne, Function.update_idem, Function.update_comm hne]

theorem Known.congr (hknown : Known w) (hnext : w.nextcid ≤ w'.nextcid) (hends : ends w' = ends w) :
    Known w' :=
  fun a e ha => Nat.lt_of_lt_of_le (hknown a e (hends ▸ ha)) hnext

theorem Known.update {a : Nat} {x : Option (Option Nat)} (hknown : Known w)
    (hnext : w.nextcid ≤ w'.nextcid) (hends : ends w' = update (ends w) a x)
    (hx : ∀ e, x = some (some e) → e < w'.nextcid) : Known w' := by
  intro b e hb
  rw [hends, update_apply] at hb
  split at hb
  · exact hx e hb
  · exact Nat.lt_of_lt_of_le (hknown b e hb) hnext

/-- Every step points to numbers that were given. -/
theorem Act.known (h : Act p w w') (wf : w.Wf) (hknown : Known w) : Known w' := by
  cases h with
  | quiet h => exact hknown.congr h.nextcid_le h.ends
  | accept hnew =>
      refine hknown.update (by simp [World.insert, hnew.cid]) (ends_insert _ wf hnew) ?_
      simp
  | connect owner hc _ hnew _ hquiet =>
      obtain ⟨hnext, hends⟩ := ends_connect owner wf hc hnew hquiet
      have hl := wf.lt_nextcid hc
      intro a e ha
      rw [hends] at ha
      simp only [update_apply] at ha
      split at ha
      · cases ha
        exact Nat.lt_trans hl hnext
      · split at ha
        · cases ha
          exact hnext
        · exact Nat.lt_trans (hknown a e ha) hnext
  | disconnect hc _ | unlink hc _ _ =>
      exact hknown.update (Nat.le_refl _) (ends_setEndpoint hc) (by simp)
  | name _ _ _ _ _ =>
      exact hknown.congr (Nat.le_refl _)
        (ends_modify (Conn.setTaglist_cid _) (Conn.setTaglist_endpoint _))
  | bury _ => exact hknown.update (Nat.le_refl _) ends_close (by simp)
  | read _ =>
      exact hknown.congr (Nat.le_refl _) (ends_modify (Conn.setRx_cid _) (Conn.setRx_endpoint _))
  | forward _ _ _ _ _ => exact hknown.congr (Nat.le_refl _) (ends_sent.trans (ends_congr rfl))
  | cookieAdd _ | cookieDrop _ | online _ _ | usehit | timeout | confchange | hand _ | answer _ _ =>
      exact hknown.congr (Nat.le_refl _) (ends_congr rfl)

/-- What an act does to the pointers when no connection is connected once more. -/
theorem Act.relink (h : Act p w w') (wf : w.Wf) (hknown : Known w) (hre : ¬p.reconnect) :
    ends w' = ends w ∨ Ends.Relink (ends w) (ends w') := by
  have hfree : ∀ {c : Conn}, (c.endpoint.isSome → c.type.client = true ∧ p.reconnect) → c.endpoint = none := by
    intro c hperm
    simpa using fun hsome => hre (hperm hsome).2
  cases h with
  | quiet h => exact .inl h.ends
  | accept hnew =>
      rw [ends_insert _ wf hnew]
      exact .inr (.enter (hknown.fresh wf))
  | connect owner hc hperm hnew _ hquiet =>
      rw [(ends_connect owner wf hc hnew hquiet).2]
      exact .inr (.couple (by rw [ends_of_conn hc, hfree hperm]) (hknown.fresh wf))
  | disconnect hc hperm =>
      rw [ends_setEndpoint hc, Function.update_eq_self_iff.2]
      · exact .inl rfl
      · rw [ends_of_conn hc, hfree hperm]
  | name _ _ _ _ _ => exact .inl (ends_modify (Conn.setTaglist_cid _) (Conn.setTaglist_endpoint _))
  | @bury cid dead hdead =>
      have hends : ends { w.close cid with gnr := freed (w.close cid) dead } = _ := ends_close
      rw [hends]
      exact .inr .leave
  | unlink hc hend hgone =>
      rw [ends_setEndpoint hc]
      exact .inr (.forget (by rw [ends_of_conn hc, hend]) (ends_eq_none.2 hgone))
  | read _ => exact .inl (ends_modify (Conn.setRx_cid _) (Conn.setRx_endpoint _))
  | forward _ _ _ _ _ => exact .inl (ends_sent.trans (ends_congr rfl))
  | cookieAdd _ | cookieDrop _ | online _ _ | usehit | timeout | confchange | hand _ | answer _ _ =>
      exact .inl (ends_congr rfl)

/-! ## Runs -/

/-- Of any two open connections, one that points to the other is pointed back to. -/
def Paired (w : World) : Prop :=
  ∀ a ∈ w.conns, ∀ b ∈ w.conns, a.endpoint = some b.cid → b.endpoint = some a.cid

instance : Decidable (Paired w) :=
  inferInstanceAs (Decidable (∀ a ∈ w.conns, ∀ b ∈ w.conns, _ → _))

/-- Connections are paired when their ends are. -/
theorem paired_of_ends (wf : w.Wf) (hp : (ends w).Paired) : Paired w := by
  intro a ha b hb hab
  exact hp a.cid b.cid _ ((ends_of_conn (wf.conn? ha)).trans (by rw [hab])) (ends_of_conn (wf.conn? hb))

/-- A client that is connected to its authorizer presents a cookie on the same connection. -/
def relogin : List Input := loginframes (lit "alice") [1, 2, 3, 4] ++ receiveframe 0 (cookieframe [1, 2, 3, 4])

/-- Then the authorizer's connection still points to the client, and the client does not
point back. -/
theorem relogin_unpaired :
    ∃ h w, Run step Initial h w ∧ h.map (·.2) = relogin ∧ ¬Paired w := by
  have hreach : (replayInputs step relogin started).toOption.any (fun r => ¬Paired r.2) = true := by
    decide +kernel
  obtain ⟨h, w, hrun, hinputs, hw⟩ := Run.exists_of_replay started_initial hreach
  exact ⟨h, w, hrun, hinputs, by simpa using hw⟩

/-- As long as no client that has an endpoint redeems a cookie, pointing is mutual in every
state, and so no two connections send to the same one. -/
theorem endpoints_paired {h : List (World × Input)} (hrun : Run step Initial h w)
    (honce : ∀ s ∈ h, ¬Relogin s.1 s.2) :
    Paired w ∧ ∀ s ∈ w.conns, ∀ t ∈ w.conns, ∀ c ∈ w.conns,
      s.endpoint = some c.cid → t.endpoint = some c.cid → s = t := by
  have wf := run_wf hrun
  have hinv : Known w ∧ (ends w).Paired := by
    refine run_acts (I := fun w => Known w ∧ (ends w).Paired) (G := fun w i => ¬Relogin w i) hrun
      honce (fun w hinit => ?_) (fun w env h => h) ?_
    · have hempty : ∀ k, ends w k = none := by
        intro k
        simp [ends, World.conn?, hinit.1]
      exact ⟨fun a e ha => by simp [hempty] at ha, fun a b x ha _ => by simp [hempty] at ha⟩
    · rintro i w₀ w w' hre wf hact ⟨hknown, hp⟩
      refine ⟨hact.known wf hknown, ?_⟩
      obtain heq | hrelink := hact.relink wf hknown hre
      · rw [heq]
        exact hp
      · exact hrelink.paired hp
  refine ⟨paired_of_ends wf hinv.2, fun s hs t ht c hc hsc htc => ?_⟩
  have hends : ∀ d ∈ w.conns, d.endpoint = some c.cid → ends w d.cid = some (some c.cid) :=
    fun d hd heq => (ends_of_conn (wf.conn? hd)).trans (by rw [heq])
  have hcid := hinv.2.unique (hends s hs hsc) (hends t ht htc)
    (by rw [ends_of_conn (wf.conn? hc)]; simp)
  exact List.inj_on_of_nodup_map wf.nodup hs ht hcid

/-- A login on one connection: two connections that point to each other. -/
theorem endpoints_paired_login :
    ∃ h w, Run step Initial h w ∧ h.map (·.2) = loginframes (lit "alice") [1, 2, 3, 4] ∧
      (∃ a ∈ w.conns, ∃ b ∈ w.conns, a.endpoint = some b.cid) ∧
      Paired w ∧ ∀ s ∈ w.conns, ∀ t ∈ w.conns, ∀ c ∈ w.conns,
        s.endpoint = some c.cid → t.endpoint = some c.cid → s = t := by
  have hreach : (replayInputs step (loginframes (lit "alice") [1, 2, 3, 4]) started).toOption.any
      (fun r => r.1.all (fun s => (completes s.1 s.2.event).all fun f => f.2.1.byte 1 ≠ 0x01) &&
        decide (∃ a ∈ r.2.conns, ∃ b ∈ r.2.conns, a.endpoint = some b.cid)) = true := by
    decide +kernel
  obtain ⟨h, w, hrun, hinputs, hw⟩ := Run.exists_of_replay started_initial hreach
  rw [Bool.and_eq_true, List.all_eq_true, decide_eq_true_eq] at hw
  refine ⟨h, w, hrun, hinputs, hw.2, endpoints_paired hrun ?_⟩
  rintro s hs ⟨cid, buf, buflen, hcompletes, hchan, -⟩
  have hother := hw.1 s hs
  simp [hcompletes, hchan] at hother

end Timps.Oscar
