-- SUMMARY: Server connections that wait on a client: what acts do to the two, and to the user's node.
import Timps.Base.Calling
import Timps.Oscar.Pairing
import Timps.Oscar.Presence

/-!
# Seats

`calls` is what is left of a world when only endpoint pointers and sides are looked at.
A server connection lets go of its client only when that is gone, so it counts as another
client of its user whenever a connection of the same user is closed. A node that is local
then stays local as long as both connections are open.
-/

namespace Timps.Oscar

open Naf (Block Tag bytePut16 lit)
open Function (update update_apply)
open Gnr (Node metricLocal namecmp)
open Prog (keep)
open Relation (ReflTransGen)

variable {p : Perm} {w w' : World} {cid : Nat}

/-! ## Clients and their servers -/

/-- The endpoint pointers, and which connections are of clients. -/
def calls (w : World) : Calling Nat := fun k => (w.conn? k).map fun c => (c.type.client, c.endpoint)

theorem calls_eq_none {k : Nat} : calls w k = none ↔ w.conn? k = none := by
  simp [calls]

theorem calls_of_conn {c : Conn} (hc : w.conn? cid = some c) : calls w cid = some (c.type.client, c.endpoint) := by
  rw [calls, hc]
  rfl

theorem calls_eq_some {k : Nat} {b : Bool} {x : Option Nat} :
    calls w k = some (b, x) ↔ ∃ c, w.conn? k = some c ∧ c.type.client = b ∧ c.endpoint = x := by
  simp [calls]

theorem calls_congr (hconns : w'.conns = w.conns) : calls w' = calls w := by
  funext k
  simp only [calls, World.conn?, hconns]

theorem calls_modify {f : Conn → Conn} (hcid : ∀ c, (f c).cid = c.cid)
    (hclient : ∀ c, (f c).type.client = c.type.client) (hend : ∀ c, (f c).endpoint = c.endpoint) :
    calls (w.modify cid f) = calls w := by
  funext k
  simp only [calls, World.conn?_modify hcid]
  split
  · cases w.conn? k <;> simp [hclient, hend]
  · rfl

theorem calls_setRx {rx : Option Rx} : calls (w.modify cid (.setRx rx)) = calls w :=
  calls_modify (Conn.setRx_cid _) (fun _ => rfl) (Conn.setRx_endpoint _)

/-- A new endpoint is the only change. -/
theorem calls_setEndpoint {c : Conn} {x : Option Nat} (hc : w.conn? cid = some c) :
    calls (w.modify cid (.setEndpoint x)) = update (calls w) cid (some (c.type.client, x)) := by
  funext k
  simp only [calls, World.conn?_modify (Conn.setEndpoint_cid _), update_apply]
  split
  · rename_i hk
    rw [hk, hc]
    rfl
  · rfl

/-- A new connection has no endpoint. -/
theorem calls_insert (pos : Nat) {c : Conn} (wf : w.Wf) (hnew : New w c) :
    calls (w.insert pos c) = update (calls w) w.nextcid (some (c.type.client, none)) := by
  funext k
  simp only [calls, wf.conn?_insert hnew.cid, update_apply]
  split
  · simp [hnew.endpoint]
  · rfl

theorem calls_close : calls (w.close cid) = update (calls w) cid none := by
  funext k
  simp only [calls, World.conn?_close, update_apply]
  split <;> rfl

theorem calls_sent {b : Bool} {frame : Bytes} {env : Env} : calls (sent w cid b frame env) = calls w := by
  funext k
  simp only [calls, conn?_sent]
  split
  · cases w.conn? k <;> rfl
  · rfl

theorem Quiet.calls (h : Quiet p w w') : calls w' = calls w := by
  funext k
  have hview := congrArg (Option.map fun v => (v.2.1, v.1)) (h.view k)
  simp only [Option.map_map] at hview
  exact hview

theorem Known.freshCalls (hknown : Known w) (wf : w.Wf) : (calls w).Fresh w.nextcid where
  closed := calls_eq_none.2 (wf.conn?_nextcid (Nat.le_refl _))
  unknown := by
    intro a b ha
    obtain ⟨c, hc, -, hend⟩ := calls_eq_some.1 ha
    exact Nat.lt_irrefl _ (hknown a _ (by rw [ends_of_conn hc, hend]))

/-- The new connection is on the other side. -/
theorem calls_connect {l pos : Nat} {c n : Conn} (owner : Option Naf.Nafmodule) (wf : w.Wf)
    (hc : w.conn? l = some c) (hnew : New w n) (hside : n.type.client = !c.type.client)
    (hquiet : ReflTransGen (Quiet p) ((w.insert pos n).modify l (.setEndpoint (some n.cid))) w') :
    calls ((w'.modify n.cid (.setOwner owner)).modify n.cid (.setEndpoint (some l))) =
      update (update (calls w) l (some (c.type.client, some w.nextcid))) w.nextcid
        (some (!c.type.client, some l)) := by
  have hne : l ≠ w.nextcid := Nat.ne_of_lt (wf.lt_nextcid hc)
  have hl : (w.insert pos n).conn? l = some c := by
    rw [wf.conn?_insert hnew.cid, if_neg hne, hc]
  have hcalls : calls w' = update (update (calls w) w.nextcid (some (n.type.client, none))) l
      (some (c.type.client, some w.nextcid)) := by
    rw [← calls_insert pos wf hnew, ← hnew.cid, ← calls_setEndpoint hl]
    exact keep (I := fun v => calls v = _) (fun _ _ h heq => h.calls.trans heq) hquiet rfl
  have hn : calls w' w.nextcid = some (!c.type.client, none) := by
    rw [hcalls, update_apply, if_neg (Ne.symm hne), update_apply, if_pos rfl, hside]
  obtain ⟨n', hn', hclient, -⟩ := calls_eq_some.1 hn
  have hn'' : (w'.modify w.nextcid (.setOwner owner)).conn? w.nextcid = some (n'.setOwner owner) := by
    rw [World.conn?_modify (Conn.setOwner_cid _), if_pos rfl, hn']
    rfl
  rw [hnew.cid, calls_setEndpoint hn'',
    calls_modify (Conn.setOwner_cid _) (fun _ => rfl) (Conn.setOwner_endpoint _), hcalls,
    Conn.setOwner_type, hclient, Function.update_comm hne, Function.update_idem]
  exact (Function.update_comm hne _ _ _).symm

/-- A client may be connected once more; nobody else lets go of somebody who is there. -/
theorem Act.redial (h : Act p w w') (wf : w.Wf) (hknown : Known w) :
    calls w' = calls w ∨ Calling.Redial (calls w) (calls w') := by
  cases h with
  | quiet h => exact .inl h.calls
  | accept hnew =>
      rw [calls_insert _ wf hnew]
      exact .inr (.enter (hknown.freshCalls wf))
  | connect owner hc hperm hnew hsides hquiet =>
      rw [calls_connect owner wf hc hnew hsides.2 hquiet]
      exact .inr (.couple (calls_of_conn hc) (fun hsome => (hperm hsome).1) (hknown.freshCalls wf))
  | disconnect hc hperm =>
      rw [calls_setEndpoint hc]
      exact .inr (.drop (calls_of_conn hc) fun hsome => (hperm hsome).1)
  | name _ _ _ _ _ =>
      exact .inl (calls_modify (Conn.setTaglist_cid _) (fun _ => rfl) (Conn.setTaglist_endpoint _))
  | @bury cid dead hdead =>
      have hcalls : calls { w.close cid with gnr := freed (w.close cid) dead } = _ := calls_close
      rw [hcalls]
      exact .inr .leave
  | unlink hc hend hgone =>
      rw [calls_setEndpoint hc]
      exact .inr (.forget (by rw [calls_of_conn hc, hend]) (calls_eq_none.2 hgone))
  | read _ => exact .inl calls_setRx
  | forward _ _ _ _ _ => exact .inl (calls_sent.trans (calls_congr rfl))
  | cookieAdd _ | cookieDrop _ | online _ _ | usehit | timeout | confchange | hand _ | answer _ _ =>
      exact .inl (calls_congr rfl)

/-! ## Names in tags -/

/-- The connection has no names in its tags but its user's. -/
def Labelled (c : Conn) : Prop := ∀ tag ∈ c.taglist, ∀ sn, Names tag sn → screennameOf c = some sn

def AllLabelled (w : World) : Prop := ∀ k c, w.conn? k = some c → Labelled c

theorem AllLabelled.congr (hw : AllLabelled w) (hconns : w'.conns = w.conns) : AllLabelled w' := by
  intro k c hc
  exact hw k c (by rw [← hc, World.conn?, World.conn?, hconns])

theorem AllLabelled.modify {f : Conn → Conn} (hw : AllLabelled w) (hcid : ∀ c, (f c).cid = c.cid)
    (hf : ∀ c, w.conn? cid = some c → Labelled c → Labelled (f c)) : AllLabelled (w.modify cid f) := by
  intro k c hc
  rw [World.conn?_modify hcid] at hc
  split at hc
  · rename_i hk
    obtain ⟨d, hd, rfl⟩ := Option.map_eq_some_iff.1 hc
    rw [hk] at hd
    exact hf d hd (hw cid d hd)
  · exact hw k c hc

/-- A change that leaves the tags alone. -/
theorem Labelled.of_taglist {c d : Conn} (hc : Labelled c) (htags : d.taglist = c.taglist) : Labelled d := by
  intro tag htag sn hsn
  have hname := hc tag (htags ▸ htag) sn hsn
  unfold screennameOf at hname ⊢
  rw [htags, hname]

/-- A change that others do not see leaves the names in the tags. -/
theorem Labelled.of_touch {c : Conn} {f : Conn → Conn} (hc : Labelled c) (ht : Touch c f) : Labelled (f c) := by
  intro tag htag sn hsn
  rw [ht.screenname]
  obtain hold | hother := ht.tags tag htag
  · exact hc tag hold sn hsn
  · exact absurd hsn.2.1 hother

/-- A name goes to a connection that has none. -/
theorem Labelled.named {c : Conn} {sn : CStr} (hc : Labelled c) (hnone : screennameOf c = none) :
    Labelled (c.setTaglist (screennameTag sn :: c.taglist)) := by
  intro tag htag sn' hsn
  rcases List.mem_cons.1 htag with rfl | hold
  · obtain ⟨-, -, hdata⟩ := hsn
    cases hdata
    simp [screennameOf, screennameTag, Tag.fetch, Tag.isFor, tagstring]
  · have hname := hc tag hold sn' hsn
    rw [hnone] at hname
    cases hname

theorem AllLabelled.insert {pos : Nat} {c : Conn} (hw : AllLabelled w) (wf : w.Wf) (hnew : New w c) :
    AllLabelled (w.insert pos c) := by
  intro k d hd
  rw [wf.conn?_insert hnew.cid] at hd
  split at hd
  · cases hd
    intro tag htag
    rw [hnew.taglist] at htag
    cases htag
  · exact hw k d hd

theorem AllLabelled.sent {b : Bool} {frame : Bytes} {env : Env} (hw : AllLabelled w) :
    AllLabelled (sent w cid b frame env) := by
  intro k c hc
  rw [conn?_sent] at hc
  split at hc
  · obtain ⟨d, hd, rfl⟩ := Option.map_eq_some_iff.1 hc
    exact (hw k d hd).of_taglist rfl
  · exact hw k c hc

theorem Quiet.allLabelled (h : Quiet p w w') (hw : AllLabelled w) : AllLabelled w' := by
  cases h with
  | env _ _ | count _ _ _ => exact hw.congr rfl
  | touch hc ht =>
      refine hw.modify ht.cid fun d hd hlabelled => ?_
      rw [hc, Option.some.injEq] at hd
      exact hd ▸ (hd.symm ▸ hlabelled : Labelled _).of_touch ht
  | send _ _ _ => exact hw.sent
  | request _ _ _ _ => exact hw.modify (Conn.setRx_cid _) fun c _ hc => hc.of_taglist rfl

/-- In every step the names in the tags stay those of the users. -/
theorem Act.allLabelled (h : Act p w w') (wf : w.Wf) (hw : AllLabelled w) : AllLabelled w' := by
  have hend : ∀ {w : World} {k x}, AllLabelled w → AllLabelled (w.modify k (.setEndpoint x)) :=
    fun hw => hw.modify (Conn.setEndpoint_cid _) fun c _ hc => hc.of_taglist rfl
  cases h with
  | quiet h => exact h.allLabelled hw
  | accept hnew => exact hw.insert wf hnew
  | connect _ _ _ hnew _ hquiet =>
      have hw' := keep (fun _ _ h => h.allLabelled) hquiet (hend (hw.insert wf hnew))
      exact hend (hw'.modify (Conn.setOwner_cid _) fun c _ hc => hc.of_taglist rfl)
  | disconnect _ _ | unlink _ _ _ => exact hend hw
  | name hc _ _ hnone _ =>
      refine hw.modify (Conn.setTaglist_cid _) fun d hd hlabelled => ?_
      rw [hc, Option.some.injEq] at hd
      subst hd
      exact hlabelled.named hnone
  | @bury cid dead _ =>
      intro k c hc
      have hclose : ({ w.close cid with gnr := freed (w.close cid) dead } : World).conn? k =
          if k = cid then none else w.conn? k := World.conn?_close
      rw [hclose] at hc
      split at hc
      · cases hc
      · exact hw k c hc
  | read _ => exact hw.modify (Conn.setRx_cid _) fun c _ hc => hc.of_taglist rfl
  | forward _ _ _ _ _ =>
      have hobs : ∀ o, AllLabelled (w.observe o) := fun o => hw.congr rfl
      exact (hobs _).sent
  | cookieAdd _ | cookieDrop _ | online _ _ | usehit | timeout | confchange | hand _ | answer _ _ =>
      exact hw.congr rfl

/-! ## Seats -/

/-- The server connection `e` waits on the client `k`, and its user's node is local. -/
structure Sits (w : World) (k e : Nat) : Prop where
  line : calls w e = some (false, some k)
  node : ∃ sn, user w e = some (true, some sn) ∧ ∃ n ∈ w.gnr, namecmp n.name sn = 0 ∧ n.metric = metricLocal

/-- A node stays local when other connections are closed: this one counts as another client. -/
theorem mem_freed_of_line {w₀ : World} {i : Input} {k e : Nat} {dead : Conn} {sn : CStr} {n : Node}
    (ha : Attending w₀ i.env.overrun w) (hagree : Agree i.env.overrun w₀)
    (hlabelled : AllLabelled w) (hline : calls w e = some (false, some k))
    (huser : user w e = some (true, some sn)) (hn : n ∈ w.gnr) (hname : namecmp n.name sn = 0)
    (hdead : w.conn? cid = some dead) (hne : e ≠ cid) : n ∈ freed (w.close cid) dead := by
  have hcid := (World.conn?_some hdead).2
  refine ha.table.freedTags_keeps hn fun tag htag sn' hsn' hname' => ?_
  have hdeadname := hlabelled cid dead hdead tag htag sn' hsn'
  have hsame : namecmp sn' sn = 0 := Gnr.namecmp_trans (Gnr.namecmp_comm hname') hname
  have hcmp : sncmp i.env.overrun sn' sn = 0 := by
    refine (hagree sn' ?_ sn (ha.involved e true sn huser)).2 hsame
    exact ha.involved cid dead.type.server sn' (by rw [user_of_conn hdead, hdeadname])
  obtain ⟨d, hd, -, hend⟩ := calls_eq_some.1 hline
  obtain ⟨d', hd', hserver, hsn⟩ := user_eq_some.1 huser
  obtain rfl : d = d' := by
    rw [hd] at hd'
    exact Option.some.inj hd'
  obtain ⟨hmem, hde⟩ := World.conn?_some hd
  have hoverrun : (w.close cid).env.overrun = i.env.overrun := ha.overrun
  refine List.any_eq_true.2 ⟨d, List.mem_filter.2 ⟨hmem, by simp [hde, hne]⟩, ?_⟩
  simp [userhasotherclientMatcher, hserver, hde, hcid, hne, hsn, hend, hoverrun, hcmp]

/-- An act takes nobody's seat as long as both connections are open. -/
theorem Sits.act {w₀ : World} {i : Input} {k e : Nat} (hs : Sits w k e)
    (ha : Attending w₀ i.env.overrun w) (wf : w.Wf) (hknown : Known w) (hlabelled : AllLabelled w)
    (hagree : Agree i.env.overrun w₀) (hact : Act (permOf w₀ i) w w') (hk : w.conn? k ≠ none)
    (he' : w'.conn? e ≠ none) : Sits w' k e where
  line := by
    obtain heq | hredial := hact.redial wf hknown
    · rw [heq, hs.line]
    · exact hredial.keeps hs.line (fun h => hk (calls_eq_none.1 h)) fun h => he' (calls_eq_none.1 h)
  node := by
    obtain ⟨sn, huser, n, hn, hname, hlocal⟩ := hs.node
    cases hact.enrols wf with
    | users hgnr hkept _ => exact ⟨sn, hkept e true sn huser, n, hgnr ▸ hn, hname, hlocal⟩
    | online _ _ husers _ _ hgnr =>
        exact ⟨sn, husers ▸ huser, n, by rw [hgnr, Gnr.mem_enter]; exact .inr hn, hname, hlocal⟩
    | usehit gn husers hgnr =>
        refine ⟨sn, husers ▸ huser, _, hgnr ▸ Gnr.mem_usehit.2 ⟨n, hn, rfl⟩, ?_⟩
        split
        · exact ⟨hname, hlocal⟩
        · exact ⟨hname, hlocal⟩
    | timeout husers hgnr =>
        refine ⟨sn, husers ▸ huser, n, ?_, hname, hlocal⟩
        rw [hgnr, Gnr.mem_hashTimeout]
        exact ⟨hn, Gnr.not_expired_of_local hlocal⟩
    | bury cid dead hdead hw' =>
        subst hw'
        have hclose : ({ w.close cid with gnr := freed (w.close cid) dead } : World).conn? e =
            if e = cid then none else w.conn? e := World.conn?_close
        have hne : e ≠ cid := fun heq => he' (hclose.trans (if_pos heq))
        have huser' : user { w.close cid with gnr := freed (w.close cid) dead } e =
            if e = cid then none else user w e := user_close e
        rw [if_neg hne] at huser'
        refine ⟨sn, huser'.trans huser, n, ?_, hname, hlocal⟩
        exact mem_freed_of_line ha hagree hlabelled hs.line huser hn hname hdead hne

end Timps.Oscar
