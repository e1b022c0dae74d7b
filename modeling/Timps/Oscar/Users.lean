-- SUMMARY: The users of connections and the node table: what acts do to both.
import Timps.Oscar.Runs

/-!
# Users and nodes

`user w k` is what the node table depends on at the connection `k`: whether it is a
server connection, and its user's name. `Act.enrols` says what acts do to users and to
the node table. The table changes when a node is made or used, when nodes time out, and
when the connection of a user is closed.
-/

namespace Timps.Oscar

open Naf (Tag lit)
open Gnr (Node flagNone metricLocal metricMax namecmp)
open Prog (keep)
open Relation (ReflTransGen)

variable {p : Perm} {w w' : World} {cid : Nat}

def user (w : World) (k : Nat) : Option (Bool × Option CStr) :=
  (w.conn? k).map fun c => (c.type.server, screennameOf c)

theorem user_of_conn {c : Conn} (hc : w.conn? cid = some c) :
    user w cid = some (c.type.server, screennameOf c) := by
  rw [user, hc]
  rfl

theorem user_eq_some {k : Nat} {s : Bool} {o : Option CStr} :
    user w k = some (s, o) ↔ ∃ c, w.conn? k = some c ∧ c.type.server = s ∧ screennameOf c = o := by
  simp [user]

/-- Who is on a connection is read off the connections alone. -/
theorem user_congr (hconns : w'.conns = w.conns) : user w' = user w := by
  funext k
  simp only [user, World.conn?, hconns]

theorem user_modify {f : Conn → Conn} (hcid : ∀ c, (f c).cid = c.cid)
    (hserver : ∀ c, (f c).type.server = c.type.server)
    (hname : ∀ c, screennameOf (f c) = screennameOf c) : user (w.modify cid f) = user w := by
  funext k
  simp only [user, World.conn?_modify hcid]
  split
  · cases w.conn? k <;> simp [hserver, hname]
  · rfl

theorem user_setEndpoint {x : Option Nat} : user (w.modify cid (.setEndpoint x)) = user w :=
  user_modify (Conn.setEndpoint_cid _) (fun _ => rfl) fun _ => rfl

theorem user_setRx {rx : Option Rx} : user (w.modify cid (.setRx rx)) = user w :=
  user_modify (Conn.setRx_cid _) (fun _ => rfl) fun _ => rfl

theorem user_sent {b : Bool} {frame : Bytes} {env : Env} : user (sent w cid b frame env) = user w := by
  funext k
  simp only [user, conn?_sent]
  split
  · cases w.conn? k <;> rfl
  · rfl

/-- A quiet step leaves everyone where they are. -/
theorem Quiet.user (h : Quiet p w w') : user w' = user w := by
  funext k
  have hview := congrArg (Option.map fun v => (v.2.2.1, v.2.2.2)) (h.view k)
  simp only [Option.map_map] at hview
  exact hview

theorem Quiet.gnr (h : Quiet p w w') : w'.gnr = w.gnr := by cases h <;> rfl

/-- Nobody is on a new connection. -/
theorem screennameOf_new {c : Conn} (hnew : New w c) : screennameOf c = none := by
  simp [screennameOf, tagstring, Tag.fetch, hnew.taglist]

theorem user_insert {pos : Nat} {c : Conn} (wf : w.Wf) (hnew : New w c) (k : Nat) :
    user (w.insert pos c) k = if k = w.nextcid then some (c.type.server, none) else user w k := by
  simp only [user, wf.conn?_insert hnew.cid]
  split
  · simp [screennameOf_new hnew]
  · rfl

theorem user_nextcid (wf : w.Wf) : user w w.nextcid = none := by
  rw [user, wf.conn?_nextcid (Nat.le_refl _)]
  rfl

/-- A name in the tags is the name of the connection. -/
theorem user_setTaglist {e : Nat} {c : Conn} {sn : CStr} (hc : w.conn? e = some c) (k : Nat) :
    user (w.modify e (.setTaglist (screennameTag sn :: c.taglist))) k =
      if k = e then some (c.type.server, some sn) else user w k := by
  simp only [user, World.conn?_modify (Conn.setTaglist_cid _)]
  split
  · rename_i hk
    rw [hk, hc]
    simp [screennameOf, screennameTag, Tag.fetch, Tag.isFor, tagstring]
  · rfl

theorem user_close (k : Nat) : user (w.close cid) k = if k = cid then none else user w k := by
  simp only [user, World.conn?_close]
  split <;> rfl

/-- What an act does to the users and to the node table. -/
inductive Enrols (p : Perm) (w w' : World) : Prop
  /-- no user goes, and a new one is permitted -/
  | users : w'.gnr = w.gnr →
      (∀ k s sn, user w k = some (s, some sn) → user w' k = some (s, some sn)) →
      (∀ k s sn, user w' k = some (s, some sn) →
        user w k = some (s, some sn) ∨ s = true ∧ p.name sn) → Enrols p w w'
  | online (sn : CStr) (metric : Int) : user w' = user w →
      w.gnr.findbyname sn (some oscarservice) = none →
      (metric = metricLocal ∧ (∃ k s, user w k = some (s, some sn)) ∨ metric = metricMax) →
      w'.gnr = w.gnr.enter (w.gnr.newnode w.env.now module sn oscarservice flagNone metric) →
      Enrols p w w'
  | usehit (gn : Node) : user w' = user w → w'.gnr = w.gnr.usehit w.env.now gn → Enrols p w w'
  | timeout : user w' = user w → w'.gnr = w.gnr.hashTimeout w.env.now → Enrols p w w'
  | bury (cid : Nat) (dead : Conn) : w.conn? cid = some dead →
      w' = { w.close cid with gnr := freed (w.close cid) dead } → Enrols p w w'

/-- Nothing that users or nodes depend on has changed. -/
theorem Enrols.same (hgnr : w'.gnr = w.gnr) (huser : user w' = user w) : Enrols p w w' :=
  .users hgnr (fun k s sn h => by rw [huser, h]) fun k s sn h => .inl (by rw [← huser, h])

/-- A connection without a user is new. -/
theorem Enrols.new {n : Nat} {s : Bool} (hgnr : w'.gnr = w.gnr) (hfresh : user w n = none)
    (huser : ∀ k, user w' k = if k = n then some (s, none) else user w k) : Enrols p w w' := by
  refine .users hgnr (fun k s' sn h => ?_) fun k s' sn h => ?_
  · rw [huser, if_neg, h]
    rintro rfl
    rw [hfresh] at h
    cases h
  · rw [huser] at h
    split at h
    · cases h
    · exact .inl h

/-- Every step does one of these to the users and to the node table. -/
theorem Act.enrols (h : Act p w w') (wf : w.Wf) : Enrols p w w' := by
  cases h with
  | quiet h => exact .same h.gnr h.user
  | @accept pos c hnew => exact .new rfl (user_nextcid wf) fun k => user_insert wf hnew k
  | @connect w' l pos c n owner hc _ hnew _ hquiet =>
      have hgnr := keep (I := fun v => v.gnr = w.gnr) (fun _ _ h heq => h.gnr.trans heq) hquiet rfl
      have huser := keep (I := fun v => user v = user (w.insert pos n))
        (fun _ _ h heq => h.user.trans heq) hquiet user_setEndpoint
      have howner : user (w'.modify n.cid (.setOwner owner)) = user w' :=
        user_modify (Conn.setOwner_cid _) (fun _ => rfl) fun _ => rfl
      refine .new hgnr (user_nextcid wf) (s := n.type.server) fun k => ?_
      rw [user_setEndpoint, howner, huser, user_insert wf hnew]
  | disconnect _ _ | unlink _ _ _ => exact .same rfl user_setEndpoint
  | read _ => exact .same rfl user_setRx
  | @name e c sn hc _ hserver hnone hname =>
      have hold : user w e = some (true, none) := by rw [user_of_conn hc, hserver, hnone]
      refine .users rfl (fun k s sn' h => ?_) fun k s sn' h => ?_
      · rw [user_setTaglist hc, if_neg, h]
        rintro rfl
        rw [hold] at h
        cases h
      · rw [user_setTaglist hc] at h
        split at h
        · cases h
          exact .inr ⟨hserver, hname⟩
        · exact .inl h
  | @online sn metric hnone hmetric =>
      refine .online sn metric (user_congr rfl) hnone (hmetric.imp_left ?_) rfl
      rintro ⟨hlocal, e, c, hc, hsn⟩
      exact ⟨hlocal, e, c.type.server, by rw [user_of_conn hc, hsn]⟩
  | @usehit gn => exact .usehit gn (user_congr rfl) rfl
  | timeout =>
      refine .timeout (user_congr rfl) ?_
      dsimp only
  | bury hdead => exact .bury _ _ hdead rfl
  | @forward cid e c b f g env _ _ _ _ _ =>
      have hobs : user (w.observe (.answered cid f .forward (some e))) = user w := user_congr rfl
      exact .same rfl (user_sent.trans hobs)
  | cookieAdd _ | cookieDrop _ | confchange | hand _ | answer _ _ => exact .same rfl (user_congr rfl)

end Timps.Oscar
