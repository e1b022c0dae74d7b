-- SUMMARY: Presence: a local node stands for a user who has an open server connection.
import Timps.Oscar.Users

/-!
# Presence

The destructor of a connection's tags takes its user's node out of the table, unless
another connection of the user has a client. `freed` computes the table that is left,
so what stays and what goes can be read off the tags of the connection that is closed.
-/

namespace Timps.Oscar

open Naf (Tag lit)
open Gnr (Node flagNone metricLocal metricMax namecmp)
open Prog (keep)

variable {p : Perm} {w w' : World} {g : Gnr} {n : Node}

/-! ## The table of the module -/

/-- The table is sound, and all nodes are for the module's service. -/
structure Table (g : Gnr) : Prop where
  ok : g.Ok
  service : ∀ n ∈ g, n.service = oscarservice

/-- In a table of distinct names a node is found under any spelling of its own. -/
theorem Table.find (ht : Table g) {sn : CStr} (hn : n ∈ g) (hname : namecmp n.name sn = 0) :
    g.findbyname sn (some oscarservice) = some n :=
  Gnr.findbyname_eq ht.ok hn hname (by rw [ht.service n hn]; decide)

/-- A node comes into the table when its name is not there. -/
theorem Table.online (ht : Table g) {now metric : Int} {sn : CStr}
    (hnone : g.findbyname sn (some oscarservice) = none) :
    Table (g.enter (g.newnode now module sn oscarservice flagNone metric)) where
  ok := ht.ok.enter hnone rfl
  service := by
    intro n hn
    rcases Gnr.mem_enter.1 hn with rfl | hn
    · rfl
    · exact ht.service n hn

theorem Table.usehit (ht : Table g) {now : Int} {gn : Node} : Table (g.usehit now gn) where
  ok := ht.ok.usehit
  service := by
    intro n hn
    obtain ⟨m, hm, lastuse, rfl⟩ := Gnr.of_mem_usehit hn
    exact ht.service m hm

theorem Table.timeout (ht : Table g) {now : Int} : Table (g.hashTimeout now) where
  ok := ht.ok.hashTimeout
  service := fun n hn => ht.service n (Gnr.mem_hashTimeout.1 hn).1

theorem Table.offline (ht : Table g) {gn : Node} {reason : Gnr.Reason} (hgn : gn ∈ g) :
    Table (g.offline gn reason).2 where
  ok := ht.ok.offline
  service := fun n hn => ht.service n ((Gnr.mem_offline ht.ok hgn).1 hn).1

/-! ## Closing a connection -/

/-- Another connection of the user has a client. -/
def otherclient (w : World) (sn : CStr) (dead : Nat) : Bool :=
  w.conns.any (userhasotherclientMatcher w.env.overrun sn dead)

/-- The destructor of a tag leaves the table as it is, or takes one node out. -/
theorem freedTag_cases (w : World) (g : Gnr) (dead : Nat) (tag : Tag TagData) :
    freedTag w dead g tag = g ∨
      ∃ sn node, tag.owner = module ∧ tag.name = lit "conn.screenname" ∧ tag.data = .string sn ∧
        g.findbyname sn (some oscarservice) = some node ∧ otherclient w sn dead = false ∧
        freedTag w dead g tag = (g.offline node .disconnected).2 := by
  unfold freedTag
  split
  · rename_i hfor
    split
    · rename_i sn hdata
      split
      · rename_i node hfind
        split
        · exact .inl rfl
        · rename_i hother
          exact .inr ⟨sn, node, hfor.1, hfor.2, hdata, hfind, by simpa [otherclient] using hother, rfl⟩
      · exact .inl rfl
    · exact .inl rfl
  · exact .inl rfl

/-- A tag that is freed takes its node offline, if no other client has the name. -/
theorem Table.tagFreed {dead : Nat} {tag : Tag TagData} (ht : Table g) :
    Table (freedTag w dead g tag) := by
  obtain heq | ⟨sn, node, -, -, -, hfind, -, heq⟩ := freedTag_cases w g dead tag
  · rw [heq]
    exact ht
  · rw [heq]
    exact ht.offline (Gnr.findbyname_some hfind).1

theorem Table.mem_freedTag {dead : Nat} {tag : Tag TagData} (ht : Table g)
    (hn : n ∈ freedTag w dead g tag) : n ∈ g := by
  obtain heq | ⟨sn, node, -, -, -, hfind, -, heq⟩ := freedTag_cases w g dead tag
  · rw [← heq]
    exact hn
  · rw [heq, Gnr.mem_offline ht.ok (Gnr.findbyname_some hfind).1] at hn
    exact hn.1

/-- The tag is a user's name. -/
def Names (tag : Tag TagData) (sn : CStr) : Prop :=
  tag.owner = module ∧ tag.name = lit "conn.screenname" ∧ tag.data = .string sn

/-- The node of the name goes, unless the user has another client. -/
theorem Table.freedTag_named {dead : Nat} {tag : Tag TagData} {sn : CStr} (ht : Table g)
    (htag : Names tag sn) (hn : n ∈ freedTag w dead g tag) (hname : namecmp n.name sn = 0) :
    otherclient w sn dead = true := by
  have hfind := ht.find (ht.mem_freedTag hn) hname
  obtain ⟨howner, htagname, hdata⟩ := htag
  simp only [freedTag, howner, htagname, and_self, if_true, hdata, hfind] at hn
  by_cases hother : w.conns.any (userhasotherclientMatcher w.env.overrun sn dead) = true
  · exact hother
  · rw [if_neg hother, Gnr.mem_offline ht.ok (Gnr.findbyname_some hfind).1] at hn
    exact absurd rfl hn.2

/-- A node goes only for a tag of its name. -/
theorem Table.freedTag_keeps {dead : Nat} {tag : Tag TagData} (ht : Table g) (hn : n ∈ g)
    (hstay : ∀ sn, Names tag sn → namecmp n.name sn = 0 → otherclient w sn dead = true) :
    n ∈ freedTag w dead g tag := by
  obtain heq | ⟨sn, node, howner, hname, hdata, hfind, hother, heq⟩ :=
    freedTag_cases w g dead tag
  · rw [heq]
    exact hn
  · obtain ⟨hnode, hnodename, -⟩ := Gnr.findbyname_some hfind
    rw [heq, Gnr.mem_offline ht.ok hnode]
    refine ⟨hn, ?_⟩
    rintro rfl
    rw [hstay sn ⟨howner, hname, hdata⟩ hnodename] at hother
    cases hother

section

variable {dead : Nat}

theorem Table.tagsFreed (ht : Table g) (tags : List (Tag TagData)) :
    Table (tags.foldl (freedTag w dead) g) := by
  induction tags generalizing g with
  | nil => exact ht
  | cons tag tags ih => exact ih ht.tagFreed

theorem Table.mem_freedTags (ht : Table g) {tags : List (Tag TagData)}
    (hn : n ∈ tags.foldl (freedTag w dead) g) : n ∈ g := by
  induction tags generalizing g with
  | nil => exact hn
  | cons tag tags ih => exact ht.mem_freedTag (ih ht.tagFreed hn)

/-- A node of a freed name is left only where another client has the name. -/
theorem Table.freedTags_named (ht : Table g) {tags : List (Tag TagData)} {tag : Tag TagData}
    {sn : CStr} (hmem : tag ∈ tags) (htag : Names tag sn)
    (hn : n ∈ tags.foldl (freedTag w dead) g) (hname : namecmp n.name sn = 0) :
    otherclient w sn dead = true := by
  induction tags generalizing g with
  | nil => cases hmem
  | cons t tags ih =>
      rcases List.mem_cons.1 hmem with rfl | hmem
      · exact ht.freedTag_named htag (ht.tagFreed.mem_freedTags hn) hname
      · exact ih ht.tagFreed hmem hn

/-- A node stays if another client has its name. -/
theorem Table.freedTags_keeps (ht : Table g) {tags : List (Tag TagData)} (hn : n ∈ g)
    (hstay : ∀ tag ∈ tags, ∀ sn, Names tag sn → namecmp n.name sn = 0 →
      otherclient w sn dead = true) : n ∈ tags.foldl (freedTag w dead) g := by
  induction tags generalizing g with
  | nil => exact hn
  | cons tag tags ih =>
      exact ih ht.tagFreed (ht.freedTag_keeps hn (hstay tag (.head _)))
        fun tag' hmem => hstay tag' (.tail _ hmem)

end

/-- The name of a connection is in one of its tags. -/
theorem names_of_screennameOf {c : Conn} {sn : CStr} (hsn : screennameOf c = some sn) :
    ∃ tag ∈ c.taglist, Names tag sn := by
  unfold screennameOf at hsn
  cases hfetch : Tag.fetch c.taglist module (lit "conn.screenname") with
  | none =>
      rw [hfetch] at hsn
      cases hsn
  | some tag =>
      rw [hfetch] at hsn
      have hfor := List.find?_some hfetch
      simp only [Tag.isFor, decide_eq_true_eq] at hfor
      refine ⟨tag, List.mem_of_find?_eq_some hfetch, hfor.1, hfor.2, ?_⟩
      rcases tag with ⟨owner, name, type, data⟩
      cases data with
      | string s =>
          cases hsn
          rfl
      | int _ | tlvs _ => cases hsn

/-- Another client's connection is open, and named as the comparison of the module says. -/
theorem otherclient_ok {sn : CStr} {dead : Nat} (h : otherclient w sn dead = true) :
    ∃ c ∈ w.conns, c.type.server = true ∧ c.cid ≠ dead ∧ c.endpoint.isSome ∧
      ∃ sn', screennameOf c = some sn' ∧ sncmp w.env.overrun sn sn' = 0 := by
  obtain ⟨c, hc, hmatch⟩ := List.any_eq_true.1 h
  simp only [userhasotherclientMatcher, Bool.and_eq_true, decide_eq_true_eq,
    Option.any_eq_true_iff_get] at hmatch
  obtain ⟨⟨⟨hserver, hne⟩, hsome, hcmp⟩, hend⟩ := hmatch
  exact ⟨c, hc, hserver, hne, hend, _, (Option.some_get hsome).symm, hcmp⟩

/-! ## No ghosts -/

/-- The names that the tags of connections and the cookies carry. -/
def names (w : World) : List CStr := w.conns.filterMap screennameOf ++ w.ckcache.map (·.sn)

/-- The comparison of screen names and that of node names agree on the names involved. -/
def Agree (overrun : CStr → CStr → Nat) (w : World) : Prop :=
  ∀ a ∈ names w, ∀ b ∈ names w, sncmp overrun a b = 0 ↔ namecmp a b = 0

instance {overrun : CStr → CStr → Nat} : Decidable (Agree overrun w) :=
  inferInstanceAs (Decidable (∀ a ∈ names w, ∀ b ∈ names w, _ ↔ _))

/-- Every local node has a user, and users are at server connections. -/
structure Attended (w : World) : Prop where
  table : Table w.gnr
  server : ∀ k s sn, user w k = some (s, some sn) → s = true
  attended : ∀ n ∈ w.gnr, n.metric = metricLocal →
    ∃ k sn, user w k = some (true, some sn) ∧ namecmp n.name sn = 0

/-- Within a step that started from `w₀`, the names and the comparison are those of `w₀`. -/
structure Attending (w₀ : World) (overrun : CStr → CStr → Nat) (w : World) : Prop
    extends Attended w where
  involved : ∀ k s sn, user w k = some (s, some sn) → sn ∈ names w₀
  overrun : w.env.overrun = overrun

theorem mem_names {k : Nat} {s : Bool} {sn : CStr} (h : user w k = some (s, some sn)) :
    sn ∈ names w := by
  obtain ⟨c, hc, -, hsn⟩ := user_eq_some.1 h
  exact List.mem_append_left _ (List.mem_filterMap.2 ⟨c, (World.conn?_some hc).1, hsn⟩)

/-- Every step of the module keeps the nodes of those that are on it. -/
theorem Attending.act {w₀ : World} {i : Input} (ha : Attending w₀ i.env.overrun w) (wf : w.Wf)
    (hagree : Agree i.env.overrun w₀) (hact : Act (permOf w₀ i) w w') :
    Attending w₀ i.env.overrun w' := by
  have hoverrun : w'.env.overrun = i.env.overrun := hact.same.overrun.trans ha.overrun
  cases hact.enrols wf with
  | users hgnr hkept hnew =>
      refine ⟨⟨hgnr ▸ ha.table, fun k s sn hk => ?_, fun n hn hlocal => ?_⟩, fun k s sn hk => ?_, hoverrun⟩
      · obtain hold | ⟨hs, -⟩ := hnew k s sn hk
        · exact ha.server k s sn hold
        · exact hs
      · obtain ⟨k, sn, hk, hname⟩ := ha.attended n (hgnr ▸ hn) hlocal
        exact ⟨k, sn, hkept k true sn hk, hname⟩
      · obtain hold | ⟨-, ckc, hckc, rfl⟩ := hnew k s sn hk
        · exact ha.involved k s sn hold
        · exact List.mem_append_right _ (List.mem_map_of_mem hckc)
  | online sn metric husers hnone hmetric hgnr =>
      refine ⟨⟨hgnr ▸ ha.table.online hnone, husers ▸ ha.server, fun n hn hlocal => ?_⟩,
        husers ▸ ha.involved, hoverrun⟩
      rw [hgnr, Gnr.mem_enter] at hn
      rw [husers]
      obtain rfl | hn := hn
      · obtain ⟨-, k, s, hk⟩ | rfl := hmetric
        · obtain rfl := ha.server k s sn hk
          exact ⟨k, sn, hk, Gnr.namecmp_self sn⟩
        · exact absurd hlocal (by decide : metricMax ≠ metricLocal)
      · exact ha.attended n hn hlocal
  | usehit gn husers hgnr =>
      refine ⟨⟨hgnr ▸ ha.table.usehit, husers ▸ ha.server, fun n hn hlocal => ?_⟩,
        husers ▸ ha.involved, hoverrun⟩
      rw [hgnr] at hn
      obtain ⟨m, hm, lastuse, rfl⟩ := Gnr.of_mem_usehit hn
      rw [husers]
      exact ha.attended m hm hlocal
  | timeout husers hgnr =>
      refine ⟨⟨hgnr ▸ ha.table.timeout, husers ▸ ha.server, fun n hn hlocal => ?_⟩,
        husers ▸ ha.involved, hoverrun⟩
      rw [hgnr] at hn
      rw [husers]
      exact ha.attended n (Gnr.mem_hashTimeout.1 hn).1 hlocal
  | bury cid dead hdead hw' =>
      subst hw'
      have huser : ∀ k, user { w.close cid with gnr := freed (w.close cid) dead } k =
          if k = cid then none else user w k := user_close
      have hold : ∀ {k u}, user { w.close cid with gnr := freed (w.close cid) dead } k = some u →
          user w k = some u := by
        intro k u hk
        rw [huser] at hk
        split at hk
        · cases hk
        · exact hk
      refine ⟨⟨ha.table.tagsFreed _, fun k s sn hk => ha.server k s sn (hold hk), fun n hn hlocal => ?_⟩,
        fun k s sn hk => ha.involved k s sn (hold hk), hoverrun⟩
      obtain ⟨k, sn, hk, hname⟩ := ha.attended n (ha.table.mem_freedTags hn) hlocal
      by_cases hkc : k = cid
      · -- the user of the node is the one whose connection goes: another one is there
        subst hkc
        rw [user_of_conn hdead, Option.some.injEq, Prod.mk.injEq] at hk
        obtain ⟨tag, htag, hnames⟩ := names_of_screennameOf hk.2
        have hother := ha.table.freedTags_named htag hnames hn hname
        obtain ⟨c, hc, hserver, hne, -, sn', hsn', hcmp⟩ := otherclient_ok hother
        have hc' : user w c.cid = some (true, some sn') := by
          rw [user_of_conn (wf.conn? (List.mem_of_mem_filter hc)), hserver, hsn']
        have hsame : namecmp sn sn' = 0 := by
          refine (hagree sn ?_ sn' (ha.involved _ _ _ hc')).1 ?_
          · exact ha.involved k true sn (by rw [user_of_conn hdead, hk.1, hk.2])
          · rw [← ha.overrun]
            exact hcmp
        have hcid : c.cid ≠ k := by simpa using List.of_mem_filter hc
        refine ⟨c.cid, sn', ?_, Gnr.namecmp_trans hname hsame⟩
        rw [huser, if_neg hcid, hc']
      · exact ⟨k, sn, by rw [huser, if_neg hkc, hk], hname⟩

/-- Where the two comparisons of names agree, every local node in every state has an open
server connection with its user's name. So a node is not local when no connection has its
name. -/
theorem no_ghost_users {h : List (World × Input)} (hrun : Run step Initial h w)
    (hagree : ∀ s ∈ h, Agree s.2.env.overrun s.1) :
    (∀ n ∈ w.gnr, n.metric = metricLocal → n.ownermod = module →
      ∃ c ∈ w.conns, c.type.server = true ∧ ∃ sn, screennameOf c = some sn ∧ namecmp n.name sn = 0) ∧
    ∀ n ∈ w.gnr, (∀ c ∈ w.conns, c.type.server = true → ∀ sn, screennameOf c = some sn →
      namecmp n.name sn ≠ 0) → n.metric ≠ metricLocal := by
  have hinv : Attended w := by
    refine run_steps (J := fun w₀ i w => Attending w₀ i.env.overrun w)
      (G := fun w i => Agree i.env.overrun w) hrun hagree (fun w hinit => ?_) (fun w i hw => ?_) ?_ ?_
    · have hempty : ∀ k, user w k = none := by
        intro k
        simp [user, World.conn?, hinit.1]
      have hgnr : w.gnr = Gnr.hashInit := hinit.2.2.2.1
      refine ⟨⟨hgnr ▸ Gnr.hashInit_ok, fun n hn => ?_⟩, fun k s sn hk => ?_, fun n hn _ => ?_⟩
      · exact absurd (hgnr ▸ hn) (Gnr.mem_hashInit n)
      · simp [hempty] at hk
      · exact absurd (hgnr ▸ hn) (Gnr.mem_hashInit n)
    · exact ⟨⟨hw.table, hw.server, hw.attended⟩, fun k s sn hk => mem_names hk, rfl⟩
    · exact fun hG wf hact ha => ha.act wf hG hact
    · exact fun w₀ i w ha => ha.toAttended
  have hattended : ∀ n ∈ w.gnr, n.metric = metricLocal → ∃ c ∈ w.conns, c.type.server = true ∧
      ∃ sn, screennameOf c = some sn ∧ namecmp n.name sn = 0 := by
    intro n hn hlocal
    obtain ⟨k, sn, hk, hname⟩ := hinv.attended n hn hlocal
    obtain ⟨c, hc, hserver, hsn⟩ := user_eq_some.1 hk
    exact ⟨c, (World.conn?_some hc).1, hserver, sn, hsn, hname⟩
  refine ⟨fun n hn hlocal _ => hattended n hn hlocal, fun n hn hnone hlocal => ?_⟩
  obtain ⟨c, hc, hserver, sn, hsn, hname⟩ := hattended n hn hlocal
  exact hnone c hc hserver sn hsn hname

/-- A user goes online: the node is local. -/
theorem no_ghost_users_online :
    ∃ h w, Run step Initial h w ∧ h.map (·.2) = onlineframes (lit "alice") [1, 2, 3, 4] ∧
      (∃ n ∈ w.gnr, n.metric = metricLocal) ∧
      (∀ n ∈ w.gnr, n.metric = metricLocal → n.ownermod = module →
        ∃ c ∈ w.conns, c.type.server = true ∧ ∃ sn, screennameOf c = some sn ∧ namecmp n.name sn = 0) ∧
      ∀ n ∈ w.gnr, (∀ c ∈ w.conns, c.type.server = true → ∀ sn, screennameOf c = some sn →
        namecmp n.name sn ≠ 0) → n.metric ≠ metricLocal := by
  have hreach : (replayInputs step (onlineframes (lit "alice") [1, 2, 3, 4]) started).toOption.any
      (fun r => r.1.all (fun s => Agree s.2.env.overrun s.1) &&
        (r.2.gnr.findbyname (lit "alice") (some oscarservice)).any (·.metric = metricLocal)) = true := by
    decide +kernel
  obtain ⟨h, w, hrun, hinputs, hw⟩ := Run.exists_of_replay started_initial hreach
  simp only [Bool.and_eq_true, List.all_eq_true, decide_eq_true_eq, Option.any_eq_true] at hw
  obtain ⟨hagree, n, hfind, hlocal⟩ := hw
  exact ⟨h, w, hrun, hinputs, ⟨n, (Gnr.findbyname_some hfind).1, hlocal⟩, no_ghost_users hrun hagree⟩

end Timps.Oscar
