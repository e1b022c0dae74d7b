-- SUMMARY: The node table of gnr: look-up, going online and offline, time-outs, and the table invariant.
import Mathlib.Data.List.FinRange
import Mathlib.Data.List.Pairwise
import Timps.Gnr.Name
import Timps.Naf.Tag

/-!
# Nodes

A node says how far away a user is: metric 0 for a user connected here, the maximum
for one that is only known from messages. The table has 64 buckets. `Gnr.Ok` is its
invariant: every node sits in the bucket of its name, and there is one node for a
name and service.
-/

namespace Timps.Gnr

open Naf (Nafmodule Mem malloc strcaseeq)

structure Node where
  /-- stands for the node's address -/
  nid : Nat
  name : CStr
  service : CStr
  flags : Nat
  metric : Int
  ownermod : Nafmodule
  refcount : Int
  lastuse : Int
  ttl : Int
  createtime : Int
  deriving DecidableEq

/-- GNR_NODE_METRIC_LOCAL, GNR_NODE_METRIC_MAX, GNR_NODE_TTL_DEFAULT, GNR_NODE_FLAG_NONE -/
def metricLocal : Int := 0
def metricMax : Int := 65535
def ttlDefault : Int := 30
def flagNone : Nat := 0

inductive Reason where
  | unknown
  | timeout
  | disconnected
  deriving DecidableEq

/-- The events thrown at the handlers of gnr events. -/
inductive Event where
  | nodeup (node : Node)
  | nodedown (node : Node) (reason : Reason)

structure Nodestats where
  total : Int
  localNodes : Int
  peered : Int
  external : Int

end Gnr

/-- The state of gnr: the node hash, the counters and the events thrown so far. -/
structure Gnr where
  hash : Fin 64 → List Gnr.Node
  nextnid : Nat
  stats : Gnr.Nodestats
  events : List Gnr.Event

namespace Gnr

open Naf (Nafmodule Mem malloc strcaseeq)

instance : Membership Node Gnr := ⟨fun g n => ∃ i, n ∈ g.hash i⟩

def hashInit : Gnr := { hash := fun _ => [], nextnid := 0, stats := ⟨0, 0, 0, 0⟩, events := [] }

/-- Add `d` to the counter of the node's metric and to the total. -/
def Nodestats.count (st : Nodestats) (metric d : Int) : Nodestats :=
  let st := { st with total := st.total + d }
  if metric = metricLocal then { st with localNodes := st.localNodes + d }
  else if metric = metricMax then { st with external := st.external + d }
  else { st with peered := st.peered + d }

def setBucket (g : Gnr) (idx : Fin 64) (l : List Node) : Gnr :=
  { g with hash := fun i => if i = idx then l else g.hash i }

def freenode (g : Gnr) (gn : Node) (reason : Reason) : Gnr :=
  { g with stats := g.stats.count gn.metric (-1), events := g.events ++ [.nodedown gn reason] }

/-- A node matches a name and, when one is given, a service. -/
def matchesName (name : CStr) (service : Option CStr) (gn : Node) : Bool :=
  namecmp gn.name name = 0 && (service.all fun service => strcaseeq gn.service service)

def findbyname (g : Gnr) (name : CStr) (service : Option CStr) : Option Node :=
  (g.hash (hashGetidx name)).find? (matchesName name service)

def hashAdd (g : Gnr) (gn : Node) : Gnr :=
  let idx := hashGetidx gn.name
  g.setBucket idx (gn :: g.hash idx)

/-- The fields `gnr_node_online` fills in. -/
def newnode (g : Gnr) (now : Int) (owner : Nafmodule) (name service : CStr) (flags : Nat)
    (metric : Int) : Node :=
  { nid := g.nextnid, name, service, flags, metric, ownermod := owner, refcount := 0,
    lastuse := now, createtime := now, ttl := if metric > metricLocal then ttlDefault else -1 }

/-- A new node goes into the hash, is counted and announced. -/
def enter (g : Gnr) (gn : Node) : Gnr :=
  { g.hashAdd gn with
    nextnid := g.nextnid + 1
    stats := g.stats.count gn.metric 1
    events := g.events ++ [.nodeup gn] }

/-- The existing node of that name and service if there is one, else a new one. -/
def online (g : Gnr) (now : Int) (owner : Nafmodule) (name service : CStr) (flags : Nat)
    (metric : Int) : Mem (Option Node × Gnr) :=
  match g.findbyname name (some service) with
  | some gn => pure (some gn, g)
  | none => do
      -- the node (88 bytes), its name and its service
      match ← malloc 88 with
      | none => pure (none, g)
      | some _ =>
          match ← malloc (name.length + 1) with
          | none => pure (none, g)
          | some _ =>
              match ← malloc (service.length + 1) with
              | none => pure (none, g)
              | some _ =>
                  let gn := g.newnode now owner name service flags metric
                  pure (some gn, g.enter gn)

/-- Write to the node. -/
def update (g : Gnr) (gn : Node) (f : Node → Node) : Gnr :=
  { g with hash := fun i => (g.hash i).map fun n => if n.nid = gn.nid then f n else n }

def usehit (g : Gnr) (now : Int) (gn : Node) : Gnr :=
  { g with hash := fun i => (g.hash i).map fun n => if n.nid = gn.nid then { n with lastuse := now } else n }

/-- -1 (false) when the node is not in the table. -/
def offline (g : Gnr) (gn : Node) (reason : Reason) : Bool × Gnr :=
  let idx := hashGetidx gn.name
  match (g.hash idx).find? fun n => n.nid = gn.nid with
  | none => (false, g)
  | some cur => (true, (g.setBucket idx ((g.hash idx).filter fun n => n.nid ≠ gn.nid)).freenode cur reason)

/-- Local nodes never time out; the others do when they are not referenced and idle. -/
def expired (now : Int) (gn : Node) : Bool :=
  gn.metric ≠ metricLocal ∧ ¬(gn.ttl = -1 ∨ gn.refcount > 0 ∨ now - gn.lastuse < gn.ttl)

def timeoutBucket (now : Int) (g : Gnr) (idx : Fin 64) : Gnr :=
  let l := g.hash idx
  (l.filter (expired now)).foldl (fun g gn => g.freenode gn .timeout)
    (g.setBucket idx (l.filter fun gn => !expired now gn))

def hashTimeout (g : Gnr) (now : Int) : Gnr := (List.finRange 64).foldl (timeoutBucket now) g

/-! ## The table invariant -/

/-- Two nodes for the same name and service. -/
def Same (m n : Node) : Prop := namecmp m.name n.name = 0 ∧ strcaseeq m.service n.service = true

structure Ok (g : Gnr) : Prop where
  bucket : ∀ i, ∀ n ∈ g.hash i, hashGetidx n.name = i
  unique : ∀ i, (g.hash i).Pairwise fun m n => ¬Same m n
  fresh : ∀ i, ∀ n ∈ g.hash i, n.nid < g.nextnid
  nids : ∀ m n, m ∈ g → n ∈ g → m.nid = n.nid → m = n

theorem hashInit_ok : hashInit.Ok where
  bucket := by intro i n hn; cases hn
  unique := fun _ => .nil
  fresh := by intro i n hn; cases hn
  nids := by rintro m n ⟨i, hm⟩; cases hm

theorem mem_hashInit (n : Node) : ¬n ∈ hashInit := by
  rintro ⟨i, hi⟩
  cases hi

theorem Same.symm {m n : Node} (h : Same m n) : Same n m := by
  obtain ⟨h₁, h₂⟩ := h
  refine ⟨namecmp_comm h₁, ?_⟩
  simp only [strcaseeq, beq_iff_eq] at h₂ ⊢
  exact h₂.symm

theorem Same.trans {l m n : Node} (h : Same l m) (h' : Same m n) : Same l n := by
  obtain ⟨h₁, h₂⟩ := h
  obtain ⟨h₃, h₄⟩ := h'
  refine ⟨namecmp_trans h₁ h₃, ?_⟩
  simp only [strcaseeq, beq_iff_eq] at h₂ h₄ ⊢
  exact h₂.trans h₄

section

variable {g : Gnr} {gn n m : Node} {now metric : Int} {owner : Nafmodule} {name service : CStr}
  {flags : Nat}

/-- There is only one node for a name and service in the whole table. -/
theorem Ok.eq_of_same (ok : g.Ok) (hm : m ∈ g) (hn : n ∈ g) (hsame : Same m n) : m = n := by
  obtain ⟨i, hm⟩ := hm
  obtain ⟨j, hn⟩ := hn
  have hij : i = j := by
    rw [← ok.bucket i m hm, ← ok.bucket j n hn, hashGetidx_congr hsame.1]
  subst hij
  by_contra hne
  have hsymm : Std.Symm fun m n : Node => ¬Same m n := ⟨fun _ _ h h' => h h'.symm⟩
  exact (ok.unique i).forall hm hn hne hsame

theorem findbyname_some {service : Option CStr} (h : g.findbyname name service = some n) :
    n ∈ g ∧ namecmp n.name name = 0 ∧ ∀ s, service = some s → strcaseeq n.service s = true := by
  have hmatch := List.find?_some h
  simp only [matchesName, Bool.and_eq_true, decide_eq_true_eq] at hmatch
  refine ⟨⟨_, List.mem_of_find?_eq_some h⟩, hmatch.1, ?_⟩
  rintro s rfl
  simpa using hmatch.2

theorem findbyname_none (ok : g.Ok) (h : g.findbyname name (some service) = none) (hn : n ∈ g)
    (hname : namecmp n.name name = 0) : strcaseeq n.service service = false := by
  obtain ⟨i, hn⟩ := hn
  have hi : hashGetidx name = i := by rw [← hashGetidx_congr hname, ok.bucket i n hn]
  subst hi
  have hmatch := List.find?_eq_none.1 h n hn
  simpa [matchesName, hname] using hmatch

/-- Looking up a name finds exactly the node of that name and service. -/
theorem findbyname_eq (ok : g.Ok) (hn : n ∈ g) (hname : namecmp n.name name = 0)
    (hservice : strcaseeq n.service service = true) :
    g.findbyname name (some service) = some n := by
  cases hfind : g.findbyname name (some service) with
  | none =>
      rw [findbyname_none ok hfind hn hname] at hservice
      cases hservice
  | some m =>
      obtain ⟨hm, hmname, hmservice⟩ := findbyname_some hfind
      have hsame : Same m n := by
        refine ⟨namecmp_trans hmname (namecmp_comm hname), ?_⟩
        have h₁ := hmservice service rfl
        simp only [strcaseeq, beq_iff_eq] at h₁ hservice ⊢
        exact h₁.trans hservice.symm
      rw [ok.eq_of_same hm hn hsame]

/-! ## What the operations do to the table -/

/-- Going online gives the node that is there, or a new one, or nothing. -/
theorem online_ok {h h' : Naf.Heap} {r : Option Node} {g' : Gnr}
    (hr : g.online now owner name service flags metric h = .ok ((r, g'), h')) :
    (∃ n, g.findbyname name (some service) = some n ∧ r = some n ∧ g' = g) ∨
      g.findbyname name (some service) = none ∧
        (r = none ∧ g' = g ∨
          r = some (g.newnode now owner name service flags metric) ∧
            g' = g.enter (g.newnode now owner name service flags metric)) := by
  unfold online at hr
  cases hfind : g.findbyname name (some service) with
  | some n =>
      simp only [hfind, Prog.pure_ok, Prod.mk.injEq] at hr
      exact .inl ⟨n, rfl, hr.1.1, hr.1.2⟩
  | none =>
      refine .inr ⟨rfl, ?_⟩
      simp only [hfind, Prog.bind_ok] at hr
      obtain ⟨b₁, h₁, -, hr⟩ := hr
      cases b₁ with
      | none =>
          simp only [Prog.pure_ok, Prod.mk.injEq] at hr
          exact .inl hr.1
      | some _ =>
          simp only [Prog.bind_ok] at hr
          obtain ⟨b₂, h₂, -, hr⟩ := hr
          cases b₂ with
          | none =>
              simp only [Prog.pure_ok, Prod.mk.injEq] at hr
              exact .inl hr.1
          | some _ =>
              simp only [Prog.bind_ok] at hr
              obtain ⟨b₃, h₃, -, hr⟩ := hr
              cases b₃ with
              | none =>
                  simp only [Prog.pure_ok, Prod.mk.injEq] at hr
                  exact .inl hr.1
              | some _ =>
                  simp only [Prog.pure_ok, Prod.mk.injEq] at hr
                  exact .inr hr.1

/-- With memory enough there is a node afterwards. -/
theorem online_of_willing {h : Naf.Heap} (hh : h.refuse = []) :
    g.online now owner name service flags metric h =
      .ok (match g.findbyname name (some service) with
        | some gn => (some gn, g)
        | none =>
            (some (g.newnode now owner name service flags metric),
              g.enter (g.newnode now owner name service flags metric)), h) := by
  unfold online
  cases g.findbyname name (some service) with
  | some n => rfl
  | none =>
      dsimp only
      rw [Prog.bind_of_ok (Naf.malloc_of_willing hh)]
      dsimp only
      rw [Prog.bind_of_ok (Naf.malloc_of_willing hh)]
      dsimp only
      rw [Prog.bind_of_ok (Naf.malloc_of_willing hh)]
      rfl

theorem mem_setBucket {i : Fin 64} {l : List Node} :
    n ∈ g.setBucket i l ↔ n ∈ l ∨ ∃ j, j ≠ i ∧ n ∈ g.hash j := by
  constructor
  · rintro ⟨j, hj⟩
    simp only [setBucket] at hj
    split at hj
    · exact .inl hj
    · exact .inr ⟨j, ‹_›, hj⟩
  · rintro (hl | ⟨j, hne, hj⟩)
    · exact ⟨i, by simpa [setBucket] using hl⟩
    · exact ⟨j, by simpa [setBucket, hne] using hj⟩

theorem mem_enter : n ∈ g.enter gn ↔ n = gn ∨ n ∈ g := by
  have hset : n ∈ g.enter gn ↔ n ∈ g.hashAdd gn := Iff.rfl
  rw [hset, hashAdd, mem_setBucket]
  constructor
  · rintro (h | ⟨j, -, hj⟩)
    · rcases List.mem_cons.1 h with h | h
      · exact .inl h
      · exact .inr ⟨_, h⟩
    · exact .inr ⟨j, hj⟩
  · rintro (rfl | ⟨j, hj⟩)
    · exact .inl (.head _)
    · by_cases hidx : j = hashGetidx gn.name
      · subst hidx
        exact .inl (.tail _ hj)
      · exact .inr ⟨j, hidx, hj⟩

/-- A node of a name and service that the table does not have may enter it. -/
theorem Ok.enter (ok : g.Ok) (hnone : g.findbyname gn.name (some gn.service) = none)
    (hnid : gn.nid = g.nextnid) : (g.enter gn).Ok where
  bucket := by
    intro i n hn
    simp only [Gnr.enter, hashAdd, setBucket] at hn
    split at hn
    · rename_i hi
      rcases List.mem_cons.1 hn with rfl | hn
      · exact hi.symm
      · rw [hi]
        exact ok.bucket _ n hn
    · exact ok.bucket i n hn
  unique := by
    intro i
    simp only [Gnr.enter, hashAdd, setBucket]
    split
    · refine List.pairwise_cons.2 ⟨?_, ok.unique _⟩
      rintro n hn ⟨hname, hservice⟩
      have hno := findbyname_none ok hnone ⟨_, hn⟩ (namecmp_comm hname)
      simp only [strcaseeq, beq_iff_eq, beq_eq_false_iff_ne] at hservice hno
      exact hno hservice.symm
    · exact ok.unique i
  fresh := by
    intro i n hn
    have hmem : n ∈ g.enter gn := ⟨i, hn⟩
    show n.nid < g.nextnid + 1
    rcases mem_enter.1 hmem with rfl | ⟨j, hj⟩
    · omega
    · have := ok.fresh j n hj
      omega
  nids := by
    intro m n hm hn heq
    rcases mem_enter.1 hm with rfl | hm' <;> rcases mem_enter.1 hn with rfl | hn'
    · rfl
    · obtain ⟨j, hj⟩ := hn'
      have := ok.fresh j n hj
      omega
    · obtain ⟨j, hj⟩ := hm'
      have := ok.fresh j m hj
      omega
    · exact ok.nids m n hm' hn' heq

/-- Keeping some of the nodes of each bucket keeps the invariant. -/
theorem Ok.filter {g' : Gnr} {p : Fin 64 → Node → Bool} (ok : g.Ok)
    (hhash : ∀ i, g'.hash i = (g.hash i).filter (p i)) (hnext : g'.nextnid = g.nextnid) : g'.Ok where
  bucket := by
    intro i n hn
    rw [hhash] at hn
    exact ok.bucket i n (List.mem_of_mem_filter hn)
  unique := by
    intro i
    rw [hhash]
    exact (ok.unique i).filter _
  fresh := by
    intro i n hn
    rw [hhash] at hn
    rw [hnext]
    exact ok.fresh i n (List.mem_of_mem_filter hn)
  nids := by
    rintro m n ⟨i, hm⟩ ⟨j, hn⟩ heq
    rw [hhash] at hm hn
    exact ok.nids m n ⟨i, List.mem_of_mem_filter hm⟩ ⟨j, List.mem_of_mem_filter hn⟩ heq

theorem offline_hash {reason : Reason} (i : Fin 64) :
    ((g.offline gn reason).2.hash i) =
      (g.hash i).filter fun n => !(i = hashGetidx gn.name && n.nid = gn.nid) := by
  unfold offline
  dsimp only
  cases hfind : (g.hash (hashGetidx gn.name)).find? fun n => n.nid = gn.nid with
  | none =>
      have hno := List.find?_eq_none.1 hfind
      refine (List.filter_eq_self.2 ?_).symm
      intro n hn
      by_cases hi : i = hashGetidx gn.name
      · subst hi
        simpa using hno n hn
      · simp [hi]
  | some cur =>
      simp only [freenode, setBucket]
      by_cases hi : i = hashGetidx gn.name
      · subst hi
        simp
      · simp [hi]

theorem Ok.offline {reason : Reason} (ok : g.Ok) : (g.offline gn reason).2.Ok := by
  refine ok.filter (p := fun i n => !(i = hashGetidx gn.name && n.nid = gn.nid)) offline_hash ?_
  unfold Gnr.offline
  dsimp only
  split <;> rfl

/-- Offline, a node of the table is gone, and all others stay. -/
theorem mem_offline {reason : Reason} (ok : g.Ok) (hgn : gn ∈ g) :
    n ∈ (g.offline gn reason).2 ↔ n ∈ g ∧ n ≠ gn := by
  constructor
  · rintro ⟨i, hi⟩
    rw [offline_hash] at hi
    obtain ⟨hn, hp⟩ := List.mem_filter.1 hi
    refine ⟨⟨i, hn⟩, ?_⟩
    rintro rfl
    simp [ok.bucket i n hn] at hp
  · rintro ⟨⟨i, hi⟩, hne⟩
    refine ⟨i, ?_⟩
    rw [offline_hash]
    refine List.mem_filter.2 ⟨hi, ?_⟩
    have hnid : n.nid ≠ gn.nid := fun heq => hne (ok.nids n gn ⟨i, hi⟩ hgn heq)
    simp [hnid]

/-- The time-out of one bucket drops its expired nodes. -/
theorem timeoutBucket_hash (idx i : Fin 64) :
    (g.timeoutBucket now idx).hash i =
      if i = idx then (g.hash i).filter fun gn => !expired now gn else g.hash i := by
  have hfold : ∀ (l : List Node) (g : Gnr),
      (l.foldl (fun g gn => g.freenode gn .timeout) g).hash = g.hash := by
    intro l
    induction l with
    | nil => intro g; rfl
    | cons gn l ih => intro g; exact (ih _).trans rfl
  simp only [timeoutBucket, hfold, setBucket]
  split
  · rename_i hi
    rw [hi]
  · rfl

/-- A time-out run drops the expired nodes of every bucket. -/
theorem hashTimeout_hash (i : Fin 64) :
    (g.hashTimeout now).hash i = (g.hash i).filter fun gn => !expired now gn := by
  have hfold : ∀ (l : List (Fin 64)) (g : Gnr), l.Nodup →
      (l.foldl (timeoutBucket now) g).hash i =
        if i ∈ l then (g.hash i).filter (fun gn => !expired now gn) else g.hash i := by
    intro l
    induction l with
    | nil => intro g _; rfl
    | cons idx l ih =>
        intro g hnodup
        obtain ⟨hidx, hl⟩ := List.nodup_cons.1 hnodup
        rw [List.foldl_cons, ih _ hl, timeoutBucket_hash]
        by_cases hi : i = idx
        · subst hi
          simp [hidx]
        · simp [hi]
  rw [hashTimeout, hfold _ _ (List.nodup_finRange 64), if_pos (List.mem_finRange i)]

theorem hashTimeout_nextnid : (g.hashTimeout now).nextnid = g.nextnid := by
  have hfree : ∀ (l : List Node) (g : Gnr),
      (l.foldl (fun g gn => g.freenode gn .timeout) g).nextnid = g.nextnid := by
    intro l
    induction l with
    | nil => intro g; rfl
    | cons gn l ih => intro g; exact (ih _).trans rfl
  have hfold : ∀ (l : List (Fin 64)) (g : Gnr), (l.foldl (timeoutBucket now) g).nextnid = g.nextnid := by
    intro l
    induction l with
    | nil => intro g; rfl
    | cons idx l ih => intro g; exact (ih _).trans (hfree _ _)
  exact hfold _ g

theorem Ok.hashTimeout (ok : g.Ok) : (g.hashTimeout now).Ok :=
  ok.filter hashTimeout_hash hashTimeout_nextnid

theorem mem_hashTimeout : n ∈ g.hashTimeout now ↔ n ∈ g ∧ expired now n = false := by
  constructor
  · rintro ⟨i, hi⟩
    rw [hashTimeout_hash] at hi
    obtain ⟨hn, hp⟩ := List.mem_filter.1 hi
    exact ⟨⟨i, hn⟩, by simpa using hp⟩
  · rintro ⟨⟨i, hi⟩, hp⟩
    refine ⟨i, ?_⟩
    rw [hashTimeout_hash]
    exact List.mem_filter.2 ⟨hi, by simpa using hp⟩

/-- Local nodes survive every time-out. -/
theorem not_expired_of_local (h : n.metric = metricLocal) : expired now n = false := by
  simp [expired, h]

/-- A function that leaves alone what the table is ordered by. -/
structure Keeps (f : Node → Node) : Prop where
  nid : ∀ n, (f n).nid = n.nid
  name : ∀ n, (f n).name = n.name
  service : ∀ n, (f n).service = n.service

/-- Writing to a node keeps the invariant. -/
theorem Ok.update {f : Node → Node} (ok : g.Ok) (hf : Keeps f) : (g.update gn f).Ok where
  bucket := by
    intro i n hn
    obtain ⟨m, hm, rfl⟩ := List.mem_map.1 hn
    have hbucket := ok.bucket i m hm
    split
    · rw [hf.name]
      exact hbucket
    · exact hbucket
  unique := by
    intro i
    have hsame : ∀ n, namecmp (if n.nid = gn.nid then f n else n).name n.name = 0 ∧
        strcaseeq (if n.nid = gn.nid then f n else n).service n.service = true := by
      intro n
      split
      · simp [hf.name, hf.service, strcaseeq]
      · simp [strcaseeq]
    refine List.pairwise_map.2 ((ok.unique i).imp ?_)
    intro m n hno hsame'
    exact hno ((Same.symm (hsame m)).trans (Same.trans hsame' (hsame n)))
  fresh := by
    intro i n hn
    obtain ⟨m, hm, rfl⟩ := List.mem_map.1 hn
    have hlt := ok.fresh i m hm
    split
    · rw [hf.nid]
      exact hlt
    · exact hlt
  nids := by
    rintro m n ⟨i, hm⟩ ⟨j, hn⟩ heq
    obtain ⟨m', hm', rfl⟩ := List.mem_map.1 hm
    obtain ⟨n', hn', rfl⟩ := List.mem_map.1 hn
    have hnid : ∀ n : Node, (if n.nid = gn.nid then f n else n).nid = n.nid := by
      intro n
      split
      · exact hf.nid n
      · rfl
    rw [hnid, hnid] at heq
    rw [ok.nids m' n' ⟨i, hm'⟩ ⟨j, hn'⟩ heq]

/-- A hit changes nothing but the time of the last use. -/
theorem Ok.usehit (ok : g.Ok) : (g.usehit now gn).Ok :=
  ok.update ⟨fun _ => rfl, fun _ => rfl, fun _ => rfl⟩

theorem mem_usehit :
    n ∈ g.usehit now gn ↔ ∃ m ∈ g, n = if m.nid = gn.nid then { m with lastuse := now } else m := by
  constructor
  · rintro ⟨i, hi⟩
    obtain ⟨m, hm, rfl⟩ := List.mem_map.1 hi
    exact ⟨m, ⟨i, hm⟩, rfl⟩
  · rintro ⟨m, ⟨i, hi⟩, rfl⟩
    exact ⟨i, List.mem_map.2 ⟨m, hi, rfl⟩⟩

/-- A node of the table after a hit is one of before, last used at some time. -/
theorem of_mem_usehit (hn : n ∈ g.usehit now gn) : ∃ m ∈ g, ∃ lastuse, n = { m with lastuse } := by
  obtain ⟨m, hm, rfl⟩ := mem_usehit.1 hn
  split
  · exact ⟨m, hm, now, rfl⟩
  · exact ⟨m, hm, m.lastuse, rfl⟩

end
end Gnr
end Timps
