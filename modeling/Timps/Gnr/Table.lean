-- SUMMARY: The node table over any sequence of calls: its buckets, counters and events.
import Timps.Base.Run
import Timps.Gnr.Node

/-!
# Runs of the node table

The calls that change the table, and what a table keeps over all of them: a node is in the
bucket of its name and nowhere else, no other node is for the same name and service, the
counters are those of the nodes, and the events are one for each node that came and one
for each that went.

Taking nodes out is one operation with a condition, and the calls that write to a node are
one operation with a function; each call is one of the two, or adds a node.
-/

namespace Timps.Gnr

open Naf (Nafmodule Heap lit strcaseeq)

/-! ## The other calls -/

/-- The nodes that `matcher` wants are unlinked from a bucket and freed. -/
def offlineBucket (matcher : Node → Bool) (reason : Reason) (g : Gnr) (idx : Fin 64) : Gnr :=
  let l := g.hash idx
  (l.filter matcher).foldl (fun g gn => g.freenode gn reason)
    (g.setBucket idx (l.filter fun gn => !matcher gn))

def offlineMany (g : Gnr) (matcher : Node → Bool) (reason : Reason) : Gnr :=
  (List.finRange 64).foldl (offlineBucket matcher reason) g

/-- Add `d` to the counter of a metric. -/
def Nodestats.bump (st : Nodestats) (metric d : Int) : Nodestats :=
  if metric = metricLocal then { st with localNodes := st.localNodes + d }
  else if metric = metricMax then { st with external := st.external + d }
  else { st with peered := st.peered + d }

def remetric (g : Gnr) (now : Int) (gn : Node) (newmetric : Int) : Gnr :=
  let stats := g.stats.bump gn.metric (-1)
  let g := g.update gn fun n => { n with metric := newmetric }
  let stats := stats.bump newmetric 1
  let g := g.update gn fun n => { n with ttl := if newmetric = metricLocal then -1 else ttlDefault }
  { g with stats }.usehit now gn

/-- Nothing is set at a local node, and -1 stands for the default. -/
def setttl (g : Gnr) (gn : Node) (newttl : Int) : Gnr :=
  if gn.metric = metricLocal then g
  else g.update gn fun n => { n with ttl := if newttl = -1 then ttlDefault else newttl }

def ref (g : Gnr) (gn : Node) : Gnr := g.update gn fun n => { n with refcount := n.refcount + 1 }

def unref (g : Gnr) (gn : Node) : Gnr := g.update gn fun n => { n with refcount := n.refcount - 1 }

/-! ## All nodes -/

def nodes (g : Gnr) : List Node := (List.finRange 64).flatMap g.hash

/-- The counters that these nodes should have. -/
def tally (l : List Node) : Nodestats where
  total := l.length
  localNodes := l.countP fun n => n.metric = metricLocal
  peered := l.countP fun n => n.metric ≠ metricLocal ∧ n.metric ≠ metricMax
  external := l.countP fun n => n.metric = metricMax

section

variable {g : Gnr} {gn n : Node} {l l' : List Node} {p : Node → Bool} {reason : Reason}

theorem mem_nodes : n ∈ g.nodes ↔ n ∈ g := by
  simp only [nodes, List.mem_flatMap, List.mem_finRange, true_and]
  exact Iff.rfl

theorem tally_perm (h : l.Perm l') : tally l = tally l' := by
  simp only [tally, h.length_eq, h.countP_eq]

theorem tally_cons : tally (n :: l) = (tally l).count n.metric 1 := by
  simp only [tally, Nodestats.count, List.length_cons, List.countP_cons]
  by_cases hlocal : n.metric = metricLocal
  · simp [hlocal, metricLocal, metricMax]
  · by_cases hmax : n.metric = metricMax
    · simp [hmax, metricLocal, metricMax]
    · simp [hlocal, hmax]

/-- Uncounting undoes counting. -/
theorem Nodestats.count_neg (st : Nodestats) (metric : Int) :
    (st.count metric 1).count metric (-1) = st := by
  cases st
  grind [Nodestats.count]

/-- A node that is moved to another counter is not counted again. -/
theorem Nodestats.bump_count (st : Nodestats) (metric newmetric : Int) :
    ((st.count metric 1).bump metric (-1)).bump newmetric 1 = st.count newmetric 1 := by
  cases st
  grind [Nodestats.count, Nodestats.bump, metricLocal, metricMax]

/-- What freeing these nodes takes off the counters. -/
theorem tally_free : l.foldl (fun st n => st.count n.metric (-1)) (tally (l ++ l')) = tally l' := by
  induction l with
  | nil => rfl
  | cons n l ih => rw [List.cons_append, List.foldl_cons, tally_cons, Nodestats.count_neg, ih]

/-! ## Taking nodes out -/

/-- Freeing nodes leaves the hash alone, uncounts each node and announces each. -/
theorem foldl_freenode : l.foldl (fun g gn => g.freenode gn reason) g =
    { g with
      stats := l.foldl (fun st n => st.count n.metric (-1)) g.stats
      events := g.events ++ l.map (.nodedown · reason) } := by
  induction l generalizing g with
  | nil => simp
  | cons n l ih =>
      rw [List.foldl_cons, ih]
      simp [freenode]

theorem flatMap_setBucket {is : List (Fin 64)} {i : Fin 64} (hi : i ∉ is) :
    is.flatMap (g.setBucket i l).hash = is.flatMap g.hash := by
  apply List.flatMap_congr
  intro j hj
  have hne : j ≠ i := by
    rintro rfl
    exact hi hj
  simp [setBucket, hne]

theorem foldl_offlineBucket {is : List (Fin 64)} (hnodup : is.Nodup) :
    is.foldl (offlineBucket p reason) g =
      { g with
        hash := fun i => if i ∈ is then (g.hash i).filter (fun n => !p n) else g.hash i
        stats := ((is.flatMap g.hash).filter p).foldl (fun st n => st.count n.metric (-1)) g.stats
        events := g.events ++ ((is.flatMap g.hash).filter p).map (.nodedown · reason) } := by
  induction is generalizing g with
  | nil => simp
  | cons i is ih =>
      obtain ⟨hi, hrest⟩ := List.nodup_cons.1 hnodup
      rw [List.foldl_cons, ih hrest, offlineBucket, foldl_freenode]
      dsimp only
      rw [flatMap_setBucket hi]
      simp only [List.flatMap_cons, List.filter_append, List.foldl_append, List.map_append,
        List.append_assoc, setBucket, Gnr.mk.injEq, and_self, and_true]
      funext j
      by_cases hj : j = i
      · subst hj
        simp [hi]
      · simp [hj]

/-- The nodes that `matcher` wants leave, uncounted and announced, and the others stay. -/
theorem offlineMany_eq : g.offlineMany p reason =
    { g with
      hash := fun i => (g.hash i).filter fun n => !p n
      stats := (g.nodes.filter p).foldl (fun st n => st.count n.metric (-1)) g.stats
      events := g.events ++ (g.nodes.filter p).map (.nodedown · reason) } := by
  rw [offlineMany, foldl_offlineBucket (List.nodup_finRange 64)]
  simp only [List.mem_finRange, if_true]
  rfl

/-- A time-out run is such a call. -/
theorem hashTimeout_eq (now : Int) : g.hashTimeout now = g.offlineMany (expired now) .timeout := rfl

theorem nodes_offlineMany : (g.offlineMany p reason).nodes = g.nodes.filter fun n => !p n := by
  rw [offlineMany_eq]
  simp only [nodes, List.filter_flatMap]

theorem nextnid_offlineMany : (g.offlineMany p reason).nextnid = g.nextnid := by rw [offlineMany_eq]

/-! ## One node -/

/-- Of the nodes of a table one has the number of `gn`. -/
theorem filter_nid (hnodup : (g.nodes.map (·.nid)).Nodup) (hgn : gn ∈ g) :
    g.nodes.filter (fun n => n.nid = gn.nid) = [gn] := by
  have hperm : (g.nodes.filter fun n => n.nid = gn.nid).Perm [gn] := by
    apply (List.perm_ext_iff_of_nodup ((List.Nodup.of_map _ hnodup).filter _) (by simp)).2
    intro n
    simp only [List.mem_filter, decide_eq_true_eq, List.mem_singleton]
    constructor
    · rintro ⟨hn, hnid⟩
      exact List.inj_on_of_nodup_map hnodup hn (mem_nodes.2 hgn) hnid
    · rintro rfl
      exact ⟨mem_nodes.2 hgn, rfl⟩
  exact List.perm_singleton.1 hperm

/-- The others. -/
def others (g : Gnr) (gn : Node) : List Node := g.nodes.filter fun n => n.nid ≠ gn.nid

theorem nodes_perm (hnodup : (g.nodes.map (·.nid)).Nodup) (hgn : gn ∈ g) :
    g.nodes.Perm (gn :: g.others gn) := by
  have hsplit := List.filter_append_perm (fun n => decide (n.nid = gn.nid)) g.nodes
  rw [filter_nid hnodup hgn] at hsplit
  simpa [others] using hsplit.symm

theorem nodes_update {f : Node → Node} :
    (g.update gn f).nodes = g.nodes.map fun n => if n.nid = gn.nid then f n else n := by
  simp only [nodes, update, List.map_flatMap]

theorem nodes_update_perm {f : Node → Node} (hnodup : (g.nodes.map (·.nid)).Nodup) (hgn : gn ∈ g) :
    (g.update gn f).nodes.Perm (f gn :: g.others gn) := by
  rw [nodes_update]
  refine ((nodes_perm hnodup hgn).map _).trans ?_
  rw [List.map_cons, if_pos rfl]
  have hothers : (g.others gn).map (fun n => if n.nid = gn.nid then f n else n) = g.others gn := by
    apply List.map_congr_left _ |>.trans (List.map_id _)
    intro n hn
    have hne : n.nid ≠ gn.nid := by simpa using (List.mem_filter.1 hn).2
    rw [if_neg hne]
    rfl
  rw [hothers]

/-! ## What a table keeps -/

/-- The numbers of the nodes that were announced. -/
def upnids (events : List Event) : List Nat :=
  events.filterMap fun
    | .nodeup gn => some gn.nid
    | .nodedown _ _ => none

/-- The numbers of the nodes whose end was announced. -/
def downnids (events : List Event) : List Nat :=
  events.filterMap fun
    | .nodeup _ => none
    | .nodedown gn _ => some gn.nid

@[simp] theorem upnids_append {es es' : List Event} : upnids (es ++ es') = upnids es ++ upnids es' :=
  List.filterMap_append

@[simp] theorem downnids_append {es es' : List Event} :
    downnids (es ++ es') = downnids es ++ downnids es' := List.filterMap_append

@[simp] theorem upnids_nodedown : upnids (l.map (.nodedown · reason)) = [] := by
  induction l with
  | nil => rfl
  | cons n l ih => exact ih

@[simp] theorem downnids_nodedown : downnids (l.map (.nodedown · reason)) = l.map (·.nid) := by
  induction l with
  | nil => rfl
  | cons n l ih => exact congrArg (n.nid :: ·) ih

/-- The invariant of the table, its counters and its events. -/
structure Sound (g : Gnr) : Prop where
  ok : g.Ok
  nodup : (g.nodes.map (·.nid)).Nodup
  stats : g.stats = tally g.nodes
  ups : ∀ nid, (upnids g.events).count nid = if nid < g.nextnid then 1 else 0
  downs : ∀ nid, (downnids g.events).count nid =
    if nid < g.nextnid ∧ nid ∉ g.nodes.map (·.nid) then 1 else 0

theorem hashInit_sound : hashInit.Sound := by
  have hnodes : hashInit.nodes = [] := by
    simp only [nodes, List.flatMap_eq_nil_iff]
    exact fun _ _ => rfl
  refine ⟨hashInit_ok, ?_, ?_, fun _ => rfl, fun nid => ?_⟩
  · rw [hnodes]
    exact List.nodup_nil
  · rw [hnodes]
    rfl
  · simp [hashInit, downnids]

/-- The numbers of the nodes are below the next one. -/
theorem Sound.lt (hs : g.Sound) {nid : Nat} (h : nid ∈ g.nodes.map (·.nid)) : nid < g.nextnid := by
  obtain ⟨n, hn, rfl⟩ := List.mem_map.1 h
  obtain ⟨i, hi⟩ := mem_nodes.1 hn
  exact hs.ok.fresh i n hi

theorem Sound.offlineMany (hs : g.Sound) : (g.offlineMany p reason).Sound where
  ok := by
    refine hs.ok.filter (p := fun _ n => !p n) ?_ ?_
    · intro i
      rw [offlineMany_eq]
    · rw [offlineMany_eq]
  nodup := by
    rw [nodes_offlineMany]
    exact hs.nodup.sublist (List.Sublist.map _ List.filter_sublist)
  stats := by
    rw [nodes_offlineMany, offlineMany_eq, hs.stats,
      tally_perm (List.filter_append_perm p g.nodes).symm]
    exact tally_free
  ups := by
    intro nid
    rw [offlineMany_eq]
    simpa using hs.ups nid
  downs := by
    intro nid
    -- a number is among those that leave, or those that stay, or neither
    have hperm := (List.filter_append_perm p g.nodes).map (·.nid)
    rw [List.map_append] at hperm
    have hmem := hperm.mem_iff (a := nid)
    obtain ⟨hleave, -, hdisjoint⟩ := List.nodup_append.1 (hperm.nodup_iff.2 hs.nodup)
    have hlt : nid ∈ g.nodes.map (·.nid) → nid < g.nextnid := hs.lt
    have hcount := hleave.count (a := nid)
    rw [nodes_offlineMany, offlineMany_eq]
    simp only [downnids_append, downnids_nodedown, List.count_append, hs.downs, hcount]
    rw [List.mem_append] at hmem
    by_cases hin : nid ∈ (g.nodes.filter p).map (·.nid)
    · have hstay : nid ∉ (g.nodes.filter fun n => !p n).map (·.nid) := fun h =>
        hdisjoint nid hin nid h rfl
      have hall : nid ∈ g.nodes.map (·.nid) := hmem.1 (.inl hin)
      rw [if_neg (fun h => h.2 hall), if_pos hin, if_pos ⟨hlt hall, hstay⟩]
    · have hiff : nid ∈ (g.nodes.filter fun n => !p n).map (·.nid) ↔ nid ∈ g.nodes.map (·.nid) := by
        rw [← hmem]
        exact ⟨.inr, fun h => h.resolve_left hin⟩
      simp only [if_neg hin, Nat.add_zero, hiff]

/-- Offline, a node of the table leaves as it would among many. -/
theorem offline_eq (hs : g.Sound) (hgn : gn ∈ g) :
    g.offline gn reason = (true, g.offlineMany (fun n => n.nid = gn.nid) reason) := by
  obtain ⟨i, hi⟩ := hgn
  have hidx := hs.ok.bucket i gn hi
  have hfilter := filter_nid hs.nodup ⟨i, hi⟩
  subst hidx
  have hfind : (g.hash (hashGetidx gn.name)).find? (fun n => n.nid = gn.nid) = some gn := by
    cases hfind : (g.hash (hashGetidx gn.name)).find? (fun n => n.nid = gn.nid) with
    | none => simpa using List.find?_eq_none.1 hfind gn hi
    | some n =>
        have hnid : n.nid = gn.nid := by simpa using List.find?_some hfind
        rw [hs.ok.nids n gn ⟨_, List.mem_of_find?_eq_some hfind⟩ ⟨_, hi⟩ hnid]
  have hhash : (g.setBucket (hashGetidx gn.name)
      ((g.hash (hashGetidx gn.name)).filter fun n => n.nid ≠ gn.nid)).hash =
      fun i => (g.hash i).filter fun n => !decide (n.nid = gn.nid) := by
    funext j
    by_cases hj : j = hashGetidx gn.name
    · subst hj
      simp [setBucket]
    · have hkeep : (g.hash j).filter (fun n => !decide (n.nid = gn.nid)) = g.hash j := by
        apply List.filter_eq_self.2
        intro n hn
        have hne : n.nid ≠ gn.nid := by
          intro hnid
          have heq := hs.ok.nids n gn ⟨j, hn⟩ ⟨_, hi⟩ hnid
          exact hj (by rw [← hs.ok.bucket j n hn, heq])
        simpa using hne
      rw [hkeep]
      simp [setBucket, hj]
  rw [offlineMany_eq, hfilter]
  simp only [Gnr.offline, hfind, freenode, hhash]
  rfl

theorem flatMap_hashAdd {is : List (Fin 64)} (hnodup : is.Nodup) (hidx : hashGetidx gn.name ∈ is) :
    (is.flatMap (g.hashAdd gn).hash).Perm (gn :: is.flatMap g.hash) := by
  induction is with
  | nil => cases hidx
  | cons i is ih =>
      obtain ⟨hi, hrest⟩ := List.nodup_cons.1 hnodup
      rw [List.flatMap_cons, List.flatMap_cons]
      by_cases heq : i = hashGetidx gn.name
      · subst heq
        have hhead : (g.hashAdd gn).hash (hashGetidx gn.name) = gn :: g.hash (hashGetidx gn.name) := by
          simp [hashAdd, setBucket]
        rw [hhead, hashAdd, flatMap_setBucket hi]
        exact .refl _
      · have hhead : (g.hashAdd gn).hash i = g.hash i := by simp [hashAdd, setBucket, heq]
        have hidx' := (List.mem_cons.1 hidx).resolve_left (Ne.symm heq)
        rw [hhead]
        exact ((ih hrest hidx').append_left _).trans List.perm_middle

theorem nodes_enter : (g.enter gn).nodes.Perm (gn :: g.nodes) :=
  flatMap_hashAdd (List.nodup_finRange 64) (List.mem_finRange _)

theorem Sound.enter (hs : g.Sound) (hnone : g.findbyname gn.name (some gn.service) = none)
    (hnid : gn.nid = g.nextnid) : (g.enter gn).Sound := by
  refine ⟨hs.ok.enter hnone hnid, ?_, ?_, ?_, ?_⟩
  · rw [(nodes_enter.map _).nodup_iff, List.map_cons]
    refine List.nodup_cons.2 ⟨fun hmem => ?_, hs.nodup⟩
    exact absurd (hs.lt hmem) (by omega)
  · rw [tally_perm nodes_enter, tally_cons, ← hs.stats]
    rfl
  · intro nid
    have hups : upnids (g.enter gn).events = upnids g.events ++ [gn.nid] := upnids_append
    have hnext : (g.enter gn).nextnid = g.nextnid + 1 := rfl
    rw [hups, List.count_append, hs.ups, hnext, hnid, List.count_singleton]
    by_cases hlt : nid < g.nextnid
    · have hne : ¬g.nextnid = nid := by omega
      simp [hlt, hne, Nat.lt_succ_of_lt hlt]
    · by_cases heq : g.nextnid = nid
      · simp [heq]
      · have hge : ¬nid < g.nextnid + 1 := by omega
        simp [hlt, heq, hge]
  · intro nid
    have hdowns : downnids (g.enter gn).events = downnids g.events := by
      simp [Gnr.enter, downnids]
    have hnext : (g.enter gn).nextnid = g.nextnid + 1 := rfl
    have hmem := (@nodes_enter g gn).map (·.nid) |>.mem_iff (a := nid)
    rw [List.map_cons, List.mem_cons, hnid] at hmem
    rw [hdowns, hs.downs]
    refine if_congr ?_ rfl rfl
    rw [hmem, hnext]
    constructor
    · rintro ⟨hlt, hno⟩
      refine ⟨by omega, ?_⟩
      rintro (heq | hin)
      · omega
      · exact hno hin
    · rintro ⟨hlt, hno⟩
      have hne : nid ≠ g.nextnid := fun heq => hno (.inl heq)
      exact ⟨by omega, fun h => hno (.inr h)⟩

/-! ## Writing to a node -/

/-- Writing to a node keeps the table sound, when the counters follow. -/
theorem Sound.update {f : Node → Node} {stats : Nodestats} (hs : g.Sound) (hgn : gn ∈ g)
    (hf : Keeps f) (hstats : stats = tally (f gn :: g.others gn)) :
    Sound { g.update gn f with stats } := by
  have hnodes : ({ g.update gn f with stats } : Gnr).nodes = (g.update gn f).nodes := rfl
  have hnids : (g.update gn f).nodes.map (·.nid) = g.nodes.map (·.nid) := by
    rw [nodes_update, List.map_map]
    apply List.map_congr_left
    intro n _
    simp only [Function.comp_apply]
    split
    · exact hf.nid n
    · rfl
  have hok : (g.update gn f).Ok := hs.ok.update hf
  refine ⟨⟨hok.bucket, hok.unique, hok.fresh, hok.nids⟩, ?_, ?_, hs.ups, ?_⟩
  · rw [hnodes, hnids]
    exact hs.nodup
  · rw [hnodes, tally_perm (nodes_update_perm hs.nodup hgn)]
    exact hstats
  · rw [hnodes, hnids]
    exact hs.downs

/-- Writing to a node without moving it to another counter. -/
theorem Sound.update_of_metric {f : Node → Node} (hs : g.Sound) (hgn : gn ∈ g) (hf : Keeps f)
    (hmetric : (f gn).metric = gn.metric) : (g.update gn f).Sound := by
  have hstats : g.stats = tally (f gn :: g.others gn) := by
    rw [hs.stats, tally_perm (nodes_perm hs.nodup hgn), tally_cons, tally_cons, hmetric]
  exact hs.update hgn hf hstats

/-- The three writes of `remetric` are one, and move the node from counter to counter. -/
theorem Sound.remetric {now newmetric : Int} (hs : g.Sound) (hgn : gn ∈ g) :
    (g.remetric now gn newmetric).Sound := by
  have hone : g.remetric now gn newmetric =
      { g.update gn (fun n =>
          { n with
            metric := newmetric
            ttl := if newmetric = metricLocal then -1 else ttlDefault
            lastuse := now }) with
        stats := (g.stats.bump gn.metric (-1)).bump newmetric 1 } := by
    simp only [Gnr.remetric, Gnr.usehit, Gnr.update, List.map_map, Gnr.mk.injEq, and_self, and_true]
    funext i
    apply List.map_congr_left
    intro n _
    by_cases hnid : n.nid = gn.nid <;> simp [hnid]
  rw [hone]
  refine hs.update hgn ⟨fun _ => rfl, fun _ => rfl, fun _ => rfl⟩ ?_
  rw [hs.stats, tally_perm (nodes_perm hs.nodup hgn), tally_cons, tally_cons, Nodestats.bump_count]

theorem Sound.setttl {newttl : Int} (hs : g.Sound) (hgn : gn ∈ g) : (g.setttl gn newttl).Sound := by
  unfold Gnr.setttl
  split
  · exact hs
  · exact hs.update_of_metric hgn ⟨fun _ => rfl, fun _ => rfl, fun _ => rfl⟩ rfl

end

/-! ## Runs -/

/-- A call, and what the allocator and the clock answer during it. -/
inductive Call where
  | online (heap : Heap) (now : Int) (owner : Nafmodule) (name service : CStr) (flags : Nat) (metric : Int)
  | offline (gn : Node) (reason : Reason)
  | offlineMany (matcher : Node → Bool) (reason : Reason)
  | timeout (now : Int)
  | remetric (now : Int) (gn : Node) (newmetric : Int)
  | setttl (gn : Node) (newttl : Int)
  | ref (gn : Node)
  | unref (gn : Node)
  | usehit (now : Int) (gn : Node)

def Call.make : Call → Gnr → Except Fault Gnr
  | .online heap now owner name service flags metric, g =>
      (g.online now owner name service flags metric heap).map fun r => r.1.2
  | .offline gn reason, g => .ok (g.offline gn reason).2
  | .offlineMany matcher reason, g => .ok (g.offlineMany matcher reason)
  | .timeout now, g => .ok (g.hashTimeout now)
  | .remetric now gn newmetric, g => .ok (g.remetric now gn newmetric)
  | .setttl gn newttl, g => .ok (g.setttl gn newttl)
  | .ref gn, g => .ok (g.ref gn)
  | .unref gn, g => .ok (g.unref gn)
  | .usehit now gn, g => .ok (g.usehit now gn)

def Initial (g : Gnr) : Prop := g = hashInit

/-- The node that a call is given is in the table. -/
def Live (g : Gnr) : Call → Prop
  | .offline gn _ | .remetric _ gn _ | .setttl gn _ | .ref gn | .unref gn | .usehit _ gn => gn ∈ g
  | .online _ _ _ _ _ _ _ | .offlineMany _ _ | .timeout _ => True

/-- Every call on a node of the table keeps the table sound. -/
theorem Sound.make {g g' : Gnr} {call : Call} (hs : g.Sound) (hlive : Live g call)
    (hr : call.make g = .ok g') : g'.Sound ∧ g.nextnid ≤ g'.nextnid := by
  cases call with
  | online heap now owner name service flags metric =>
      unfold Call.make at hr
      dsimp only at hr
      cases honline : g.online now owner name service flags metric heap with
      | error e =>
          rw [honline] at hr
          cases hr
      | ok r =>
          obtain ⟨⟨gn, g₁⟩, heap'⟩ := r
          rw [honline] at hr
          obtain rfl : g₁ = g' := Except.ok.inj hr
          obtain ⟨n, -, -, rfl⟩ | ⟨hnone, ⟨-, rfl⟩ | ⟨-, rfl⟩⟩ := online_ok honline
          · exact ⟨hs, Nat.le_refl _⟩
          · exact ⟨hs, Nat.le_refl _⟩
          · exact ⟨hs.enter hnone rfl, Nat.le_succ _⟩
  | offline gn reason =>
      obtain rfl : (g.offline gn reason).2 = g' := Except.ok.inj hr
      rw [offline_eq hs hlive]
      dsimp only
      exact ⟨hs.offlineMany, nextnid_offlineMany.ge⟩
  | offlineMany matcher reason =>
      have heq : g.offlineMany matcher reason = g' := Except.ok.inj hr
      subst heq
      exact ⟨hs.offlineMany, nextnid_offlineMany.ge⟩
  | timeout now =>
      obtain rfl : g.hashTimeout now = g' := Except.ok.inj hr
      rw [hashTimeout_eq]
      exact ⟨hs.offlineMany, nextnid_offlineMany.ge⟩
  | remetric now gn newmetric =>
      obtain rfl : g.remetric now gn newmetric = g' := Except.ok.inj hr
      exact ⟨hs.remetric hlive, Nat.le_refl _⟩
  | setttl gn newttl =>
      obtain rfl : g.setttl gn newttl = g' := Except.ok.inj hr
      refine ⟨hs.setttl hlive, ?_⟩
      unfold Gnr.setttl
      split <;> exact Nat.le_refl _
  | ref gn | unref gn | usehit now gn =>
      obtain rfl : g.update gn _ = g' := Except.ok.inj hr
      exact ⟨hs.update_of_metric hlive ⟨fun _ => rfl, fun _ => rfl, fun _ => rfl⟩ rfl, Nat.le_refl _⟩

theorem sound_of_run {h : List (Gnr × Call)} {g : Gnr} (hrun : Run Call.make Initial h g)
    (hlive : ∀ p ∈ h, Live p.1 p.2) :
    g.Sound ∧ ∀ p ∈ h, p.1.Sound ∧ p.1.nextnid ≤ g.nextnid := by
  refine hrun.invariant_history
    (I := fun h g => g.Sound ∧ ∀ p ∈ h, p.1.Sound ∧ p.1.nextnid ≤ g.nextnid) hlive ?_ ?_
  · rintro g rfl
    exact ⟨hashInit_sound, by simp⟩
  · intro h call g g' _ ⟨hs, hpast⟩ hcall hstep
    obtain ⟨hs', hle⟩ := hs.make hcall hstep
    refine ⟨hs', fun p hp => ?_⟩
    rcases List.mem_append.1 hp with hp | hp
    · exact ⟨(hpast p hp).1, (hpast p hp).2.trans hle⟩
    · obtain rfl := List.mem_singleton.1 hp
      exact ⟨hs, hle⟩

/-- A node is in the table, or was there before one of the calls. -/
def Appeared (h : List (Gnr × Call)) (g : Gnr) (n : Node) : Prop := n ∈ g ∨ ∃ p ∈ h, n ∈ p.1

/-- What the callers of gnr rely on, after the calls `h`. -/
structure Reliable (h : List (Gnr × Call)) (g : Gnr) : Prop where
  /-- a node sits in the bucket of its name, once, and nowhere else -/
  bucket : g.nodes.Nodup ∧ ∀ n ∈ g, ∀ i, n ∈ g.hash i ↔ i = hashGetidx n.name
  unique : ∀ m ∈ g, ∀ n ∈ g,
    namecmp m.name n.name = 0 → strcaseeq m.service n.service = true → m = n
  findbyname : ∀ name service, (∃ n, g.findbyname name service = some n) ↔
    ∃ n ∈ g, namecmp n.name name = 0 ∧ ∀ s, service = some s → strcaseeq n.service s = true
  counters : g.stats.total = g.nodes.length ∧
    g.stats.localNodes = g.nodes.countP (fun n => n.metric = 0) ∧
    g.stats.external = g.nodes.countP (fun n => n.metric = 65535) ∧
    g.stats.peered = g.nodes.countP (fun n => n.metric ≠ 0 ∧ n.metric ≠ 65535)
  /-- one NODEUP for each node, and one NODEDOWN once it is gone -/
  events : ∀ n, Appeared h g n → (upnids g.events).count n.nid = 1 ∧
    (downnids g.events).count n.nid = if n.nid ∈ g.nodes.map (·.nid) then 0 else 1
  timeout : ∀ now i, (g.hashTimeout now).hash i = (g.hash i).filter fun n =>
    ¬(n.metric ≠ 0 ∧ n.ttl ≠ -1 ∧ n.refcount ≤ 0 ∧ now - n.lastuse ≥ n.ttl)

/-- A table is reliable after any calls on nodes that are in the table. -/
theorem reliable_of_run {h : List (Gnr × Call)} {g : Gnr} (hrun : Run Call.make Initial h g)
    (hlive : ∀ p ∈ h, Live p.1 p.2) : Reliable h g := by
  obtain ⟨hs, hpast⟩ := sound_of_run hrun hlive
  refine ⟨⟨.of_map _ hs.nodup, ?_⟩, ?_, ?_, ?_, ?_, ?_⟩
  · rintro n ⟨j, hj⟩ i
    constructor
    · intro hi
      exact (hs.ok.bucket i n hi).symm
    · rintro rfl
      rw [hs.ok.bucket j n hj]
      exact hj
  · intro m hm n hn hname hservice
    exact hs.ok.eq_of_same hm hn ⟨hname, hservice⟩
  · intro name service
    constructor
    · rintro ⟨n, hfind⟩
      exact ⟨n, findbyname_some hfind⟩
    · rintro ⟨n, ⟨i, hi⟩, hname, hservice⟩
      have hidx : hashGetidx name = i := by
        rw [← hashGetidx_congr hname]
        exact hs.ok.bucket i n hi
      subst hidx
      have hmatch : matchesName name service n = true := by
        simpa [matchesName, hname, Option.all_eq_true] using hservice
      have hsome : ((g.hash (hashGetidx name)).find? (matchesName name service)).isSome := by
        rw [List.find?_isSome]
        exact ⟨n, hi, hmatch⟩
      exact Option.isSome_iff_exists.1 hsome
  · rw [hs.stats]
    exact ⟨rfl, rfl, rfl, rfl⟩
  · intro n happeared
    -- a node that ever appeared got its number from the counter
    have hlt : n.nid < g.nextnid := by
      rcases happeared with hn | ⟨p, hp, hn⟩
      · exact hs.lt (List.mem_map_of_mem (mem_nodes.2 hn))
      · obtain ⟨hsp, hle⟩ := hpast p hp
        exact (hsp.lt (List.mem_map_of_mem (mem_nodes.2 hn))).trans_le hle
    rw [hs.ups, hs.downs, if_pos hlt]
    refine ⟨rfl, ?_⟩
    by_cases hin : n.nid ∈ g.nodes.map (·.nid)
    · rw [if_neg (fun h => h.2 hin), if_pos hin]
    · rw [if_pos ⟨hlt, hin⟩, if_neg hin]
  · intro now i
    rw [hashTimeout_hash]
    apply List.filter_congr
    intro n _
    rw [Bool.eq_iff_iff]
    simp [expired, metricLocal]

/-- A user goes online, another one is heard of, and the table is timed out. -/
def visitors : List Call :=
  [.online .zeroed 0 ⟨lit "timps-oscar"⟩ (lit "alice") (lit "AIM") flagNone metricLocal,
    .online .zeroed 0 ⟨lit "timps-oscar"⟩ (lit "Bob") (lit "AIM") flagNone metricMax, .timeout 30]

/-- One of the two is left, and three events were thrown. -/
theorem reliable_of_visitors : ∃ h g, Run Call.make Initial h g ∧ h.map (·.2) = visitors ∧
    g.stats.total = 1 ∧ g.events.length = 3 ∧ Reliable h g := by
  have hreach : (replayInputs Call.make visitors hashInit).toOption.any
      (fun r => decide (r.2.stats.total = 1) && decide (r.2.events.length = 3)) = true := by
    decide +kernel
  have hstart : Initial hashInit := rfl
  obtain ⟨h, g, hrun, hcalls, hg⟩ := Run.exists_of_replay hstart hreach
  simp only [Bool.and_eq_true, decide_eq_true_eq] at hg
  refine ⟨h, g, hrun, hcalls, hg.1, hg.2, reliable_of_run hrun fun p hp => ?_⟩
  have hcall : p.2 ∈ visitors := by
    rw [← hcalls]
    exact List.mem_map_of_mem hp
  simp only [visitors, List.mem_cons, List.not_mem_nil, or_false] at hcall
  rcases hcall with hcall | hcall | hcall <;> rw [hcall] <;> exact True.intro

end Timps.Gnr
