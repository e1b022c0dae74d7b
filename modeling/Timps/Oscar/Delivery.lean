-- SUMMARY: Delivery: where a message that a handler takes over is queued, and when that is where it should be.
import Timps.Oscar.Preserved
import Timps.Oscar.Sending

/-!
# Delivery

The handlers of ICBMs answer that a message was dealt with whatever the router did. Where
it is queued depends on the node table and on the connections, which need not agree about
a user: the table keeps names, the list has connections with and without a client.
-/

namespace Timps.Oscar

open Naf (Heap Sbuf Tlv bytePut16 lit)
open Gnr (Node metricLocal namecmp)

/-! ## What is queued -/

/-- What is seen of a message on its way. -/
def Queues (way : Option Way) (obs : List Obs) : Prop :=
  match way with
  | some (.incoming (some e)) => ∃ frame, obs = [.queued e frame] ∧ Snacframe 0x0004 0x0007 frame
  | some (.outgoing k) => ∃ frame, obs = [.queued k frame] ∧ Snacframe 0x0004 0x0006 frame
  | _ => obs = []

/-- What is sent is queued when write requests are granted. -/
theorem queues_of_sends {icbm : Icbm} {msg : List Tlv} {granted : Prop} {way : Option Way} {obs : List Obs}
    (hgranted : granted) (hsends : icbm.Sends msg granted way obs) : Queues way obs := by
  rcases way with _ | (_ | e) | k
  · exact hsends
  · exact hsends
  · obtain ⟨b, frame, hb, rfl, frames⟩ := hsends
    exact ⟨frame, by rw [hb hgranted, if_pos rfl], frames.snacframe⟩
  · obtain ⟨b, frame, hb, rfl, frames⟩ := hsends
    exact ⟨frame, by rw [hb hgranted, if_pos rfl], frames.snacframe⟩

/-- A message is queued once, on its way, or not at all. -/
theorem relay_queues {icbm : Icbm} {r : Int × Option CStr} {newname : CStr} {a : Int × Msg} {w w' : World}
    (hwilling : w.env.heap.refuse = []) (hwrite : w.env.writeRefused = [])
    (hr : relay icbm r newname w = .ok (a, w')) :
    ∃ obs, w'.trace = w.trace ++ obs ∧ Queues (wayOf (known w newname) icbm.srcsn icbm.destsn) obs := by
  obtain ⟨msg, obs, htrace, -, hsends⟩ := relay_sends hwilling hr
  exact ⟨obs, htrace, queues_of_sends hwrite hsends⟩

/-! ## The nodes of the module -/

/-- A sound table whose nodes are all the module's. -/
structure Owned (g : Gnr) : Prop extends Table g where
  owner : ∀ n ∈ g, n.ownermod = module

theorem Act.owned {p : Perm} {w w' : World} (h : Act p w w') (wf : w.Wf) (howned : Owned w.gnr) : Owned w'.gnr := by
  cases h.enrols wf with
  | users hgnr _ _ =>
      rw [hgnr]
      exact howned
  | online sn metric _ hnone _ hgnr =>
      rw [hgnr]
      refine ⟨howned.toTable.online hnone, fun n hn => ?_⟩
      rcases Gnr.mem_enter.1 hn with rfl | hn
      · rfl
      · exact howned.owner n hn
  | usehit gn _ hgnr =>
      rw [hgnr]
      refine ⟨howned.toTable.usehit, fun n hn => ?_⟩
      obtain ⟨m, hm, lastuse, rfl⟩ := Gnr.of_mem_usehit hn
      exact howned.owner m hm
  | timeout _ hgnr =>
      rw [hgnr]
      exact ⟨howned.toTable.timeout, fun n hn => howned.owner n (Gnr.mem_hashTimeout.1 hn).1⟩
  | bury cid dead _ hw' =>
      subst hw'
      exact ⟨howned.toTable.tagsFreed _, fun n hn => howned.owner n (howned.toTable.mem_freedTags hn)⟩

/-- Without other modules every node is the module's. -/
theorem owned_of_run {h : List (World × Input)} {w : World} (hrun : Run step Initial h w) : Owned w.gnr := by
  refine run_acts (I := fun w => Owned w.gnr) (G := fun _ _ => True) hrun (fun _ _ => trivial) (fun w hinit => ?_)
    (fun _ _ howned => howned) fun _ wf hact howned => hact.owned wf howned
  have hgnr : w.gnr = Gnr.hashInit := hinit.2.2.2.1
  rw [hgnr]
  exact ⟨⟨Gnr.hashInit_ok, fun n hn => absurd hn (Gnr.mem_hashInit n)⟩, fun n hn => absurd hn (Gnr.mem_hashInit n)⟩

theorem Owned.known {w : World} (howned : Owned w.gnr) (name : CStr) : Owned (known w name).gnr := by
  unfold Oscar.known
  cases hfind : w.gnr.findbyname name (some oscarservice) with
  | some n => exact howned
  | none =>
      refine ⟨howned.toTable.online hfind, fun n hn => ?_⟩
      rcases Gnr.mem_enter.1 hn with rfl | hn
      · rfl
      · exact howned.owner n hn

/-! ## Where users are -/

/-- A server connection of the user. -/
def Isuser (sn : CStr) (d : Conn) : Prop := d.type.server = true ∧ ∃ sn' ∈ screennameOf d, namecmp sn' sn = 0

instance (sn : CStr) (d : Conn) : Decidable (Isuser sn d) := inferInstanceAs (Decidable (_ ∧ ∃ sn' ∈ _, _))

/-- The user has a connected client that has gone online. -/
def Connected (w : World) (sn : CStr) : Prop :=
  ∃ d ∈ w.conns, Isuser sn d ∧ ∃ k ∈ d.endpoint, (k, d.cid) ∈ wentonline w.trace

/-- The client side of a connection of the user. -/
def Clientside (w : World) (sn : CStr) (e : Nat) : Prop := ∃ d ∈ w.conns, Isuser sn d ∧ d.endpoint = some e

/-- A server connection of the user, by its number. -/
def Serverside (w : World) (sn : CStr) (k : Nat) : Prop := ∃ d ∈ w.conns, Isuser sn d ∧ d.cid = k

instance (w : World) (sn : CStr) : Decidable (Connected w sn) := inferInstanceAs (Decidable (∃ d ∈ _, _ ∧ ∃ k ∈ _, _))

instance (w : World) (sn : CStr) (e : Nat) : Decidable (Clientside w sn e) := inferInstanceAs (Decidable (∃ d ∈ _, _))

instance (w : World) (sn : CStr) (k : Nat) : Decidable (Serverside w sn k) := inferInstanceAs (Decidable (∃ d ∈ _, _))

/-- One ICBM was queued, and nothing else: for the destination's client if that has gone
online, and otherwise, when the message goes out, at the sender's server connection. -/
def Delivered (outgoing : Prop) (w w' : World) (srcsn destsn : CStr) : Prop :=
  ∃ e frame, w'.trace = w.trace ++ [.queued e frame] ∧
    (Snacframe 0x0004 0x0006 frame ∨ Snacframe 0x0004 0x0007 frame) ∧
    (Connected w destsn → Clientside w destsn e ∧ Snacframe 0x0004 0x0007 frame) ∧
    (¬Connected w destsn → outgoing → Serverside w srcsn e ∧ Snacframe 0x0004 0x0006 frame)

/-- Both have nodes, the destination's is local, and the connection that is found for it has
the client `e`. -/
def Leadsin (w : World) (srcsn destsn : CStr) (e : Nat) : Prop :=
  ∃ m n d, w.gnr.findbyname srcsn (some oscarservice) = some m ∧
    w.gnr.findbyname destsn (some oscarservice) = some n ∧ n.metric = metricLocal ∧
    userconn w n.name = some d ∧ d.endpoint = some e

/-- Both have nodes, only the sender's is local, and `k` is the connection that is found for it. -/
def Leadsout (w : World) (srcsn destsn : CStr) (k : Nat) : Prop :=
  ∃ m n d, w.gnr.findbyname srcsn (some oscarservice) = some m ∧
    w.gnr.findbyname destsn (some oscarservice) = some n ∧ n.metric ≠ metricLocal ∧ m.metric = metricLocal ∧
    userconn w m.name = some d ∧ d.cid = k

/-- The node table and the connections agree on where the users are. -/
def Deliverable (outgoing : Prop) (w : World) (srcsn destsn : CStr) : Prop :=
  (Connected w destsn → ∃ e, Leadsin w srcsn destsn e ∧ Clientside w destsn e) ∧
  (¬Connected w destsn → outgoing → ∃ k, Leadsout w srcsn destsn k ∧ Serverside w srcsn k) ∧
  (¬Connected w destsn → ¬outgoing → ∃ e, Leadsin w srcsn destsn e ∨ Leadsout w srcsn destsn e)

section

variable {w w' : World} {srcsn destsn : CStr} {e k : Nat}

theorem isours_iff (howned : Owned w.gnr) {n : Node} (hn : n ∈ w.gnr) : isours n = true ↔ n.metric = metricLocal := by
  simp [isours, howned.owner n hn]

/-- The ways of a message, by the tables. -/
theorem wayOf_eq (howned : Owned w.gnr) (way : Way) :
    wayOf w srcsn destsn = some way ↔ ∃ m n, w.gnr.findbyname srcsn (some oscarservice) = some m ∧
      w.gnr.findbyname destsn (some oscarservice) = some n ∧ nodesway w m n = some way := by
  unfold wayOf
  cases hsrc : w.gnr.findbyname srcsn (some oscarservice) with
  | none => simp
  | some m =>
  cases hdest : w.gnr.findbyname destsn (some oscarservice) with
  | none => simp
  | some n =>
      have hm := isours_iff howned (Gnr.findbyname_some hsrc).1
      have hn := isours_iff howned (Gnr.findbyname_some hdest).1
      by_cases hours : (isours n || isours m) = true
      · simp [hours]
      · rw [Bool.or_eq_true, hn, hm, not_or] at hours
        simp [isours, nodesway, hours.1, hours.2]

theorem wayOf_incoming (howned : Owned w.gnr) :
    wayOf w srcsn destsn = some (.incoming (some e)) ↔ Leadsin w srcsn destsn e := by
  rw [wayOf_eq howned]
  constructor
  · rintro ⟨m, n, hm, hn, hway⟩
    unfold nodesway at hway
    split at hway
    · rename_i hlocal
      obtain ⟨d, hd, heq⟩ := Option.map_eq_some_iff.1 hway
      exact ⟨m, n, d, hm, hn, hlocal, hd, Way.incoming.inj heq⟩
    · split at hway
      · obtain ⟨d, -, heq⟩ := Option.map_eq_some_iff.1 hway
        cases heq
      · cases hway
  · rintro ⟨m, n, d, hm, hn, hlocal, hd, he⟩
    refine ⟨m, n, hm, hn, ?_⟩
    rw [nodesway, if_pos hlocal, hd, Option.map_some, he]

theorem wayOf_outgoing (howned : Owned w.gnr) :
    wayOf w srcsn destsn = some (.outgoing k) ↔ Leadsout w srcsn destsn k := by
  rw [wayOf_eq howned]
  constructor
  · rintro ⟨m, n, hm, hn, hway⟩
    unfold nodesway at hway
    split at hway
    · obtain ⟨d, -, heq⟩ := Option.map_eq_some_iff.1 hway
      cases heq
    · rename_i hremote
      split at hway
      · rename_i hlocal
        obtain ⟨d, hd, heq⟩ := Option.map_eq_some_iff.1 hway
        exact ⟨m, n, d, hm, hn, hremote, hlocal, hd, Way.outgoing.inj heq⟩
      · cases hway
  · rintro ⟨m, n, d, hm, hn, hremote, hlocal, hd, he⟩
    refine ⟨m, n, hm, hn, ?_⟩
    rw [nodesway, if_neg hremote, if_pos hlocal, hd, Option.map_some, he]

/-- A frame is a SNAC of one kind. -/
theorem Snacframe.unique {group subtype subtype' : Nat} {frame : Bytes} (hframe : Snacframe group subtype frame)
    (hframe' : Snacframe group subtype' frame) : bytePut16 subtype = bytePut16 subtype' :=
  (List.append_inj (hframe.2.symm.trans hframe'.2) rfl).2

theorem known_conns (w : World) (name : CStr) : (known w name).conns = w.conns := by
  unfold known
  split <;> rfl

theorem known_trace (w : World) (name : CStr) : (known w name).trace = w.trace := by
  unfold known
  split <;> rfl

/-- The way is one that the message should take. -/
def Right (outgoing : Prop) (w : World) (srcsn destsn : CStr) (way : Option Way) : Prop :=
  match way with
  | some (.incoming (some e)) =>
      (Connected w destsn → Clientside w destsn e) ∧ (¬Connected w destsn → ¬outgoing)
  | some (.outgoing k) => ¬Connected w destsn ∧ (outgoing → Serverside w srcsn k)
  | _ => False

/-- What is queued on the way is delivered when the way is right. -/
theorem delivered_of_queues {outgoing : Prop} {way : Option Way} {obs : List Obs}
    (htrace : w'.trace = w.trace ++ obs) (hqueues : Queues way obs) :
    Delivered outgoing w w' srcsn destsn ↔ Right outgoing w srcsn destsn way := by
  have hkinds : ∀ frame, Snacframe 0x0004 0x0006 frame → Snacframe 0x0004 0x0007 frame → False := by
    intro frame hout hin
    exact absurd (hout.unique hin) (by decide)
  have hlost : obs = [] → ¬Delivered outgoing w w' srcsn destsn := by
    rintro rfl ⟨e, frame, hqueued, -⟩
    rw [htrace] at hqueued
    exact absurd (List.append_cancel_left hqueued) (by simp)
  have hone : ∀ {e frame}, obs = [.queued e frame] → ∀ {e' frame'}, w'.trace = w.trace ++ [.queued e' frame'] →
      e = e' ∧ frame = frame' := by
    rintro e frame rfl e' frame' hqueued
    rw [htrace] at hqueued
    exact Obs.queued.inj (List.cons.inj (List.append_cancel_left hqueued)).1
  rcases way with _ | (_ | e) | k
  · exact iff_of_false (hlost hqueues) id
  · exact iff_of_false (hlost hqueues) id
  · obtain ⟨frame, hobs, hframe⟩ := hqueues
    constructor
    · rintro ⟨e', frame', hqueued, -, hcon, hnot⟩
      obtain ⟨rfl, rfl⟩ := hone hobs hqueued
      exact ⟨fun hc => (hcon hc).1, fun hc ho => hkinds _ (hnot hc ho).2 hframe⟩
    · rintro ⟨hcon, hnot⟩
      exact ⟨e, frame, hobs ▸ htrace, .inr hframe, fun hc => ⟨hcon hc, hframe⟩, fun hc ho => absurd ho (hnot hc)⟩
  · obtain ⟨frame, hobs, hframe⟩ := hqueues
    constructor
    · rintro ⟨k', frame', hqueued, -, hcon, hnot⟩
      obtain ⟨rfl, rfl⟩ := hone hobs hqueued
      have hc : ¬Connected w destsn := fun hc => hkinds _ hframe (hcon hc).2
      exact ⟨hc, fun ho => (hnot hc ho).1⟩
    · rintro ⟨hc, hside⟩
      exact ⟨k, frame, hobs ▸ htrace, .inl hframe, fun hcon => absurd hcon hc, fun _ ho => ⟨hside ho, hframe⟩⟩

/-- The way is right when the node table and the connections agree. -/
theorem deliverable_iff {outgoing : Prop} (howned : Owned w.gnr) :
    Deliverable outgoing w srcsn destsn ↔ Right outgoing w srcsn destsn (wayOf w srcsn destsn) := by
  unfold Deliverable
  simp only [← wayOf_incoming howned, ← wayOf_outgoing howned]
  generalize wayOf w srcsn destsn = way
  by_cases hc : Connected w destsn <;> by_cases ho : outgoing <;>
    rcases way with _ | (_ | e) | k <;> simp [Right, hc, ho]

theorem right_known {outgoing : Prop} {way : Option Way} (name : CStr) :
    Right outgoing (known w name) srcsn destsn way ↔ Right outgoing w srcsn destsn way := by
  unfold Right Connected Clientside Serverside
  rw [known_conns, known_trace]

end

/-! ## The handlers -/

section

variable {h : List (World × Input)} {w w' : World} {cid : Nat} {snac : Snac}

/-- In every state of every run, with memory enough and write requests granted, a message that
a handler takes over is delivered if and only if the node table and the connections agree. -/
theorem messages_delivered (hrun : Run step Initial h w) {env : Env} (hwilling : env.heap.refuse = [])
    (hwrite : env.writeRefused = []) :
    (∀ srcsn ck destsn tlvs,
      (((w.conn? cid).bind (·.endpoint)).bind w.conn?).bind screennameOf = some srcsn →
      Readsoutgoing env.heap snac.payload ck 0x0001 destsn tlvs →
      snachandler_0004_0006 cid snac { w with env } = .ok (.digested, w') →
      (Delivered True { w with env } w' srcsn destsn ↔ Deliverable True (known { w with env } destsn) srcsn destsn)) ∧
    ∀ destsn ck srcinfo tlvs,
      (w.conn? cid).bind screennameOf = some destsn →
      Readsincoming env.heap snac.payload ck 0x0001 srcinfo tlvs →
      snachandler_0004_0007 cid snac { w with env } = .ok (.digested, w') →
      (Delivered False { w with env } w' srcinfo.sn destsn ↔
        Deliverable False (known { w with env } srcinfo.sn) srcinfo.sn destsn) := by
  have howned : Owned w.gnr := owned_of_run hrun
  constructor
  · intro srcsn ck destsn tlvs hsrc hreads hr
    obtain ⟨srcsn', ck', destsn', tlvs', h, r, a, hsrc', hread, -, hrelay⟩ :=
      snachandler_0004_0006_willing hwilling hr
    cases hsrc.symm.trans hsrc'
    cases hreads.reads.symm.trans hread
    obtain ⟨obs, htrace, hqueues⟩ := relay_queues (w := { w with env }) hwilling hwrite hrelay
    have howned' : Owned (known { w with env } destsn).gnr := howned.known (w := { w with env }) destsn
    rw [deliverable_iff howned', right_known]
    exact delivered_of_queues htrace hqueues
  · intro destsn ck srcinfo tlvs hdest hreads hr
    obtain ⟨destsn', ck', srcinfo', tlvs', h, r, a, hdest', hread, -, hrelay⟩ :=
      snachandler_0004_0007_willing hwilling hr
    cases hdest.symm.trans hdest'
    cases hreads.reads.symm.trans hread
    obtain ⟨obs, htrace, hqueues⟩ := relay_queues (w := { w with env }) hwilling hwrite hrelay
    have howned' : Owned (known { w with env } srcinfo.sn).gnr :=
      howned.known (w := { w with env }) srcinfo.sn
    rw [deliverable_iff howned', right_known]
    exact delivered_of_queues htrace hqueues

end

/-! ## Messages of bob -/

deriving instance DecidableEq for Way, Obs

/-- A SNAC with a message to `alice`. -/
def toalice : Snac :=
  let bs := imbody (lit "alice") (lit "hi")
  { group := 0x0004, subtype := 0x0006, flags := 0, id := 7, extinfo := none
    payload := ⟨false, false, ⟨bs.length, fun i => bs.getD i 0⟩, bs.length, 0⟩ }

theorem toalice_reads : Readsoutgoing granting.heap toalice.payload alicescookie 0x0001 (lit "alice")
    [⟨0x0002, 14, some ([5, 1, 0, 0, 1, 1, 0, 6, 0, 0, 0, 0] ++ lit "hi")⟩] :=
  ⟨_, _, _, _, _, _, rfl, rfl, rfl, rfl, rfl⟩

/-- The user of the connections 2 and 3 has gone online, and a message each way is taken over. -/
def answers (w : World) : Bool :=
  (snachandler_0004_0007 3 alicessnac w).toOption.any (fun r => r.1 = .digested) &&
    (snachandler_0004_0006 2 toalice w).toOption.any (fun r => r.1 = .digested) &&
    (w.conn? 3).bind screennameOf = some (lit "bob") &&
    (((w.conn? 2).bind (·.endpoint)).bind w.conn?).bind screennameOf = some (lit "bob") &&
    wayOf (known w (lit "alice")) (lit "alice") (lit "bob") = some (.incoming (some 2)) &&
    wayOf (known w (lit "alice")) (lit "bob") (lit "alice") = some (.outgoing 3) &&
    Connected w (lit "bob") && Clientside w (lit "bob") 2 && ¬Connected w (lit "alice") &&
    Serverside w (lit "bob") 3

/-- `bob` is online, gets a message of `alice` and sends one to her. -/
theorem messages_delivered_bob :
    ∃ h w w₁ w₂, Run step Initial h w ∧ h.map (·.2) = onlineframes (lit "bob") [1, 2, 3, 4] ∧
      snachandler_0004_0007 3 alicessnac { w with env := granting } = .ok (.digested, w₁) ∧
      Delivered False { w with env := granting } w₁ (lit "alice") (lit "bob") ∧
      snachandler_0004_0006 2 toalice { w with env := granting } = .ok (.digested, w₂) ∧
      Delivered True { w with env := granting } w₂ (lit "bob") (lit "alice") := by
  have hreach : (replayInputs step (onlineframes (lit "bob") [1, 2, 3, 4]) started).toOption.any
      (fun r => answers { r.2 with env := granting }) = true := by
    decide +kernel
  obtain ⟨h, w, hrun, hinputs, hw⟩ := Run.exists_of_replay started_initial hreach
  simp only [answers, Bool.and_eq_true, decide_eq_true_eq] at hw
  obtain ⟨⟨⟨⟨⟨⟨⟨⟨⟨hin, hout⟩, hdest⟩, hsrc⟩, hwayin⟩, hwayout⟩, hbob⟩, hclient⟩, halice⟩, hserver⟩ := hw
  obtain ⟨⟨ret₁, w₁⟩, hr₁, hret₁⟩ := exists_of_any hin
  obtain ⟨⟨ret₂, w₂⟩, hr₂, hret₂⟩ := exists_of_any hout
  obtain rfl : ret₁ = .digested := by simpa using hret₁
  obtain rfl : ret₂ = .digested := by simpa using hret₂
  have howned₀ : Owned w.gnr := owned_of_run hrun
  have howned : Owned (known { w with env := granting } (lit "alice")).gnr :=
    howned₀.known (w := { w with env := granting }) _
  have hdeliverablein : Deliverable False (known { w with env := granting } (lit "alice")) (lit "alice")
      (lit "bob") := by
    rw [deliverable_iff howned, hwayin, right_known]
    exact ⟨fun _ => hclient, fun _ => id⟩
  have hdeliverableout : Deliverable True (known { w with env := granting } (lit "alice")) (lit "bob")
      (lit "alice") := by
    rw [deliverable_iff howned, hwayout, right_known]
    exact ⟨halice, fun _ => hserver⟩
  refine ⟨h, w, w₁, w₂, hrun, hinputs, hr₁, ?_, hr₂, ?_⟩
  · exact ((messages_delivered hrun rfl rfl).2 _ _ _ _ hdest (alicessnac_wf.reads rfl) hr₁).2 hdeliverablein
  · exact ((messages_delivered hrun rfl rfl).1 _ _ _ _ hsrc toalice_reads hr₂).2 hdeliverableout

/-- A client comes back with its cookie, but does not go online. -/
def unannounced : List Input :=
  loginframes (lit "bob") [1, 2, 3, 4] ++ [⟨.closed 0, granting⟩, ⟨.accept, granting⟩] ++
    receiveframe 2 (cookieframe [1, 2, 3, 4])

/-- The message of a user who is logged in is taken over and sent to nobody: without a node
for its sender it has no route. -/
theorem messages_lost :
    ∃ h w w', Run step Initial h w ∧ h.map (·.2) = unannounced ∧ granting.heap.refuse = [] ∧
      granting.writeRefused = [] ∧
      (((w.conn? 2).bind (·.endpoint)).bind w.conn?).bind screennameOf = some (lit "bob") ∧
      (∃ ck tlvs, Readsoutgoing granting.heap toalice.payload ck 0x0001 (lit "alice") tlvs) ∧
      snachandler_0004_0006 2 toalice { w with env := granting } = .ok (.digested, w') ∧
      w'.trace = w.trace ∧ ¬Delivered True { w with env := granting } w' (lit "bob") (lit "alice") := by
  have hreach : (replayInputs step unannounced started).toOption.any
      (fun r => decide ((((r.2.conn? 2).bind (·.endpoint)).bind r.2.conn?).bind screennameOf = some (lit "bob")) &&
        (snachandler_0004_0006 2 toalice { r.2 with env := granting }).toOption.any
          (fun s => s.1 = .digested && decide (s.2.trace = r.2.trace))) = true := by
    decide +kernel
  obtain ⟨h, w, hrun, hinputs, hw⟩ := Run.exists_of_replay started_initial hreach
  rw [Bool.and_eq_true, decide_eq_true_eq] at hw
  obtain ⟨hsrc, hlost⟩ := hw
  obtain ⟨⟨ret, w'⟩, hr, hlost⟩ := exists_of_any hlost
  obtain ⟨rfl, htrace⟩ : ret = .digested ∧ w'.trace = w.trace := by simpa using hlost
  refine ⟨h, w, w', hrun, hinputs, rfl, rfl, hsrc, ⟨_, _, toalice_reads⟩, hr, htrace, ?_⟩
  rintro ⟨e, frame, hqueued, -⟩
  rw [htrace] at hqueued
  simp at hqueued

end Timps.Oscar
