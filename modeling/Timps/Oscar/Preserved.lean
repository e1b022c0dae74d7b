-- SUMMARY: What a client gets of a message of its server: all of it but the text.
import Timps.Oscar.Runs
import Timps.Oscar.Transit
import Timps.Oscar.Usercodec

/-!
# Preserved messages

An incoming message is taken apart and put together again on its way to the client. What
is well formed is read as it was written, so that everything but the text arrives as it
was sent, provided that memory and the renderer let it through.
-/

namespace Timps.Oscar

open Naf (Heap Sbuf Tlv bytePut8 bytePut16 lit)
open Naf.Tlv (Fully encode)
open Prog (bind_of_ok)

/-! ## Well-formed messages -/

/-- A channel 1 message as a server sends it: a cookie, the user info and a chain. -/
structure Wellformed (payload : Sbuf) (ck : Bytes) (srcinfo : Touserinfo) (tlvs : List Tlv) : Prop where
  length_ck : ck.length = msgcookielen
  name_lt : srcinfo.sn.length < 256
  nulfree : 0 ∉ srcinfo.sn
  evillevel_lt : srcinfo.evillevel < 65536
  count_lt : srcinfo.tlvh.length < 65536
  wf_info : ∀ tlv ∈ srcinfo.tlvh, tlv.Wf
  wf : ∀ tlv ∈ tlvs, tlv.Wf
  ahead : Ahead payload (ck ++ (bytePut16 0x0001 ++ (bytePut8 srcinfo.sn.length ++ (srcinfo.sn ++
    (bytePut16 srcinfo.evillevel ++ (bytePut16 srcinfo.tlvh.length ++ (encode srcinfo.tlvh ++ encode tlvs)))))))

section

variable {h : Heap} {payload sb : Sbuf} {ck ck' : Bytes} {chan : Nat} {srcinfo srcinfo' : Touserinfo}
  {tlvs tlvs' : List Tlv} {bs : Bytes}

theorem Wellformed.fits (wf : Wellformed payload ck srcinfo tlvs) : srcinfo.Fits where
  name_le := Nat.le_of_lt_succ wf.name_lt
  nulfree := wf.nulfree
  evillevel_lt := wf.evillevel_lt
  count_le := Nat.le_of_lt_succ wf.count_lt
  wf := wf.wf_info

/-- A well-formed message is read as it was written. -/
theorem Wellformed.reads (wf : Wellformed payload ck srcinfo tlvs) (hwilling : h.refuse = []) :
    Readsincoming h payload ck 0x0001 srcinfo tlvs := by
  have ahead₁ := wf.ahead.skip
  have ahead₂ : Ahead ((payload.skip ck.length).skip 2) (srcinfo.encode ++ encode tlvs) := by
    have ahead₂ := ahead₁.skip
    simpa [Touserinfo.encode, Touserinfo.pieces] using ahead₂
  have ahead₃ := ahead₂.skip
  have hck := wf.ahead.getraw hwilling
  rw [wf.length_ck] at ahead₁ ahead₂ ahead₃ hck
  exact ⟨_, _, _, _, hck, ahead₁.get16 (by decide), touserinfoExtract_encode hwilling wf.fits ahead₂,
    Tlv.parse_encode ahead₃.ok hwilling wf.wf ahead₃.rest⟩

end

/-! ## What arrives -/

/-- A chain without its first TLVs of the types 2, 3 and 4. -/
def without (tlvs : List Tlv) : List Tlv :=
  ((tlvs.eraseP fun tlv => tlv.type = 0x0002).eraseP fun tlv => tlv.type = 0x0003).eraseP
    fun tlv => tlv.type = 0x0004

/-- The TLV without a value that stands for an automatic response. -/
def automatic (tlvs : List Tlv) : List Tlv :=
  if ∃ tlv ∈ tlvs, tlv.type = 0x0004 then [⟨0x0004, 0, none⟩] else []

/-- The body of a 0004/0007 message of channel 1. -/
def icbmbody (ck : Bytes) (srcinfo : Touserinfo) (tlvs : List Tlv) : Bytes :=
  ck ++ bytePut16 0x0001 ++ bytePut8 srcinfo.sn.length ++ srcinfo.sn ++ bytePut16 srcinfo.evillevel ++
    bytePut16 srcinfo.tlvh.length ++ encode srcinfo.tlvh ++ encode tlvs

/-- One write request to `e`: a 0004/0007 SNAC with all that the message has but the text,
which is one TLV of type 2 at most. -/
def Preserved (w w' : World) (e id : Nat) (ck : Bytes) (srcinfo : Touserinfo) (tlvs : List Tlv) : Prop :=
  ∃ (d : Conn) (msg : List Tlv), w.conn? e = some d ∧ msg.length ≤ 1 ∧ (∀ tlv ∈ msg, tlv.type = 0x0002 ∧ tlv.Wf) ∧
    (w'.trace = w.trace ++ [.refused e] ∨
      w'.trace = w.trace ++ [.queued e (queuedsnac d.nextseqnum 0x0004 0x0007 0x0000 (id ||| 0x80000000)
        (icbmbody ck srcinfo (msg ++ automatic tlvs ++ without tlvs)))])

theorem without_subset (tlvs : List Tlv) : without tlvs ⊆ tlvs := fun _ htlv =>
  List.mem_of_mem_eraseP (List.mem_of_mem_eraseP (List.mem_of_mem_eraseP htlv))

theorem remove_snd (tlvs : List Tlv) (type : Nat) :
    (Tlv.remove tlvs type).2 = tlvs.eraseP fun tlv => tlv.type = type := by
  induction tlvs with
  | nil => rfl
  | cons tlv tlvs ih =>
      simp only [Tlv.remove, List.eraseP_cons]
      by_cases htype : tlv.type = type
      · simp [htype]
      · simp [htype, ih]

namespace Icbm

variable {icbm : Icbm} {h : Heap}

theorem others_eq (icbm : Icbm) : icbm.others = without icbm.tlvs := by
  simp only [others, without, remove_snd]

theorem autotlvs_eq (icbm : Icbm) : icbm.autotlvs = automatic icbm.tlvs := by
  simp only [autotlvs, automatic, Tlv.get, List.find?_isSome, decide_eq_true_eq]

/-- The renderer appends the full encoding of each of the chains. -/
def Fullyrendered (icbm : Icbm) : Prop :=
  ∀ h msg sb, icbm.Rendered h msg →
    Headed sb h (snachead 0x0004 0x0007 0x0000 (icbm.id ||| 0x80000000)) (incominghead icbm.ck icbm.srcinfo) →
    Fully [icbm.srcinfo.tlvh, msg, icbm.autotlvs, icbm.others] sb h

/-- The text is rendered as one TLV at most. -/
theorem rendered_wf {msg : List Tlv} (hwf : ∀ tlv ∈ icbm.tlvs, tlv.Wf) (hmsg : icbm.Rendered h msg) :
    msg.length ≤ 1 ∧ ∀ tlv ∈ msg, tlv.type = 0x0002 ∧ tlv.Wf := by
  obtain ⟨r, -, hmsg⟩ := hmsg
  unfold relayedmsg at hmsg
  cases hkept : if r.1 = 0 then none else Tlv.get icbm.tlvs 0x0002 with
  | none =>
      rw [hkept] at hmsg
      exact addoscarmsgblock_gives (by decide) _ _ _ _ hmsg
  | some msgtlv =>
      rw [hkept] at hmsg
      cases hmsg
      have hget : Tlv.get icbm.tlvs 0x0002 = some msgtlv := by
        split at hkept
        · cases hkept
        · exact hkept
      refine ⟨Nat.le_refl _, fun tlv htlv => ?_⟩
      rw [List.mem_singleton.1 htlv]
      exact ⟨by simpa using List.find?_some hget, hwf _ (List.mem_of_find?_eq_some hget)⟩

end Icbm

section

variable {w w' : World} {cid e : Nat} {snac : Snac} {ck : Bytes} {srcinfo : Touserinfo} {tlvs : List Tlv}
  {destsn : CStr}

/-- A well-formed message for a local user is passed on to the client as it is, but for the text. -/
theorem incoming_preserved (hwilling : w.env.heap.refuse = []) (wf : Wellformed snac.payload ck srcinfo tlvs)
    (hdest : (w.conn? cid).bind screennameOf = some destsn)
    (hway : wayOf (known w srcinfo.sn) srcinfo.sn destsn = some (.incoming (some e)))
    (hrender : (Icbm.incoming snac.id ck destsn srcinfo tlvs).Fullyrendered)
    (hr : snachandler_0004_0007 cid snac w = .ok (.digested, w')) :
    Preserved w w' e snac.id ck srcinfo tlvs := by
  obtain ⟨destsn', ck', srcinfo', tlvs', h, r, a, hdest', hread, hextracted, hrelay⟩ :=
    snachandler_0004_0007_willing hwilling hr
  cases hdest.symm.trans hdest'
  cases (wf.reads hwilling).reads.symm.trans hread
  have hname : (Icbm.incoming snac.id ck destsn srcinfo tlvs).srcinfo.sn.length ≤ maxsnaclen :=
    Nat.le_trans (Nat.le_of_lt wf.name_lt) (by decide)
  obtain ⟨sb, msg, sb', hheaded, hmsg, hrendered, hsent⟩ :=
    relay_incoming hwilling (Nat.le_of_eq wf.length_ck) hname hway hrelay
  have hrel : (Icbm.incoming snac.id ck destsn srcinfo tlvs).Rendered w.env.heap msg := ⟨r, hextracted, hmsg⟩
  have happ := Tlv.renderEach_of_fully hheaded.growing.ok (hrender _ msg sb hrel hheaded) hrendered
  obtain ⟨b, d, hd, htrace⟩ := hsent _ happ
  obtain ⟨hone, htype⟩ := Icbm.rendered_wf wf.wf hrel
  refine ⟨d, msg, hd, hone, htype, ?_⟩
  cases b with
  | false => exact .inl htrace
  | true =>
      rw [if_pos rfl, Icbm.autotlvs_eq, Icbm.others_eq] at htrace
      refine .inr (htrace.trans ?_)
      have hlen : srcinfo.sn.length % 256 = srcinfo.sn.length := Nat.mod_eq_of_lt wf.name_lt
      have hcount : Tlv.gettotallength srcinfo.tlvh % 65536 = srcinfo.tlvh.length := Nat.mod_eq_of_lt wf.count_lt
      have hbody : icbmbody ck srcinfo (msg ++ automatic tlvs ++ without tlvs) = (incominghead ck srcinfo).flatten ++
          encode [srcinfo.tlvh, msg, automatic tlvs, without tlvs].flatten := by
        simp [icbmbody, incominghead, hlen, hcount, encode]
      rw [hbody]
      rfl

end

/-! ## A message for bob -/

/-- The connection of the user `bob` to a server, with the client at its other end. -/
def bobsconn : Conn :=
  { Naf.Conn.newconn 0 (some module) { server := true, flap := true } ⟨lit "10.0.0.1", defaultport⟩ with
    endpoint := some 1
    taglist := [⟨module, lit "conn.screenname", 'S', .string (lit "bob")⟩] }

def bobsclient : Conn :=
  { Naf.Conn.newconn 1 (some module) { client := true, flap := true } ⟨lit "10.0.0.1", defaultport⟩ with
    endpoint := some 0 }

/-- The proxy with `bob` online, and an allocator that refuses some requests. -/
def bobonline (refuse : List Bool) : World :=
  { started with
    conns := [bobsconn, bobsclient]
    nextcid := 2
    openconns := 2
    gnr := started.gnr.enter
      (started.gnr.newnode 0 module (lit "bob") oscarservice Gnr.flagNone Gnr.metricLocal)
    env := { granting with heap := { Heap.zeroed with refuse } } }

/-- The user info, the text and the chain of a message of `alice`. -/
def alicesinfo : Touserinfo := ⟨lit "alice", 0, [⟨0x0001, 2, some [0, 0x10]⟩]⟩

def alicestext : Tlv := texttlv 0x0002 (lit "hi")

def aliceschain : List Tlv :=
  [⟨0x0005, 1, some [0xaa]⟩, ⟨0x0003, 0, none⟩, alicestext, ⟨0x0004, 0, none⟩, ⟨0x0003, 0, none⟩]

def alicescookie : Bytes := [1, 2, 3, 4, 5, 6, 7, 8]

/-- A SNAC with that message. -/
def alicessnac : Snac :=
  let bs := icbmbody alicescookie alicesinfo aliceschain
  { group := 0x0004, subtype := 0x0007, flags := 0, id := 7, extinfo := none
    payload := ⟨false, false, ⟨bs.length, fun i => bs.getD i 0⟩, bs.length, 0⟩ }

theorem alicessnac_wf : Wellformed alicessnac.payload alicescookie alicesinfo aliceschain where
  length_ck := rfl
  name_lt := by decide
  nulfree := by decide
  evillevel_lt := by decide
  count_lt := by decide
  wf_info := by
    intro tlv htlv
    simp only [alicesinfo, List.mem_singleton] at htlv
    subst htlv
    exact ⟨by decide, by decide, rfl, rfl⟩
  wf := by
    intro tlv htlv
    simp only [aliceschain, alicestext, List.mem_cons, List.not_mem_nil, or_false] at htlv
    rcases htlv with rfl | rfl | rfl | rfl | rfl <;> exact ⟨by decide, by decide, by decide, by decide⟩
  ahead := by
    refine ⟨⟨Nat.le_refl _, by decide, Nat.zero_le _⟩, ?_⟩
    exact bytes_of_list _

theorem alices_fullyrendered :
    (Icbm.incoming alicessnac.id alicescookie (lit "bob") alicesinfo aliceschain).Fullyrendered := by
  intro h msg sb hmsg hheaded
  have hfit : Icbm.Fitting (Tlv.get aliceschain 0x0002) := by
    intro tlv htlv
    cases htlv
    refine ⟨⟨by decide, by decide, by decide, by decide⟩, by decide, ?_⟩
    decide
  have hmsg' : (Icbm.incoming alicessnac.id alicescookie (lit "bob") alicesinfo aliceschain).Rendered h
      (Icbm.relayedtlvs (Tlv.get aliceschain 0x0002)) :=
    Icbm.rendered_of_fitting hheaded.growing.willing hfit
  obtain rfl := hmsg.unique hmsg'
  apply Tlv.fully_of_shape hheaded.growing.ok
  rw [hheaded.shape]
  decide

/-- With memory enough `bob`'s client gets the message of `alice`. -/
theorem incoming_preserved_bob : ∃ w', snachandler_0004_0007 0 alicessnac (bobonline []) = .ok (.digested, w') ∧
    Preserved (bobonline []) w' 1 7 alicescookie alicesinfo aliceschain := by
  have hrun : (snachandler_0004_0007 0 alicessnac (bobonline [])).toOption.any (fun r => r.1 = .digested) = true := by
    decide +kernel
  obtain ⟨⟨ret, w'⟩, hr, hret⟩ := exists_of_any hrun
  obtain rfl : ret = .digested := by simpa using hret
  have hwilling : (bobonline []).env.heap.refuse = [] := rfl
  have hdest : ((bobonline []).conn? 0).bind screennameOf = some (lit "bob") := rfl
  have hway : wayOf (known (bobonline []) alicesinfo.sn) alicesinfo.sn (lit "bob") = some (.incoming (some 1)) := rfl
  have hpreserved := incoming_preserved hwilling alicessnac_wf hdest hway alices_fullyrendered hr
  exact ⟨w', hr, hpreserved⟩

/-- The allocator refuses the tag for the chain that is left. -/
def refusing : List Bool := List.replicate 17 false ++ [true]

/-- What `bob`'s client gets then. -/
def curtailed : List Tlv := [alicestext, ⟨0x0004, 0, none⟩]

def sendscurtailed (r : Hret × World) : Bool :=
  r.1 = .digested && match r.2.trace with
    | [.queued cid frame] => cid = 1 && frame = queuedsnac 0 0x0004 0x0007 0x0000 0x80000007
        (icbmbody alicescookie alicesinfo curtailed)
    | _ => false

theorem sendscurtailed_ok {ret : Hret} {w' : World} (hsends : sendscurtailed (ret, w') = true) :
    ret = .digested ∧ w'.trace = [.queued 1 (queuedsnac 0 0x0004 0x0007 0x0000 0x80000007
      (icbmbody alicescookie alicesinfo curtailed))] := by
  unfold sendscurtailed at hsends
  split at hsends
  · rename_i cid frame htrace
    simp only [Bool.and_eq_true, decide_eq_true_eq] at hsends
    obtain ⟨hret, rfl, rfl⟩ := hsends
    exact ⟨hret, htrace⟩
  · simp at hsends

theorem curtailed_wf : ∀ tlv ∈ curtailed, tlv.Wf := by
  intro tlv htlv
  apply alicessnac_wf.wf
  simp only [curtailed, List.mem_cons, List.not_mem_nil, or_false] at htlv
  rcases htlv with rfl | rfl <;> simp [aliceschain]

/-- When the tag for the other TLVs is refused its memory, the message goes on without them. -/
theorem not_preserved_refused :
    Wellformed alicessnac.payload alicescookie alicesinfo aliceschain ∧
      ((bobonline refusing).conn? 0).bind screennameOf = some (lit "bob") ∧
      wayOf (known (bobonline refusing) alicesinfo.sn) alicesinfo.sn (lit "bob") = some (.incoming (some 1)) ∧
      (Icbm.incoming alicessnac.id alicescookie (lit "bob") alicesinfo aliceschain).Fullyrendered ∧
      ∃ w', snachandler_0004_0007 0 alicessnac (bobonline refusing) = .ok (.digested, w') ∧
        ¬Preserved (bobonline refusing) w' 1 7 alicescookie alicesinfo aliceschain := by
  refine ⟨alicessnac_wf, rfl, rfl, alices_fullyrendered, ?_⟩
  have hrun : (snachandler_0004_0007 0 alicessnac (bobonline refusing)).toOption.any sendscurtailed = true := by
    decide +kernel
  obtain ⟨⟨ret, w'⟩, hr, hsends⟩ := exists_of_any hrun
  obtain ⟨rfl, htrace⟩ := sendscurtailed_ok hsends
  refine ⟨w', hr, ?_⟩
  rintro ⟨d, msg, -, -, hmsg, hrefused | hqueued⟩
  · rw [htrace] at hrefused
    cases hrefused
  · rw [htrace] at hqueued
    obtain ⟨-, hframe⟩ := Obs.queued.inj (List.cons.inj hqueued).1
    have hbody := congrArg (List.drop 16) hframe
    rw [drop_queuedsnac, drop_queuedsnac] at hbody
    have hwf : ∀ tlv ∈ msg ++ automatic aliceschain ++ without aliceschain, tlv.Wf := by
      intro tlv htlv
      rcases List.mem_append.1 htlv with htlv | htlv
      · rcases List.mem_append.1 htlv with htlv | htlv
        · exact (hmsg tlv htlv).2
        · exact curtailed_wf tlv (.tail _ htlv)
      · exact alicessnac_wf.wf tlv (without_subset aliceschain htlv)
    have hchain := Tlv.encode_injective curtailed_wf hwf (List.append_cancel_left hbody)
    have hfive : (⟨0x0005, 1, some [0xaa]⟩ : Tlv) ∈ curtailed := by
      rw [hchain]
      exact List.mem_append_right _ (.head _)
    revert hfive
    decide

end Timps.Oscar
