-- SUMMARY: Acceptance: which of the frames that relayed messages go out in the reader of another timps takes.
import Timps.Oscar.Delivery
import Timps.Oscar.Lengths

/-!
# Acceptance

A handler of ICBMs that takes a message over puts together a frame of another length than
the one that came. With memory enough that length is known; without, it is bounded by what
the message may be rendered as.
-/

namespace Timps.Oscar

open Naf (Block Heap Tag Tlv bytePut16 lit)
open Naf.Tlv (encode)
open Prog (Gives bind_ok bind_of_ok pure_ok)

/-! ## Relayed messages -/

/-- A handler takes the message of a SNAC over; `newname` is the name that gets a node if it
has none. -/
inductive Relays (w : World) (cid : Nat) (snac : Snac) : Icbm → CStr → World → Prop
  | outgoing {srcsn ck destsn tlvs h w'} :
      (((w.conn? cid).bind (·.endpoint)).bind w.conn?).bind screennameOf = some srcsn →
      readoutgoing snac.payload w.env.heap = .ok (some (ck, 0x0001, destsn, tlvs), h) →
      snachandler_0004_0006 cid snac w = .ok (.digested, w') →
      Relays w cid snac (Icbm.outgoing snac.id ck srcsn destsn tlvs) destsn w'
  | incoming {destsn ck srcinfo tlvs h w'} :
      (w.conn? cid).bind screennameOf = some destsn →
      readincoming snac.payload w.env.heap = .ok (some (ck, 0x0001, srcinfo, tlvs), h) →
      snachandler_0004_0007 cid snac w = .ok (.digested, w') →
      Relays w cid snac (Icbm.incoming snac.id ck destsn srcinfo tlvs) srcinfo.sn w'

section

variable {w w' w₁ : World} {cid : Nat} {snac : Snac} {icbm : Icbm} {newname : CStr} {gm : Msg}
  {flags : Gnr.Routeflags}

/-- With memory enough the message goes the way of what was read. -/
theorem Relays.willing (hrelays : Relays w cid snac icbm newname w') (hwilling : w.env.heap.refuse = []) :
    ∃ r a, icbm.extracted w.env.heap = .ok (r, w.env.heap) ∧ relay icbm r newname w = .ok (a, w') := by
  cases hrelays with
  | outgoing hsrc hread hr =>
      obtain ⟨_, _, _, _, _, r, a, hsrc', hread', hextracted, hrelay⟩ := snachandler_0004_0006_willing hwilling hr
      cases hsrc.symm.trans hsrc'
      cases hread.symm.trans hread'
      exact ⟨r, a, hextracted, hrelay⟩
  | incoming hdest hread hr =>
      obtain ⟨_, _, _, _, _, r, a, hdest', hread', hextracted, hrelay⟩ := snachandler_0004_0007_willing hwilling hr
      cases hdest.symm.trans hdest'
      cases hread.symm.trans hread'
      exact ⟨r, a, hextracted, hrelay⟩

/-- In any case the message goes to the router, as far as there was memory for it. -/
theorem Relays.digested (hrelays : Relays w cid snac icbm newname w') :
    ∃ w₁ gm a, Allocates w w₁ ∧ icbm.Makes w gm ∧ relaymsg gm newname w₁ = .ok (a, w') := by
  cases hrelays with
  | outgoing hsrc hread hr =>
      obtain ⟨_, _, _, _, _, w₁, gm, a, hsrc', hread', hallocates, hmakes, hrelay⟩ :=
        snachandler_0004_0006_digested hr
      cases hsrc.symm.trans hsrc'
      cases hread.symm.trans hread'
      exact ⟨w₁, gm, a, hallocates, hmakes, hrelay⟩
  | incoming hdest hread hr =>
      obtain ⟨_, _, _, _, _, w₁, gm, a, hdest', hread', hallocates, hmakes, hrelay⟩ :=
        snachandler_0004_0007_digested hr
      cases hdest.symm.trans hdest'
      cases hread.symm.trans hread'
      exact ⟨w₁, gm, a, hallocates, hmakes, hrelay⟩

/-- The name that is made known is one of the two. -/
theorem Relays.names (hrelays : Relays w cid snac icbm newname w') :
    newname = icbm.srcsn ∨ newname = icbm.destsn := by
  cases hrelays with
  | outgoing _ _ _ => exact .inr rfl
  | incoming _ _ _ => exact .inl rfl

/-- The tlvs of the message were parsed off the payload. -/
theorem Relays.wf (hrelays : Relays w cid snac icbm newname w') : ∀ tlv ∈ icbm.tlvs, tlv.Wf := by
  cases hrelays with
  | outgoing _ hread _ =>
      obtain ⟨⟨ck, sb₁⟩, h₁, -, hread⟩ := bind_ok.1 hread
      cases ck with
      | none => cases hread
      | some ck =>
      obtain ⟨⟨chan, sb₂⟩, h₂, -, hread⟩ := bind_ok.1 hread
      obtain ⟨⟨len, sb₃⟩, h₃, -, hread⟩ := bind_ok.1 hread
      obtain ⟨⟨destsn, sb₄⟩, h₄, -, hread⟩ := bind_ok.1 hread
      cases destsn with
      | none => cases hread
      | some destsn =>
      obtain ⟨⟨tlvs, sb₅⟩, h₅, hparse, hread⟩ := bind_ok.1 hread
      cases hread
      exact Tlv.parse_wf sb₄ _ _ _ hparse
  | incoming _ hread _ =>
      obtain ⟨⟨ck, sb₁⟩, h₁, -, hread⟩ := bind_ok.1 hread
      cases ck with
      | none => cases hread
      | some ck =>
      obtain ⟨⟨chan, sb₂⟩, h₂, -, hread⟩ := bind_ok.1 hread
      obtain ⟨⟨srcinfo, sb₃⟩, h₃, -, hread⟩ := bind_ok.1 hread
      cases srcinfo with
      | none => cases hread
      | some srcinfo =>
      obtain ⟨⟨tlvs, sb₄⟩, h₄, hparse, hread⟩ := bind_ok.1 hread
      cases hread
      exact Tlv.parse_wf sb₃ _ _ _ hparse

/-! ## With memory enough -/

/-- The connection at the end of a way. -/
def Way.target : Way → Option Nat
  | .incoming e => e
  | .outgoing k => some k

/-- What the frame of the message on its way is as long as, without the FLAP header. -/
def Icbm.snaclen (icbm : Icbm) (msg : List Tlv) (way : Way) : Nat :=
  snachdrlen + taken (icbm.pieces way) (icbm.chains msg way)

/-- What is sent would be accepted when it is not too long. -/
theorem accepted_iff_of_sends {msg : List Tlv} {granted : Prop} {way : Option Way} {obs : List Obs}
    (hgranted : granted) (hsends : icbm.Sends msg granted way obs) :
    (∀ o ∈ obs, Accepted o) ↔
      ∀ v e, way = some v → v.target = some e → icbm.snaclen msg v ≤ maxsnaclen := by
  have hone : ∀ {e frame}, (∀ o ∈ [Obs.queued e frame], Accepted o) ↔ Flap frame := by
    intro e frame
    simp [Accepted]
  have hwhole : ∀ {v : Way} {e : Nat}, v.target = some e →
      (icbm.snaclen msg v ≤ maxsnaclen ↔
        ∀ v' e, some v = some v' → v'.target = some e → icbm.snaclen msg v' ≤ maxsnaclen) := by
    intro v e htarget
    constructor
    · rintro hle v' e' heq -
      cases heq
      exact hle
    · exact fun h => h v e rfl htarget
  rcases way with _ | (_ | e) | k
  · cases hsends
    exact iff_of_true (fun o ho => nomatch ho) fun v e h => nomatch h
  · cases hsends
    refine iff_of_true (fun o ho => nomatch ho) fun v e h htarget => ?_
    cases h
    cases htarget
  · obtain ⟨b, frame, hb, rfl, frames⟩ := hsends
    rw [hb hgranted, if_pos rfl, hone, frames.flap]
    exact hwhole rfl
  · obtain ⟨b, frame, hb, rfl, frames⟩ := hsends
    rw [hb hgranted, if_pos rfl, hone, frames.flap]
    exact hwhole rfl

/-- With memory enough and write requests granted, the frame of a message that is taken over
would be accepted if and only if what it is rendered as is not too long. -/
theorem relayed_accepted_iff (hwilling : w.env.heap.refuse = []) (hwrite : w.env.writeRefused = [])
    (hrelays : Relays w cid snac icbm newname w') :
    Emits Accepted w w' ↔ ∀ way e msg, wayOf (known w newname) icbm.srcsn icbm.destsn = some way →
      way.target = some e → icbm.Rendered w.env.heap msg → icbm.snaclen msg way ≤ maxsnaclen := by
  obtain ⟨r, a, hextracted, hrelay⟩ := hrelays.willing hwilling
  obtain ⟨msg, obs, htrace, hrelayed, hsends⟩ := relay_sends hwilling hrelay
  have haccepted := accepted_iff_of_sends hwrite hsends
  have hemits : Emits Accepted w w' ↔ ∀ o ∈ obs, Accepted o := by
    constructor
    · rintro ⟨obs', htrace', hall⟩
      rwa [List.append_cancel_left (htrace.symm.trans htrace')]
    · exact fun hall => ⟨obs, htrace, hall⟩
  rw [hemits, haccepted]
  constructor
  · intro hshort way e msg' hway htarget hmsg'
    have hmsg : icbm.Rendered w.env.heap msg := ⟨r, hextracted, hrelayed (by rw [hway]; exact Option.some_ne_none _)⟩
    rw [hmsg'.unique hmsg]
    exact hshort way e hway htarget
  · intro hshort way e hway htarget
    exact hshort way e msg hway htarget
      ⟨r, hextracted, hrelayed (by rw [hway]; exact Option.some_ne_none _)⟩

end

/-! ### A message that is too long -/

/-- A text in a block without features, and a TLV of `n` bytes. -/
def longchain (n : Nat) : List Tlv :=
  [⟨0x0002, 14, some ([5, 1, 0, 0, 1, 1, 0, 6, 0, 0, 0, 0] ++ lit "hi")⟩, ⟨0x0005, n, some (List.replicate n 0)⟩]

/-- What is in front of these bytes. -/
def longhead (n : Nat) : Bytes :=
  icbmbody alicescookie alicesinfo ((longchain n).take 1) ++ bytePut16 0x0005 ++ bytePut16 n

/-- A SNAC with them that came in a frame of length `n + 58`. -/
def longsnac (n : Nat) : Snac :=
  { group := 0x0004, subtype := 0x0007, flags := 0, id := 7, extinfo := none
    payload := ⟨false, false, ⟨48 + n, fun i => (longhead n).getD i 0⟩, 48 + n, 0⟩ }

theorem bytes_of_head (v : Bytes) (n : Nat) :
    (⟨v.length + n, fun i => v.getD i 0⟩ : Block).bytes 0 (v.length + n) = v ++ List.replicate n 0 := by
  apply List.ext_getElem
  · simp
  · intro i h₁ h₂
    rw [Block.getElem_bytes, List.getElem_append]
    split
    · rename_i hlt
      simp [hlt]
    · rename_i hle
      simp [List.getElem?_eq_none (Nat.le_of_not_lt hle)]

theorem length_longhead (n : Nat) : (longhead n).length = 48 := by
  have hhead : (icbmbody alicescookie alicesinfo ((longchain n).take 1)).length = 44 := rfl
  rw [longhead, List.length_append, List.length_append, hhead, Naf.length_bytePut16, Naf.length_bytePut16]

theorem longsnac_wf {n : Nat} (hpos : n ≠ 0) (hle : snachdrlen + (longsnac n).payload.buflen ≤ maxsnaclen) :
    Wellformed (longsnac n).payload alicescookie alicesinfo (longchain n) where
  length_ck := rfl
  name_lt := by decide
  nulfree := by decide
  evillevel_lt := by decide
  count_lt := by decide
  wf_info := alicessnac_wf.wf_info
  wf := by
    have hlt : n < 65536 := by
      simp only [longsnac, snachdrlen, maxsnaclen] at hle
      omega
    intro tlv htlv
    simp only [longchain, List.mem_cons, List.not_mem_nil, or_false] at htlv
    rcases htlv with rfl | rfl
    · exact ⟨by decide, by decide, by decide, by decide⟩
    · exact ⟨show 0x0005 < 65536 by decide, hlt, by simp, by simp [hpos]⟩
  ahead := by
    have hlt : 48 + n < 65536 := by
      simp only [longsnac, snachdrlen, maxsnaclen] at hle
      omega
    refine ⟨⟨Nat.le_refl _, hlt, Nat.zero_le _⟩, ?_⟩
    have hbytes := bytes_of_head (longhead n) n
    rw [length_longhead] at hbytes
    refine hbytes.trans ?_
    simp [longhead, icbmbody, longchain, encode, Tlv.encodeOne]

/-- What `bob` is sent for a message that is not too long. -/
theorem longsnac_rendered {n : Nat} {h : Heap} (hwilling : h.refuse = []) :
    (Icbm.incoming 7 alicescookie (lit "bob") alicesinfo (longchain n)).Rendered h
      [texttlv 0x0002 (lit "hi")] := by
  refine Icbm.rendered_of_fitting hwilling fun tlv htlv => ?_
  cases htlv
  refine ⟨⟨by decide, by decide, by decide, by decide⟩, by decide, ?_⟩
  decide

theorem longsnac_relays {n : Nat} (hpos : n ≠ 0) (hle : snachdrlen + (longsnac n).payload.buflen ≤ maxsnaclen)
    (hrun : (snachandler_0004_0007 0 (longsnac n) (bobonline [])).toOption.any (fun r => r.1 = .digested) = true) :
    ∃ w', Relays (bobonline []) 0 (longsnac n)
      (Icbm.incoming 7 alicescookie (lit "bob") alicesinfo (longchain n)) (lit "alice") w' := by
  obtain ⟨⟨ret, w'⟩, hr, hret⟩ := exists_of_any hrun
  obtain rfl : ret = .digested := by simpa using hret
  exact ⟨w', .incoming rfl ((longsnac_wf hpos hle).reads rfl).reads hr⟩

set_option maxRecDepth 100000 in
/-- A message that came in a frame as long as frames may be is taken over, and a frame that
would not be accepted is queued for it. -/
theorem relayed_accepted_iff_bob :
    snachdrlen + (longsnac 8134).payload.buflen = maxsnaclen ∧
      ∃ w', Relays (bobonline []) 0 (longsnac 8134)
        (Icbm.incoming 7 alicescookie (lit "bob") alicesinfo (longchain 8134)) (lit "alice") w' ∧
        ¬Emits Accepted (bobonline []) w' := by
  have hwilling : (bobonline []).env.heap.refuse = [] := rfl
  have hway : wayOf (known (bobonline []) (lit "alice")) (lit "alice") (lit "bob") = some (.incoming (some 1)) := rfl
  have hlength : snachdrlen + (longsnac 8134).payload.buflen = maxsnaclen := rfl
  obtain ⟨w', hrelays⟩ := longsnac_relays (by decide) (Nat.le_of_eq hlength) (by decide +kernel)
  have hlong : ¬(Icbm.incoming 7 alicescookie (lit "bob") alicesinfo (longchain 8134)).snaclen
      [texttlv 0x0002 (lit "hi")] (.incoming (some 1)) ≤ maxsnaclen := by decide +kernel
  refine ⟨hlength, w', hrelays, fun hemits => hlong ?_⟩
  exact (relayed_accepted_iff hwilling rfl hrelays).1 hemits _ 1 _ hway rfl (longsnac_rendered hwilling)

/-! ## Without memory enough -/

section

variable {w w' w₁ : World} {cid : Nat} {snac : Snac} {icbm : Icbm} {newname : CStr} {gm : Msg}
  {flags : Gnr.Routeflags}

/-- What the chain of the message takes at most: the message TLV as it came, or its text in
a block of its own. -/
def Icbm.msgroom (icbm : Icbm) : Nat :=
  (Tlv.get icbm.tlvs 0x0002).elim 0 fun msgtlv => max (4 + (msgtlv.value.getD []).length)
    ((blocktext (msgtlv.value.getD [])).2.elim 0 fun text => 20 + text.length)

/-- What the frame takes at most, without the FLAP header. -/
def Icbm.snacroom (icbm : Icbm) (way : Way) : Nat :=
  snachdrlen + ((icbm.pieces way).flatten.length + (icbm.msgroom + (encode (icbm.chains [] way).flatten).length))

/-- The text that was read, if any, is the one of the block. -/
theorem Icbm.Got.text {r : Int × Option CStr} (hgot : icbm.Got w r) (hwf : ∀ tlv ∈ icbm.tlvs, tlv.Wf)
    (hne : ∀ msgtlv, Tlv.get icbm.tlvs 0x0002 = some msgtlv → msgtlv.length ≠ 0) {text : CStr}
    (htext : (icbm.message r).msgtext = some text) :
    ∃ msgtlv, Tlv.get icbm.tlvs 0x0002 = some msgtlv ∧ (blocktext (msgtlv.value.getD [])).2 = some text := by
  obtain ⟨w₁, r₀, h, -, hextracted, hr⟩ := hgot
  have htext₀ : (icbm.message r₀).msgtext = some text := by
    rcases hr with rfl | ⟨-, rfl⟩
    · exact htext
    · have hself : (icbm.message (0, (icbm.message r₀).msgtext)).msgtext = (icbm.message r₀).msgtext := by
        simp [Icbm.message]
      rwa [hself] at htext
  have hr₀ : r₀.2 = some text := by
    have hmessage : (icbm.message r₀).msgtext = if r₀.1 = -1 then none else r₀.2 := rfl
    rw [hmessage] at htext₀
    split at htext₀
    · cases htext₀
    · exact htext₀
  unfold Icbm.extracted at hextracted
  cases hget : Tlv.get icbm.tlvs 0x0002 with
  | none =>
      rw [hget] at hextracted
      cases hextracted
      cases hr₀
  | some msgtlv =>
      rw [hget] at hextracted
      have wf := hwf _ (List.mem_of_find?_eq_some hget)
      have hv : msgtlv.value = some (msgtlv.value.getD []) := by
        have hvalue := wf.value
        rwa [if_neg (hne msgtlv hget)] at hvalue
      obtain ⟨r', h', hr', hextracts⟩ := extractmsgtext_spec (h := w₁.env.heap) wf hv
      cases hextracted.symm.trans hr'
      refine ⟨msgtlv, rfl, ?_⟩
      unfold blocktext
      unfold Extracts at hextracts
      cases hblock : msgblock (msgtlv.value.getD []) with
      | none =>
          rw [hblock] at hextracts
          rw [hextracts] at hr₀
          cases hr₀
      | some ps =>
          rw [hblock] at hextracts
          by_cases hrefuses : Refuses w₁.env.heap (ps.countP Piece.asks)
          · rw [hextracts.1 hrefuses] at hr₀
            cases hr₀
          · rwa [hextracts.2 hrefuses] at hr₀

/-- However the text came about, the chain that it is rendered as is bounded. -/
theorem Icbm.Got.room {r : Int × Option CStr} (hgot : icbm.Got w r) (hwf : ∀ tlv ∈ icbm.tlvs, tlv.Wf)
    (hne : ∀ msgtlv, Tlv.get icbm.tlvs 0x0002 = some msgtlv → msgtlv.length ≠ 0) :
    Gives (icbm.relayedmsg r) fun msg => (encode msg).length ≤ icbm.msgroom := by
  unfold Icbm.relayedmsg
  split
  · rename_i msgtlv hkept
    have hget : Tlv.get icbm.tlvs 0x0002 = some msgtlv := by
      split at hkept
      · cases hkept
      · exact hkept
    refine .pure ?_
    have hone : (encode [msgtlv]).length = 4 + (msgtlv.value.getD []).length := by
      simp [encode, Tlv.encodeOne]
      omega
    rw [hone, Icbm.msgroom, hget]
    exact Nat.le_max_left _ _
  · refine (addoscarmsgblock_bound 0x0002 _).mono fun msg hmsg => Nat.le_trans hmsg ?_
    cases htext : (icbm.message r).msgtext with
    | none => exact Nat.zero_le _
    | some text =>
        obtain ⟨msgtlv, hget, hblock⟩ := hgot.text hwf hne htext
        rw [Icbm.msgroom, hget]
        simp only [Option.elim_some, hblock]
        exact Nat.le_max_right _ _

/-! ### The message that was made -/

/-- A look-up of any tag but the one that may be missing. -/
theorem fetch_untagged {r : Int × Option CStr} {name : String}
    (hname : (lit "gnrmsg.extraoscartlvs").take 64 ≠ lit name) :
    Gnr.msgTagFetch module (marked (untagged (icbm.message r)) flags) (lit name) =
      Gnr.msgTagFetch module (marked (icbm.message r) flags) (lit name) := by
  unfold Gnr.msgTagFetch marked untagged Icbm.message
  dsimp only
  rw [Tag.fetch_cons_of_ne (by rw [Icbm.isFor_hint]; simpa using hname), List.tail_cons]

theorem extratlvs_untagged {r : Int × Option CStr} :
    extratlvs (marked (untagged (icbm.message r)) flags) = [] := by
  have hnone : Tag.fetch (icbm.keptsrcinfo ++ (icbm.keptmsgtlv r.1 ++ icbm.origin)) module
      (lit "gnrmsg.extraoscartlvs") = none := by
    rw [Tag.fetch, List.find?_eq_none]
    intro tag htag
    have hname : tag.name ≠ lit "gnrmsg.extraoscartlvs" := by
      rcases List.mem_append.1 htag with htag | htag
      · rw [Icbm.name_of_srcinfo htag]
        decide
      · rcases Icbm.name_of_mem htag with hname | hname | hname <;> rw [hname] <;> decide
    simp [Tag.isFor, hname]
  have htaglist : (marked (untagged (icbm.message r)) flags).taglist =
      icbm.keptsrcinfo ++ (icbm.keptmsgtlv r.1 ++ icbm.origin) := rfl
  unfold extratlvs Gnr.msgTagFetch
  rw [htaglist, hnone]

/-- What a message that goes to the router has of what was read. -/
structure Icbm.Has (icbm : Icbm) (gm : Msg) : Prop where
  carries : Carries gm icbm.ck
  names : gm.srcname = some icbm.srcsn ∧ gm.destname = some icbm.destsn
  services : gm.srcnameservice = some oscarservice ∧ gm.destnameservice = some oscarservice
  flags : gm.msgflags =
    { autoresponse := (Tlv.get icbm.tlvs 0x0004).isSome, ackrequested := (Tlv.get icbm.tlvs 0x0003).isSome }
  srcinfo : srcinfoOf gm = icbm.srcinfo
  extra : (encode (extratlvs gm)).length ≤ (encode icbm.others).length
  room : Gives (msgtlvs gm) fun msg => (encode msg).length ≤ icbm.msgroom

theorem Icbm.Makes.has (hmakes : icbm.Makes w gm) (hwf : ∀ tlv ∈ icbm.tlvs, tlv.Wf)
    (hne : ∀ msgtlv, Tlv.get icbm.tlvs 0x0002 = some msgtlv → msgtlv.length ≠ 0) (flags : Gnr.Routeflags) :
    icbm.Has (marked gm flags) := by
  obtain ⟨r, hgot, rfl | ⟨-, rfl⟩⟩ := hmakes
  · exact {
      carries := Icbm.message_carries
      names := ⟨rfl, rfl⟩
      services := ⟨rfl, rfl⟩
      flags := rfl
      srcinfo := Icbm.srcinfoOf_message
      extra := by rw [Icbm.extratlvs_message]
      room := by rw [Icbm.msgtlvs_message]; exact hgot.room hwf hne }
  · have hcarries : Carries (marked (icbm.message r) flags) icbm.ck := Icbm.message_carries
    have hcookie := hcarries.cookie
    have hsrcinfo : srcinfoOf (marked (icbm.message r) flags) = icbm.srcinfo := Icbm.srcinfoOf_message
    have hmsg : msgtlvs (marked (icbm.message r) flags) = icbm.relayedmsg r := Icbm.msgtlvs_message
    exact {
      carries := ⟨rfl, by rw [fetch_untagged (by decide)]; exact hcookie⟩
      names := ⟨rfl, rfl⟩
      services := ⟨rfl, rfl⟩
      flags := rfl
      srcinfo := by
        unfold srcinfoOf at hsrcinfo ⊢
        rw [fetch_untagged (by decide)]
        exact hsrcinfo
      extra := by
        rw [extratlvs_untagged]
        exact Nat.zero_le _
      room := by
        unfold msgtlvs at hmsg ⊢
        rw [fetch_untagged (by decide)]
        exact hmsg ▸ hgot.room hwf hne }

/-- A message on its way is sent in a frame that would be accepted, if there is room for it. -/
theorem carry_emits {way : Option Way} (has : icbm.Has gm)
    (hroom : ∀ v e, way = some v → v.target = some e → icbm.snacroom v ≤ maxsnaclen) :
    Prog.Does (Emits Accepted) (carry way gm) := by
  have hextra := has.extra
  have hflags : flagtlvs gm.msgflags = icbm.acktlvs ++ icbm.autotlvs := by
    rw [has.flags]
    rfl
  have hunacked : flagtlvs (unacked gm).msgflags = icbm.autotlvs := by
    unfold unacked
    rw [has.flags]
    rfl
  rcases way with _ | e | k
  · exact .pure _
  · refine .bind (sendincoming_emits e has.carries has.room fun he => ?_) fun r => .pure _
    obtain ⟨e, rfl⟩ := Option.ne_none_iff_exists'.1 he
    have hle := hroom _ e rfl rfl
    rw [hunacked, has.srcinfo]
    simp only [Icbm.snacroom, Icbm.pieces, Icbm.chains, List.flatten_cons, List.flatten_nil, List.append_nil,
      List.nil_append, Tlv.encode_append, List.length_append] at hle ⊢
    omega
  · refine .bind (sendoutgoing_emits (some k) has.carries has.room fun _ => ?_) fun r => .pure _
    have hle := hroom _ k rfl rfl
    rw [hflags, has.names.2, Option.getD_some]
    simp only [Icbm.snacroom, Icbm.pieces, Icbm.chains, List.flatten_cons, List.flatten_nil, List.append_nil,
      List.nil_append, Tlv.encode_append, List.length_append] at hle ⊢
    omega

/-- There is no way between names that have no nodes. -/
theorem wayOf_unknown {srcsn destsn : CStr} (h : w.gnr.findbyname srcsn (some oscarservice) = none ∨
    w.gnr.findbyname destsn (some oscarservice) = none) : wayOf w srcsn destsn = none := by
  unfold wayOf
  rcases h with h | h
  · rw [h]
  · rw [h]
    cases w.gnr.findbyname srcsn (some oscarservice) <;> rfl

/-- The name has a node from now on, or there was no memory for one and it has none. -/
theorem assumeExternal_ok {u : Unit} (hr : assumeExternal newname w = .ok (u, w')) :
    w'.trace = w.trace ∧ ∀ srcsn destsn, newname = srcsn ∨ newname = destsn →
      wayOf w' srcsn destsn = wayOf (known w newname) srcsn destsn ∨ wayOf w' srcsn destsn = none := by
  unfold assumeExternal at hr
  obtain ⟨found, w₁, hfind, hr⟩ := bind_ok.1 hr
  obtain ⟨rfl, rfl⟩ : found = w.gnr.findbyname newname (some oscarservice) ∧ w₁ = w := by
    cases hfind
    exact ⟨rfl, rfl⟩
  unfold known
  cases hnode : w₁.gnr.findbyname newname (some oscarservice) with
  | some n =>
      rw [hnode] at hr
      cases pure_ok.1 hr
      exact ⟨rfl, fun _ _ _ => .inl rfl⟩
  | none =>
      rw [hnode] at hr
      obtain ⟨gn, w₂, honline, hr⟩ := bind_ok.1 hr
      cases pure_ok.1 hr
      simp only [Gnr.nodeOnline, Sys.now, bind_ok, Prog.read_ok, Sys.mem_ok, Prog.update_ok, Prod.mk.injEq] at honline
      obtain ⟨_, _, ⟨rfl, rfl⟩, _, _, ⟨rfl, rfl⟩, ⟨r, g⟩, _, ⟨_, h, honline, rfl, rfl⟩, _, _, ⟨-, rfl⟩, hr⟩ := honline
      cases pure_ok.1 hr
      obtain ⟨n, hn, -, -⟩ | ⟨-, ⟨-, rfl⟩ | ⟨-, rfl⟩⟩ := Gnr.online_ok honline
      · cases hnode.symm.trans hn
      · refine ⟨rfl, fun srcsn destsn hname => .inr ?_⟩
        refine wayOf_unknown (hname.imp (fun heq => ?_) fun heq => ?_)
        · rw [← heq]
          exact hnode
        · rw [← heq]
          exact hnode
      · exact ⟨rfl, fun _ _ _ => .inl rfl⟩

/-- Asking for memory changes no way. -/
theorem Allocates.wayOf_known {srcsn destsn : CStr} (h : Allocates w w₁) (name : CStr) :
    wayOf (known w₁ name) srcsn destsn = wayOf (known w name) srcsn destsn := by
  have hworld : ∀ heap, wayOf (known (w.setHeap heap) name) srcsn destsn = wayOf (known w name) srcsn destsn := by
    intro heap
    have hgnr : (w.setHeap heap).gnr = w.gnr := rfl
    unfold known
    rw [hgnr]
    cases w.gnr.findbyname name (some oscarservice) <;> rfl
  rw [h.only]
  exact hworld _

/-- Whatever is refused, the frame of a message that is taken over would be accepted if there
is room in it for the message on its way. -/
theorem relayed_accepted (hrelays : Relays w cid snac icbm newname w')
    (hne : ∀ msgtlv, Tlv.get icbm.tlvs 0x0002 = some msgtlv → msgtlv.length ≠ 0)
    (hroom : ∀ way e, wayOf (known w newname) icbm.srcsn icbm.destsn = some way → way.target = some e →
      icbm.snacroom way ≤ maxsnaclen) :
    Emits Accepted w w' := by
  obtain ⟨w₁, gm, a, hallocates, hmakes, hr⟩ := hrelays.digested
  obtain ⟨u, w₂, hassume, hroute⟩ := bind_ok.1 hr
  obtain ⟨htrace, hways⟩ := assumeExternal_ok hassume
  have has := fun flags => hmakes.has hrelays.wf hne flags
  obtain ⟨flags, g, hcarry⟩ : ∃ flags g, Gnr.msgRoute handlers module gm w₂ =
      carry (wayOf w₂ icbm.srcsn icbm.destsn) (marked gm flags) { w₂ with gnr := g } :=
    msgRoute_eq (has {}).names.1 (has {}).services.1 (has {}).names.2 (has {}).services.2
  rw [hcarry] at hroute
  have hbefore : w₂.trace = w.trace := by
    rw [htrace, hallocates.only]
    rfl
  have hrouted : Emits Accepted w₂ { w₂ with gnr := g } := .of_trace rfl
  refine (Emits.of_trace hbefore).trans (hrouted.trans ?_)
  refine .of_acts (carry_emits (has flags) ?_ _ _ _ hroute)
  · intro v e hway htarget
    rcases hways _ _ hrelays.names with hsame | hnone
    · rw [hsame, hallocates.wayOf_known] at hway
      exact hroom v e hway htarget
    · rw [hnone] at hway
      cases hway

end

/-- Without memory for the rest of the chain, `bob` is sent a frame that would be accepted. -/
theorem relayed_accepted_refused :
    ∃ w', Relays (bobonline refusing) 0 alicessnac
        (Icbm.incoming 7 alicescookie (lit "bob") alicesinfo aliceschain) (lit "alice") w' ∧
      w'.trace ≠ [] ∧ Emits Accepted (bobonline refusing) w' := by
  have hrun : (snachandler_0004_0007 0 alicessnac (bobonline refusing)).toOption.any sendscurtailed = true := by
    decide +kernel
  obtain ⟨⟨ret, w'⟩, hr, hsends⟩ := exists_of_any hrun
  obtain ⟨rfl, htrace⟩ := sendscurtailed_ok hsends
  have hrelays : Relays (bobonline refusing) 0 alicessnac
      (Icbm.incoming 7 alicescookie (lit "bob") alicesinfo aliceschain) (lit "alice") w' := .incoming rfl rfl hr
  refine ⟨w', hrelays, by simp [htrace], relayed_accepted hrelays ?_ ?_⟩
  · intro msgtlv hget
    cases hget
    decide
  · intro way e hway _
    have hbob : wayOf (known (bobonline refusing) (lit "alice")) (lit "alice") (lit "bob") =
        some (.incoming (some 1)) := rfl
    cases hbob.symm.trans hway
    decide

end Timps.Oscar
