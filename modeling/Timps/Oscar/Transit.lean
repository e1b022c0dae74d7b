-- SUMMARY: Messages in transit: what the handlers of ICBMs make of a SNAC, and what the message keeps of it.
import Timps.Oscar.HandlerActs
import Timps.Oscar.Routing
import Timps.Oscar.Text

/-!
# Messages in transit

Both handlers of ICBMs take a SNAC apart in the same way: the first TLVs of the types 2, 3
and 4 become text and flags, the other ones and the rest of the SNAC are kept in tags.
-/

namespace Timps.Oscar

open Naf (Heap Mem Plain Sbuf Tag Tlv lit malloc)
open Prog (bind_ok bind_of_ok pure_ok)
open Sys (mem)

/-! ## The extractor as a plain program -/

theorem extendstr_plain (text : Text) (n : Nat) : Plain (extendstr text n) := by
  cases text with
  | none =>
      refine .bind (Naf.malloc_plain _) fun s => ?_
      cases s with
      | none => exact .pure _
      | some s => exact .bind (Naf.Block.store_plain _ _ _) fun s => .pure _
  | some text =>
      refine .bind (Naf.malloc_plain _) fun ns => ?_
      cases ns with
      | none => exact .pure _
      | some ns =>
          exact .bind (Naf.Block.load_plain _ _ _) fun old => .bind (Naf.Block.store_plain _ _ _) fun ns => .pure _

theorem countunits_plain (rounds n : Nat) (sb : Sbuf) : Plain (countunits rounds n sb) := by
  induction rounds generalizing n sb with
  | zero => exact .pure _
  | succ rounds ih => exact .bind (Sbuf.get_plain _ _ _) fun (c, sb) => ih _ _

theorem putunits_plain (rounds : Nat) (text : Naf.Block × Nat) (sb : Sbuf) :
    Plain (putunits rounds text sb) := by
  induction rounds generalizing text sb with
  | zero => exact .pure _
  | succ rounds ih =>
      refine .bind (Sbuf.get_plain _ _ _) fun (c, sb) => .ite (fun _ => ?_) fun _ => ?_
      · exact .bind (Naf.Block.store_plain _ _ _) fun s => ih _ _
      · exact .bind (Naf.Block.store_plain _ _ _) fun s => ih _ _

theorem extractsection_plain (text : Text) (unrepresentable : Nat) (sb : Sbuf) :
    Plain (extractsection text unrepresentable sb) := by
  refine .bind (Sbuf.get_plain _ _ _) fun (a, sb) => .ite (fun _ => .pure _) fun _ => ?_
  refine .bind (Sbuf.get_plain _ _ _) fun (b, sb) => .ite (fun _ => .pure _) fun _ => ?_
  refine .bind (Sbuf.get_plain _ _ _) fun (plen, sb) => .ite (fun _ => .pure _) fun _ => ?_
  refine .bind (Sbuf.get_plain _ _ _) fun (f1, sb) => .bind (Sbuf.get_plain _ _ _) fun (f2, sb) => ?_
  refine .ite (fun _ => ?_) fun _ => .ite (fun _ => ?_) fun _ => ?_
  · refine .bind (extendstr_plain _ _) fun text => ?_
    cases text with
    | none => exact .pure _
    | some text =>
        refine .bind (Sbuf.getrawbuf_plain _ _) fun (v, sb) => ?_
        refine .bind ?_ fun s => .bind (Naf.Block.store_plain _ _ _) fun s => .pure _
        cases v with
        | none => exact .pure _
        | some v => exact Naf.Block.store_plain _ _ _
  · refine .ite (fun _ => .pure _) fun _ => ?_
    refine .bind (countunits_plain _ _ _) fun (n, sb) => .bind (Sbuf.setpos_plain _ _) fun (b, sb) => ?_
    refine .bind (extendstr_plain _ _) fun text => ?_
    cases text with
    | none => exact .pure _
    | some text =>
        exact .bind (putunits_plain _ _ _) fun r => .bind (Naf.Block.store_plain _ _ _) fun s => .pure _
  · exact .bind (Sbuf.advance_plain _ _) fun r => .pure _

theorem extractsections_plain (fuel : Nat) (text : Text) (unrepresentable : Nat) (sb : Sbuf) :
    Plain (extractsections fuel text unrepresentable sb) := by
  induction fuel generalizing text unrepresentable sb with
  | zero => exact .fault (.inr rfl)
  | succ fuel ih =>
      refine .ite (fun _ => .bind (extractsection_plain _ _ _) fun r => ?_) fun _ => .pure _
      cases r with
      | out => exact .pure _
      | next text unrepresentable sb => exact ih _ _ _

theorem extracttext_plain (msgtlv : Tlv) : Plain (extracttext msgtlv) := by
  refine .bind (Sbuf.init_plain _ _) fun sb => ?_
  cases sb with
  | none => exact .pure _
  | some sb =>
      refine .bind (Sbuf.get_plain _ _ _) fun (a, sb) => .ite (fun _ => .pure _) fun _ => ?_
      refine .bind (Sbuf.get_plain _ _ _) fun (b, sb) => .ite (fun _ => .pure _) fun _ => ?_
      refine .bind (Sbuf.get_plain _ _ _) fun (featlen, sb) => .bind (Sbuf.advance_plain _ _) fun (b, sb) => ?_
      refine .bind (Prog.Obeys.of_state fun h => extractsections_plain (2 ^ 24 + h.refuse.length) none 0 sb)
        fun r => ?_
      cases r with
      | none => exact .pure _
      | some r => exact .pure _

theorem extractmsgtext_plain (msgtlv : Tlv) : Plain (extractmsgtext msgtlv) := by
  rw [extractmsgtext_eq_map]
  exact .map (extracttext_plain msgtlv)

/-- What the extractor makes of a block, with memory enough. -/
def blocktext (v : Bytes) : Int × Option CStr :=
  match msgblock v with
  | none => (-1, none)
  | some ps => msgtextof ps

theorem extractmsgtext_eq {h : Heap} {tlv : Tlv} {v : Bytes} (wf : tlv.Wf) (hv : tlv.value = some v)
    (hwilling : h.refuse = []) : extractmsgtext tlv h = .ok (blocktext v, h) := by
  obtain ⟨r, h', hr, hextracts⟩ := extractmsgtext_spec (h := h) wf hv
  obtain rfl := (extractmsgtext_plain tlv).steady hwilling hr
  have hgranted : ∀ n, ¬Refuses h' n := by
    intro n
    simp [Refuses, hwilling]
  rw [hr]
  unfold blocktext
  unfold Extracts at hextracts
  cases hblock : msgblock v with
  | none =>
      rw [hblock] at hextracts
      rw [hextracts]
  | some ps =>
      rw [hblock] at hextracts
      rw [hextracts.2 (hgranted _)]

/-! ## The message -/

/-- What the handlers of ICBMs read off a SNAC, and who it is from and for. -/
structure Icbm where
  id : Nat
  ck : Bytes
  srcsn : CStr
  destsn : CStr
  info : Option Touserinfo
  tlvs : List Tlv

/-- A tag of a message. -/
def hint (name : String) (type : Char) (data : Hint) : Tag Hint :=
  { owner := module, name := (lit name).take 64, type, data }

namespace Icbm

variable (icbm : Icbm)

/-- The chain without the first TLVs of the types 2, 3 and 4. -/
def others : List Tlv :=
  (Tlv.remove (Tlv.remove (Tlv.remove icbm.tlvs 0x0002).2 0x0003).2 0x0004).2

/-- The answer of the extractor to the first message TLV. -/
def extracted : Mem (Int × Option CStr) :=
  match Tlv.get icbm.tlvs 0x0002 with
  | none => pure (0, none)
  | some msgtlv => extractmsgtext msgtlv

/-- The tag that keeps the message TLV when the text does not say all of it. -/
def keptmsgtlv (r : Int) : List (Tag Hint) :=
  if r = 0 then []
  else (Tlv.get icbm.tlvs 0x0002).toList.map fun msgtlv => hint "gnrmsg.oscarmsgtlv" 'V' (.oscarmsgtlv msgtlv)

def keptsrcinfo : List (Tag Hint) :=
  icbm.info.toList.map fun srcinfo => hint "gnrmsg.srcuserinfo" 'V' (.srcuserinfo srcinfo)

/-- The tags that every message gets. -/
def origin : List (Tag Hint) :=
  [hint "gnrmsg.oscarmsgcookie" 'V' (.oscarmsgcookie icbm.ck), hint "gnrmsg.snacid" 'I' (.snacid icbm.id)]

/-- The message that goes to the router, by the answer of the extractor. -/
def message (r : Int × Option CStr) : Msg where
  srcname := some icbm.srcsn
  srcnameservice := some oscarservice
  destname := some icbm.destsn
  destnameservice := some oscarservice
  msgtexttype := (Tlv.get icbm.tlvs 0x0002).map fun _ => lit "text/html"
  msgtext := if r.1 = -1 then none else r.2
  msgflags :=
    { autoresponse := (Tlv.get icbm.tlvs 0x0004).isSome
      ackrequested := (Tlv.get icbm.tlvs 0x0003).isSome }
  taglist :=
    hint "gnrmsg.extraoscartlvs" 'V' (.extraoscartlvs icbm.others) ::
      (icbm.keptsrcinfo ++ (icbm.keptmsgtlv r.1 ++ icbm.origin))

/-! ### What the tags keep -/

variable {icbm} {r : Int × Option CStr} {flags : Gnr.Routeflags}

theorem isFor_hint (name name' : String) (type : Char) (data : Hint) :
    Tag.isFor module (lit name') (hint name type data) = decide ((lit name).take 64 = lit name') := by
  simp [Tag.isFor, hint]

theorem name_of_origin {tag : Tag Hint} (htag : tag ∈ icbm.origin) :
    tag.name = (lit "gnrmsg.oscarmsgcookie").take 64 ∨ tag.name = (lit "gnrmsg.snacid").take 64 := by
  rcases List.mem_cons.1 htag with rfl | htag
  · exact .inl rfl
  · rw [List.mem_singleton.1 htag]
    exact .inr rfl

theorem name_of_msgtlv {tag : Tag Hint} {n : Int} (htag : tag ∈ icbm.keptmsgtlv n) :
    tag.name = (lit "gnrmsg.oscarmsgtlv").take 64 := by
  unfold keptmsgtlv at htag
  split at htag
  · cases htag
  · obtain ⟨msgtlv, -, rfl⟩ := List.mem_map.1 htag
    rfl

/-- The names of the tags behind the user info. -/
theorem name_of_mem {tag : Tag Hint} {n : Int} (htag : tag ∈ icbm.keptmsgtlv n ++ icbm.origin) :
    tag.name = (lit "gnrmsg.oscarmsgtlv").take 64 ∨ tag.name = (lit "gnrmsg.oscarmsgcookie").take 64 ∨
      tag.name = (lit "gnrmsg.snacid").take 64 := by
  rcases List.mem_append.1 htag with htag | htag
  · exact .inl (name_of_msgtlv htag)
  · exact .inr (name_of_origin htag)

/-- Tags of other names are not in the way of a look-up. -/
theorem fetch_skip {name : CStr} {l : List (Tag Hint)} (hl : ∀ tag ∈ l, tag.name ≠ name) (l' : List (Tag Hint)) :
    Tag.fetch (l ++ l') module name = Tag.fetch l' module name := by
  have hnone : l.find? (Tag.isFor module name) = none := by
    rw [List.find?_eq_none]
    intro tag htag
    simp [Tag.isFor, hl tag htag]
  rw [Tag.fetch, List.find?_append, hnone]
  rfl

theorem name_of_srcinfo {tag : Tag Hint} (htag : tag ∈ icbm.keptsrcinfo) :
    tag.name = (lit "gnrmsg.srcuserinfo").take 64 := by
  obtain ⟨srcinfo, -, rfl⟩ := List.mem_map.1 htag
  rfl

/-- A look-up of one of the last two tags. -/
theorem fetch_message (name : String) (hextra : (lit "gnrmsg.extraoscartlvs").take 64 ≠ lit name)
    (hsrcinfo : (lit "gnrmsg.srcuserinfo").take 64 ≠ lit name)
    (hmsgtlv : (lit "gnrmsg.oscarmsgtlv").take 64 ≠ lit name) :
    Gnr.msgTagFetch module (marked (icbm.message r) flags) (lit name) =
      Tag.fetch icbm.origin module (lit name) := by
  unfold Gnr.msgTagFetch marked message
  dsimp only
  rw [Tag.fetch_cons_of_ne (by rw [isFor_hint]; simpa using hextra), fetch_skip, fetch_skip]
  · intro tag htag
    rw [name_of_msgtlv htag]
    exact hmsgtlv
  · intro tag htag
    rw [name_of_srcinfo htag]
    exact hsrcinfo

theorem message_carries : Carries (marked (icbm.message r) flags) icbm.ck := by
  refine ⟨rfl, module, (lit "gnrmsg.oscarmsgcookie").take 64, 'V', ?_⟩
  rw [fetch_message "gnrmsg.oscarmsgcookie" (by decide) (by decide) (by decide)]
  exact Tag.fetch_cons_self (by rw [isFor_hint]; decide)

theorem snacidOf_message : snacidOf (marked (icbm.message r) flags) = icbm.id := by
  unfold snacidOf
  rw [fetch_message "gnrmsg.snacid" (by decide) (by decide) (by decide)]
  unfold origin
  rw [Tag.fetch_cons_of_ne (by rw [isFor_hint]; decide), Tag.fetch_cons_self (by rw [isFor_hint]; decide)]
  rfl

theorem extratlvs_message : extratlvs (marked (icbm.message r) flags) = icbm.others := by
  unfold extratlvs Gnr.msgTagFetch marked message
  dsimp only
  rw [Tag.fetch_cons_self (by rw [isFor_hint]; decide)]
  rfl

/-- The user info that comes with the message, or one with its name. -/
def srcinfo (icbm : Icbm) : Touserinfo :=
  icbm.info.getD { sn := icbm.srcsn, evillevel := 0, tlvh := [] }

theorem srcinfoOf_message : srcinfoOf (marked (icbm.message r) flags) = icbm.srcinfo := by
  have hother : Tag.fetch (icbm.keptmsgtlv r.1 ++ icbm.origin) module (lit "gnrmsg.srcuserinfo") = none := by
    rw [Tag.fetch, List.find?_eq_none]
    intro tag htag
    have hname : tag.name ≠ lit "gnrmsg.srcuserinfo" := by
      rcases name_of_mem htag with hname | hname | hname <;> rw [hname] <;> decide
    simp [Tag.isFor, hname]
  unfold srcinfoOf Gnr.msgTagFetch marked message srcinfo keptsrcinfo
  dsimp only
  rw [Tag.fetch_cons_of_ne (by rw [isFor_hint]; decide)]
  cases icbm.info with
  | none =>
      rw [Option.toList_none, List.map_nil, List.nil_append, hother]
      rfl
  | some srcinfo =>
      rw [Option.toList_some, List.map_singleton, List.singleton_append,
        Tag.fetch_cons_self (by rw [isFor_hint]; decide)]
      rfl

/-- The chain that the message is rendered as: its own, or one of the text. -/
def relayedmsg (icbm : Icbm) (r : Int × Option CStr) : Mem (List Tlv) :=
  match if r.1 = 0 then none else Tlv.get icbm.tlvs 0x0002 with
  | some msgtlv => pure [msgtlv]
  | none => addoscarmsgblock [] 0x0002 (icbm.message r).msgtext

theorem extracted_plain (icbm : Icbm) : Plain icbm.extracted := by
  unfold extracted
  split
  · exact .pure _
  · exact extractmsgtext_plain _

theorem relayedmsg_plain (icbm : Icbm) (r : Int × Option CStr) : Plain (icbm.relayedmsg r) := by
  unfold relayedmsg
  split
  · exact .pure _
  · exact addoscarmsgblock_plain _ _ _

theorem msgtlvs_message : msgtlvs (marked (icbm.message r) flags) = icbm.relayedmsg r := by
  have horigin : Tag.fetch icbm.origin module (lit "gnrmsg.oscarmsgtlv") = none := by
    unfold origin
    rw [Tag.fetch_cons_of_ne (by rw [isFor_hint]; decide), Tag.fetch_cons_of_ne (by rw [isFor_hint]; decide)]
    rfl
  have hsrcinfo : ∀ l, Tag.fetch (icbm.keptsrcinfo ++ l) module (lit "gnrmsg.oscarmsgtlv") =
      Tag.fetch l module (lit "gnrmsg.oscarmsgtlv") := fetch_skip fun tag htag => by
    rw [name_of_srcinfo htag]
    decide
  have htaglist : (marked (icbm.message r) flags).taglist = (icbm.message r).taglist := rfl
  have hmsgtext : (marked (icbm.message r) flags).msgtext = (icbm.message r).msgtext := rfl
  have hfetch : Tag.fetch (icbm.message r).taglist module (lit "gnrmsg.oscarmsgtlv") =
      Tag.fetch (icbm.keptmsgtlv r.1 ++ icbm.origin) module (lit "gnrmsg.oscarmsgtlv") := by
    unfold message
    dsimp only
    rw [Tag.fetch_cons_of_ne (by rw [isFor_hint]; decide), hsrcinfo]
  unfold msgtlvs relayedmsg Gnr.msgTagFetch
  rw [htaglist, hmsgtext, hfetch]
  unfold keptmsgtlv
  by_cases hr : r.1 = 0
  · rw [if_pos hr, if_pos hr, List.nil_append, horigin]
  · rw [if_neg hr, if_neg hr]
    cases Tlv.get icbm.tlvs 0x0002 with
    | none =>
        rw [Option.toList_none, List.map_nil, List.nil_append, horigin]
    | some msgtlv =>
        rw [Option.toList_some, List.map_singleton, List.singleton_append,
          Tag.fetch_cons_self (by rw [isFor_hint]; decide)]
        rfl

/-! ### What the text becomes -/

/-- The chain that a message TLV is rendered as: itself, when its block says more than a
text or is broken, or a block that is made of its text. -/
def relayedtlvs (msgtlv : Option Tlv) : List Tlv :=
  match msgtlv with
  | none => []
  | some msgtlv =>
      let (r, msgtext) := blocktext (msgtlv.value.getD [])
      if r = 0 then msgtext.toList.map (texttlv 0x0002) else [msgtlv]

/-- The chain that the message is rendered as. -/
def Rendered (icbm : Icbm) (h : Heap) (msg : List Tlv) : Prop :=
  ∃ r, icbm.extracted h = .ok (r, h) ∧ icbm.relayedmsg r h = .ok (msg, h)

/-- A text of which the block is not too long. -/
def Fitting (msgtlv : Option Tlv) : Prop :=
  ∀ tlv, msgtlv = some tlv → tlv.Wf ∧ tlv.length ≠ 0 ∧
    ∀ text, (blocktext (tlv.value.getD [])).2 = some text → 16 + text.length < 65536

theorem rendered_of_fitting {h : Heap} (hwilling : h.refuse = []) (hfit : Fitting (Tlv.get icbm.tlvs 0x0002)) :
    icbm.Rendered h (relayedtlvs (Tlv.get icbm.tlvs 0x0002)) := by
  unfold Rendered extracted relayedmsg relayedtlvs
  cases hget : Tlv.get icbm.tlvs 0x0002 with
  | none => exact ⟨(0, none), rfl, rfl⟩
  | some msgtlv =>
      obtain ⟨wf, hne, hshort⟩ := hfit msgtlv hget
      have hv : msgtlv.value = some (msgtlv.value.getD []) := by
        have hvalue := wf.value
        rwa [if_neg hne] at hvalue
      refine ⟨_, extractmsgtext_eq wf hv hwilling, ?_⟩
      dsimp only
      revert hshort
      generalize blocktext (msgtlv.value.getD []) = r
      intro hshort
      obtain ⟨n, text⟩ := r
      by_cases hzero : n = 0
      · rw [if_pos hzero, if_pos hzero]
        have htext : (icbm.message (n, text)).msgtext = text := if_neg (by dsimp only; omega)
        dsimp only
        rw [htext]
        cases text with
        | none => rfl
        | some text => exact addoscarmsgblock_eq [] 0x0002 hwilling (hshort text rfl)
      · rw [if_neg hzero, if_neg hzero]
        rfl

/-- The chain is determined by the message. -/
theorem Rendered.unique {h : Heap} {msg msg' : List Tlv} (hmsg : icbm.Rendered h msg)
    (hmsg' : icbm.Rendered h msg') : msg = msg' := by
  obtain ⟨r, hextracted, hrelayed⟩ := hmsg
  obtain ⟨r', hextracted', hrelayed'⟩ := hmsg'
  cases hextracted.symm.trans hextracted'
  cases hrelayed.symm.trans hrelayed'
  rfl

end Icbm

/-! ## Asking for memory -/

/-- Memory was asked for and nothing else: with memory enough all is as it was. -/
structure Allocates (w w' : World) : Prop where
  only : w' = w.setHeap w'.env.heap
  steady : w.env.heap.refuse = [] → w'.env.heap = w.env.heap

section

variable {w w' w₁ w₂ : World}

theorem Allocates.refl (w : World) : Allocates w w := ⟨rfl, fun _ => rfl⟩

theorem Allocates.eq (h : Allocates w w') (hwilling : w.env.heap.refuse = []) : w' = w :=
  h.only.trans (by rw [h.steady hwilling]; rfl)

theorem Allocates.trans (h₁ : Allocates w w₁) (h₂ : Allocates w₁ w₂) : Allocates w w₂ where
  only := by
    have honly := h₂.only
    rw [h₁.only] at honly
    exact honly
  steady := fun hwilling => by
    have heq := h₁.steady hwilling
    rw [h₂.steady (by rw [heq, hwilling]), heq]

/-- A program over memory asks for memory, and the rest runs from there. -/
theorem mem_bind_allocates {α β : Type} {x : Mem α} {f : α → Sys β} {r : β × World} (hx : Plain x)
    (hr : (mem x >>= f) w = .ok r) :
    ∃ a w₁, Allocates w w₁ ∧ x w.env.heap = .ok (a, w₁.env.heap) ∧ f a w₁ = .ok r := by
  obtain ⟨a, w₁, ha, hr⟩ := bind_ok.1 hr
  obtain ⟨a', h, hxa, heq⟩ := Sys.mem_ok.1 ha
  cases heq
  exact ⟨a, w.setHeap h, ⟨rfl, fun hwilling => hx.steady hwilling hxa⟩, hxa, hr⟩

end

/-! ## The handlers -/

section

variable {icbm : Icbm} {gm : Msg} {w w' : World} {tlvs : List Tlv}

theorem tagAdd_plain {δ : Type} (l : List (Tag δ)) (mod : Naf.Nafmodule) (name : CStr) (type : Char) (data : δ) :
    Plain (Tag.add l mod name type data) := by
  refine .ite (fun _ => .pure _) fun _ => .ite (fun _ => .pure _) fun _ => .bind (Naf.malloc_plain _) fun b => ?_
  cases b <;> exact .pure _

/-- A message takes a tag that it does not have yet, unless that is refused its memory. -/
theorem msgTagAdd_bind {α : Type} {name : String} {type : Char} {data : Hint} {f : Bool × Msg → Sys α}
    {a : α × World} (hr : (Gnr.msgTagAdd module gm (lit name) type data >>= f) w = .ok a) (hname : lit name ≠ [])
    (habsent : Tag.ispresent gm.taglist module (lit name) = false) :
    ∃ w₁, Allocates w w₁ ∧
      (f (true, { gm with taglist := hint name type data :: gm.taglist }) w₁ = .ok a ∨
        w.env.heap.refuse ≠ [] ∧ f (false, gm) w₁ = .ok a) := by
  unfold Gnr.msgTagAdd at hr
  rw [bind_assoc] at hr
  obtain ⟨taglist, w₁, hsteady, hadd, hr⟩ := mem_bind_allocates (tagAdd_plain _ _ _ _ _) hr
  refine ⟨w₁, hsteady, ?_⟩
  cases taglist with
  | none =>
      refine .inr ⟨fun hwilling => ?_, hr⟩
      rw [Tag.add_of_willing hwilling hname habsent] at hadd
      cases hadd
  | some taglist =>
      obtain ⟨-, rfl⟩ := Tag.add_ok hadd
      exact .inl hr

/-- The message before its TLVs are looked at. -/
def Icbm.started (icbm : Icbm) : Msg where
  srcname := some icbm.srcsn
  srcnameservice := some oscarservice
  destname := some icbm.destsn
  destnameservice := some oscarservice
  taglist := icbm.origin

/-- A tag of another name than these is not there yet. -/
theorem ispresent_none {name : CStr} {l : List (Tag Hint)} (hl : ∀ tag ∈ l, tag.name ≠ name) :
    Tag.ispresent l module name = false := by
  rw [Tag.ispresent, List.any_eq_false]
  intro tag htag
  simp [Tag.isFor, hl tag htag]

/-- The message when its TLVs have been looked at. -/
def Icbm.parsed (icbm : Icbm) (r : Int × Option CStr) : Msg :=
  { icbm.message r with taglist := icbm.keptmsgtlv r.1 ++ icbm.started.taglist }

/-- What the message has of the extractor's answer: without the tag for its TLV the text is all. -/
def Icbm.Got (icbm : Icbm) (w : World) (r : Int × Option CStr) : Prop :=
  ∃ w₁ r₀ h, Allocates w w₁ ∧ icbm.extracted w₁.env.heap = .ok (r₀, h) ∧
    (r = r₀ ∨ w.env.heap.refuse ≠ [] ∧ r = (0, (icbm.message r₀).msgtext))

/-- The extractor's answer to the first message TLV, and what is kept of it. -/
theorem parsemsgtlv_ok {α : Type} {f : Msg × List Tlv → Sys α} {a : α × World}
    (hr : ((match Tlv.remove icbm.tlvs 0x0002 with
      | (none, tlvh) => pure (icbm.started, tlvh)
      | (some tlv, tlvh) => do
          let (r, msgtext) ← mem (extractmsgtext tlv)
          let gm : Msg :=
            { icbm.started with
              msgtexttype := some (lit "text/html")
              msgtext := if r = -1 then icbm.started.msgtext else msgtext }
          if r ≠ 0 then do
            let (_, gm) ← Gnr.msgTagAdd module gm (lit "gnrmsg.oscarmsgtlv") 'V' (.oscarmsgtlv tlv)
            pure (gm, tlvh)
          else pure (gm, tlvh) : Sys (Msg × List Tlv)) >>= f) w = .ok a) :
    ∃ r w₁, Allocates w w₁ ∧ icbm.Got w r ∧
      f ({ icbm.parsed r with msgflags := {} }, (Tlv.remove icbm.tlvs 0x0002).2) w₁ = .ok a := by
  have hget := Tlv.remove_fst icbm.tlvs 0x0002
  cases hremove : Tlv.remove icbm.tlvs 0x0002 with
  | mk msgtlv rest =>
      rw [hremove] at hr hget
      dsimp only at hget
      subst hget
      cases hmsgtlv : Tlv.get icbm.tlvs 0x0002 with
      | none =>
          rw [hmsgtlv] at hr
          have hextracted : icbm.extracted w.env.heap = .ok ((0, none), w.env.heap) := by
            simp only [Icbm.extracted, hmsgtlv]
            rfl
          refine ⟨(0, none), w, .refl w, ⟨w, _, _, .refl w, hextracted, .inl rfl⟩, ?_⟩
          simpa [Icbm.parsed, Icbm.message, Icbm.keptmsgtlv, Icbm.started, hmsgtlv] using hr
      | some msgtlv =>
          rw [hmsgtlv] at hr
          dsimp only at hr
          rw [bind_assoc] at hr
          obtain ⟨⟨r, msgtext⟩, w₁, hfirst, hextract, hr⟩ := mem_bind_allocates (extractmsgtext_plain _) hr
          have hextracted : icbm.extracted w.env.heap = .ok ((r, msgtext), w₁.env.heap) := by
            simp only [Icbm.extracted, hmsgtlv]
            exact hextract
          dsimp only at hr
          -- the raw TLV is kept on a tag when its text was not understood whole
          by_cases hzero : r = 0
          · rw [if_neg (not_not.2 hzero)] at hr
            refine ⟨(r, msgtext), w₁, hfirst, ⟨w, _, _, .refl w, hextracted, .inl rfl⟩, ?_⟩
            simpa [Icbm.parsed, Icbm.message, Icbm.keptmsgtlv, Icbm.started, hmsgtlv, hzero] using hr
          · rw [if_pos hzero, bind_assoc] at hr
            have habsent : Tag.ispresent icbm.started.taglist module (lit "gnrmsg.oscarmsgtlv") = false :=
              ispresent_none fun tag htag => by
                rcases Icbm.name_of_origin htag with hname | hname <;> rw [hname] <;> decide
            obtain ⟨w₂, hsecond, hadd | ⟨hrefused, hadd⟩⟩ := msgTagAdd_bind hr (by decide) habsent
            · refine ⟨(r, msgtext), w₂, hfirst.trans hsecond, ⟨w, _, _, .refl w, hextracted, .inl rfl⟩, ?_⟩
              simpa [Icbm.parsed, Icbm.message, Icbm.keptmsgtlv, Icbm.started, hmsgtlv, hzero] using hadd
            · have hrefused' : w.env.heap.refuse ≠ [] := fun hwilling => hrefused (by
                rw [hfirst.steady hwilling, hwilling])
              refine ⟨(0, (icbm.message (r, msgtext)).msgtext), w₂, hfirst.trans hsecond,
                ⟨w, _, _, .refl w, hextracted, .inr ⟨hrefused', rfl⟩⟩, ?_⟩
              simpa [Icbm.parsed, Icbm.message, Icbm.keptmsgtlv, Icbm.started, hmsgtlv] using hadd

theorem parsechan1_bind (icbm : Icbm) {α : Type} {f : Msg × List Tlv → Sys α} {a : α × World}
    (hr : (parsechan1 icbm.started icbm.tlvs >>= f) w = .ok a) :
    ∃ r w₁, Allocates w w₁ ∧ icbm.Got w r ∧ f (icbm.parsed r, icbm.others) w₁ = .ok a := by
  unfold parsechan1 at hr
  rw [bind_assoc] at hr
  obtain ⟨r, w₁, hallocates, hgot, hr⟩ := parsemsgtlv_ok hr
  have hack : (Tlv.remove (Tlv.remove icbm.tlvs 0x0002).2 0x0003).1 = Tlv.get icbm.tlvs 0x0003 := by
    rw [Tlv.remove_fst, Tlv.get_remove (by decide)]
  have hauto : (Tlv.remove (Tlv.remove (Tlv.remove icbm.tlvs 0x0002).2 0x0003).2 0x0004).1 =
      Tlv.get icbm.tlvs 0x0004 := by
    rw [Tlv.remove_fst, Tlv.get_remove (by decide), Tlv.get_remove (by decide)]
  refine ⟨r, w₁, hallocates, hgot, ?_⟩
  dsimp only at hr
  rw [hack, hauto, pure_bind] at hr
  have hflags : icbm.parsed r = { icbm.parsed r with
      msgflags :=
        { autoresponse := (Tlv.get icbm.tlvs 0x0004).isSome
          ackrequested := (Tlv.get icbm.tlvs 0x0003).isSome } } := rfl
  rw [hflags]
  cases hget₃ : Tlv.get icbm.tlvs 0x0003 <;> cases hget₄ : Tlv.get icbm.tlvs 0x0004 <;>
    (rw [hget₃, hget₄] at hr; exact hr)

/-- There is a new message unless it is refused its memory. -/
theorem msgNew_bind {α : Type} {f : Option Msg → Sys α} {a : α × World} (hr : (Gnr.msgNew >>= f) w = .ok a) :
    ∃ w₁, Allocates w w₁ ∧ (f (some {}) w₁ = .ok a ∨ f none w₁ = .ok a) := by
  unfold Gnr.msgNew at hr
  rw [bind_assoc] at hr
  obtain ⟨b, w₁, hallocates, -, hr⟩ := mem_bind_allocates (Naf.malloc_plain _) hr
  refine ⟨w₁, hallocates, ?_⟩
  cases b with
  | none => exact .inr hr
  | some b => exact .inl hr

/-- What 0004/0006 reads off the payload. -/
def readoutgoing (sb : Sbuf) : Mem (Option (Bytes × Nat × CStr × List Tlv)) := do
  let (some ck, sb) ← sb.getraw msgcookielen | pure none
  let (chan, sb) ← sb.get16
  let (len, sb) ← sb.get8
  let (some destsn, sb) ← sb.getstr len | pure none
  let (tlvh, _) ← Tlv.parse sb
  pure (some (ck, chan, destsn, tlvh))

/-- What 0004/0007 reads off the payload. -/
def readincoming (sb : Sbuf) : Mem (Option (Bytes × Nat × Touserinfo × List Tlv)) := do
  let (some ck, sb) ← sb.getraw msgcookielen | pure none
  let (chan, sb) ← sb.get16
  let (some srcinfo, sb) ← touserinfoExtract sb | pure none
  let (tlvh, _) ← Tlv.parse sb
  pure (some (ck, chan, srcinfo, tlvh))

/-- What 0004/0007 reads off the payload: a cookie, channel 1, the user info and a chain. -/
def Readsincoming (h : Heap) (sb : Sbuf) (ck : Bytes) (chan : Nat) (srcinfo : Touserinfo) (tlvs : List Tlv) : Prop :=
  ∃ sb₁ sb₂ sb₃ sb₄, sb.getraw msgcookielen h = .ok ((some ck, sb₁), h) ∧
    sb₁.get16 h = .ok ((chan, sb₂), h) ∧ touserinfoExtract sb₂ h = .ok ((some srcinfo, sb₃), h) ∧
    Tlv.parse sb₃ h = .ok ((tlvs, sb₄), h)

/-- What 0004/0006 reads off the payload: a cookie, channel 1, a name and a chain. -/
def Readsoutgoing (h : Heap) (sb : Sbuf) (ck : Bytes) (chan : Nat) (destsn : CStr) (tlvs : List Tlv) : Prop :=
  ∃ sb₁ sb₂ len sb₃ sb₄ sb₅, sb.getraw msgcookielen h = .ok ((some ck, sb₁), h) ∧
    sb₁.get16 h = .ok ((chan, sb₂), h) ∧ sb₂.get8 h = .ok ((len, sb₃), h) ∧
    sb₃.getstr len h = .ok ((some destsn, sb₄), h) ∧ Tlv.parse sb₄ h = .ok ((tlvs, sb₅), h)

theorem touserinfoExtract_plain (sb : Sbuf) : Plain (touserinfoExtract sb) := by
  refine .bind (Naf.malloc_plain _) fun b => ?_
  cases b with
  | none => exact .pure _
  | some b =>
      refine .bind (Sbuf.get_plain _ _ _) fun (snlen, sb) => .bind (Sbuf.getstr_plain _ _) fun (sn, sb) => ?_
      cases sn with
      | none => exact .pure _
      | some sn =>
          refine .bind (Sbuf.get_plain _ _ _) fun (evil, sb) => .bind (Sbuf.get_plain _ _ _) fun (cnt, sb) => ?_
          exact .bind (Tlv.parseLimit_plain _ _) fun r => .pure _

theorem Readsincoming.reads {h : Heap} {sb : Sbuf} {ck : Bytes} {chan : Nat} {srcinfo : Touserinfo}
    (hreads : Readsincoming h sb ck chan srcinfo tlvs) :
    readincoming sb h = .ok (some (ck, chan, srcinfo, tlvs), h) := by
  obtain ⟨sb₁, sb₂, sb₃, sb₄, hck, hchan, hinfo, htlvs⟩ := hreads
  unfold readincoming
  rw [bind_of_ok hck]
  dsimp only
  rw [bind_of_ok hchan]
  dsimp only
  rw [bind_of_ok hinfo]
  dsimp only
  rw [bind_of_ok htlvs]
  rfl

theorem Readsoutgoing.reads {h : Heap} {sb : Sbuf} {ck : Bytes} {chan : Nat} {destsn : CStr}
    (hreads : Readsoutgoing h sb ck chan destsn tlvs) :
    readoutgoing sb h = .ok (some (ck, chan, destsn, tlvs), h) := by
  obtain ⟨sb₁, sb₂, len, sb₃, sb₄, sb₅, hck, hchan, hlen, hdest, htlvs⟩ := hreads
  unfold readoutgoing
  rw [bind_of_ok hck]
  dsimp only
  rw [bind_of_ok hchan]
  dsimp only
  rw [bind_of_ok hlen]
  dsimp only
  rw [bind_of_ok hdest]
  dsimp only
  rw [bind_of_ok htlvs]
  rfl

/-- The message of a server, for the user `destsn`. -/
def Icbm.incoming (id : Nat) (ck : Bytes) (destsn : CStr) (srcinfo : Touserinfo) (tlvs : List Tlv) : Icbm :=
  { id, ck, srcsn := srcinfo.sn, destsn, info := some srcinfo, tlvs }

/-- The message of a client, from the user `srcsn`. -/
def Icbm.outgoing (id : Nat) (ck : Bytes) (srcsn destsn : CStr) (tlvs : List Tlv) : Icbm :=
  { id, ck, srcsn, destsn, info := none, tlvs }

/-- What both handlers do once the message is there. -/
def relay (icbm : Icbm) (r : Int × Option CStr) (newname : CStr) : Sys (Int × Msg) := do
  assumeExternal newname
  Gnr.msgRoute handlers module (icbm.message r)

variable {cid : Nat} {snac : Snac}

/-- The message without the tag that was added last. -/
def untagged (gm : Msg) : Msg := { gm with taglist := gm.taglist.tail }

/-- What the handlers make of an ICBM: the message, or with too little memory the message
without the chain that is left. -/
def Icbm.Makes (icbm : Icbm) (w : World) (gm : Msg) : Prop :=
  ∃ r, icbm.Got w r ∧ (gm = icbm.message r ∨ w.env.heap.refuse ≠ [] ∧ gm = untagged (icbm.message r))

theorem Allocates.refuse_ne {w₁ : World} (h : Allocates w w₁) (hrefused : w₁.env.heap.refuse ≠ []) :
    w.env.heap.refuse ≠ [] := fun hwilling => hrefused (by rw [h.steady hwilling, hwilling])

theorem Icbm.Got.before {w₁ : World} {r : Int × Option CStr} (hallocates : Allocates w w₁) (hgot : icbm.Got w₁ r) :
    icbm.Got w r := by
  obtain ⟨w₂, r₀, h, hsecond, hextracted, hr⟩ := hgot
  exact ⟨w₂, r₀, h, hallocates.trans hsecond, hextracted, hr.imp_right fun h => ⟨hallocates.refuse_ne h.1, h.2⟩⟩

/-- With memory enough the message is the extractor's answer with all that was read. -/
theorem Icbm.Makes.willing (hmakes : icbm.Makes w gm) (hwilling : w.env.heap.refuse = []) :
    ∃ r, icbm.extracted w.env.heap = .ok (r, w.env.heap) ∧ gm = icbm.message r := by
  obtain ⟨r, ⟨w₁, r₀, h, hallocates, hextracted, hr⟩, hgm⟩ := hmakes
  rw [hallocates.eq hwilling] at hextracted
  obtain rfl := icbm.extracted_plain.steady hwilling hextracted
  rcases hr with rfl | ⟨hrefused, -⟩
  · rcases hgm with rfl | ⟨hrefused, -⟩
    · exact ⟨r, hextracted, rfl⟩
    · exact absurd hwilling hrefused
  · exact absurd hwilling hrefused

/-- The first two tags are added to a new message, unless one of them is refused its memory. -/
theorem origin_bind (icbm : Icbm) {α : Type} {f : Bool × Msg → Sys α} {a : α × World}
    (hr : (Gnr.msgTagAdd module { taglist := [hint "gnrmsg.snacid" 'I' (.snacid icbm.id)] }
      (lit "gnrmsg.oscarmsgcookie") 'V' (.oscarmsgcookie icbm.ck) >>= f) w = .ok a) :
    ∃ w₁, Allocates w w₁ ∧ (f (true, { taglist := icbm.origin }) w₁ = .ok a ∨
      f (false, { taglist := [hint "gnrmsg.snacid" 'I' (.snacid icbm.id)] }) w₁ = .ok a) := by
  obtain ⟨w₁, hallocates, hr⟩ := msgTagAdd_bind hr (by decide) (ispresent_none fun tag htag => by
    rw [List.mem_singleton.1 htag]
    exact (by decide : (lit "gnrmsg.snacid").take 64 ≠ lit "gnrmsg.oscarmsgcookie"))
  exact ⟨w₁, hallocates, hr.imp_right And.right⟩

/-- The user info is added, unless it is refused its memory. -/
theorem srcinfo_bind {α : Type} {srcinfo : Touserinfo} {r : Int × Option CStr} {f : Bool × Msg → Sys α}
    {a : α × World}
    (hr : (Gnr.msgTagAdd module (icbm.parsed r) (lit "gnrmsg.srcuserinfo") 'V' (.srcuserinfo srcinfo) >>= f) w =
      .ok a) :
    ∃ w₁, Allocates w w₁ ∧ (f (true, { icbm.parsed r with
      taglist := hint "gnrmsg.srcuserinfo" 'V' (.srcuserinfo srcinfo) :: (icbm.parsed r).taglist }) w₁ = .ok a ∨
      f (false, icbm.parsed r) w₁ = .ok a) := by
  obtain ⟨w₁, hallocates, hr⟩ := msgTagAdd_bind hr (by decide) (ispresent_none fun tag htag => by
    rcases Icbm.name_of_mem htag with hname | hname | hname <;> rw [hname] <;> decide)
  exact ⟨w₁, hallocates, hr.imp_right And.right⟩

/-- The chain that is left is added last, unless it is refused its memory. -/
theorem extra_bind (icbm : Icbm) {α : Type} {r : Int × Option CStr} {f : Bool × Msg → Sys α} {a : α × World}
    (hr : (Gnr.msgTagAdd module { icbm.parsed r with taglist := icbm.keptsrcinfo ++ (icbm.parsed r).taglist }
      (lit "gnrmsg.extraoscartlvs") 'V' (.extraoscartlvs icbm.others) >>= f) w = .ok a) :
    ∃ b w₁ gm, Allocates w w₁ ∧ (gm = icbm.message r ∨ w.env.heap.refuse ≠ [] ∧ gm = untagged (icbm.message r)) ∧
      f (b, gm) w₁ = .ok a := by
  obtain ⟨w₁, hallocates, hr | ⟨hrefused, hr⟩⟩ := msgTagAdd_bind hr (by decide) (ispresent_none fun tag htag => by
    rcases List.mem_append.1 htag with htag | htag
    · rw [Icbm.name_of_srcinfo htag]
      decide
    · rcases Icbm.name_of_mem htag with hname | hname | hname <;> rw [hname] <;> decide)
  · exact ⟨true, w₁, icbm.message r, hallocates, .inl rfl, hr⟩
  · exact ⟨false, w₁, untagged (icbm.message r), hallocates, .inr ⟨hrefused, rfl⟩, hr⟩

/-- What both handlers do with the message. -/
def relaymsg (gm : Msg) (newname : CStr) : Sys (Int × Msg) := do
  assumeExternal newname
  Gnr.msgRoute handlers module gm

/-- A message that 0004/0007 takes over was read off the SNAC and goes to the router. -/
theorem snachandler_0004_0007_digested (hr : snachandler_0004_0007 cid snac w = .ok (.digested, w')) :
    ∃ destsn ck srcinfo tlvs h w₁ gm a, (w.conn? cid).bind screennameOf = some destsn ∧
      readincoming snac.payload w.env.heap = .ok (some (ck, 0x0001, srcinfo, tlvs), h) ∧ Allocates w w₁ ∧
      (Icbm.incoming snac.id ck destsn srcinfo tlvs).Makes w gm ∧ relaymsg gm srcinfo.sn w₁ = .ok (a, w') := by
  unfold snachandler_0004_0007 at hr
  obtain ⟨destsn, w₁, hfetch, hr⟩ := bind_ok.1 hr
  obtain ⟨hfetch, -⟩ := fetchScreenname_ok hfetch
  cases hfetch
  rw [Option.bind_some] at hr
  cases hdestsn : (w.conn? cid).bind screennameOf with
  | none =>
      rw [hdestsn] at hr
      cases hr
  | some destsn =>
  rw [hdestsn] at hr
  obtain ⟨⟨ck, sb₁⟩, w₁, h₁, hck, hr⟩ := mem_bind_allocates (Sbuf.getraw_plain _ _) hr
  cases ck with
  | none => cases hr
  | some ck =>
  obtain ⟨⟨chan, sb₂⟩, w₂, h₂, hchan, hr⟩ := mem_bind_allocates (Sbuf.get_plain _ _ _) hr
  obtain ⟨⟨srcinfo, sb₃⟩, w₃, h₃, hinfo, hr⟩ := mem_bind_allocates (touserinfoExtract_plain _) hr
  cases srcinfo with
  | none => cases hr
  | some srcinfo =>
  obtain ⟨⟨tlvs, sb₄⟩, w₄, h₄, htlvs, hr⟩ := mem_bind_allocates (Tlv.parse_plain _) hr
  have hread : readincoming snac.payload w.env.heap = .ok (some (ck, chan, srcinfo, tlvs), w₄.env.heap) :=
    (bind_of_ok hck).trans ((bind_of_ok hchan).trans ((bind_of_ok hinfo).trans (bind_of_ok htlvs)))
  have hbefore := ((h₁.trans h₂).trans h₃).trans h₄
  dsimp only at hr
  obtain ⟨w₅, h₅, hr | hr⟩ := msgNew_bind hr
  · dsimp only at hr
    obtain ⟨w₆, h₆, hr | ⟨-, hr⟩⟩ := msgTagAdd_bind hr (by decide) rfl
    · dsimp only at hr
      obtain ⟨w₇, h₇, hr | hr⟩ := origin_bind (Icbm.incoming snac.id ck destsn srcinfo tlvs) hr
      · dsimp only at hr
        by_cases hone : chan = 0x0001
        · subst hone
          rw [if_neg (not_not.2 rfl)] at hr
          obtain ⟨r, w₈, h₈, hgot, hr⟩ := parsechan1_bind (Icbm.incoming snac.id ck destsn srcinfo tlvs) hr
          have hgot' := hgot.before (((hbefore.trans h₅).trans h₆).trans h₇)
          dsimp only at hr
          obtain ⟨w₉, h₉, hr | hr⟩ := srcinfo_bind hr
          · dsimp only at hr
            obtain ⟨b, w₁₀, gm, h₁₀, hgm, hr⟩ := extra_bind (Icbm.incoming snac.id ck destsn srcinfo tlvs) hr
            dsimp only at hr
            obtain ⟨_, w₁₁, hassume, hr⟩ := bind_ok.1 hr
            obtain ⟨a, w₁₂, hroute, hr⟩ := bind_ok.1 hr
            cases hr
            have hall := ((((hbefore.trans h₅).trans h₆).trans h₇).trans h₈).trans h₉
            exact ⟨destsn, ck, srcinfo, tlvs, _, w₁₀, gm, a, rfl, hread, hall.trans h₁₀,
              ⟨r, hgot', hgm.imp_right fun h => ⟨hall.refuse_ne h.1, h.2⟩⟩, bind_ok.2 ⟨_, _, hassume, hroute⟩⟩
          · cases hr
        · rw [if_pos hone] at hr
          cases hr
      · cases hr
    · cases hr
  · cases hr

/-- A message that 0004/0006 takes over was read off the SNAC and goes to the router. -/
theorem snachandler_0004_0006_digested (hr : snachandler_0004_0006 cid snac w = .ok (.digested, w')) :
    ∃ srcsn ck destsn tlvs h w₁ gm a,
      (((w.conn? cid).bind (·.endpoint)).bind w.conn?).bind screennameOf = some srcsn ∧
      readoutgoing snac.payload w.env.heap = .ok (some (ck, 0x0001, destsn, tlvs), h) ∧ Allocates w w₁ ∧
      (Icbm.outgoing snac.id ck srcsn destsn tlvs).Makes w gm ∧ relaymsg gm destsn w₁ = .ok (a, w') := by
  unfold snachandler_0004_0006 at hr
  obtain ⟨c, w₀, hread, hrest⟩ := bind_ok.1 hr
  obtain ⟨hc, rfl⟩ := Sys.conn_ok.1 hread
  clear hr
  obtain ⟨srcsn, w₁, hfetch, hr⟩ := bind_ok.1 hrest
  obtain ⟨hfetch, -⟩ := fetchScreenname_ok hfetch
  cases hfetch
  rw [hc, Option.bind_some]
  cases hsrcsn : (c.endpoint.bind w₀.conn?).bind screennameOf with
  | none =>
      rw [hsrcsn] at hr
      cases hr
  | some srcsn =>
  rw [hsrcsn] at hr
  obtain ⟨⟨ck, sb₁⟩, w₁, h₁, hck, hr⟩ := mem_bind_allocates (Sbuf.getraw_plain _ _) hr
  cases ck with
  | none => cases hr
  | some ck =>
  obtain ⟨⟨chan, sb₂⟩, w₂, h₂, hchan, hr⟩ := mem_bind_allocates (Sbuf.get_plain _ _ _) hr
  obtain ⟨⟨len, sb₃⟩, w₃, h₃, hlen, hr⟩ := mem_bind_allocates (Sbuf.get_plain _ _ _) hr
  obtain ⟨⟨destsn, sb₄⟩, w₄, h₄, hdestsn, hr⟩ := mem_bind_allocates (Sbuf.getstr_plain _ _) hr
  cases destsn with
  | none => cases hr
  | some destsn =>
  obtain ⟨⟨tlvs, sb₅⟩, w₅, h₅, htlvs, hr⟩ := mem_bind_allocates (Tlv.parse_plain _) hr
  -- what the handler reads is what the frame says, in the same order
  have hread : readoutgoing snac.payload w₀.env.heap = .ok (some (ck, chan, destsn, tlvs), w₅.env.heap) :=
    (bind_of_ok hck).trans ((bind_of_ok hchan).trans ((bind_of_ok hlen).trans ((bind_of_ok hdestsn).trans
      (bind_of_ok htlvs))))
  have hbefore := (((h₁.trans h₂).trans h₃).trans h₄).trans h₅
  dsimp only at hr
  obtain ⟨w₆, h₆, hr | hr⟩ := msgNew_bind hr
  · dsimp only at hr
    obtain ⟨w₇, h₇, hr | ⟨-, hr⟩⟩ := msgTagAdd_bind hr (by decide) rfl
    · dsimp only at hr
      obtain ⟨w₈, h₈, hr | hr⟩ := origin_bind (Icbm.outgoing snac.id ck srcsn destsn tlvs) hr
      · dsimp only at hr
        by_cases hone : chan = 0x0001
        · subst hone
          rw [if_neg (not_not.2 rfl)] at hr
          obtain ⟨r, w₉, h₉, hgot, hr⟩ := parsechan1_bind (Icbm.outgoing snac.id ck srcsn destsn tlvs) hr
          have hgot' := hgot.before (((hbefore.trans h₆).trans h₇).trans h₈)
          dsimp only at hr
          obtain ⟨b, w₁₀, gm, h₁₀, hgm, hr⟩ := extra_bind (Icbm.outgoing snac.id ck srcsn destsn tlvs) hr
          dsimp only at hr
          obtain ⟨_, w₁₁, hassume, hr⟩ := bind_ok.1 hr
          obtain ⟨a, w₁₂, hroute, hr⟩ := bind_ok.1 hr
          cases hr
          have hall := (((hbefore.trans h₆).trans h₇).trans h₈).trans h₉
          exact ⟨srcsn, ck, destsn, tlvs, _, w₁₀, gm, a, rfl, hread, hall.trans h₁₀,
            ⟨r, hgot', hgm.imp_right fun h => ⟨hall.refuse_ne h.1, h.2⟩⟩, bind_ok.2 ⟨_, _, hassume, hroute⟩⟩
        · rw [if_pos hone] at hr
          cases hr
      · cases hr
    · cases hr
  · cases hr

/-- With memory enough 0004/0007 relays what it has read. -/
theorem snachandler_0004_0007_willing (hwilling : w.env.heap.refuse = [])
    (hr : snachandler_0004_0007 cid snac w = .ok (.digested, w')) :
    ∃ destsn ck srcinfo tlvs h r a, (w.conn? cid).bind screennameOf = some destsn ∧
      readincoming snac.payload w.env.heap = .ok (some (ck, 0x0001, srcinfo, tlvs), h) ∧
      (Icbm.incoming snac.id ck destsn srcinfo tlvs).extracted w.env.heap = .ok (r, w.env.heap) ∧
      relay (Icbm.incoming snac.id ck destsn srcinfo tlvs) r srcinfo.sn w = .ok (a, w') := by
  obtain ⟨destsn, ck, srcinfo, tlvs, h, w₁, gm, a, hdestsn, hread, hallocates, hmakes, hrelay⟩ :=
    snachandler_0004_0007_digested hr
  obtain ⟨r, hextracted, rfl⟩ := hmakes.willing hwilling
  rw [hallocates.eq hwilling] at hrelay
  exact ⟨destsn, ck, srcinfo, tlvs, h, r, a, hdestsn, hread, hextracted, hrelay⟩

/-- With memory enough 0004/0006 relays what it has read. -/
theorem snachandler_0004_0006_willing (hwilling : w.env.heap.refuse = [])
    (hr : snachandler_0004_0006 cid snac w = .ok (.digested, w')) :
    ∃ srcsn ck destsn tlvs h r a,
      (((w.conn? cid).bind (·.endpoint)).bind w.conn?).bind screennameOf = some srcsn ∧
      readoutgoing snac.payload w.env.heap = .ok (some (ck, 0x0001, destsn, tlvs), h) ∧
      (Icbm.outgoing snac.id ck srcsn destsn tlvs).extracted w.env.heap = .ok (r, w.env.heap) ∧
      relay (Icbm.outgoing snac.id ck srcsn destsn tlvs) r destsn w = .ok (a, w') := by
  obtain ⟨srcsn, ck, destsn, tlvs, h, w₁, gm, a, hsrcsn, hread, hallocates, hmakes, hrelay⟩ :=
    snachandler_0004_0006_digested hr
  obtain ⟨r, hextracted, rfl⟩ := hmakes.willing hwilling
  rw [hallocates.eq hwilling] at hrelay
  exact ⟨srcsn, ck, destsn, tlvs, h, r, a, hsrcsn, hread, hextracted, hrelay⟩

/-! ## Relaying -/

/-- The TLV that marks an automatic response. -/
def Icbm.autotlvs (icbm : Icbm) : List Tlv :=
  if (Tlv.get icbm.tlvs 0x0004).isSome then [⟨0x0004, 0, none⟩] else []

/-- The TLV that asks for an acknowledgement. -/
def Icbm.acktlvs (icbm : Icbm) : List Tlv :=
  if (Tlv.get icbm.tlvs 0x0003).isSome then [⟨0x0003, 0, none⟩] else []

/-- A message is relayed by the way that it has once the name is known. -/
theorem relay_eq (icbm : Icbm) (r : Int × Option CStr) (newname : CStr) (hwilling : w.env.heap.refuse = []) :
    ∃ flags g, relay icbm r newname w = carry (wayOf (known w newname) icbm.srcsn icbm.destsn)
      (marked (icbm.message r) flags) { known w newname with gnr := g } := by
  unfold relay
  rw [bind_of_ok (assumeExternal_eq newname hwilling)]
  exact msgRoute_eq rfl rfl rfl rfl

/-- What is queued when the buffer of a SNAC has been filled, or that it is refused. -/
theorem queued_of_headed {sb sb' : Sbuf} {u : Bytes} {subtype id : Nat} {pieces : List Bytes} {e : Nat}
    {b : Bool} {h : Heap} {w₁ : World} (headed : Headed sb h (snachead 0x0004 subtype 0x0000 id) pieces)
    (happ : Naf.Sbuf.Appends sb u sb') (hr : sendsbufConsume (some e) sb' w₁ = .ok (b, w'))
    (hconns : w₁.conns = w.conns) (htrace : w₁.trace = w.trace) :
    ∃ d, w.conn? e = some d ∧ w'.trace = w.trace ++
      [if b then .queued e (queuedsnac d.nextseqnum 0x0004 subtype 0x0000 id (pieces.flatten ++ u))
        else .refused e] := by
  have hwritten := happ.written
  rw [headed.written, List.append_assoc] at hwritten
  obtain ⟨d, env, hd, -, rfl⟩ := sendsbufConsume_snac happ.ok hwritten hr
  refine ⟨d, ?_, ?_⟩
  · rw [← hd, World.conn?, World.conn?, hconns]
  · rw [← htrace]
    rfl

/-- The world that a relayed message is sent in has the memory and the connections of the one before. -/
theorem known_setGnr (w : World) (name : CStr) (g : Gnr) :
    ({ known w name with gnr := g } : World) = { w with gnr := g } := by
  unfold known
  split <;> rfl

/-- How a message is relayed to a client. -/
theorem relay_toclient (r : Int × Option CStr) {newname : CStr} {e : Option Nat}
    (hwilling : w.env.heap.refuse = []) (hck : icbm.ck.length ≤ msgcookielen)
    (hname : icbm.srcinfo.sn.length ≤ maxsnaclen)
    (hway : wayOf (known w newname) icbm.srcsn icbm.destsn = some (.incoming e)) :
    ∃ sb g gm', Headed sb w.env.heap (snachead 0x0004 0x0007 0x0000 (icbm.id ||| 0x80000000))
        (incominghead icbm.ck icbm.srcinfo) ∧
      relay icbm r newname w = (do
        let sb ← mem (Tlv.renderEach [icbm.srcinfo.tlvh] sb)
        let msg ← mem (icbm.relayedmsg r)
        let sb ← mem (Tlv.renderEach [msg, icbm.autotlvs, icbm.others] sb)
        let _ ← sendsbufConsume e sb
        pure (0, gm')) { w with gnr := g } := by
  obtain ⟨flags, g, hrelay⟩ := relay_eq icbm r newname hwilling
  have carries : Carries (marked (icbm.message r) flags) icbm.ck := Icbm.message_carries
  obtain ⟨sb, hheaded, hsend⟩ := sendincoming_eq (w := { w with gnr := g }) e carries hck
    (by rw [Icbm.srcinfoOf_message]; exact hname) hwilling
  rw [Icbm.snacidOf_message, Icbm.srcinfoOf_message] at hheaded
  rw [Icbm.msgtlvs_message, Icbm.srcinfoOf_message, Icbm.extratlvs_message] at hsend
  refine ⟨sb, g, unacked (marked (icbm.message r) flags), hheaded, ?_⟩
  rw [hrelay, hway, known_setGnr]
  refine (Prog.bind_congr_left hsend).trans ?_
  simp only [bind_assoc, pure_bind]
  rfl

/-- What is queued for a message that is relayed to a client. -/
theorem relay_incoming {r : Int × Option CStr} {newname : CStr} {a : Int × Msg} {e : Nat}
    (hwilling : w.env.heap.refuse = []) (hck : icbm.ck.length ≤ msgcookielen)
    (hname : icbm.srcinfo.sn.length ≤ maxsnaclen)
    (hway : wayOf (known w newname) icbm.srcsn icbm.destsn = some (.incoming (some e)))
    (hr : relay icbm r newname w = .ok (a, w')) :
    ∃ sb msg sb', Headed sb w.env.heap (snachead 0x0004 0x0007 0x0000 (icbm.id ||| 0x80000000))
        (incominghead icbm.ck icbm.srcinfo) ∧
      icbm.relayedmsg r w.env.heap = .ok (msg, w.env.heap) ∧
      Tlv.renderEach [icbm.srcinfo.tlvh, msg, icbm.autotlvs, icbm.others] sb w.env.heap =
        .ok (sb', w.env.heap) ∧
      ∀ u, Naf.Sbuf.Appends sb u sb' → ∃ (b : Bool) (d : Conn), w.conn? e = some d ∧ w'.trace = w.trace ++
        [if b then .queued e (queuedsnac d.nextseqnum 0x0004 0x0007 0x0000 (icbm.id ||| 0x80000000)
          ((incominghead icbm.ck icbm.srcinfo).flatten ++ u)) else .refused e] := by
  obtain ⟨sb, g, gm', hheaded, hrelay⟩ := relay_toclient r hwilling hck hname hway
  have hwilling' : ({ w with gnr := g } : World).env.heap.refuse = [] := hwilling
  rw [hrelay] at hr
  obtain ⟨sb₁, hinfo, hr⟩ := mem_bind_steady (Tlv.renderEach_plain _ _) hwilling' hr
  obtain ⟨msg, hmsg, hr⟩ := mem_bind_steady (Icbm.relayedmsg_plain _ _) hwilling' hr
  obtain ⟨sb₂, hrender, hr⟩ := mem_bind_steady (Tlv.renderEach_plain _ _) hwilling' hr
  obtain ⟨b, w₁, hsend, hr⟩ := bind_ok.1 hr
  cases pure_ok.1 hr
  refine ⟨sb, msg, sb₂, hheaded, hmsg, ?_, fun u happ => ⟨b, queued_of_headed hheaded happ hsend rfl rfl⟩⟩
  have happend := Tlv.renderEach_append [icbm.srcinfo.tlvh] [msg, icbm.autotlvs, icbm.others] sb
  exact (congrFun happend _).trans ((bind_of_ok hinfo).trans hrender)

end

end Timps.Oscar
