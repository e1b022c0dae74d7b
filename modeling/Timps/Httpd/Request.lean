-- SUMMARY: SOAP requests: the tree that is built from what the XML parser reports, and the arguments taken out of it.
import Timps.Httpd.Soap
import Mathlib.Data.List.ReduceOption

/-!
# SOAP requests

The XML parser reports where elements start and end, and the text between in pieces, with each line
end as a newline. At a character that XML does not have it stops. The handlers build a tree of
this, in which each piece is a child of its own. The arguments of the request are then read off
the children of the element that names the method.
-/

namespace Timps

open Escape (Reads Torn)
open Naf (Block Heap Mem RpcArg RpcReq cutAt decimal digits lit malloc strcaseeq strdup)
open Naf.Conn (atoi)
open Prog (bind_of_ok)

namespace Lmx

def isTag : Lmx → Bool
  | .tag _ _ _ => true
  | .cdata _ => false

def children : Lmx → List Lmx
  | .tag _ _ children => children
  | .cdata _ => []

def getName : Lmx → Option CStr
  | .tag name _ _ => some name
  | .cdata _ => none

/-- `lmx_get_tag` -/
def getTag (parent : Lmx) (tagname : CStr) : Option Lmx :=
  parent.children.find? fun x => x.getName.any fun name => strcaseeq name tagname

/-- `lmx_get_firsttagchild`, and `lmx_get_nexttagsibling` from there on -/
def tagchildren (x : Lmx) : List Lmx := x.children.filter isTag

def getAttrib (x : Lmx) (name : CStr) : Option CStr :=
  match x with
  | .tag _ attribs _ => (attribs.find? fun a => strcaseeq a.1 name).bind Prod.snd
  | .cdata _ => none

/-- Only the first piece of text is looked at. -/
def getCdata (x : Lmx) : Option CStr :=
  x.children.findSome? fun
    | .cdata s => some s
    | .tag _ _ _ => none

end Lmx

namespace Httpd

/-! ## The parser's reports -/

/-- A piece of text in the memory of the parser, and the bytes that follow it there. -/
structure Piece where
  text : CStr
  after : Bytes
  ne_nil : text ≠ []
  room : 6 ≤ after.length

def Piece.block (p : Piece) : Block := ⟨p.text.length + p.after.length, fun i => (p.text ++ p.after).getD i 0⟩

inductive Event where
  | startelement (name : CStr) (attribs : List (CStr × CStr))
  | endelement (name : CStr)
  | chardata (piece : Piece)

/-- `info->x`, and what it was added to, the innermost first. -/
structure Cursor where
  x : Lmx
  parents : List Lmx

/-- Without memory for the element the place in the tree is lost. -/
def startelement (info : Option Cursor) (name : CStr) (attribs : List (CStr × CStr)) : Mem (Option Cursor) :=
  match info with
  | some c => do
      match ← c.x.add name with
      | none => pure none
      | some nx => do
          let nx ← nx.addAttribs attribs
          pure (some ⟨nx, c.x :: c.parents⟩)
  | none =>
      if strcaseeq name (lit "SOAP-ENV:Envelope") then do
        match ← Lmx.new name with
        | none => pure none
        | some x => do
            let x ← x.addAttribs attribs
            pure (some ⟨x, []⟩)
      else pure none

/-- The outermost element is left where it is. -/
def endelement : Option Cursor → Option Cursor
  | some ⟨x, p :: parents⟩ => some ⟨Lmx.append x p, parents⟩
  | info => info

def chardata (info : Option Cursor) (piece : Piece) : Mem (Option Cursor) :=
  match info with
  | none => pure none
  | some c => do
      match ← c.x.addCdataBoundEncoded piece.block piece.text.length with
      | none => pure (some c)
      | some x => pure (some { c with x })

/-- The handlers for one event after the other. -/
def handle : List Event → Option Cursor → Mem (Option Cursor)
  | [], info => pure info
  | .startelement name attribs :: events, info => do
      let info ← startelement info name attribs
      handle events info
  | .endelement _ :: events, info => handle events (endelement info)
  | .chardata piece :: events, info => do
      let info ← chardata info piece
      handle events info

/-- `expat` is what `XML_Parse` reports of the data. -/
def parsesoaprequest (expat : CStr → List Event) (data : CStr) : Mem (Option Lmx) := do
  let info ← handle (expat data) none
  pure (info.map Cursor.x)

/-! ## The request -/

def createreq (soapname : CStr) : Mem (Option RpcReq) :=
  match cutAt 46 soapname with
  | none => pure none
  | some (module, meth) => do
      match ← malloc (module.length + 1) with
      | none => pure none
      | some _ => do
          match ← strdup meth with
          | none => pure none
          | some meth => RpcReq.new module meth

/-- The loop over the elements of the arguments. -/
def decodeargs : List Lmx → List RpcArg → Mem (List RpcArg)
  | [], inargs => pure inargs
  | parm :: parms, inargs => do
      let inargs ← (match parm.getName, parm.getAttrib (lit "xsi:type"), parm.getCdata with
        | some parmname, some parmtype, some data =>
            if parmtype = lit "xsd:string" then RpcArg.addString inargs parmname data
            else if parmtype = lit "xsd:int" then
              RpcArg.add inargs parmname fun name => .scalar name (atoi data % 2 ^ 64).toNat
            else if parmtype = lit "xsd:boolean" then
              RpcArg.add inargs parmname fun name => .bool name (atoi data == 0)
            else pure inargs
        | _, _, _ => pure inargs)
      decodeargs parms inargs

/-- The part of `handlenafrpc` up to the request that it issues. -/
def soaprequest (expat : CStr → List Event) (data : CStr) : Mem (Option RpcReq) := do
  let xreq ← parsesoaprequest expat data
  match xreq.bind fun x => x.getTag (lit "SOAP-ENV:Body") with
  | none => pure none
  | some envbody =>
      match envbody.tagchildren with
      | [] => pure none
      | func :: _ => do
          match ← createreq (func.getName.getD []) with
          | none => pure none
          | some req => do
              let inargs ← decodeargs func.tagchildren req.inargs
              pure (some { req with inargs })

/-! ## Reported documents -/

/-- The text with each line end as one newline. -/
def newlines : CStr → CStr
  | [] => []
  | 13 :: 10 :: s => 10 :: newlines s
  | c :: s => (if c = 13 then 10 else c) :: newlines s

/-- A byte behind the first one of a character. -/
def follows (c : UInt8) : Bool := 128 ≤ c && c ≤ 191

/-- UTF-8 of the characters that XML has: no control character but a tab and the line ends, no
surrogate, and not the last two before U+10000. -/
def wellformed : CStr → Bool
  | [] => true
  | c :: s =>
      if c < 128 then (32 ≤ c || c = 9 || c = 10 || c = 13) && wellformed s
      else match s with
        | [] => false
        | d :: s =>
            if c < 224 then 194 ≤ c && follows d && wellformed s
            else match s with
              | [] => false
              | e :: s =>
                  if c < 240 then follows d && follows e && !(c = 224 && d < 160) && !(c = 237 && 160 ≤ d) &&
                    !(c = 239 && d = 191 && 190 ≤ e) && wellformed s
                  else match s with
                    | [] => false
                    | f :: s =>
                        c ≤ 244 && follows d && follows e && follows f && !(c = 240 && d < 144) &&
                          !(c = 244 && 144 ≤ d) && wellformed s

/-- The pieces make up the text of the argument, as far as the parser reads it. -/
def Splits (arg : RpcArg) (pieces : List Piece) : Prop :=
  if wellformed (argtext arg) then pieces.flatMap Piece.text = newlines (argtext arg)
  else pieces.flatMap Piece.text <+: newlines (argtext arg)

/-- The reports of the arguments' elements, with these pieces of their texts, and of what is behind
them. In a text that is not well formed they end. -/
def argevents : List RpcArg → List (List Piece) → List Event → List Event
  | arg :: args, pieces :: pss, rest =>
      .startelement arg.name [(lit "xsi:type", argtype arg)] :: (pieces.map .chardata ++
        if wellformed (argtext arg) then .endelement arg.name :: argevents args pss rest else [])
  | _, _, rest => rest

/-- The reports of the document. -/
def reported (rootname : CStr) (args : List RpcArg) (pss : List (List Piece)) : List Event :=
  .startelement (lit "SOAP-ENV:Envelope") envelopeattribs.reverse :: .startelement (lit "SOAP-ENV:Body") [] ::
    .startelement rootname [] :: argevents args pss
      [.endelement rootname, .endelement (lit "SOAP-ENV:Body"), .endelement (lit "SOAP-ENV:Envelope")]

/-- What comes back as it was: a number in one piece, and a string in one piece in which there
is no code and no carriage return, and that ends in no code. -/
def Survives : RpcArg → List Piece → Prop
  | .scalar _ _, pieces => pieces.length = 1
  | .string _ s, pieces => wellformed s ∧ 13 ∉ s ∧
      ∃ p, pieces = [p] ∧ (∀ e ∈ Lmx.convs, ¬e.2 <:+: s) ∧ Lmx.Settled p.block p.text.length
  | _, _ => False

theorem mem_newlines {c : UInt8} {s : CStr} (hc : c ∈ newlines s) : c = 10 ∨ c ∈ s ∧ c ≠ 13 := by
  induction s using newlines.induct with
  | case1 => cases hc
  | case2 s ih =>
      rw [newlines] at hc
      rcases List.mem_cons.1 hc with hc | hc
      · exact .inl hc
      · exact (ih hc).imp_right fun h => ⟨List.mem_cons_of_mem _ (List.mem_cons_of_mem _ h.1), h.2⟩
  | case3 c' s hnot ih =>
      rw [newlines] at hc
      · rcases List.mem_cons.1 hc with hc | hc
        · by_cases hcr : c' = 13
          · rw [if_pos hcr] at hc
            exact .inl hc
          · rw [if_neg hcr] at hc
            exact .inr ⟨hc ▸ List.mem_cons_self, hc ▸ hcr⟩
        · exact (ih hc).imp_right fun h => ⟨List.mem_cons_of_mem _ h.1, h.2⟩
      · exact hnot

theorem length_newlines_le (s : CStr) : (newlines s).length ≤ s.length := by
  induction s using newlines.induct with
  | case1 => exact Nat.le_refl _
  | case2 s ih =>
      rw [newlines, List.length_cons, List.length_cons, List.length_cons]
      omega
  | case3 c s hnot ih =>
      rw [newlines, List.length_cons, List.length_cons]
      · omega
      · exact hnot

/-- Without a carriage return a text is reported as it is. -/
theorem newlines_eq_self {s : CStr} (hs : 13 ∉ s) : newlines s = s := by
  induction s using newlines.induct with
  | case1 => rfl
  | case2 s _ => exact absurd List.mem_cons_self hs
  | case3 c s hnot ih =>
      have hc : c ≠ 13 := fun hc => hs (hc ▸ List.mem_cons_self)
      rw [newlines, if_neg hc, ih fun h => hs (List.mem_cons_of_mem c h)]
      exact hnot

theorem zero_notMem_newlines {s : CStr} (hs : 0 ∉ s) : 0 ∉ newlines s := by
  intro hmem
  rcases mem_newlines hmem with h | h
  · cases h
  · exact hs h.1

/-! ## Building the tree -/

/-- What a piece is decoded to. -/
def Decodes (p : Piece) (t : CStr) : Prop :=
  ∃ d r, Reads Lmx.convs p.text d r ∧ t = Lmx.pieceText p.block (p.text.length - r.length) d r

namespace Piece

variable {p : Piece} {t : CStr}

theorem bytes_block (p : Piece) : p.block.bytes 0 p.text.length = p.text := by
  refine List.ext_getElem (Block.length_bytes _ _ _) fun i hi hi' => ?_
  rw [Block.getElem_bytes, Nat.zero_add]
  exact (List.getD_append _ _ _ _ hi').trans (List.getD_eq_getElem _ _ hi')

theorem exists_decodes (p : Piece) : ∃ t, Decodes p t := by
  obtain ⟨d, r, hreads⟩ := Escape.exists_reads Lmx.marked_convs p.text
  exact ⟨_, d, r, hreads, rfl⟩

/-- Decoding does not make a text longer. -/
theorem length_le (h : Decodes p t) : t.length ≤ p.text.length := by
  obtain ⟨d, r, hreads, rfl⟩ := h
  have hle := hreads.length_add_le Lmx.marked_convs
  have htorn := Lmx.tornCount_le r
  rw [Lmx.length_pieceText]
  omega

theorem eq_text_iff (h : Decodes p t) :
    t = p.text ↔ (∀ e ∈ Lmx.convs, ¬e.2 <:+: p.text) ∧ Lmx.Settled p.block p.text.length := by
  obtain ⟨d, r, hreads, rfl⟩ := h
  have hbytes := p.bytes_block
  have hself := Lmx.pieceText_eq_self (b := p.block) (n := p.text.length) (d := d) (r := r)
    (by rw [hbytes]; exact hreads)
  rw [hbytes] at hself
  exact hself

theorem notMem_of_decodes {c : UInt8} (h : Decodes p t) (hfree : ∀ e ∈ Lmx.convs, e.1 ≠ c) (hc : c ∉ p.text) :
    c ∉ t := by
  obtain ⟨d, r, hreads, rfl⟩ := h
  exact Lmx.notMem_pieceText hfree hreads hc

/-- Without the mark a text is left alone. -/
theorem eq_text_of_notMem (h : Decodes p t) (hmark : 38 ∉ p.text) : t = p.text := by
  refine (eq_text_iff h).2 ⟨fun e he hin => ?_, fun r hsuffix htorn => ?_⟩
  · obtain ⟨l, hl, -⟩ := Lmx.marked_convs.codes e he
    rw [hl] at hin
    exact hmark (hin.subset List.mem_cons_self)
  · obtain ⟨l, rfl, -⟩ := htorn.eq_cons Lmx.marked_convs
    rw [p.bytes_block] at hsuffix
    exact absurd (hsuffix.subset List.mem_cons_self) hmark

end Piece

section

variable {h : Heap}

/-- A new element is worked on inside the one that it was found in. -/
theorem handle_start (hh : h.refuse = []) (name n : CStr) (attribs : List (CStr × Option CStr))
    (children parents : List Lmx) (atts : List (CStr × CStr)) (rest : List Event) :
    handle (.startelement n atts :: rest) (some ⟨.tag name attribs children, parents⟩) h =
      handle rest (some ⟨.tag n (Lmx.listed atts) [], .tag name attribs children :: parents⟩) h := by
  have hatts := @Lmx.addAttribs_of_willing h n [] [] atts hh
  rw [List.append_nil] at hatts
  have hstart : startelement (some ⟨.tag name attribs children, parents⟩) n atts h =
      .ok (some ⟨.tag n (Lmx.listed atts) [], .tag name attribs children :: parents⟩, h) := by
    rw [startelement, bind_of_ok (Lmx.add_of_willing n hh)]
    dsimp only
    rw [bind_of_ok hatts]
    rfl
  rw [handle, bind_of_ok hstart]

/-- Each piece is added to the element that it is in. -/
theorem handle_pieces (hh : h.refuse = []) {pieces : List Piece} {ts : List CStr}
    (hdecodes : List.Forall₂ Decodes pieces ts) (hzero : ∀ p ∈ pieces, 0 ∉ p.text) (name : CStr)
    (attribs : List (CStr × Option CStr)) (children parents : List Lmx) (rest : List Event) :
    handle (pieces.map .chardata ++ rest) (some ⟨.tag name attribs children, parents⟩) h =
      handle rest (some ⟨.tag name attribs (children ++ ts.map .cdata), parents⟩) h := by
  induction hdecodes generalizing children with
  | nil => rw [List.map_nil, List.map_nil, List.append_nil, List.nil_append]
  | @cons p t pieces ts hdecode _ ih =>
      have hbytes := p.bytes_block
      obtain ⟨d, r, hreads, rfl⟩ := hdecode
      have hadd := @Lmx.addCdataBoundEncoded_eq name attribs children p.block p.text.length h d r hh
        (List.length_pos_iff.2 p.ne_nil) (by rw [hbytes]; exact hzero p List.mem_cons_self)
        (Nat.add_le_add_left p.room _) (by rw [hbytes]; exact hreads)
      have hchar : chardata (some ⟨.tag name attribs children, parents⟩) p h =
          .ok (some ⟨.tag name attribs (children ++ [.cdata (Lmx.pieceText p.block (p.text.length - r.length) d r)]),
            parents⟩, h) := by
        rw [chardata, bind_of_ok hadd]
        rfl
      rw [List.map_cons, List.cons_append, handle, bind_of_ok hchar,
        ih (fun q hq => hzero q (List.mem_cons_of_mem p hq)), List.append_assoc]
      rfl

/-- The element of an argument as it is built. -/
def received (arg : RpcArg) (ts : List CStr) : Lmx :=
  .tag arg.name [(lit "xsi:type", some (argtype arg))] (ts.map .cdata)

variable {args : List RpcArg} {pss : List (List Piece)}

theorem exists_decodes (pieces : List Piece) : ∃ ts, List.Forall₂ Decodes pieces ts := by
  induction pieces with
  | nil => exact ⟨[], .nil⟩
  | cons p pieces ih =>
      obtain ⟨t, hdecode⟩ := p.exists_decodes
      obtain ⟨ts, hall⟩ := ih
      exact ⟨t :: ts, .cons hdecode hall⟩

/-- The pieces of a string have no terminator in them. -/
theorem zero_notMem_piece {arg : RpcArg} {pieces : List Piece} (hsplit : Splits arg pieces) (harg : Plain arg) :
    ∀ p ∈ pieces, 0 ∉ p.text := by
  intro p hp hmem
  have hall : 0 ∈ pieces.flatMap Piece.text := List.mem_flatMap.2 ⟨p, hp, hmem⟩
  refine zero_notMem_newlines harg.text ?_
  unfold Splits at hsplit
  split at hsplit
  · exact hsplit ▸ hall
  · exact hsplit.subset hall

/-- Of texts that are well formed the arguments' elements are built, one behind the other. -/
theorem handle_arguments (hh : h.refuse = []) (hsplits : List.Forall₂ Splits args pss)
    (hargs : ∀ arg ∈ args, Plain arg) (hwell : ∀ arg ∈ args, wellformed (argtext arg)) :
    ∃ tss, List.Forall₂ (List.Forall₂ Decodes) pss tss ∧
      ∀ rootname attribs children parents rest,
        handle (argevents args pss rest) (some ⟨.tag rootname attribs children, parents⟩) h =
          handle rest (some ⟨.tag rootname attribs (children ++ List.zipWith received args tss), parents⟩) h := by
  induction hsplits with
  | nil =>
      refine ⟨[], .nil, fun rootname attribs children parents rest => ?_⟩
      rw [List.zipWith_nil_left, List.append_nil, argevents]
      exact fun _ _ _ _ h => nomatch h
  | @cons arg pieces args pss hsplit _ ih =>
      obtain ⟨ts, hall⟩ := exists_decodes pieces
      obtain ⟨tss, halls, hrest⟩ := ih (fun a ha => hargs a (List.mem_cons_of_mem arg ha)) fun a ha =>
        hwell a (List.mem_cons_of_mem arg ha)
      refine ⟨ts :: tss, .cons hall halls, fun rootname attribs children parents rest => ?_⟩
      rw [argevents, if_pos (hwell arg List.mem_cons_self), handle_start hh,
        handle_pieces hh hall (zero_notMem_piece hsplit (hargs arg List.mem_cons_self)), handle, endelement,
        Lmx.append, hrest, List.append_assoc]
      rfl

/-- At a text that is not well formed the handlers are left in its element. -/
theorem handle_illformed (hh : h.refuse = []) (hsplits : List.Forall₂ Splits args pss)
    (hargs : ∀ arg ∈ args, Plain arg) (hill : ∃ arg ∈ args, ¬wellformed (argtext arg)) (rootname : CStr)
    (attribs : List (CStr × Option CStr)) (children parents : List Lmx) (rest : List Event) :
    ∃ (name : CStr) (atts : List (CStr × Option CStr)) (ts : List CStr) (parents' : List Lmx),
      handle (argevents args pss rest) (some ⟨.tag rootname attribs children, parents⟩) h =
        .ok (some ⟨.tag name atts (ts.map .cdata), parents'⟩, h) := by
  induction hsplits generalizing children with
  | nil =>
      obtain ⟨arg, harg, -⟩ := hill
      cases harg
  | @cons arg pieces args pss hsplit _ ih =>
      obtain ⟨ts, hall⟩ := exists_decodes pieces
      have hpieces := handle_pieces hh hall (zero_notMem_piece hsplit (hargs arg List.mem_cons_self))
      rw [argevents, handle_start hh, hpieces]
      by_cases hwell : wellformed (argtext arg)
      · have hill' : ∃ a ∈ args, ¬wellformed (argtext a) := by
          obtain ⟨a, ha, hbad⟩ := hill
          rcases List.mem_cons.1 ha with rfl | ha
          · exact absurd hwell hbad
          · exact ⟨a, ha, hbad⟩
        rw [if_pos hwell, handle, endelement, Lmx.append]
        exact ih (fun a ha => hargs a (List.mem_cons_of_mem arg ha)) hill' _
      · rw [if_neg hwell]
        exact ⟨_, _, ts, _, rfl⟩

/-- The outer elements of a document are entered. -/
theorem parsesoaprequest_reported (hh : h.refuse = []) {expat : CStr → List Event} {data : CStr}
    (hexpat : expat data = reported rootname args pss) :
    parsesoaprequest expat data h =
      (handle (argevents args pss
          [.endelement rootname, .endelement (lit "SOAP-ENV:Body"), .endelement (lit "SOAP-ENV:Envelope")])
        (some ⟨.tag rootname [] [], [.tag (lit "SOAP-ENV:Body") [] [],
          .tag (lit "SOAP-ENV:Envelope") (Lmx.listed envelopeattribs.reverse) []]⟩) >>= fun info =>
        pure (info.map Cursor.x)) h := by
  have hstart : startelement none (lit "SOAP-ENV:Envelope") envelopeattribs.reverse h =
      .ok (some ⟨.tag (lit "SOAP-ENV:Envelope") (Lmx.listed envelopeattribs.reverse) [], []⟩, h) := by
    have hatts := @Lmx.addAttribs_of_willing h (lit "SOAP-ENV:Envelope") [] [] envelopeattribs.reverse hh
    rw [List.append_nil] at hatts
    rw [startelement, if_pos (by decide), bind_of_ok (Lmx.new_of_willing hh)]
    dsimp only
    rw [bind_of_ok hatts]
    rfl
  have hrun : ∀ events, handle (.startelement (lit "SOAP-ENV:Envelope") envelopeattribs.reverse ::
      .startelement (lit "SOAP-ENV:Body") [] :: .startelement rootname [] :: events) none h =
        handle events (some ⟨.tag rootname [] [], [.tag (lit "SOAP-ENV:Body") [] [],
          .tag (lit "SOAP-ENV:Envelope") (Lmx.listed envelopeattribs.reverse) []]⟩) h := by
    intro events
    rw [handle, bind_of_ok hstart, handle_start hh, handle_start hh]
    rfl
  rw [parsesoaprequest, hexpat, reported]
  exact Prog.bind_congr_left (hrun _)

/-! ## Taking the arguments out -/

/-- The argument that is made of an element with these texts. -/
def decoded (arg : RpcArg) (ts : List CStr) : Option RpcArg :=
  ts.head?.bind fun t => match arg with
    | .scalar name _ => some (.scalar name (atoi t % 2 ^ 64).toNat)
    | .bool name _ => some (.bool name (atoi t == 0))
    | .string name _ => some (.string name t)
    | .array _ _ => none
    | .generic _ _ => none

theorem getCdata_received (arg : RpcArg) (ts : List CStr) : (received arg ts).getCdata = ts.head? := by
  cases ts <;> rfl

theorem decodeargs_received (hh : h.refuse = []) (hargs : ∀ arg ∈ args, Plain arg) (tss : List (List CStr))
    (inargs : List RpcArg) :
    decodeargs (List.zipWith received args tss) inargs h =
      .ok (inargs ++ (List.zipWith decoded args tss).reduceOption, h) := by
  induction args generalizing tss inargs with
  | nil => exact congrArg (fun l => Except.ok (l, h)) (List.append_nil inargs).symm
  | cons arg args ih =>
      cases tss with
      | nil => exact congrArg (fun l => Except.ok (l, h)) (List.append_nil inargs).symm
      | cons ts tss =>
          have harg := hargs arg List.mem_cons_self
          have hrest := ih (fun a ha => hargs a (List.mem_cons_of_mem arg ha)) tss
          have hname : (received arg ts).getName = some arg.name := rfl
          have htype : (received arg ts).getAttrib (lit "xsi:type") = some (argtype arg) := rfl
          rw [List.zipWith_cons_cons, List.zipWith_cons_cons, decodeargs, hname, htype, getCdata_received]
          cases ts with
          | nil =>
              refine (bind_of_ok rfl).trans ((hrest inargs).trans ?_)
              rw [decoded, List.head?_nil, Option.bind_none, List.reduceOption_cons_of_none]
          | cons t ts =>
              have hsome : ∀ a, decoded arg (t :: ts) = some a →
                  inargs ++ [a] ++ (List.zipWith decoded args tss).reduceOption =
                    inargs ++ (decoded arg (t :: ts) :: List.zipWith decoded args tss).reduceOption := by
                intro a ha
                rw [ha, List.reduceOption_cons_of_some, List.append_assoc, List.singleton_append]
              rw [List.head?_cons]
              cases arg with
              | scalar name n =>
                  refine (bind_of_ok (RpcArg.add_of_willing hh)).trans ((hrest _).trans ?_)
                  exact congrArg (fun l => Except.ok (l, h)) (hsome _ rfl)
              | bool name b =>
                  refine (bind_of_ok (RpcArg.add_of_willing hh)).trans ((hrest _).trans ?_)
                  exact congrArg (fun l => Except.ok (l, h)) (hsome _ rfl)
              | string name s =>
                  refine (bind_of_ok (RpcArg.addString_of_willing hh)).trans ((hrest _).trans ?_)
                  exact congrArg (fun l => Except.ok (l, h)) (hsome _ rfl)
              | array name children => exact harg.elim
              | generic name data => exact harg.elim

/-- Nothing is lost and nothing is changed just when each argument is made again. -/
theorem reduceOption_decoded_eq {tss : List (List CStr)} (hlen : tss.length = args.length) :
    (List.zipWith decoded args tss).reduceOption = args ↔
      List.Forall₂ (fun arg ts => decoded arg ts = some arg) args tss := by
  induction args generalizing tss with
  | nil =>
      obtain rfl := List.eq_nil_of_length_eq_zero hlen
      exact ⟨fun _ => .nil, fun _ => rfl⟩
  | cons arg args ih =>
      cases tss with
      | nil => cases hlen
      | cons ts tss =>
          have hlen := Nat.succ.inj hlen
          rw [List.zipWith_cons_cons, List.forall₂_cons, ← ih hlen]
          cases hdecoded : decoded arg ts with
          | none =>
              have hle := List.reduceOption_length_le (List.zipWith decoded args tss)
              rw [List.length_zipWith] at hle
              rw [List.reduceOption_cons_of_none]
              refine ⟨fun heq => ?_, fun h => by cases h.1⟩
              rw [heq, List.length_cons] at hle
              omega
          | some a => rw [List.reduceOption_cons_of_some, List.cons.injEq, Option.some.injEq]

/-! ## What survives -/

theorem atoi_of_digits {s : CStr} (hne : s ≠ []) (hs : ∀ c ∈ s, Naf.Digit c) (hint : digits s < 2 ^ 31) :
    atoi s = digits s := by
  have hread := Naf.atoi_append hne hs (t := []) (fun c hc => nomatch hc) hint
  rwa [List.append_nil] at hread

/-- The pieces of an argument make up its text, if nothing in it ends a line. -/
theorem flatMap_of_splits {arg : RpcArg} {pieces : List Piece} (hsplit : Splits arg pieces)
    (hwell : wellformed (argtext arg)) (hcr : 13 ∉ argtext arg) : pieces.flatMap Piece.text = argtext arg := by
  rw [Splits, if_pos hwell, newlines_eq_self hcr] at hsplit
  exact hsplit

theorem wellformed_of_digits {s : CStr} (hs : ∀ c ∈ s, Naf.Digit c) : wellformed s ∧ 13 ∉ s := by
  refine ⟨?_, fun hmem => absurd (hs 13 hmem) (by decide)⟩
  induction s with
  | nil => rfl
  | cons c s ih =>
      obtain ⟨hlow, hhigh⟩ := hs c List.mem_cons_self
      have hascii : c < 128 := UInt8.lt_of_le_of_lt hhigh (by decide)
      have hprint : (32 : UInt8) ≤ c := UInt8.le_trans (by decide) hlow
      rw [wellformed.eq_def]
      dsimp only
      rw [if_pos hascii, ih fun a ha => hs a (List.mem_cons_of_mem c ha)]
      simp [hprint]

/-- A number comes back when it was reported in one piece, since a part of it is a smaller number. -/
theorem scalar_survives {name : CStr} {n : Nat} {pieces : List Piece} {ts : List CStr} (hn : n < 2147483648)
    (hsplit : Splits (.scalar name n) pieces) (hdecodes : List.Forall₂ Decodes pieces ts) :
    decoded (.scalar name n) ts = some (.scalar name n) ↔ Survives (.scalar name n) pieces := by
  have hplain := wellformed_of_digits fun c hc => Naf.digit_of_mem_decimal (n := n) hc
  have hsplit := flatMap_of_splits hsplit hplain.1 hplain.2
  cases hdecodes with
  | nil => exact absurd hsplit.symm (Naf.decimal_ne_nil n)
  | @cons p t pieces ts hdecode _ =>
      have hsplit : p.text ++ pieces.flatMap Piece.text = decimal n := hsplit
      have hdigits : ∀ c ∈ p.text, Naf.Digit c := fun c hc =>
        Naf.digit_of_mem_decimal (n := n) (by rw [← hsplit]; exact List.mem_append_left _ hc)
      obtain rfl := Piece.eq_text_of_notMem hdecode fun hmem => absurd (hdigits 38 hmem) (by decide)
      have hle : digits p.text ≤ n := Naf.digits_le_of_append hsplit
      have hread : decoded (.scalar name n) (p.text :: ts) =
          some (.scalar name ((digits p.text : Int) % 2 ^ 64).toNat) := by
        rw [decoded, List.head?_cons, Option.bind_some, atoi_of_digits p.ne_nil hdigits (by omega)]
      rw [hread, Option.some.injEq, RpcArg.scalar.injEq, Survives]
      cases pieces with
      | nil =>
          rw [List.flatMap_nil, List.append_nil] at hsplit
          rw [hsplit, Naf.digits_decimal]
          exact ⟨fun _ => rfl, fun _ => ⟨rfl, by omega⟩⟩
      | cons q pieces =>
          have hne : (q :: pieces).flatMap Piece.text ≠ [] := by
            rw [List.flatMap_cons]
            exact List.append_ne_nil_of_left_ne_nil q.ne_nil _
          have hlt := Naf.digits_lt_of_append hsplit p.ne_nil hne
          constructor
          · rintro ⟨-, heq⟩
            omega
          · intro hlen
            cases hlen

/-- A boolean comes back as the other one. -/
theorem bool_inverted {name : CStr} {b : Bool} {pieces : List Piece} {ts : List CStr}
    (hsplit : Splits (.bool name b) pieces) (hdecodes : List.Forall₂ Decodes pieces ts) :
    decoded (.bool name b) ts = some (.bool name !b) := by
  have hdigits : ∀ c ∈ argtext (.bool name b), Naf.Digit c := by
    intro c hc
    cases b with
    | false =>
        have hc : c = 48 := List.eq_of_mem_singleton hc
        rw [hc]
        decide
    | true =>
        have hc : c = 49 := List.eq_of_mem_singleton hc
        rw [hc]
        decide
  have hplain := wellformed_of_digits hdigits
  have hsplit := flatMap_of_splits hsplit hplain.1 hplain.2
  cases hdecodes with
  | nil => cases b <;> cases hsplit
  | @cons p t pieces ts hdecode _ =>
      have hsplit : p.text ++ pieces.flatMap Piece.text = [if b then 49 else 48] := by
        cases b <;> exact hsplit
      have htext : p.text = [if b then 49 else 48] := by
        rcases List.append_eq_singleton_iff.1 hsplit with ⟨hnil, -⟩ | ⟨htext, -⟩
        · exact absurd hnil p.ne_nil
        · exact htext
      have hmark : 38 ∉ p.text := by
        rw [htext]
        cases b <;> decide
      obtain rfl := Piece.eq_text_of_notMem hdecode hmark
      rw [decoded, List.head?_cons, Option.bind_some, htext]
      cases b <;> rfl

/-- A string comes back when it is not empty, was reported in one piece and reads the same decoded. -/
theorem string_survives {name s : CStr} {pieces : List Piece} {ts : List CStr} (hwell : wellformed s)
    (hsplit : Splits (.string name s) pieces) (hdecodes : List.Forall₂ Decodes pieces ts) :
    decoded (.string name s) ts = some (.string name s) ↔ Survives (.string name s) pieces := by
  have hsplit : pieces.flatMap Piece.text = newlines s := (if_pos hwell).mp hsplit
  have hle := length_newlines_le s
  cases hdecodes with
  | nil =>
      refine ⟨fun h => (nomatch h), ?_⟩
      rintro ⟨-, -, p, hp, -⟩
      cases hp
  | @cons p t pieces ts hdecode _ =>
      have hsplit : p.text ++ pieces.flatMap Piece.text = newlines s := hsplit
      have hread : decoded (.string name s) (t :: ts) = some (.string name t) := rfl
      rw [hread, Option.some.injEq, RpcArg.string.injEq, Survives]
      cases pieces with
      | nil =>
          rw [List.flatMap_nil, List.append_nil] at hsplit
          constructor
          · rintro ⟨-, rfl⟩
            -- no carriage return was reported, and the decoder makes none
            have hcr : 13 ∉ t := Piece.notMem_of_decodes hdecode (by decide) fun hmem => by
              rw [hsplit] at hmem
              rcases mem_newlines hmem with h | h
              · cases h
              · exact h.2 rfl
            rw [newlines_eq_self hcr] at hsplit
            obtain ⟨hplain, hsettled⟩ := (Piece.eq_text_iff hdecode).1 hsplit.symm
            exact ⟨hwell, hcr, p, rfl, hsplit ▸ hplain, hsettled⟩
          · rintro ⟨-, hcr, q, hq, hplain, hsettled⟩
            cases hq
            rw [newlines_eq_self hcr] at hsplit
            exact ⟨rfl, ((Piece.eq_text_iff hdecode).2 ⟨hsplit ▸ hplain, hsettled⟩).trans hsplit⟩
      | cons q pieces =>
          constructor
          · rintro ⟨-, heq⟩
            have hshort := Piece.length_le hdecode
            have hpos := List.length_pos_iff.2 q.ne_nil
            have hlen := congrArg List.length hsplit
            rw [List.length_append, List.flatMap_cons, List.length_append] at hlen
            rw [heq] at hshort
            omega
          · rintro ⟨-, -, r, hr, -⟩
            cases hr

theorem decoded_eq_iff {arg : RpcArg} {pieces : List Piece} {ts : List CStr} (harg : Plain arg)
    (hwell : wellformed (argtext arg)) (hsplit : Splits arg pieces) (hdecodes : List.Forall₂ Decodes pieces ts) :
    decoded arg ts = some arg ↔ Survives arg pieces := by
  cases arg with
  | scalar name n => exact scalar_survives harg.2 hsplit hdecodes
  | bool name b =>
      rw [bool_inverted hsplit hdecodes, Option.some.injEq, RpcArg.bool.injEq]
      exact ⟨fun h => absurd h.2 (by cases b <;> decide), False.elim⟩
  | string name s => exact string_survives hwell hsplit hdecodes
  | array name children => exact harg.elim
  | generic name data => exact harg.elim

theorem forall_survives_iff {tss : List (List CStr)} (hargs : ∀ arg ∈ args, Plain arg)
    (hwell : ∀ arg ∈ args, wellformed (argtext arg)) (hsplits : List.Forall₂ Splits args pss)
    (hdecodes : List.Forall₂ (List.Forall₂ Decodes) pss tss) :
    List.Forall₂ (fun arg ts => decoded arg ts = some arg) args tss ↔ List.Forall₂ Survives args pss := by
  induction hsplits generalizing tss with
  | nil =>
      cases hdecodes
      exact ⟨fun _ => .nil, fun _ => .nil⟩
  | @cons arg pieces args pss hsplit _ ih =>
      cases hdecodes with
      | cons hdecode hrest =>
          rw [List.forall₂_cons, List.forall₂_cons,
            decoded_eq_iff (hargs arg List.mem_cons_self) (hwell arg List.mem_cons_self) hsplit hdecode,
            ih (fun a ha => hargs a (List.mem_cons_of_mem arg ha))
              (fun a ha => hwell a (List.mem_cons_of_mem arg ha)) hrest]

/-- What survives is well formed. -/
theorem Survives.wellformed {arg : RpcArg} {pieces : List Piece} (hsurvives : Survives arg pieces) :
    wellformed (argtext arg) := by
  cases arg with
  | scalar name n => exact (wellformed_of_digits fun c hc => Naf.digit_of_mem_decimal (n := n) hc).1
  | string name s => exact hsurvives.1
  | bool name b => exact hsurvives.elim
  | array name children => exact hsurvives.elim
  | generic name data => exact hsurvives.elim

theorem not_survives_of_illformed (hill : ∃ arg ∈ args, ¬wellformed (argtext arg)) :
    ¬List.Forall₂ Survives args pss := by
  intro hall
  obtain ⟨arg, harg, hbad⟩ := hill
  induction hall with
  | nil => cases harg
  | cons hsurvives _ ih =>
      rcases List.mem_cons.1 harg with rfl | harg
      · exact hbad hsurvives.wellformed
      · exact ih harg

theorem filter_received (args : List RpcArg) (tss : List (List CStr)) :
    (List.zipWith received args tss).filter Lmx.isTag = List.zipWith received args tss := by
  induction args generalizing tss with
  | nil => rfl
  | cons arg args ih =>
      cases tss with
      | nil => rfl
      | cons ts tss => rw [List.zipWith_cons_cons, List.filter_cons_of_pos rfl, ih]

/-- The request for a document whose texts are well formed. -/
theorem soaprequest_wellformed {expat : CStr → List Event} {data m f : CStr} (hh : h.refuse = [])
    (hcut : cutAt 46 rootname = some (m, f)) (hargs : ∀ arg ∈ args, Plain arg)
    (hwell : ∀ arg ∈ args, wellformed (argtext arg)) (hsplits : List.Forall₂ Splits args pss)
    (hexpat : expat data = reported rootname args pss) :
    ∃ tss, List.Forall₂ (List.Forall₂ Decodes) pss tss ∧
      soaprequest expat data h = .ok (some ⟨m, f, (List.zipWith decoded args tss).reduceOption⟩, h) := by
  obtain ⟨tss, hdecodes, hhandle⟩ := handle_arguments hh hsplits hargs hwell
  refine ⟨tss, hdecodes, ?_⟩
  have htags := filter_received args tss
  have hdecoded := decodeargs_received hh hargs tss []
  have hparse := parsesoaprequest_reported hh hexpat
  rw [Prog.bind_congr_left (hhandle _ _ _ _ _)] at hparse
  generalize List.zipWith received args tss = l at hparse htags hdecoded
  have hreq : createreq rootname h = .ok (some ⟨m, f, []⟩, h) := by
    rw [createreq, hcut]
    dsimp only
    rw [bind_of_ok (Naf.malloc_of_willing hh)]
    dsimp only
    rw [bind_of_ok (Naf.strdup_of_willing hh)]
    exact RpcReq.new_of_willing hh
  have henvelope : parsesoaprequest expat data h =
      .ok (some (.tag (lit "SOAP-ENV:Envelope") (Lmx.listed envelopeattribs.reverse)
        [.tag (lit "SOAP-ENV:Body") [] [.tag rootname [] l]]), h) := hparse
  rw [soaprequest, bind_of_ok henvelope]
  have hbody : (Lmx.tag (lit "SOAP-ENV:Envelope") (Lmx.listed envelopeattribs.reverse)
      [.tag (lit "SOAP-ENV:Body") [] [.tag rootname [] l]]).getTag (lit "SOAP-ENV:Body") =
        some (.tag (lit "SOAP-ENV:Body") [] [.tag rootname [] l]) := rfl
  rw [Option.bind_some, hbody]
  have hfunc : (Lmx.tag (lit "SOAP-ENV:Body") [] [.tag rootname [] l]).tagchildren = [.tag rootname [] l] := rfl
  have hparms : (Lmx.tag rootname [] l).tagchildren = l := htags
  dsimp only
  rw [hfunc]
  dsimp only
  rw [Lmx.getName, Option.getD_some, bind_of_ok hreq]
  dsimp only
  rw [hparms, bind_of_ok hdecoded]
  rfl

theorem getTag_cdata (name tagname : CStr) (attribs : List (CStr × Option CStr)) (ts : List CStr) :
    (Lmx.tag name attribs (ts.map .cdata)).getTag tagname = none := by
  rw [Lmx.getTag, List.find?_eq_none]
  intro x hx
  obtain ⟨t, -, rfl⟩ := List.mem_map.1 hx
  exact Bool.false_ne_true

/-- No request is made of a document in which a text is not well formed. -/
theorem soaprequest_illformed {expat : CStr → List Event} {data : CStr} (hh : h.refuse = [])
    (hargs : ∀ arg ∈ args, Plain arg) (hill : ∃ arg ∈ args, ¬wellformed (argtext arg))
    (hsplits : List.Forall₂ Splits args pss) (hexpat : expat data = reported rootname args pss) :
    soaprequest expat data h = .ok (none, h) := by
  obtain ⟨name, atts, ts, parents, hhandle⟩ := handle_illformed hh hsplits hargs hill rootname [] []
    [.tag (lit "SOAP-ENV:Body") [] [], .tag (lit "SOAP-ENV:Envelope") (Lmx.listed envelopeattribs.reverse) []]
    [.endelement rootname, .endelement (lit "SOAP-ENV:Body"), .endelement (lit "SOAP-ENV:Envelope")]
  have hparse := parsesoaprequest_reported hh hexpat
  rw [bind_of_ok hhandle] at hparse
  have hinner : parsesoaprequest expat data h = .ok (some (.tag name atts (ts.map .cdata)), h) := hparse
  rw [soaprequest, bind_of_ok hinner, Option.bind_some, getTag_cdata]
  rfl

/-- The arguments of a request come back just when each one survives the pieces it is reported in. -/
theorem args_survive {expat : CStr → List Event} {m f : CStr} (hh : h.refuse = []) (hname : 0 ∉ rootname)
    (hcut : cutAt 46 rootname = some (m, f)) (hargs : ∀ arg ∈ args, Plain arg)
    (hlen : (document rootname args).serial.length < 2147483647) (hsplits : List.Forall₂ Splits args pss)
    (hexpat : expat (document rootname args).serial = reported rootname args pss) :
    ∃ data req, soapdata rootname args h = .ok (some data, h) ∧ soaprequest expat data h = .ok (req, h) ∧
      (req = some ⟨m, f, args⟩ ↔ List.Forall₂ Survives args pss) := by
  have hdata := soapdata_plain hh hname hargs (by omega)
  by_cases hwell : ∀ arg ∈ args, wellformed (argtext arg)
  · obtain ⟨tss, hdecodes, hrequest⟩ := soaprequest_wellformed hh hcut hargs hwell hsplits hexpat
    refine ⟨_, _, hdata, hrequest, ?_⟩
    rw [Option.some.injEq, RpcReq.mk.injEq, ← forall_survives_iff hargs hwell hsplits hdecodes,
      ← reduceOption_decoded_eq (hdecodes.length_eq.symm.trans hsplits.length_eq.symm)]
    exact ⟨fun heq => heq.2.2, fun heq => ⟨rfl, rfl, heq⟩⟩
  · have hill : ∃ arg ∈ args, ¬wellformed (argtext arg) := by simpa using hwell
    refine ⟨_, _, hdata, soaprequest_illformed hh hargs hill hsplits hexpat, ?_⟩
    exact ⟨fun heq => (nomatch heq), fun hall => absurd hall (not_survives_of_illformed hill)⟩

/-- `1`, as the parser holds it. -/
def one : Piece := ⟨lit "1", lit "</a></", by decide, by decide⟩

/-- A true boolean in one piece is decoded as a false one. -/
theorem args_survive_boolean :
    ∃ data, soapdata (lit "m.f") [.bool (lit "a") true] .zeroed = .ok (some data, .zeroed) ∧
      soaprequest (fun _ => reported (lit "m.f") [.bool (lit "a") true] [[one]]) data .zeroed =
        .ok (some ⟨lit "m", lit "f", [.bool (lit "a") false]⟩, .zeroed) := by
  have hplain : ∀ arg ∈ [RpcArg.bool (lit "a") true], Plain arg := by
    intro arg harg
    obtain rfl := List.mem_singleton.1 harg
    exact (by decide : 0 ∉ lit "a")
  exact ⟨_, soapdata_plain rfl (by decide) hplain (by decide +kernel), rfl⟩

/-- The pieces of `a<b`: an entity is reported by itself, from elsewhere in memory. -/
def lesspieces : List Piece :=
  [⟨lit "a", lit "&lt;b</b>", by decide, by decide⟩, ⟨lit "<", [0, 0, 0, 0, 0, 0], by decide, by decide⟩,
    ⟨lit "b", lit "</b></", by decide, by decide⟩]

theorem args_survive_pair :
    ∃ data req, soapdata (lit "m.f") [.scalar (lit "a") 1, .string (lit "b") (lit "a<b")] .zeroed =
        .ok (some data, .zeroed) ∧
      soaprequest (fun _ => reported (lit "m.f") [.scalar (lit "a") 1, .string (lit "b") (lit "a<b")]
        [[one], lesspieces]) data .zeroed = .ok (req, .zeroed) ∧
      (req = some ⟨lit "m", lit "f", [.scalar (lit "a") 1, .string (lit "b") (lit "a<b")]⟩ ↔
        List.Forall₂ Survives [.scalar (lit "a") 1, .string (lit "b") (lit "a<b")] [[one], lesspieces]) := by
  have hplain : ∀ arg ∈ [RpcArg.scalar (lit "a") 1, .string (lit "b") (lit "a<b")], Plain arg := by
    intro arg harg
    simp only [List.mem_cons, List.not_mem_nil, or_false] at harg
    rcases harg with rfl | rfl
    · exact ⟨by decide, by decide⟩
    · exact ⟨by decide, by decide⟩
  exact args_survive rfl (by decide) rfl hplain (by decide +kernel) (.cons rfl (.cons rfl .nil)) rfl

end

end Httpd
end Timps
