-- SUMMARY: RPC arguments as SOAP: the elements they are encoded in, and the document around them.
import Timps.Lmx.Tree
import Timps.Naf.Numerals
import Timps.Naf.Rpc

/-!
# SOAP documents

An argument is an element of its name, with its type as an attribute and its value as text. The
arguments stand in an element that names what is called, or what is returned, in the body of an
envelope.
-/

namespace Timps

open Naf (Block Heap Mem RpcArg decimal int lit)
open Prog (bind_of_ok)

namespace Lmx

/-- `lmx_add`: the new element, which the caller appends when it is complete. -/
def add (parent : Lmx) (name : CStr) : Mem (Option Lmx) :=
  match parent with
  | .cdata _ => pure none
  | .tag _ _ _ => new name

/-- A string in memory. -/
def stringBlock (s : CStr) : Block := (⟨s.length + 1, fun _ => 0⟩ : Block).lay 0 s

/-- `lmx_add_cdata`, where nobody looks at the result. The length is made an `int`. -/
def addCdata (x : Lmx) (s : CStr) : Mem Lmx := do
  match ← x.addCdataBound (stringBlock s) (int s.length) with
  | none => pure x
  | some x => pure x

/-- Attributes as they stand in a tree, the last added one first. -/
def listed (atts : List (CStr × CStr)) : List (CStr × Option CStr) := (atts.map fun a => (a.1, some a.2)).reverse

/-- `lmx_add_attrib` for one pair after the other, where nobody looks at the results: so does
`lmx_add_expatattribs`. -/
def addAttribs (x : Lmx) : List (CStr × CStr) → Mem Lmx
  | [] => pure x
  | (name, value) :: atts => do
      match ← x.addAttrib name (some value) with
      | none => addAttribs x atts
      | some x => addAttribs x atts

section

variable {h : Heap} {name : CStr} {attribs : List (CStr × Option CStr)} {children : List Lmx}

theorem new_of_willing (hh : h.refuse = []) : new name h = .ok (some (.tag name [] []), h) := by
  rw [new, bind_of_ok (Naf.malloc_of_willing hh)]
  dsimp only
  rw [bind_of_ok (Naf.strdup_of_willing hh)]
  rfl

theorem add_of_willing (rootname : CStr) (hh : h.refuse = []) :
    (tag name attribs children).add rootname h = .ok (some (.tag rootname [] []), h) := new_of_willing hh

/-- An empty text makes no child. -/
theorem addCdata_of_willing {s : CStr} (hh : h.refuse = []) (hzero : 0 ∉ s) (hlen : s.length < 2 ^ 31) :
    (tag name attribs children).addCdata s h =
      .ok (.tag name attribs (children ++ if s = [] then [] else [.cdata s]), h) := by
  rw [addCdata, Naf.int_natCast hlen]
  by_cases hs : s = []
  · subst hs
    rw [if_pos rfl, List.append_nil]
    rfl
  · rw [stringBlock, bind_of_ok (addCdataBound_eq name attribs children hh hzero hs (Nat.le_succ _)), if_neg hs]
    rfl

/-- Attributes are put in front, so the last one that is added comes first. -/
theorem addAttribs_of_willing {atts : List (CStr × CStr)} (hh : h.refuse = []) :
    (tag name attribs children).addAttribs atts h =
      .ok (.tag name (listed atts ++ attribs) children, h) := by
  induction atts generalizing attribs with
  | nil => rfl
  | cons a atts ih =>
      obtain ⟨n, v⟩ := a
      have hadd : (tag name attribs children).addAttrib n (some v) h =
          .ok (some (.tag name ((n, some v) :: attribs) children), h) := by
        rw [addAttrib, bind_of_ok (Naf.malloc_of_willing hh)]
        dsimp only
        rw [bind_of_ok (Naf.strdup_of_willing hh)]
        dsimp only
        rw [bind_of_ok (Naf.strdup_of_willing hh)]
        rfl
      rw [addAttribs, bind_of_ok hadd]
      dsimp only
      rw [ih, listed, listed, List.map_cons, List.reverse_cons, List.append_assoc, List.singleton_append]

end

end Lmx

namespace Httpd

/-! ## Encoding -/

mutual

/-- What `addargs` does to the element of an argument. -/
def addarg : RpcArg → Lmx → Mem Lmx
  | .array _ children, y => do
      let (n, y) ← addargs children y
      y.addAttribs [(lit "SOAP-ENC:arrayType", (lit "xsd:ur-type[" ++ decimal n ++ lit "]").take 63),
        (lit "xsi:type", lit "xsd:Array")]
  | .scalar _ scalar, y => do
      let y ← y.addCdata (decimal scalar)
      y.addAttribs [(lit "xsi:type", lit "xsd:int")]
  | .bool _ boolean, y => do
      let y ← y.addCdata (if boolean then lit "1" else lit "0")
      y.addAttribs [(lit "xsi:type", lit "xsd:boolean")]
  | .string _ string, y => do
      let y ← y.addCdata string
      y.addAttribs [(lit "xsi:type", lit "xsd:string")]
  | .generic _ _, y => pure y

/-- The number of arguments, and the element with one in it for each. -/
def addargs : List RpcArg → Lmx → Mem (Nat × Lmx)
  | [], x => pure (0, x)
  | arg :: args, x => do
      match ← x.add arg.name with
      | none => do
          let (n, x) ← addargs args x
          pure (n + 1, x)
      | some y => do
          let y ← addarg arg y
          let (n, x) ← addargs args (Lmx.append y x)
          pure (n + 1, x)

end

def envelopeattribs : List (CStr × CStr) :=
  [(lit "xmlns:xsi", lit "http://www.w3.org/1999/XMLSchema-instance"),
    (lit "xmlns:SOAP-ENC", lit "http://schemas.xmlsoap.org/soap/encoding/"),
    (lit "xmlns:SOAP-ENV", lit "http://schemas.xmlsoap.org/soap/envelope/"),
    (lit "xmlns:xsd", lit "http://www.w3.org/1999/XMLSchema"),
    (lit "SOAP-ENV:encodingStyle", lit "http://schemas.xmlsoap.org/soap/encoding/")]

/-- The tree that `sendsoapreturnargs` builds; `rootname` is `NAFRPCReturnValues` there, and
`module.method` in a request. -/
def soapenvelope (rootname : CStr) (args : List RpcArg) : Mem (Option Lmx) := do
  match ← Lmx.new (lit "SOAP-ENV:Envelope") with
  | none => pure none
  | some env => do
      let env ← env.addAttribs envelopeattribs
      match ← env.add (lit "SOAP-ENV:Body") with
      | none => pure none
      | some body => do
          match ← body.add rootname with
          | none => pure none
          | some root => do
              let (_, root) ← addargs args root
              pure (some (Lmx.append (Lmx.append root body) env))

/-- The serialised envelope. -/
def soapdata (rootname : CStr) (args : List RpcArg) : Mem (Option CStr) := do
  match ← soapenvelope rootname args with
  | none => pure none
  | some env => env.getString

/-! ## Documents -/

/-- Numbers that an `int` holds, booleans and strings. -/
def Plain : RpcArg → Prop
  | .scalar name n => 0 ∉ name ∧ n < 2147483648
  | .bool name _ => 0 ∉ name
  | .string name s => 0 ∉ name ∧ 0 ∉ s
  | .array _ _ => False
  | .generic _ _ => False

def argtype : RpcArg → CStr
  | .array _ _ => lit "xsd:Array"
  | .scalar _ _ => lit "xsd:int"
  | .bool _ _ => lit "xsd:boolean"
  | .string _ _ => lit "xsd:string"
  | .generic _ _ => []

/-- The text of an argument's element. -/
def argtext : RpcArg → CStr
  | .scalar _ n => decimal n
  | .bool _ b => if b then lit "1" else lit "0"
  | .string _ s => s
  | .array _ _ => []
  | .generic _ _ => []

def argelement (arg : RpcArg) : Lmx :=
  .tag arg.name [(lit "xsi:type", some (argtype arg))] (if argtext arg = [] then [] else [.cdata (argtext arg)])

/-- The envelope around the arguments' elements. -/
def document (rootname : CStr) (args : List RpcArg) : Lmx :=
  .tag (lit "SOAP-ENV:Envelope") (Lmx.listed envelopeattribs)
    [.tag (lit "SOAP-ENV:Body") [] [.tag rootname [] (args.map argelement)]]

theorem zero_notMem_decimal (n : Nat) : 0 ∉ decimal n :=
  fun hmem => absurd (Naf.digit_of_mem_decimal hmem) (by decide)

namespace Plain

variable {arg : RpcArg}

/-- A plain argument has no terminator in its name, nor in its text or its type. -/
theorem name (harg : Plain arg) : 0 ∉ arg.name := by
  cases arg with
  | scalar name n => exact harg.1
  | bool name b => exact harg
  | string name s => exact harg.1
  | array name children => exact harg.elim
  | generic name data => exact harg.elim

theorem text (harg : Plain arg) : 0 ∉ argtext arg := by
  cases arg with
  | scalar name n => exact zero_notMem_decimal n
  | bool name b =>
      rw [argtext]
      cases b <;> decide
  | string name s => exact harg.2
  | array name children => exact harg.elim
  | generic name data => exact harg.elim

theorem type (harg : Plain arg) : 0 ∉ argtype arg := by
  cases arg with
  | scalar name n => exact (by decide : 0 ∉ lit "xsd:int")
  | bool name b => exact (by decide : 0 ∉ lit "xsd:boolean")
  | string name s => exact (by decide : 0 ∉ lit "xsd:string")
  | array name children => exact harg.elim
  | generic name data => exact harg.elim

end Plain

section

variable {h : Heap} {rootname : CStr} {args : List RpcArg}

/-- With memory enough the element of an argument has its type and its text. -/
theorem addarg_plain {arg : RpcArg} (hh : h.refuse = []) (harg : Plain arg) (hlen : (argtext arg).length < 2 ^ 31) :
    addarg arg (.tag arg.name [] []) h = .ok (argelement arg, h) := by
  have htyped : ∀ children, (Lmx.tag arg.name [] children).addAttribs [(lit "xsi:type", argtype arg)] h =
      .ok (.tag arg.name [(lit "xsi:type", some (argtype arg))] children, h) := fun children =>
    Lmx.addAttribs_of_willing hh
  have htext := @Lmx.addCdata_of_willing h arg.name [] [] (argtext arg) hh harg.text hlen
  cases arg with
  | scalar name n =>
      rw [addarg]
      exact (bind_of_ok htext).trans (htyped _)
  | bool name b =>
      rw [addarg]
      exact (bind_of_ok htext).trans (htyped _)
  | string name s =>
      rw [addarg]
      exact (bind_of_ok htext).trans (htyped _)
  | array name children => exact harg.elim
  | generic name data => exact harg.elim

/-- The elements of the arguments stand behind the children of before, in order. -/
theorem addargs_plain {attribs : List (CStr × Option CStr)} {children : List Lmx} (hh : h.refuse = [])
    (hargs : ∀ arg ∈ args, Plain arg) (hlen : ∀ arg ∈ args, (argtext arg).length < 2 ^ 31) :
    addargs args (.tag rootname attribs children) h =
      .ok ((args.length, .tag rootname attribs (children ++ args.map argelement)), h) := by
  induction args generalizing children with
  | nil =>
      rw [addargs, List.map_nil, List.append_nil]
      rfl
  | cons arg args ih =>
      rw [addargs, bind_of_ok (Lmx.add_of_willing arg.name hh)]
      dsimp only
      rw [bind_of_ok (addarg_plain hh (hargs arg List.mem_cons_self) (hlen arg List.mem_cons_self)), Lmx.append,
        bind_of_ok (ih (fun a ha => hargs a (List.mem_cons_of_mem arg ha)) fun a ha =>
          hlen a (List.mem_cons_of_mem arg ha)), List.append_assoc]
      rfl

/-- With memory enough the envelope is the document. -/
theorem soapenvelope_plain (hh : h.refuse = []) (hargs : ∀ arg ∈ args, Plain arg)
    (hlen : ∀ arg ∈ args, (argtext arg).length < 2 ^ 31) :
    soapenvelope rootname args h = .ok (some (document rootname args), h) := by
  have hattribs := @Lmx.addAttribs_of_willing h (lit "SOAP-ENV:Envelope") [] [] envelopeattribs hh
  rw [soapenvelope, bind_of_ok (Lmx.new_of_willing hh)]
  dsimp only
  rw [bind_of_ok hattribs, bind_of_ok (Lmx.add_of_willing (lit "SOAP-ENV:Body") hh)]
  dsimp only
  rw [bind_of_ok (Lmx.add_of_willing rootname hh)]
  dsimp only
  rw [bind_of_ok (addargs_plain hh hargs hlen), List.append_nil]
  rfl

theorem zero_notMem_arguments (hargs : ∀ arg ∈ args, Plain arg) : 0 ∉ Lmx.serials (args.map argelement) := by
  induction args with
  | nil => exact List.not_mem_nil
  | cons arg args ih =>
      have harg := hargs arg List.mem_cons_self
      have hrest := ih fun a ha => hargs a (List.mem_cons_of_mem arg ha)
      have htext := Lmx.zero_notMem_encode harg.text
      rw [List.map_cons, Lmx.serials, argelement]
      split
      · simp [Lmx.serial, Lmx.attribText, Lmx.attribString, harg.name, harg.type, hrest, lit]
      · simp [Lmx.serial, Lmx.serials, Lmx.attribText, Lmx.attribString, harg.name, harg.type, hrest, htext, lit]

theorem zero_notMem_attribText {attribs : List (CStr × Option CStr)}
    (hattribs : ∀ a ∈ attribs, 0 ∉ a.1 ∧ 0 ∉ a.2.getD []) : 0 ∉ Lmx.attribText attribs := by
  induction attribs with
  | nil => exact List.not_mem_nil
  | cons a attribs ih =>
      obtain ⟨hname, hvalue⟩ := hattribs a List.mem_cons_self
      have hrest := ih fun b hb => hattribs b (List.mem_cons_of_mem a hb)
      rw [Lmx.attribText, Lmx.attribString]
      simp [hname, hvalue, hrest, lit]

/-- The document has no terminator in it, so it is a string. -/
theorem zero_notMem_document (hname : 0 ∉ rootname) (hargs : ∀ arg ∈ args, Plain arg) :
    0 ∉ (document rootname args).serial := by
  have hroot : 0 ∉ (Lmx.tag rootname [] (args.map argelement)).serial := by
    have harguments := zero_notMem_arguments hargs
    rw [Lmx.serial]
    split
    · simp [Lmx.attribText, hname, lit]
    · simp [Lmx.attribText, hname, harguments, lit]
  have hattribs : 0 ∉ Lmx.attribText (Lmx.listed envelopeattribs) :=
    zero_notMem_attribText (by decide +kernel)
  generalize hatts : Lmx.listed envelopeattribs = attribs at hattribs
  rw [document, hatts]
  generalize Lmx.tag rootname [] (args.map argelement) = root at hroot
  simp [Lmx.serial, Lmx.serials, Lmx.attribText, hattribs, hroot, lit]

/-- The text of each argument is in the document. -/
theorem length_argtext_le (rootname : CStr) {arg : RpcArg} (harg : arg ∈ args) :
    (argtext arg).length ≤ (document rootname args).serial.length := by
  have helement : (argtext arg).length ≤ (argelement arg).serial.length := by
    have hescaped := (Escape.reads_encode Lmx.marked_convs (argtext arg)).length_add_le Lmx.marked_convs
    rw [List.length_nil, Nat.add_zero] at hescaped
    rw [argelement]
    split
    · rename_i hnil
      rw [hnil]
      exact Nat.zero_le _
    · simp [Lmx.serial, Lmx.serials]
      omega
  have hserials : (argelement arg).serial.length ≤ (Lmx.serials (args.map argelement)).length :=
    Lmx.length_serial_le (List.mem_map_of_mem harg)
  have hroot : (Lmx.serials (args.map argelement)).length ≤
      (Lmx.tag rootname [] (args.map argelement)).serial.length := by
    rw [Lmx.serial, if_neg (by cases args with | nil => cases harg | cons _ _ => exact Bool.false_ne_true)]
    simp
    omega
  refine helement.trans (hserials.trans (hroot.trans ?_))
  rw [document]
  generalize Lmx.tag rootname [] (args.map argelement) = root
  simp [Lmx.serial, Lmx.serials]
  omega

/-- With memory for it, and an `int` for its length, the document is what the envelope is serialised as. -/
theorem soapdata_plain (hh : h.refuse = []) (hname : 0 ∉ rootname) (hargs : ∀ arg ∈ args, Plain arg)
    (hlen : (document rootname args).serial.length + 1 < 2 ^ 31) :
    soapdata rootname args h = .ok (some (document rootname args).serial, h) := by
  have htexts : ∀ arg ∈ args, (argtext arg).length < 2 ^ 31 := fun arg harg =>
    (length_argtext_le rootname harg).trans_lt (by omega)
  rw [soapdata, bind_of_ok (soapenvelope_plain hh hargs htexts)]
  dsimp only
  rw [Lmx.getString_eq (zero_notMem_document hname hargs) hlen, Naf.Heap.willing hh, Naf.Heap.next_of_willing hh]
  rfl

end

end Httpd
end Timps
