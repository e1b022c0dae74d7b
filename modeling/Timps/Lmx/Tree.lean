-- SUMMARY: XML trees of libmx: building, measuring and serialising them.
import Timps.Lmx.Cdata

/-!
# XML trees

`lmx_t` without its pointers: an element has a name, attributes and children, and anything
else is character data. The length of the serialised form is computed first and the form
itself is written in a second walk, piece by piece, each piece by an `snprintf` into what is
left of the buffer. Lengths and counts are `int`s: a form that is too long for one has a wrong
length, and is not written whole.
-/

namespace Timps

open Escape (encode)
open Naf (Block Heap Mem cstring int int_add_int lit malloc snprintf snprintf_of_room strdup)
open Prog (bind_of_error bind_of_ok)

inductive Lmx where
  | tag (name : CStr) (attribs : List (CStr × Option CStr)) (children : List Lmx)
  | cdata (s : CStr)

namespace Lmx

/-! ## Building -/

/-- `lmx__newtag`, which is all of `lmx_new` -/
def new (name : CStr) : Mem (Option Lmx) := do
  -- sizeof(lmx_t)
  match ← malloc 56 with
  | none => pure none
  | some _ => do
      match ← strdup name with
      | none => pure none
      | some name => pure (some (.tag name [] []))

/-- `lmx__newcdata`: a terminator is kept behind the data. -/
def newcdata (cdata : Block) (cdatalen : Nat) : Mem (Option Lmx) := do
  match ← malloc 56 with
  | none => pure none
  | some _ => do
      match ← malloc (cdatalen + 1) with
      | none => pure none
      | some buf => do
          let buf ← buf.store 0 (← cdata.load 0 cdatalen)
          let buf ← buf.store cdatalen [0]
          pure (some (.cdata (cstring (buf.bytes 0 (cdatalen + 1)))))

/-- `lmx__append` -/
def append (x : Lmx) : Lmx → Lmx
  | .tag name attribs children => .tag name attribs (children ++ [x])
  | .cdata s => .cdata s

/-- A `none` is -1. -/
def addCdataBound (lmx : Lmx) (cdata : Block) (cdatalen : Int) : Mem (Option Lmx) :=
  match lmx with
  | .cdata _ => pure none
  | .tag name attribs children =>
      if cdatalen ≤ 0 then pure none
      else do
        match ← newcdata cdata cdatalen.toNat with
        | none => pure none
        | some x => pure (some (append x (.tag name attribs children)))

def addAttrib (lmx : Lmx) (name : CStr) (value : Option CStr) : Mem (Option Lmx) :=
  match lmx with
  | .cdata _ => pure none
  | .tag tagname attribs children => do
      -- sizeof(lmx_attrib_t)
      match ← malloc 24 with
      | none => pure none
      | some _ => do
          match ← strdup name with
          | none => pure none
          | some name =>
              match value with
              | none => pure (some (.tag tagname ((name, none) :: attribs) children))
              | some value => do
                  match ← strdup value with
                  | none => pure none
                  | some value => pure (some (.tag tagname ((name, some value) :: attribs) children))

/-- The piece is decoded into a buffer of the length that was counted. -/
def addCdataBoundEncoded (lmx : Lmx) (cdata : Block) (cdatalen : Nat) : Mem (Option Lmx) := do
  let buflen ← cdatastrDecodedstrlen cdata 0 cdatalen
  match ← malloc (buflen + 1) with
  | none => pure none
  | some buf => do
      let (_, buf) ← cdatastrDecode cdata buf 0 buflen 0 cdatalen
      lmx.addCdataBound buf buflen

/-! ## Serialising -/

def attribGetrenderedlen : List (CStr × Option CStr) → Int
  | [] => 0
  | (name, value) :: attribs =>
      int (1 + name.length + 1 + 1 + (match value with | some value => value.length | none => 0) + 1 +
        attribGetrenderedlen attribs)

/-- The text of one attribute: a space, the name, and the value in quotes. -/
def attribString (name : CStr) (value : Option CStr) : CStr :=
  lit " " ++ name ++ lit "='" ++ value.getD [] ++ lit "'"

mutual

def getrenderedlen : Lmx → Int
  | .tag name attribs children =>
      let n := int (1 + name.length + 1 + attribGetrenderedlen attribs)
      -- the `<tag/>` short-hand
      if children.isEmpty then int (n + 1)
      else int (n + getrenderedlens children + (1 + 1 + name.length + 1))
  | .cdata s => cdatastrStrlen s

def getrenderedlens : List Lmx → Int
  | [] => 0
  | x :: l => int (getrenderedlen x + getrenderedlens l)

end

/-- Where a form is written: what is left of the buffer from `off` on, and the number of
characters so far. -/
structure Out where
  b : Block
  off : Nat
  buflen : Int
  m : Int

namespace Out

/-- `buf += n; buflen -= n; m += n`, after `n` characters went into the buffer. A pointer in front
of the buffer is none. -/
def advance (o : Out) (r : Int × Block) : Mem Out :=
  if o.off + r.1 < 0 then Prog.fault .outOfBounds
  else pure ⟨r.2, (o.off + r.1).toNat, int (o.buflen - r.1), int (o.m + r.1)⟩

/-- `snprintf`, which has -1 for a number of characters that is no `int` -/
def print (o : Out) (s : CStr) : Mem Out := do
  let (n, b) ← snprintf o.b o.off o.buflen s
  o.advance (if n < 2 ^ 31 then n else -1, b)

/-- `lmxattrib__render` -/
def attribs : List (CStr × Option CStr) → Out → Mem Out
  | [], o => pure o
  | (name, value) :: l, o => do
      let o ← o.print (attribString name value)
      attribs l o

end Out

mutual

def render : Lmx → Block → Nat → Int → Mem (Int × Block)
  | .tag name attribs children, b, off, buflen => do
      let o ← Out.print ⟨b, off, buflen, 0⟩ (lit "<" ++ name)
      let r ← Out.attribs attribs { o with m := 0 }
      let o ← o.advance (r.m, r.b)
      if children.isEmpty then do
        let o ← o.print (lit "/>")
        pure (o.m, o.b)
      else do
        let o ← o.print (lit ">")
        let o ← renders children o
        let o ← o.print (lit "</" ++ name ++ lit ">")
        pure (o.m, o.b)
  | .cdata s, b, off, buflen => cdatastrPutstr b off buflen s

/-- The loop over the children. -/
def renders : List Lmx → Out → Mem Out
  | [], o => pure o
  | x :: l, o => do
      let r ← render x o.b o.off o.buflen
      let o ← o.advance r
      renders l o

end

def getString (lmx : Lmx) : Mem (Option CStr) := do
  let buflen := int (lmx.getrenderedlen + 1)
  let buf ← malloc (buflen % 2 ^ 64).toNat
  -- a negative length is a `size_t` of more than there can be
  match buf.filter fun _ => 0 ≤ buflen with
  | none => pure none
  | some buf => do
      let (_, buf) ← lmx.render buf 0 buflen
      pure (some (cstring (buf.bytes 0 buf.size)))

/-! ## The serialised form -/

def attribText : List (CStr × Option CStr) → CStr
  | [] => []
  | (name, value) :: attribs => attribString name value ++ attribText attribs

mutual

def serial : Lmx → CStr
  | .tag name attribs children =>
      lit "<" ++ name ++ attribText attribs ++
        if children.isEmpty then lit "/>" else lit ">" ++ serials children ++ (lit "</" ++ name ++ lit ">")
  | .cdata s => encode convs s

def serials : List Lmx → CStr
  | [] => []
  | x :: l => serial x ++ serials l

end

theorem length_serial_le {x : Lmx} {l : List Lmx} (hx : x ∈ l) : x.serial.length ≤ (serials l).length := by
  induction l with
  | nil => cases hx
  | cons y l ih =>
      rw [serials, List.length_append]
      rcases List.mem_cons.1 hx with rfl | hx
      · exact Nat.le_add_right _ _
      · exact Nat.le_trans (ih hx) (Nat.le_add_left _ _)

/-- The lengths are right as far as an `int` goes. -/
theorem attribGetrenderedlen_eq (attribs : List (CStr × Option CStr)) :
    attribGetrenderedlen attribs = int (attribText attribs).length := by
  induction attribs with
  | nil => rfl
  | cons a attribs ih =>
      obtain ⟨name, value⟩ := a
      cases value with
      | none =>
          rw [attribGetrenderedlen, ih, int_add_int]
          congr 1
          simp [attribText, attribString, lit]
          omega
      | some value =>
          rw [attribGetrenderedlen, ih, int_add_int]
          congr 1
          simp [attribText, attribString, lit]
          omega

theorem int_int_add (n m : Int) : int (int n + m) = int (n + m) := Int.bmod_add_bmod

mutual

theorem getrenderedlen_eq : ∀ x : Lmx, x.getrenderedlen = int x.serial.length
  | .tag name attribs children => by
      have hattribs := attribGetrenderedlen_eq attribs
      have hchildren := getrenderedlens_eq children
      rw [getrenderedlen, serial, hattribs, int_add_int]
      cases children with
      | nil =>
          rw [List.isEmpty_nil, if_pos rfl, if_pos rfl, int_int_add]
          congr 1
          simp [lit]
          omega
      | cons x l =>
          rw [List.isEmpty_cons, if_neg Bool.false_ne_true, if_neg Bool.false_ne_true, hchildren, Int.add_assoc,
            int_int_add, Int.add_left_comm, int_int_add]
          congr 1
          simp [lit]
          omega
  | .cdata s => cdatastrStrlen_eq s

theorem getrenderedlens_eq : ∀ l : List Lmx, getrenderedlens l = int (serials l).length
  | [] => rfl
  | x :: l => by
      rw [getrenderedlens, serials, List.length_append, getrenderedlen_eq x, getrenderedlens_eq l, int_add_int,
        int_int_add, Int.natCast_add]

end

theorem getrenderedlen_of_lt {x : Lmx} (hlen : x.serial.length < 2 ^ 31) : x.getrenderedlen = x.serial.length := by
  rw [getrenderedlen_eq, Naf.int_natCast hlen]

namespace Out

variable {b : Block} {off : Nat} {buflen : Int}

/-- A buffer in which `s` stood already, when `t` was written behind it. -/
def laid (b : Block) (off : Nat) (s : CStr) (buflen : Int) (t : CStr) : Out :=
  ⟨b.lay off (s ++ t), off + (s ++ t).length, buflen - t.length, t.length⟩

theorem advance_laid (b : Block) (off : Nat) (s t u : CStr) (h : Heap) (hint : buflen < 2 ^ 31)
    (hroom : ((t ++ u).length : Int) < buflen) :
    (laid b off s buflen t).advance (u.length, b.lay off (s ++ (t ++ u))) h =
      .ok (laid b off s buflen (t ++ u), h) := by
  rw [List.length_append] at hroom
  have hoff : (((off + (s ++ t).length : Nat) : Int) + u.length).toNat = off + (s ++ (t ++ u)).length := by
    simp only [List.length_append]
    omega
  have hleft : int (buflen - t.length - u.length) = buflen - (t ++ u).length := by
    rw [Naf.int_of_lt (by omega) (by omega), List.length_append]
    omega
  have hsum : int ((t.length : Int) + u.length) = (t ++ u).length := by
    rw [Naf.int_of_lt (by omega) (by omega), List.length_append]
    rfl
  rw [advance, laid, laid]
  dsimp only
  rw [if_neg (by omega), hoff, hleft, hsum]
  rfl

/-- With room for it a text goes on behind what was written. -/
theorem print_laid (b : Block) (off : Nat) (s t u : CStr) (h : Heap) (hint : buflen < 2 ^ 31)
    (hroom : ((t ++ u).length : Int) < buflen) (hfits : off + (s ++ (t ++ u)).length + 1 ≤ b.size) :
    (laid b off s buflen t).print u h = .ok (laid b off s buflen (t ++ u), h) := by
  have hadvance := advance_laid b off s t u h hint hroom
  simp only [List.length_append] at hroom hfits
  have hprint := snprintf_of_room (h := h) (b.lay off (s ++ t)) (off + (s ++ t).length) (buflen - t.length) u
    (by omega) (by rw [Block.size_lay, List.length_append]; omega)
  rw [Block.lay_lay, List.append_assoc] at hprint
  rw [print, laid]
  dsimp only
  rw [bind_of_ok hprint]
  dsimp only
  rw [if_pos (by omega)]
  exact hadvance

/-- The first text goes to the start of the buffer. -/
theorem print_first (b : Block) (off : Nat) (t : CStr) (h : Heap) (hint : buflen < 2 ^ 31)
    (hroom : (t.length : Int) < buflen) (hfits : off + t.length + 1 ≤ b.size) :
    (Out.mk b off buflen 0).print t h = .ok (laid b off [] buflen t, h) := by
  have hoff : ((off : Int) + t.length).toNat = off + t.length := by omega
  rw [print, bind_of_ok (snprintf_of_room (h := h) b off buflen t hroom hfits)]
  dsimp only
  rw [if_pos (by omega), advance, laid]
  dsimp only
  rw [if_neg (by omega), hoff, Naf.int_of_lt (n := buflen - t.length) (by omega) (by omega), Int.zero_add,
    Naf.int_natCast (by omega), List.nil_append]
  rfl

/-- Attributes go on behind what was written before them. -/
theorem attribs_laid (b : Block) (off : Nat) (s t : CStr) (l : List (CStr × Option CStr)) (h : Heap)
    (hint : buflen < 2 ^ 31) (hroom : ((t ++ attribText l).length : Int) < buflen)
    (hfits : off + (s ++ (t ++ attribText l)).length + 1 ≤ b.size) :
    attribs l (laid b off s buflen t) h = .ok (laid b off s buflen (t ++ attribText l), h) := by
  induction l generalizing t with
  | nil =>
      rw [attribText, List.append_nil]
      rfl
  | cons a l ih =>
      obtain ⟨name, value⟩ := a
      rw [attribText, ← List.append_assoc t] at hroom hfits ⊢
      have hone := print_laid b off s t (attribString name value) h hint
        (by rw [List.length_append] at hroom; omega)
        (by simp only [List.length_append] at hfits ⊢; omega)
      rw [attribs, bind_of_ok hone]
      exact ih _ hroom hfits

end Out

section

variable {b : Block} {off : Nat} {buflen : Int} {h : Heap} {s : CStr}

/-- The count starts again for the attributes. -/
theorem Out.laid_nil : { Out.laid b off [] buflen s with m := 0 } = Out.laid b off s (buflen - s.length) [] := by
  simp [Out.laid]

mutual

/-- A tree is written whole, and takes as many characters as its serialised form has. -/
theorem render_eq : ∀ (x : Lmx) (b : Block) (off : Nat) (buflen : Int), x.serial.length < buflen →
    buflen < 2 ^ 31 → off + x.serial.length + 1 ≤ b.size →
    x.render b off buflen h = .ok ((x.serial.length, b.lay off x.serial), h)
  | .tag name attribs children, b, off, buflen, hroom, hint, hfits => by
      generalize hopen : lit "<" ++ name = s₁
      generalize hattribs : attribText attribs = s₂
      have hserial : serial (.tag name attribs children) = s₁ ++ s₂ ++
          if children.isEmpty then lit "/>" else lit ">" ++ serials children ++ (lit "</" ++ name ++ lit ">") := by
        rw [serial, hopen, hattribs]
      rw [hserial, List.length_append] at hroom hfits
      have hlen : (s₁ ++ s₂).length = s₁.length + s₂.length := List.length_append
      have hfirst := Out.print_first b off s₁ h hint (by omega) (by omega)
      have hleft : buflen - s₁.length < 2 ^ 31 := by omega
      have hsecond := Out.attribs_laid b off s₁ [] attribs h hleft (by rw [List.nil_append, hattribs]; omega)
        (by rw [List.nil_append, hattribs]; omega)
      rw [List.nil_append, hattribs] at hsecond
      have hmoved := Out.advance_laid b off [] s₁ s₂ h hint (by omega)
      rw [render, hopen, bind_of_ok hfirst, Out.laid_nil, bind_of_ok hsecond, hserial]
      refine (bind_of_ok hmoved).trans ?_
      -- an element without children is closed in its own tag
      cases hempty : children.isEmpty with
      | true =>
          rw [hempty, if_pos rfl, ← List.length_append] at hroom hfits
          have hlast := Out.print_laid b off [] _ _ h hint hroom hfits
          rw [if_pos rfl, if_pos rfl, bind_of_ok hlast]
          rfl
      | false =>
          rw [hempty, if_neg Bool.false_ne_true] at hroom hfits
          generalize hclose : lit "</" ++ name ++ lit ">" = s₅ at hroom hfits ⊢
          generalize hchildren : serials children = s₄ at hroom hfits ⊢
          generalize hangle : lit ">" = s₃ at hroom hfits ⊢
          have hthird := Out.print_laid b off [] (s₁ ++ s₂) s₃ h hint
            (by simp only [List.length_append] at hroom ⊢; omega)
            (by simp only [List.nil_append, List.length_append] at hfits ⊢; omega)
          have hfourth := renders_eq children b off buflen (s₁ ++ s₂ ++ s₃) hint
            (by rw [hchildren]; simp only [List.length_append] at hroom ⊢; omega)
            (by rw [hchildren]; simp only [List.length_append] at hfits ⊢; omega)
          rw [hchildren] at hfourth
          have hlast := Out.print_laid b off [] (s₁ ++ s₂ ++ s₃ ++ s₄) s₅ h hint
            (by simp only [List.length_append] at hroom ⊢; omega)
            (by simp only [List.nil_append, List.length_append] at hfits ⊢; omega)
          have hassoc : s₁ ++ s₂ ++ (s₃ ++ s₄ ++ s₅) = s₁ ++ s₂ ++ s₃ ++ s₄ ++ s₅ := by
            simp only [List.append_assoc]
          rw [if_neg Bool.false_ne_true, if_neg Bool.false_ne_true, bind_of_ok hthird, bind_of_ok hfourth,
            bind_of_ok hlast, hassoc]
          rfl
  | .cdata s, _, _, _, hroom, hint, hfits => cdatastrPutstr_eq hroom hint hfits

theorem renders_eq : ∀ (l : List Lmx) (b : Block) (off : Nat) (buflen : Int) (t : CStr), buflen < 2 ^ 31 →
    ((t ++ serials l).length : Int) < buflen → off + (t ++ serials l).length + 1 ≤ b.size →
    renders l (Out.laid b off [] buflen t) h = .ok (Out.laid b off [] buflen (t ++ serials l), h)
  | [], _, _, _, _, _, _, _ => by
      rw [serials, List.append_nil]
      rfl
  | x :: l, b, off, buflen, t, hint, hroom, hfits => by
      have hsplit : t ++ serials (x :: l) = t ++ x.serial ++ serials l := by
        rw [serials, List.append_assoc]
      rw [hsplit, List.length_append, List.length_append] at hroom hfits
      have hone := render_eq x (b.lay off t) (off + t.length) (buflen - t.length)
        (by omega) (by omega) (by rw [Block.size_lay]; omega)
      rw [Block.lay_lay] at hone
      have hmoved := Out.advance_laid b off [] t x.serial h hint
        (by rw [List.length_append]; omega)
      have hrest := renders_eq l b off buflen (t ++ x.serial) hint
        (by rw [List.length_append, List.length_append]; omega)
        (by rw [List.length_append, List.length_append]; omega)
      rw [renders, hsplit, ← hrest]
      exact (bind_of_ok hone).trans (bind_of_ok hmoved)

end

end

/-- The serialised form is handed out, if there is memory for it and an `int` for its length. -/
theorem getString_eq {x : Lmx} {h : Heap} (hzero : 0 ∉ x.serial) (hlen : x.serial.length + 1 < 2 ^ 31) :
    x.getString h = .ok (if h.unwilling then none else some x.serial, h.next) := by
  have hbuflen : int (x.getrenderedlen + 1) = (x.serial.length + 1 : Nat) := by
    rw [getrenderedlen_of_lt (by omega), Naf.int_of_lt (by omega) (by omega)]
    rfl
  have hsize : (((x.serial.length + 1 : Nat) : Int) % 2 ^ 64).toNat = x.serial.length + 1 := by omega
  rw [getString, hbuflen, hsize]
  cases hun : h.unwilling with
  | true =>
      rw [bind_of_ok (Naf.malloc_refused hun)]
      rfl
  | false =>
      generalize hbuf : (⟨x.serial.length + 1, h.junk (x.serial.length + 1)⟩ : Block) = buf
      have hsize : buf.size = x.serial.length + 1 := by rw [← hbuf]
      have hstring : (buf.lay 0 x.serial).string = x.serial :=
        Block.string_of_terminated (buf.lay_bytes 0 _) hzero
          (by have hend := buf.lay_terminator 0 x.serial; rwa [Nat.zero_add] at hend)
          (by rw [Block.size_lay]; omega)
      have hfilter : (some buf).filter (fun _ => 0 ≤ ((x.serial.length + 1 : Nat) : Int)) = some buf :=
        Option.filter_some_pos (decide_eq_true (by omega))
      rw [bind_of_ok (Naf.malloc_granted hun), hbuf, hfilter]
      dsimp only
      rw [bind_of_ok (render_eq x buf 0 _ (by omega) (by omega) (by omega))]
      dsimp only
      rw [Block.string] at hstring
      rw [hstring]
      rfl

/-- A tree fills a buffer of its rendered length and a terminator, if an `int` can count both; and
so does text that was escaped into such a buffer, where it is measured and decoded as it was. -/
theorem rendered_whole :
    (∀ (x : Lmx) (b : Block) (h : Heap), x.serial.length < 2147483647 → (b.size : Int) = x.getrenderedlen + 1 →
      x.getrenderedlen = x.serial.length ∧
        ∃ b', x.render b 0 (x.getrenderedlen + 1) h = .ok ((x.getrenderedlen, b'), h) ∧
          b'.bytes 0 x.serial.length = x.serial ∧ b'.byte x.serial.length = 0) ∧
    ∀ (s : CStr) (b buf : Block) (h : Heap), 0 ∉ s → (encode convs s).length < 2147483647 →
      (b.size : Int) = cdatastrStrlen s + 1 → buf.size = s.length + 1 →
      cdatastrStrlen s = (encode convs s).length ∧
        ∃ b' buf', cdatastrPutstr b 0 (cdatastrStrlen s + 1) s h = .ok ((cdatastrStrlen s, b'), h) ∧
          cdatastrDecodedstrlen b' 0 (cdatastrStrlen s).toNat h = .ok (s.length, h) ∧
          cdatastrDecode b' buf 0 s.length 0 (cdatastrStrlen s).toNat h = .ok ((s.length, buf'), h) ∧
          buf'.bytes 0 s.length = s ∧ buf'.byte s.length = 0 := by
  constructor
  · intro x b h hlen hsize
    have heq := getrenderedlen_of_lt (x := x) (by omega)
    rw [heq] at hsize ⊢
    refine ⟨rfl, b.lay 0 x.serial, render_eq x b 0 _ (by omega) (by omega) (by omega), b.lay_bytes 0 _, ?_⟩
    have hend := b.lay_terminator 0 x.serial
    rwa [Nat.zero_add] at hend
  · intro s b buf h hs hlen hsize hbuf
    have heq : cdatastrStrlen s = (encode convs s).length := by
      rw [cdatastrStrlen_eq, Naf.int_natCast (by omega)]
    rw [heq] at hsize ⊢
    rw [Int.toNat_natCast]
    have hreads := Escape.reads_encode marked_convs s
    have hzero := zero_notMem_encode hs
    have hbytes := b.lay_bytes 0 (encode convs s)
    have hcount := decodedstrlenFrom_eq (h := h) hreads hzero hbytes
      (by rw [Block.size_lay]; simp [tornCount]; omega) (Nat.lt_succ_self _)
    have hfits : 0 + (s.length + tornCount []) + 1 ≤ buf.size := by simp [tornCount, hbuf]
    have hdecode := cdatastrDecode_eq (h := h) hreads hzero hbytes
      (by rw [Block.size_lay]; simp [tornCount]; omega) hfits (Nat.le_refl _)
    have htext : ∀ p, pieceText (b.lay 0 (encode convs s)) p s [] = s := fun p => List.append_nil s
    rw [htext] at hdecode
    have hend := buf.lay_terminator 0 s
    rw [Nat.zero_add] at hend
    exact ⟨rfl, _, _, cdatastrPutstr_eq (by omega) (by omega) (by omega), hcount, hdecode, buf.lay_bytes 0 s, hend⟩

/-- An element with an attribute and text that has to be escaped. -/
def escaped : Lmx := .tag (lit "a") [(lit "b", some (lit "c"))] [.cdata (lit "<")]

theorem rendered_whole_element :
    (escaped.getrenderedlen = escaped.serial.length ∧
      ∃ b', escaped.render ⟨18, fun _ => 1⟩ 0 18 .zeroed = .ok ((17, b'), .zeroed) ∧
        b'.bytes 0 17 = lit "<a b='c'>&lt;</a>" ∧ b'.byte 17 = 0) ∧
      cdatastrStrlen (lit "<&") = (encode convs (lit "<&")).length ∧
        ∃ b' buf', cdatastrPutstr ⟨10, fun _ => 1⟩ 0 10 (lit "<&") .zeroed = .ok ((9, b'), .zeroed) ∧
          cdatastrDecodedstrlen b' 0 9 .zeroed = .ok (2, .zeroed) ∧
          cdatastrDecode b' ⟨3, fun _ => 1⟩ 0 2 0 9 .zeroed = .ok ((2, buf'), .zeroed) ∧
          buf'.bytes 0 2 = lit "<&" ∧ buf'.byte 2 = 0 := by
  have hserial : escaped.serial = lit "<a b='c'>&lt;</a>" := rfl
  have hlen : escaped.getrenderedlen = 17 := by
    rw [getrenderedlen_of_lt (by rw [hserial]; decide), hserial]
    rfl
  have htext : cdatastrStrlen (lit "<&") = 9 := by decide
  have htree := rendered_whole.1 escaped ⟨18, fun _ => 1⟩ .zeroed (by rw [hserial]; decide) (by rw [hlen]; rfl)
  have hdecoded := rendered_whole.2 (lit "<&") ⟨10, fun _ => 1⟩ ⟨3, fun _ => 1⟩ .zeroed (by decide) (by decide)
    (by rw [htext]; rfl) rfl
  rw [hserial, hlen] at htree
  rw [htext] at hdecoded
  rw [hserial, hlen, htext]
  exact ⟨htree, hdecoded⟩

/-- An element with so many quotation marks in it. -/
def quotes (n : Nat) : Lmx := .tag (lit "a") [] [.cdata (List.replicate n 34)]

theorem length_serial_quotes (n : Nat) : (quotes n).serial.length = 6 * n + 7 := by
  have hencode : (encode convs (List.replicate n 34)).length = 6 * n := by
    induction n with
    | zero => rfl
    | succ n ih =>
        have hsplit : encode convs (List.replicate (n + 1) 34) = lit "&quot;" ++ encode convs (List.replicate n 34) :=
          rfl
        rw [hsplit, List.length_append, ih]
        change 6 + 6 * n = _
        omega
  simp [quotes, serial, serials, attribText, hencode, lit]

/-- Into ten bytes the element's start and the first mark go, and of the second mark one character. The
terminator has no room. -/
theorem render_quotes {n : Nat} (hn : 3 ≤ n) :
    (quotes n).render ⟨10, fun _ => 1⟩ 0 10 .zeroed = .error .outOfBounds := by
  obtain ⟨k, rfl⟩ := Nat.exists_eq_add_of_le' hn
  rfl

/-- With 4294967305 characters the length is 9, and a buffer of that length and one more does not hold
the form. -/
theorem rendered_whole_wrapped :
    (quotes 715827883).serial.length = 4294967305 ∧ (quotes 715827883).getrenderedlen = 9 ∧
      (quotes 715827883).render ⟨10, fun _ => 1⟩ 0 10 .zeroed = .error .outOfBounds := by
  have hlen := length_serial_quotes 715827883
  refine ⟨hlen, ?_, render_quotes (by decide)⟩
  rw [getrenderedlen_eq, hlen]
  decide

/-! ## Pieces of text -/

section

variable {name : CStr} {attribs : List (CStr × Option CStr)} {children : List Lmx}
  {b : Block} {n : Nat} {h : Heap} {text : CStr}

theorem addCdataBound_eq (name : CStr) (attribs : List (CStr × Option CStr)) (children : List Lmx) {buf : Block}
    (hwilling : h.refuse = []) (hzero : 0 ∉ text) (hne : text ≠ []) (hsize : text.length ≤ buf.size) :
    (tag name attribs children).addCdataBound (buf.lay 0 text) text.length h =
      .ok (some (append (.cdata text) (.tag name attribs children)), h) := by
  have hpos := List.length_pos_iff.2 hne
  have hbytes := buf.lay_bytes 0 text
  have hload : (buf.lay 0 text).load 0 text.length h = .ok (text, h) := by
    rw [Block.load_of_le (by rw [Block.size_lay]; omega), hbytes]
  generalize hnew : (⟨text.length + 1, h.junk (text.length + 1)⟩ : Block) = new
  have hnewsize : new.size = text.length + 1 := by rw [← hnew]
  have hfill : (new.fill 0 text).fill text.length [0] = new.lay 0 text := by
    have h := new.fill_lay 0 text []
    rwa [Nat.zero_add, List.append_nil] at h
  have hcdata : newcdata (buf.lay 0 text) text.length h = .ok (some (.cdata text), h) := by
    have hall : (new.lay 0 text).bytes 0 (text.length + 1) = text ++ [0] := by
      have hsame := Block.bytes_fill_same new 0 (text ++ [0])
      rwa [List.length_append, List.length_singleton] at hsame
    rw [newcdata, bind_of_ok (Naf.malloc_of_willing hwilling)]
    dsimp only
    rw [bind_of_ok (Naf.malloc_of_willing hwilling), hnew]
    dsimp only
    rw [bind_of_ok hload, bind_of_ok (Block.store_of_le (by omega)),
      bind_of_ok (Block.store_of_le (by rw [Block.size_fill, List.length_singleton]; omega)), hfill, hall,
      Naf.cstring_append fun c hc => ne_of_mem_of_not_mem hc hzero]
    simp [cstring, Prog.pure_run]
  rw [addCdataBound, if_neg (by omega), Int.toNat_natCast, bind_of_ok hcdata]
  rfl

/-- The piece ends within no code, or after a lone mark that what stands behind it makes no
other code of. -/
def Settled (b : Block) (n : Nat) : Prop :=
  ∀ r, r <:+ b.bytes 0 n → Escape.Torn convs r →
    r = [38] ∧ ∀ e ∈ convs, e.2 <+: b.bytes (n - 1) 6 → e.1 = 38

theorem settled_iff {d r : CStr} (hreads : Escape.Reads convs (b.bytes 0 n) d r) :
    Settled b n ↔ pieceText b (n - r.length) d r = Escape.decode convs (b.bytes 0 n) := by
  rw [pieceText_eq_decode hreads]
  constructor
  · intro hsettled
    by_cases hr : r = []
    · exact .inl hr
    · obtain ⟨htorn, hsuffix⟩ := hreads.torn_of_ne_nil hr
      obtain ⟨rfl, hnext⟩ := hsettled r hsuffix htorn
      exact .inr ⟨rfl, tornChar_eq_mark.2 hnext⟩
  · intro hor r' hsuffix htorn
    obtain rfl := hreads.eq_of_torn marked_convs htorn hsuffix
    rcases hor with rfl | ⟨rfl, hmark⟩
    · exact absurd rfl htorn.1
    · exact ⟨rfl, tornChar_eq_mark.1 hmark⟩

/-- A piece becomes what it is if no code is in it and it is settled. -/
theorem pieceText_eq_self {d r : CStr} (hreads : Escape.Reads convs (b.bytes 0 n) d r) :
    pieceText b (n - r.length) d r = b.bytes 0 n ↔ (∀ e ∈ convs, ¬e.2 <:+: b.bytes 0 n) ∧ Settled b n := by
  constructor
  · intro hself
    have hle := hreads.length_add_le marked_convs
    have htorn := tornCount_le r
    have hlen := length_pieceText (b := b) (p := n - r.length) (d := d) (r := r)
    rw [hself] at hlen
    have hplain := hreads.length_add_eq marked_convs two_le_length_conv (by omega)
    refine ⟨hplain, (settled_iff hreads).2 ?_⟩
    rw [hself, hreads.decode_eq marked_convs, hreads.append_eq hplain]
  · rintro ⟨hplain, hsettled⟩
    rw [(settled_iff hreads).1 hsettled, hreads.decode_eq marked_convs, hreads.append_eq hplain]

/-- With memory behind it to look at a piece becomes a text of its own. -/
theorem addCdataBoundEncoded_eq {d r : CStr} (hwilling : h.refuse = []) (hpos : 0 < n)
    (hs : 0 ∉ b.bytes 0 n) (hsize : n + 6 ≤ b.size) (hreads : Escape.Reads convs (b.bytes 0 n) d r) :
    (tag name attribs children).addCdataBoundEncoded b n h =
      .ok (some (append (.cdata (pieceText b (n - r.length) d r)) (.tag name attribs children)), h) := by
  have hlen : (b.bytes 0 n).length = n := Block.length_bytes _ _ _
  have htorn : tornCount r ≤ 1 := by
    unfold tornCount
    split <;> omega
  have hbytes : b.bytes 0 (b.bytes 0 n).length = b.bytes 0 n := by rw [hlen]
  have hfuel : (b.bytes 0 n).length < n + 1 := by omega
  have hcount := decodedstrlenFrom_eq (h := h) hreads hs hbytes (by omega) hfuel
  generalize hbuf : (⟨d.length + tornCount r + 1, h.junk (d.length + tornCount r + 1)⟩ : Block) = buf
  have hbufsize : buf.size = d.length + tornCount r + 1 := by rw [← hbuf]
  have hfits : 0 + (d.length + tornCount r) + 1 ≤ buf.size := by omega
  have hdecode := cdatastrDecode_eq (h := h) hreads hs hbytes (by omega) hfits (Nat.le_of_eq hlen)
  rw [hlen, Nat.zero_add] at hdecode
  rw [hlen] at hcount
  have htext := length_pieceText (b := b) (p := n - r.length) (d := d) (r := r)
  have hne : pieceText b (n - r.length) d r ≠ [] := by
    intro hnil
    rw [hnil, List.length_nil, tornCount] at htext
    obtain ⟨rfl, rfl⟩ : d = [] ∧ r = [] := by
      split at htext
      · exact ⟨List.eq_nil_of_length_eq_zero (by omega), ‹_›⟩
      · omega
    rw [hreads.eq_nil] at hlen
    exact absurd hlen (by simp only [List.length_nil]; omega)
  have hadd := addCdataBound_eq name attribs children hwilling (notMem_pieceText conv_ne_zero hreads hs) hne
    (by rw [htext, hbufsize]; exact Nat.le_succ _)
  rw [htext] at hadd
  rw [addCdataBoundEncoded, cdatastrDecodedstrlen, bind_of_ok hcount,
    bind_of_ok (Naf.malloc_of_willing hwilling), hbuf]
  dsimp only
  rw [bind_of_ok hdecode]
  exact hadd

/-- Every piece is read beyond its end. What text it becomes is right if and only if it is settled. -/
theorem piece_overrun (hpos : 0 < n) (hs : 0 ∉ b.bytes 0 n) :
    (tag name attribs children).addCdataBoundEncoded (b.cut n) n h = .error .outOfBounds ∧
      (h.refuse = [] → n + 6 ≤ b.size → ∃ text,
        (tag name attribs children).addCdataBoundEncoded b n h =
          .ok (some (append (.cdata text) (.tag name attribs children)), h) ∧
        (text = Escape.decode convs (b.bytes 0 n) ↔ Settled b n)) := by
  obtain ⟨d, r, hreads⟩ := Escape.exists_reads marked_convs (b.bytes 0 n)
  constructor
  · have hlen : (b.bytes 0 n).length = n := Block.length_bytes _ _ _
    have hcut : (b.cut n).bytes 0 (b.bytes 0 n).length = b.bytes 0 n := by rw [hlen]; rfl
    have hfuel : (b.bytes 0 n).length < n + 1 := by omega
    have hover := decodedstrlenFrom_overrun (h := h) hreads hs hcut (by rw [hlen, Nat.zero_add]; rfl) hfuel
    rw [hlen] at hover
    exact bind_of_error hover
  · intro hwilling hsize
    exact ⟨_, addCdataBoundEncoded_eq hwilling hpos hs hsize hreads, (settled_iff hreads).symm⟩

/-- Memory that holds a string, and ones behind it. -/
def holding (s : CStr) : Block := ⟨s.length + 8, fun i => s.getD i 1⟩

/-- Three characters of `a&lt;`: bytes behind them are read, and make a character of the last two. -/
theorem piece_overrun_entity :
    (tag (lit "x") [] []).addCdataBoundEncoded ((holding (lit "a&lt;")).cut 3) 3 .zeroed =
        .error .outOfBounds ∧
      (tag (lit "x") [] []).addCdataBoundEncoded (holding (lit "a&lt;")) 3 .zeroed =
        .ok (some (append (.cdata (lit "a<")) (.tag (lit "x") [] [])), .zeroed) ∧
      Escape.decode convs ((holding (lit "a&lt;")).bytes 0 3) = lit "a&l" :=
  ⟨rfl, rfl, rfl⟩

theorem piece_overrun_plain :
    (tag (lit "x") [] []).addCdataBoundEncoded ((holding (lit "a&gt;")).cut 5) 5 .zeroed =
        .error .outOfBounds ∧
      ∃ text, (tag (lit "x") [] []).addCdataBoundEncoded (holding (lit "a&gt;")) 5 .zeroed =
          .ok (some (append (.cdata text) (.tag (lit "x") [] [])), .zeroed) ∧
        (text = Escape.decode convs ((holding (lit "a&gt;")).bytes 0 5) ↔ Settled (holding (lit "a&gt;")) 5) := by
  have hpiece := @piece_overrun (lit "x") [] [] (holding (lit "a&gt;")) 5 .zeroed (by decide) (by decide)
  exact ⟨hpiece.1, hpiece.2 rfl (by decide)⟩

end

end Lmx
end Timps
