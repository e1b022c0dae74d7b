-- SUMMARY: The page that issues RPC requests: taking the path and the query apart in buffers of fixed size.
import Mathlib.Data.List.TakeWhile
import Timps.Httpd.Reply
import Timps.Naf.Rpc

/-!
# The /nafrpc page

The path names a module and a method, and the query is a list of arguments, which are echoed.
Every part is copied into an array of its own after its length was compared with the size of
the array, where the terminator is not always counted.
-/

namespace Timps.Httpd

open Naf (Block RpcReq cutAt lit malloc snprintf)
open Prog (bind_of_error bind_of_ok)

/-- What is printed is cut to 1023 characters; that it could not be sent is not looked at. -/
def sendbasicdata (conn : Nat) (text : CStr) : Sys Unit := do
  match ← Sys.mem (malloc 1024) with
  | none => pure ()
  | some resp => do
      let (_, resp) ← Sys.mem (snprintf resp 0 (1023 + 1 : Nat) text)
      let _ ← Naf.Conn.reqwrite conn resp.string

/-- `memcpy` into an array on the stack, and a terminator behind what was copied. -/
def stackcopy (size : Nat) (s : CStr) : Sys Block := do
  let array : Block ← Prog.read fun w => ⟨size, w.env.heap.junk size⟩
  let array ← Sys.mem (array.store 0 s)
  Sys.mem (array.store s.length [0])

/-- A piece of the query: its first `n` bytes are the name, with the `=` that ends it. -/
def pagearg (conn : Nat) (piece : CStr) (n : Nat) : Sys Unit :=
  if n > 128 then pure ()
  else do
    let name2 ← stackcopy 128 (piece.take n)
    -- `name2[strlen(name2) - 1]`
    let len := name2.string.length
    if len = 0 then Prog.fault .outOfBounds
    else do
      let last ← Sys.mem (name2.peek (len - 1))
      let name2 ← (if last = 61 then Sys.mem (name2.store (len - 1) [0]) else pure name2)
      let m := piece.length - n
      if m > 512 then pure ()
      else do
        let value2 ← stackcopy 512 (piece.drop n)
        sendbasicdata conn
          (lit "argument: name='" ++ name2.string ++ lit "', value='" ++ value2.string ++ lit "'<br/>")

/-- Where the value starts: behind the first `=`, or at the end. -/
def namelen (piece : CStr) : Nat :=
  match cutAt 61 piece with
  | some (name, _) => name.length + 1
  | none => piece.length

/-- The loop over the query. At least a byte is passed each time. -/
def pageargs (conn : Nat) : Nat → Option CStr → Sys Unit
  | _, none => pure ()
  | 0, some _ => Prog.fault .diverge
  | fuel + 1, some reqargs =>
      if reqargs = [] then pure ()
      else do
        let piece := reqargs.takeWhile fun c => c ≠ 38
        pagearg conn piece (namelen piece)
        pageargs conn fuel ((cutAt 38 (reqargs.drop 1)).map Prod.snd)

/-- What follows the first slash and the second one, in a path that begins with a slash. -/
def splitpath (path : CStr) : Option (CStr × CStr) :=
  if path.head? = some 47 then cutAt 47 (path.drop 1) else none

/-- `issue` is what the handler does with a request whose arguments were echoed: it issues the
request and prints what came of it. -/
def nafrpcPageHandler (issue : RpcReq → Sys Unit) (conn : Nat) (fn : CStr) (reqargs : Option CStr) : Sys Unit :=
  match splitpath (fn.drop 7) with
  | none => sendbasicdata conn (lit "invalid url syntax (" ++ fn.drop 7 ++ lit ")")
  | some (m, n) =>
      if m.length + 1 ≥ 64 ∨ n.length + 1 ≥ 64 then
        sendbasicdata conn (lit "invalid target specification (" ++ fn.drop 7 ++ lit ")")
      else do
        let module ← stackcopy 64 m
        let method ← stackcopy 64 n
        sendbasicdata conn (lit "module='" ++ module.string ++ lit "'<br/>method='" ++ method.string ++
          lit "'<br/>args='" ++ reqargs.getD (lit "(null)") ++ lit "'<br/>")
        match ← Sys.mem (RpcReq.new module.string method.string) with
        | none => sendbasicdata conn (lit "<br/>unable to begin RPC request<br/>")
        | some req => do
            pageargs conn ((reqargs.getD []).length + 1) reqargs
            issue req

/-! ## What fits -/

/-- The room that the arrays have for a piece of the query: the name, with its `=`, is skipped
for being too long or has room with its terminator, and so has the value. -/
def Fits (piece : CStr) : Prop :=
  128 < namelen piece ∨ 0 < namelen piece ∧ namelen piece < 128 ∧ piece.length - namelen piece ≠ 512

instance (piece : CStr) : Decidable (Fits piece) := inferInstanceAs (Decidable (_ ∨ _))

/-- What stands between the `&`s of a query, less an empty piece at its end. -/
def pieces (query : CStr) : List CStr :=
  let l := query.splitOn 38
  if l.getLast? = some [] then l.dropLast else l

/-- A module and a method that have room. -/
def target (path : CStr) : Option (CStr × CStr) :=
  (splitpath path).filter fun x => x.1.length + 1 < 64 ∧ x.2.length + 1 < 64

/-- The query has room, or the handler does not get to it: the path names no target, or the
request cannot be allocated. -/
def PageFits (path : CStr) (reqargs : Option CStr) (h : Naf.Heap) : Prop :=
  target path = none ∨ RpcReq.Refused h.next ∨ ∀ query, reqargs = some query → ∀ piece ∈ pieces query, Fits piece

theorem pieces_cons {piece : CStr} (rest : CStr) (hpiece : 38 ∉ piece) :
    pieces (piece ++ 38 :: rest) = piece :: pieces rest := by
  have hne : rest.splitOn 38 ≠ [] := List.splitOn_ne_nil 38 rest
  have hlast : (piece :: rest.splitOn 38).getLast? = (rest.splitOn 38).getLast? := by
    rw [List.getLast?_cons, List.getLast?_eq_some_getLast hne]
    rfl
  rw [pieces, List.splitOn_append_cons_self_of_not_mem hpiece, hlast, List.dropLast_cons_of_ne_nil hne, pieces]
  split <;> rfl

theorem pieces_singleton {piece : CStr} (hpiece : 38 ∉ piece) (hne : piece ≠ []) : pieces piece = [piece] := by
  rw [pieces, List.splitOn_eq_singleton hpiece]
  exact if_neg (by simpa using hne)

theorem namelen_le (piece : CStr) : namelen piece ≤ piece.length := by
  unfold namelen
  cases hcut : cutAt 61 piece with
  | none => exact le_rfl
  | some x =>
      obtain ⟨hsplit, -⟩ := Naf.cutAt_some hcut
      dsimp only
      rw [hsplit, List.length_append, List.length_cons]
      omega

/-! ## Runs -/

/-- The connection is open. -/
def Open (conn : Nat) (w : World) : Prop := ∃ c, w.conn? conn = some c

section

variable {conn : Nat} {w : World}

theorem reqwrite_returns (q : Bytes) (hopen : Open conn w) :
    ∃ b w', Naf.Conn.reqwrite conn q w = .ok (b, w') ∧ Open conn w' ∧ w'.env.heap = w.env.heap := by
  obtain ⟨c, hconn⟩ := hopen
  by_cases hq : q = []
  · rw [Naf.Conn.reqwrite, if_pos hq]
    exact ⟨false, w, rfl, ⟨c, hconn⟩, rfl⟩
  have hnow : Sys.now w = .ok (w.env.now, w) := rfl
  have hopen : Open conn (w.modify conn fun c => { c with lasttxSoft := w.env.now }) := by
    have hcid : ∀ c : Conn, ({ c with lasttxSoft := w.env.now } : Conn).cid = c.cid := fun _ => rfl
    refine ⟨{ c with lasttxSoft := w.env.now }, ?_⟩
    rw [World.conn?_modify hcid, if_pos rfl, hconn]
    rfl
  rw [Naf.Conn.reqwrite, if_neg hq, bind_of_ok hnow, bind_of_ok (Sys.modify_ok.2 ⟨⟨c, hconn⟩, rfl⟩),
    bind_of_ok (Sys.writeRefused_ok.2 rfl)]
  split
  · exact ⟨false, _, rfl, hopen, rfl⟩
  · exact ⟨true, _, rfl, hopen, rfl⟩

theorem sendbasicdata_returns (text : CStr) (hopen : Open conn w) :
    ∃ w', sendbasicdata conn text w = .ok ((), w') ∧ Open conn w' ∧ w'.env.heap = w.env.heap.next := by
  rw [sendbasicdata]
  cases hh : w.env.heap.unwilling with
  | true =>
      rw [bind_of_ok (Sys.mem_ok.2 ⟨none, _, Naf.malloc_refused hh, rfl⟩)]
      exact ⟨w.setHeap w.env.heap.next, rfl, hopen, rfl⟩
  | false =>
      have hprint := @snprintf_eq ⟨1024, w.env.heap.junk 1024⟩ 1023 text w.env.heap.next rfl
      rw [bind_of_ok (Sys.mem_ok.2 ⟨_, _, Naf.malloc_granted hh, rfl⟩)]
      dsimp only
      rw [bind_of_ok (Sys.mem_of_steady hprint)]
      obtain ⟨b, w', hwrite, hopen', hheap⟩ := @reqwrite_returns conn (w.setHeap w.env.heap.next)
        ((⟨1024, w.env.heap.junk 1024⟩ : Block).lay 0 (text.take 1023)).string hopen
      rw [bind_of_ok hwrite]
      exact ⟨w', rfl, hopen', hheap⟩

theorem stackcopy_of_lt {size : Nat} {s : CStr} (hlt : s.length < size) :
    ∃ array, stackcopy size s w = .ok (array, w) ∧ array.size = size ∧ (0 ∉ s → array.string = s) := by
  let array : Block := ⟨size, w.env.heap.junk size⟩
  have hread : (Prog.read fun w => ⟨size, w.env.heap.junk size⟩ : Sys Block) w = .ok (array, w) := rfl
  have hcopy : Sys.mem (array.store 0 s) w = .ok (array.fill 0 s, w) :=
    Sys.mem_store_ok.2 ⟨by rw [Nat.zero_add]; exact hlt.le, rfl⟩
  have hend : Sys.mem ((array.fill 0 s).store s.length [0]) w = .ok (array.lay 0 s, w) := by
    have hlay := array.fill_lay 0 s []
    rw [List.append_nil, Nat.zero_add] at hlay
    exact Sys.mem_store_ok.2 ⟨hlt, by rw [← hlay]; rfl⟩
  refine ⟨array.lay 0 s, ?_, rfl, fun hzero => ?_⟩
  · rw [stackcopy, bind_of_ok hread, bind_of_ok hcopy, hend]
  · have hterm := array.lay_terminator 0 s
    rw [Nat.zero_add] at hterm
    exact Block.string_of_terminated (array.lay_bytes 0 s) hzero hterm hlt

theorem stackcopy_of_eq {size : Nat} {s : CStr} (heq : s.length = size) :
    stackcopy size s w = .error .outOfBounds := by
  let array : Block := ⟨size, w.env.heap.junk size⟩
  have hread : (Prog.read fun w => ⟨size, w.env.heap.junk size⟩ : Sys Block) w = .ok (array, w) := rfl
  have hcopy : Sys.mem (array.store 0 s) w = .ok (array.fill 0 s, w) :=
    Sys.mem_store_ok.2 ⟨by rw [Nat.zero_add]; exact heq.le, rfl⟩
  have hend : (array.fill 0 s).store s.length [0] w.env.heap = .error .outOfBounds := by
    refine if_neg ?_
    rw [Block.size_fill, heq]
    exact Nat.not_le.2 (Nat.lt_succ_self size)
  rw [stackcopy, bind_of_ok hread, bind_of_ok hcopy]
  exact Prog.focus_error.2 hend

/-- With room for its name, what a piece does is up to its value. -/
theorem pagearg_named {piece : CStr} (hzero : 0 ∉ piece) (hpos : 0 < namelen piece) (hname : namelen piece < 128) :
    ∃ name, pagearg conn piece (namelen piece) w =
      (if piece.length - namelen piece > 512 then pure ()
      else do
        let value2 ← stackcopy 512 (piece.drop (namelen piece))
        sendbasicdata conn
          (lit "argument: name='" ++ name ++ lit "', value='" ++ value2.string ++ lit "'<br/>")) w := by
  have hlen : (piece.take (namelen piece)).length = namelen piece := List.length_take_of_le (namelen_le piece)
  obtain ⟨name2, hcopy, hsize, hstring⟩ := stackcopy_of_lt (w := w) (hlen.trans_lt hname)
  have hstring := hstring fun hmem => hzero (List.mem_of_mem_take hmem)
  have hpeek : name2.peek (namelen piece - 1) w.env.heap = .ok (name2.byte (namelen piece - 1), w.env.heap) :=
    Block.peek_of_lt (by omega)
  have hstore : Sys.mem (name2.store (namelen piece - 1) [0]) w = .ok (name2.fill (namelen piece - 1) [0], w) := by
    refine Sys.mem_store_ok.2 ⟨?_, rfl⟩
    rw [List.length_singleton]
    omega
  have htrim : ∃ name2', (if name2.byte (namelen piece - 1) = 61 then Sys.mem (name2.store (namelen piece - 1) [0])
      else pure name2) w = .ok (name2', w) := by
    split
    · exact ⟨_, hstore⟩
    · exact ⟨name2, rfl⟩
  obtain ⟨name2', htrim⟩ := htrim
  refine ⟨name2'.string, ?_⟩
  rw [pagearg, if_neg (by omega), bind_of_ok hcopy]
  dsimp only
  rw [hstring, hlen, if_neg (Nat.ne_of_gt hpos), bind_of_ok (Sys.mem_of_steady hpeek), bind_of_ok htrim]

/-- A piece that fits is passed over or echoed. -/
theorem pagearg_of_fits {piece : CStr} (hzero : 0 ∉ piece) (hopen : Open conn w) (hfits : Fits piece) :
    ∃ w', pagearg conn piece (namelen piece) w = .ok ((), w') ∧ Open conn w' := by
  rcases hfits with hlong | ⟨hpos, hname, hvalue⟩
  · rw [pagearg, if_pos hlong]
    exact ⟨w, rfl, hopen⟩
  obtain ⟨name, heq⟩ := @pagearg_named conn w piece hzero hpos hname
  rw [heq]
  by_cases hskip : piece.length - namelen piece > 512
  · rw [if_pos hskip]
    exact ⟨w, rfl, hopen⟩
  have hroom : (piece.drop (namelen piece)).length < 512 := by
    rw [List.length_drop]
    omega
  obtain ⟨value2, hcopy, -, -⟩ := stackcopy_of_lt (w := w) hroom
  obtain ⟨w', hsend, hopen', -⟩ := sendbasicdata_returns _ hopen
  rw [if_neg hskip, bind_of_ok hcopy]
  exact ⟨w', hsend, hopen'⟩

/-- A piece that does not fit overruns one of the arrays, or has no name to look at the end of. -/
theorem pagearg_of_not_fits {piece : CStr} (hzero : 0 ∉ piece) (hfits : ¬Fits piece) :
    pagearg conn piece (namelen piece) w = .error .outOfBounds := by
  have hle := namelen_le piece
  have hlen : (piece.take (namelen piece)).length = namelen piece := List.length_take_of_le hle
  obtain ⟨hlong, hfits⟩ := not_or.1 hfits
  by_cases hfull : namelen piece = 128
  · rw [pagearg, if_neg hlong]
    exact bind_of_error (stackcopy_of_eq (hlen.trans hfull))
  by_cases hempty : namelen piece = 0
  · obtain ⟨name2, hcopy, -, hstring⟩ := @stackcopy_of_lt w 128 (piece.take (namelen piece)) (by omega)
    have hstring := hstring fun hmem => hzero (List.mem_of_mem_take hmem)
    rw [pagearg, if_neg hlong, bind_of_ok hcopy]
    dsimp only
    rw [hstring, hlen, if_pos hempty]
    rfl
  have hvalue : (piece.drop (namelen piece)).length = 512 := by
    rw [List.length_drop]
    by_contra hne
    exact hfits ⟨by omega, by omega, hne⟩
  obtain ⟨name, heq⟩ := @pagearg_named conn w piece hzero (Nat.pos_of_ne_zero hempty) (by omega)
  rw [List.length_drop] at hvalue
  rw [heq, if_neg (by omega)]
  exact bind_of_error (stackcopy_of_eq (by rw [List.length_drop]; exact hvalue))

/-- A round of the loop, and what it goes on with. -/
theorem pageargs_round {fuel : Nat} {query : CStr} (hne : query ≠ []) :
    pageargs conn (fuel + 1) (some query) w =
      (pagearg conn (query.takeWhile fun c => c ≠ 38) (namelen (query.takeWhile fun c => c ≠ 38)) >>= fun _ =>
        pageargs conn fuel ((cutAt 38 (query.drop 1)).map Prod.snd)) w := by
  rw [pageargs, if_neg hne]

theorem takeWhile_piece {piece : CStr} (hpiece : 38 ∉ piece) (rest : CStr) :
    ((piece ++ 38 :: rest).takeWhile fun c => c ≠ 38) = piece ∧ (piece.takeWhile fun c => c ≠ 38) = piece := by
  have hall : ∀ c ∈ piece, (decide (c ≠ 38)) = true := by
    intro c hc
    exact decide_eq_true (ne_of_mem_of_not_mem hc hpiece)
  refine ⟨?_, List.takeWhile_eq_self_iff.2 hall⟩
  rw [List.takeWhile_append_of_pos hall]
  exact List.append_nil piece

/-- The loop gets to its end when all pieces fit, and otherwise to the first that does not. -/
theorem pageargs_eq {fuel : Nat} {query : CStr} (hzero : 0 ∉ query) (hfuel : query.length < fuel)
    (hopen : Open conn w) :
    ((∀ piece ∈ pieces query, Fits piece) → ∃ w', pageargs conn fuel (some query) w = .ok ((), w')) ∧
      ((¬∀ piece ∈ pieces query, Fits piece) → pageargs conn fuel (some query) w = .error .outOfBounds) := by
  induction fuel generalizing query w with
  | zero => exact absurd hfuel (Nat.not_lt_zero _)
  | succ fuel ih =>
      by_cases hnil : query = []
      · subst hnil
        exact ⟨fun _ => ⟨w, rfl⟩, fun hbad => absurd (fun piece hp => absurd hp List.not_mem_nil) hbad⟩
      rw [pageargs_round hnil]
      -- on the pieces between ampersands: one that does not fit stops the whole parse
      by_cases hamp : 38 ∈ query
      · obtain ⟨piece, rest, rfl, hpiece⟩ := List.eq_append_cons_of_mem hamp
        rw [(takeWhile_piece hpiece rest).1, pieces_cons rest hpiece, List.forall_mem_cons]
        have hzeros : 0 ∉ piece ∧ 0 ∉ rest := by
          simp only [List.mem_append, List.mem_cons, not_or] at hzero
          exact ⟨hzero.1, hzero.2.2⟩
        by_cases hfits : Fits piece
        · obtain ⟨w', hrun, hopen'⟩ := pagearg_of_fits hzeros.1 hopen hfits
          have hnext : cutAt 38 ((piece ++ 38 :: rest).drop 1) = some (piece.drop 1, rest) := by
            cases piece with
            | nil => exact absurd hfits (by decide)
            | cons c piece => exact Naf.cutAt_append rest fun hmem => hpiece (List.mem_cons_of_mem c hmem)
          rw [bind_of_ok hrun, hnext]
          have hlt : rest.length < fuel := by
            rw [List.length_append, List.length_cons] at hfuel
            omega
          obtain ⟨hgood, hbad⟩ := ih hzeros.2 hlt hopen'
          exact ⟨fun h => hgood h.2, fun h => hbad fun hrest => h ⟨hfits, hrest⟩⟩
        · rw [bind_of_error (pagearg_of_not_fits hzeros.1 hfits)]
          exact ⟨fun h => absurd h.1 hfits, fun _ => rfl⟩
      · rw [(takeWhile_piece hamp []).2, pieces_singleton hamp hnil, List.forall_mem_singleton]
        by_cases hfits : Fits query
        · obtain ⟨w', hrun, -⟩ := pagearg_of_fits hzero hopen hfits
          have hnext : cutAt 38 (query.drop 1) = none :=
            Naf.cutAt_of_notMem fun hmem => hamp (List.mem_of_mem_drop hmem)
          have hend : pageargs conn fuel none w' = .ok ((), w') := by
            cases fuel <;> rfl
          rw [bind_of_ok hrun, hnext]
          exact ⟨fun _ => ⟨w', hend⟩, fun h => absurd hfits h⟩
        · rw [bind_of_error (pagearg_of_not_fits hzero hfits)]
          exact ⟨fun h => absurd h hfits, fun _ => rfl⟩

/-- The handler returns, or gets as far as issuing the request. -/
def Parsed (conn : Nat) (fn : CStr) (reqargs : Option CStr) (w : World) : Prop :=
  ∀ issue, (∃ w', nafrpcPageHandler issue conn fn reqargs w = .ok ((), w')) ∨
    ∃ req w', nafrpcPageHandler issue conn fn reqargs w = issue req w'

theorem target_none {path : CStr} (issue : RpcReq → Sys Unit) (reqargs : Option CStr) (hnone : target path = none) :
    ∃ text, nafrpcPageHandler issue conn (lit "/nafrpc" ++ path) reqargs = sendbasicdata conn text := by
  have hdrop : (lit "/nafrpc" ++ path).drop 7 = path := rfl
  rw [nafrpcPageHandler, hdrop]
  cases hsplit : splitpath path with
  | none => exact ⟨_, rfl⟩
  | some x =>
      have hlong : ¬(x.1.length + 1 < 64 ∧ x.2.length + 1 < 64) := by
        rw [target, hsplit, Option.filter_eq_none_iff] at hnone
        simpa using hnone x rfl
      dsimp only
      rw [if_pos (by omega)]
      exact ⟨_, rfl⟩

/-- The arguments are taken apart behind two messages' allocations. -/
theorem handler_some {path m n : CStr} (reqargs : Option CStr) (hopen : Open conn w)
    (hsome : target path = some (m, n)) :
    ∃ req w', Open conn w' ∧ ∀ issue, nafrpcPageHandler issue conn (lit "/nafrpc" ++ path) reqargs w =
      (if RpcReq.Refused w.env.heap.next then sendbasicdata conn (lit "<br/>unable to begin RPC request<br/>")
      else do
        pageargs conn ((reqargs.getD []).length + 1) reqargs
        issue req) w' := by
  obtain ⟨hsplit, hroom⟩ := Option.filter_eq_some_iff.1 hsome
  have hroom : m.length + 1 < 64 ∧ n.length + 1 < 64 := of_decide_eq_true hroom
  have hdrop : (lit "/nafrpc" ++ path).drop 7 = path := rfl
  obtain ⟨module, hmodule, -, -⟩ := @stackcopy_of_lt w 64 m (by omega)
  obtain ⟨method, hmethod, -, -⟩ := @stackcopy_of_lt w 64 n (by omega)
  obtain ⟨w₁, hsend, hopen₁, hheap⟩ := sendbasicdata_returns (lit "module='" ++ module.string ++
    lit "'<br/>method='" ++ method.string ++ lit "'<br/>args='" ++ reqargs.getD (lit "(null)") ++ lit "'<br/>") hopen
  obtain ⟨h, hnew⟩ := RpcReq.new_eq module.string method.string w₁.env.heap
  refine ⟨⟨module.string, method.string, []⟩, w₁.setHeap h, hopen₁, fun issue => ?_⟩
  rw [nafrpcPageHandler, hdrop, hsplit]
  dsimp only
  rw [if_neg (by omega), bind_of_ok hmodule, bind_of_ok hmethod, bind_of_ok hsend,
    bind_of_ok (Sys.mem_ok.2 ⟨_, _, hnew, rfl⟩), hheap]
  split <;> rfl

/-- A path and a query that fit are gone through. -/
theorem parsed_of_fits {path : CStr} {reqargs : Option CStr} (hopen : Open conn w)
    (hzero : ∀ query, reqargs = some query → 0 ∉ query) (hfits : PageFits path reqargs w.env.heap) :
    Parsed conn (lit "/nafrpc" ++ path) reqargs w := by
  intro issue
  cases htarget : target path with
  | none =>
      obtain ⟨text, heq⟩ := @target_none conn path issue reqargs htarget
      obtain ⟨w', hsend, -⟩ := sendbasicdata_returns text hopen
      exact .inl ⟨w', by rw [heq, hsend]⟩
  | some x =>
      obtain ⟨req, w', hopen', heq⟩ := handler_some reqargs hopen htarget
      rw [heq]
      by_cases hrefused : RpcReq.Refused w.env.heap.next
      · rw [if_pos hrefused]
        obtain ⟨w'', hsend, -⟩ := sendbasicdata_returns (lit "<br/>unable to begin RPC request<br/>") hopen'
        exact .inl ⟨w'', hsend⟩
      rw [if_neg hrefused]
      rcases hfits with habs | habs | hpieces
      · rw [htarget] at habs
        cases habs
      · exact absurd habs hrefused
      cases reqargs with
      | none => exact .inr ⟨req, w', rfl⟩
      | some query =>
          obtain ⟨w'', hrun⟩ := (pageargs_eq (hzero query rfl) (Nat.lt_succ_self _) hopen').1 (hpieces query rfl)
          exact .inr ⟨req, w'', by rw [Option.getD_some, bind_of_ok hrun]⟩

/-- A query that does not fit overruns an array. -/
theorem handler_of_not_fits {path : CStr} {reqargs : Option CStr} (issue : RpcReq → Sys Unit) (hopen : Open conn w)
    (hzero : ∀ query, reqargs = some query → 0 ∉ query) (hfits : ¬PageFits path reqargs w.env.heap) :
    nafrpcPageHandler issue conn (lit "/nafrpc" ++ path) reqargs w = .error .outOfBounds := by
  obtain ⟨htarget, hfits⟩ := not_or.1 hfits
  obtain ⟨hrefused, hpieces⟩ := not_or.1 hfits
  obtain ⟨x, hsome⟩ := Option.ne_none_iff_exists'.1 htarget
  obtain ⟨req, w', hopen', heq⟩ := handler_some reqargs hopen hsome
  rw [heq, if_neg hrefused]
  cases reqargs with
  | none => exact absurd (fun query hq => nomatch hq) hpieces
  | some query =>
      have hsome : ¬∀ piece ∈ pieces query, Fits piece := by
        intro hall
        refine hpieces fun q hq => ?_
        cases hq
        exact hall
      exact bind_of_error ((pageargs_eq (hzero query rfl) (Nat.lt_succ_self _) hopen').2 hsome)

/-- The handler gets through the path and the query exactly when they fit, and otherwise it
reaches outside one of its arrays. -/
theorem page_parsed (path : CStr) (reqargs : Option CStr) (hopen : Open conn w)
    (hzero : ∀ query, reqargs = some query → 0 ∉ query) :
    (Parsed conn (lit "/nafrpc" ++ path) reqargs w ↔ PageFits path reqargs w.env.heap) ∧
      (¬PageFits path reqargs w.env.heap →
        ∀ issue, nafrpcPageHandler issue conn (lit "/nafrpc" ++ path) reqargs w = .error .outOfBounds) := by
  refine ⟨⟨fun hparsed => ?_, parsed_of_fits hopen hzero⟩, fun hfits issue =>
    handler_of_not_fits issue hopen hzero hfits⟩
  by_contra hfits
  rcases hparsed fun _ => pure () with ⟨w', hrun⟩ | ⟨req, w', hrun⟩
  · rw [handler_of_not_fits _ hopen hzero hfits] at hrun
    cases hrun
  · rw [handler_of_not_fits _ hopen hzero hfits] at hrun
    cases hrun

/-- A query of one `&` makes the handler look in front of an empty name. -/
theorem page_parsed_empty :
    nafrpcPageHandler (fun _ => pure ()) 0 (lit "/nafrpc/a/b") (some (lit "&")) alone = .error .outOfBounds := by
  have hpieces : pieces (lit "&") = [[]] := pieces_cons [] List.not_mem_nil
  have hzero : ∀ query, some (lit "&") = some query → 0 ∉ query := by
    intro query hq
    cases hq
    decide
  refine @handler_of_not_fits 0 alone (lit "/a/b") _ _ ⟨_, rfl⟩ hzero ?_
  rintro (htarget | hrefused | hall)
  · exact absurd htarget (by decide)
  · exact absurd hrefused (by decide)
  · have hempty := hall _ rfl [] (by rw [hpieces]; exact List.mem_singleton_self [])
    exact absurd hempty (by decide)

theorem page_parsed_pair : Parsed 0 (lit "/nafrpc/a/b") (some (lit "c=1")) alone := by
  have hpieces : pieces (lit "c=1") = [lit "c=1"] := pieces_singleton (by decide) (by decide)
  have hzero : ∀ query, some (lit "c=1") = some query → 0 ∉ query := by
    intro query hq
    cases hq
    decide
  refine (page_parsed (lit "/a/b") (some (lit "c=1")) ⟨_, rfl⟩ hzero).1.2 (.inr (.inr fun query hq => ?_))
  cases hq
  rw [hpieces, List.forall_mem_singleton]
  decide

end

end Timps.Httpd
