-- SUMMARY: The HTTP message that a SOAP reply is sent in, and how much of its buffer is queued.
import Timps.Lmx.Tree
import Timps.Oscar.Frames

/-!
# Replies

The length of the buffer is an estimate with room for the digits of the content length. It is
also the length that is queued.
-/

namespace Timps.Httpd

open Naf (Block decimal lit malloc malloc_of_willing snprintf)
open Prog (bind_ok)

def defaultheaders : CStr :=
  lit "Content-Type: text/xml; charset=\"utf-8\"\r\n" ++ lit "Connection: close\r\n"

/-- `%d` of a `size_t`, of which it takes the lower half. -/
def intdecimal (n : Nat) : CStr :=
  let i := Int.bmod n 4294967296
  if i < 0 then lit "-" ++ decimal i.natAbs else decimal i.natAbs

/-- The text that is printed into the buffer. -/
def soaptext (firstline sb : CStr) : CStr :=
  firstline ++ lit "\r\n" ++ defaultheaders ++ lit "Content-Length: " ++ intdecimal sb.length ++ lit "\r\n\r\n" ++ sb

/-- `buflen`, an `int` -/
def soapbuflen (firstline sb : CStr) : Int :=
  Int.bmod (firstline.length + 2 + defaultheaders.length + 128 + 4 + sb.length : Nat) 4294967296

/-- `sb`, where no tree is an empty string; `none` when the tree cannot be serialised. -/
def bodystring : Option Lmx → Sys (Option CStr)
  | none => pure (some [])
  | some x => Sys.mem x.getString

def sendsoapbody (conn : Nat) (firstline : CStr) (soapbody : Option Lmx) : Sys Bool := do
  match ← bodystring soapbody with
  | none => pure false
  | some sb =>
      let buflen := soapbuflen firstline sb
      -- with such a length the allocation fails, or the write request
      if buflen < 0 then pure false
      else do
        let n := buflen.toNat
        match ← Sys.mem (malloc (n + 1)) with
        | none => pure false
        | some buf => do
            let (_, buf) ← Sys.mem (snprintf buf 0 (n + 1 : Nat) (soaptext firstline sb))
            Naf.Conn.reqwrite conn (buf.bytes 0 n)

/-- One HTTP message with this content. -/
def soapmessage (firstline content : CStr) : CStr :=
  firstline ++ lit "\r\n" ++ defaultheaders ++ lit "Content-Length: " ++ decimal content.length ++
    lit "\r\n\r\n" ++ content

/-- The content of a reply. -/
def content : Option Lmx → CStr
  | none => []
  | some x => x.serial

/-! ## Lengths -/

theorem length_decimal_pos (n : Nat) : 0 < (decimal n).length := by
  rw [decimal, List.length_map]
  exact Nat.length_toDigits_pos

theorem length_decimal_le {n k : Nat} (hk : 0 < k) (hn : n < 10 ^ k) : (decimal n).length ≤ k := by
  rw [decimal, List.length_map]
  exact (Nat.length_toDigits_le_iff (by decide) hk).2 hn

/-- What the message needs, next to what is asked for it. -/
theorem length_soapmessage (firstline content : CStr) :
    (soapmessage firstline content).length + 112 =
      firstline.length + 2 + defaultheaders.length + 128 + 4 + content.length + (decimal content.length).length := by
  simp [soapmessage, lit]
  omega

/-- An `int` that is not negative is the remainder. -/
theorem eq_mod_of_bmod {n m : Nat} (h : (n : Int) = Int.bmod m 4294967296) : n = m % 4294967296 ∧ n < 2147483648 := by
  unfold Int.bmod at h
  dsimp only at h
  split at h <;> omega

theorem bmod_of_lt {n : Nat} (hn : n < 2147483648) : Int.bmod n 4294967296 = n := by
  rw [Int.bmod_eq_of_le] <;> omega

theorem intdecimal_eq {n : Nat} (hn : n < 2147483648) : intdecimal n = decimal n := by
  have hbmod := bmod_of_lt hn
  unfold intdecimal
  simp only [hbmod]
  rw [if_neg (by omega), Int.natAbs_natCast]

/-- The message is never as long as what is queued. -/
theorem length_soapmessage_ne {firstline content : CStr} {n : Nat} (hn : (n : Int) = soapbuflen firstline content) :
    (soapmessage firstline content).length ≠ n := by
  have hlen := length_soapmessage firstline content
  have hpos := length_decimal_pos content.length
  obtain ⟨hmod, hlt⟩ := eq_mod_of_bmod hn
  intro heq
  by_cases hsmall : content.length < 10 ^ 10
  · have hdigits := length_decimal_le (by decide) hsmall
    omega
  · omega

/-! ## What is queued -/

section

variable {conn : Nat} {firstline : CStr} {soapbody : Option Lmx} {w w' : World} {b : Bool}

/-- The tree is serialised when there is memory for it, and right when an `int` counts it. -/
theorem bodystring_ok {o : Option CStr} (hzero : 0 ∉ content soapbody) (hr : bodystring soapbody w = .ok (o, w')) :
    w'.trace = w.trace ∧ ∀ sb, o = some sb → (content soapbody).length + 1 < 2 ^ 31 → sb = content soapbody := by
  cases soapbody with
  | none =>
      cases Prog.pure_ok.1 hr
      refine ⟨rfl, fun sb hsb _ => ?_⟩
      cases hsb
      rfl
  | some x =>
      obtain ⟨o', h, hstring, hr⟩ := Sys.mem_ok.1 hr
      cases hr
      refine ⟨rfl, fun sb hsb hlen => ?_⟩
      subst hsb
      rw [Lmx.getString_eq hzero hlen] at hstring
      by_cases hun : w.env.heap.unwilling
      · rw [if_pos hun] at hstring
        cases hstring
      · rw [if_neg hun] at hstring
        cases hstring
        rfl

/-- Into a buffer of one byte more `snprintf` writes all that is queued. -/
theorem snprintf_eq {buf : Block} {n : Nat} (s : CStr) (h : Naf.Heap) (hsize : buf.size = n + 1) :
    snprintf buf 0 (n + 1 : Nat) s h = .ok ((s.length, buf.lay 0 (s.take n)), h) := by
  have hstore : buf.store 0 (s.take n ++ [0]) h = .ok (buf.lay 0 (s.take n), h) := by
    refine Block.store_of_le ?_
    rw [List.length_append, List.length_take, List.length_singleton]
    omega
  rw [snprintf, if_neg (by omega), if_pos (by omega), Int.toNat_natCast, Nat.add_sub_cancel,
    Prog.bind_of_ok hstore]
  rfl

/-- A call that returns queued nothing, or the whole buffer but its last byte. -/
theorem sendsoapbody_ok (hzero : 0 ∉ content soapbody)
    (hr : sendsoapbody conn firstline soapbody w = .ok (b, w')) :
    w'.trace = w.trace ∧ b = false ∨
      ∃ (sb : CStr) (n : Nat) (buf : Block), ((content soapbody).length + 1 < 2 ^ 31 → sb = content soapbody) ∧
        (n : Int) = soapbuflen firstline sb ∧ buf.size = n + 1 ∧
        w'.trace = w.trace ++ [if b then .queued conn ((buf.lay 0 ((soaptext firstline sb).take n)).bytes 0 n)
          else .refused conn] := by
  rw [sendsoapbody, bind_ok] at hr
  obtain ⟨o, w₁, hstring, hr⟩ := hr
  obtain ⟨htrace, hcontent⟩ := bodystring_ok hzero hstring
  rcases o with _ | sb
  · cases Prog.pure_ok.1 hr
    exact .inl ⟨htrace, rfl⟩
  have hcontent := hcontent sb rfl
  dsimp only at hr
  -- the length is an int: past its range nothing is allocated
  by_cases hneg : soapbuflen firstline sb < 0
  · rw [if_pos hneg] at hr
    cases Prog.pure_ok.1 hr
    exact .inl ⟨htrace, rfl⟩
  obtain ⟨n, hn⟩ := Int.eq_ofNat_of_zero_le (Int.not_lt.1 hneg)
  rw [if_neg hneg, hn, Int.toNat_natCast, bind_ok] at hr
  obtain ⟨o, w₂, hmalloc, hr⟩ := hr
  obtain ⟨buf, h, hbuf, hw₂⟩ := Sys.mem_ok.1 hmalloc
  cases hw₂
  cases o with
  | none =>
      cases Prog.pure_ok.1 hr
      exact .inl ⟨htrace, rfl⟩
  | some buf =>
      have hsize : buf.size = n + 1 := Naf.malloc_size _ _ _ _ hbuf buf rfl
      dsimp only at hr
      rw [bind_ok] at hr
      obtain ⟨⟨m, buf'⟩, w₃, hmem, hr⟩ := hr
      obtain ⟨r, h', hprint, hw₃⟩ := Sys.mem_ok.1 hmem
      cases hw₃
      rw [snprintf_eq _ _ hsize] at hprint
      cases hprint
      dsimp only at hr
      cases n with
      | zero =>
          cases Prog.pure_ok.1 hr
          exact .inl ⟨htrace, rfl⟩
      | succ n =>
          have hne : (buf.lay 0 ((soaptext firstline sb).take (n + 1))).bytes 0 (n + 1) ≠ [] := by
            rw [Block.bytes_succ]
            exact List.cons_ne_nil _ _
          obtain ⟨env, -, rfl⟩ := Oscar.reqwrite_ok hne hr
          refine .inr ⟨sb, n + 1, buf, hcontent, hn.symm, hsize, ?_⟩
          rw [← htrace]
          rfl

/-- A buffer's length is an `int`, and no `int` is the length of such a message. -/
theorem length_soapmessage_of_long {content sb : CStr} {n : Nat} (hn : (n : Int) = soapbuflen firstline sb)
    (hlong : ¬content.length + 1 < 2 ^ 31) : (soapmessage firstline content).length ≠ n := by
  have hlen := length_soapmessage firstline content
  have hlt := (eq_mod_of_bmod hn).2
  omega

theorem sendsoapbody_ne (hzero : 0 ∉ content soapbody)
    (hr : sendsoapbody conn firstline soapbody w = .ok (b, w')) :
    w'.trace ≠ w.trace ++ [.queued conn (soapmessage firstline (content soapbody))] := by
  rcases sendsoapbody_ok hzero hr with ⟨htrace, rfl⟩ | ⟨sb, n, buf, hcontent, hn, hsize, htrace⟩
  · rw [htrace]
    simp
  intro heq
  rw [htrace] at heq
  have hsent := List.singleton_inj.1 (List.append_cancel_left heq)
  cases b with
  | false => cases hsent
  | true =>
      have hlen : (soapmessage firstline (content soapbody)).length ≠ n := by
        by_cases hshort : (content soapbody).length + 1 < 2 ^ 31
        · rw [hcontent hshort] at hn
          exact length_soapmessage_ne hn
        · exact length_soapmessage_of_long hn hshort
      rw [if_pos rfl, Obs.queued.injEq] at hsent
      rw [← hsent.2, Block.length_bytes] at hlen
      exact hlen rfl

/-- Behind a message of ordinary length a NUL is queued, and what the memory of the buffer held. -/
theorem sendsoapbody_true (hzero : 0 ∉ content soapbody)
    (hr : sendsoapbody conn firstline soapbody w = .ok (true, w'))
    (hsmall : firstline.length + (content soapbody).length + 300 < 2147483648) :
    ∃ junk, w'.trace = w.trace ++ [.queued conn (soapmessage firstline (content soapbody) ++ 0 :: junk)] := by
  rcases sendsoapbody_ok hzero hr with ⟨-, hfalse⟩ | ⟨sb, n, buf, hcontent, hn, hsize, htrace⟩
  · cases hfalse
  obtain rfl := hcontent (by omega)
  have hcount : soaptext firstline (content soapbody) = soapmessage firstline (content soapbody) := by
    rw [soaptext, intdecimal_eq (by omega)]
    rfl
  have hlen := length_soapmessage firstline (content soapbody)
  have hdigits := length_decimal_le (n := (content soapbody).length) (k := 10) (by decide) (by omega)
  have hheaders : defaultheaders.length < 100 := by decide
  obtain ⟨hmod, -⟩ := eq_mod_of_bmod hn
  generalize hmsg : soapmessage firstline (content soapbody) = msg at hlen hcount ⊢
  have hshort : msg.length < n := by omega
  obtain ⟨k, rfl⟩ := Nat.exists_eq_add_of_lt hshort
  refine ⟨(buf.lay 0 msg).bytes (msg.length + 1) k, ?_⟩
  have hbytes := buf.lay_bytes 0 msg
  have hend := buf.lay_terminator 0 msg
  rw [Nat.zero_add] at hend
  rw [htrace, if_pos rfl, hcount, List.take_of_length_le (by omega), Nat.add_assoc, Block.bytes_add, hbytes,
    Nat.zero_add, Block.bytes_succ, hend]

/-- What is queued is never the message: it goes on behind it. -/
theorem reply_padded (hzero : 0 ∉ content soapbody)
    (hr : sendsoapbody conn firstline soapbody w = .ok (b, w')) :
    w'.trace ≠ w.trace ++ [.queued conn (soapmessage firstline (content soapbody))] ∧
      (b = true → firstline.length + (content soapbody).length + 300 < 2147483648 →
        ∃ junk, w'.trace =
          w.trace ++ [.queued conn (soapmessage firstline (content soapbody) ++ 0 :: junk)]) := by
  refine ⟨sendsoapbody_ne hzero hr, ?_⟩
  rintro rfl hsmall
  exact sendsoapbody_true hzero hr hsmall

theorem reqwrite_sends {c : Conn} {q : Bytes} (hq : q ≠ []) (hconn : w.conn? conn = some c)
    (hwrite : w.env.writeRefused = []) : ∃ w', Naf.Conn.reqwrite conn q w = .ok (true, w') := by
  have hnow : Sys.now w = .ok (w.env.now, w) := rfl
  have hrefused : ∀ f, (w.modify conn f).env.writeRefused = [] := fun _ => hwrite
  rw [Naf.Conn.reqwrite, if_neg hq, Prog.bind_of_ok hnow,
    Prog.bind_of_ok (Sys.modify_ok.2 ⟨⟨c, hconn⟩, rfl⟩), Prog.bind_of_ok (Sys.writeRefused_ok.2 rfl), hrefused]
  exact ⟨_, rfl⟩

/-- With memory and an open connection something is queued. -/
theorem sendsoapbody_sends (conn : Nat) (firstline : CStr) (soapbody : Option Lmx) {c : Conn}
    (hwilling : w.env.heap.refuse = []) (hconn : w.conn? conn = some c) (hwrite : w.env.writeRefused = [])
    (hzero : 0 ∉ content soapbody)
    (hsmall : firstline.length + (content soapbody).length + 300 < 2147483648) :
    ∃ w', sendsoapbody conn firstline soapbody w = .ok (true, w') := by
  have hbody : bodystring soapbody w = .ok (some (content soapbody), w) := by
    cases soapbody with
    | none => rfl
    | some x =>
        have hlen : x.serial.length + 1 < 2 ^ 31 := by
          rw [content] at hsmall
          omega
        have hstring := Lmx.getString_eq (h := w.env.heap) hzero hlen
        rw [Naf.Heap.willing hwilling, Naf.Heap.next_of_willing hwilling] at hstring
        exact Sys.mem_of_steady hstring
  have hheaders : defaultheaders.length < 100 := by decide
  obtain ⟨n, hn, hpos⟩ : ∃ n : Nat, soapbuflen firstline (content soapbody) = n ∧ 0 < n :=
    ⟨_, bmod_of_lt (by omega), by omega⟩
  obtain ⟨n, rfl⟩ := Nat.exists_eq_succ_of_ne_zero (Nat.ne_of_gt hpos)
  have hprint := fun buf hsize => Sys.mem_of_steady (@snprintf_eq buf (n + 1) (soaptext firstline (content soapbody))
    w.env.heap hsize)
  rw [sendsoapbody, Prog.bind_of_ok hbody]
  dsimp only
  rw [hn, if_neg (by omega), Int.toNat_natCast, Prog.bind_of_ok (Sys.mem_of_steady (malloc_of_willing hwilling))]
  dsimp only
  rw [Prog.bind_of_ok (hprint _ rfl)]
  dsimp only
  exact reqwrite_sends (by rw [Block.bytes_succ]; exact List.cons_ne_nil _ _) hconn hwrite

/-- A connection, and nothing else. -/
def alone : World := .ofConns [Naf.Conn.newconn 0 none {} ⟨[], 0⟩]

/-- An empty reply is sent with more behind it. -/
theorem reply_padded_empty :
    ∃ w' junk, sendsoapbody 0 (lit "HTTP/1.1 200 OK") none alone = .ok (true, w') ∧
      w'.trace = [.queued 0 (soapmessage (lit "HTTP/1.1 200 OK") [] ++ 0 :: junk)] := by
  obtain ⟨w', hrun⟩ := sendsoapbody_sends (w := alone) 0 (lit "HTTP/1.1 200 OK") none rfl rfl rfl
    List.not_mem_nil (by decide)
  obtain ⟨junk, htrace⟩ := sendsoapbody_true List.not_mem_nil hrun (by decide)
  exact ⟨w', junk, hrun, htrace⟩

/-- A reply with a text in it -/
def pong : Lmx := .tag (lit "r") [] [.cdata (lit "ok")]

/-- So is one with a tree. -/
theorem reply_padded_sent :
    ∃ w', sendsoapbody 0 (lit "HTTP/1.1 200 OK") (some pong) alone = .ok (true, w') ∧
      w'.trace ≠ [.queued 0 (soapmessage (lit "HTTP/1.1 200 OK") (lit "<r>ok</r>"))] ∧
      (true = true → 15 + 9 + 300 < 2147483648 →
        ∃ junk, w'.trace = [.queued 0 (soapmessage (lit "HTTP/1.1 200 OK") (lit "<r>ok</r>") ++ 0 :: junk)]) := by
  have hserial : content (some pong) = lit "<r>ok</r>" := rfl
  have hzero : 0 ∉ content (some pong) := by
    rw [hserial]
    decide
  obtain ⟨w', hrun⟩ := sendsoapbody_sends (w := alone) 0 (lit "HTTP/1.1 200 OK") (some pong) rfl rfl rfl hzero
    (by rw [hserial]; decide)
  have hpadded := reply_padded hzero hrun
  rw [hserial] at hpadded
  exact ⟨w', hrun, hpadded⟩

end

end Timps.Httpd
