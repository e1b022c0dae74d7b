-- SUMMARY: What the SNAC handlers and their dispatch do, act by act.
import Timps.Oscar.HandlerActs

/-!
# The acts of the SNAC handlers

Two handlers need a permission: 0017/0003 adds the one entry that `newcookie` computes
from its payload, and 0017/0006 connects a client that has no endpoint yet.
-/

namespace Timps.Oscar

open Naf (Block Mem Sbuf Tag Tlv lit byteGet16 byteGet32)
open Naf.Conn (tagAdd tagFetch schedulekill getlocaladdrstr)
open Gnr (metricLocal)
open Prog (Does DoesFrom Gives keep bind_ok pure_ok map_ok read_ok update_ok)
open Relation (ReflTransGen)
open Sys (mem conn deref modify)

variable {p : Perm} {w w' : World} {R : World → World → Prop}

/-! ## Instant messages -/

theorem msgFree_does (gm : Option Msg) : Does R (Gnr.msgFree gm) := by
  cases gm with
  | none => exact .fault _
  | some gm => exact .pure _

theorem out_0004_0006_does (gm : Option Msg) (ret : Hret) : Does R (out_0004_0006 gm ret) :=
  .bind (.ite (fun _ => msgFree_does gm) fun _ => .pure _) fun _ => .pure _

theorem out_0004_0007_does (gm : Option Msg) (ret : Hret) : Does R (out_0004_0007 gm ret) :=
  .bind (msgFree_does gm) fun _ => .pure _

theorem msgNew_quiet : Does (Quiet p) (Gnr.msgNew : Sys (Option Msg)) := by
  refine .bind (mem_quiet _) fun b => ?_
  cases b <;> exact .pure _

theorem msgTagAdd_quiet (gm : Msg) (name : CStr) (type : Char) (data : Hint) :
    Does (Quiet p) (Gnr.msgTagAdd module gm name type data) := by
  refine .bind (mem_quiet _) fun r => ?_
  cases r <;> exact .pure _

/-- Reading a message touches no connection. -/
theorem parsechan1_quiet (gm : Msg) (tlvh : List Tlv) : Does (Quiet p) (parsechan1 gm tlvh) := by
  refine .bind ?_ fun _ => .pure _
  rcases Tlv.remove tlvh 0x0002 with ⟨_ | tlv, rest⟩
  · exact .pure _
  · refine .bind (mem_quiet _) fun r => .ite (fun _ => ?_) fun _ => .pure _
    exact .bind (msgTagAdd_quiet _ _ _ _) fun _ => .pure _

/-- A message of a client may be routed, and then other connections are written to. -/
theorem snachandler_0004_0006_acts (cid : Nat) (snac : Snac) :
    Does (Act p) (snachandler_0004_0006 cid snac) := by
  refine .bind (conn_does cid) fun c => .bind (fetchScreenname_does _) fun srcsn => ?_
  cases srcsn with
  | none => exact out_0004_0006_does _ _
  | some srcsn =>
  refine .bind (Quiet.act (mem_quiet _)) fun (msgck, sb) => ?_
  cases msgck with
  | none => exact out_0004_0006_does _ _
  | some msgck =>
  refine .bind (Quiet.act (mem_quiet _)) fun (msgchan, sb) => ?_
  refine .bind (Quiet.act (mem_quiet _)) fun (destsnlen, sb) => ?_
  refine .bind (Quiet.act (mem_quiet _)) fun (destsn, sb) => ?_
  cases destsn with
  | none => exact out_0004_0006_does _ _
  | some destsn =>
  refine .bind (Quiet.act (mem_quiet _)) fun (tlvh, sb) => ?_
  refine .bind (Quiet.act msgNew_quiet) fun gm => ?_
  cases gm with
  | none => exact out_0004_0006_does _ _
  | some gm =>
  refine .bind (Quiet.act (msgTagAdd_quiet _ _ _ _)) fun (added, gm) => ?_
  cases added with
  | false => exact out_0004_0006_does _ _
  | true =>
  refine .bind (Quiet.act (msgTagAdd_quiet _ _ _ _)) fun (added, gm) => ?_
  cases added with
  | false => exact out_0004_0006_does _ _
  | true =>
  refine .ite (fun _ => out_0004_0006_does _ _) fun _ => ?_
  refine .bind (Quiet.act (parsechan1_quiet _ _)) fun (gm, tlvh) => ?_
  refine .bind (Quiet.act (msgTagAdd_quiet _ _ _ _)) fun (_, gm) => ?_
  refine .bind (assumeExternal_acts _) fun _ => ?_
  exact .bind (msgRoute_acts _) fun _ => out_0004_0006_does _ _

theorem snachandler_0004_0007_acts (cid : Nat) (snac : Snac) :
    Does (Act p) (snachandler_0004_0007 cid snac) := by
  refine .bind (fetchScreenname_does _) fun destsn => ?_
  cases destsn with
  | none => exact out_0004_0007_does _ _
  | some destsn =>
  refine .bind (Quiet.act (mem_quiet _)) fun (msgck, sb) => ?_
  cases msgck with
  | none => exact out_0004_0007_does _ _
  | some msgck =>
  refine .bind (Quiet.act (mem_quiet _)) fun (msgchan, sb) => ?_
  refine .bind (Quiet.act (mem_quiet _)) fun (srcinfo, sb) => ?_
  cases srcinfo with
  | none => exact out_0004_0007_does _ _
  | some srcinfo =>
  refine .bind (Quiet.act (mem_quiet _)) fun (tlvh, sb) => ?_
  refine .bind (Quiet.act msgNew_quiet) fun gm => ?_
  cases gm with
  | none => exact out_0004_0007_does _ _
  | some gm =>
  refine .bind (Quiet.act (msgTagAdd_quiet _ _ _ _)) fun (added, gm) => ?_
  cases added with
  | false => exact out_0004_0007_does _ _
  | true =>
  refine .bind (Quiet.act (msgTagAdd_quiet _ _ _ _)) fun (added, gm) => ?_
  cases added with
  | false => exact out_0004_0007_does _ _
  | true =>
  refine .ite (fun _ => out_0004_0007_does _ _) fun _ => ?_
  refine .bind (Quiet.act (parsechan1_quiet _ _)) fun (gm, tlvh) => ?_
  refine .bind (Quiet.act (msgTagAdd_quiet _ _ _ _)) fun (added, gm) => ?_
  cases added with
  | false => exact out_0004_0007_does _ _
  | true =>
  refine .bind (Quiet.act (msgTagAdd_quiet _ _ _ _)) fun (_, gm) => ?_
  refine .bind (assumeExternal_acts _) fun _ => ?_
  exact .bind (msgRoute_acts _) fun _ => out_0004_0007_does _ _

/-! ## Going online -/

/-- With Client Online the user of the connection goes online. -/
theorem snachandler_0001_0002_acts (cid : Nat) (snac : Snac) :
    Does (Act p) (snachandler_0001_0002 cid snac) := by
  intro w
  refine .bind (conn_does cid w) fun c w hconn => ?_
  obtain ⟨hc, rfl⟩ := Sys.conn_ok.1 hconn
  refine .ite (fun _ => .pure _) fun _ => ?_
  refine .bind (fetchScreenname_does _ _) fun sn w₁ hfetch => ?_
  obtain ⟨hsn, -⟩ := fetchScreenname_ok hfetch
  cases hsn
  cases hname : (c.endpoint.bind w.conn?).bind screennameOf with
  | none => exact .pure _
  | some sn =>
  refine .bind (Quiet.act (detacholdconns_quiet sn) _) fun _ w₁ hdetach => ?_
  -- the connection whose tag was read is still open, and its tag is still there
  have hguard : ∃ e c, w₁.conn? e = some c ∧ screennameOf c = some sn := by
    simp only [Option.bind_eq_some_iff] at hname
    obtain ⟨n, ⟨e, -, hn⟩, hnsn⟩ := hname
    have hview := keep (I := fun v => (v.conn? e).map view = (w.conn? e).map view)
      (fun _ _ h heq => (h.view e).trans heq) (detacholdconns_quiet (p := p) sn _ _ _ hdetach) rfl
    simp only [hn, Option.map_some, Option.map_eq_some_iff, view, Prod.mk.injEq] at hview
    obtain ⟨n', hn', hview⟩ := hview
    exact ⟨e, n', hn', hview.2.2.2.trans hnsn⟩
  refine .bind (nodeOnline_acts (.inl ⟨rfl, hguard⟩)) fun gn w₂ _ => ?_
  cases gn <;> exact .pure _

theorem snachandler_0001_0003_quiet (cid : Nat) (snac : Snac) :
    Does (Quiet p) (snachandler_0001_0003 cid snac) :=
  .bind (modify_quiet fun _ => ⟨fun _ => rfl, rfl, rfl, rfl, rfl, fun _ => .inl, rfl, rfl⟩) fun _ => .pure _

theorem snachandler_0001_000b_does (cid : Nat) (snac : Snac) :
    Does R (snachandler_0001_000b cid snac) :=
  .bind (tagFetch_does _ _ _) fun _ => .pure _

/-! ## Logging in -/

/-- The entry that an authentication reply brings to the cache, before it is stamped:
none on a login failure, when a TLV is missing, when there is no cookie or it is cached
already, or without memory. -/
def newcookie (cache : List Ckcache) (payload : Sbuf) : Mem (Option Ckcache) := do
  let (tlvh, _) ← Tlv.parse payload
  if (Tlv.get tlvh 0x0004).isSome || (Tlv.get tlvh 0x0008).isSome then pure none
  else do
    let sn ← Tlv.getasstring tlvh 0x0001
    let ip ← Tlv.getasstring (Tlv.remove tlvh 0x0005).1.toList 0x0005
    match Tlv.get tlvh 0x0006, ip, sn with
    | some cktlv, some ip, some sn =>
        match cktlv.value with
        | some ck => if ck = [] ∨ (ckcacheFind cache ck).isSome then pure none else ckcAlloc ck ip sn
        | none => pure none
    | _, _, _ => pure none

theorem getlocaladdrstr_quiet (cid : Option Nat) : Does (Quiet p) (getlocaladdrstr cid) := by
  refine .bind (.read _) fun extipaddr => .bind ?_ fun ip => .bind (mem_quiet _) fun b => ?_
  · split
    · exact .pure _
    · exact .bind (deref_does _) fun _ => .pure _
  cases b with
  | none => exact .pure _
  | some b =>
      refine .ite (fun _ => .pure _) fun _ => .bind (deref_does _) fun c => .bind (mem_quiet _) fun b => ?_
      cases b <;> exact .pure _

/-- A cookie is added that the cache does not have. -/
theorem ckcacheAdd_acts {ck : Option Bytes} {ip sn : CStr} {servtype : Nat}
    (hcookie : ∀ v ckc h, ck = some v → v ≠ [] → (ckcacheFind w.ckcache v).isSome = false →
      ckcAlloc v ip sn w.env.heap = .ok (some ckc, h) →
      p.cookie { ckc with addtime := w.env.now }) :
    DoesFrom (Act p) (ckcacheAdd ck ip sn servtype) w := by
  cases ck with
  | none => exact .pure _
  | some ck =>
      refine .ite (fun _ => .pure _) fun hne => ?_
      refine .bind (.read _) fun cache w hcache => ?_
      cases hcache
      refine .ite (fun _ => .pure _) fun hnew => ?_
      refine .bind (Quiet.act (mem_quiet _) _) fun r w₁ hmem => ?_
      obtain ⟨_, h, halloc, hr⟩ := Sys.mem_ok.1 hmem
      cases hr
      cases r with
      | none => exact .pure _
      | some ckc =>
          refine .bind (.read _) fun now w₁ hnow => ?_
          cases hnow
          exact .bind (.update (.cookieAdd (hcookie ck ckc h rfl hne (by simpa using hnew) halloc)))
            fun _ _ _ => .pure _

/-- What follows when the cookie is cached: the reply goes on with our own address. -/
theorem readdress_quiet {endpoint : Option Nat} {id : Nat} {tlvh : List Tlv} :
    Does (Quiet p) (do
      let some las ← getlocaladdrstr endpoint | pure .error
      let (_, tlvh) ← mem (Tlv.addstring tlvh 0x0005 las)
      let some sb ← mem (newsnacsb 0x0017 0x0003 0x0000 id) | pure .error
      let (_, sb) ← mem (Tlv.render tlvh sb)
      let .true ← sendsbufConsume endpoint sb | pure .error
      pure Hret.digested : Sys Hret) := by
  refine .bind (getlocaladdrstr_quiet _) fun las => ?_
  cases las with
  | none => exact .pure _
  | some las =>
  refine .bind (mem_quiet _) fun (_, tlvh) => ?_
  refine .bind_gives (mem_quiet _) (.focus newsnacsb_head) fun sb hhead => ?_
  cases sb with
  | none => exact .pure _
  | some sb =>
  refine .bind_gives (mem_quiet _) (.focus (render_head _ (hhead sb rfl))) fun (_, sb) h => ?_
  refine .bind (sendsbufConsume_quiet h (six_le_snachead ..)) fun b => ?_
  cases b <;> exact .pure _

/-- The answer of an authorizer adds its cookie. -/
theorem snachandler_0017_0003_acts {cid : Nat} {snac : Snac}
    (hcookie : ∀ ckc h, newcookie w.ckcache snac.payload w.env.heap = .ok (some ckc, h) →
      p.cookie { ckc with addtime := w.env.now }) :
    DoesFrom (Act p) (snachandler_0017_0003 cid snac) w := by
  refine .bind (conn_does cid w) fun c w hconn => ?_
  obtain ⟨-, rfl⟩ := Sys.conn_ok.1 hconn
  refine .bind (Quiet.act (mem_quiet _) _) fun (tlvh, sb) w₁ hmem => ?_
  obtain ⟨_, h₁, hparse, hr⟩ := Sys.mem_ok.1 hmem
  cases hr
  refine .ite (fun _ => .pure _) fun hlogin => ?_
  refine .bind (Quiet.act (mem_quiet _) _) fun sn w₂ hmem => ?_
  obtain ⟨_, h₂, hsn, hr⟩ := Sys.mem_ok.1 hmem
  cases hr
  refine .bind (Quiet.act (mem_quiet _) _) fun ip w₃ hmem => ?_
  obtain ⟨_, h₃, hip, hr⟩ := Sys.mem_ok.1 hmem
  cases hr
  have hsn : Tlv.getasstring tlvh 0x0001 h₁ = .ok (sn, h₂) := hsn
  have hip : Tlv.getasstring (Tlv.remove tlvh 0x0005).1.toList 0x0005 h₂ = .ok (ip, h₃) := hip
  rcases hcktlv : Tlv.get tlvh 0x0006 with _ | cktlv
  · exact .pure _
  rcases ip with _ | ip
  · exact .pure _
  rcases sn with _ | sn
  · exact .pure _
  refine .bind (ckcacheAdd_acts fun v ckc h hv hne hnew halloc => hcookie ckc h ?_) fun added w₄ _ => ?_
  · unfold newcookie
    rw [Prog.bind_of_ok hparse]
    simp only [if_neg hlogin]
    rw [Prog.bind_of_ok hsn, Prog.bind_of_ok hip]
    have hfresh : ¬(v = [] ∨ (ckcacheFind w.ckcache v).isSome = true) := by
      rintro (h | h)
      · exact hne h
      · exact Bool.false_ne_true (hnew.symm.trans h)
    simp only [hcktlv, hv, if_neg hfresh]
    exact halloc
  · cases added with
    | false => exact .pure _
    | true => exact Quiet.act readdress_quiet _

/-- A login may open a connection to the authorizer. -/
theorem loginconnect_acts {cid : Nat} {snac : Snac} {tlvh : List Tlv} (wf : w.Wf)
    (hstart : p.start ≤ w.nextcid) : DoesFrom (Act p) (loginconnect cid snac tlvh) w := by
  refine .bind (conn_does cid w) fun c w hconn => ?_
  obtain ⟨hc, rfl⟩ := Sys.conn_ok.1 hconn
  refine .ite (fun _ => .pure _) fun hend => ?_
  refine .bind (.read _) fun authorizer w hauth => ?_
  cases hauth
  have hperm : ∀ c', w.conn? cid = some c' → c'.endpoint.isSome → c'.type.client = true ∧ p.reconnect := by
    intro c' hc' hsome
    rw [hc] at hc'
    cases hc'
    exact absurd hsome hend
  refine .bind (fun b w₁ h => (startconnect_acts wf hstart (fun _ => hperm) h).1) fun b w₁ _ => ?_
  cases b with
  | false => exact .pure _
  | true =>
  refine Quiet.act (.bind (modify_quiet ?_) fun _ => .bind (conn_does cid) fun c => ?_) _
  · exact fun _ => ⟨fun _ => rfl, rfl, rfl, rfl, rfl, fun _ => .inl, rfl, rfl⟩
  refine .bind (deref_does _) fun e => .bind (modify_quiet ?_) fun _ => ?_
  · exact fun _ => ⟨fun _ => rfl, rfl, rfl, rfl, rfl, fun _ => .inl, rfl, rfl⟩
  refine .bind (tagAdd_quiet (by decide)) fun b => ?_
  cases b with
  | false => exact .pure _
  | true =>
  refine .bind (tagAdd_quiet (by decide)) fun b => ?_
  cases b <;> exact .pure _

theorem snachandler_0017_0006_acts {cid : Nat} {snac : Snac} (wf : w.Wf)
    (hstart : p.start ≤ w.nextcid) : DoesFrom (Act p) (snachandler_0017_0006 cid snac) w := by
  refine .bind (Quiet.act (mem_quiet _) _) fun (tlvh, sb) w₁ hparse => ?_
  obtain ⟨_, h₁, -, hr⟩ := Sys.mem_ok.1 hparse
  cases hr
  refine .bind (Quiet.act (mem_quiet _) _) fun sn w₂ hsn => ?_
  obtain ⟨_, h₂, -, hr⟩ := Sys.mem_ok.1 hsn
  cases hr
  refine .ite (fun _ => ?_) fun _ => loginconnect_acts (wf.congr rfl (Nat.le_refl _)) hstart
  refine Quiet.act (.bind (authSendfail_quiet _ _ _ _) fun _ => ?_) _
  refine .bind (sendconnclose_quiet _ _ _) fun _ => ?_
  exact .bind (schedulekill_quiet _) fun _ => .pure _

/-! ## Dispatch -/

/-- What a payload of at least ten bytes parses to, as long as it can be read. -/
def snacOf (buf : Block) (buflen : Nat) : Snac :=
  let flags := byteGet16 (buf.byte 4) (buf.byte 5)
  let exthdrlen := if flags.testBit 15 then byteGet16 (buf.byte 10) (buf.byte 11) else 0
  let skipped := snachdrlen + extended exthdrlen
  { group := byteGet16 (buf.byte 0) (buf.byte 1)
    subtype := byteGet16 (buf.byte 2) (buf.byte 3)
    flags
    id := byteGet32 (buf.byte 6) (buf.byte 7) (buf.byte 8) (buf.byte 9)
    extinfo := extinfoOf buf exthdrlen
    payload :=
      { autoresize := false, freebuf := false, block := buf.suffix skipped
        buflen := (buflen + 131072 - skipped) % 65536, pos := 0 } }

/-- Parsing a SNAC reads its head and takes its payload as it lies. -/
theorem parsesnac_ok {buf : Block} {buflen : Nat} {h : Naf.Heap} {r : Snac × Naf.Heap}
    (hr : parsesnac buf buflen h = .ok r) : r = (snacOf buf buflen, h) := by
  have hword : ∀ {off h r}, wordAt buf off h = .ok r →
      r = (byteGet16 (buf.byte off) (buf.byte (off + 1)), h) := by
    intro off h r hr
    obtain ⟨_, _, hload, hr⟩ := bind_ok.1 hr
    obtain ⟨-, hload⟩ := Block.load_ok.1 hload
    cases hload
    exact pure_ok.1 hr
  unfold parsesnac at hr
  obtain ⟨group, _, h₁, hr⟩ := bind_ok.1 hr
  cases hword h₁
  obtain ⟨subtype, _, h₂, hr⟩ := bind_ok.1 hr
  cases hword h₂
  obtain ⟨flags, _, h₃, hr⟩ := bind_ok.1 hr
  cases hword h₃
  obtain ⟨v, _, h₄, hr⟩ := bind_ok.1 hr
  obtain ⟨-, h₄⟩ := Block.load_ok.1 h₄
  cases h₄
  obtain ⟨exthdrlen, h', h₅, hr⟩ := bind_ok.1 hr
  have hext : (exthdrlen, h') = (if (byteGet16 (buf.byte 4) (buf.byte 5)).testBit 15 then
      byteGet16 (buf.byte 10) (buf.byte 11) else 0, h) := by
    split at h₅
    · rename_i hbit
      rw [if_pos hbit]
      exact hword h₅
    · rename_i hbit
      rw [if_neg hbit]
      exact pure_ok.1 h₅
  cases hext
  exact pure_ok.1 hr

/-- The entry that a SNAC brings to the cookie cache. -/
def snaccookie (w : World) (buf : Block) (buflen : Nat) (ckc : Ckcache) : Prop :=
  snachdrlen ≤ buflen ∧ (snacOf buf buflen).group = 0x0017 ∧ (snacOf buf buflen).subtype = 0x0003 ∧
    ∃ ckc₀ h, newcookie w.ckcache (snacOf buf buflen).payload w.env.heap = .ok (some ckc₀, h) ∧
      ckc = { ckc₀ with addtime := w.env.now }

/-- Whichever handler takes a SNAC, what it does is one of the steps. -/
theorem handlesnac_acts {cid : Nat} {buf : Block} {buflen : Nat} (wf : w.Wf)
    (hstart : p.start ≤ w.nextcid) (hcookie : ∀ ckc, snaccookie w buf buflen ckc → p.cookie ckc) :
    DoesFrom (Act p) (handlesnac cid buf buflen) w := by
  refine .ite (fun _ => .pure _) fun hlen => ?_
  refine .bind (Quiet.act (mem_quiet _) _) fun snac w₁ hmem => ?_
  obtain ⟨_, h, hparse, hr⟩ := Sys.mem_ok.1 hmem
  cases hr
  cases parsesnac_ok hparse
  have wf' : (w.setHeap w.env.heap).Wf := wf
  cases hfind : snachandlers.find? fun i =>
      i.1 = (snacOf buf buflen).group && i.2.1 = (snacOf buf buflen).subtype with
  | none => exact .pure _
  | some entry =>
      have hmem := List.mem_of_find?_eq_some hfind
      have hkey := List.find?_some hfind
      simp only [Bool.and_eq_true, decide_eq_true_eq] at hkey
      simp only [snachandlers, List.mem_cons, List.not_mem_nil, or_false] at hmem
      rcases hmem with rfl | rfl | rfl | rfl | rfl | rfl | rfl
      · exact snachandler_0001_0002_acts _ _ _
      · exact Quiet.act (snachandler_0001_0003_quiet _ _) _
      · exact snachandler_0001_000b_does _ _ _
      · exact snachandler_0004_0006_acts _ _ _
      · exact snachandler_0004_0007_acts _ _ _
      · exact snachandler_0017_0003_acts fun ckc h hnew =>
          hcookie _ ⟨Nat.le_of_not_lt hlen, hkey.1.symm, hkey.2.symm, ckc, h, hnew, rfl⟩
      · exact snachandler_0017_0006_acts wf' hstart

end Timps.Oscar
