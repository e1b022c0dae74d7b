-- SUMMARY: Reconciling the open listeners with the configured ones: what is closed, what is opened, what is left alone.
import Timps.Naf.Cstring
import Timps.Naf.Numerals

/-!
# Listeners

When the configuration has changed, the listeners that are not configured are closed, and those
that are configured and not open are opened. The two parts read the same list of entries
`[addr:]port[/module]`, each in its own way: the first compares the address as text, the second
as a number.
-/

namespace Timps.Naf.Conn

open Prog (bind_of_ok)
open Sys (mem)

/-- `strtok` at commas -/
def tokens (conf : CStr) : List CStr := (conf.splitOn 44).filter fun cur => cur ≠ []

/-- `addr:` of an entry, and what follows it. -/
def splitaddr (cur : CStr) : Option CStr × CStr :=
  match cutAt 58 cur with
  | some (addr, cur) => (some addr, cur)
  | none => (none, cur)

/-- `naf_module_findbyname` among the loaded modules -/
def findbyname (modules : List Nafmodule) (name : CStr) : Option Nafmodule :=
  modules.find? fun m => strcaseeq name m.name

/-! ## Opening -/

section

-- whether libnbio can open a listener at an address and a port
variable (newlistener : Option CStr → Nat → Bool)

def listenestablish (addr : Option CStr) (portnum : Nat) (nowner : Option Nafmodule) : Sys (Option Nat) :=
  if newlistener addr portnum then do
    -- the new socket is bound to that address, or to any
    Prog.update fun w => { w with env := { w.env with sockname := ⟨addr.getD (inetNtop .any), portnum⟩ } }
    addconn nowner { listener := true }
  else pure none

/-- The addresses are compared as numbers, which have different texts. -/
def findlistenport (addr : Option CStr) (port : Nat) : Sys (Option Conn) :=
  match addr.elim (some InAddr.any) inetPton with
  | none => pure none
  | some sin => find fun c => Prog.read fun _ =>
      c.type.listener && c.localendpoint.ip == inetNtop sin && c.localendpoint.port == port

/-- The loop over the entries that opens listeners. -/
def openlistener (modules : List Nafmodule) (cur : CStr) : Sys Unit := do
  let (addr, cur) := splitaddr cur
  let portnum := atoi cur
  let owner := (cutAt 47 cur).map Prod.snd
  let nconnowner := owner.bind (findbyname modules)
  let duplicate ← findlistenport addr (portnum % 65536).toNat
  if (owner.isSome && nconnowner.isNone) || portnum == -1 || duplicate.isSome then pure ()
  else do
    let _ ← listenestablish newlistener addr (portnum % 65536).toNat nconnowner

end

/-! ## Closing -/

/-- An entry without an address is no match, since `inaddr` is there. -/
def isconfigured (inaddr : CStr) (inport : Nat) (cur : CStr) : Bool :=
  let (addr, cur) := splitaddr cur
  (inport : Int) == atoi cur && addr == some inaddr

def listenportIsconfigured (listenports : Option CStr) (inaddr : CStr) (inport : Nat) : Sys Bool :=
  match listenports with
  -- `strlen` of a null pointer
  | none => Prog.fault .outOfBounds
  | some conf => do
      match ← mem (strdup conf) with
      | none => pure false
      | some conf => pure ((tokens conf).any (isconfigured inaddr inport))

section

/-- A round of `naf_conn_find`, with a matcher that finds nothing but may close connections.
What is closed stays in the list for the walk, and is passed over. -/
def visitAt (visitor : Conn → Sys Unit) (cid : Nat) : Sys Unit := do
  match ← Prog.read fun w => w.conn? cid with
  | none => pure ()
  | some c => visitor c

def visit (visitor : Conn → Sys Unit) : Sys Unit := do
  let cids ← Prog.read fun w => w.conns.map (·.cid)
  Prog.each (visitAt visitor) cids

variable (ops : Nafmodule → Ops)

def cleanlistenersMatcher (listenports : Option CStr) (c : Conn) : Sys Unit :=
  if c.type.listener then do
    if ← listenportIsconfigured listenports c.localendpoint.ip c.localendpoint.port then pure ()
    else free ops c.cid
  else pure ()

def cleanlisteners (newlistener : Option CStr → Nat → Bool) (modules : List Nafmodule)
    (listenports : Option CStr) : Sys Unit := do
  visit (cleanlistenersMatcher ops listenports)
  match listenports with
  | none => pure ()
  | some conf => do
      match ← mem (strdup conf) with
      | none => pure ()
      | some conf => Prog.each (openlistener newlistener modules) (tokens conf)

end

/-! ## Entries -/

/-- `[addr:]port[/module]` -/
structure Listenport where
  addr : Option CStr
  port : CStr
  modname : Option CStr

namespace Listenport

/-- The text behind the address. -/
def rest (e : Listenport) : CStr := e.port ++ e.modname.elim [] (47 :: ·)

def text (e : Listenport) : CStr := e.addr.elim e.rest (· ++ 58 :: e.rest)

/-- The address that the entry asks for. -/
def endpoint (e : Listenport) : Sockaddr := ⟨e.addr.getD (inetNtop .any), digits e.port⟩

/-- The module that the entry asks for. -/
def owner (modules : List Nafmodule) (e : Listenport) : Option Nafmodule := e.modname.bind (findbyname modules)

/-- An address is a dotted one, a port is a number, and a module is loaded. -/
structure Ok (modules : List Nafmodule) (e : Listenport) : Prop where
  addr : ∀ a, e.addr = some a → ∃ x, inetPton a = some x
  port_ne : e.port ≠ []
  port : ∀ c ∈ e.port, Digit c
  range : 0 < digits e.port ∧ digits e.port < 65536
  colon : ∀ m, e.modname = some m → 58 ∉ m
  loaded : ∀ m, e.modname = some m → ∃ owner, findbyname modules m = some owner

variable {modules : List Nafmodule} {e : Listenport}

/-- An address in dots has no colon in it, so it ends at the one behind it. -/
theorem colon_notMem_inetNtop (x : InAddr) : 58 ∉ inetNtop x := by
  have hdigits : ∀ n, 58 ∉ decimal n := fun n hmem => absurd (digit_of_mem_decimal hmem) (by decide)
  simp [inetNtop, hdigits]

/-- An entry is split into the parts that it was made of. -/
theorem splitaddr_text (he : e.Ok modules) : splitaddr e.text = (e.addr, e.rest) := by
  have hport : 58 ∉ e.port := fun hmem => absurd (he.port _ hmem) (by decide)
  have hrest : 58 ∉ e.rest := by
    rw [rest]
    cases hmod : e.modname with
    | none => simpa using hport
    | some m => simpa using ⟨hport, he.colon m hmod⟩
  rw [splitaddr, text]
  cases haddr : e.addr with
  | none =>
      rw [Option.elim_none, cutAt_of_notMem hrest]
  | some a =>
      obtain ⟨x, hx⟩ := he.addr a haddr
      have hcolon : 58 ∉ a := by
        rw [inetPton_eq_some.1 hx]
        exact colon_notMem_inetNtop x
      rw [Option.elim_some, cutAt_append _ hcolon]

/-- The port is read up to the slash. -/
theorem atoi_rest (he : e.Ok modules) : atoi e.rest = digits e.port := by
  refine atoi_append he.port_ne he.port (fun c hc => ?_) (he.range.2.trans (by decide))
  cases hmod : e.modname with
  | none =>
      rw [hmod] at hc
      cases hc
  | some m =>
      rw [hmod] at hc
      cases hc
      decide

theorem isconfigured_text (he : e.Ok modules) (s : Sockaddr) :
    isconfigured s.ip s.port e.text = true ↔ e.addr = some s.ip ∧ digits e.port = s.port := by
  rw [isconfigured, splitaddr_text he]
  dsimp only
  rw [atoi_rest he, Bool.and_eq_true, beq_iff_eq, beq_iff_eq, Int.ofNat_inj]
  exact ⟨fun h => ⟨h.2, h.1.symm⟩, fun h => ⟨h.2.symm, h.1⟩⟩

end Listenport

/-! ## Assumptions -/

/-- The same connections and the same outside. -/
structure Agree (w w' : World) : Prop where
  conns : w'.conns = w.conns
  nextcid : w'.nextcid = w.nextcid
  env : w'.env = w.env

/-- What a module does about a listener that is closed leaves the connections alone. -/
structure Aloof (ops : Nafmodule → Ops) : Prop where
  connkill : ∀ mod f dead w, dead.type.listener = true → (ops mod).connkill = some f →
    ∃ w', f dead w = .ok ((), w') ∧ Agree w w'
  freetag : ∀ f dead tag w, dead.type.listener = true → (ops tag.owner).freetag = some f →
    ∃ w', f dead tag w = .ok ((), w') ∧ Agree w w'

/-- The connections are numbered apart, none hangs on a listener, and what is asked for is granted. -/
structure Orderly (w : World) : Prop where
  wf : w.Wf
  pointers : ∀ c ∈ w.conns, ∀ k, c.parent = some k ∨ c.endpoint = some k →
    k < w.nextcid ∧ ∀ l ∈ w.conns, l.type.listener = true → l.cid ≠ k
  heap : w.env.heap.refuse = []
  addfd : w.env.addfdRefused = []

theorem Agree.refl (w : World) : Agree w w := ⟨rfl, rfl, rfl⟩

theorem Agree.trans {w v w' : World} (h : Agree w v) (h' : Agree v w') : Agree w w' :=
  ⟨h'.conns.trans h.conns, h'.nextcid.trans h.nextcid, h'.env.trans h.env⟩

/-- With some of its connections gone a world is still orderly. -/
theorem Orderly.of_sublist {w w' : World} (horder : Orderly w) (hsub : w'.conns.Sublist w.conns)
    (hnext : w'.nextcid = w.nextcid) (henv : w'.env = w.env) : Orderly w' where
  wf := ⟨horder.wf.nodup.sublist (hsub.map _), fun c hc => hnext ▸ horder.wf.lt c (hsub.subset hc)⟩
  pointers c hc k hk := by
    obtain ⟨hlt, hne⟩ := horder.pointers c (hsub.subset hc) k hk
    exact ⟨hnext ▸ hlt, fun l hl => hne l (hsub.subset hl)⟩
  heap := henv ▸ horder.heap
  addfd := henv ▸ horder.addfd

/-! ## One listener closed -/

section

variable {ops : Nafmodule → Ops} {w : World} {c : Conn}

theorem connkill_aloof (haloof : Aloof ops) (hl : c.type.listener = true) (w : World) :
    ∃ w', (match c.owner.bind fun owner => (ops owner).connkill with
      | some connkill => connkill c
      | none => pure ()) w = .ok ((), w') ∧ Agree w w' := by
  cases hhook : c.owner.bind fun owner => (ops owner).connkill with
  | none => exact ⟨w, rfl, .refl w⟩
  | some f =>
      obtain ⟨mod, -, hmod⟩ := Option.bind_eq_some_iff.1 hhook
      exact haloof.connkill mod f c w hl hmod

theorem tagFreelist_aloof (haloof : Aloof ops) (hl : c.type.listener = true) (w : World) :
    ∃ w', tagFreelist ops c w = .ok ((), w') ∧ Agree w w' := by
  unfold tagFreelist
  induction c.taglist generalizing w with
  | nil => exact ⟨w, rfl, .refl w⟩
  | cons tag tags ih =>
      rw [Prog.each]
      cases hhook : (ops tag.owner).freetag with
      | none => exact ih w
      | some f =>
          obtain ⟨w₁, hw₁, h₁⟩ := haloof.freetag f c tag w hl hhook
          obtain ⟨w', hw', h'⟩ := ih w₁
          exact ⟨w', (bind_of_ok hw₁).trans hw', h₁.trans h'⟩

/-- A scan for what hangs on the dead connection finds nothing. -/
theorem detach_idle {free : Nat → Sys Unit} {dead : Nat} {get : Conn → Option Nat} {clear : Conn → Conn}
    (hidle : ∀ c ∈ w.conns, get c ≠ some dead) (cids : List Nat) :
    Prog.each (detach free dead get clear) cids w = .ok ((), w) := by
  induction cids with
  | nil => rfl
  | cons cid cids ih =>
      have hdetach : detach free dead get clear cid w = .ok ((), w) := by
        have hread : (Prog.read fun w => w.conn? cid : Sys (Option Conn)) w = .ok (w.conn? cid, w) := rfl
        rw [detach, bind_of_ok hread]
        cases hc : w.conn? cid with
        | none => rfl
        | some c =>
            dsimp only
            rw [if_neg (hidle c (World.conn?_some hc).1)]
            rfl
      rw [Prog.each, bind_of_ok hdetach]
      exact ih

/-- Nothing hangs on a listener, so that its close touches no other connection. -/
theorem free_listener (haloof : Aloof ops) (horder : Orderly w) (hc : c ∈ w.conns) (hl : c.type.listener = true) :
    ∃ w', free ops c.cid w = .ok ((), w') ∧ Agree (w.close c.cid) w' := by
  obtain ⟨w₁, hkill, h₁⟩ := connkill_aloof haloof hl (w.close c.cid)
  obtain ⟨w₂, htags, h₂⟩ := tagFreelist_aloof haloof hl w₁
  have hagree := h₁.trans h₂
  have hsub : ∀ d ∈ w₂.conns, d ∈ w.conns := by
    intro d hd
    rw [hagree.conns] at hd
    exact List.mem_of_mem_filter hd
  have hchildren : ∀ fuel, remchildren (freeWithin ops fuel) c.cid w₂ = .ok ((), w₂) := fun fuel =>
    detach_idle (fun d hd hptr => (horder.pointers d (hsub d hd) c.cid (.inl hptr)).2 c hc hl rfl) _
  have hendpoint : ∀ fuel, remendpoint (freeWithin ops fuel) c.cid w₂ = .ok ((), w₂) := fun fuel =>
    detach_idle (fun d hd hptr => (horder.pointers d (hsub d hd) c.cid (.inr hptr)).2 c hc hl rfl) _
  have hread : (Prog.read fun w => w.conns.length : Sys Nat) w = .ok (w.conns.length, w) := rfl
  have hconn : Sys.conn c.cid w = .ok (c, w) := Sys.conn_ok.2 ⟨horder.wf.conn? hc, rfl⟩
  have hclose : closefdt c.cid w = .ok ((), w.close c.cid) := rfl
  obtain ⟨fuel, hfuel⟩ := Nat.exists_eq_succ_of_ne_zero (Nat.ne_of_gt (List.length_pos_of_mem hc))
  refine ⟨w₂, ?_, hagree⟩
  rw [free, bind_of_ok hread, hfuel, freeWithin, bind_of_ok hconn, bind_of_ok hclose]
  refine (bind_of_ok hkill).trans ?_
  rw [bind_of_ok htags, bind_of_ok (hchildren fuel)]
  exact hendpoint fuel

/-! ## The first part -/

variable {conf : CStr}

/-- An entry of the configuration has the address of the listener as its text. -/
def configured (conf : CStr) (c : Conn) : Bool :=
  (tokens conf).any (isconfigured c.localendpoint.ip c.localendpoint.port)

/-- What the first part does not close. -/
def remains (conf : CStr) (c : Conn) : Bool := !c.type.listener || configured conf c

/-- The connections with `keep` are left, and nothing has happened if these are all. -/
structure Swept (keep : Conn → Bool) (w w' : World) : Prop where
  conns : w'.conns = w.conns.filter keep
  nextcid : w'.nextcid = w.nextcid
  env : w'.env = w.env
  idle : (∀ c ∈ w.conns, keep c = true) → w' = w

theorem Swept.congr {keep keep' : Conn → Bool} {w w' : World} (h : Swept keep w w')
    (heq : ∀ c ∈ w.conns, keep' c = keep c) : Swept keep' w w' where
  conns := h.conns.trans (List.filter_congr heq).symm
  nextcid := h.nextcid
  env := h.env
  idle hall := h.idle fun c hc => (heq c hc).symm.trans (hall c hc)

theorem listenportIsconfigured_eq (hheap : w.env.heap.refuse = []) (inaddr : CStr) (inport : Nat) :
    listenportIsconfigured (some conf) inaddr inport w = .ok ((tokens conf).any (isconfigured inaddr inport), w) :=
  bind_of_ok (Sys.mem_of_steady (strdup_of_willing hheap))

/-- What is configured by its address is left alone. -/
theorem matcher_remains (ops : Nafmodule → Ops) (horder : Orderly w) (hkeep : remains conf c = true) :
    cleanlistenersMatcher ops (some conf) c w = .ok ((), w) := by
  rw [cleanlistenersMatcher]
  cases hl : c.type.listener with
  | false => rfl
  | true =>
      have hconf : configured conf c = true := by simpa [remains, hl] using hkeep
      rw [if_pos rfl, bind_of_ok (listenportIsconfigured_eq horder.heap _ _)]
      exact if_pos hconf ▸ rfl

/-- Any other listener is closed. -/
theorem matcher_closes (haloof : Aloof ops) (horder : Orderly w) (hc : c ∈ w.conns) (hkeep : remains conf c = false) :
    ∃ w', cleanlistenersMatcher ops (some conf) c w = .ok ((), w') ∧ Agree (w.close c.cid) w' := by
  simp only [remains, Bool.or_eq_false_iff, Bool.not_eq_false'] at hkeep
  obtain ⟨hl, hconf⟩ := hkeep
  obtain ⟨w', hfree, hagree⟩ := free_listener haloof horder hc hl
  refine ⟨w', ?_, hagree⟩
  rw [cleanlistenersMatcher, if_pos hl, bind_of_ok (listenportIsconfigured_eq horder.heap _ _)]
  exact (if_neg (Bool.eq_false_iff.1 hconf)).symm ▸ hfree

theorem visitAt_none {visitor : Conn → Sys Unit} {cid : Nat} (hc : w.conn? cid = none) :
    visitAt visitor cid w = .ok ((), w) := by
  have hread : (Prog.read fun w => w.conn? cid : Sys (Option Conn)) w = .ok (w.conn? cid, w) := rfl
  rw [visitAt, bind_of_ok hread, hc]
  rfl

theorem visitAt_some {visitor : Conn → Sys Unit} {cid : Nat} (hc : w.conn? cid = some c) :
    visitAt visitor cid w = visitor c w := by
  have hread : (Prog.read fun w => w.conn? cid : Sys (Option Conn)) w = .ok (w.conn? cid, w) := rfl
  rw [visitAt, bind_of_ok hread, hc]

/-- The walk closes, of the connections it gets to, the listeners that are not configured. -/
theorem visit_sweeps (haloof : Aloof ops) (horder : Orderly w) (cids : List Nat) :
    ∃ w', Prog.each (visitAt (cleanlistenersMatcher ops (some conf))) cids w = .ok ((), w') ∧
      Swept (fun c => decide (c.cid ∉ cids) || remains conf c) w w' := by
  induction cids generalizing w with
  | nil =>
      have hall : ∀ c ∈ w.conns, (decide (c.cid ∉ []) || remains conf c) = true := fun c _ => by simp
      exact ⟨w, rfl, (List.filter_eq_self.2 hall).symm, rfl, rfl, fun _ => rfl⟩
  | cons cid cids ih =>
      rw [Prog.each]
      cases hc : w.conn? cid with
      | none =>
          obtain ⟨w', hrun, hswept⟩ := ih horder
          refine ⟨w', (bind_of_ok (visitAt_none hc)).trans hrun, hswept.congr fun d hd => ?_⟩
          have hne := World.conn?_eq_none.1 hc d hd
          simp [hne]
      | some c =>
          obtain ⟨hmem, rfl⟩ := World.conn?_some hc
          have hsame : ∀ d ∈ w.conns, d.cid = c.cid → d = c := fun d hd heq =>
            List.inj_on_of_nodup_map horder.wf.nodup hd hmem heq
          cases hkeep : remains conf c with
          | true =>
              obtain ⟨w', hrun, hswept⟩ := ih horder
              have hvisit := (visitAt_some hc).trans (matcher_remains ops horder hkeep)
              refine ⟨w', (bind_of_ok hvisit).trans hrun, hswept.congr fun d hd => ?_⟩
              by_cases heq : d.cid = c.cid
              · rw [hsame d hd heq, hkeep, Bool.or_true, Bool.or_true]
              · simp [heq]
          | false =>
              obtain ⟨w₁, hclose, hagree⟩ := matcher_closes haloof horder hmem hkeep
              -- closing a listener takes it from the table and nothing else
              have horder₁ : Orderly w₁ := by
                refine horder.of_sublist ?_ hagree.nextcid hagree.env
                rw [hagree.conns]
                exact List.filter_sublist
              obtain ⟨w', hrun, hswept⟩ := ih horder₁
              refine ⟨w', (bind_of_ok ((visitAt_some hc).trans hclose)).trans hrun, ?_,
                hswept.nextcid.trans hagree.nextcid, hswept.env.trans hagree.env, fun hall => ?_⟩
              · rw [hswept.conns, hagree.conns, World.close, List.filter_filter]
                refine List.filter_congr fun d hd => ?_
                by_cases heq : d.cid = c.cid
                · simp [hsame d hd heq, hkeep]
                · simp [heq]
              · have habs := hall c hmem
                simp [hkeep] at habs

/-- After the first part the listeners that are configured with an address are left. -/
theorem visit_swept (haloof : Aloof ops) (horder : Orderly w) :
    ∃ w', visit (cleanlistenersMatcher ops (some conf)) w = .ok ((), w') ∧ Swept (remains conf) w w' := by
  obtain ⟨w', hrun, hswept⟩ := @visit_sweeps ops w conf haloof horder (w.conns.map (·.cid))
  refine ⟨w', (bind_of_ok rfl).trans hrun, hswept.congr fun c hc => ?_⟩
  have hmem : c.cid ∈ w.conns.map (·.cid) := List.mem_map_of_mem hc
  simp [hmem]

/-! ## One entry opened -/

variable {newlistener : Option CStr → Nat → Bool} {modules : List Nafmodule} {e : Listenport}

/-- A listener is open there. -/
def Has (w : World) (s : Sockaddr) : Prop := ∃ c ∈ w.conns, c.type.listener = true ∧ c.localendpoint = s

/-- The world with a new listener. -/
def opened (w : World) (s : Sockaddr) (owner : Option Nafmodule) : World :=
  { w with env := { w.env with sockname := s } }.insert w.env.fdpos (newconn w.nextcid owner { listener := true } s)

theorem addfdRefused_of_nil (haddfd : w.env.addfdRefused = []) : Sys.addfdRefused w = .ok (false, w) := by
  rcases w with ⟨_, _, _, _, _, _, ⟨_, _, _, _, addfdRefused, _, _, _, _, _, _, _⟩, _⟩
  obtain rfl : addfdRefused = [] := haddfd
  rfl

theorem addconn_willing (owner : Option Nafmodule) (type : ConnType) (hheap : w.env.heap.refuse = [])
    (haddfd : w.env.addfdRefused = []) :
    addconn owner type w =
      .ok (some w.nextcid, w.insert w.env.fdpos (newconn w.nextcid owner type w.env.sockname)) := by
  have hrefused := @addfdRefused_of_nil { w with nextcid := w.nextcid + 1, openconns := w.openconns + 1 } haddfd
  have hread : (Prog.read fun w => w.nextcid : Sys Nat) w = .ok (w.nextcid, w) := rfl
  rw [addconn, bind_of_ok (Sys.mem_of_steady (malloc_of_willing hheap))]
  dsimp only
  rw [bind_of_ok hread, bind_of_ok (Prog.update_ok.2 rfl), bind_of_ok hrefused]
  rfl

/-- A listener is opened at its address for its owner. -/
theorem listenestablish_eq (horder : Orderly w) (hnew : ∀ addr port, newlistener addr port = true)
    (addr : Option CStr) (portnum : Nat) (owner : Option Nafmodule) :
    listenestablish newlistener addr portnum owner w =
      .ok (some w.nextcid, opened w ⟨addr.getD (inetNtop .any), portnum⟩ owner) := by
  rw [listenestablish, if_pos (hnew addr portnum), bind_of_ok (Prog.update_ok.2 rfl), addconn_willing]
  · rfl
  · exact horder.heap
  · exact horder.addfd

/-- The search by number finds a listener with the address of the entry. -/
theorem findlistenport_eq (he : e.Ok modules) :
    ∃ found, findlistenport e.addr (digits e.port) w = .ok (found, w) ∧ (found.isSome = true ↔ Has w e.endpoint) := by
  have haddr : ∃ sin, e.addr.elim (some InAddr.any) inetPton = some sin ∧ inetNtop sin = e.endpoint.ip := by
    rw [Listenport.endpoint]
    cases h : e.addr with
    | none => exact ⟨.any, rfl, rfl⟩
    | some a =>
        obtain ⟨x, hx⟩ := he.addr a h
        exact ⟨x, hx, (inetPton_eq_some.1 hx).symm⟩
  obtain ⟨sin, hsin, hip⟩ := haddr
  rw [findlistenport, hsin]
  refine ⟨_, find_eq _, ?_⟩
  rw [List.find?_isSome, Has]
  refine exists_congr fun c => and_congr_right fun _ => ?_
  rw [Bool.and_eq_true, Bool.and_eq_true, beq_iff_eq, beq_iff_eq, hip, and_assoc]
  refine and_congr_right fun _ => ?_
  constructor
  · intro h
    exact congrArg₂ Sockaddr.mk h.1 h.2
  · intro h
    rw [h]
    exact ⟨rfl, rfl⟩

theorem modname_rest (he : e.Ok modules) : (cutAt 47 e.rest).map Prod.snd = e.modname := by
  have hport : 47 ∉ e.port := fun hmem => absurd (he.port _ hmem) (by decide)
  rw [Listenport.rest]
  cases hmod : e.modname with
  | none => rw [Option.elim_none, List.append_nil, cutAt_of_notMem hport, Option.map_none]
  | some m => rw [Option.elim_some, cutAt_append m hport, Option.map_some]

/-- The module that an entry names is a loaded one. -/
theorem owner_loaded (he : e.Ok modules) :
    (e.modname.isSome && (e.modname.bind (findbyname modules)).isNone) = false := by
  cases hmod : e.modname with
  | none => rfl
  | some m =>
      obtain ⟨mod, hmodule⟩ := he.loaded m hmod
      rw [Option.bind_some, hmodule]
      rfl

/-- An entry whose address has a listener is passed over, whoever owns it; any other one is opened for
its module. -/
theorem openlistener_eq (horder : Orderly w) (hnew : ∀ addr port, newlistener addr port = true) (he : e.Ok modules) :
    (Has w e.endpoint → openlistener newlistener modules e.text w = .ok ((), w)) ∧
      (¬Has w e.endpoint →
        openlistener newlistener modules e.text w = .ok ((), opened w e.endpoint (e.owner modules))) := by
  obtain ⟨found, hfind, hfound⟩ := findlistenport_eq (w := w) he
  have hport : ((digits e.port : Int) % 65536).toNat = digits e.port := by
    have := he.range.2
    omega
  have hunset : ((digits e.port : Int) == -1) = false := by
    rw [beq_eq_false_iff_ne]
    omega
  unfold openlistener
  rw [e.splitaddr_text he]
  dsimp only
  rw [e.atoi_rest he, hport, bind_of_ok hfind, modname_rest he, owner_loaded he, hunset]
  constructor
  · intro hhas
    rw [hfound.2 hhas]
    rfl
  · intro hhas
    rw [Bool.eq_false_iff.2 (mt hfound.1 hhas)]
    exact bind_of_ok (listenestablish_eq horder hnew e.addr (digits e.port) _)

/-! ## The second part -/

/-- No two listeners are open at one address. -/
def Distinct (w : World) : Prop := ((w.conns.filter fun c => c.type.listener).map (·.localendpoint)).Nodup

theorem opened_perm (w : World) (s : Sockaddr) (owner : Option Nafmodule) :
    (opened w s owner).conns.Perm (newconn w.nextcid owner { listener := true } s :: w.conns) := by
  have hperm := @List.perm_middle _ (newconn w.nextcid owner { listener := true } s) (w.conns.take w.env.fdpos)
    (w.conns.drop w.env.fdpos)
  rw [List.take_append_drop] at hperm
  exact hperm

/-- At a new address there is one more listener. -/
theorem has_opened {s : Sockaddr} {owner : Option Nafmodule} (s' : Sockaddr) :
    Has (opened w s owner) s' ↔ Has w s' ∨ s = s' := by
  simp only [Has, (opened_perm w s owner).mem_iff, List.mem_cons, or_and_right, exists_or, exists_eq_left, or_comm]
  simp [newconn]

theorem distinct_opened {s : Sockaddr} {owner : Option Nafmodule} (hw : Distinct w) (hs : ¬Has w s) :
    Distinct (opened w s owner) := by
  have hperm := ((opened_perm w s owner).filter fun c => c.type.listener).map (·.localendpoint)
  refine hperm.nodup_iff.2 (List.nodup_cons.2 ⟨fun hmem => hs ?_, hw⟩)
  obtain ⟨c, hc, heq⟩ := List.mem_map.1 hmem
  obtain ⟨hconn, hl⟩ := List.mem_filter.1 hc
  exact ⟨c, hconn, hl, heq⟩

theorem Orderly.opened {s : Sockaddr} {owner : Option Nafmodule} (horder : Orderly w) :
    Orderly (opened w s owner) where
  wf := World.Wf.insert (w := { w with env := { w.env with sockname := s } }) ⟨horder.wf.nodup, horder.wf.lt⟩ rfl
  pointers c hc k hk := by
    simp only [(opened_perm w s owner).mem_iff, List.mem_cons] at hc ⊢
    have hnext : (Conn.opened w s owner).nextcid = w.nextcid + 1 := rfl
    rcases hc with rfl | hc
    · rcases hk with hk | hk <;> cases hk
    obtain ⟨hlt, hne⟩ := horder.pointers c hc k hk
    refine ⟨hnext ▸ Nat.lt_succ_of_lt hlt, ?_⟩
    rintro l (rfl | hl) hlistener
    · exact Nat.ne_of_gt hlt
    · exact hne l hl hlistener
  heap := horder.heap
  addfd := horder.addfd

/-- The entries' listeners are open besides those that were. -/
structure Added (modules : List Nafmodule) (entries : List Listenport) (w w' : World) : Prop where
  has : ∀ s, Has w' s ↔ Has w s ∨ ∃ e ∈ entries, e.endpoint = s
  kept : ∀ c ∈ w.conns, c ∈ w'.conns
  new : ∀ c ∈ w'.conns, c ∈ w.conns ∨ c.type.listener = true ∧ w.nextcid ≤ c.cid ∧
    ∃ e ∈ entries, e.endpoint = c.localendpoint ∧ e.owner modules = c.owner
  nextcid : w.nextcid ≤ w'.nextcid
  distinct : Distinct w → Distinct w'
  orderly : Orderly w'
  idle : (∀ e ∈ entries, Has w e.endpoint) → w' = w

theorem exists_endpoint_cons {entries : List Listenport} {s : Sockaddr} :
    (∃ d ∈ e :: entries, d.endpoint = s) ↔ e.endpoint = s ∨ ∃ d ∈ entries, d.endpoint = s := by
  simp only [List.mem_cons, or_and_right, exists_or, exists_eq_left]

/-- For an address that is taken nothing is opened. -/
theorem Added.skip {entries : List Listenport} {w' : World} (hhas : Has w e.endpoint)
    (h : Added modules entries w w') : Added modules (e :: entries) w w' where
  has s := by
    rw [h.has, exists_endpoint_cons]
    constructor
    · exact Or.imp_right .inr
    · rintro (hs | rfl | hs)
      · exact .inl hs
      · exact .inl hhas
      · exact .inr hs
  kept := h.kept
  new c hc := (h.new c hc).imp_right fun ⟨hl, hle, d, hd, hown⟩ => ⟨hl, hle, d, List.mem_cons_of_mem e hd, hown⟩
  nextcid := h.nextcid
  distinct := h.distinct
  orderly := h.orderly
  idle hall := h.idle fun d hd => hall d (List.mem_cons_of_mem e hd)

theorem Added.open {entries : List Listenport} {w' : World} (hhas : ¬Has w e.endpoint)
    (h : Added modules entries (opened w e.endpoint (e.owner modules)) w') :
    Added modules (e :: entries) w w' where
  has s := by
    rw [h.has, has_opened, exists_endpoint_cons, or_assoc]
  kept c hc := h.kept c ((opened_perm w e.endpoint (e.owner modules)).mem_iff.2 (List.mem_cons_of_mem _ hc))
  new c hc := by
    have hnext : (opened w e.endpoint (e.owner modules)).nextcid = w.nextcid + 1 := rfl
    rcases h.new c hc with hc | ⟨hl, hle, d, hd, hown⟩
    · rcases List.mem_cons.1 ((opened_perm w e.endpoint (e.owner modules)).mem_iff.1 hc) with rfl | hc
      · exact .inr ⟨rfl, le_rfl, e, List.mem_cons_self, rfl, rfl⟩
      · exact .inl hc
    · exact .inr ⟨hl, by omega, d, List.mem_cons_of_mem e hd, hown⟩
  nextcid := by
    have hnext : (opened w e.endpoint (e.owner modules)).nextcid = w.nextcid + 1 := rfl
    have := h.nextcid
    omega
  distinct hw := h.distinct (distinct_opened hw hhas)
  orderly := h.orderly
  idle hall := absurd (hall e List.mem_cons_self) hhas

/-- The entries are gone through in order, and each opens a listener where there is none. -/
theorem openlisteners_added {entries : List Listenport} (horder : Orderly w)
    (hnew : ∀ addr port, newlistener addr port = true) (hentries : ∀ e ∈ entries, e.Ok modules) :
    ∃ w', Prog.each (openlistener newlistener modules) (entries.map Listenport.text) w = .ok ((), w') ∧
      Added modules entries w w' := by
  induction entries generalizing w with
  | nil =>
      refine ⟨w, rfl, fun s => ?_, fun _ hc => hc, fun _ hc => .inl hc, le_rfl, id, horder, fun _ => rfl⟩
      simp
  | cons e entries ih =>
      have hrest : ∀ d ∈ entries, d.Ok modules := fun d hd => hentries d (List.mem_cons_of_mem e hd)
      obtain ⟨hskip, hopen⟩ := openlistener_eq horder hnew (hentries e List.mem_cons_self)
      rw [List.map_cons, Prog.each]
      by_cases hhas : Has w e.endpoint
      · obtain ⟨w', hrun, hadded⟩ := ih horder hrest
        exact ⟨w', (bind_of_ok (hskip hhas)).trans hrun, hadded.skip hhas⟩
      · obtain ⟨w', hrun, hadded⟩ := ih horder.opened hrest
        exact ⟨w', (bind_of_ok (hopen hhas)).trans hrun, hadded.open hhas⟩

/-! ## Both parts -/

section

variable {entries : List Listenport} {w' : World}

/-- Listeners are open at exactly the entries' addresses, and all else is open as before. -/
structure Located (entries : List Listenport) (w w' : World) : Prop where
  has : ∀ s, Has w' s ↔ ∃ e ∈ entries, e.endpoint = s
  others : ∀ c, c.type.listener = false → (c ∈ w'.conns ↔ c ∈ w.conns)

/-- Exactly the entries' listeners are open, one at each address, with the module that the entry names. -/
structure Exact (modules : List Nafmodule) (entries : List Listenport) (w' : World) : Prop where
  has : ∀ s owner, (∃ c ∈ w'.conns, c.type.listener = true ∧ c.localendpoint = s ∧ c.owner = owner) ↔
    ∃ e ∈ entries, e.endpoint = s ∧ e.owner modules = owner
  distinct : Distinct w'

/-- A listener that was open for an entry still is. -/
def Untouched (entries : List Listenport) (w w' : World) : Prop :=
  ∀ c ∈ w.conns, c.type.listener = true → (∃ e ∈ entries, e.endpoint = c.localendpoint) → c ∈ w'.conns

/-- Beside an entry without an address there is one of the same port with the address of any. -/
def Addressed (entries : List Listenport) : Prop :=
  ∀ e ∈ entries, e.addr = none → ∃ d ∈ entries, d.addr = some (inetNtop .any) ∧ digits d.port = digits e.port

/-- What the entries have to be, and what may have been open: where an entry has no address, another one
has, entries for one address name one module, and at such an address at most one listener was open, that
module's. -/
structure Reconcilable (modules : List Nafmodule) (entries : List Listenport) (w : World) : Prop where
  addressed : Addressed entries
  owners : ∀ d ∈ entries, ∀ e ∈ entries, d.endpoint = e.endpoint → d.owner modules = e.owner modules
  standing : ∀ c ∈ w.conns, c.type.listener = true → ∀ e ∈ entries, e.endpoint = c.localendpoint →
    c.owner = e.owner modules
  once : ∀ c ∈ w.conns, ∀ d ∈ w.conns, c.type.listener = true → d.type.listener = true →
    c.localendpoint = d.localendpoint → (∃ e ∈ entries, e.endpoint = c.localendpoint) → c = d

/-- Only an entry with an address can make a listener a configured one. -/
theorem configured_iff (hconf : tokens conf = entries.map Listenport.text) (hentries : ∀ e ∈ entries, e.Ok modules) :
    configured conf c = true ↔
      ∃ e ∈ entries, e.addr = some c.localendpoint.ip ∧ digits e.port = c.localendpoint.port := by
  rw [configured, hconf, List.any_map, List.any_eq_true]
  refine exists_congr fun e => and_congr_right fun he => ?_
  exact e.isconfigured_text (hentries e he) c.localendpoint

theorem endpoint_of_addr {s : Sockaddr} (haddr : e.addr = some s.ip) (hport : digits e.port = s.port) :
    e.endpoint = s := by
  rw [Listenport.endpoint, haddr, hport]
  rfl

/-- What is kept is configured, -/
theorem endpoint_of_remains (hconf : tokens conf = entries.map Listenport.text)
    (hentries : ∀ e ∈ entries, e.Ok modules) (hl : c.type.listener = true) (hkeep : remains conf c = true) :
    ∃ e ∈ entries, e.endpoint = c.localendpoint := by
  rw [remains, hl, Bool.not_true, Bool.false_or, configured_iff hconf hentries] at hkeep
  obtain ⟨e, he, haddr, hport⟩ := hkeep
  exact ⟨e, he, endpoint_of_addr haddr hport⟩

/-- and what is configured is kept, if only by the entry that has the address. -/
theorem remains_of_endpoint (hconf : tokens conf = entries.map Listenport.text)
    (hentries : ∀ e ∈ entries, e.Ok modules) (haddressed : Addressed entries)
    (hend : ∃ e ∈ entries, e.endpoint = c.localendpoint) : remains conf c = true := by
  obtain ⟨e, he, hend⟩ := hend
  refine Bool.or_eq_true_iff.2 (.inr ((configured_iff hconf hentries).2 ?_))
  rw [← hend]
  cases haddr : e.addr with
  | none =>
      obtain ⟨d, hd, hany, hport⟩ := haddressed e he haddr
      exact ⟨d, hd, by rw [hany, Listenport.endpoint, haddr, Option.getD_none], hport⟩
  | some a => exact ⟨e, he, by rw [haddr, Listenport.endpoint, haddr, Option.getD_some], rfl⟩

/-- First what is not configured is closed, then what is missing is opened. -/
theorem cleanlisteners_ok (haloof : Aloof ops) (hnew : ∀ addr port, newlistener addr port = true)
    (hconf : tokens conf = entries.map Listenport.text) (hentries : ∀ e ∈ entries, e.Ok modules)
    (horder : Orderly w) :
    ∃ w₁ w', cleanlisteners ops newlistener modules (some conf) w = .ok ((), w') ∧
      Swept (remains conf) w w₁ ∧ Added modules entries w₁ w' := by
  obtain ⟨w₁, hvisit, hswept⟩ := @visit_swept ops w conf haloof horder
  have horder₁ : Orderly w₁ := by
    refine horder.of_sublist ?_ hswept.nextcid hswept.env
    rw [hswept.conns]
    exact List.filter_sublist
  obtain ⟨w', hopen, hadded⟩ := openlisteners_added horder₁ hnew hentries
  refine ⟨w₁, w', ?_, hswept, hadded⟩
  rw [cleanlisteners, bind_of_ok hvisit, bind_of_ok (Sys.mem_of_steady (strdup_of_willing horder₁.heap))]
  dsimp only
  rw [hconf, hopen]

variable {w₁ : World}

theorem located_of_swept_added (hconf : tokens conf = entries.map Listenport.text)
    (hentries : ∀ e ∈ entries, e.Ok modules) (hswept : Swept (remains conf) w w₁)
    (hadded : Added modules entries w₁ w') : Located entries w w' where
  has s := by
    rw [hadded.has]
    refine or_iff_right_of_imp ?_
    rintro ⟨c, hc, hl, rfl⟩
    rw [hswept.conns] at hc
    exact endpoint_of_remains hconf hentries hl (List.of_mem_filter hc)
  others c hl := by
    have hmem : c ∈ w₁.conns ↔ c ∈ w.conns := by
      rw [hswept.conns, List.mem_filter, remains, hl]
      exact and_iff_left rfl
    rw [← hmem]
    refine ⟨fun hc => (hadded.new c hc).resolve_right fun h => ?_, hadded.kept c⟩
    rw [hl] at h
    cases h.1

/-- A listener that is open afterwards has an entry with its address and its owner. -/
theorem entry_of_reconcilable (hconf : tokens conf = entries.map Listenport.text)
    (hentries : ∀ e ∈ entries, e.Ok modules) (hswept : Swept (remains conf) w w₁)
    (hadded : Added modules entries w₁ w') (hrec : Reconcilable modules entries w) (hc : c ∈ w'.conns)
    (hl : c.type.listener = true) : ∃ e ∈ entries, e.endpoint = c.localendpoint ∧ e.owner modules = c.owner := by
  rcases hadded.new c hc with hc₁ | ⟨-, -, hnew⟩
  · rw [hswept.conns, List.mem_filter] at hc₁
    obtain ⟨e, he, hend⟩ := endpoint_of_remains hconf hentries hl hc₁.2
    exact ⟨e, he, hend, (hrec.standing c hc₁.1 hl e he hend).symm⟩
  · exact hnew

/-- On reconcilable entries every address has its one listener, with the right owner. -/
theorem exact_of_reconcilable (hconf : tokens conf = entries.map Listenport.text)
    (hentries : ∀ e ∈ entries, e.Ok modules) (horder : Orderly w) (hswept : Swept (remains conf) w w₁)
    (hadded : Added modules entries w₁ w') (hrec : Reconcilable modules entries w) : Exact modules entries w' where
  has s owner := by
    constructor
    · rintro ⟨c, hc, hl, rfl, rfl⟩
      exact entry_of_reconcilable hconf hentries hswept hadded hrec hc hl
    · rintro ⟨e, he, rfl, rfl⟩
      obtain ⟨c, hc, hl, hend⟩ := (hadded.has e.endpoint).2 (.inr ⟨e, he, rfl⟩)
      obtain ⟨d, hd, hdend, hown⟩ := entry_of_reconcilable hconf hentries hswept hadded hrec hc hl
      exact ⟨c, hc, hl, hend, hown.symm.trans (hrec.owners d hd e he (hdend.trans hend))⟩
  distinct := by
    refine hadded.distinct ?_
    have hconns : w.conns.Nodup := List.Nodup.of_map _ horder.wf.nodup
    rw [Distinct, hswept.conns]
    refine List.Nodup.map_on (fun c hc d hd heq => ?_) ((hconns.filter _).filter _)
    rw [List.mem_filter, List.mem_filter] at hc hd
    exact hrec.once c hc.1.1 d hd.1.1 hc.2 hd.2 heq (endpoint_of_remains hconf hentries hc.2 hc.1.2)

/-- What is open and untouched shows what was. -/
theorem reconcilable_of_exact (haddressed : Addressed entries) (hexact : Exact modules entries w')
    (huntouched : Untouched entries w w') : Reconcilable modules entries w := by
  have hsame : ∀ c ∈ w'.conns, ∀ d ∈ w'.conns, c.type.listener = true → d.type.listener = true →
      c.localendpoint = d.localendpoint → c = d := fun c hc d hd hcl hdl heq =>
    List.inj_on_of_nodup_map hexact.distinct (List.mem_filter.2 ⟨hc, hcl⟩) (List.mem_filter.2 ⟨hd, hdl⟩) heq
  have howners : ∀ d ∈ entries, ∀ e ∈ entries, d.endpoint = e.endpoint → d.owner modules = e.owner modules := by
    intro d hd e he heq
    obtain ⟨c, hc, hcl, hcend, hcown⟩ := (hexact.has d.endpoint (d.owner modules)).2 ⟨d, hd, rfl, rfl⟩
    obtain ⟨c', hc', hcl', hcend', hcown'⟩ := (hexact.has e.endpoint (e.owner modules)).2 ⟨e, he, rfl, rfl⟩
    rw [← hcown, ← hcown', hsame c hc c' hc' hcl hcl' (hcend.trans (heq.trans hcend'.symm))]
  refine ⟨haddressed, howners, fun c hc hl e he hend => ?_, fun c hc d hd hcl hdl heq hend => ?_⟩
  · have hc' := huntouched c hc hl ⟨e, he, hend⟩
    obtain ⟨d, hd, hdend, hown⟩ := (hexact.has _ _).1 ⟨c, hc', hl, rfl, rfl⟩
    exact hown.symm.trans (howners d hd e he (hdend.trans hend.symm))
  · exact hsame c (huntouched c hc hcl hend) d (huntouched d hd hdl (heq ▸ hend)) hcl hdl heq

/-- Where all configured listeners are open and recognised nothing is done. -/
theorem cleanlisteners_idle (haloof : Aloof ops) (hnew : ∀ addr port, newlistener addr port = true)
    (hconf : tokens conf = entries.map Listenport.text) (hentries : ∀ e ∈ entries, e.Ok modules)
    (horder : Orderly w)
    (haddressed : Addressed entries) (hhas : ∀ s, Has w s ↔ ∃ e ∈ entries, e.endpoint = s) :
    cleanlisteners ops newlistener modules (some conf) w = .ok ((), w) := by
  obtain ⟨w₁, w', hrun, hswept, hadded⟩ := cleanlisteners_ok haloof hnew hconf hentries horder
  have hkeep : ∀ c ∈ w.conns, remains conf c = true := by
    intro c hc
    cases hl : c.type.listener with
    | false => rw [remains, hl, Bool.not_false, Bool.true_or]
    | true => exact remains_of_endpoint hconf hentries haddressed ((hhas c.localendpoint).1 ⟨c, hc, hl, rfl⟩)
  obtain rfl := hswept.idle hkeep
  obtain rfl := hadded.idle fun e he => (hhas e.endpoint).2 ⟨e, he, rfl⟩
  exact hrun

/-- A listener of an entry without an address is not recognised, and does not outlive the first part. -/
theorem addressed_of_idle (haloof : Aloof ops) (hnew : ∀ addr port, newlistener addr port = true)
    (hconf : tokens conf = entries.map Listenport.text) (hentries : ∀ e ∈ entries, e.Ok modules)
    (horder : Orderly w)
    (hhas : ∀ s, Has w s ↔ ∃ e ∈ entries, e.endpoint = s)
    (hidle : cleanlisteners ops newlistener modules (some conf) w = .ok ((), w)) : Addressed entries := by
  intro e he haddr
  obtain ⟨c, hc, hl, hend⟩ := (hhas e.endpoint).2 ⟨e, he, rfl⟩
  obtain ⟨w₁, w', hrun, hswept, hadded⟩ := cleanlisteners_ok haloof hnew hconf hentries horder
  rw [hidle] at hrun
  cases hrun
  have hkeep : remains conf c = true := by
    rcases hadded.new c hc with hc₁ | ⟨-, hle, -⟩
    · rw [hswept.conns] at hc₁
      exact List.of_mem_filter hc₁
    · rw [hswept.nextcid] at hle
      exact absurd (horder.wf.lt c hc) (Nat.not_lt.2 hle)
  rw [remains, hl, Bool.not_true, Bool.false_or, configured_iff hconf hentries, hend, Listenport.endpoint,
    haddr] at hkeep
  exact hkeep

/-- Listeners are open at exactly the configured addresses afterwards. That they are the configured ones,
that those that already were open are untouched, and that a second run changes nothing, holds
just when the entries and what was open are reconcilable. -/
theorem listeners_reconciled (haloof : Aloof ops) (hnew : ∀ addr port, newlistener addr port = true)
    (hconf : tokens conf = entries.map Listenport.text) (hentries : ∀ e ∈ entries, e.Ok modules)
    (horder : Orderly w) :
    ∃ w', cleanlisteners ops newlistener modules (some conf) w = .ok ((), w') ∧ Located entries w w' ∧
      ((Exact modules entries w' ∧ Untouched entries w w' ∧
        cleanlisteners ops newlistener modules (some conf) w' = .ok ((), w')) ↔ Reconcilable modules entries w) := by
  obtain ⟨w₁, w', hrun, hswept, hadded⟩ := cleanlisteners_ok haloof hnew hconf hentries horder
  have hlocated := located_of_swept_added hconf hentries hswept hadded
  refine ⟨w', hrun, hlocated, fun h => ?_, fun hrec => ⟨?_, fun c hc hl hend => ?_, ?_⟩⟩
  · have haddressed := addressed_of_idle haloof hnew hconf hentries hadded.orderly hlocated.has h.2.2
    exact reconcilable_of_exact haddressed h.1 h.2.1
  · exact exact_of_reconcilable hconf hentries horder hswept hadded hrec
  · refine hadded.kept c ?_
    rw [hswept.conns, List.mem_filter]
    exact ⟨hc, remains_of_endpoint hconf hentries hrec.addressed hend⟩
  · exact cleanlisteners_idle haloof hnew hconf hentries hadded.orderly hrec.addressed hlocated.has

/-- A listener at any address, and nothing else. -/
def standing : World := .ofConns [newconn 0 none { listener := true } ⟨inetNtop .any, 5190⟩]

/-- The listener that the entry `5190` asks for is closed, and another one is opened in its place. -/
theorem listeners_reconciled_reopened :
    ∃ w', cleanlisteners (fun _ => {}) (fun _ _ => true) [] (some (lit "5190")) standing = .ok ((), w') ∧
      standing.conns.map (·.cid) = [0] ∧ w'.conns.map (·.cid) = [1] :=
  ⟨_, rfl, rfl, rfl⟩

def oscarmodule : Nafmodule := ⟨lit "oscar"⟩

/-- `10.0.0.1:5190/oscar` -/
def oscarport : Listenport := ⟨some (lit "10.0.0.1"), lit "5190", some (lit "oscar")⟩

/-- Its listener, and one at any address that nobody owns. -/
def twostanding : World :=
  .ofConns [newconn 0 none { listener := true } ⟨inetNtop .any, 5190⟩,
    newconn 1 (some oscarmodule) { listener := true } ⟨lit "10.0.0.1", 5190⟩]

theorem listeners_reconciled_kept :
    ∃ w', cleanlisteners (fun _ => {}) (fun _ _ => true) [oscarmodule] (some (lit "10.0.0.1:5190/oscar")) twostanding =
        .ok ((), w') ∧ w'.conns.map (·.cid) = [1] ∧ Exact [oscarmodule] [oscarport] w' ∧
      Untouched [oscarport] twostanding w' ∧
      cleanlisteners (fun _ => {}) (fun _ _ => true) [oscarmodule] (some (lit "10.0.0.1:5190/oscar")) w' =
        .ok ((), w') := by
  have haloof : Aloof fun _ => {} := ⟨fun _ _ _ _ _ h => (nomatch h), fun _ _ _ _ _ h => (nomatch h)⟩
  have hconf : tokens (lit "10.0.0.1:5190/oscar") = [oscarport].map Listenport.text := rfl
  have hentries : ∀ e ∈ [oscarport], e.Ok [oscarmodule] := by
    intro e he
    obtain rfl := List.mem_singleton.1 he
    refine ⟨?_, by decide, by decide +kernel, by decide, ?_, ?_⟩
    · rintro _ ⟨⟩
      exact ⟨⟨10, 0, 0, 1⟩, rfl⟩
    · rintro _ ⟨⟩
      decide
    · rintro _ ⟨⟩
      exact ⟨oscarmodule, rfl⟩
  have hconns : ∀ c ∈ twostanding.conns, c = newconn 0 none { listener := true } ⟨inetNtop .any, 5190⟩ ∨
      c = newconn 1 (some oscarmodule) { listener := true } ⟨lit "10.0.0.1", 5190⟩ := by
    intro c hc
    rcases List.mem_cons.1 hc with hc | hc
    · exact .inl hc
    · exact .inr (List.mem_singleton.1 hc)
  have horder : Orderly twostanding := by
    refine ⟨⟨by decide, fun c hc => ?_⟩, fun c hc k hk => ?_, rfl, rfl⟩
    · rcases hconns c hc with rfl | rfl
      · exact Nat.two_pos
      · exact Nat.one_lt_two
    · rcases hconns c hc with rfl | rfl <;> rcases hk with hk | hk <;> cases hk
  have hother : oscarport.endpoint ≠ ⟨inetNtop .any, 5190⟩ := fun h => absurd (congrArg Sockaddr.ip h) (by decide)
  -- the listener of the configured address belongs to the module named there
  have hrec : Reconcilable [oscarmodule] [oscarport] twostanding := by
    refine ⟨fun e he haddr => ?_, fun d hd e he _ => ?_, fun c hc _ e he hend => ?_, fun c hc d hd _ _ heq hend => ?_⟩
    · obtain rfl := List.mem_singleton.1 he
      cases haddr
    · rw [List.mem_singleton.1 hd, List.mem_singleton.1 he]
    · obtain rfl := List.mem_singleton.1 he
      rcases hconns c hc with rfl | rfl
      · exact absurd hend hother
      · rfl
    · obtain ⟨e, he, hend⟩ := hend
      obtain rfl := List.mem_singleton.1 he
      rcases hconns c hc with rfl | rfl
      · exact absurd hend hother
      · rcases hconns d hd with rfl | rfl
        · exact absurd (hend.trans heq) hother
        · rfl
  obtain ⟨w', hrun, -, hiff⟩ := listeners_reconciled haloof (fun _ _ => rfl) hconf hentries horder
  obtain ⟨hexact, huntouched, hagain⟩ := hiff.2 hrec
  refine ⟨w', hrun, ?_, hexact, huntouched, hagain⟩
  cases hrun
  rfl

end

end

end Timps.Naf.Conn
