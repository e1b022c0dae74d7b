-- SUMMARY: No connection is used after its close: what can stop a step of the proxy, and what cannot.
import Timps.Base.Triple
import Timps.Oscar.Closing
import Timps.Oscar.Cookies
import Timps.Oscar.Transit

/-!
# Survival

Between two steps no pointer leads to a closed connection. While a handler runs, nothing is
closed; so whatever connection it has got hold of is open when it comes to use it. `Keeps`
is about such code: what is open before, is open after.
-/

namespace Timps.Oscar

open Naf (Block Heap Mem Memfault Nafmodule Plain Sbuf Tag Tlv lit)
open Naf.Conn (tagAdd tagRemove tagFetch schedulekill getlocaladdrstr reqread reqwrite takeread takewrite addconn)
open Prog (StopsFrom Triple bind_ok pure_ok read_ok update_ok)
open Sys (mem conn deref modify)

/-! ## Open connections -/

/-- The connections `ks` are open, and no pointer leads to a closed one. -/
structure Live (ks : List Nat) (w : World) : Prop where
  wf : w.Wf
  held : ∀ k ∈ ks, (w.conn? k).isSome
  endpoint : ∀ k c e, w.conn? k = some c → c.endpoint = some e → (w.conn? e).isSome

namespace Live

variable {w w' : World} {ks ks' : List Nat} {k : Nat}

theorem mono (h : Live ks w) (hsub : ks' ⊆ ks) : Live ks' w := ⟨h.wf, fun k hk => h.held k (hsub hk), h.endpoint⟩

theorem congr (h : Live ks w) (hconns : w'.conns = w.conns) (hnext : w.nextcid ≤ w'.nextcid) : Live ks w' := by
  have hconn : ∀ k, w'.conn? k = w.conn? k := fun k => by rw [World.conn?, World.conn?, hconns]
  refine ⟨h.wf.congr hconns hnext, fun k hk => ?_, fun k c e hc hend => ?_⟩
  · rw [hconn]
    exact h.held k hk
  · rw [hconn] at hc ⊢
    exact h.endpoint k c e hc hend

theorem cons (h : Live ks w) (hk : (w.conn? k).isSome) : Live (k :: ks) w :=
  ⟨h.wf, List.forall_mem_cons.2 ⟨hk, h.held⟩, h.endpoint⟩

theorem append (h : Live ks w) (h' : Live ks' w) : Live (ks ++ ks') w :=
  ⟨h.wf, List.forall_mem_append.2 ⟨h.held, h'.held⟩, h.endpoint⟩

/-- Where an open connection points to is open. -/
theorem ends (h : Live ks w) {c : Conn} (hc : w.conn? k = some c) : Live (c.endpoint.toList ++ ks) w :=
  .append ⟨h.wf, fun e he => h.endpoint k c e hc (Option.mem_toList.1 he), h.endpoint⟩ h

theorem modify {f : Conn → Conn} (h : Live ks w) (hcid : ∀ c, (f c).cid = c.cid)
    (hend : ∀ c e, w.conn? k = some c → (f c).endpoint = some e → (w.conn? e).isSome) :
    Live ks (w.modify k f) := by
  have hopen : ∀ {j}, (w.conn? j).isSome → ((w.modify k f).conn? j).isSome := by
    intro j hj
    rw [World.conn?_modify hcid]
    split
    · rwa [Option.isSome_map]
    · exact hj
  refine ⟨h.wf.modify hcid, fun j hj => hopen (h.held j hj), fun j c e hc he => hopen ?_⟩
  rw [World.conn?_modify hcid] at hc
  split at hc
  · rename_i hjk
    obtain ⟨d, hd, rfl⟩ := Option.map_eq_some_iff.1 hc
    exact hend d e (hjk ▸ hd) he
  · exact h.endpoint j c e hc he

/-- A new connection has no endpoint, and can be pointed to. -/
theorem insert {pos : Nat} {c : Conn} (h : Live ks w) (hnew : New w c) : Live (w.nextcid :: ks) (w.insert pos c) := by
  have hopen : ∀ {j}, (w.conn? j).isSome → ((w.insert pos c).conn? j).isSome := by
    intro j hj
    rw [h.wf.conn?_insert hnew.cid]
    split
    · rfl
    · exact hj
  refine ⟨h.wf.insert hnew.cid, List.forall_mem_cons.2 ⟨?_, fun j hj => hopen (h.held j hj)⟩, fun j d e hd he => ?_⟩
  · rw [h.wf.conn?_insert hnew.cid, if_pos rfl]
    rfl
  · rw [h.wf.conn?_insert hnew.cid] at hd
    split at hd
    · cases hd
      rw [hnew.endpoint] at he
      cases he
    · exact hopen (h.endpoint j d e hd he)

end Live

/-- If the connections `ks` are open, `x` stops with a fault of `E` only, and whatever is open
stays open. -/
def Keeps {α : Type} (E : Fault → Prop) (ks : List Nat) (x : Sys α) : Prop :=
  ∀ ks', ks ⊆ ks' → Triple E (Live ks') x fun _ => Live ks'

namespace Keeps

variable {α β : Type} {E : Fault → Prop} {ks ks' : List Nat} {k : Nat} {x y : Sys α} {f : α → Sys β}

theorem mono (h : Keeps E ks x) (hsub : ks ⊆ ks') : Keeps E ks' x := fun l hl => h l fun _ hk => hl (hsub hk)

theorem pure (a : α) : Keeps E ks (Pure.pure a : Sys α) := fun _ _ => .pure fun _ h => h

theorem read (g : World → α) : Keeps E ks (Prog.read g) := fun _ _ => .read fun _ h => h

theorem update {g : World → World} (hconns : ∀ w, (g w).conns = w.conns) (hnext : ∀ w, (g w).nextcid = w.nextcid) :
    Keeps E ks (Prog.update g) :=
  fun _ _ => .update fun w h => h.congr (hconns w) (Nat.le_of_eq (hnext w).symm)

theorem fault {e : Fault} (he : E e) : Keeps E ks (Prog.fault e : Sys α) := fun _ _ => .fault he

theorem bind (hx : Keeps E ks x) (hf : ∀ a, Keeps E ks (f a)) : Keeps E ks (x >>= f) :=
  fun l hl => .bind (hx l hl) fun a => hf a l hl

theorem bind_gives {P : α → Prop} (hx : Keeps E ks x) (hg : Prog.Gives x P) (hf : ∀ a, P a → Keeps E ks (f a)) :
    Keeps E ks (x >>= f) := fun l hl =>
  ((hx l hl).gives hg).bind fun a => .fact (fun _ h => h.2) fun ha => (hf a ha l hl).pre fun _ h => h.1

theorem map {g : α → β} (hx : Keeps E ks x) : Keeps E ks (g <$> x) := fun l hl => .map (hx l hl)

theorem ite {c : Prop} [Decidable c] (hx : c → Keeps E ks x) (hy : ¬c → Keeps E ks y) :
    Keeps E ks (if c then x else y) := fun l hl => .ite (fun h => hx h l hl) fun h => hy h l hl

theorem each {γ : Type} {g : γ → Sys Unit} (l : List γ) (h : ∀ c ∈ l, Keeps E ks (g c)) :
    Keeps E ks (Prog.each g l) := fun ks' hsub => .each l fun c hc => h c hc ks' hsub

/-- A call of the allocator keeps all connections. -/
theorem mem {x : Mem α} (hx : Plain x) (hE : ∀ e, Memfault e → E e) : Keeps E ks (mem x) := by
  refine fun l _ => .focus (fun h e he => hE e (hx.stops h e he)) fun w h hw => ?_
  exact hw.congr rfl (Nat.le_refl _)

/-! ### Connections -/

/-- A connection that is there may be read, and its endpoint is one that is there. -/
theorem conn_bind {f : Conn → Sys β} (hk : k ∈ ks)
    (hf : ∀ c, c.cid = k → Keeps E (c.endpoint.toList ++ ks) (f c)) : Keeps E ks (conn k >>= f) := by
  intro l hl w hw
  obtain ⟨c, hc⟩ := Option.isSome_iff_exists.1 (hw.held k (hl hk))
  have hconn : conn k w = .ok (c, w) := Sys.conn_ok.2 ⟨hc, rfl⟩
  have hrest := hf c (World.conn?_some hc).2 (c.endpoint.toList ++ l)
    (List.append_subset.2
    ⟨List.subset_append_left _ _, List.subset_append_of_subset_right _ hl⟩) w (hw.ends hc)
  have heq : (conn k >>= f) w = f c w := Prog.bind_of_ok hconn
  refine ⟨fun e he => hrest.1 e (heq ▸ he), fun b w' hr => ?_⟩
  exact (hrest.2 b w' (heq ▸ hr)).mono (List.subset_append_right _ _)

theorem deref_bind {f : Conn → Sys β} (hk : k ∈ ks) (hf : ∀ c, c.cid = k → Keeps E ks (f c)) :
    Keeps E ks (deref (some k) >>= f) :=
  conn_bind hk fun c hc => (hf c hc).mono (List.subset_append_right _ _)

theorem conn (hk : k ∈ ks) : Keeps E ks (conn k) := by
  have hbind : Keeps E ks (Sys.conn k >>= Pure.pure) := conn_bind hk fun c _ => .pure c
  rwa [bind_pure] at hbind

theorem modify {f : Conn → Conn} (hk : k ∈ ks) (hcid : ∀ c, (f c).cid = c.cid)
    (hend : ∀ c, (f c).endpoint = c.endpoint) : Keeps E ks (modify k f) := by
  refine .bind (.conn hk) fun _ l _ => .update fun w hw => hw.modify hcid fun c e hc he => ?_
  exact hw.endpoint k c e hc (by rw [← hend]; exact he)

/-- A connection may be made the endpoint of another while both are there. -/
theorem setEndpoint {x : Option Nat} (hk : k ∈ ks) (hx : x.toList ⊆ ks) :
    Keeps E ks (Sys.modify k (.setEndpoint x)) := by
  refine .bind (.conn hk) fun _ l hl => .update fun w hw => hw.modify (Conn.setEndpoint_cid _) fun c e _ he => ?_
  exact hw.held e (hl (hx (Option.mem_toList.2 he)))

/-- A new connection is open. -/
theorem addconn_bind {owner : Option Nafmodule} {type : ConnType} {f : Option Nat → Sys β}
    (hE : ∀ e, Memfault e → E e) (hf : ∀ r, Keeps E (r.toList ++ ks) (f r)) :
    Keeps E ks (addconn owner type >>= f) := by
  have hstops : ∀ w, StopsFrom E (addconn owner type) w := by
    refine fun w => .bind (.focus fun e he => hE e ((Naf.malloc_plain _).stops _ e he)) fun b _ _ => ?_
    cases b with
    | none => exact .pure _
    | some b =>
        refine .bind (.read _) fun cid _ _ => .bind (.update _) fun _ _ _ => ?_
        refine .bind (fun e he => nomatch he) fun refused _ _ => .ite (fun _ => ?_) fun _ => ?_
        · exact .bind (.update _) fun _ _ _ => .pure _
        · exact .bind (.update _) fun _ _ _ => .pure _
  intro l hl w hw
  have hadded : ∀ r w₁, addconn owner type w = .ok (r, w₁) → Live (r.toList ++ l) w₁ := by
    intro r w₁ hr
    obtain ⟨env, -, ⟨rfl, nextcid, openconns, hnext, rfl⟩ | ⟨rfl, pos, c, hnew, -, rfl⟩⟩ := addconn_ok hr
    · exact hw.congr rfl hnext
    · exact (hw.insert hnew).congr rfl (Nat.le_refl _)
  have hrest : ∀ r w₁, addconn owner type w = .ok (r, w₁) →
      StopsFrom E (f r) w₁ ∧ ∀ b w', f r w₁ = .ok (b, w') → Live (r.toList ++ l) w' := fun r w₁ hr =>
    hf r _ (List.append_subset.2 ⟨List.subset_append_left _ _, List.subset_append_of_subset_right _ hl⟩) w₁
      (hadded r w₁ hr)
  refine ⟨.bind (hstops w) fun r w₁ hr => (hrest r w₁ hr).1, fun b w' hr => ?_⟩
  obtain ⟨r, w₁, hadd, hr⟩ := bind_ok.1 hr
  exact ((hrest r w₁ hadd).2 b w' hr).mono (List.subset_append_right _ _)

/-- A connection that a search finds is open, and so is the one it points to. -/
theorem find_bind {matcher : Conn → Sys Bool} {f : Option Conn → Sys β}
    (hmatcher : ∀ c, Keeps E (c.cid :: ks) (matcher c)) (hnone : Keeps E ks (f none))
    (hsome : ∀ c, Keeps E (c.cid :: (c.endpoint.toList ++ ks)) (f (some c))) :
    Keeps E ks (Naf.Conn.find matcher >>= f) := by
  have hloop : ∀ conns l, ks ⊆ l → (∀ c ∈ conns, c.cid :: c.endpoint.toList ⊆ l) →
      Triple E (Live l) (Naf.Conn.findLoop matcher conns) fun r w =>
        Live l w ∧ ∀ c, r = some c → c.cid :: c.endpoint.toList ⊆ l := by
    intro conns l hl
    induction conns with
    | nil => exact fun _ => .pure fun w hw => ⟨hw, fun c hc => nomatch hc⟩
    | cons c conns ih =>
        intro hall
        obtain ⟨hc, hconns⟩ := List.forall_mem_cons.1 hall
        have hmem : c.cid ∈ l := hc List.mem_cons_self
        refine .bind (hmatcher c l (List.cons_subset.2 ⟨hmem, hl⟩)) fun b => .ite (fun _ => ?_) fun _ => ih hconns
        exact .pure fun w hw => ⟨hw, fun d hd => Option.some.inj hd ▸ hc⟩
  intro l hl w hw
  -- all connections of the list are open, and so are those they point to
  let seen := w.conns.flatMap fun c => c.cid :: c.endpoint.toList
  have hseen : ∀ c ∈ w.conns, c.cid :: c.endpoint.toList ⊆ seen ++ l := fun c hc k hk =>
    List.mem_append_left _ (List.mem_flatMap.2 ⟨c, hc, hk⟩)
  have hlive : Live (seen ++ l) w := by
    refine .append ⟨hw.wf, fun k hk => ?_, hw.endpoint⟩ hw
    obtain ⟨c, hc, hk⟩ := List.mem_flatMap.1 hk
    have hconn := hw.wf.conn? hc
    rcases List.mem_cons.1 hk with rfl | hk
    · rw [hconn]
      rfl
    · exact hw.endpoint _ c k hconn (Option.mem_toList.1 hk)
  have hsub : ks ⊆ seen ++ l := List.subset_append_of_subset_right _ hl
  have hfind : Triple E (Live (seen ++ l)) (Naf.Conn.findLoop matcher w.conns >>= f) fun _ => Live (seen ++ l) := by
    refine .bind (hloop w.conns _ hsub hseen) fun r => ?_
    cases r with
    | none => exact (hnone _ hsub).pre fun _ h => h.1
    | some c =>
        refine .fact (fun _ h => h.2 c rfl) fun hc => (hsome c _ ?_).pre fun _ h => h.1
        obtain ⟨hcid, hend⟩ := List.cons_subset.1 hc
        exact List.cons_subset.2 ⟨hcid, List.append_subset.2 ⟨hend, hsub⟩⟩
  obtain ⟨hstops, hok⟩ := hfind w hlive
  refine ⟨hstops, fun b w' hr => (hok b w' ?_).mono (List.subset_append_right _ _)⟩
  exact hr

end Keeps

/-! ## Programs over memory -/

theorem puthdr_plain (sb : Sbuf) (chan : Nat) : Plain (puthdr sb chan) :=
  .bind (Sbuf.put_plain _ _) fun _ => .bind (Sbuf.put_plain _ _) fun _ => .bind (Sbuf.put_plain _ _) fun _ =>
    .bind (Sbuf.put_plain _ _) fun _ => .pure _

theorem newsnacsb_plain (group subtype flags id : Nat) : Plain (newsnacsb group subtype flags id) := by
  refine .bind (Sbuf.init_plain _ _) fun sb => ?_
  cases sb with
  | none => exact .pure _
  | some sb =>
      refine .bind (puthdr_plain _ _) fun sb => ?_
      iterate 4 refine .bind (Sbuf.put_plain _ _) fun (_, sb) => ?_
      exact .pure _

theorem touserinfoNew_plain (sn : CStr) : Plain (touserinfoNew sn) := by
  refine .bind (Naf.malloc_plain _) fun b => ?_
  cases b with
  | none => exact .pure _
  | some b =>
      refine .bind (Naf.malloc_plain _) fun b => ?_
      cases b <;> exact .pure _

theorem touserinfoRender_plain (toui : Touserinfo) (sb : Sbuf) : Plain (touserinfoRender toui sb) := by
  iterate 4 refine .bind (Sbuf.put_plain _ _) fun (_, sb) => ?_
  exact .bind (Tlv.render_plain _ _) fun _ => .pure _

theorem putsrcinfo_plain (gm : Msg) (sb : Sbuf) : Plain (putsrcinfo gm sb) := by
  unfold putsrcinfo
  split
  · exact .map (touserinfoRender_plain _ _)
  · refine .bind (touserinfoNew_plain _) fun toui => ?_
    cases toui with
    | none => exact .pure _
    | some toui => exact .map (touserinfoRender_plain _ _)

theorem renderchan1_plain (gm : Msg) (sb : Sbuf) : Plain (renderchan1 gm sb) := by
  refine .bind ?_ fun (_, sb) => .bind ?_ fun tlvh => .bind ?_ fun tlvh => .bind (Tlv.render_plain _ _)
    fun (_, sb) => ?_
  · split
    · exact Tlv.render_plain _ _
    · exact .bind (addoscarmsgblock_plain _ _ _) fun msgtlv => Tlv.render_plain _ _
  · exact .ite (fun _ => .map (Tlv.addraw_plain _ _ _)) fun _ => .pure _
  · exact .ite (fun _ => .map (Tlv.addraw_plain _ _ _)) fun _ => .pure _
  · dsimp only
    split
    · exact .bind (Tlv.render_plain _ _) fun _ => .pure _
    · exact .pure _

theorem parsesnac_plain (buf : Block) (buflen : Nat) : Plain (parsesnac buf buflen) := by
  have hword : ∀ off, Plain (wordAt buf off) := fun off => .bind (Naf.Block.load_plain _ _ _) fun v => .pure _
  refine .bind (hword _) fun group => .bind (hword _) fun subtype => .bind (hword _) fun flags => ?_
  refine .bind (Naf.Block.load_plain _ _ _) fun v => .bind (.ite (fun _ => hword _) fun _ => .pure _)
    fun exthdrlen => ?_
  exact .pure _

theorem chan1tlvs_plain (buf : Block) (buflen : Nat) : Plain (chan1tlvs buf buflen) := by
  refine .bind (Sbuf.init_plain _ _) fun sb => ?_
  cases sb with
  | none => exact .pure _
  | some sb =>
      refine .bind (Sbuf.advance_plain _ _) fun (_, sb) => .bind (Sbuf.get_plain _ _ _) fun (flapver, sb) => ?_
      exact .ite (fun _ => .pure _) fun _ => .bind (Tlv.parse_plain _) fun _ => .pure _

theorem online_plain (g : Gnr) (now : Int) (owner : Nafmodule) (name service : CStr) (flags : Nat) (metric : Int) :
    Plain (g.online now owner name service flags metric) := by
  unfold Gnr.online
  cases g.findbyname name (some service) with
  | some gn => exact .pure _
  | none =>
      refine .bind (Naf.malloc_plain _) fun b => ?_
      cases b with
      | none => exact .pure _
      | some b =>
          refine .bind (Naf.malloc_plain _) fun b => ?_
          cases b with
          | none => exact .pure _
          | some b =>
              refine .bind (Naf.malloc_plain _) fun b => ?_
              cases b <;> exact .pure _

/-! ## Requests, tags and searches -/

section

variable {E : Fault → Prop} {ks : List Nat} {cid : Nat}

theorem schedulekill_keeps (hk : cid ∈ ks) : Keeps E ks (schedulekill cid) := .modify hk (fun _ => rfl) fun _ => rfl

theorem env_keeps {α : Type} {x : Sys α} (hx : ∀ w, ∃ a env, x w = .ok (a, { w with env })) : Keeps E ks x := by
  intro l _ w hw
  obtain ⟨a, env, hr⟩ := hx w
  refine ⟨fun e he => ?_, fun a' w' hr' => ?_⟩
  · rw [hr] at he
    cases he
  · rw [hr] at hr'
    cases hr'
    exact hw.congr rfl (Nat.le_refl _)

theorem readRefused_keeps : Keeps E ks Sys.readRefused := env_keeps fun _ => ⟨_, _, rfl⟩

theorem writeRefused_keeps : Keeps E ks Sys.writeRefused := env_keeps fun _ => ⟨_, _, rfl⟩

theorem rand_keeps : Keeps E ks Sys.rand := env_keeps fun _ => ⟨_, _, rfl⟩

theorem observe_keeps (o : Obs) : Keeps E ks (Sys.observe o) := .update (fun _ => rfl) fun _ => rfl

theorem now_keeps : Keeps E ks Sys.now := .read _

theorem reqread_keeps (hk : cid ∈ ks) (buf : Option Block) (buflen offset : Nat) :
    Keeps E ks (reqread cid buf buflen offset) := by
  cases buf with
  | none => exact .pure _
  | some buf =>
      refine .ite (fun _ => .pure _) fun _ => .bind (.conn hk) fun c => .bind readRefused_keeps fun refused => ?_
      refine .ite (fun _ => .pure _) fun _ => .bind (.modify hk ?_ ?_) fun _ => .pure _
      · exact Conn.setRx_cid _
      · exact Conn.setRx_endpoint _

theorem reqwrite_keeps (hk : cid ∈ ks) (buf : Bytes) : Keeps E ks (reqwrite cid buf) := by
  refine .ite (fun _ => .pure _) fun _ => .bind now_keeps fun now => ?_
  refine .bind (.modify hk (fun _ => rfl) fun _ => rfl) fun _ => .bind writeRefused_keeps fun refused => ?_
  exact .ite (fun _ => .bind (observe_keeps _) fun _ => .pure _) fun _ => .bind (observe_keeps _) fun _ => .pure _

theorem takeread_keeps (hk : cid ∈ ks) : Keeps E ks (takeread cid) := by
  refine .bind (.conn hk) fun c => ?_
  cases c.rx with
  | none => exact .pure _
  | some rx => exact .bind (.modify hk (Conn.setRx_cid _) (Conn.setRx_endpoint _)) fun _ => .pure _

theorem takewrite_keeps (hk : cid ∈ ks) : Keeps E ks (takewrite cid) := by
  refine .bind (.read _) fun flushed => .ite (fun _ => .bind now_keeps fun now => ?_) fun _ => .pure _
  exact .bind (.modify hk (fun _ => rfl) fun _ => rfl) fun _ => .pure _

theorem tagRemove_keeps (mod : Nafmodule) (hk : cid ∈ ks) (name : CStr) :
    Keeps E ks (tagRemove mod (some cid) name) := by
  refine .bind (.conn hk) fun c => ?_
  rcases Tag.remove c.taglist mod name with ⟨_ | tag, taglist⟩
  · exact .pure _
  · exact .bind (.modify hk (Conn.setTaglist_cid _) (Conn.setTaglist_endpoint _)) fun _ => .pure _

theorem fetchScreenname_keeps {o : Option Nat} (ho : o.toList ⊆ ks) : Keeps E ks (fetchScreenname o) := by
  cases o with
  | none => exact .map (.pure _)
  | some cid => exact .map (.bind (.conn (ho List.mem_cons_self)) fun c => .pure _)

theorem forceDisconnect_keeps (sn : CStr) : Keeps E ks (forceDisconnect sn) := by
  refine .find_bind (fun c => .read _) (.pure _) fun c => .bind (schedulekill_keeps ?_) fun _ => .pure _
  exact List.mem_cons_self

theorem detacholdconns_keeps (sn : CStr) : Keeps E ks (detacholdconns sn) := by
  have hfind : Keeps E ks (detacholdconns sn >>= Pure.pure) := by
    refine .find_bind (fun c => .bind (.read _) fun old => .bind ?_ fun _ => .pure _) (.pure _) fun c => .pure _
    exact .ite (fun _ => schedulekill_keeps List.mem_cons_self) fun _ => .pure _
  rwa [bind_pure] at hfind

/-! ## What allocates -/

variable (hE : ∀ e, Memfault e → E e)

include hE

theorem tagAdd_keeps (mod : Nafmodule) {o : Option Nat} (ho : o.toList ⊆ ks) (name : CStr) (type : Char)
    (data : TagData) : Keeps E ks (tagAdd mod o name type data) := by
  cases o with
  | none => exact .pure _
  | some cid =>
      have hk : cid ∈ ks := ho List.mem_cons_self
      refine .bind (.conn hk) fun c => .bind (.mem (tagAdd_plain _ _ _ _ _) hE) fun taglist => ?_
      cases taglist with
      | none => exact .pure _
      | some taglist => exact .bind (.modify hk (Conn.setTaglist_cid _) (Conn.setTaglist_endpoint _)) fun _ => .pure _

/-- With an old buffer the error path works on a pointer that was never set. -/
theorem reqflap_keeps (hk : cid ∈ ks) (oldbuf : Option Block) (hold : oldbuf.isSome → E .uninitialised) :
    Keeps E ks (reqflap cid oldbuf) := by
  cases oldbuf with
  | none => exact .bind (.mem (Naf.malloc_plain _) hE) fun buf => reqread_keeps hk _ _ _
  | some oldbuf =>
      exact .bind (reqread_keeps hk _ _ _) fun b => .ite (fun _ => .pure _) fun _ => .fault (hold rfl)

theorem ckcacheAdd_keeps (ck : Option Bytes) (ip sn : CStr) (servtype : Nat) :
    Keeps E ks (ckcacheAdd ck ip sn servtype) := by
  cases ck with
  | none => exact .pure _
  | some ck =>
      refine .ite (fun _ => .pure _) fun _ => .bind (.read _) fun cache => .ite (fun _ => .pure _) fun _ => ?_
      refine .bind (.mem (ckcAlloc_plain _ _ _) hE) fun ckc => ?_
      cases ckc with
      | none => exact .pure _
      | some ckc => exact .bind now_keeps fun now => .bind (.update (fun _ => rfl) fun _ => rfl) fun _ => .pure _

omit hE in
theorem ckcacheRem_keeps (ck : Bytes) : Keeps E ks (ckcacheRem ck) := by
  refine .bind (.read _) fun cache => ?_
  rcases ckcacheRemove cache ck with ⟨_ | ckc, rest⟩
  · exact .pure _
  · exact .bind (.update (fun _ => rfl) fun _ => rfl) fun _ => .pure _

theorem nodeOnline_keeps (owner : Nafmodule) (name service : CStr) (flags : Nat) (metric : Int) :
    Keeps E ks (Gnr.nodeOnline owner name service flags metric) :=
  .bind (.read _) fun _ => .bind now_keeps fun _ => .bind (.mem (online_plain _ _ _ _ _ _ _) hE) fun _ =>
    .bind (.update (fun _ => rfl) fun _ => rfl) fun _ => .pure _

theorem assumeExternal_keeps (name : CStr) : Keeps E ks (assumeExternal name) := by
  refine .bind (.read _) fun found => ?_
  cases found with
  | some gn => exact .pure _
  | none => exact .bind (nodeOnline_keeps hE _ _ _ _ _) fun _ => .pure _

theorem msgNew_keeps : Keeps E ks (Gnr.msgNew : Sys (Option Msg)) := by
  refine .bind (.mem (Naf.malloc_plain _) hE) fun b => ?_
  cases b <;> exact .pure _

theorem msgTagAdd_keeps (gm : Msg) (name : CStr) (type : Char) (data : Hint) :
    Keeps E ks (Gnr.msgTagAdd module gm name type data) := by
  refine .bind (.mem (tagAdd_plain _ _ _ _ _) hE) fun taglist => ?_
  cases taglist <;> exact .pure _

theorem parsechan1_keeps (gm : Msg) (tlvh : List Tlv) : Keeps E ks (parsechan1 gm tlvh) := by
  refine .bind ?_ fun _ => .pure _
  rcases Tlv.remove tlvh 0x0002 with ⟨_ | tlv, rest⟩
  · exact .pure _
  · refine .bind (.mem (extractmsgtext_plain _) hE) fun r => .ite (fun _ => ?_) fun _ => .pure _
    exact .bind (msgTagAdd_keeps hE _ _ _ _) fun _ => .pure _

/-! ## Sending -/

theorem sendraw_keeps {o : Option Nat} (ho : o.toList ⊆ ks) (buf : Block) (buflen : Nat) :
    Keeps E ks (sendraw o buf buflen) := by
  cases o with
  | none => exact .pure _
  | some cid =>
      have hk : cid ∈ ks := ho List.mem_cons_self
      refine .bind (.conn hk) fun c => ?_
      iterate 3 refine .bind (.mem (Block.store_plain _ _ _) hE) fun buf => ?_
      refine .bind (.mem (Block.load_plain _ _ _) hE) fun frame => .bind (reqwrite_keeps hk _) fun b => ?_
      exact .ite (fun _ => .bind (.modify hk (fun _ => rfl) fun _ => rfl) fun _ => .pure _) fun _ => .pure _

theorem sendsbufConsume_keeps {o : Option Nat} (ho : o.toList ⊆ ks) (sb : Sbuf) : Keeps E ks (sendsbufConsume o sb) :=
  sendraw_keeps hE ho _ _

theorem sendflapversion_keeps (hk : cid ∈ ks) : Keeps E ks (sendflapversion cid) := by
  refine .bind (.mem (Sbuf.init_plain _ _) hE) fun sb => ?_
  cases sb with
  | none => exact .pure _
  | some sb =>
      refine .bind (.mem (puthdr_plain _ _) hE) fun sb => .bind (.mem (Sbuf.put_plain _ _) hE) fun (_, sb) => ?_
      exact sendsbufConsume_keeps hE (by simpa using hk) _

theorem sendcookie_keeps (hk : cid ∈ ks) (tlvh : List Tlv) : Keeps E ks (sendcookie cid tlvh) := by
  refine .bind (.mem (Sbuf.init_plain _ _) hE) fun sb => ?_
  cases sb with
  | none => exact .pure _
  | some sb =>
      refine .bind (.mem (puthdr_plain _ _) hE) fun sb => .bind (.mem (Sbuf.put_plain _ _) hE) fun (_, sb) => ?_
      exact .bind (.mem (Tlv.render_plain _ _) hE) fun _ => sendsbufConsume_keeps hE (by simpa using hk) _

theorem sendconnclose_keeps (hk : cid ∈ ks) (reason : Nat) (reasonurl : Option CStr) :
    Keeps E ks (sendconnclose cid reason reasonurl) := by
  refine .bind (.mem (Sbuf.init_plain _ _) hE) fun sb => ?_
  cases sb with
  | none => exact .pure _
  | some sb =>
      refine .bind (.mem (puthdr_plain _ _) hE) fun sb => ?_
      refine .bind (.ite (fun _ => .map (.mem (Tlv.addraw_plain _ _ _) hE)) fun _ => .pure _) fun tlvh => ?_
      refine .bind ?_ fun tlvh => ?_
      · cases reasonurl with
        | none => exact .pure _
        | some url => exact .map (.mem (Tlv.addraw_plain _ _ _) hE)
      · exact .bind (.mem (Tlv.render_plain _ _) hE) fun _ => sendsbufConsume_keeps hE (by simpa using hk) _

theorem sendnop_keeps (hk : cid ∈ ks) : Keeps E ks (sendnop cid) := by
  refine .bind (.mem (Sbuf.init_plain _ _) hE) fun sb => ?_
  cases sb with
  | none => exact .pure _
  | some sb =>
      exact .bind (.mem (puthdr_plain _ _) hE) fun sb => sendsbufConsume_keeps hE (by simpa using hk) _

theorem authSendfail_keeps (hk : cid ∈ ks) (sn : Option CStr) (code : Nat) (errurl : Option CStr) :
    Keeps E ks (authSendfail cid sn code errurl) := by
  refine .bind (.mem (newsnacsb_plain _ _ _ _) hE) fun sb => ?_
  cases sb with
  | none => exact .pure _
  | some sb =>
      refine .bind (.mem (Tlv.addraw_plain _ _ _) hE) fun r₁ => .bind (.mem (Tlv.addraw_plain _ _ _) hE) fun r₂ => ?_
      refine .bind ?_ fun tlvh => ?_
      · cases errurl with
        | none => exact .pure _
        | some errurl => exact .map (.mem (Tlv.addraw_plain _ _ _) hE)
      · exact .bind (.mem (Tlv.render_plain _ _) hE) fun _ => sendsbufConsume_keeps hE (by simpa using hk) _

theorem authSendauthinforequest_keeps (hk : cid ∈ ks) (snacid : Nat) (tlvh : List Tlv) :
    Keeps E ks (authSendauthinforequest cid snacid tlvh) := by
  refine .bind (.mem (newsnacsb_plain _ _ _ _) hE) fun sb => ?_
  cases sb with
  | none => exact .pure _
  | some sb => exact .bind (.mem (Tlv.render_plain _ _) hE) fun _ => sendsbufConsume_keeps hE (by simpa using hk) _

theorem putmsgck_keeps (gm : Msg) (sb : Sbuf) : Keeps E ks (putmsgck gm sb) := by
  have hloop : ∀ n sb, Keeps E ks (putcookie n sb) := by
    intro n
    induction n with
    | zero => exact fun sb => .pure _
    | succ n ih => exact fun sb => .bind rand_keeps fun r => .bind (.mem (Sbuf.put_plain _ _) hE) fun r => ih _
  unfold putmsgck
  split
  · exact .map (.mem (Sbuf.put_plain _ _) hE)
  · exact hloop _ _

theorem sendoutgoing_keeps {o : Option Nat} (ho : o.toList ⊆ ks) (gm : Msg) : Keeps E ks (sendoutgoing o gm) := by
  unfold sendoutgoing
  cases icbmchan gm with
  | none => exact .pure _
  | some chan =>
      refine .bind (.mem (newsnacsb_plain _ _ _ _) hE) fun sb => ?_
      cases sb with
      | none => exact .pure _
      | some sb =>
          refine .bind (putmsgck_keeps hE gm sb) fun sb => ?_
          iterate 3 refine .bind (.mem (Sbuf.put_plain _ _) hE) fun (_, sb) => ?_
          exact .bind (.mem (renderchan1_plain _ _) hE) fun sb => sendsbufConsume_keeps hE ho _

theorem sendincoming_keeps {o : Option Nat} (ho : o.toList ⊆ ks) (gm : Msg) : Keeps E ks (sendincoming o gm) := by
  unfold sendincoming
  cases icbmchan gm with
  | none => exact .pure _
  | some chan =>
      refine .bind (.mem (newsnacsb_plain _ _ _ _) hE) fun sb => ?_
      cases sb with
      | none => exact .pure _
      | some sb =>
          refine .bind (putmsgck_keeps hE gm sb) fun sb => .bind (.mem (Sbuf.put_plain _ _) hE) fun (_, sb) => ?_
          refine .bind (.mem (putsrcinfo_plain _ _) hE) fun sb => ?_
          cases sb with
          | none => exact .pure _
          | some sb =>
              refine .bind (.mem (renderchan1_plain _ _) hE) fun sb => ?_
              exact .bind (sendsbufConsume_keeps hE ho _) fun _ => .pure _

end

/-! ## Connecting -/

/-- The connection points to another one. -/
def Pointing (l : Nat) (w : World) : Prop := ∃ c, w.conn? l = some c ∧ c.endpoint.isSome

section

variable {l k : Nat} {w w' : World}

theorem pointing_modify {f : Conn → Conn} (h : Pointing l w) (hcid : ∀ c, (f c).cid = c.cid)
    (hend : ∀ c, c.endpoint.isSome → (f c).endpoint.isSome) : Pointing l (w.modify k f) := by
  obtain ⟨c, hc, hsome⟩ := h
  rw [Pointing, World.conn?_modify hcid]
  split
  · exact ⟨f c, by rw [hc]; rfl, hend c hsome⟩
  · exact ⟨c, hc, hsome⟩

theorem Quiet.pointing {p : Perm} (h : Quiet p w w') (hl : Pointing l w) : Pointing l w' := by
  obtain ⟨c, hc, hsome⟩ := hl
  have hview := h.view l
  rw [hc] at hview
  obtain ⟨c', hc', hcview⟩ := Option.map_eq_some_iff.1 hview
  simp only [Oscar.view, Prod.mk.injEq] at hcview
  exact ⟨c', hc', hcview.1 ▸ hsome⟩

theorem connectsocket_pointing {inprogress : Bool}
    (hr : Naf.Conn.connectsocket takeconns l inprogress w = .ok (true, w')) : Pointing l w' := by
  simp only [Naf.Conn.connectsocket, bind_ok, Sys.conn_ok] at hr
  obtain ⟨c, w, ⟨-, rfl⟩, endpoint, w₁, -, _, w₂, hpoint, hr⟩ := hr
  obtain ⟨⟨c', hc'⟩, hpoint⟩ := Sys.modify_ok.1 hpoint
  cases hpoint
  cases endpoint with
  | none => cases pure_ok.1 hr
  | some e =>
      simp only [bind_ok, Sys.modify_ok, Prod.mk.injEq] at hr
      obtain ⟨_, w₃, htake, _, _, ⟨-, -, rfl⟩, _, _, ⟨-, -, rfl⟩, hr⟩ := hr
      cases pure_ok.1 hr
      have hlinked : Pointing l (w₁.modify l (.setEndpoint (some e))) := by
        refine ⟨c'.setEndpoint (some e), ?_, rfl⟩
        rw [World.conn?_modify (Conn.setEndpoint_cid _), if_pos rfl, hc']
        rfl
      have hquiet := takenew_quiet (p := ⟨0, none, fun _ => False, fun _ => False, False⟩) (Nat.zero_le e) _ _ _ htake
      have hkept : Pointing l w₃ := Prog.keep (I := fun v => Pointing l v) (fun _ _ h => h.pointing) hquiet hlinked
      refine pointing_modify (pointing_modify hkept (Conn.setOwner_cid _) fun c h => ?_) (Conn.setEndpoint_cid _)
        fun c _ => rfl
      exact h

theorem startconnect_pointing {host : CStr} {port : Nat} (hr : startconnect l host port w = .ok (true, w')) :
    Pointing l w' := by
  unfold startconnect Naf.Conn.startconnect at hr
  cases hsplit : Naf.Conn.splithost host port with
  | none =>
      rw [hsplit] at hr
      cases hr
  | some hostport =>
      rw [hsplit] at hr
      obtain ⟨status, w, hread, hr⟩ := bind_ok.1 hr
      cases status with
      | failed => cases pure_ok.1 hr
      | connected => exact connectsocket_pointing hr
      | inprogress => exact connectsocket_pointing hr

end

section

variable {E : Fault → Prop} {ks : List Nat} {cid : Nat} (hE : ∀ e, Memfault e → E e)

include hE

theorem takeconn_keeps (hk : cid ∈ ks) : Keeps E ks (takeconn cid) := by
  have htouch : ∀ f : Conn → Conn, (∀ c, (f c).cid = c.cid) → (∀ c, (f c).endpoint = c.endpoint) →
      Keeps E ks (modify cid f) := fun f hcid hend => .modify hk hcid hend
  refine .bind (htouch _ (fun _ => rfl) fun _ => rfl) fun _ => .bind (htouch _ (fun _ => rfl) fun _ => rfl) fun _ => ?_
  refine .bind (.read _) fun prorogueall => .bind (.ite (fun _ => ?_) fun _ => .pure _) fun _ => ?_
  · exact htouch _ (fun _ => rfl) fun _ => rfl
  refine .bind (.conn hk) fun c => .bind (.ite (fun _ => sendflapversion_keeps hE hk) fun _ => .pure _) fun sent => ?_
  exact .ite (fun _ => reqflap_keeps hE hk none (by simp)) fun _ => .pure _

theorem connectsocket_keeps (hk : cid ∈ ks) (inprogress : Bool) :
    Keeps E ks (Naf.Conn.connectsocket takeconns cid inprogress) := by
  refine .conn_bind hk fun c _ => .addconn_bind hE fun endpoint => ?_
  have hmem : cid ∈ endpoint.toList ++ (c.endpoint.toList ++ ks) :=
    List.mem_append_right _ (List.mem_append_right _ hk)
  refine .bind (.setEndpoint hmem (List.subset_append_left _ _)) fun _ => ?_
  cases endpoint with
  | none => exact .pure _
  | some e =>
      have he : e ∈ (some e).toList ++ (c.endpoint.toList ++ ks) := List.mem_cons_self
      refine .bind (.bind ?_ fun _ => .ite (fun _ => ?_) fun _ => .pure _) fun _ => ?_
      · cases c.owner with
        | none => exact .pure _
        | some owner =>
            simp only [Option.bind_some, takeconns]
            by_cases howner : owner = module
            · rw [if_pos howner]
              exact .bind (takeconn_keeps hE he) fun _ => .pure _
            · rw [if_neg howner]
              exact .pure _
      · exact .bind (.modify hmem (fun _ => rfl) fun _ => rfl) fun _ => .modify he (fun _ => rfl) fun _ => rfl
      · refine .bind (.modify he (Conn.setOwner_cid _) fun _ => rfl) fun _ => ?_
        exact .bind (.setEndpoint he (by simpa using .inr (.inr hk))) fun _ => .pure _

theorem startconnect_keeps (hk : cid ∈ ks) (host : CStr) (port : Nat) : Keeps E ks (startconnect cid host port) := by
  unfold startconnect Naf.Conn.startconnect
  cases Naf.Conn.splithost host port with
  | none => exact .fault (hE _ (.inl rfl))
  | some hostport =>
      refine .bind (.read _) fun status => ?_
      cases status with
      | failed => exact .pure _
      | connected => exact connectsocket_keeps hE hk false
      | inprogress => exact connectsocket_keeps hE hk true

/-- After a connection was made, the local one points to it. -/
theorem startconnect_bind {host : CStr} {port : Nat} {g : Conn → Conn} {f : Conn → Sys Hret} {F : Bool → Sys Hret}
    (hk : cid ∈ ks) (hfalse : Keeps E ks (F false)) (htrue : F true = modify cid g >>= fun _ => conn cid >>= f)
    (hcid : ∀ c, (g c).cid = c.cid) (hend : ∀ c, (g c).endpoint = c.endpoint)
    (hf : ∀ c e, c.endpoint = some e → Keeps E (e :: ks) (f c)) : Keeps E ks (startconnect cid host port >>= F) := by
  intro l hl w hw
  have hcontinues : ∀ w₁, Live l w₁ → Pointing cid w₁ →
      StopsFrom E (F true) w₁ ∧ ∀ b w', F true w₁ = .ok (b, w') → Live l w' := by
    intro w₁ hw₁ hpointing
    rw [htrue]
    have hmodify : Triple E (fun w => Live l w ∧ Pointing cid w) (modify cid g)
        fun _ w => Live l w ∧ Pointing cid w := by
      intro w hw
      obtain ⟨hstops, hok⟩ := Keeps.modify hk hcid hend l hl w hw.1
      refine ⟨hstops, fun u w' hr => ⟨hok u w' hr, ?_⟩⟩
      obtain ⟨-, hr⟩ := Sys.modify_ok.1 hr
      cases hr
      exact pointing_modify hw.2 hcid fun c hsome => by rw [hend]; exact hsome
    have hrest : Triple E (fun w => Live l w ∧ Pointing cid w) (conn cid >>= f) fun _ => Live l := by
      rintro w ⟨hw, c, hc, hsome⟩
      obtain ⟨e, he⟩ := Option.isSome_iff_exists.1 hsome
      have heq : (conn cid >>= f) w = f c w := Prog.bind_of_ok (Sys.conn_ok.2 ⟨hc, rfl⟩)
      have hlive : Live (e :: l) w := hw.cons (hw.endpoint cid c e hc he)
      obtain ⟨hstops, hok⟩ := hf c e he (e :: l) (List.cons_subset_cons e hl) w hlive
      refine ⟨fun e he => hstops e (heq ▸ he), fun b w' hr => ?_⟩
      exact (hok b w' (heq ▸ hr)).mono (List.subset_cons_self _ _)
    exact (hmodify.bind fun _ => hrest) w₁ ⟨hw₁, hpointing⟩
  obtain ⟨hstops, hok⟩ := startconnect_keeps hE hk host port l hl w hw
  have hrest : ∀ b w₁, startconnect cid host port w = .ok (b, w₁) →
      StopsFrom E (F b) w₁ ∧ ∀ r w', F b w₁ = .ok (r, w') → Live l w' := by
    intro b w₁ hr
    cases b with
    | false => exact hfalse l hl w₁ (hok _ _ hr)
    | true => exact hcontinues w₁ (hok _ _ hr) (startconnect_pointing hr)
  refine ⟨.bind hstops fun b w₁ hr => (hrest b w₁ hr).1, fun r w' hr => ?_⟩
  obtain ⟨b, w₁, hconnect, hr⟩ := bind_ok.1 hr
  exact (hrest b w₁ hconnect).2 r w' hr

end

/-! ## Routing -/

section

variable {E : Fault → Prop} {ks : List Nat} {cid : Nat} (hE : ∀ e, Memfault e → E e)

include hE

theorem gnroutputfunc_keeps (gm : Msg) (gmhi : Gnr.HandlerInfo) (hsrc : gmhi.srcnode.isSome)
    (hdest : gmhi.destnode.isSome) : Keeps E ks (gnroutputfunc gm gmhi) := by
  obtain ⟨srcnode, hsrcnode⟩ := Option.isSome_iff_exists.1 hsrc
  obtain ⟨destnode, hdestnode⟩ := Option.isSome_iff_exists.1 hdest
  unfold gnroutputfunc
  rw [hsrcnode, hdestnode]
  refine .ite (fun _ => .find_bind (fun c => .read _) (.pure _) fun c => ?_) fun _ => .ite (fun _ => ?_)
    fun _ => .pure _
  · refine .bind (sendincoming_keeps hE ?_ _) fun _ => .pure _
    exact fun e he => List.mem_cons_of_mem _ (List.mem_append_left _ he)
  · refine .find_bind (fun c => .read _) (.pure _) fun c => .bind (sendoutgoing_keeps hE ?_ _) fun _ => .pure _
    simp

omit hE in
theorem nodeMsgPostrouting_keeps (gm : Msg) (gmhi : Gnr.HandlerInfo) :
    Keeps E ks (Gnr.nodeMsgPostrouting gm gmhi) := by
  have hhit : ∀ gn, Keeps E ks (Gnr.nodeUsehit gn) := fun gn => .update (fun _ => rfl) fun _ => rfl
  refine .bind (.ite (fun _ => .bind ?_ fun _ => ?_) fun _ => .pure _) fun _ => .pure _
  · cases gmhi.srcnode with
    | none => exact .pure _
    | some gn => exact hhit gn
  · cases gmhi.destnode with
    | none => exact .pure _
    | some gn => exact hhit gn

omit hE in
theorem msgrouting_keeps (gm : Msg) (gmhi : Gnr.HandlerInfo) : Keeps E ks (msgrouting gm gmhi) := by
  unfold msgrouting
  split
  · exact .ite (fun _ => .pure _) fun _ => .ite (fun _ => .pure _) fun _ => .pure _
  · exact .pure _

omit hE in
/-- A message is put out only if both names have nodes. -/
theorem routing_chooses (gm : Msg) (gmhi : Gnr.HandlerInfo) (hnone : gmhi.targetmod = none) :
    Prog.Gives (Gnr.runRouting handlers.routing gm gmhi) fun r =>
      r.2.targetmod.isSome → r.2.srcnode.isSome ∧ r.2.destnode.isSome := by
  have hhandler : Prog.Gives (msgrouting gm gmhi) fun r =>
      r.2.2 = gmhi ∧ (r.1 ≠ 0 → gmhi.srcnode.isSome ∧ gmhi.destnode.isSome) := by
    unfold msgrouting
    split
    · rename_i hsrc hdest
      rw [hsrc, hdest]
      exact .ite (fun _ => .pure (by simp)) fun _ => .ite (fun _ => .pure (by simp)) fun _ => .pure (by simp)
    · exact .pure (by simp)
  refine .bind hhandler fun (r, gm, gmhi') h => ?_
  obtain ⟨rfl, hnodes⟩ := h
  refine .ite (fun hr => .pure fun _ => hnodes hr) fun _ => .pure fun hsome => ?_
  rw [hnone] at hsome
  cases hsome

/-- A message that is routed has its nodes when the output function is called. -/
theorem msgRoute_keeps (gm : Msg) : Keeps E ks (Gnr.msgRoute handlers module gm) := by
  unfold Gnr.msgRoute
  split
  · refine .bind (.read _) fun srcnode => .bind (.read _) fun destnode => .bind_gives (.pure _) (.pure rfl)
      fun r hr => ?_
    subst hr
    refine .bind_gives ?_ (routing_chooses _ _ rfl) fun (gm, gmhi) hnodes => ?_
    · exact .bind (msgrouting_keeps _ _) fun r => .ite (fun _ => .pure _) fun _ => .pure _
    refine .bind_gives (.bind (nodeMsgPostrouting_keeps _ _) fun _ => .pure _) (P := fun r => r.2 = gmhi) ?_
      fun r hr => ?_
    · refine .bind (P := fun r => r.2.2 = gmhi) (.bind .trivial fun _ _ => .pure rfl) fun r hr => .pure hr
    obtain ⟨gm, gmhi'⟩ := r
    obtain rfl : gmhi' = gmhi := hr
    dsimp only
    cases houtput : gmhi'.targetmod.bind handlers.outputfunc with
    | none => exact .pure _
    | some outputfunc =>
        obtain ⟨mod, htarget, hmod⟩ := Option.bind_eq_some_iff.1 houtput
        obtain ⟨hsrc, hdest⟩ := hnodes (by rw [htarget]; rfl)
        refine .bind ?_ fun _ => .pure _
        simp only [handlers] at hmod
        split at hmod
        · cases hmod
          exact gnroutputfunc_keeps hE _ _ hsrc hdest
        · cases hmod
  · exact .pure _

end

/-! ## The handlers -/

section

variable {E : Fault → Prop} {ks : List Nat} {cid : Nat} (hE : ∀ e, Memfault e → E e)

theorem out_0004_0006_keeps (gm : Option Msg) (ret : Hret) : Keeps E ks (out_0004_0006 gm ret) := by
  refine .bind (.ite (fun hsome => ?_) fun _ => .pure _) fun _ => .pure _
  obtain ⟨gm, rfl⟩ := Option.isSome_iff_exists.1 hsome
  exact .pure _

theorem out_0004_0007_keeps (gm : Msg) (ret : Hret) : Keeps E ks (out_0004_0007 (some gm) ret) :=
  .bind (.pure _) fun _ => .pure _

/-- Without a message there is a null pointer to free. -/
theorem out_0004_0007_null (hnull : E .nullMsg) (ret : Hret) : Keeps E ks (out_0004_0007 none ret) :=
  .bind (.fault hnull) fun _ => .pure _

include hE

theorem handlechan1Conncomplete_keeps (hk : cid ∈ ks) : Keeps E ks (handlechan1Conncomplete cid) := by
  refine .bind (tagRemove_keeps _ hk _) fun wtag => ?_
  cases wtag with
  | some tag =>
      refine .bind (tagRemove_keeps _ hk _) fun idtag => .bind (sendflapversion_keeps hE hk) fun _ => ?_
      exact .bind (authSendauthinforequest_keeps hE hk _ _) fun _ => .pure _
  | none =>
      refine .bind (tagRemove_keeps _ hk _) fun wtag => ?_
      cases wtag with
      | some tag => exact .bind (sendcookie_keeps hE hk _) fun _ => .pure _
      | none => exact .pure _

theorem handlechan1Newconn_keeps (hk : cid ∈ ks) (tlvh : List Tlv) : Keeps E ks (handlechan1Newconn cid tlvh) := by
  unfold handlechan1Newconn
  cases Tlv.get tlvh 0x0006 with
  | none => exact .pure _
  | some cktlv =>
  refine .bind (ckcacheRem_keeps _) fun ckc => ?_
  cases ckc with
  | none => exact .pure _
  | some ckc =>
  refine startconnect_bind hE hk (.pure _) rfl (fun _ => rfl) (fun _ => rfl) fun c e he => ?_
  rw [he]
  refine .deref_bind List.mem_cons_self fun d hd => ?_
  have hpeer : (some e).toList ⊆ e :: ks := by simp
  refine .bind (.modify (by rw [hd]; exact List.mem_cons_self) (fun _ => rfl) fun _ => rfl) fun _ => ?_
  refine .bind (tagAdd_keeps hE _ hpeer _ _ _) fun b => ?_
  cases b with
  | false => exact .pure _
  | true =>
  refine .bind (tagAdd_keeps hE _ hpeer _ _ _) fun b => ?_
  cases b <;> exact .pure _

theorem handlechan1_keeps (hk : cid ∈ ks) (buf : Block) (buflen : Nat) : Keeps E ks (handlechan1 cid buf buflen) := by
  refine .bind (.mem (chan1tlvs_plain _ _) hE) fun r => ?_
  cases r with
  | none => exact .pure _
  | some tlvh =>
      refine .bind (.conn hk) fun c => .ite (fun _ => ?_) fun _ => .ite (fun _ => .pure _) fun _ => ?_
      · exact .ite (fun _ => handlechan1Conncomplete_keeps hE hk) fun _ => .pure _
      · exact .ite (fun _ => handlechan1Newconn_keeps hE hk tlvh) fun _ => .pure _

theorem snachandler_0001_0002_keeps (hk : cid ∈ ks) (snac : Snac) : Keeps E ks (snachandler_0001_0002 cid snac) := by
  refine .conn_bind hk fun c _ => .ite (fun _ => .pure _) fun _ => ?_
  refine .bind (fetchScreenname_keeps (List.subset_append_left _ _)) fun sn => ?_
  cases sn with
  | none => exact .pure _
  | some sn =>
  refine .bind (detacholdconns_keeps sn) fun _ => .bind (nodeOnline_keeps hE _ _ _ _ _) fun gn => ?_
  cases gn <;> exact .pure _

theorem snachandler_0004_0006_keeps (hk : cid ∈ ks) (snac : Snac) : Keeps E ks (snachandler_0004_0006 cid snac) := by
  refine .conn_bind hk fun c _ => .bind (fetchScreenname_keeps (List.subset_append_left _ _)) fun srcsn => ?_
  cases srcsn with
  | none => exact out_0004_0006_keeps _ _
  | some srcsn =>
  refine .bind (.mem (Sbuf.getraw_plain _ _) hE) fun (msgck, sb) => ?_
  cases msgck with
  | none => exact out_0004_0006_keeps _ _
  | some msgck =>
  refine .bind (.mem (Sbuf.get_plain _ _ _) hE) fun (msgchan, sb) => ?_
  refine .bind (.mem (Sbuf.get_plain _ _ _) hE) fun (destsnlen, sb) => ?_
  refine .bind (.mem (Sbuf.getstr_plain _ _) hE) fun (destsn, sb) => ?_
  cases destsn with
  | none => exact out_0004_0006_keeps _ _
  | some destsn =>
  refine .bind (.mem (Tlv.parse_plain _) hE) fun (tlvh, sb) => .bind (msgNew_keeps hE) fun gm => ?_
  cases gm with
  | none => exact out_0004_0006_keeps _ _
  | some gm =>
  refine .bind (msgTagAdd_keeps hE _ _ _ _) fun (added, gm) => ?_
  cases added with
  | false => exact out_0004_0006_keeps _ _
  | true =>
  refine .bind (msgTagAdd_keeps hE _ _ _ _) fun (added, gm) => ?_
  cases added with
  | false => exact out_0004_0006_keeps _ _
  | true =>
  refine .ite (fun _ => out_0004_0006_keeps _ _) fun _ => .bind (parsechan1_keeps hE _ _) fun (gm, tlvh) => ?_
  refine .bind (msgTagAdd_keeps hE _ _ _ _) fun (_, gm) => .bind (assumeExternal_keeps hE _) fun _ => ?_
  exact .bind (msgRoute_keeps hE _) fun _ => out_0004_0006_keeps _ _

theorem snachandler_0004_0007_keeps (hk : cid ∈ ks) (hnull : E .nullMsg) (snac : Snac) :
    Keeps E ks (snachandler_0004_0007 cid snac) := by
  refine .bind (fetchScreenname_keeps (by simpa using hk)) fun destsn => ?_
  cases destsn with
  | none => exact out_0004_0007_null hnull _
  | some destsn =>
  refine .bind (.mem (Sbuf.getraw_plain _ _) hE) fun (msgck, sb) => ?_
  cases msgck with
  | none => exact out_0004_0007_null hnull _
  | some msgck =>
  refine .bind (.mem (Sbuf.get_plain _ _ _) hE) fun (msgchan, sb) => ?_
  refine .bind (.mem (touserinfoExtract_plain _) hE) fun (srcinfo, sb) => ?_
  cases srcinfo with
  | none => exact out_0004_0007_null hnull _
  | some srcinfo =>
  refine .bind (.mem (Tlv.parse_plain _) hE) fun (tlvh, sb) => .bind (msgNew_keeps hE) fun gm => ?_
  cases gm with
  | none => exact out_0004_0007_null hnull _
  | some gm =>
  refine .bind (msgTagAdd_keeps hE _ _ _ _) fun (added, gm) => ?_
  cases added with
  | false => exact out_0004_0007_keeps _ _
  | true =>
  refine .bind (msgTagAdd_keeps hE _ _ _ _) fun (added, gm) => ?_
  cases added with
  | false => exact out_0004_0007_keeps _ _
  | true =>
  refine .ite (fun _ => out_0004_0007_keeps _ _) fun _ => .bind (parsechan1_keeps hE _ _) fun (gm, tlvh) => ?_
  refine .bind (msgTagAdd_keeps hE _ _ _ _) fun (added, gm) => ?_
  cases added with
  | false => exact out_0004_0007_keeps _ _
  | true =>
  refine .bind (msgTagAdd_keeps hE _ _ _ _) fun (_, gm) => .bind (assumeExternal_keeps hE _) fun _ => ?_
  exact .bind (msgRoute_keeps hE _) fun _ => out_0004_0007_keeps _ _

theorem snachandler_0017_0006_keeps (hk : cid ∈ ks) (snac : Snac) : Keeps E ks (snachandler_0017_0006 cid snac) := by
  refine .bind (.mem (Tlv.parse_plain _) hE) fun (tlvh, sb) => .bind (.mem (Tlv.getasstring_plain _ _) hE) fun sn => ?_
  refine .ite (fun _ => .bind (authSendfail_keeps hE hk _ _ _) fun _ => ?_) fun _ => ?_
  · exact .bind (sendconnclose_keeps hE hk _ _) fun _ => .bind (schedulekill_keeps hk) fun _ => .pure _
  refine .bind (.conn hk) fun c => .ite (fun _ => .pure _) fun _ => .bind (.read _) fun authorizer => ?_
  refine startconnect_bind hE hk (.pure _) rfl (fun _ => rfl) (fun _ => rfl) fun c e he => ?_
  rw [he]
  refine .deref_bind List.mem_cons_self fun d hd => ?_
  have hpeer : (some e).toList ⊆ e :: ks := by simp
  refine .bind (.modify (by rw [hd]; exact List.mem_cons_self) (fun _ => rfl) fun _ => rfl) fun _ => ?_
  refine .bind (tagAdd_keeps hE _ hpeer _ _ _) fun b => ?_
  cases b with
  | false => exact .pure _
  | true =>
  refine .bind (tagAdd_keeps hE _ hpeer _ _ _) fun b => ?_
  cases b <;> exact .pure _

theorem getlocaladdrstr_keeps {o : Option Nat} (ho : o.toList ⊆ ks) (hnull : o = none → E .nullConn) :
    Keeps E ks (getlocaladdrstr o) := by
  have hderef : ∀ {β : Type} {f : Conn → Sys β}, (∀ c, Keeps E ks (f c)) → Keeps E ks (deref o >>= f) := by
    intro β f hf
    cases o with
    | none => exact .bind (.fault (hnull rfl)) hf
    | some e => exact .deref_bind (ho List.mem_cons_self) fun c _ => hf c
  refine .bind (.read _) fun extipaddr => .bind ?_ fun ip => .bind (.mem (Naf.malloc_plain _) hE) fun b => ?_
  · split
    · exact .pure _
    · exact hderef fun c => .pure _
  cases b with
  | none => exact .pure _
  | some b =>
      refine .ite (fun _ => .pure _) fun _ => hderef fun c => .bind (.mem (Naf.malloc_plain _) hE) fun b => ?_
      cases b <;> exact .pure _

/-- The address is looked for where the connection points to. -/
theorem snachandler_0017_0003_keeps {l : List Nat} (hk : cid ∈ l) (snac : Snac) :
    Triple E (fun w => Live l w ∧ ∀ c, w.conn? cid = some c → c.endpoint = none → E .nullConn)
      (snachandler_0017_0003 cid snac) fun _ => Live l := by
  rintro w ⟨hw, hnull⟩
  obtain ⟨c, hc⟩ := Option.isSome_iff_exists.1 (hw.held cid hk)
  have hrest : ∀ f : Conn → Sys Hret, Keeps E (c.endpoint.toList ++ l) (f c) →
      StopsFrom E (conn cid >>= f) w ∧ ∀ b w', (conn cid >>= f) w = .ok (b, w') → Live l w' := by
    intro f hf
    have heq : (conn cid >>= f) w = f c w := Prog.bind_of_ok (Sys.conn_ok.2 ⟨hc, rfl⟩)
    obtain ⟨hstops, hok⟩ := hf _ (List.Subset.refl _) w (hw.ends hc)
    exact ⟨fun e he => hstops e (heq ▸ he), fun b w' hr => (hok b w' (heq ▸ hr)).mono (List.subset_append_right _ _)⟩
  have hpeer : c.endpoint.toList ⊆ c.endpoint.toList ++ l := List.subset_append_left _ _
  refine hrest _ (.bind (.mem (Tlv.parse_plain _) hE) fun (tlvh, sb) => .ite (fun _ => .pure _) fun _ => ?_)
  refine .bind (.mem (Tlv.getasstring_plain _ _) hE) fun sn => .bind (.mem (Tlv.getasstring_plain _ _) hE) fun ip => ?_
  rcases Tlv.get tlvh 0x0006 with _ | cktlv
  · exact .pure _
  rcases ip with _ | ip
  · exact .pure _
  rcases sn with _ | sn
  · exact .pure _
  refine .bind (ckcacheAdd_keeps hE _ _ _ _) fun added => ?_
  cases added with
  | false => exact .pure _
  | true =>
  refine .bind (getlocaladdrstr_keeps hE hpeer (hnull c hc)) fun las => ?_
  cases las with
  | none => exact .pure _
  | some las =>
  refine .bind (.mem (Tlv.addraw_plain _ _ _) hE) fun (_, tlvh) => .bind (.mem (newsnacsb_plain _ _ _ _) hE)
    fun sb => ?_
  cases sb with
  | none => exact .pure _
  | some sb =>
  refine .bind (.mem (Tlv.render_plain _ _) hE) fun (_, sb) => .bind (sendsbufConsume_keeps hE hpeer _) fun b => ?_
  cases b <;> exact .pure _

/-! ## The reader -/

/-- The frame is a SNAC of that kind. -/
def IsSnac (buf : Block) (buflen group subtype : Nat) : Prop :=
  buf.byte 1 = 0x02 ∧ (snacOf (buf.suffix flaphdrlen) (buflen - flaphdrlen)).group = group ∧
    (snacOf (buf.suffix flaphdrlen) (buflen - flaphdrlen)).subtype = subtype

omit hE in
theorem parsesnac_gives (buf : Block) (buflen : Nat) :
    Prog.Gives (parsesnac buf buflen) fun snac => snac = snacOf buf buflen := by
  intro h snac h' hr
  have heq := parsesnac_ok hr
  cases heq
  rfl

/-- A handler on a frame that arrived on a connection. -/
theorem dispatch_keeps {l : List Nat} (hk : cid ∈ l) (buf : Block) (buflen : Nat)
    (hmsg : IsSnac buf buflen 0x0004 0x0007 → E .nullMsg) :
    Triple E (fun w => Live l w ∧ (IsSnac buf buflen 0x0017 0x0003 → ∀ c, w.conn? cid = some c →
      c.endpoint = none → E .nullConn)) (dispatch cid buf buflen) fun _ => Live l := by
  have hkeeps : ∀ {P : World → Prop} {x : Sys Hret}, Keeps E l x →
      Triple E (fun w => Live l w ∧ P w) x fun _ => Live l := fun hx => (hx l (List.Subset.refl l)).pre fun _ h => h.1
  refine .ite (fun _ => hkeeps (handlechan1_keeps hE hk _ _)) fun _ => .ite (fun hchan => ?_) fun _ => ?_
  · refine .ite (fun _ => hkeeps (.pure _)) fun _ => ?_
    refine .bind (.gives (.focus (fun h e he => hE e ((parsesnac_plain _ _).stops h e he)) fun w h hw => ?_)
      (.focus (parsesnac_gives _ _))) fun snac => .fact (fun _ h => h.2) fun hsnac => .pre ?_ fun _ h => h.1
    · exact ⟨hw.1.congr rfl (Nat.le_refl _), hw.2⟩
    subst hsnac
    cases hfind : snachandlers.find? fun i => i.1 = (snacOf (buf.suffix flaphdrlen) (buflen - flaphdrlen)).group &&
        i.2.1 = (snacOf (buf.suffix flaphdrlen) (buflen - flaphdrlen)).subtype with
    | none => exact hkeeps (.pure _)
    | some entry =>
        have hkind := List.find?_some hfind
        simp only [Bool.and_eq_true, decide_eq_true_eq] at hkind
        have hmem := List.mem_of_find?_eq_some hfind
        simp only [snachandlers, List.mem_cons, List.not_mem_nil, or_false] at hmem
        rcases hmem with rfl | rfl | rfl | rfl | rfl | rfl | rfl
        · exact hkeeps (snachandler_0001_0002_keeps hE hk _)
        · exact hkeeps (.bind (.modify hk (fun _ => rfl) fun _ => rfl) fun _ => .pure _)
        · exact hkeeps (.bind (.bind (.conn hk) fun _ => .pure _) fun _ => .pure _)
        · exact hkeeps (snachandler_0004_0006_keeps hE hk _)
        · exact hkeeps (snachandler_0004_0007_keeps hE hk (hmsg ⟨hchan, hkind.1.symm, hkind.2.symm⟩) _)
        · exact (snachandler_0017_0003_keeps hE hk _).pre fun w h => ⟨h.1, h.2 ⟨hchan, hkind.1.symm, hkind.2.symm⟩⟩
        · exact hkeeps (snachandler_0017_0006_keeps hE hk _)
  · exact .ite (fun _ => hkeeps (.pure _)) fun _ => hkeeps (.pure _)

theorem conclude_keeps (hk : cid ∈ ks) (huninit : E .uninitialised) (buf : Block) (buflen : Nat) (ret : Hret) :
    Keeps E ks (conclude cid buf buflen ret) := by
  refine .conn_bind hk fun c _ => .bind (observe_keeps _) fun _ => ?_
  have hk' : cid ∈ c.endpoint.toList ++ ks := List.mem_append_right _ hk
  cases ret with
  | error => exact .pure _
  | digested => exact reqflap_keeps hE hk' _ fun _ => huninit
  | forward =>
      refine .ite (fun _ => .bind (sendraw_keeps hE (List.subset_append_left _ _) _ _) fun b => ?_) fun _ => ?_
      · exact .ite (fun _ => reqflap_keeps hE hk' _ fun _ => huninit) fun _ => .pure _
      · exact reqflap_keeps hE hk' _ fun _ => huninit

/-- What a complete frame may bring about is tolerated. -/
structure Tolerates (E : Fault → Prop) (endpoint : Option Nat) (buf : Block) (buflen : Nat) : Prop where
  uninitialised : E .uninitialised
  nullMsg : IsSnac buf buflen 0x0004 0x0007 → E .nullMsg
  nullConn : IsSnac buf buflen 0x0017 0x0003 → endpoint = none → E .nullConn

/-- The reader comes to its end, or stops with a fault that its frame explains. -/
theorem handleread_keeps {l : List Nat} {w : World} (hk : cid ∈ l) (hw : Live l w)
    (hframe : ∀ c rx, w.conn? cid = some c → c.rx = some rx → hdrok rx.buf = true →
      rx.len = flaphdrLen rx.buf + flaphdrlen → Tolerates E c.endpoint rx.buf rx.len) :
    Triple E (fun v => v = w) (handleread cid) fun _ => Live l := by
  have htaken : Triple E (fun v => v = w) (takeread cid) fun r v => Live l v ∧ takeread cid w = .ok (r, v) := by
    rintro _ rfl
    obtain ⟨hstops, hok⟩ := takeread_keeps hk l (List.Subset.refl l) _ hw
    exact ⟨hstops, fun r v hr => ⟨hok r v hr, hr⟩⟩
  refine htaken.bind fun taken => ?_
  rintro v ⟨hv, htake⟩
  obtain ⟨c, hc, ⟨-, rfl, rfl⟩ | ⟨rx, hrx, rfl, rfl⟩⟩ := takeread_ok htake
  · exact Triple.pure (fun _ h => h) v hv
  have hconn : ∀ d, (w.modify cid (.setRx none)).conn? cid = some d → d.endpoint = c.endpoint := by
    intro d hd
    rw [World.conn?_modify (Conn.setRx_cid _), if_pos rfl, hc] at hd
    cases hd
    rfl
  have hload : Triple E (fun v => Live l v ∧ ∀ d, v.conn? cid = some d → d.endpoint = c.endpoint)
      (mem (rx.buf.load 0 flaphdrlen)) fun _ v => Live l v ∧ ∀ d, v.conn? cid = some d → d.endpoint = c.endpoint := by
    refine .focus (fun h e he => hE e ((Block.load_plain _ _ _).stops h e he)) fun v h hv => ?_
    exact ⟨hv.1.congr rfl (Nat.le_refl _), hv.2⟩
  have hsub := List.Subset.refl l
  refine Triple.bind (T := fun _ => Live l) hload (fun _ => ?_) _ ⟨hv, hconn⟩
  refine .ite (fun _ => .pure fun _ h => h.1) fun hhdr => .ite (fun _ => ?_) fun hlen => ?_
  · exact (reqread_keeps hk _ _ _ l hsub).pre fun _ h => h.1
  simp only [Bool.not_eq_false, ne_eq, Decidable.not_not] at hhdr hlen
  obtain ⟨huninit, hmsg, hnull⟩ := hframe c rx hc hrx hhdr hlen
  refine .bind (Q := fun _ v => Live l v ∧ ∀ d, v.conn? cid = some d → d.endpoint = c.endpoint) (.update fun v hv => ?_)
    fun _ => .bind ((dispatch_keeps hE hk _ _ hmsg).pre fun v hv => ⟨hv.1, fun hkind d hd hend => ?_⟩) fun ret => ?_
  · exact ⟨hv.1.congr rfl (Nat.le_refl _), hv.2⟩
  · exact hnull hkind ((hv.2 d hd).symm.trans hend)
  · exact conclude_keeps hE hk huninit _ _ _ l hsub

end

/-! ## Closing -/

section

variable {E : Fault → Prop} {l : List Nat} {cid : Nat}

/-- A close comes to its end, and leaves no pointer to what it freed. -/
theorem free_live (hk : cid ∈ l) : Triple E (Live l) (Naf.Conn.free ops cid) fun _ => Live [] := by
  intro w hw
  obtain ⟨X, w', hfree, hclosed⟩ := Naf.Conn.free_closed ops_quiet (hw.held cid hk)
  have hacts := free_acts (p := ⟨0, none, fun _ => False, fun _ => False, False⟩) cid hw.wf _ _ hfree
  have hlive : Live [] w' := by
    refine ⟨Prog.keep (fun _ _ h => h.wf) hacts hw.wf, by simp, fun k c' e hc' hend => ?_⟩
    obtain ⟨-, c, hc, htrimmed⟩ := hclosed.cut.before hc'
    have hkept : c.endpoint = some e := by
      rcases htrimmed.ptr .endpoint with heq | ⟨hnone, -⟩
      · exact heq.symm.trans hend
      · cases hnone.symm.trans hend
    have hnot : e ∉ X := by
      intro he
      by_cases hself : e = cid
      · exact hclosed.released k c' .endpoint hc' (hself ▸ hend)
      · exact hclosed.settled k c' .endpoint hc' e he hself hend
    exact (hclosed.open_iff e).2 ⟨hw.endpoint k c e hc hkept, hnot⟩
  refine ⟨fun e he => ?_, fun u v hr => ?_⟩
  · rw [hfree] at he
    cases he
  · rw [hfree] at hr
    cases hr
    exact hlive

/-- A connection that a handler has given up is closed. -/
theorem orfree_live {P : World → Prop} {x : Sys Bool} (hk : cid ∈ l) (hx : Triple E P x fun _ => Live l) :
    Triple E P (do if ← x then pure () else Naf.Conn.free ops cid) fun _ => Live [] :=
  hx.bind fun _ => .ite (fun _ => .pure fun _ h => h.mono (List.nil_subset l)) fun _ => free_live hk

theorem connhandlerRead_live {w : World} (hE : ∀ e, Memfault e → E e) (hk : cid ∈ l) (hw : Live l w)
    (hframe : ∀ c rx, w.conn? cid = some c → c.type.connecting = false →
      (c.type.detecting || c.owner ≠ some module) = false → c.rx = some rx → hdrok rx.buf = true →
      rx.len = flaphdrLen rx.buf + flaphdrlen → Tolerates E c.endpoint rx.buf rx.len) :
    Triple E (fun v => v = w) (Naf.Conn.connhandlerRead ops cid) fun _ => Live [] := by
  rintro _ rfl
  obtain ⟨c, hc⟩ := Option.isSome_iff_exists.1 (hw.held cid hk)
  have hconn : conn cid _ = .ok (c, _) := Sys.conn_ok.2 ⟨hc, rfl⟩
  rw [Naf.Conn.connhandlerRead, StopsFrom]
  simp only [Prog.bind_of_ok hconn, connready_of_owner]
  have hfree : Triple E (Live l) (Naf.Conn.free ops cid) fun _ => Live [] := free_live hk
  by_cases hconnecting : c.type.connecting = true
  · rw [if_pos hconnecting]
    exact Triple.pure (fun _ h => h.mono (List.nil_subset l)) _ hw
  rw [if_neg hconnecting]
  by_cases hdetecting : c.type.detecting = true
  · rw [if_pos hdetecting]
    exact hfree _ hw
  rw [if_neg hdetecting]
  by_cases howner : c.owner = some module
  · rw [if_pos howner]
    refine orfree_live hk (handleread_keeps hE hk hw fun d rx hd hrx hhdr hlen => ?_) _ rfl
    rw [hc] at hd
    cases hd
    exact hframe c rx hc (by simpa using hconnecting) (by simp [hdetecting, howner]) hrx hhdr hlen
  · rw [if_neg howner]
    exact hfree _ hw

end

/-! ## Events -/

section

variable {E : Fault → Prop} {ks : List Nat} {cid : Nat} {w : World}

theorem completes_readable {bytes : Bytes} {c : Conn} {rx : Rx} (hc : w.conn? cid = some c) (hrx : c.rx = some rx)
    (hconnecting : c.type.connecting = false) (howner : (c.type.detecting || c.owner ≠ some module) = false)
    (hlen : rx.offset + bytes.length = rx.len) (hhdr : hdrok (rx.buf.fill rx.offset bytes) = true)
    (hframe : rx.len = flaphdrLen (rx.buf.fill rx.offset bytes) + flaphdrlen) :
    completes w (.readable cid bytes) = some (cid, rx.buf.fill rx.offset bytes, rx.len) := by
  rw [completes, received_readable hc hrx, hconnecting, howner, if_neg (by simp), if_pos hlen]
  exact Option.filter_some_pos (by simpa using ⟨hhdr, hframe⟩)

/-- Bytes that arrive are stored in the buffer they were asked for. -/
theorem completeread_live {bytes : Bytes} (hE : ∀ e, Memfault e → E e) (hw : Live [] w)
    (hframe : ∀ c buf buflen, w.conn? cid = some c → completes w (.readable cid bytes) = some (cid, buf, buflen) →
      Tolerates E c.endpoint buf buflen) :
    Triple E (fun v => v = w) (completeread cid bytes) fun _ => Live [] := by
  refine .bind (Q := fun r v => r = w.conn? cid ∧ v = w) (.read fun v hv => ⟨by rw [hv], hv⟩) fun found => ?_
  refine .fact (fun _ h => h.1) fun hfound => .pre ?_ fun _ h => h.2
  cases found with
  | none => exact .pure fun v hv => hv ▸ hw
  | some c =>
      have hlive : Live [cid] w := hw.cons (by rw [← hfound]; rfl)
      refine .ite (fun hconnecting => ?_) fun hconnecting => ?_
      · refine connhandlerRead_live hE List.mem_cons_self hlive fun d rx hd hno => ?_
        rw [← hfound] at hd
        cases hd
        rw [hconnecting] at hno
        cases hno
      cases hrx : c.rx with
      | none => exact .pure fun v hv => hv ▸ hw
      | some rx =>
          refine .ite (fun hlen => ?_) fun _ => .pure fun v hv => hv ▸ hw
          have hmem : cid ∈ [cid] := List.mem_cons_self
          -- the bytes are stored before the handler of the connection runs
          have hstore : Triple E (fun v => v = w) (mem (rx.buf.store rx.offset bytes)) fun buf v =>
              v = w ∧ buf = rx.buf.fill rx.offset bytes := by
            rintro _ rfl
            refine ⟨.focus fun e he => hE e ((Block.store_plain _ _ _).stops _ e he), fun buf v hr => ?_⟩
            obtain ⟨-, hr⟩ := Sys.mem_store_ok.1 hr
            cases hr
            exact ⟨rfl, rfl⟩
          refine hstore.bind fun buf => .fact (fun _ h => h.2) fun hbuf => .pre ?_ fun _ h => h.1
          subst hbuf
          have hstored : Triple E (fun v => v = w)
              (modify cid (.setRx (some { rx with buf := rx.buf.fill rx.offset bytes }))) fun _ v =>
                v = stored w cid rx bytes ∧ Live [cid] v := by
            rintro _ rfl
            have hkeeps : Keeps E [cid] (modify cid (.setRx (some { rx with buf := rx.buf.fill rx.offset bytes }))) :=
              .modify hmem (Conn.setRx_cid _) (Conn.setRx_endpoint _)
            obtain ⟨hstops, hok⟩ := hkeeps _ (List.Subset.refl _) _ hlive
            refine ⟨hstops, fun u v hr => ⟨?_, hok u v hr⟩⟩
            obtain ⟨-, hr⟩ := Sys.modify_ok.1 hr
            cases hr
            rfl
          refine hstored.bind fun _ => .fact (p := Live [cid] (stored w cid rx bytes)) (fun v h => h.1 ▸ h.2)
            fun hlive => ?_
          refine .pre (connhandlerRead_live hE hmem hlive fun d rx' hd hconn hown hrx' hhdr hframe' => ?_)
            fun v h => h.1
          rw [conn?_stored hfound.symm] at hd
          cases hd
          cases hrx'
          exact hframe c _ _ hfound.symm (completes_readable hfound.symm hrx hconn hown hlen hhdr hframe')

theorem finishconnect_keeps (hk : cid ∈ ks) : Keeps E ks (Naf.Conn.finishconnect ops cid) := by
  refine .bind (.read _) fun connected => .ite (fun _ => .bind (.read _) fun sockname => ?_) fun _ => .pure _
  refine .bind (.modify hk (fun _ => rfl) fun _ => rfl) fun _ => .bind (.conn hk) fun c => ?_
  rw [connready_of_owner]
  by_cases howner : c.owner = some module
  · rw [if_pos howner]
    exact .pure _
  · rw [if_neg howner]
    exact .pure _

theorem connhandlerWrite_live : Triple E (Live [cid]) (Naf.Conn.connhandlerWrite ops cid) fun _ => Live [] := by
  have hmem : cid ∈ [cid] := List.mem_cons_self
  have hsub := List.Subset.refl [cid]
  refine .bind (Keeps.conn hmem _ hsub) fun c => .ite (fun _ => ?_) fun _ => ?_
  · exact orfree_live hmem (finishconnect_keeps hmem _ hsub)
  rw [connready_of_owner]
  by_cases howner : c.owner = some module
  · rw [if_pos howner]
    exact orfree_live hmem (takewrite_keeps hmem _ hsub)
  · rw [if_neg howner]
    exact free_live hmem

theorem connhandlerIncomingconn_keeps (hE : ∀ e, Memfault e → E e) :
    Keeps E ks (Naf.Conn.connhandlerIncomingconn ops module) := by
  refine .addconn_bind hE fun r => ?_
  cases r with
  | none => exact .pure _
  | some cid =>
      have hmem : cid ∈ (some cid).toList ++ ks := List.mem_cons_self
      refine .bind (.modify hmem (Conn.setOwner_cid _) fun _ => rfl) fun _ => ?_
      simp only [ops, if_true]
      exact .bind (takeconn_keeps hE hmem) fun _ => .pure _

theorem timerhandler_keeps (hE : ∀ e, Memfault e → E e) : Keeps E ks timerhandler := by
  refine .bind now_keeps fun now => .bind (.update (fun _ => rfl) fun _ => rfl) fun _ => ?_
  refine .find_bind (fun c => .ite (fun _ => .bind (.read _) fun config => ?_) fun _ => .pure _) (.pure _)
    fun c => .pure _
  have hmem : c.cid ∈ c.cid :: ks := List.mem_cons_self
  refine .bind (.ite (fun _ => .bind (sendnop_keeps hE hmem) fun _ => .pure _) fun _ => .pure _) fun _ => ?_
  exact .bind (.ite (fun _ => schedulekill_keeps hmem) fun _ => .pure _) fun _ => .pure _

/-- What is asked of a connection that is not there does nothing. -/
theorem ifopen_live {x : Sys Unit} (hx : Triple E (Live [cid]) x fun _ => Live []) :
    Triple E (Live []) (ifopen cid x) fun _ => Live [] := by
  refine .bind (Q := fun r w => Live [] w ∧ (r.isSome = true → (w.conn? cid).isSome)) (.read fun w hw => ⟨hw, id⟩)
    fun found => .ite (fun hfound => ?_) fun _ => .pure fun _ h => h.1
  exact hx.pre fun w h => h.1.cons (h.2 hfound)

/-- The event has the module allocate something or look into a buffer. -/
def busy : Event → Bool
  | .accept | .readable _ _ | .oscarTimer => true
  | .writable _ | .closed _ | .gnrTimer | .confchange _ | .disconnectuser _ => false

/-- An event ends with every pointer to a connection that is there, or with a fault that it explains. -/
theorem handle_live {e : Event} (hw : Live [] w) (hE : busy e = true → ∀ f, Memfault f → E f)
    (hframe : ∀ cid c buf buflen, w.conn? cid = some c → completes w e = some (cid, buf, buflen) →
      Tolerates E c.endpoint buf buflen) :
    Triple E (fun v => v = w) (handle e) fun _ => Live [] := by
  have hkeeps : ∀ {x : Sys Unit}, Keeps E [] x → Triple E (fun v => v = w) x fun _ => Live [] :=
    fun hx => (hx [] (List.Subset.refl [])).pre fun v hv => hv ▸ hw
  cases e with
  | accept => exact hkeeps (connhandlerIncomingconn_keeps (hE rfl))
  | readable cid bytes => exact completeread_live (hE rfl) hw fun c buf buflen hc h => hframe cid c buf buflen hc h
  | writable cid => exact (ifopen_live connhandlerWrite_live).pre fun v hv => hv ▸ hw
  | closed cid => exact (ifopen_live (free_live List.mem_cons_self)).pre fun v hv => hv ▸ hw
  | gnrTimer => exact hkeeps (.update (fun _ => rfl) fun _ => rfl)
  | oscarTimer => exact hkeeps (timerhandler_keeps (hE rfl))
  | confchange config => exact hkeeps (.update (fun _ => rfl) fun _ => rfl)
  | disconnectuser sn => exact hkeeps (.bind (forceDisconnect_keeps sn) fun _ => .pure _)

end

/-! ## Runs -/

/-- What the event has to do with a fault that stops its step. -/
def Explained (w : World) (i : Input) : Fault → Prop
  -- never
  | .staleConn | .nullNode => False
  -- in a buffer, or in a loop over one
  | .outOfBounds | .diverge => busy i.event = true
  -- the next read request is refused
  | .uninitialised => (completes w i.event).isSome
  -- 0004/0007: the clean-up frees a message that was not made
  | .nullMsg => ∃ cid buf buflen, completes w i.event = some (cid, buf, buflen) ∧ IsSnac buf buflen 0x0004 0x0007
  -- 0017/0003: the address is that of the connection to the client
  | .nullConn => ∃ cid buf buflen, completes w i.event = some (cid, buf, buflen) ∧ IsSnac buf buflen 0x0017 0x0003 ∧
      (w.conn? cid).bind (·.endpoint) = none

/-- So does a step, whatever is refused in it. -/
theorem step_live {w : World} {i : Input} (hw : Live [] w) :
    (∀ e, step i w = .error e → Explained w i e) ∧ ∀ w', step i w = .ok w' → Live [] w' := by
  have hentered : Live [] { w with env := i.env } := hw.congr rfl (Nat.le_refl _)
  have hhandle := handle_live (E := Explained w i) (e := i.event) hentered (fun hbusy f hf => ?_)
    (fun cid c buf buflen hc hcompletes => ?_)
  · obtain ⟨hstops, hok⟩ := hhandle _ rfl
    constructor
    · intro e hstop
      refine hstops e ?_
      simp only [step] at hstop
      cases hrun : handle i.event { w with env := i.env } with
      | error f =>
          rw [hrun] at hstop
          cases hstop
          rfl
      | ok r =>
          rw [hrun] at hstop
          cases hstop
    · intro w' hstep
      simp only [step] at hstep
      cases hrun : handle i.event { w with env := i.env } with
      | error f =>
          rw [hrun] at hstep
          cases hstep
      | ok r =>
          rw [hrun] at hstep
          cases hstep
          exact hok r.1 r.2 hrun
  · rcases hf with rfl | rfl
    · exact hbusy
    · exact hbusy
  · have hcompletes' : completes w i.event = some (cid, buf, buflen) := hcompletes
    refine ⟨by simp [Explained, hcompletes'], fun hkind => ⟨cid, buf, buflen, hcompletes', hkind⟩, fun hkind hend => ?_⟩
    have hc' : w.conn? cid = some c := hc
    exact ⟨cid, buf, buflen, hcompletes', hkind, by rw [hc']; exact hend⟩

/-- Whatever the run, and whatever is refused: connections are not used after their close,
messages are not put out without nodes, and what else can stop a step is explained. -/
theorem step_explained {h : List (World × Input)} {w : World} (hrun : Run step Initial h w) (i : Input) {e : Fault}
    (hstop : step i w = .error e) : Explained w i e := by
  have hlive : Live [] w := hrun.invariant (fun w hinit => ⟨hinit.wf, by simp, fun k c e hc => ?_⟩)
    fun i w w' hw hstep => (step_live hw).2 w' hstep
  · exact (step_live hlive).1 e hstop
  · rw [World.conn?, hinit.1] at hc
    cases hc

/-- A client that has no name yet gets a message: the step stops, and it is the message's doing. -/
theorem step_explained_nameless :
    ∃ h w i, Run step Initial h w ∧ step i w = .error .nullMsg ∧ Explained w i .nullMsg := by
  let i : Input := ⟨.readable 0 ((snacframe 0x0004 0x0007 []).drop flaphdrlen), granting⟩
  have hreach : (replayInputs step
      (⟨.accept, granting⟩ :: (receiveframe 0 (snacframe 0x0004 0x0007 [])).take 1) started).toOption.any
      (fun r => (step i r.2).map (fun _ => ()) = .error .nullMsg) = true := by
    decide +kernel
  obtain ⟨h, w, hrun, -, hw⟩ := Run.exists_of_replay started_initial hreach
  have hstop : step i w = .error .nullMsg := by
    have hmap := of_decide_eq_true hw
    cases hstep : step i w with
    | error e =>
        rw [hstep] at hmap
        cases hmap
        rfl
    | ok w' =>
        rw [hstep] at hmap
        cases hmap
  exact ⟨h, w, i, hrun, hstop, step_explained hrun i hstop⟩

end Timps.Oscar
