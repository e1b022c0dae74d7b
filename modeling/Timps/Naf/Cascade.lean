-- SUMMARY: Closing a connection and all that hang on it: which connections go, and what is left of the others.
import Timps.Naf.Conn

/-!
# The cascade of a close

`naf_conn_free` scans the list of connections for those that point to the dead one, and
calls itself for them while it scans. The connections it frees are the ones that a walk
along such pointers reaches; a connection whose death is prorogued, or a local one, only
loses the pointer, and the walk ends there.
-/

namespace Timps.Naf.Conn

/-- The two pointers from one connection to another. -/
inductive Ptr where
  | parent
  | endpoint

namespace Ptr

def get : Ptr → Conn → Option Nat
  | .parent, c => c.parent
  | .endpoint, c => c.endpoint

def clear : Ptr → Conn → Conn
  | .parent, c => { c with parent := none }
  | .endpoint, c => c.setEndpoint none

end Ptr

/-- A connection that outlives what it hangs on. -/
def stays (c : Conn) : Bool := c.type.prorogueDeath || c.type.islocal

@[simp] theorem Ptr.clear_cid (p : Ptr) (c : Conn) : (p.clear c).cid = c.cid := by cases p <;> rfl

@[simp] theorem Ptr.stays_clear (p : Ptr) (c : Conn) : stays (p.clear c) = stays c := by
  cases p <;> rfl

@[simp] theorem Ptr.get_clear (p : Ptr) (c : Conn) : p.get (p.clear c) = none := by cases p <;> rfl

theorem Ptr.get_clear_of_ne {p q : Ptr} (h : q ≠ p) (c : Conn) : q.get (p.clear c) = q.get c := by
  cases p <;> cases q <;> first | rfl | exact (h rfl).elim

/-- What is freed with `d`: what points to something freed and does not stay. -/
inductive Reached (w : World) (d : Nat) : Nat → Prop
  | self : Reached w d d
  | next {x y : Nat} {c : Conn} (p : Ptr) : Reached w d y → w.conn? x = some c →
      p.get c = some y → stays c = false → Reached w d x

/-! ## Hooks -/

/-- What the close reads of a connection. -/
def link (c : Conn) : Nat × Option Nat × Option Nat × Bool := (c.cid, c.parent, c.endpoint, stays c)

/-- The open connections hang together as before. -/
structure Undisturbed (w w' : World) : Prop where
  links : w'.conns.map link = w.conns.map link
  count : w'.openconns = w.openconns

/-- The connkill hooks and tag destructors return and let the connections be. -/
structure Quiet (ops : Nafmodule → Ops) : Prop where
  connkill : ∀ mod f dead w, (ops mod).connkill = some f →
    ∃ w', f dead w = .ok ((), w') ∧ Undisturbed w w'
  freetag : ∀ f dead tag w, (ops tag.owner).freetag = some f →
    ∃ w', f dead tag w = .ok ((), w') ∧ Undisturbed w w'

namespace Undisturbed

variable {w w' w'' : World}

theorem refl (w : World) : Undisturbed w w := ⟨rfl, rfl⟩

theorem trans (h : Undisturbed w w') (h' : Undisturbed w' w'') : Undisturbed w w'' :=
  ⟨h'.links.trans h.links, h'.count.trans h.count⟩

theorem conn? (h : Undisturbed w w') (k : Nat) : (w'.conn? k).map link = (w.conn? k).map link := by
  have hfind : ∀ v : World,
      (v.conn? k).map link = (v.conns.map link).find? fun l => decide (l.1 = k) := by
    intro v
    rw [List.find?_map]
    rfl
  rw [hfind, hfind, h.links]

theorem length (h : Undisturbed w w') : w'.conns.length = w.conns.length := by
  simpa using congrArg List.length h.links

end Undisturbed

/-! ## What is left of the connections -/

/-- A connection that has lost pointers to some of `X` at most, and only if it stays. -/
structure Trimmed (X : List Nat) (c c' : Conn) : Prop where
  stays : Conn.stays c' = Conn.stays c
  ptr : ∀ p : Ptr, p.get c' = p.get c ∨
    p.get c' = none ∧ Conn.stays c = true ∧ ∃ e ∈ X, p.get c = some e

/-- The world without the connections `X`. -/
structure Cut (X : List Nat) (w w' : World) : Prop where
  nodup : X.Nodup
  was : ∀ k ∈ X, (w.conn? k).isSome
  gone : ∀ k ∈ X, w'.conn? k = none
  kept : ∀ k, k ∉ X → Option.Rel (Trimmed X) (w.conn? k) (w'.conn? k)
  count : w'.openconns = w.openconns - X.length

variable {w v w' : World} {X Y : List Nat} {c c' : Conn} {d k : Nat}

theorem Trimmed.refl : Trimmed X c c := ⟨rfl, fun _ => .inl rfl⟩

theorem Trimmed.trans {c'' : Conn} (h : Trimmed X c c') (h' : Trimmed Y c' c'') :
    Trimmed (X ++ Y) c c'' where
  stays := h'.stays.trans h.stays
  ptr p := by
    rcases h.ptr p with heq | ⟨hnone, hstays, e, he, hget⟩
    · rcases h'.ptr p with heq' | ⟨hnone', hstays', e, he, hget⟩
      · exact .inl (heq'.trans heq)
      · exact .inr ⟨hnone', h.stays ▸ hstays', e, List.mem_append_right _ he, heq ▸ hget⟩
    · refine .inr ⟨?_, hstays, e, List.mem_append_left _ he, hget⟩
      rcases h'.ptr p with heq' | ⟨hnone', -⟩
      · exact heq'.trans hnone
      · exact hnone'

theorem Trimmed.congr (hlink : link c' = link c) : Trimmed X c c' := by
  simp only [link, Prod.mk.injEq] at hlink
  obtain ⟨-, hparent, hendpoint, hstays⟩ := hlink
  refine ⟨hstays, fun p => .inl ?_⟩
  cases p
  · exact hparent
  · exact hendpoint

namespace Cut

/-- What is open afterwards was open before. -/
theorem before (h : Cut X w w') (hc' : w'.conn? k = some c') :
    k ∉ X ∧ ∃ c, w.conn? k = some c ∧ Trimmed X c c' := by
  have hk : k ∉ X := by
    intro hk
    rw [h.gone k hk] at hc'
    cases hc'
  have hrel := h.kept k hk
  rw [hc'] at hrel
  cases hc : w.conn? k with
  | none =>
      rw [hc] at hrel
      cases hrel
  | some c =>
      rw [hc] at hrel
      cases hrel with
      | some htrimmed => exact ⟨hk, c, rfl, htrimmed⟩

theorem after (h : Cut X w w') (hk : k ∉ X) (hc : w.conn? k = some c) :
    ∃ c', w'.conn? k = some c' ∧ Trimmed X c c' := by
  have hrel := h.kept k hk
  rw [hc] at hrel
  cases hc' : w'.conn? k with
  | none =>
      rw [hc'] at hrel
      cases hrel
  | some c' =>
      rw [hc'] at hrel
      cases hrel with
      | some htrimmed => exact ⟨c', rfl, htrimmed⟩

theorem none (h : Cut X w w') (hc : w.conn? k = none) : w'.conn? k = none := by
  cases hc' : w'.conn? k with
  | none => rfl
  | some c' =>
      obtain ⟨-, c, hc₁, -⟩ := h.before hc'
      rw [hc] at hc₁
      cases hc₁

theorem trans (h : Cut X w v) (h' : Cut Y v w') : Cut (X ++ Y) w w' where
  nodup := by
    refine List.nodup_append.2 ⟨h.nodup, h'.nodup, ?_⟩
    rintro x hx _ hy rfl
    have hopen := h'.was x hy
    rw [h.gone x hx] at hopen
    cases hopen
  was k hk := by
    rcases List.mem_append.1 hk with hk | hk
    · exact h.was k hk
    · obtain ⟨c, hc⟩ := Option.isSome_iff_exists.1 (h'.was k hk)
      obtain ⟨-, c₀, hc₀, -⟩ := h.before hc
      rw [hc₀]
      rfl
  gone k hk := by
    rcases List.mem_append.1 hk with hk | hk
    · exact h'.none (h.gone k hk)
    · exact h'.gone k hk
  kept k hk := by
    have hX : k ∉ X := fun h => hk (List.mem_append_left _ h)
    have hY : k ∉ Y := fun h => hk (List.mem_append_right _ h)
    cases hc : w.conn? k with
    | none =>
        rw [h'.none (h.none hc)]
        exact .none
    | some c =>
        obtain ⟨c₁, hc₁, htrimmed⟩ := h.after hX hc
        obtain ⟨c₂, hc₂, htrimmed'⟩ := h'.after hY hc₁
        rw [hc₂]
        exact .some (htrimmed.trans htrimmed')
  count := by
    rw [h'.count, h.count, List.length_append]
    omega

/-- Nothing of the connections is lost when hooks let them be. -/
theorem of_undisturbed (h : Undisturbed w w') : Cut [] w w' where
  nodup := .nil
  was k hk := by cases hk
  gone k hk := by cases hk
  kept k _ := by
    have hmap := h.conn? k
    cases hc : w.conn? k <;> cases hc' : w'.conn? k <;> rw [hc, hc'] at hmap
    · exact .none
    · cases hmap
    · cases hmap
    · exact .some (.congr (Option.some.inj hmap))
  count := by
    rw [h.count]
    simp

theorem close (hd : (w.conn? d).isSome) : Cut [d] w (w.close d) where
  nodup := List.nodup_cons.2 ⟨by simp, .nil⟩
  was k hk := by
    obtain rfl := List.mem_singleton.1 hk
    exact hd
  gone k hk := by
    obtain rfl := List.mem_singleton.1 hk
    rw [World.conn?_close, if_pos rfl]
  kept k hk := by
    have hne : k ≠ d := fun h => hk (List.mem_singleton.2 h)
    rw [World.conn?_close, if_neg hne]
    cases w.conn? k with
    | none => exact .none
    | some c => exact .some .refl
  count := rfl

end Cut

/-- Pointers are lost at most. -/
def Fewer (w w' : World) : Prop := ∀ k c', w'.conn? k = some c' →
  ∃ c, w.conn? k = some c ∧ ∀ p : Ptr, p.get c' = p.get c ∨ p.get c' = none

theorem Fewer.refl (w : World) : Fewer w w := fun _ c hc => ⟨c, hc, fun _ => .inl rfl⟩

theorem Fewer.trans (h : Fewer w v) (h' : Fewer v w') : Fewer w w' := by
  intro k c'' hc''
  obtain ⟨c', hc', hptr'⟩ := h' k c'' hc''
  obtain ⟨c, hc, hptr⟩ := h k c' hc'
  refine ⟨c, hc, fun p => ?_⟩
  rcases hptr' p with heq' | hnone'
  · rw [heq']
    exact hptr p
  · exact .inr hnone'

theorem Cut.fewer (h : Cut X w w') : Fewer w w' := by
  intro k c' hc'
  obtain ⟨-, c, hc, htrimmed⟩ := h.before hc'
  refine ⟨c, hc, fun p => ?_⟩
  rcases htrimmed.ptr p with heq | ⟨hnone, -⟩
  · exact .inl heq
  · exact .inr hnone

/-- A pointer that is not there does not come back. -/
theorem Fewer.ptr_ne {e : Nat} {p : Ptr} (h : Fewer w w')
    (hne : ∀ c, w.conn? k = some c → p.get c ≠ some e) :
    ∀ c', w'.conn? k = some c' → p.get c' ≠ some e := by
  intro c' hc'
  obtain ⟨c, hc, hptr⟩ := h k c' hc'
  rcases hptr p with heq | hnone
  · rw [heq]
    exact hne c hc
  · rw [hnone]
    exact fun h => by cases h

/-- What is reached in a later world from something reached is reached. -/
theorem Reached.trans (hcut : Cut X w v) (hk : Reached w d k) {x : Nat} (hx : Reached v k x) :
    Reached w d x := by
  induction hx with
  | self => exact hk
  | @next x y c p _ hc hget hstays ih =>
      obtain ⟨-, c₀, hc₀, htrimmed⟩ := hcut.before hc
      refine .next p ih hc₀ ?_ (htrimmed.stays ▸ hstays)
      rcases htrimmed.ptr p with heq | ⟨hnone, -⟩
      · exact heq ▸ hget
      · rw [hnone] at hget
        cases hget

/-- While the connections are scanned for those that point to `d`: the connections freed
so far are the world's without `X`, and only to `d` there may be pointers left. -/
structure Midway (w : World) (d : Nat) (X : List Nat) (v : World) : Prop where
  cut : Cut X w v
  mem : d ∈ X
  reached : ∀ x ∈ X, Reached w d x
  settled : ∀ k c (p : Ptr), v.conn? k = some c → ∀ e ∈ X, e ≠ d → p.get c ≠ some e
  shorter : v.conns.length < w.conns.length

/-- The close of `d` has come to its end. -/
structure Closed (w : World) (d : Nat) (X : List Nat) (w' : World) : Prop extends
    Midway w d X w' where
  released : ∀ k c (p : Ptr), w'.conn? k = some c → p.get c ≠ some d

/-- What `free` does for connections of small worlds. -/
def Closes (free : Nat → Sys Unit) (n : Nat) : Prop := ∀ v k, (v.conn? k).isSome →
  v.conns.length ≤ n → ∃ Y v', free k v = .ok ((), v') ∧ Closed v k Y v'

theorem conn?_clear (p : Ptr) (k' : Nat) :
    (v.modify k p.clear).conn? k' = if k' = k then (v.conn? k').map p.clear else v.conn? k' :=
  World.conn?_modify p.clear_cid

/-- A connection that stays loses the pointer. -/
theorem Midway.cleared {p : Ptr} (h : Midway w d X v) (hc : v.conn? k = some c)
    (hget : p.get c = some d) (hstays : stays c = true) : Midway w d X (v.modify k p.clear) where
  mem := h.mem
  reached := h.reached
  shorter := by
    simpa [World.modify] using h.shorter
  settled := by
    intro k' c' q hc' e he hne
    rw [conn?_clear] at hc'
    split at hc'
    · rename_i heq
      subst heq
      rw [hc] at hc'
      cases hc'
      by_cases hq : q = p
      · subst hq
        simp
      · rw [Ptr.get_clear_of_ne hq]
        exact h.settled _ c q hc e he hne
    · exact h.settled k' c' q hc' e he hne
  cut := by
    obtain ⟨hk, c₀, hc₀, htrimmed⟩ := h.cut.before hc
    refine ⟨h.cut.nodup, h.cut.was, ?_, ?_, h.cut.count⟩
    · intro x hx
      rw [conn?_clear, h.cut.gone x hx]
      split <;> rfl
    · intro k' hk'
      rw [conn?_clear]
      by_cases heq : k' = k
      · subst heq
        rw [if_pos rfl, hc₀, hc]
        refine .some ⟨(p.stays_clear c).trans htrimmed.stays, fun q => ?_⟩
        by_cases hq : q = p
        · subst hq
          have hget₀ : q.get c₀ = some d := by
            rcases htrimmed.ptr q with heq | ⟨hnone, -⟩
            · exact heq ▸ hget
            · rw [hnone] at hget
              cases hget
          exact .inr ⟨q.get_clear c, htrimmed.stays ▸ hstays, d, h.mem, hget₀⟩
        · rw [Ptr.get_clear_of_ne hq]
          exact htrimmed.ptr q
      · rw [if_neg heq]
        exact h.cut.kept k' hk'

/-- A connection that was freed might as well have kept the pointer. -/
theorem Closed.of_cleared {p : Ptr} (h : Closed (v.modify k p.clear) k Y w') :
    Cut Y v w' ∧ ∀ x ∈ Y, Reached v k x := by
  have hsame : ∀ k', k' ≠ k → (v.modify k p.clear).conn? k' = v.conn? k' := by
    intro k' hne
    rw [conn?_clear, if_neg hne]
  constructor
  · refine ⟨h.cut.nodup, ?_, h.cut.gone, ?_, h.cut.count⟩
    · intro x hx
      have hopen := h.cut.was x hx
      rw [conn?_clear] at hopen
      split at hopen
      · simpa using hopen
      · exact hopen
    · intro k' hk'
      have hne : k' ≠ k := by
        rintro rfl
        exact hk' h.mem
      rw [← hsame k' hne]
      exact h.cut.kept k' hk'
  · intro x hx
    have hreached := h.reached x hx
    clear hx
    induction hreached with
    | self => exact .self
    | @next x y e q _ he hget hstays ih =>
        rw [conn?_clear] at he
        split at he
        · rename_i heq
          rw [heq]
          exact .self
        · exact .next q ih he hget hstays

/-- A connection that does not stay goes, with all that hang on it. -/
theorem Midway.closed {p : Ptr} (h : Midway w d X v) (hc : v.conn? k = some c)
    (hget : p.get c = some d) (hstays : stays c = false)
    (hclosed : Closed (v.modify k p.clear) k Y w') : Midway w d (X ++ Y) w' where
  cut := h.cut.trans hclosed.of_cleared.1
  mem := List.mem_append_left _ h.mem
  reached := by
    intro x hx
    rcases List.mem_append.1 hx with hx | hx
    · exact h.reached x hx
    · obtain ⟨-, c₀, hc₀, htrimmed⟩ := h.cut.before hc
      have hk : Reached w d k := by
        refine .next p .self hc₀ ?_ (htrimmed.stays ▸ hstays)
        rcases htrimmed.ptr p with heq | ⟨hnone, -⟩
        · exact heq ▸ hget
        · rw [hnone] at hget
          cases hget
      exact hk.trans h.cut (hclosed.of_cleared.2 x hx)
  settled := by
    intro k' c' q hc' e he hne
    rcases List.mem_append.1 he with he | he
    · exact hclosed.of_cleared.1.fewer.ptr_ne (fun c hc => h.settled k' c q hc e he hne) c' hc'
    · by_cases hek : e = k
      · subst hek
        exact hclosed.released k' c' q hc'
      · exact hclosed.settled k' c' q hc' e he hek
  shorter := by
    have hshorter := hclosed.shorter
    have hlength : (v.modify k p.clear).conns.length = v.conns.length := by simp [World.modify]
    have := h.shorter
    omega

/-- One connection of the scan. -/
theorem detach_midway {free : Nat → Sys Unit} {n : Nat} (hfree : Closes free n)
    (p : Ptr) (h : Midway w d X v) (hn : w.conns.length ≤ n + 1) (k : Nat) :
    ∃ Y v', detach free d p.get p.clear k v = .ok ((), v') ∧ Midway w d Y v' ∧ Fewer v v' ∧
      ∀ c, v'.conn? k = some c → p.get c ≠ some d := by
  unfold detach
  rw [Prog.bind_of_ok (Prog.read_ok.2 rfl)]
  cases hc : v.conn? k with
  | none =>
      refine ⟨X, v, rfl, h, .refl v, fun c hc' => ?_⟩
      rw [hc] at hc'
      cases hc'
  | some c =>
      dsimp only
      by_cases hget : p.get c = some d
      · have hmodify : Sys.modify k p.clear v = .ok ((), v.modify k p.clear) := by
          have hconn : Sys.conn k v = .ok (c, v) := by simp only [Sys.conn, hc]
          rw [Sys.modify, Prog.bind_of_ok hconn]
          rfl
        have hstaysc : (c.type.prorogueDeath || c.type.islocal) = stays c := rfl
        rw [if_pos hget, Prog.bind_of_ok hmodify, hstaysc]
        -- the other end stays open with its pointer cleared, or is closed in its turn
        cases hstays : stays c with
        | true =>
            rw [if_pos rfl]
            have hcleared := h.cleared hc hget hstays
            refine ⟨X, _, rfl, hcleared, ?_, ?_⟩
            · intro k' c' hc'
              rw [conn?_clear] at hc'
              split at hc'
              · rename_i heq
                subst heq
                rw [hc] at hc'
                cases hc'
                refine ⟨c, hc, fun q => ?_⟩
                by_cases hq : q = p
                · subst hq
                  exact .inr (q.get_clear c)
                · exact .inl (Ptr.get_clear_of_ne hq c)
              · exact ⟨c', hc', fun _ => .inl rfl⟩
            · intro c' hc'
              rw [conn?_clear, if_pos rfl, hc] at hc'
              cases hc'
              simp
        | false =>
            rw [if_neg Bool.false_ne_true]
            have hopen : ((v.modify k p.clear).conn? k).isSome := by
              rw [conn?_clear, if_pos rfl, hc]
              rfl
            have hlength : (v.modify k p.clear).conns.length ≤ n := by
              have := h.shorter
              simp only [World.modify, List.length_map]
              omega
            obtain ⟨Y, v', hv', hclosed⟩ := hfree _ k hopen hlength
            refine ⟨X ++ Y, v', hv', h.closed hc hget hstays hclosed,
              hclosed.of_cleared.1.fewer, ?_⟩
            intro c' hc'
            rw [hclosed.cut.gone k hclosed.mem] at hc'
            cases hc'
      · rw [if_neg hget]
        refine ⟨X, v, rfl, h, .refl v, fun c' hc' => ?_⟩
        rw [hc] at hc'
        cases hc'
        exact hget

/-- The whole scan for one of the pointers. -/
theorem scan_midway {free : Nat → Sys Unit} {n : Nat} (hfree : Closes free n) (p : Ptr)
    (hn : w.conns.length ≤ n + 1) (cids : List Nat) : ∀ {X : List Nat} {v : World},
    Midway w d X v → ∃ Y v', Prog.each (detach free d p.get p.clear) cids v = .ok ((), v') ∧
      Midway w d Y v' ∧ Fewer v v' ∧
      ∀ k ∈ cids, ∀ c, v'.conn? k = some c → p.get c ≠ some d := by
  induction cids with
  | nil =>
      intro X v h
      exact ⟨X, v, rfl, h, .refl v, fun k hk => by cases hk⟩
  | cons k cids ih =>
      intro X v h
      obtain ⟨X₁, v₁, hv₁, h₁, hfewer₁, hk⟩ := detach_midway hfree p h hn k
      obtain ⟨Y, v', hv', h', hfewer', hcids⟩ := ih h₁
      refine ⟨Y, v', ?_, h', hfewer₁.trans hfewer', ?_⟩
      · rw [Prog.each, Prog.bind_of_ok hv₁]
        exact hv'
      · intro k' hk'
        rcases List.mem_cons.1 hk' with rfl | hk'
        · exact hfewer'.ptr_ne hk
        · exact hcids k' hk'

variable {ops : Nafmodule → Ops}

theorem connkill_quiet (hquiet : Quiet ops) (dead : Conn) (w : World) :
    ∃ w', (match dead.owner.bind fun owner => (ops owner).connkill with
      | some connkill => connkill dead
      | none => pure ()) w = .ok ((), w') ∧ Undisturbed w w' := by
  cases hhook : dead.owner.bind fun owner => (ops owner).connkill with
  | none => exact ⟨w, rfl, .refl w⟩
  | some f =>
      obtain ⟨mod, -, hmod⟩ := Option.bind_eq_some_iff.1 hhook
      exact hquiet.connkill mod f dead w hmod

theorem tagFreelist_quiet (hquiet : Quiet ops) (dead : Conn) (w : World) :
    ∃ w', tagFreelist ops dead w = .ok ((), w') ∧ Undisturbed w w' := by
  unfold tagFreelist
  induction dead.taglist generalizing w with
  | nil => exact ⟨w, rfl, .refl w⟩
  | cons tag tags ih =>
      simp only [Prog.each]
      cases hhook : (ops tag.owner).freetag with
      | none => exact ih w
      | some f =>
          obtain ⟨w₁, hw₁, h₁⟩ := hquiet.freetag f dead tag w hhook
          obtain ⟨w', hw', h'⟩ := ih w₁
          refine ⟨w', ?_, h₁.trans h'⟩
          dsimp only
          rw [Prog.bind_of_ok hw₁]
          exact hw'

theorem mem_cids (hc : w.conn? k = some c) : k ∈ w.conns.map (·.cid) := by
  obtain ⟨hmem, rfl⟩ := World.conn?_some hc
  exact List.mem_map_of_mem hmem

/-- The descriptor is closed and the hooks have run: the scans can begin. -/
theorem midway_start (hd : (w.conn? d).isSome) (h : Undisturbed (w.close d) v) :
    Midway w d [d] v where
  cut := by
    have hcut := (Cut.close hd).trans (.of_undisturbed h)
    rwa [List.append_nil] at hcut
  mem := .head _
  reached x hx := by
    obtain rfl := List.mem_singleton.1 hx
    exact .self
  settled k c p _ e he hne := (hne (List.mem_singleton.1 he)).elim
  shorter := by
    rw [h.length, World.close]
    obtain ⟨c, hc⟩ := Option.isSome_iff_exists.1 hd
    obtain ⟨hmem, hcid⟩ := World.conn?_some hc
    exact List.length_filter_lt_length_iff_exists.2 ⟨c, hmem, by simp [hcid]⟩

/-- With as many nested calls as there are connections open, a close comes to its end. -/
theorem freeWithin_closed (hquiet : Quiet ops) (fuel : Nat) : Closes (freeWithin ops fuel) fuel := by
  induction fuel with
  | zero =>
      intro w d hd hn
      obtain ⟨c, hc⟩ := Option.isSome_iff_exists.1 hd
      have hmem := (World.conn?_some hc).1
      rw [List.eq_nil_of_length_eq_zero (Nat.le_zero.1 hn)] at hmem
      cases hmem
  | succ fuel ih =>
      intro w d hd hn
      obtain ⟨dead, hdead⟩ := Option.isSome_iff_exists.1 hd
      have hconn : Sys.conn d w = .ok (dead, w) := by simp only [Sys.conn, hdead]
      obtain ⟨w₁, hw₁, h₁⟩ := connkill_quiet hquiet dead (w.close d)
      obtain ⟨w₂, hw₂, h₂⟩ := tagFreelist_quiet hquiet dead w₁
      have hstart := midway_start hd (h₁.trans h₂)
      obtain ⟨X, w₃, hw₃, h₃, hfewer, hparent⟩ :=
        scan_midway ih .parent hn (w₂.conns.map (·.cid)) hstart
      obtain ⟨Y, w', hw', h', hfewer', hendpoint⟩ :=
        scan_midway ih .endpoint hn (w₃.conns.map (·.cid)) h₃
      refine ⟨Y, w', ?_, h', ?_⟩
      · rw [freeWithin, Prog.bind_of_ok hconn]
        refine (Prog.bind_of_ok (Prog.update_ok.2 rfl)).trans ?_
        refine (Prog.bind_of_ok hw₁).trans ?_
        refine (Prog.bind_of_ok hw₂).trans ?_
        refine (Prog.bind_of_ok (?_ : remchildren (freeWithin ops fuel) d w₂ = .ok ((), w₃))).trans ?_
        · exact (Prog.bind_of_ok (Prog.read_ok.2 rfl)).trans hw₃
        · exact (Prog.bind_of_ok (Prog.read_ok.2 rfl)).trans hw'
      · intro k c p hc
        obtain ⟨c₁, hc₁, -⟩ := hfewer' k c hc
        cases p with
        | endpoint => exact hendpoint k (mem_cids hc₁) c hc
        | parent =>
            obtain ⟨c₂, hc₂, -⟩ := hfewer k c₁ hc₁
            exact hfewer'.ptr_ne (p := .parent) (hparent k (mem_cids hc₂)) c hc

/-! ## The close -/

/-- What is freed is what is reached, and no more. -/
theorem Closed.mem_iff (h : Closed w d X w') (x : Nat) : x ∈ X ↔ Reached w d x := by
  constructor
  · exact h.reached x
  · intro hx
    induction hx with
    | self => exact h.mem
    | @next x y c p _ hc hget hstays ih =>
        by_contra hnot
        obtain ⟨c', hc', htrimmed⟩ := h.cut.after hnot hc
        -- the pointer to `y` is there no more, so it was cleared
        have hne : p.get c' ≠ some y := by
          by_cases hyd : y = d
          · subst hyd
            exact h.released x c' p hc'
          · exact h.settled x c' p hc' y ih hyd
        rcases htrimmed.ptr p with heq | ⟨-, htrue, -⟩
        · exact hne (heq.trans hget)
        · rw [hstays] at htrue
          cases htrue

/-- What is open afterwards was open and is not freed. -/
theorem Closed.open_iff (h : Closed w d X w') (k : Nat) :
    (w'.conn? k).isSome ↔ (w.conn? k).isSome ∧ k ∉ X := by
  constructor
  · intro hk
    obtain ⟨c', hc'⟩ := Option.isSome_iff_exists.1 hk
    obtain ⟨hnot, c, hc, -⟩ := h.cut.before hc'
    exact ⟨by rw [hc]; rfl, hnot⟩
  · rintro ⟨hk, hnot⟩
    obtain ⟨c, hc⟩ := Option.isSome_iff_exists.1 hk
    obtain ⟨c', hc', -⟩ := h.cut.after hnot hc
    rw [hc']
    rfl

theorem free_closed (hquiet : Quiet ops) (hd : (w.conn? d).isSome) :
    ∃ X w', free ops d w = .ok ((), w') ∧ Closed w d X w' := by
  obtain ⟨X, w', hw', h⟩ := freeWithin_closed hquiet w.conns.length w d hd (Nat.le_refl _)
  exact ⟨X, w', (Prog.bind_of_ok (Prog.read_ok.2 rfl)).trans hw', h⟩

/-- Closing a connection comes to an end. It frees, each once, the connections that are
reached from it; of those that stay open it clears the pointers to freed ones and no
others; the counter goes down by the number freed. -/
theorem free_cascade (hquiet : Quiet ops) (hd : (w.conn? d).isSome) :
    ∃ (X : List Nat) (w' : World), free ops d w = .ok ((), w') ∧ X.Nodup ∧
      (∀ x, x ∈ X ↔ Reached w d x) ∧
      (∀ k, (w'.conn? k).isSome ↔ (w.conn? k).isSome ∧ k ∉ X) ∧
      (∀ k c', w'.conn? k = some c' → ∃ c, w.conn? k = some c ∧ ∀ p : Ptr,
        (∀ e ∈ X, p.get c' ≠ some e) ∧ ((∀ e ∈ X, p.get c ≠ some e) → p.get c' = p.get c)) ∧
      w'.openconns = w.openconns - X.length := by
  obtain ⟨X, w', hw', h⟩ := free_closed hquiet hd
  refine ⟨X, w', hw', h.cut.nodup, h.mem_iff, h.open_iff, ?_, h.cut.count⟩
  intro k c' hc'
  obtain ⟨-, c, hc, htrimmed⟩ := h.cut.before hc'
  refine ⟨c, hc, fun p => ⟨fun e he => ?_, fun hnone => ?_⟩⟩
  · by_cases hed : e = d
    · subst hed
      exact h.released k c' p hc'
    · exact h.settled k c' p hc' e he hed
  · rcases htrimmed.ptr p with heq | ⟨-, -, e, he, hget⟩
    · exact heq
    · exact (hnone e he hget).elim

/-- A module whose hooks do nothing, as those of `src/naf/httpd.c`. -/
def httpd : Nafmodule → Ops := fun _ =>
  { connkill := some fun _ => pure (), freetag := some fun _ _ => pure () }

theorem httpd_quiet : Quiet httpd where
  connkill mod f dead w hf := by
    obtain rfl := Option.some.inj hf
    exact ⟨w, rfl, .refl w⟩
  freetag f dead tag w hf := by
    obtain rfl := Option.some.inj hf
    exact ⟨w, rfl, .refl w⟩

/-- A connection of a module, with its pointers. -/
def hanging (cid : Nat) (islocal : Bool) (endpoint parent : Option Nat) : Conn :=
  { newconn cid (some ⟨lit "httpd"⟩) { islocal } ⟨[], 0⟩ with endpoint, parent }

/-- Two connections that are each other's endpoint, a child of the second, and a local
connection that talks to the child. -/
def family : World :=
  .ofConns [hanging 0 false (some 1) none, hanging 1 false (some 0) none,
    hanging 2 false none (some 1), hanging 3 true (some 2) none]

theorem free_cascade_family : ∃ (X : List Nat) (w' : World), free httpd 0 family = .ok ((), w') ∧
    X.Nodup ∧ (∀ x, x ∈ X ↔ Reached family 0 x) ∧ w'.openconns = 4 - X.length ∧
    (w'.conns.map fun c => (c.cid, c.endpoint)) = [(3, none)] := by
  obtain ⟨X, w', hw', hnodup, hreached, -, -, hcount⟩ := free_cascade httpd_quiet
    (show (family.conn? 0).isSome from rfl)
  refine ⟨X, w', hw', hnodup, hreached, hcount, ?_⟩
  have hfree : (free httpd 0 family).toOption.any
      (fun r => decide ((r.2.conns.map fun c => (c.cid, c.endpoint)) = [(3, none)])) = true := by
    decide +kernel
  rw [hw'] at hfree
  exact of_decide_eq_true hfree

/-- A hook that frees nothing and clears the endpoint of connection 1. -/
def meddler : Nafmodule → Ops := fun _ =>
  { connkill := some fun _ => Prog.update fun w => w.modify 1 (.setEndpoint none) }

/-- A hook that is not quiet: the close of connection 0, to which nothing points, takes the
pointer from 1 to 2, which is still open. -/
theorem meddler_clears :
    (∀ mod f dead w w', (meddler mod).connkill = some f → f dead w = .ok ((), w') →
      w'.conns.map (·.cid) = w.conns.map (·.cid)) ∧
    ∃ w', free meddler 0 (.ofConns [hanging 0 false none none, hanging 1 false (some 2) none,
        hanging 2 false none none]) = .ok ((), w') ∧
      (w'.conns.map fun c => (c.cid, c.endpoint)) = [(1, none), (2, none)] := by
  constructor
  · intro mod f dead w w' hf hw'
    obtain rfl := Option.some.inj hf
    cases hw'
    simp only [World.modify, List.map_map]
    apply List.map_congr_left
    intro c _
    by_cases hc : c.cid = 1 <;> simp [hc]
  · exact ⟨_, rfl, rfl⟩

end Timps.Naf.Conn
