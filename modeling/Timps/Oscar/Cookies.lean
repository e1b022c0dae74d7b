-- SUMMARY: The cookie cache over any sequence of calls: a cookie brings back what it was added with, once, for a minute.
import Timps.Base.Run
import Timps.Base.Tickets
import Timps.Naf.Plain
import Timps.Oscar.Runs

/-!
# Runs of the cookie cache

A call of the cache comes with the answers of the outside at that time. The entries of the
cache are the tickets that the log of the calls leaves outstanding, except that the server
type of a ticket is not in its entry.
-/

namespace Timps.Oscar

open Naf (lit)
open Prog (bind_ok bind_of_ok pure_ok read_ok update_ok)
open Tickets (Event after outstanding outstanding_snoc outstanding_iff)

/-! ## The entries of a cache -/

section

variable {cache : List Ckcache} {ck : Bytes} {ckc : Ckcache}

/-- No two entries have the same cookie. -/
def Distinct (cache : List Ckcache) : Prop := (cache.map (·.ck)).Nodup

theorem ckcacheFind_eq_some (hdistinct : Distinct cache) :
    ckcacheFind cache ck = some ckc ↔ ckc ∈ cache ∧ ckc.ck = ck := by
  constructor
  · intro hfind
    exact ⟨List.mem_of_find?_eq_some hfind, by simpa using List.find?_some hfind⟩
  · rintro ⟨hmem, rfl⟩
    have hsome : (ckcacheFind cache ckc.ck).isSome := by
      simp only [ckcacheFind, List.find?_isSome]
      exact ⟨ckc, hmem, by simp⟩
    obtain ⟨ckc', hfind⟩ := Option.isSome_iff_exists.1 hsome
    have hck : ckc'.ck = ckc.ck := by simpa using List.find?_some hfind
    rw [hfind, List.inj_on_of_nodup_map hdistinct (List.mem_of_find?_eq_some hfind) hmem hck]

theorem ckcacheFind_filter {p : Ckcache → Bool} (hdistinct : Distinct cache) :
    ckcacheFind (cache.filter p) ck = (ckcacheFind cache ck).filter p := by
  have hdistinct' : Distinct (cache.filter p) :=
    List.Nodup.sublist (List.Sublist.map _ List.filter_sublist) hdistinct
  apply Option.ext
  intro ckc
  simp only [Option.filter_eq_some_iff, ckcacheFind_eq_some hdistinct,
    ckcacheFind_eq_some hdistinct', List.mem_filter]
  tauto

/-- The first entry of a cookie is the only one, so all entries of it are gone. -/
theorem ckcacheRemove_eq (hdistinct : Distinct cache) :
    ckcacheRemove cache ck = (ckcacheFind cache ck, cache.filter fun ckc => ckc.ck ≠ ck) := by
  induction cache with
  | nil => rfl
  | cons cur cache ih =>
      obtain ⟨hnotin, hrest⟩ := List.nodup_cons.1 hdistinct
      simp only [ckcacheRemove, ckcacheFind, List.find?_cons, List.filter_cons]
      by_cases heq : cur.ck = ck
      · have hkeep : cache.filter (fun ckc => decide (ckc.ck ≠ ck)) = cache := by
          apply List.filter_eq_self.2
          intro ckc hmem
          have hne : ckc.ck ≠ ck := by
            rintro h
            exact hnotin (List.mem_map.2 ⟨ckc, hmem, h.trans heq.symm⟩)
          simpa using hne
        have hdrop : ¬decide (cur.ck ≠ ck) = true := by simpa using heq
        rw [if_pos heq, if_neg hdrop, hkeep]
        simp [heq]
      · simp [heq, ih hrest, ckcacheFind]

end

/-! ## Calls -/

inductive Ckcall where
  | add (ck : Option Bytes) (ip sn : CStr) (servtype : Nat)
  | rem (ck : Bytes)
  | timer (now : Int)

/-- Make one call; is its answer 0? -/
def Ckcall.make : Ckcall → Sys Bool
  | .add ck ip sn servtype => ckcacheAdd ck ip sn servtype
  | .rem ck => Option.isSome <$> ckcacheRem ck
  | .timer now => do
      ckcacheTimer now
      pure true

/-- A call, and what the outside answers during it. -/
abbrev Ckstep := Env × Ckcall

def cknext (i : Ckstep) (w : World) : Except Fault World :=
  (i.2.make { w with env := i.1 }).map (·.2)

def Empty (w : World) : Prop := w.ckcache = []

/-- The call of a step answers 0. -/
def Succeeds (p : World × Ckstep) : Prop := ∃ w', p.2.2.make { p.1 with env := p.2.1 } = .ok (true, w')

/-- A cookie that an `add` has cached, that no `rem` has taken since, and that no run of
the timer has dropped. -/
def Unspent (h : List (World × Ckstep)) (ck : Bytes) (ip sn : CStr) (servtype : Nat) : Prop :=
  ∃ h₁ p h₂, h = h₁ ++ p :: h₂ ∧ p.2.2 = .add (some ck) ip sn servtype ∧ Succeeds p ∧
    ∀ q ∈ h₂, ¬(q.2.2 = .rem ck ∧ Succeeds q) ∧
      ∀ now, q.2.2 = .timer now → ¬now - p.2.1.now > ckcacheTimeout

/-- A `rem` succeeds when the cookie is unspent, and brings back what it was added with. -/
def Faithful (h : List (World × Ckstep)) (w : World) (ck : Bytes) : Prop :=
  ((∃ ckc w', ckcacheRem ck w = .ok (some ckc, w')) ↔ ∃ ip sn servtype, Unspent h ck ip sn servtype) ∧
    ∀ ip sn servtype, Unspent h ck ip sn servtype →
      ∃ ckc w', ckcacheRem ck w = .ok (some ckc, w') ∧
        ckc.ip = ip ∧ ckc.sn = sn ∧ ckc.servtype = servtype

/-! ## What a call does -/

section

variable {w w' : World}

/-- An entry takes four allocations. -/
theorem ckcAlloc_ok {ck : Bytes} {ip sn : CStr} {h h' : Naf.Heap} {r : Option Ckcache}
    (hr : ckcAlloc ck ip sn h = .ok (r, h')) :
    r = none ∨ r = some { ck, ip, sn, servtype := 0, addtime := 0 } ∧ h' = h.next.next.next.next := by
  unfold ckcAlloc at hr
  obtain ⟨b, _, hentry, hr⟩ := bind_ok.1 hr
  cases b with
  | none => exact .inl (congrArg Prod.fst (pure_ok.1 hr))
  | some b =>
  obtain ⟨b, _, hck, hr⟩ := bind_ok.1 hr
  cases b with
  | none => exact .inl (congrArg Prod.fst (pure_ok.1 hr))
  | some b =>
  obtain ⟨b, _, hip, hr⟩ := bind_ok.1 hr
  cases b with
  | none => exact .inl (congrArg Prod.fst (pure_ok.1 hr))
  | some b =>
  obtain ⟨b, _, hsn, hr⟩ := bind_ok.1 hr
  cases b with
  | none => exact .inl (congrArg Prod.fst (pure_ok.1 hr))
  | some b =>
      obtain rfl := Naf.malloc_later hentry
      obtain rfl := Naf.malloc_later hck
      obtain rfl := Naf.malloc_later hip
      obtain rfl := Naf.malloc_later hsn
      cases pure_ok.1 hr
      exact .inr ⟨rfl, rfl⟩

theorem ckcAlloc_plain (ck : Bytes) (ip sn : CStr) : Naf.Plain (ckcAlloc ck ip sn) := by
  refine .bind (Naf.malloc_plain _) fun b => ?_
  cases b with
  | none => exact .pure _
  | some b =>
  refine .bind (Naf.malloc_plain _) fun b => ?_
  cases b with
  | none => exact .pure _
  | some b =>
  refine .bind (Naf.malloc_plain _) fun b => ?_
  cases b with
  | none => exact .pure _
  | some b =>
  refine .bind (Naf.malloc_plain _) fun b => ?_
  cases b <;> exact .pure _

/-- An `add` that succeeds puts an entry without its server type in front, and one that
fails leaves the cache as it is. Besides, memory is asked for. -/
theorem ckcacheAdd_ok {ck : Option Bytes} {ip sn : CStr} {servtype : Nat} {added : Bool}
    (hr : ckcacheAdd ck ip sn servtype w = .ok (added, w')) :
    added = false ∧ (∃ h, w' = w.setHeap h) ∨
      added = true ∧ ∃ v, ck = some v ∧ ckcacheFind w.ckcache v = none ∧
        w' = { w.setHeap w.env.heap.next.next.next.next with
          ckcache := { ck := v, ip, sn, servtype := 0, addtime := w.env.now } :: w.ckcache } := by
  cases ck with
  | none =>
      cases pure_ok.1 hr
      exact .inl ⟨rfl, w.env.heap, rfl⟩
  | some v =>
      unfold ckcacheAdd at hr
      dsimp only at hr
      split at hr
      · cases pure_ok.1 hr
        exact .inl ⟨rfl, w.env.heap, rfl⟩
      obtain ⟨cache, _, hread, hr⟩ := bind_ok.1 hr
      cases read_ok.1 hread
      split at hr
      · cases pure_ok.1 hr
        exact .inl ⟨rfl, w.env.heap, rfl⟩
      rename_i hnew
      obtain ⟨r, w₁, hmem, hr⟩ := bind_ok.1 hr
      obtain ⟨_, g, halloc, heq⟩ := Sys.mem_ok.1 hmem
      cases heq
      rcases ckcAlloc_ok halloc with rfl | ⟨rfl, rfl⟩
      · cases pure_ok.1 hr
        exact .inl ⟨rfl, g, rfl⟩
      obtain ⟨now, _, hnow, hr⟩ := bind_ok.1 hr
      cases read_ok.1 hnow
      obtain ⟨_, _, hupdate, hr⟩ := bind_ok.1 hr
      cases update_ok.1 hupdate
      cases pure_ok.1 hr
      exact .inr ⟨rfl, v, rfl, by simpa using hnew, rfl⟩

/-- A `rem` answers with the entry of its cookie, and takes it out. -/
theorem ckcacheRem_of_distinct (ck : Bytes) (hdistinct : Distinct w.ckcache) :
    ∃ w', ckcacheRem ck w = .ok (ckcacheFind w.ckcache ck, w') ∧
      w'.ckcache = w.ckcache.filter fun ckc => ckc.ck ≠ ck := by
  unfold ckcacheRem
  rw [bind_of_ok (read_ok.2 rfl)]
  simp only [ckcacheRemove_eq hdistinct]
  cases hfind : ckcacheFind w.ckcache ck with
  | none =>
      refine ⟨w, rfl, ?_⟩
      apply Eq.symm
      apply List.filter_eq_self.2
      simpa [ckcacheFind] using hfind
  | some ckc => exact ⟨_, rfl, rfl⟩

/-! ## The cache is a store of tickets -/

/-- The tickets of the cookie cache: an address, a screen name and a server type. -/
abbrev Tickets := Bytes → Option ((CStr × CStr × Nat) × Int)

def overdue (t now : Int) : Bool := now - t > ckcacheTimeout

/-- The entry of a ticket. Its server type is not kept. -/
def entry (ck : Bytes) (ticket : (CStr × CStr × Nat) × Int) : Ckcache :=
  { ck, ip := ticket.1.1, sn := ticket.1.2.1, servtype := 0, addtime := ticket.2 }

structure Refines (cache : List Ckcache) (s : Tickets) : Prop where
  distinct : Distinct cache
  find : ∀ ck, ckcacheFind cache ck = (s ck).map (entry ck)

variable {s : Tickets}

theorem refines_nil : Refines [] fun _ => none := ⟨List.nodup_nil, fun _ => rfl⟩

theorem Refines.eq_none {cache : List Ckcache} {ck : Bytes} (h : Refines cache s) :
    ckcacheFind cache ck = none ↔ s ck = none := by
  rw [h.find, Option.map_eq_none_iff]

theorem Refines.add {cache : List Ckcache} {ck : Bytes} {ip sn : CStr} {servtype : Nat} {now : Int}
    (h : Refines cache s) (hnew : ckcacheFind cache ck = none) :
    Refines (entry ck ((ip, sn, servtype), now) :: cache)
      (after overdue s (.issued ck (ip, sn, servtype) now)) where
  distinct := by
    refine List.nodup_cons.2 ⟨?_, h.distinct⟩
    rintro hmem
    obtain ⟨ckc, hckc, hck⟩ := List.mem_map.1 hmem
    have hck : ckc.ck = ck := hck
    exact List.find?_eq_none.1 hnew ckc hckc (by simpa using hck)
  find := by
    intro k
    by_cases hk : ck = k
    · subst hk
      simp [ckcacheFind, entry, after]
    · simpa [ckcacheFind, entry, after, hk] using h.find k

theorem Refines.rem {cache : List Ckcache} (ck : Bytes) (h : Refines cache s) :
    Refines (cache.filter fun ckc => ckc.ck ≠ ck) (after overdue s (.redeemed ck)) where
  distinct := List.Nodup.sublist (List.Sublist.map _ List.filter_sublist) h.distinct
  find := by
    intro k
    rw [ckcacheFind_filter h.distinct, h.find]
    by_cases hk : ck = k
    · subst hk
      cases s ck <;> simp [after, entry]
    · have hk' : ¬k = ck := fun heq => hk heq.symm
      cases hs : s k <;> simp [after, entry, hk, hk', hs]

theorem Refines.timer {cache : List Ckcache} (now : Int) (h : Refines cache s) :
    Refines (cache.filter fun ckc => ¬now - ckc.addtime > ckcacheTimeout)
      (after overdue s (.swept now)) where
  distinct := List.Nodup.sublist (List.Sublist.map _ List.filter_sublist) h.distinct
  find := by
    intro k
    rw [ckcacheFind_filter h.distinct, h.find]
    cases hs : s k with
    | none => simp [after, hs]
    | some ticket =>
        by_cases hdue : now - ticket.2 > ckcacheTimeout <;>
          simp [after, hs, entry, overdue, hdue, Option.filter]

/-- The ticket event of a step whose call succeeded or not. -/
def eventOf (i : Ckstep) : Bool → Tickets.Event Bytes (CStr × CStr × Nat) Int
  | false => .idle
  | true =>
      match i.2 with
      | .add ck ip sn servtype => .issued (ck.getD []) (ip, sn, servtype) i.1.now
      | .rem ck => .redeemed ck
      | .timer now => .swept now

/-- One call takes one step of the tickets, and issues none that is outstanding. -/
theorem Refines.make {i : Ckstep} {b : Bool} (h : Refines w.ckcache s)
    (hr : i.2.make { w with env := i.1 } = .ok (b, w')) :
    Refines w'.ckcache (after overdue s (eventOf i b)) ∧
      ∀ k v t, eventOf i b = .issued k v t → s k = none := by
  obtain ⟨env, call⟩ := i
  cases call with
  | add ck ip sn servtype =>
      have hr : ckcacheAdd ck ip sn servtype { w with env } = .ok (b, w') := hr
      obtain ⟨rfl, g, rfl⟩ | ⟨rfl, v, rfl, hnew, rfl⟩ := ckcacheAdd_ok hr
      · exact ⟨h, nofun⟩
      · refine ⟨h.add hnew, ?_⟩
        intro k v' t heq
        cases heq
        exact h.eq_none.1 hnew
  | rem ck =>
      have hdistinct : Distinct ({ w with env } : World).ckcache := h.distinct
      obtain ⟨w₁, hrem, hcache⟩ := ckcacheRem_of_distinct ck hdistinct
      obtain ⟨ckc, w₂, hrem', heq⟩ := Prog.map_ok.1 hr
      rw [hrem] at hrem'
      cases hrem'
      cases heq
      rw [hcache]
      refine ⟨?_, ?_⟩
      · cases hfind : ckcacheFind w.ckcache ck with
        | some ckc => exact h.rem ck
        | none =>
            have hkeep : w.ckcache.filter (fun ckc => decide (ckc.ck ≠ ck)) = w.ckcache := by
              apply List.filter_eq_self.2
              simpa [ckcacheFind] using hfind
            rw [hkeep]
            exact h
      · cases ckcacheFind w.ckcache ck <;> nofun
  | timer now =>
      obtain ⟨_, w₁, hupdate, hr⟩ := bind_ok.1 hr
      cases update_ok.1 hupdate
      cases pure_ok.1 hr
      exact ⟨h.timer now, nofun⟩

/-! ## Runs -/

/-- The ticket event that a step of a history logs. -/
def logged (p : World × Ckstep) : Tickets.Event Bytes (CStr × CStr × Nat) Int :=
  match p.2.2.make { p.1 with env := p.2.1 } with
  | .ok (b, _) => eventOf p.2 b
  | .error _ => .idle

theorem logged_of_ok {i : Ckstep} {b : Bool} (hr : i.2.make { w with env := i.1 } = .ok (b, w')) :
    logged (w, i) = eventOf i b := by
  simp only [logged, hr]

/-- After any calls the cache holds the outstanding tickets of the log. -/
theorem refines_of_run {h : List (World × Ckstep)} (hrun : Run cknext Empty h w) :
    Tickets.Legal overdue (h.map logged) ∧
      Refines w.ckcache (outstanding overdue (h.map logged)) := by
  induction hrun with
  | start hempty =>
      refine ⟨.nil, ?_⟩
      rw [hempty]
      exact refines_nil
  | step hrun hstep ih =>
      rename_i h w w' i
      obtain ⟨hlegal, hrefines⟩ := ih
      unfold cknext at hstep
      cases hmake : i.2.make { w with env := i.1 } with
      | error e =>
          rw [hmake] at hstep
          cases hstep
      | ok r =>
          rw [hmake] at hstep
          cases hstep
          obtain ⟨b, w'⟩ := r
          obtain ⟨hafter, hfresh⟩ := hrefines.make hmake
          rw [List.map_append, List.map_singleton, logged_of_ok hmake]
          refine ⟨hlegal.snoc hfresh, ?_⟩
          have hout : outstanding overdue (h.map logged ++ [eventOf i b]) =
              after overdue (outstanding overdue (h.map logged)) (eventOf i b) :=
            funext fun k => outstanding_snoc
          rw [hout]
          exact hafter

theorem logged_of_succeeds {p : World × Ckstep} (hsucceeds : Succeeds p) :
    logged p = eventOf p.2 true := by
  obtain ⟨w', hmake⟩ := hsucceeds
  exact logged_of_ok hmake

/-- A step whose call does not succeed logs nothing. -/
theorem logged_of_fails {p : World × Ckstep} (hfails : ¬Succeeds p) : logged p = .idle := by
  unfold logged
  cases hmake : p.2.2.make { p.1 with env := p.2.1 } with
  | error e => rfl
  | ok r =>
      obtain ⟨b, w'⟩ := r
      cases b with
      | false => rfl
      | true => exact absurd ⟨w', hmake⟩ hfails

theorem timer_succeeds {p : World × Ckstep} {now : Int} (hcall : p.2.2 = .timer now) :
    Succeeds p := by
  unfold Succeeds
  rw [hcall]
  exact ⟨_, rfl⟩

/-- No `add` without a cookie succeeds. -/
theorem cookie_of_succeeds {p : World × Ckstep} {ck : Option Bytes} {ip sn : CStr} {servtype : Nat}
    (hcall : p.2.2 = .add ck ip sn servtype) (hsucceeds : Succeeds p) : ck = some (ck.getD []) := by
  obtain ⟨w', hmake⟩ := hsucceeds
  rw [hcall] at hmake
  have hadd : ckcacheAdd ck ip sn servtype { p.1 with env := p.2.1 } = .ok (true, w') := hmake
  obtain ⟨hfalse, -⟩ | ⟨-, v, rfl, -⟩ := ckcacheAdd_ok hadd
  · cases hfalse
  · rfl

/-- A step logs an issued ticket when it is an `add` that succeeds. -/
theorem logged_issued {p : World × Ckstep} {ck : Bytes} {ip sn : CStr} {servtype : Nat} {t : Int} :
    logged p = .issued ck (ip, sn, servtype) t ↔
      p.2.2 = .add (some ck) ip sn servtype ∧ Succeeds p ∧ t = p.2.1.now := by
  by_cases hsucceeds : Succeeds p
  · rw [logged_of_succeeds hsucceeds]
    cases hcall : p.2.2 with
    | add ck' ip' sn' servtype' =>
        have hck := cookie_of_succeeds hcall hsucceeds
        obtain ⟨v, rfl⟩ : ∃ v, ck' = some v := ⟨_, hck⟩
        simp only [eventOf, hcall, Option.getD_some, Event.issued.injEq, Prod.mk.injEq,
          Ckcall.add.injEq, Option.some.injEq, hsucceeds, true_and]
        tauto
    | rem ck' => simp [eventOf, hcall]
    | timer now => simp [eventOf, hcall]
  · simp [logged_of_fails hsucceeds, hsucceeds]

theorem spares_logged {p : World × Ckstep} {ck : Bytes} {t : Int} :
    Tickets.Spares overdue ck t (logged p) ↔ ¬(p.2.2 = .rem ck ∧ Succeeds p) ∧
      ∀ now, p.2.2 = .timer now → ¬now - t > ckcacheTimeout := by
  unfold Tickets.Spares
  by_cases hsucceeds : Succeeds p
  · rw [logged_of_succeeds hsucceeds]
    cases hcall : p.2.2 <;> simp [eventOf, hcall, hsucceeds, overdue]
  · rw [logged_of_fails hsucceeds]
    have htimer : ∀ now, p.2.2 ≠ .timer now := fun now hcall => hsucceeds (timer_succeeds hcall)
    simp [hsucceeds, htimer]

/-- The unspent cookies of a history are the unspent tickets of its log. -/
theorem unspent_logged {h : List (World × Ckstep)} {ck : Bytes} {ip sn : CStr} {servtype : Nat} :
    Unspent h ck ip sn servtype ↔
      ∃ t, Tickets.Unspent overdue (h.map logged) ck (ip, sn, servtype) t := by
  constructor
  · rintro ⟨h₁, p, h₂, rfl, hcall, hsucceeds, hspares⟩
    refine ⟨p.2.1.now, h₁.map logged, h₂.map logged, ?_, ?_⟩
    · rw [List.map_append, List.map_cons, logged_issued.2 ⟨hcall, hsucceeds, rfl⟩]
    · intro e he
      obtain ⟨q, hq, rfl⟩ := List.mem_map.1 he
      exact spares_logged.2 (hspares q hq)
  · rintro ⟨t, l₁, l₂, heq, hspares⟩
    obtain ⟨h₁, h', rfl, rfl, hmap⟩ := List.map_eq_append_iff.1 heq
    obtain ⟨p, h₂, rfl, hp, rfl⟩ := List.map_eq_cons_iff.1 hmap
    obtain ⟨hcall, hsucceeds, rfl⟩ := logged_issued.1 hp
    refine ⟨h₁, p, h₂, rfl, hcall, hsucceeds, ?_⟩
    intro q hq
    exact spares_logged.1 (hspares _ (List.mem_map_of_mem hq))

/-- The entry that a `rem` would find belongs to the cookie that is unspent. -/
theorem find_iff_unspent {h : List (World × Ckstep)} (hrun : Run cknext Empty h w) {ck : Bytes}
    {ckc : Ckcache} : ckcacheFind w.ckcache ck = some ckc ↔
      ∃ ip sn servtype t, Tickets.Unspent overdue (h.map logged) ck (ip, sn, servtype) t ∧
        ckc = entry ck ((ip, sn, servtype), t) := by
  obtain ⟨hlegal, hrefines⟩ := refines_of_run hrun
  rw [hrefines.find, Option.map_eq_some_iff]
  constructor
  · rintro ⟨⟨⟨ip, sn, servtype⟩, t⟩, hout, rfl⟩
    exact ⟨ip, sn, servtype, t, (outstanding_iff hlegal).1 hout, rfl⟩
  · rintro ⟨ip, sn, servtype, t, hunspent, rfl⟩
    exact ⟨_, (outstanding_iff hlegal).2 hunspent, rfl⟩

end

/-- In every run the cached cookies are distinct, and a cookie is answered faithfully when
the server type that it was cached with is 0. -/
theorem faithful_iff {h : List (World × Ckstep)} {w : World} (hrun : Run cknext Empty h w) :
    Distinct w.ckcache ∧ ∀ ck, Faithful h w ck ↔
      ∀ ip sn servtype, Unspent h ck ip sn servtype → servtype = 0 := by
  have hdistinct := (refines_of_run hrun).2.distinct
  refine ⟨hdistinct, fun ck => ?_⟩
  obtain ⟨w', hrem, -⟩ := ckcacheRem_of_distinct ck hdistinct
  -- an unspent cookie is found, with all but its server type
  have hfound : ∀ ip sn servtype, Unspent h ck ip sn servtype →
      ∃ t, ckcacheRem ck w = .ok (some (entry ck ((ip, sn, servtype), t)), w') := by
    intro ip sn servtype hunspent
    obtain ⟨t, hticket⟩ := unspent_logged.1 hunspent
    have hfind := (find_iff_unspent hrun).2 ⟨ip, sn, servtype, t, hticket, rfl⟩
    exact ⟨t, by rw [hrem, hfind]⟩
  constructor
  · rintro ⟨-, hback⟩ ip sn servtype hunspent
    obtain ⟨t, hentry⟩ := hfound ip sn servtype hunspent
    obtain ⟨ckc, w₁, hckc, -, -, hservtype⟩ := hback ip sn servtype hunspent
    rw [hentry] at hckc
    cases hckc
    exact hservtype.symm
  · intro hzero
    refine ⟨⟨?_, ?_⟩, ?_⟩
    · rintro ⟨ckc, w₁, hckc⟩
      rw [hrem, Except.ok.injEq, Prod.mk.injEq] at hckc
      obtain ⟨ip, sn, servtype, t, hticket, -⟩ := (find_iff_unspent hrun).1 hckc.1
      exact ⟨ip, sn, servtype, unspent_logged.2 ⟨t, hticket⟩⟩
    · rintro ⟨ip, sn, servtype, hunspent⟩
      obtain ⟨t, hentry⟩ := hfound ip sn servtype hunspent
      exact ⟨_, _, hentry⟩
    · intro ip sn servtype hunspent
      obtain ⟨t, hentry⟩ := hfound ip sn servtype hunspent
      exact ⟨_, _, hentry, rfl, rfl, (hzero ip sn servtype hunspent).symm⟩

/-- A call that caches the cookie 1 2 3 4. -/
def caching (servtype : Nat) : Ckstep :=
  (granting, .add (some [1, 2, 3, 4]) (lit "10.0.0.1:5190") (lit "alice") servtype)

/-- The state after it. -/
def cached : World :=
  { started with
    env := granting
    ckcache := [entry [1, 2, 3, 4] ((lit "10.0.0.1:5190", lit "alice", 0), 0)] }

theorem run_caching (servtype : Nat) : Run cknext Empty [(started, caching servtype)] cached ∧
    Unspent [(started, caching servtype)] [1, 2, 3, 4] (lit "10.0.0.1:5190") (lit "alice")
      servtype := by
  have hstep : (caching servtype).2.make { started with env := (caching servtype).1 } =
      .ok (true, cached) := rfl
  have hnext : cknext (caching servtype) started = .ok cached := by
    unfold cknext
    rw [hstep]
    rfl
  have hempty : Empty started := rfl
  have hrun : Run cknext Empty [] started := .start hempty
  exact ⟨hrun.step hnext, [], _, [], rfl, rfl, ⟨_, hstep⟩, by simp⟩

/-- Without a server type the cookie comes back as it was cached. -/
theorem faithful_cached : Run cknext Empty [(started, caching 0)] cached ∧
    Distinct cached.ckcache ∧ ∀ ck, Faithful [(started, caching 0)] cached ck ↔
      ∀ ip sn servtype, Unspent [(started, caching 0)] ck ip sn servtype → servtype = 0 :=
  ⟨(run_caching 0).1, faithful_iff (run_caching 0).1⟩

/-- Cached with the server type that `snachandler_0017_0003` gives, it comes back without. -/
theorem unfaithful_cached : Run cknext Empty [(started, caching servtypeBos)] cached ∧
    ¬Faithful [(started, caching servtypeBos)] cached [1, 2, 3, 4] := by
  obtain ⟨hrun, hunspent⟩ := run_caching servtypeBos
  refine ⟨hrun, ?_⟩
  rintro ⟨-, hback⟩
  obtain ⟨ckc, w', hrem, -, -, hservtype⟩ := hback _ _ _ hunspent
  have hzero : ckcacheRem [1, 2, 3, 4] cached =
      .ok (some (entry [1, 2, 3, 4] ((lit "10.0.0.1:5190", lit "alice", 0), 0)),
        { cached with ckcache := [] }) := rfl
  rw [hzero] at hrem
  cases hrem
  exact absurd hservtype (by decide)

end Timps.Oscar
