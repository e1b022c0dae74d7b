-- SUMMARY: Where the entries of the cookie cache and the names of users come from.
import Timps.Oscar.Users

/-!
# Provenance

A step adds to the cookie cache only what its frame brings, and a server connection gets
its user's name from a cached cookie. So every name goes back to a step of the run. The
side from which that frame came is another matter: the handler does not look at it.
-/

namespace Timps.Oscar

open Naf (Block lit)
open Prog (keep)

variable {p : Perm} {w w' : World}

/-! ## Cookies -/

theorem Quiet.ckcache (h : Quiet p w w') : w'.ckcache = w.ckcache := by cases h <;> rfl

/-- An act leaves in the cookie cache what was there, or what it is permitted to add. -/
theorem Act.ckcache (h : Act p w w') {ckc : Ckcache} (hckc : ckc ∈ w'.ckcache) :
    ckc ∈ w.ckcache ∨ p.cookie ckc := by
  cases h with
  | quiet h => exact .inl (h.ckcache ▸ hckc)
  | connect _ _ _ _ _ hquiet =>
      have heq := keep (I := fun v => v.ckcache = w.ckcache) (fun _ _ h heq => h.ckcache.trans heq)
        hquiet rfl
      exact .inl (heq ▸ hckc)
  | cookieAdd hcookie =>
      rcases List.mem_cons.1 hckc with rfl | hold
      · exact .inr hcookie
      · exact .inl hold
  | cookieDrop hsub => exact .inl (hsub.subset hckc)
  | accept _ | disconnect _ _ | name _ _ _ _ _ | online _ _ | usehit | timeout | bury _
  | unlink _ _ _ | confchange | read _ | hand _ | answer _ _ | forward _ _ _ _ _ => exact .inl hckc

theorem Act.user (h : Act p w w') (wf : w.Wf) {k : Nat} {s : Bool} {sn : CStr}
    (hk : user w' k = some (s, some sn)) : user w k = some (s, some sn) ∨ p.name sn := by
  cases h.enrols wf with
  | users _ _ hnew => exact (hnew k s sn hk).imp_right And.right
  | online _ _ husers _ _ _ | usehit _ husers _ | timeout husers _ => exact .inl (husers ▸ hk)
  | bury cid dead _ hw' =>
      subst hw'
      have hclose : Oscar.user { w.close cid with gnr := freed (w.close cid) dead } k =
          if k = cid then none else Oscar.user w k := user_close k
      rw [hclose] at hk
      split at hk
      · cases hk
      · exact .inl hk

/-! ## Steps -/

/-- The step handles a 0017/0003 SNAC that brings the entry, and that arrived on a
connection of the given side. -/
def Brings (server : Bool) (w : World) (i : Input) (ckc : Ckcache) : Prop :=
  ∃ cid buf buflen c, completes w i.event = some (cid, buf, buflen) ∧ buf.byte 1 = 0x02 ∧
    w.conn? cid = some c ∧ c.type.server = server ∧
    snaccookie { w with env := i.env } (buf.suffix flaphdrlen) (buflen - flaphdrlen) ckc

/-- Not a 0017/0003 SNAC from that side. -/
def harmless (server : Bool) (s : World × Input) : Bool :=
  (completes s.1 s.2.event).all fun f =>
    f.2.1.byte 1 ≠ 0x02 || (snacOf (f.2.1.suffix flaphdrlen) (f.2.2 - flaphdrlen)).subtype ≠ 0x0003 ||
      (s.1.conn? f.1).all fun c => c.type.server ≠ server

theorem harmless_ok {server : Bool} {s : World × Input} {ckc : Ckcache}
    (h : harmless server s = true) : ¬Brings server s.1 s.2 ckc := by
  rintro ⟨cid, buf, buflen, c, hcompletes, hchan, hc, hside, -, -, hsubtype, -⟩
  simp [harmless, hcompletes, hchan, hsubtype, hc, hside] at h

theorem received_conn {e : Event} {cid : Nat} {buf : Block} {buflen : Nat}
    (h : received w e = some (cid, buf, buflen)) : ∃ c, w.conn? cid = some c := by
  cases e with
  | readable k bytes =>
      simp only [received] at h
      cases hc : w.conn? k with
      | none => simp [hc] at h
      | some c =>
          obtain rfl : k = cid := by
            simp only [hc] at h
            split at h
            · cases h
            · split at h
              · cases h
              · split at h
                · cases h
                  rfl
                · cases h
          exact ⟨c, hc⟩
  | accept | writable _ | closed _ | gnrTimer | oscarTimer | confchange _ | disconnectuser _ => cases h

/-- A step that adds to the cookie cache handles a SNAC of either side. -/
theorem permOf_cookie {i : Input} {ckc : Ckcache} (h : (permOf w i).cookie ckc) :
    Brings true w i ckc ∨ Brings false w i ckc := by
  obtain ⟨cid, buf, buflen, hcompletes, hchan, hsnac⟩ := h
  obtain ⟨c, hc⟩ := received_conn (Option.filter_eq_some_iff.1 hcompletes).1
  cases hside : c.type.server with
  | true => exact .inl ⟨cid, buf, buflen, c, hcompletes, hchan, hc, hside, hsnac⟩
  | false => exact .inr ⟨cid, buf, buflen, c, hcompletes, hchan, hc, hside, hsnac⟩

/-- What a step may leave in the cache and in the tags. -/
theorem step_provenance {i : Input} (wf : w.Wf) (hstep : step i w = .ok w') :
    (∀ ckc ∈ w'.ckcache, ckc ∈ w.ckcache ∨ (permOf w i).cookie ckc) ∧
      ∀ k s sn, user w' k = some (s, some sn) →
        (∃ k s, user w k = some (s, some sn)) ∨ ∃ ckc ∈ w.ckcache, ckc.sn = sn := by
  have wf' : ({ w with env := i.env } : World).Wf := wf.congr rfl (Nat.le_refl _)
  have hkeep := keep (I := fun v => v.Wf ∧
      (∀ ckc ∈ v.ckcache, ckc ∈ w.ckcache ∨ (permOf w i).cookie ckc) ∧
      ∀ k s sn, user v k = some (s, some sn) →
        (∃ k s, user w k = some (s, some sn)) ∨ ∃ ckc ∈ w.ckcache, ckc.sn = sn)
    (fun v v' hact hv => ?_) (step_acts wf hstep)
    ⟨wf', fun ckc hckc => .inl hckc, fun k s sn hk => .inl ⟨k, s, hk⟩⟩
  · exact hkeep.2
  · refine ⟨hact.wf hv.1, fun ckc hckc => ?_, fun k s sn hk => ?_⟩
    · obtain hold | hnew := hact.ckcache hckc
      · exact hv.2.1 ckc hold
      · exact .inr hnew
    · obtain hold | hnew := hact.user hv.1 hk
      · exact hv.2.2 k s sn hold
      · exact .inr hnew

/-! ## Runs -/

/-- The entry goes back to a server connection. -/
def Vouched (h : List (World × Input)) (ckc : Ckcache) : Prop := ∃ s ∈ h, Brings true s.1 s.2 ckc

/-- As long as no client connection sends a 0017/0003 SNAC that brings an entry, every
entry and every user's name go back to a server connection. Without a SNAC from there
the cache stays empty. -/
theorem cookies_vouched {h : List (World × Input)} (hrun : Run step Initial h w)
    (hclient : ∀ s ∈ h, ∀ ckc, ¬Brings false s.1 s.2 ckc) :
    (∀ ckc ∈ w.ckcache, Vouched h ckc) ∧
    (∀ c ∈ w.conns, ∀ sn, screennameOf c = some sn → ∃ ckc, Vouched h ckc ∧ ckc.sn = sn) ∧
    ((∀ s ∈ h, ∀ ckc, ¬Brings true s.1 s.2 ckc) →
      w.ckcache = [] ∧ ∀ c ∈ w.conns, screennameOf c = none) := by
  have hmono : ∀ {h : List (World × Input)} {s ckc}, Vouched h ckc → Vouched (h ++ [s]) ckc := by
    rintro h s ckc ⟨s', hs, hb⟩
    exact ⟨s', List.mem_append_left _ hs, hb⟩
  -- names are followed beside cookies: a login moves a name from a cookie to its connection
  have hinv : (∀ ckc ∈ w.ckcache, Vouched h ckc) ∧
      ∀ k s sn, user w k = some (s, some sn) → ∃ ckc, Vouched h ckc ∧ ckc.sn = sn := by
    refine hrun.invariant_history (I := fun h w => (∀ ckc ∈ w.ckcache, Vouched h ckc) ∧
      ∀ k s sn, user w k = some (s, some sn) → ∃ ckc, Vouched h ckc ∧ ckc.sn = sn)
      (G := fun w i => ∀ ckc, ¬Brings false w i ckc) hclient (fun w hinit => ?_) ?_
    · have hempty : ∀ k, user w k = none := by
        intro k
        simp [user, World.conn?, hinit.1]
      exact ⟨by simp [hinit.2.2.2.2.1], fun k s sn hk => by simp [hempty] at hk⟩
    · rintro h i w w' hrun ⟨hcookies, hnames⟩ hG hstep
      obtain ⟨hcookies', hnames'⟩ := step_provenance (run_wf hrun) hstep
      refine ⟨fun ckc hckc => ?_, fun k s sn hk => ?_⟩
      · obtain hold | hnew := hcookies' ckc hckc
        · exact hmono (hcookies ckc hold)
        · obtain hserver | hclient := permOf_cookie hnew
          · exact ⟨(w, i), by simp, hserver⟩
          · exact absurd hclient (hG ckc)
      · obtain ⟨k, s, hold⟩ | ⟨ckc, hckc, hsn⟩ := hnames' k s sn hk
        · obtain ⟨ckc, hv, hsn⟩ := hnames k s sn hold
          exact ⟨ckc, hmono hv, hsn⟩
        · exact ⟨ckc, hmono (hcookies ckc hckc), hsn⟩
  have hnames : ∀ c ∈ w.conns, ∀ sn, screennameOf c = some sn → ∃ ckc, Vouched h ckc ∧ ckc.sn = sn :=
    fun c hc sn hsn => hinv.2 c.cid c.type.server sn
      (by rw [user_of_conn ((run_wf hrun).conn? hc), hsn])
  refine ⟨hinv.1, hnames, fun hnone => ⟨?_, fun c hc => ?_⟩⟩
  · rw [List.eq_nil_iff_forall_not_mem]
    rintro ckc hckc
    obtain ⟨s, hs, hb⟩ := hinv.1 ckc hckc
    exact hnone s hs ckc hb
  · rw [Option.eq_none_iff_forall_ne_some]
    rintro sn hsn
    obtain ⟨ckc, ⟨s, hs, hb⟩, -⟩ := hnames c hc sn hsn
    exact hnone s hs ckc hb

/-- A login where the authorizer's connection brings the entry. -/
theorem cookies_vouched_login :
    ∃ h w, Run step Initial h w ∧ h.map (·.2) = loginframes (lit "alice") [1, 2, 3, 4] ∧
      (∃ ckc ∈ w.ckcache, ckc.sn = lit "alice") ∧ (∀ ckc ∈ w.ckcache, Vouched h ckc) ∧
      (∀ c ∈ w.conns, ∀ sn, screennameOf c = some sn → ∃ ckc, Vouched h ckc ∧ ckc.sn = sn) ∧
      ((∀ s ∈ h, ∀ ckc, ¬Brings true s.1 s.2 ckc) →
        w.ckcache = [] ∧ ∀ c ∈ w.conns, screennameOf c = none) := by
  have hreach : (replayInputs step (loginframes (lit "alice") [1, 2, 3, 4]) started).toOption.any
      (fun r => r.1.all (harmless false) && decide (∃ ckc ∈ r.2.ckcache, ckc.sn = lit "alice")) = true := by
    decide +kernel
  obtain ⟨h, w, hrun, hinputs, hw⟩ := Run.exists_of_replay started_initial hreach
  rw [Bool.and_eq_true, List.all_eq_true, decide_eq_true_eq] at hw
  exact ⟨h, w, hrun, hinputs, hw.2,
    cookies_vouched hrun fun s hs ckc => harmless_ok (hw.1 s hs)⟩

/-- A client logs in as one user and sends itself the reply of an authorizer for another. -/
def forgery : List Input :=
  ⟨.accept, granting⟩ :: receiveframe 0 (snacframe 0x0017 0x0006 (tlvbytes 0x0001 (lit "mallory"))) ++
    receiveframe 0 (snacframe 0x0017 0x0003
      (tlvbytes 0x0001 (lit "alice") ++ tlvbytes 0x0005 (lit "10.6.6.6:5190") ++
        tlvbytes 0x0006 [1, 2, 3, 4]))

/-- The cache then has an entry that no server connection brought, with the name and the
address of the client's choice. -/
theorem forgery_unvouched :
    ∃ h w, Run step Initial h w ∧ h.map (·.2) = forgery ∧
      ∃ ckc ∈ w.ckcache, ckc.sn = lit "alice" ∧ ckc.ip = lit "10.6.6.6:5190" ∧ ¬Vouched h ckc := by
  have hreach : (replayInputs step forgery started).toOption.any
      (fun r => r.1.all (harmless true) &&
        decide (∃ ckc ∈ r.2.ckcache, ckc.sn = lit "alice" ∧ ckc.ip = lit "10.6.6.6:5190")) = true := by
    decide +kernel
  obtain ⟨h, w, hrun, hinputs, hw⟩ := Run.exists_of_replay started_initial hreach
  rw [Bool.and_eq_true, List.all_eq_true, decide_eq_true_eq] at hw
  obtain ⟨hharmless, ckc, hckc, hsn, hip⟩ := hw
  refine ⟨h, w, hrun, hinputs, ckc, hckc, hsn, hip, ?_⟩
  rintro ⟨s, hs, hb⟩
  exact harmless_ok (hharmless s hs) hb

end Timps.Oscar
