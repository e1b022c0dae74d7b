-- SUMMARY: Runs of the proxy, and the invariants of acts that every reached state has.
import Timps.Base.Run
import Timps.Oscar.StepActs

/-!
# Runs

A run starts with nothing open, known or cached. What holds then, and is kept by every act
that the steps of the run permit, holds in every state that the run reaches.
-/

namespace Timps.Oscar

open Naf (lit bytePut16 bytePut32)
open Prog (keep)

variable {h : List (World × Input)} {w w' : World}

theorem Initial.wf (hinit : Initial w) : w.Wf := by
  obtain ⟨hconns, -⟩ := hinit
  exact ⟨by simp [hconns], by simp [hconns]⟩

/-- The numbering of connections is sound in every state that a run reaches. -/
theorem run_wf (hrun : Run step Initial h w) : w.Wf :=
  hrun.invariant (fun _ => Initial.wf) fun _ _ _ wf hstep => step_wf wf hstep

/-- The invariant rule for acts. Within the step that `i` takes from `w₀`, `J w₀ i` holds
instead of `I`; all steps of the run meet the condition `G`. -/
theorem run_steps {I : World → Prop} {J : World → Input → World → Prop} {G : World → Input → Prop}
    (hrun : Run step Initial h w) (hG : ∀ s ∈ h, G s.1 s.2) (init : ∀ w, Initial w → I w)
    (enter : ∀ w i, I w → J w i { w with env := i.env })
    (act : ∀ {w₀ i w w'}, G w₀ i → w.Wf → Act (permOf w₀ i) w w' → J w₀ i w → J w₀ i w')
    (leave : ∀ w₀ i w, J w₀ i w → I w) : I w := by
  refine hrun.invariant_history (I := fun _ w => I w) hG init fun h i w w' hrun hI hGi hstep => ?_
  have wf := run_wf hrun
  have wf' : ({ w with env := i.env } : World).Wf := wf.congr rfl (Nat.le_refl _)
  have hkeep := keep (I := fun v => v.Wf ∧ J w i v) (fun v v' hact hv => ?_) (step_acts wf hstep)
    ⟨wf', enter w i hI⟩
  · exact leave w i w' hkeep.2
  · exact ⟨hact.wf hv.1, act hGi hv.1 hact hv.2⟩

/-- The rule for an invariant that holds between acts as it does between steps, and does
not depend on the answers of the outside. -/
theorem run_acts {I : World → Prop} {G : World → Input → Prop} (hrun : Run step Initial h w)
    (hG : ∀ s ∈ h, G s.1 s.2) (init : ∀ w, Initial w → I w)
    (env : ∀ w env, I w → I { w with env })
    (act : ∀ {i w₀ w w'}, G w₀ i → w.Wf → Act (permOf w₀ i) w w' → I w → I w') : I w :=
  run_steps (J := fun _ _ w => I w) hrun hG init (fun w i => env w i.env)
    (fun hG wf hact => act hG wf hact) fun _ _ _ => id

/-! ## The outside and the numbering -/

variable {p : Perm}

theorem Same.trans {e e₁ e₂ : Env} (h₁ : Same e e₁) (h₂ : Same e₁ e₂) : Same e e₂ :=
  ⟨h₂.now.trans h₁.now, h₂.overrun.trans h₁.overrun⟩

theorem Quiet.same (h : Quiet p w w') : Same w.env w'.env := by
  cases h with
  | env _ hsame | send _ hsame _ => exact hsame
  | count _ _ _ | touch _ _ | request _ _ _ _ => exact ⟨rfl, rfl⟩

/-- The clock and the memory behind two names are the same throughout a step. -/
theorem Act.same (h : Act p w w') : Same w.env w'.env := by
  cases h with
  | quiet h => exact h.same
  | connect _ _ _ _ _ hquiet =>
      exact keep (I := fun v => Same w.env v.env) (fun _ _ h hsame => hsame.trans h.same) hquiet
        ⟨rfl, rfl⟩
  | forward _ _ hsame _ _ => exact hsame
  | accept _ | disconnect _ _ | cookieAdd _ | cookieDrop _ | name _ _ _ _ _ | online _ _ | usehit
  | timeout | bury _ | unlink _ _ _ | confchange | read _ | hand _ | answer _ _ => exact ⟨rfl, rfl⟩

/-- Numbers of connections are not given away twice. -/
theorem Quiet.nextcid_le (h : Quiet p w w') : w.nextcid ≤ w'.nextcid := by
  cases h with
  | count _ _ hle => exact hle
  | env _ _ | touch _ _ | send _ _ _ | request _ _ _ _ => exact Nat.le_refl _

theorem Act.nextcid_le (h : Act p w w') : w.nextcid ≤ w'.nextcid := by
  cases h with
  | quiet h => exact h.nextcid_le
  | accept hnew =>
      have hcid := hnew.cid
      simp only [World.insert]
      omega
  | connect _ _ _ hnew _ hquiet =>
      have hle := keep (I := fun v => w.nextcid ≤ v.nextcid)
        (fun _ _ h hle => Nat.le_trans hle h.nextcid_le) hquiet
        (by simp only [World.modify, World.insert, hnew.cid]; omega)
      exact hle
  | disconnect _ _ | cookieAdd _ | cookieDrop _ | name _ _ _ _ _ | online _ _ | usehit | timeout
  | bury _ | unlink _ _ _ | confchange | read _ | hand _ | answer _ _ | forward _ _ _ _ _ =>
      exact Nat.le_refl _

/-! ## Building runs -/

/-- An outside that grants every request. -/
def granting : Env where
  heap := Naf.Heap.zeroed
  now := 0
  readRefused := []
  writeRefused := []
  addfdRefused := []
  connect := fun _ _ => .connected
  connected := true
  flushed := true
  sockname := ⟨lit "10.0.0.1", defaultport⟩
  fdpos := 0
  overrun := fun _ _ => 1
  rand := []

/-- A run that a test finds is a run. -/
theorem exists_of_any {α : Type} {r : Except Fault α} {q : α → Bool} (hq : r.toOption.any q = true) :
    ∃ a, r = .ok a ∧ q a = true := by
  cases r with
  | error e => cases hq
  | ok a => exact ⟨a, rfl, hq⟩

/-- The proxy when it has just started. -/
def started : World where
  conns := []
  nextcid := 0
  openconns := 0
  gnr := Gnr.hashInit
  ckcache := []
  config := ⟨none, lit "login.oscar.aol.com:5190", false, 15, 30⟩
  env := granting
  trace := []

theorem started_initial : Initial started := ⟨rfl, rfl, rfl, rfl, rfl, rfl⟩

def flapframe (chan : UInt8) (body : Bytes) : Bytes :=
  [42, chan, 0, 0] ++ bytePut16 body.length ++ body

def snacframe (group subtype : Nat) (body : Bytes) : Bytes :=
  flapframe 2 (bytePut16 group ++ bytePut16 subtype ++ bytePut16 0 ++ bytePut32 7 ++ body)

def tlvbytes (type : Nat) (value : Bytes) : Bytes :=
  bytePut16 type ++ bytePut16 value.length ++ value

/-- A frame arrives: its header, then the rest. -/
def receiveframe (cid : Nat) (frame : Bytes) : List Input :=
  [.readable cid (frame.take flaphdrlen), .readable cid (frame.drop flaphdrlen)].map (⟨·, granting⟩)

/-- A client logs in, and its authorizer hands out a cookie: connections 0 and 1. -/
def loginframes (sn ck : Bytes) : List Input :=
  ⟨.accept, granting⟩ :: receiveframe 0 (snacframe 0x0017 0x0006 (tlvbytes 0x0001 sn)) ++
    receiveframe 1 (snacframe 0x0017 0x0003
      (tlvbytes 0x0001 sn ++ tlvbytes 0x0005 (lit "10.0.0.2:5190") ++ tlvbytes 0x0006 ck))

/-- A client presents a cookie. -/
def cookieframe (ck : Bytes) : Bytes := flapframe 1 (bytePut32 1 ++ tlvbytes 0x0006 ck)

/-- The client hangs up, comes back with the cookie, and goes online: connections 2 and 3. -/
def onlineframes (sn ck : Bytes) : List Input :=
  loginframes sn ck ++ [⟨.closed 0, granting⟩, ⟨.accept, granting⟩] ++
    receiveframe 2 (cookieframe ck) ++ receiveframe 2 (snacframe 0x0001 0x0002 [])

end Timps.Oscar
