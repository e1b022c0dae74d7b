-- SUMMARY: The macros of the console, and how they follow the configuration.
import Timps.Base.Keyed
import Timps.Naf.Listeners
import Timps.Naf.Rpc

/-!
# Macros

A macro is a word that stands for a command. Without a configuration there is one, `help`;
otherwise the list `usemacros` names them, and each has its expansion in a parameter of its
own. When the configuration changes, new names are added first, and then the old macros are
gone through: those that are still listed get their current expansion, the others go.
-/

namespace Timps.Nafconsole

open Naf (Mem Heap cstring lit malloc strdup)
open Naf.Conn (tokens)

/-- `struct macro`. The definition is null when it could not be copied. -/
structure Macro where
  cmd : CStr
  defn : Option CStr
  deriving DecidableEq

/-- What `naf_config_getmodparmstr` gives for the parameters of the console's module. -/
abbrev Modparms := CStr → Option CStr

def macroFind (macrolist : List Macro) (cmd : CStr) : Option Macro := Keyed.entry Macro.cmd macrolist cmd

/-- A macro that is there stays as it is. -/
def macroAdd (macrolist : List Macro) (cmd defn : CStr) : Mem (List Macro) :=
  match macroFind macrolist cmd with
  | some _ => pure macrolist
  | none => do
      -- sizeof(struct macro)
      match ← malloc 24 with
      | none => pure macrolist
      | some _ => do
          -- both copies are asked for, whether or not there is the first
          let cmd ← strdup cmd
          let defn ← strdup defn
          match cmd, defn with
          | some cmd, some defn => pure (⟨cmd, some defn⟩ :: macrolist)
          | _, _ => pure macrolist

def macroAdddefaults (macrolist : List Macro) : Mem (List Macro) :=
  macroAdd macrolist (lit "help") (lit "call rpc->help")

/-- `snprintf` into a `char [128]` -/
def getexpansion (conf : Modparms) (cmd : CStr) : Option CStr :=
  (conf ((lit "macro[" ++ cmd ++ lit "][expansion]").take 127)).map cstring

/-- The loop over the listed names. -/
def addlisted (conf : Modparms) : List CStr → List Macro → Mem (List Macro)
  | [], macrolist => pure macrolist
  | c :: cs, macrolist =>
      match macroFind macrolist c, getexpansion conf c with
      | none, some defn => do
          let macrolist ← macroAdd macrolist c defn
          addlisted conf cs macrolist
      | _, _ => addlisted conf cs macrolist

/-- `macro_syncconf__addnew` -/
def addnew (conf : Modparms) (inlist : CStr) (macrolist : List Macro) : Mem (List Macro) := do
  match ← strdup inlist with
  | none => pure macrolist
  | some list => addlisted conf (tokens list) macrolist

/-- `macro_syncconf__isconfigured` -/
def isconfigured (inlist cmd : CStr) : Mem Bool := do
  match ← strdup inlist with
  | none => pure false
  | some list => pure (decide (cmd ∈ tokens list))

/-- `macro_syncconf__updateold` -/
def updateold (conf : Modparms) (inlist : CStr) : List Macro → Mem (List Macro)
  | [] => pure []
  | mac :: macs => do
      let configured ← isconfigured inlist mac.cmd
      match if configured then getexpansion conf mac.cmd else none with
      | some defn => do
          let defn ← strdup defn
          let macs ← updateold conf inlist macs
          pure (⟨mac.cmd, defn⟩ :: macs)
      | none => updateold conf inlist macs

def macroSyncconf (conf : Modparms) (macrolist : List Macro) : Mem (List Macro) :=
  match conf (lit "usemacros") with
  | none => macroAdddefaults []
  | some conflist => do
      let macrolist ← addnew conf conflist macrolist
      updateold conf conflist macrolist

/-- The macro that a word is to be. -/
def wanted (conf : Modparms) (cmd : CStr) : Option Macro :=
  match conf (lit "usemacros") with
  | none => if cmd = lit "help" then some ⟨cmd, some (lit "call rpc->help")⟩ else none
  | some conflist => if cmd ∈ tokens conflist then (getexpansion conf cmd).map fun defn => ⟨cmd, some defn⟩ else none

/-! ## What each loop does -/

section

variable {conf : Modparms} {inlist cmd defn : CStr} {macrolist : List Macro} {h : Heap}

theorem malloc_returns (n : Nat) (h : Heap) : ∃ block h', malloc n h = .ok (block, h') ∧
    (h.refuse = [] → h' = h ∧ block.isSome) := by
  cases hh : h.unwilling with
  | true =>
      refine ⟨_, _, Naf.malloc_refused hh, fun hwilling => ?_⟩
      rw [Heap.willing hwilling] at hh
      cases hh
  | false => exact ⟨_, _, Naf.malloc_granted hh, fun hwilling => ⟨Heap.next_of_willing hwilling, rfl⟩⟩

theorem strdup_returns (s : CStr) (h : Heap) : ∃ copy h', strdup s h = .ok (copy, h') ∧
    (copy = none ∨ copy = some s) ∧ (h.refuse = [] → h' = h ∧ copy = some s) := by
  cases hh : h.unwilling with
  | true =>
      refine ⟨_, _, Naf.strdup_refused hh, .inl rfl, fun hwilling => ?_⟩
      rw [Heap.willing hwilling] at hh
      cases hh
  | false => exact ⟨_, _, Naf.strdup_granted hh, .inr rfl, fun hwilling => ⟨Heap.next_of_willing hwilling, rfl⟩⟩

/-- Adding a macro leaves the list or puts the macro in front, and with memory the word has one. -/
theorem macroAdd_returns (macrolist : List Macro) (cmd defn : CStr) (h : Heap) :
    ∃ l h', macroAdd macrolist cmd defn h = .ok (l, h') ∧
      (l = macrolist ∨ macroFind macrolist cmd = none ∧ l = ⟨cmd, some defn⟩ :: macrolist) ∧
      (h.refuse = [] → h' = h ∧ (macroFind l cmd).isSome) := by
  unfold macroAdd
  cases hfind : macroFind macrolist cmd with
  | some mac => exact ⟨_, _, rfl, .inl rfl, fun _ => ⟨rfl, by rw [hfind]; rfl⟩⟩
  | none =>
      have hput : macroFind (⟨cmd, some defn⟩ :: macrolist) cmd = some ⟨cmd, some defn⟩ := by
        rw [macroFind, Keyed.entry_cons]
        exact Function.update_self ..
      obtain ⟨block, h₁, hmalloc, hblock⟩ := malloc_returns 24 h
      obtain ⟨copy, h₂, hcopy, hcmd, hcopied⟩ := strdup_returns cmd h₁
      obtain ⟨copy', h₃, hcopy', hdefn, hcopied'⟩ := strdup_returns defn h₂
      dsimp only
      rw [Prog.bind_of_ok hmalloc]
      cases block with
      | none => exact ⟨_, _, rfl, .inl rfl, fun hwilling => absurd (hblock hwilling).2 Bool.false_ne_true⟩
      | some block =>
          dsimp only
          rw [Prog.bind_of_ok hcopy, Prog.bind_of_ok hcopy']
          have hend (hwilling : h.refuse = []) : h₃ = h ∧ copy = some cmd ∧ copy' = some defn := by
            obtain ⟨rfl, -⟩ := hblock hwilling
            obtain ⟨rfl, hsome⟩ := hcopied hwilling
            obtain ⟨rfl, hsome'⟩ := hcopied' hwilling
            exact ⟨rfl, hsome, hsome'⟩
          obtain rfl | rfl := hcmd
          · exact ⟨_, _, rfl, .inl rfl, fun hwilling => absurd (hend hwilling).2.1 (Option.some_ne_none _).symm⟩
          obtain rfl | rfl := hdefn
          · exact ⟨_, _, rfl, .inl rfl, fun hwilling => absurd (hend hwilling).2.2 (Option.some_ne_none _).symm⟩
          exact ⟨_, _, rfl, .inr ⟨rfl, rfl⟩, fun hwilling => ⟨(hend hwilling).1, by rw [hput]; rfl⟩⟩

/-- The macros that are there stay. -/
def Extends (l l' : List Macro) : Prop := ∀ cmd, (macroFind l cmd).isSome → (macroFind l' cmd).isSome

theorem macroAdd_extends {l : List Macro}
    (hl : l = macrolist ∨ macroFind macrolist cmd = none ∧ l = ⟨cmd, some defn⟩ :: macrolist)
    (hunique : Keyed.Unique Macro.cmd macrolist) : Keyed.Unique Macro.cmd l ∧ Extends macrolist l := by
  obtain rfl | ⟨hnone, rfl⟩ := hl
  · exact ⟨hunique, fun _ h => h⟩
  · refine ⟨hunique.cons hnone, fun cmd' hsome => ?_⟩
    rw [macroFind, Keyed.entry_cons]
    by_cases hcmd : cmd' = cmd
    · subst hcmd
      rw [Function.update_self]
      rfl
    · rw [Function.update_of_ne hcmd]
      exact hsome

theorem addlisted_returns (cs : List CStr) (hunique : Keyed.Unique Macro.cmd macrolist) (h : Heap) :
    ∃ l h', addlisted conf cs macrolist h = .ok (l, h') ∧ Keyed.Unique Macro.cmd l ∧ Extends macrolist l ∧
      (h.refuse = [] → h' = h ∧ ∀ cmd ∈ cs, (getexpansion conf cmd).isSome → (macroFind l cmd).isSome) := by
  induction cs generalizing macrolist h with
  | nil => exact ⟨_, _, rfl, hunique, fun _ h => h, fun _ => ⟨rfl, fun _ h => (nomatch h)⟩⟩
  | cons c cs ih =>
      -- the word has a macro already, or no expansion
      have hskip (hc : (getexpansion conf c).isSome → (macroFind macrolist c).isSome)
          (hstep : addlisted conf (c :: cs) macrolist = addlisted conf cs macrolist) :
          ∃ l h', addlisted conf (c :: cs) macrolist h = .ok (l, h') ∧ Keyed.Unique Macro.cmd l ∧
            Extends macrolist l ∧ (h.refuse = [] → h' = h ∧
              ∀ cmd ∈ c :: cs, (getexpansion conf cmd).isSome → (macroFind l cmd).isSome) := by
        obtain ⟨l, h', hrun, hunique', hextends, hall⟩ := ih hunique h
        refine ⟨l, h', hstep ▸ hrun, hunique', hextends, fun hwilling => ⟨(hall hwilling).1, fun cmd hcmd hsome => ?_⟩⟩
        rcases List.mem_cons.1 hcmd with rfl | hcmd
        · exact hextends cmd (hc hsome)
        · exact (hall hwilling).2 cmd hcmd hsome
      cases hfind : macroFind macrolist c with
      | some mac => exact hskip (fun _ => by rw [hfind]; rfl) (by rw [addlisted, hfind])
      | none =>
          cases hexpansion : getexpansion conf c with
          | none =>
              refine hskip (fun hsome => ?_) (by rw [addlisted, hfind, hexpansion])
              rw [hexpansion] at hsome
              cases hsome
          | some defn =>
              obtain ⟨l₁, h₁, hadd, hl₁, hadded⟩ := macroAdd_returns macrolist c defn h
              obtain ⟨hunique₁, hextends₁⟩ := macroAdd_extends hl₁ hunique
              obtain ⟨l, h', hrun, hunique', hextends, hall⟩ := ih hunique₁ h₁
              refine ⟨l, h', ?_, hunique', fun cmd hsome => hextends cmd (hextends₁ cmd hsome), fun hwilling => ?_⟩
              · rw [addlisted, hfind, hexpansion]
                dsimp only
                rw [Prog.bind_of_ok hadd]
                exact hrun
              · obtain ⟨rfl, hc⟩ := hadded hwilling
                refine ⟨(hall hwilling).1, fun cmd hcmd hsome => ?_⟩
                rcases List.mem_cons.1 hcmd with rfl | hcmd
                · exact hextends cmd hc
                · exact (hall hwilling).2 cmd hcmd hsome

theorem addnew_returns (conf : Modparms) (inlist : CStr) (hunique : Keyed.Unique Macro.cmd macrolist) (h : Heap) :
    ∃ l h', addnew conf inlist macrolist h = .ok (l, h') ∧ Keyed.Unique Macro.cmd l ∧
      (h.refuse = [] → h' = h ∧ ∀ cmd ∈ tokens inlist, (getexpansion conf cmd).isSome → (macroFind l cmd).isSome) := by
  obtain ⟨copy, h₁, hcopy, hlist, hcopied⟩ := strdup_returns inlist h
  rw [addnew, Prog.bind_of_ok hcopy]
  obtain rfl | rfl := hlist
  · exact ⟨_, _, rfl, hunique, fun hwilling => absurd (hcopied hwilling).2 (Option.some_ne_none _).symm⟩
  · obtain ⟨l, h', hrun, hunique', -, hall⟩ := addlisted_returns (tokens inlist) hunique h₁
    refine ⟨l, h', hrun, hunique', fun hwilling => ?_⟩
    obtain ⟨rfl, -⟩ := hcopied hwilling
    exact hall hwilling

theorem isconfigured_returns (inlist cmd : CStr) (h : Heap) : ∃ b h', isconfigured inlist cmd h = .ok (b, h') ∧
    (b = true → cmd ∈ tokens inlist) ∧ (h.refuse = [] → h' = h ∧ b = decide (cmd ∈ tokens inlist)) := by
  obtain ⟨copy, h₁, hcopy, hlist, hcopied⟩ := strdup_returns inlist h
  rw [isconfigured, Prog.bind_of_ok hcopy]
  obtain rfl | rfl := hlist
  · exact ⟨_, _, rfl, fun h => absurd h Bool.false_ne_true,
      fun hwilling => absurd (hcopied hwilling).2 (Option.some_ne_none _).symm⟩
  · exact ⟨_, _, rfl, fun h => of_decide_eq_true h, fun hwilling => ⟨(hcopied hwilling).1, rfl⟩⟩

/-- What is left of an old macro when there is memory. -/
def updated (conf : Modparms) (inlist : CStr) (mac : Macro) : Option Macro :=
  if mac.cmd ∈ tokens inlist then (getexpansion conf mac.cmd).map fun defn => ⟨mac.cmd, some defn⟩ else none

/-- A macro of the list, up to a definition that could not be copied. -/
def Offered (conf : Modparms) (inlist : CStr) (mac : Macro) : Prop :=
  mac.cmd ∈ tokens inlist ∧ ∃ defn, getexpansion conf mac.cmd = some defn ∧ (mac.defn = none ∨ mac.defn = some defn)

theorem updateold_returns (conf : Modparms) (inlist : CStr) (macrolist : List Macro) (h : Heap) :
    ∃ l h', updateold conf inlist macrolist h = .ok (l, h') ∧ (l.map Macro.cmd).Sublist (macrolist.map Macro.cmd) ∧
      (∀ mac ∈ l, Offered conf inlist mac) ∧
      (h.refuse = [] → h' = h ∧ l = macrolist.filterMap (updated conf inlist)) := by
  induction macrolist generalizing h with
  | nil => exact ⟨_, _, rfl, .slnil, fun _ h => (nomatch h), fun _ => ⟨rfl, rfl⟩⟩
  | cons mac macs ih =>
      obtain ⟨b, h₁, hconfigured, hmem, hb⟩ := isconfigured_returns inlist mac.cmd h
      rw [updateold, Prog.bind_of_ok hconfigured]
      -- a macro that is not listed any more, or has no definition, leaves the list
      cases hdefn : if b then getexpansion conf mac.cmd else none with
      | none =>
          obtain ⟨l, h', hrun, hsub, hoffered, hall⟩ := ih h₁
          refine ⟨l, h', hrun, hsub.cons _, hoffered, fun hwilling => ?_⟩
          obtain ⟨rfl, rfl⟩ := hb hwilling
          obtain ⟨rfl, rfl⟩ := hall hwilling
          have hgone : updated conf inlist mac = none := by
            rw [updated]
            split
            · rw [if_pos (by simpa using ‹_›)] at hdefn
              rw [hdefn]
              rfl
            · rfl
          exact ⟨rfl, by rw [List.filterMap_cons, hgone]⟩
      | some defn =>
          obtain rfl : b = true := by
            cases b with
            | true => rfl
            | false => cases hdefn
          have hexpansion : getexpansion conf mac.cmd = some defn := hdefn
          obtain ⟨copy, h₂, hcopy, hcases, hcopied⟩ := strdup_returns defn h₁
          obtain ⟨l, h', hrun, hsub, hoffered, hall⟩ := ih h₂
          dsimp only
          rw [Prog.bind_of_ok hcopy, Prog.bind_of_ok hrun]
          refine ⟨_, _, rfl, hsub.cons_cons _, fun mac' hmac' => ?_, fun hwilling => ?_⟩
          · rcases List.mem_cons.1 hmac' with rfl | hmac'
            · exact ⟨hmem rfl, defn, hexpansion, hcases⟩
            · exact hoffered mac' hmac'
          · obtain ⟨rfl, -⟩ := hb hwilling
            obtain ⟨rfl, rfl⟩ := hcopied hwilling
            obtain ⟨rfl, rfl⟩ := hall hwilling
            have hkept : updated conf inlist mac = some ⟨mac.cmd, some defn⟩ := by
              rw [updated, if_pos (hmem rfl), hexpansion]
              rfl
            exact ⟨rfl, by rw [List.filterMap_cons, hkept]⟩

/-- A macro that is to be there, up to a definition that could not be copied. -/
def Current (conf : Modparms) (mac : Macro) : Prop :=
  ∃ want, wanted conf mac.cmd = some want ∧ (mac.defn = none ∨ mac.defn = want.defn)

/-- The macros agree with the configuration: each word has one, none is out of date, and with
memory none is missing. -/
structure Synced (conf : Modparms) (h : Heap) (l : List Macro) : Prop where
  unique : Keyed.Unique Macro.cmd l
  current : ∀ mac ∈ l, Current conf mac
  complete : h.refuse = [] → ∀ cmd, macroFind l cmd = wanted conf cmd

/-- Definitions are C strings. -/
theorem Current.defn_zero {mac : Macro} (hcurrent : Current conf mac) (hdefn : mac.defn = some defn) : 0 ∉ defn := by
  obtain ⟨want, hwanted, hcases⟩ := hcurrent
  obtain hnone | hsome := hcases
  · rw [hdefn] at hnone
    cases hnone
  rw [hdefn] at hsome
  rw [wanted] at hwanted
  split at hwanted
  · split at hwanted
    · cases hwanted
      cases hsome
      decide
    · cases hwanted
  · split at hwanted
    · obtain ⟨expansion, hexpansion, rfl⟩ := Option.map_eq_some_iff.1 hwanted
      cases hsome
      obtain ⟨val, -, rfl⟩ := Option.map_eq_some_iff.1 hexpansion
      exact Naf.cstring_zero val
    · cases hwanted

theorem updated_cmd : ∀ mac mac', updated conf inlist mac = some mac' → mac'.cmd = mac.cmd := by
  intro mac mac' h
  rw [updated] at h
  split at h
  · obtain ⟨defn, -, rfl⟩ := Option.map_eq_some_iff.1 h
    rfl
  · cases h

/-- With memory the macros are those that are listed and have an expansion. -/
theorem find_updated {conflist : CStr} (hlist : conf (lit "usemacros") = some conflist)
    (hunique : Keyed.Unique Macro.cmd macrolist)
    (hall : ∀ cmd ∈ tokens conflist, (getexpansion conf cmd).isSome → (macroFind macrolist cmd).isSome) :
    macroFind (macrolist.filterMap (updated conf conflist)) cmd = wanted conf cmd := by
  rw [macroFind, hunique.entry_filterMap updated_cmd, wanted, hlist]
  dsimp only
  cases hfind : Keyed.entry Macro.cmd macrolist cmd with
  | some mac =>
      obtain ⟨-, rfl⟩ := Keyed.entry_some hfind
      rfl
  | none =>
      have hnotfound : macroFind macrolist cmd = none := hfind
      split
      · cases hexpansion : getexpansion conf cmd with
        | none => rfl
        | some defn =>
            have hsome := hall cmd ‹_› (by rw [hexpansion]; rfl)
            rw [hnotfound] at hsome
            cases hsome
      · rfl

/-- Without a configuration there is `help`, if it can be allocated. -/
theorem defaults_synced (hnone : conf (lit "usemacros") = none) (h : Heap) :
    ∃ l h', macroAdddefaults [] h = .ok (l, h') ∧ Synced conf h l := by
  have hwanted (cmd : CStr) :
      wanted conf cmd = if cmd = lit "help" then some ⟨cmd, some (lit "call rpc->help")⟩ else none := by
    rw [wanted, hnone]
  obtain ⟨l, h', hadd, hl, hadded⟩ := macroAdd_returns [] (lit "help") (lit "call rpc->help") h
  refine ⟨l, h', hadd, ?_⟩
  obtain rfl | ⟨hfind, rfl⟩ := hl
  · exact ⟨.nil, fun _ h => (nomatch h), fun hwilling => absurd (hadded hwilling).2 Bool.false_ne_true⟩
  · refine ⟨Keyed.Unique.nil.cons rfl, fun mac hmac => ?_, fun _ cmd => ?_⟩
    · obtain rfl := List.mem_singleton.1 hmac
      exact ⟨⟨lit "help", some (lit "call rpc->help")⟩, (hwanted _).trans (if_pos rfl), .inr rfl⟩
    · rw [hwanted, macroFind, Keyed.entry_cons]
      by_cases hcmd : cmd = lit "help"
      · subst hcmd
        rw [if_pos rfl]
        exact Function.update_self ..
      · rw [if_neg hcmd, Function.update_of_ne hcmd]
        rfl

theorem macroSyncconf_synced (conf : Modparms) (hunique : Keyed.Unique Macro.cmd macrolist) (h : Heap) :
    ∃ l h', macroSyncconf conf macrolist h = .ok (l, h') ∧ Synced conf h l := by
  unfold macroSyncconf
  cases hlist : conf (lit "usemacros") with
  | none => exact defaults_synced hlist h
  | some conflist =>
      obtain ⟨l₁, h₁, hadd, hunique₁, hadded⟩ := addnew_returns conf conflist hunique h
      obtain ⟨l, h', hupdate, hsub, hoffered, hkept⟩ := updateold_returns conf conflist l₁ h₁
      dsimp only
      rw [Prog.bind_of_ok hadd]
      refine ⟨l, h', hupdate, List.Nodup.sublist hsub hunique₁, fun mac hmac => ?_, fun hwilling cmd => ?_⟩
      · obtain ⟨hmem, defn, hexpansion, hdefn⟩ := hoffered mac hmac
        refine ⟨⟨mac.cmd, some defn⟩, ?_, hdefn⟩
        rw [wanted, hlist]
        dsimp only
        rw [if_pos hmem, hexpansion]
        rfl
      · obtain ⟨rfl, hall⟩ := hadded hwilling
        obtain ⟨-, rfl⟩ := hkept hwilling
        exact find_updated hlist hunique₁ hall

end

end Timps.Nafconsole
