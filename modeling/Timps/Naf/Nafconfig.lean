-- SUMMARY: The parameter store, and reading configuration files into it.
import Mathlib.Data.List.Induction
import Mathlib.Data.List.Sigma
import Timps.Naf.Creadln

/-!
# Configuration

Parameters are kept in a list under flat names: a parameter of a module is called
`module.<module>.<parameter>`. Setting one removes it and puts it in front. A configuration
file is read line by line, with the name of the section carried from line to line.
-/

namespace Timps.Naf.Nafconfig

open Prog (bind_of_ok)

/-! ## The store -/

/-- `struct parm_s` -/
abbrev Parm := (_ : CStr) × CStr

/-- The static variables of `nafconfig.c`, and the heap. -/
structure Config where
  heap : Heap
  parmlist : List Parm
  conffilename : Option CStr

abbrev Conf := Prog Fault Config

def mem {α : Type} (x : Mem α) : Conf α := Prog.focus Config.heap (fun h w => { w with heap := h }) x

def allocparm (parm : CStr) : Mem (Option CStr) := do
  -- sizeof(struct parm_s)
  match ← malloc 24 with
  | none => pure none
  | some _ => strdup parm

/-- `remparm` and `freeparm` -/
def remparm (parm : CStr) : Conf Unit := Prog.update fun w => { w with parmlist := w.parmlist.kerase parm }

/-- A `none` unsets the parameter. The event at the end tells the modules. -/
def setparm (parm : CStr) (data : Option CStr) : Conf Bool := do
  remparm parm
  match data with
  | none => pure true
  | some data => do
      match ← mem (allocparm parm) with
      | none => pure false
      | some parm => do
          match ← mem (strdup data) with
          | none => pure false
          | some val => do
              Prog.update fun w => { w with parmlist := ⟨parm, val⟩ :: w.parmlist }
              pure true

def getparmstr (w : Config) (parm : CStr) : Option CStr := w.parmlist.dlookup parm

/-- `snprintf` into a `char [MAXLINELEN+1]` -/
def getmodparmraw (w : Config) (modname parm : CStr) : Option CStr :=
  getparmstr w ((lit "module." ++ modname ++ lit "." ++ parm).take maxlinelen)

/-! ## Reading a file -/

/-- `secname` and `modname` -/
structure Section where
  secname : CStr
  modname : CStr
  deriving DecidableEq

def nextnonwhite (s : CStr) : CStr := s.dropWhile fun c => c = 32 ∨ c = 9

/-- A section header, behind its bracket. Names that are part of a line fit their buffers. -/
def sectionline (linestart : CStr) : Section :=
  match cutAt 93 linestart with
  | none => ⟨[], []⟩
  | some (secname, _) =>
      match cutAt 61 secname with
      | none => ⟨secname, []⟩
      | some (secname, modname) => ⟨secname, modname⟩

/-- A declaration, cut at its first `=`. -/
def parmline (sec : Section) (parm val : CStr) : Conf Unit := do
  let val := if val = [] then none else some val
  if sec.secname = lit "site" then do
    let _ ← setparm ((lit "site." ++ parm).take maxlinelen) val
  else if sec.secname = lit "module" ∧ sec.modname ≠ [] then do
    let _ ← setparm ((lit "module." ++ sec.modname ++ lit "." ++ parm).take maxlinelen) val
  else pure ()

/-- One round of the loop in `readconfig`: the section that the next line is in. -/
def configline (incl : CStr → Conf Unit) (line : CStr) (sec : Section) : Conf Section :=
  match nextnonwhite line with
  | [] => pure sec
  | c :: rest =>
      if c = 59 then pure sec
      else if c = 33 then do
        if (lit "include ").isPrefixOf rest then incl (rest.drop 8) else pure ()
        pure sec
      else if c = 91 then pure (sectionline rest)
      else
        match cutAt 61 (c :: rest) with
        | none => pure sec
        | some (parm, val) => do
            if parm = [] then pure () else parmline sec parm val
            pure sec

/-- The loop in `readconfig`. -/
def configlines (incl : CStr → Conf Unit) : Nat → File → Block → Section → Conf Unit
  | 0, _, _, _ => Prog.fault .diverge
  | fuel + 1, file, line, sec => do
      let (n, file, line) ← mem (creadln file line (maxlinelen + 1))
      if n < 0 then pure ()
      else do
        let sec ← configline incl line.string sec
        configlines incl fuel file line sec

/-- The name of the file to read: the one given, and otherwise the one that was read last. -/
def conffile (cfn : Option CStr) (including : Bool) : Conf (Option CStr) := do
  if including then pure cfn
  else
    match cfn with
    | some cfn => do
        let name ← mem (strdup cfn)
        Prog.update fun w => { w with conffilename := name }
        pure (some cfn)
    | none => Prog.read fun w => w.conffilename

/-- With so many file descriptors left. A file that is read keeps one of them. -/
def readconfig (fopen : CStr → Option Bytes) : Nat → Option CStr → Bool → Conf Int
  | 0, cfn, including => do
      let _ ← conffile cfn including
      pure (-1)
  | descriptors + 1, cfn, including => do
      match (← conffile cfn including).bind fopen with
      | none => pure (-1)
      | some content => do
          let line ← Prog.read fun w => (⟨maxlinelen + 1, w.heap.junk (maxlinelen + 1)⟩ : Block)
          let incl := fun linestart => do
            let _ ← readconfig fopen descriptors (some linestart) true
          configlines incl (content.length + 2) ⟨content, false⟩ line ⟨[], []⟩
          pure 0

/-! ## Setting a parameter -/

section

variable {w : Config} {parm val : CStr}

theorem mem_of_ok {α : Type} {x : Mem α} {a : α} (hx : x w.heap = .ok (a, w.heap)) : mem x w = .ok (a, w) := by
  rw [mem, Prog.focus_of_ok hx]

theorem allocparm_of_willing {h : Heap} (hh : h.refuse = []) : allocparm parm h = .ok (some parm, h) := by
  rw [allocparm, bind_of_ok (malloc_of_willing hh)]
  exact strdup_of_willing hh

/-- With memory enough a parameter replaces the one of its name. -/
theorem setparm_eq (hw : w.heap.refuse = []) :
    setparm parm (some val) w = .ok (true, { w with parmlist := w.parmlist.kinsert parm val }) := by
  generalize hremoved : ({ w with parmlist := w.parmlist.kerase parm } : Config) = w₁
  have hw₁ : w₁.heap.refuse = [] := by rw [← hremoved]; exact hw
  have hrem : remparm parm w = .ok ((), w₁) := by rw [← hremoved]; rfl
  rw [setparm, bind_of_ok hrem, bind_of_ok (mem_of_ok (allocparm_of_willing hw₁))]
  dsimp only
  rw [bind_of_ok (mem_of_ok (strdup_of_willing hw₁)), ← hremoved]
  rfl

end

/-! ## Files -/

/-- The value of the last of these assignments to a parameter. -/
def lastOf (l : List (CStr × CStr)) (parm : CStr) : Option CStr :=
  ((l.filter fun a => a.1 = parm).getLast?).map Prod.snd

def assign (store : List Parm) (a : CStr × CStr) : List Parm := store.kinsert a.1 a.2

theorem nodupKeys_foldl_assign {l : List (CStr × CStr)} {store : List Parm} (hstore : store.NodupKeys) :
    (l.foldl assign store).NodupKeys := by
  induction l generalizing store with
  | nil => exact hstore
  | cons a l ih => exact ih (List.kinsert_nodupKeys a.1 a.2 hstore)

/-- A store answers with the last assignment, and otherwise with what it held before. -/
theorem dlookup_foldl_assign (l : List (CStr × CStr)) (store : List Parm) (parm : CStr) :
    (l.foldl assign store).dlookup parm = (lastOf l parm).or (store.dlookup parm) := by
  induction l using List.reverseRecOn with
  | nil => rfl
  | append_singleton l a ih =>
      rw [List.foldl_append, List.foldl_cons, List.foldl_nil, assign]
      by_cases hname : a.1 = parm
      · have hlast : lastOf (l ++ [a]) parm = some a.2 := by
          simp [lastOf, List.filter_append, hname]
        rw [hlast, ← hname, List.dlookup_kinsert]
        rfl
      · have hlast : lastOf (l ++ [a]) parm = lastOf l parm := by
          simp [lastOf, List.filter_append, hname]
        rw [hlast, List.dlookup_kinsert_ne (Ne.symm hname), ih]

/-- `module.<modname>.<parm>` -/
def fullname (modname parm : CStr) : CStr := lit "module." ++ modname ++ lit "." ++ parm

inductive Entry where
  | assignment (parm val : CStr)
  | skipped (line : CStr)

/-- A blank line or a comment. -/
def Skipped (line : CStr) : Prop := nextnonwhite line = [] ∨ ∃ t, nextnonwhite line = 59 :: t

namespace Entry

def line : Entry → CStr
  | assignment parm val => parm ++ lit "=" ++ val
  | skipped line => line

def Ok (modname : CStr) : Entry → Prop
  | assignment parm val =>
      (∃ c s, parm = c :: s ∧ c ∉ ([32, 9, 59, 33, 91] : CStr)) ∧ 61 ∉ parm ∧ val ≠ [] ∧
        (fullname modname parm).length ≤ maxlinelen
  | skipped line => Skipped line

def assignments (modname : CStr) : Entry → List (CStr × CStr)
  | assignment parm val => [(fullname modname parm, val)]
  | skipped _ => []

end Entry

/-- A section of a module, with what stands between its header and the next one. -/
structure Modsection where
  modname : CStr
  body : List Entry

namespace Modsection

def lines (s : Modsection) : List CStr := (lit "[module=" ++ s.modname ++ lit "]") :: s.body.map Entry.line

structure Ok (s : Modsection) : Prop where
  ne_nil : s.modname ≠ []
  bracket : 93 ∉ s.modname
  body : ∀ e ∈ s.body, e.Ok s.modname

def assignments (s : Modsection) : List (CStr × CStr) := s.body.flatMap (Entry.assignments s.modname)

end Modsection

/-! ## Lines -/

section

variable {incl : CStr → Conf Unit} {w : Config} {sec : Section} {modname : CStr}

/-- A blank line or a comment changes nothing. -/
theorem configline_skipped {line : CStr} (hline : Skipped line) : configline incl line sec w = .ok (sec, w) := by
  unfold configline
  rcases hline with hblank | ⟨t, hcomment⟩
  · rw [hblank]
    rfl
  · rw [hcomment]
    rfl

/-- A section line names the section for the lines behind it. -/
theorem configline_section (hbracket : 93 ∉ modname) :
    configline incl (lit "[module=" ++ modname ++ lit "]") sec w = .ok (⟨lit "module", modname⟩, w) := by
  have hline : nextnonwhite (lit "[module=" ++ modname ++ lit "]") = 91 :: (lit "module=" ++ modname ++ [93]) := rfl
  have hcut : cutAt 93 (lit "module=" ++ modname ++ [93]) = some (lit "module=" ++ modname, []) := by
    refine cutAt_append [] fun hmem => ?_
    rcases List.mem_append.1 hmem with hmem | hmem
    · exact absurd hmem (by decide)
    · exact hbracket hmem
  have hname : cutAt 61 (lit "module=" ++ modname) = some (lit "module", modname) :=
    cutAt_append modname (show (61 : UInt8) ∉ lit "module" by decide)
  unfold configline
  rw [hline]
  dsimp only
  rw [if_neg (by decide), if_neg (by decide), if_pos rfl, sectionline, hcut]
  dsimp only
  rw [hname]
  rfl

/-- A line in a section of a module sets a parameter under its full name. -/
theorem configline_assignment {parm val : CStr} (hw : w.heap.refuse = []) (hmod : modname ≠ [])
    (hok : (Entry.assignment parm val).Ok modname) :
    configline incl (Entry.assignment parm val).line ⟨lit "module", modname⟩ w =
      .ok (⟨lit "module", modname⟩, { w with parmlist := assign w.parmlist (fullname modname parm, val) }) := by
  obtain ⟨⟨c, s, hparm, hc⟩, heq, hval, hlen⟩ := hok
  simp only [List.mem_cons, List.not_mem_nil, or_false, not_or] at hc
  obtain ⟨h32, h9, h59, h33, h91⟩ := hc
  have hline : nextnonwhite (parm ++ lit "=" ++ val) = c :: (s ++ lit "=" ++ val) := by
    rw [hparm]
    simp [nextnonwhite, h32, h9]
  have hcut : cutAt 61 (c :: (s ++ lit "=" ++ val)) = some (parm, val) := by
    have hsplit : c :: (s ++ lit "=" ++ val) = parm ++ 61 :: val := by
      rw [hparm, List.append_assoc]
      rfl
    rw [hsplit, cutAt_append val heq]
  have hparmline : parmline ⟨lit "module", modname⟩ parm val w =
      .ok ((), { w with parmlist := assign w.parmlist (fullname modname parm, val) }) := by
    have htake : (lit "module." ++ modname ++ lit "." ++ parm).take maxlinelen = fullname modname parm :=
      List.take_of_length_le hlen
    rw [parmline, if_neg hval, if_neg (show ¬lit "module" = lit "site" by decide), if_pos ⟨rfl, hmod⟩, htake,
      bind_of_ok (setparm_eq hw)]
    rfl
  have hne : parm ≠ [] := by
    rw [hparm]
    exact List.cons_ne_nil _ _
  unfold configline
  rw [Entry.line, hline]
  dsimp only
  rw [if_neg h59, if_neg h33, if_neg h91, hcut]
  dsimp only
  rw [if_neg hne, bind_of_ok hparmline]
  rfl

/-! ## Whole files -/

/-- The rounds of the loop, for the lines of a file. -/
def runlines (incl : CStr → Conf Unit) : List CStr → Section → Conf Section
  | [], sec => pure sec
  | line :: lines, sec => do
      let sec ← configline incl line sec
      runlines incl lines sec

theorem configlines_eof {rest : Bytes} {line : Block} {fuel : Nat} (hpos : 0 < line.size) :
    configlines incl (fuel + 1) ⟨rest, true⟩ line sec = pure () := by
  funext w
  rw [configlines, bind_of_ok (mem_of_ok (creadln_eof hpos _))]
  rfl

/-- Reading goes over the lines that are delivered, one by one. -/
theorem configlines_eq {content : Bytes} {line : Block} {fuel : Nat} (h0 : 0 ∉ content)
    (hsize : line.size = maxlinelen + 1) (hfits : ∀ l ∈ delivered content, l.length ≤ maxlinelen)
    (hfuel : content.length + 1 < fuel) :
    configlines incl fuel ⟨content, false⟩ line sec w =
      (runlines incl (delivered content) sec >>= fun _ => pure ()) w := by
  induction fuel generalizing content line sec w with
  | zero => omega
  | succ fuel ih =>
      rcases delivered_cases content with ⟨l, rest, rfl, hl, hlines, -⟩ | ⟨hl, hlines, -⟩
      · rw [List.mem_append, List.mem_cons, not_or, not_or] at h0
        rw [hlines] at hfits ⊢
        have hlt : (unreturned l).length < line.size := hsize ▸ Nat.lt_succ_of_le (hfits _ List.mem_cons_self)
        obtain ⟨line', hread, hsize', hstring⟩ := creadln_newline (h := w.heap) h0.1 hl hlt (maxlinelen + 1)
        rw [List.length_append, List.length_cons] at hfuel
        have hrest : (fun sec => configlines incl fuel ⟨rest, false⟩ line' sec) =
            fun sec => runlines incl (delivered rest) sec >>= fun _ => pure () := by
          funext sec w
          exact ih h0.2.2 (hsize'.trans hsize) (fun l hl => hfits l (List.mem_cons_of_mem _ hl)) (by omega)
        rw [configlines, bind_of_ok (mem_of_ok hread)]
        dsimp only
        rw [if_neg (by omega), hstring, hrest, runlines, bind_assoc]
      · rw [hlines] at hfits ⊢
        have hlt : (unreturned content).length < line.size :=
          hsize ▸ Nat.lt_succ_of_le (hfits _ List.mem_cons_self)
        obtain ⟨line', hread, hsize', hstring⟩ := creadln_last (h := w.heap) h0 hl hlt (maxlinelen + 1)
        obtain ⟨fuel, rfl⟩ : ∃ n, fuel = n + 1 := ⟨fuel - 1, by omega⟩
        have hrest : (fun sec => configlines incl (fuel + 1) ⟨[], true⟩ line' sec) = fun _ => pure () := by
          funext sec
          exact configlines_eof (by omega)
        rw [configlines, bind_of_ok (mem_of_ok hread)]
        dsimp only
        rw [if_neg (by omega), hstring, hrest, runlines, bind_assoc]
        rfl

/-! ### What sections leave in the store -/

/-- The configuration with a store. -/
def Config.withStore (w : Config) (store : List Parm) : Config := { w with parmlist := store }

/-- Lines behind others start with the section that those left. -/
theorem runlines_append (l₁ l₂ : List CStr) {sec' : Section} {w' : Config}
    (hfirst : runlines incl l₁ sec w = .ok (sec', w')) :
    runlines incl (l₁ ++ l₂) sec w = runlines incl l₂ sec' w' := by
  induction l₁ generalizing sec w with
  | nil =>
      cases Prog.pure_ok.1 hfirst
      rfl
  | cons line l₁ ih =>
      rw [runlines, Prog.bind_ok] at hfirst
      obtain ⟨sec₁, w₁, hline, hrest⟩ := hfirst
      rw [List.cons_append, runlines, bind_of_ok hline]
      exact ih hrest

theorem runlines_skipped {l : List CStr} (hl : ∀ line ∈ l, Skipped line) :
    runlines incl l sec w = .ok (sec, w) := by
  induction l with
  | nil => rfl
  | cons line l ih =>
      rw [runlines, bind_of_ok (configline_skipped (hl line List.mem_cons_self))]
      exact ih fun line hline => hl line (List.mem_cons_of_mem _ hline)

/-- The lines of a section set its parameters one after the other. -/
theorem runlines_body {body : List Entry} (hw : w.heap.refuse = []) (hmod : modname ≠ [])
    (hbody : ∀ e ∈ body, e.Ok modname) :
    runlines incl (body.map Entry.line) ⟨lit "module", modname⟩ w =
      .ok (⟨lit "module", modname⟩,
        w.withStore ((body.flatMap (Entry.assignments modname)).foldl assign w.parmlist)) := by
  induction body generalizing w with
  | nil => rfl
  | cons e body ih =>
      have hrest : ∀ e ∈ body, e.Ok modname := fun e he => hbody e (List.mem_cons_of_mem _ he)
      have hok := hbody e List.mem_cons_self
      rw [List.map_cons, runlines, List.flatMap_cons, List.foldl_append]
      cases e with
      | assignment parm val =>
          rw [bind_of_ok (configline_assignment hw hmod hok)]
          exact ih hw hrest
      | skipped line =>
          rw [Entry.line, bind_of_ok (configline_skipped hok)]
          exact ih hw hrest

/-- A section after the other sets its parameters, in their order. -/
theorem runlines_sections {sects : List Modsection} (incl : CStr → Conf Unit) (sec : Section) {w : Config}
    (hw : w.heap.refuse = []) (hsects : ∀ s ∈ sects, s.Ok) :
    ∃ sec', runlines incl (sects.flatMap Modsection.lines) sec w =
      .ok (sec', w.withStore ((sects.flatMap Modsection.assignments).foldl assign w.parmlist)) := by
  induction sects generalizing sec w with
  | nil => exact ⟨sec, rfl⟩
  | cons s sects ih =>
      have hok := hsects s List.mem_cons_self
      have hone : runlines incl s.lines sec w = .ok (⟨lit "module", s.modname⟩,
          w.withStore (s.assignments.foldl assign w.parmlist)) := by
        rw [Modsection.lines, runlines, bind_of_ok (configline_section hok.bracket)]
        exact runlines_body hw hok.ne_nil hok.body
      have hw' : (w.withStore (s.assignments.foldl assign w.parmlist)).heap.refuse = [] := hw
      obtain ⟨sec', hrest⟩ := ih ⟨lit "module", s.modname⟩ hw' fun s hs => hsects s (List.mem_cons_of_mem _ hs)
      refine ⟨sec', ?_⟩
      rw [List.flatMap_cons, runlines_append _ _ hone, hrest, List.flatMap_cons, List.foldl_append]
      rfl

end

/-- A file of comments and module sections adds its assignments to the store. -/
theorem readconfig_eq {fopen : CStr → Option Bytes} {cfn : CStr} {content : Bytes} {top : List CStr}
    {sects : List Modsection} {w : Config} (descriptors : Nat) (hw : w.heap.refuse = [])
    (hopen : fopen cfn = some content) (h0 : 0 ∉ content) (hfits : ∀ l ∈ lines content, l.length ≤ maxlinelen)
    (hcontent : lines content = top ++ sects.flatMap Modsection.lines) (htop : ∀ l ∈ top, Skipped l)
    (hsects : ∀ s ∈ sects, s.Ok) :
    readconfig fopen (descriptors + 1) (some cfn) false w = .ok (0,
      { w with conffilename := some cfn
               parmlist := (sects.flatMap Modsection.assignments).foldl assign w.parmlist }) := by
  generalize hnamed : ({ w with conffilename := some cfn } : Config) = w₁
  have hheap : w₁.heap = w.heap := by rw [← hnamed]
  have hw₁ : w₁.heap.refuse = [] := by rw [hheap, hw]
  have hfile : conffile (some cfn) false w = .ok (some cfn, w₁) := by
    rw [conffile, if_neg Bool.false_ne_true, bind_of_ok (mem_of_ok (strdup_of_willing hw)), ← hnamed]
    rfl
  generalize hincl : (fun linestart => do
    let _ ← readconfig fopen descriptors (some linestart) true : CStr → Conf Unit) = incl
  obtain ⟨sec', hrun⟩ := runlines_sections incl ⟨[], []⟩ hw₁ hsects
  -- the empty line that may be delivered behind the last one is skipped
  have hend : ∀ l ∈ (if Closed content then [[]] else [] : List CStr), Skipped l := by
    intro l hl
    split at hl
    · rw [List.mem_singleton.1 hl]
      exact .inl rfl
    · cases hl
  have hdelivered : ∀ l ∈ delivered content, l.length ≤ maxlinelen := by
    intro l hl
    rw [delivered_eq] at hl
    rcases List.mem_append.1 hl with hl | hl
    · exact hfits l hl
    · split at hl
      · rw [List.mem_singleton.1 hl]
        exact Nat.zero_le _
      · cases hl
  have hall : runlines incl (delivered content) ⟨[], []⟩ w₁ =
      .ok (sec', w₁.withStore ((sects.flatMap Modsection.assignments).foldl assign w₁.parmlist)) := by
    rw [delivered_eq, hcontent, List.append_assoc, runlines_append _ _ (runlines_skipped htop),
      runlines_append _ _ hrun, runlines_skipped hend]
  have hlines : configlines incl (content.length + 2) ⟨content, false⟩
      ⟨maxlinelen + 1, w₁.heap.junk (maxlinelen + 1)⟩ ⟨[], []⟩ w₁ =
        .ok ((), w₁.withStore ((sects.flatMap Modsection.assignments).foldl assign w₁.parmlist)) := by
    rw [configlines_eq h0 rfl hdelivered (Nat.lt_succ_self _), bind_of_ok hall]
    rfl
  rw [readconfig, bind_of_ok hfile, Option.bind_some, hopen]
  dsimp only
  have hline : (Prog.read fun w => (⟨maxlinelen + 1, w.heap.junk (maxlinelen + 1)⟩ : Block) : Conf Block) w₁ =
      .ok (⟨maxlinelen + 1, w₁.heap.junk (maxlinelen + 1)⟩, w₁) := rfl
  rw [bind_of_ok hline, hincl, bind_of_ok hlines, ← hnamed]
  rfl

/-- A file that is written line by line has these lines. -/
theorem lines_written {l : List CStr} (hne : l ≠ []) (hl : ∀ line ∈ l, 10 ∉ line ∧ 13 ∉ line)
    (hopen : ¬Closed ([10].intercalate l)) : lines ([10].intercalate l) = l := by
  have hkept : ∀ line ∈ l, unreturned line = line := fun line hline =>
    List.filter_eq_self.2 fun c hc => by
      have hne : c ≠ 13 := ne_of_mem_of_not_mem hc (hl line hline).2
      simpa using hne
  rw [lines, if_neg hopen, List.splitOn_intercalate 10 (fun line hline => (hl line hline).1) hne]
  exact (List.map_congr_left hkept).trans (List.map_id l)

/-- After reading a parameter has the value of the last line with its full name, and otherwise
the value it had; and no name occurs twice. -/
theorem last_line_wins {fopen : CStr → Option Bytes} {cfn : CStr} {content : Bytes} {top : List CStr}
    {sects : List Modsection} {w : Config} (descriptors : Nat) (hw : w.heap.refuse = [])
    (hopen : fopen cfn = some content) (h0 : 0 ∉ content) (hfits : ∀ l ∈ lines content, l.length ≤ maxlinelen)
    (hcontent : lines content = top ++ sects.flatMap Modsection.lines) (htop : ∀ l ∈ top, Skipped l)
    (hsects : ∀ s ∈ sects, s.Ok) (hstore : w.parmlist.NodupKeys) :
    ∃ w', readconfig fopen (descriptors + 1) (some cfn) false w = .ok (0, w') ∧ w'.parmlist.NodupKeys ∧
      (∀ parm, getparmstr w' parm = (lastOf (sects.flatMap Modsection.assignments) parm).or (getparmstr w parm)) ∧
      ∀ modname parm, (fullname modname parm).length ≤ maxlinelen → getmodparmraw w' modname parm =
        (lastOf (sects.flatMap Modsection.assignments) (fullname modname parm)).or
          (getmodparmraw w modname parm) := by
  refine ⟨_, readconfig_eq descriptors hw hopen h0 hfits hcontent htop hsects, nodupKeys_foldl_assign hstore,
    fun parm => dlookup_foldl_assign _ _ _, fun modname parm hlen => ?_⟩
  have htake : (lit "module." ++ modname ++ lit "." ++ parm).take maxlinelen = fullname modname parm :=
    List.take_of_length_le hlen
  rw [getmodparmraw, getmodparmraw, htake]
  exact dlookup_foldl_assign _ _ _

/-- A store without parameters. -/
def emptied : Config := { heap := .zeroed, parmlist := [], conffilename := none }

/-- The parameter `c` of `a.b`, and the parameter `b.c` of `a`. -/
def dotted : List Modsection :=
  [⟨lit "a.b", [.assignment (lit "c") (lit "1")]⟩, ⟨lit "a", [.assignment (lit "b.c") (lit "2")]⟩]

def dottedfile : Bytes := [10].intercalate (dotted.flatMap Modsection.lines)

theorem dotted_ok : ∀ s ∈ dotted, s.Ok := by
  intro s hs
  simp only [dotted, List.mem_cons, List.not_mem_nil, or_false] at hs
  rcases hs with rfl | rfl
  · refine ⟨by decide, by decide, fun e he => ?_⟩
    obtain rfl := List.mem_singleton.1 he
    exact ⟨⟨_, _, rfl, by decide⟩, by decide, by decide, by decide⟩
  · refine ⟨by decide, by decide, fun e he => ?_⟩
    obtain rfl := List.mem_singleton.1 he
    exact ⟨⟨_, _, rfl, by decide⟩, by decide, by decide, by decide⟩

theorem lines_dottedfile : lines dottedfile = [] ++ dotted.flatMap Modsection.lines :=
  lines_written (by decide) (by decide) (by decide)

/-- The second section gives the parameter of the first one a value. -/
theorem last_line_wins_dotted :
    ∃ w', readconfig (fun _ => some dottedfile) 1 (some (lit "f")) false emptied = .ok (0, w') ∧
      dottedfile = lit "[module=a.b]\nc=1\n[module=a]\nb.c=2" ∧
      getmodparmraw w' (lit "a.b") (lit "c") = some (lit "2") := by
  have hfits : ∀ l ∈ lines dottedfile, l.length ≤ maxlinelen := by
    rw [lines_dottedfile]
    decide
  exact ⟨_, readconfig_eq 0 rfl rfl (by decide) hfits lines_dottedfile (List.forall_mem_nil _) dotted_ok, rfl,
    by decide⟩

theorem last_line_wins_sections :
    ∃ w', readconfig (fun _ => some dottedfile) 1 (some (lit "f")) false emptied = .ok (0, w') ∧
      w'.parmlist.NodupKeys ∧
      (∀ parm, getparmstr w' parm =
        (lastOf (dotted.flatMap Modsection.assignments) parm).or (getparmstr emptied parm)) ∧
      ∀ modname parm, (fullname modname parm).length ≤ maxlinelen → getmodparmraw w' modname parm =
        (lastOf (dotted.flatMap Modsection.assignments) (fullname modname parm)).or
          (getmodparmraw emptied modname parm) :=
  last_line_wins 0 rfl rfl (by decide) (by rw [lines_dottedfile]; decide) lines_dottedfile (List.forall_mem_nil _)
    dotted_ok List.nodupKeys_nil

end Timps.Naf.Nafconfig
