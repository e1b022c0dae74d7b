-- SUMMARY: Reading a configuration file line by line, and where the line is stored.
import Timps.Naf.Cstring

/-!
# Lines of a configuration file

A file is read byte by byte into the buffer of the caller. Carriage returns are dropped. The end of the
file is found by a read that gives nothing, which ends a line as a newline does: behind a final
newline one more line is delivered, an empty one. The length of the buffer is passed along and never
looked at.
-/

namespace Timps.Naf

open Prog (bind_of_error bind_of_ok)

/-- What is left of a `FILE`, and its end-of-file flag. -/
structure File where
  rest : Bytes
  eof : Bool

def maxlinelen : Nat := 512

/-- The loop of `creadln`: `p` is where the buffer pointer has got to. -/
def creadlnFrom (p count : Nat) : Bytes → Block → Mem (Int × File × Block)
  | [], buf => do
      let buf ← buf.store p [0]
      pure (count, ⟨[], true⟩, buf)
  | c :: rest, buf => do
      let buf ← buf.store p [c]
      if c = 0 then do
        let buf ← buf.store p [0]
        pure (-1, ⟨rest, false⟩, buf)
      else if c = 13 then do
        let buf ← buf.store p [0]
        creadlnFrom p count rest buf
      else if c = 10 then do
        let buf ← buf.store p [0]
        pure (count, ⟨rest, false⟩, buf)
      else creadlnFrom (p + 1) (count + 1) rest buf

/-- The length of the buffer is not used. -/
def creadln (file : File) (buf : Block) (_buflen : Nat) : Mem (Int × File × Block) :=
  if file.eof then do
    let buf ← buf.store 0 [0]
    pure (-1, file, buf)
  else creadlnFrom 0 0 file.rest buf

/-- Calls of `creadln` until one fails: what each of them returned and left in the buffer, and
the value of the last. Each of them reads a byte, or sets the end-of-file flag or finds it set. -/
def readlines : Nat → File → Block → Nat → Mem (List (Int × CStr) × Int)
  | 0, _, _, _ => Prog.fault .diverge
  | fuel + 1, file, buf, buflen => do
      let (n, file, buf) ← creadln file buf buflen
      if n < 0 then pure ([], n)
      else do
        let (l, e) ← readlines fuel file buf buflen
        pure ((n, buf.string) :: l, e)

/-! ## Bounds -/

/-- The number of characters up to the end of the line that are kept. -/
def lineLength (rest : Bytes) : Nat :=
  ((rest.takeWhile fun c => c ≠ 10 ∧ c ≠ 0).filter fun c => c ≠ 13).length

/-- The next line fits into so many bytes. -/
def File.Fits (file : File) (buflen : Nat) : Prop :=
  if file.eof then 0 < buflen else lineLength file.rest < buflen

instance (file : File) (buflen : Nat) : Decidable (file.Fits buflen) := by
  unfold File.Fits
  infer_instance

section

variable {p count : Nat} {c : UInt8} {rest : Bytes} {buf : Block} {h : Heap}

theorem store_in_bounds (hp : p < buf.size) : buf.store p [c] h = .ok (buf.fill p [c], h) :=
  Block.store_of_le hp

theorem store_out_of_bounds (hp : buf.size ≤ p) : buf.store p [c] h = .error .outOfBounds :=
  if_neg (Nat.not_le.2 (Nat.lt_succ_of_le hp))

theorem lineLength_cr : lineLength (13 :: rest) = lineLength rest := rfl

/-- Any other byte is one more to store. -/
theorem lineLength_char (h0 : c ≠ 0) (h13 : c ≠ 13) (h10 : c ≠ 10) :
    lineLength (c :: rest) = lineLength rest + 1 := by
  simp [lineLength, h0, h13, h10]

/-- The loop stores up to the end of the line. -/
theorem creadlnFrom_bounds (hp : p ≤ buf.size) :
    (p + lineLength rest < buf.size → ∃ r, creadlnFrom p count rest buf h = .ok r) ∧
      (buf.size ≤ p + lineLength rest → creadlnFrom p count rest buf h = .error .outOfBounds) := by
  induction rest generalizing p count buf with
  | nil =>
      constructor
      · intro hlt
        exact ⟨_, bind_of_ok (store_in_bounds hlt)⟩
      · intro hle
        exact bind_of_error (store_out_of_bounds hle)
  | cons c rest ih =>
      rw [creadlnFrom]
      by_cases hfull : buf.size ≤ p
      · refine ⟨fun hlt => ?_, fun _ => bind_of_error (store_out_of_bounds hfull)⟩
        omega
      have hlt : p < buf.size := Nat.lt_of_not_le hfull
      have hlt' : p < (buf.fill p [c]).size := hlt
      rw [bind_of_ok (store_in_bounds hlt)]
      by_cases h0 : c = 0
      · have hzero : lineLength (c :: rest) = 0 := by rw [h0]; rfl
        rw [if_pos h0, bind_of_ok (store_in_bounds hlt'), hzero]
        exact ⟨fun _ => ⟨_, rfl⟩, fun hle => absurd hle hfull⟩
      by_cases h13 : c = 13
      · have hsame : lineLength (c :: rest) = lineLength rest := by rw [h13, lineLength_cr]
        rw [if_neg h0, if_pos h13, bind_of_ok (store_in_bounds hlt'), hsame]
        exact ih (show p ≤ ((buf.fill p [c]).fill p [0]).size from hp)
      by_cases h10 : c = 10
      · have hzero : lineLength (c :: rest) = 0 := by rw [h10]; rfl
        rw [if_neg h0, if_neg h13, if_pos h10, bind_of_ok (store_in_bounds hlt'), hzero]
        exact ⟨fun _ => ⟨_, rfl⟩, fun hle => absurd hle hfull⟩
      · rw [if_neg h0, if_neg h13, if_neg h10, lineLength_char h0 h13 h10, ← Nat.add_assoc, Nat.add_right_comm]
        exact ih (show p + 1 ≤ (buf.fill p [c]).size from hlt)

end

/-! ## Lines -/

/-- A line of a file as it is delivered. -/
def unreturned (l : Bytes) : CStr := l.filter fun c => c ≠ 13

/-- No line is open at the end of the file: it is empty, or ends with a newline. -/
def Closed (content : Bytes) : Prop := content.getLast?.getD 10 = 10

instance (content : Bytes) : Decidable (Closed content) := by
  unfold Closed
  infer_instance

/-- The lines of a file: what stands in front of the newlines, and a last line without one. -/
def lines (content : Bytes) : List CStr :=
  (if Closed content then (content.splitOn 10).dropLast else content.splitOn 10).map unreturned

/-- What is delivered of a file: all that stands between newlines, the empty piece behind the last
one included. -/
def delivered (content : Bytes) : List CStr := (content.splitOn 10).map unreturned

section

variable {p : Nat} {l rest s : Bytes} {buf : Block} {h : Heap}

theorem bytes_snoc (hbytes : buf.bytes 0 s.length = s) (c : UInt8) :
    (buf.fill s.length [c]).bytes 0 (s ++ [c]).length = s ++ [c] := by
  have hbefore := buf.bytes_fill_before (n := s.length) [c] (Nat.le_of_eq (Nat.zero_add _))
  have hsame := buf.bytes_fill_same s.length [c]
  rw [List.length_singleton] at hsame
  rw [List.length_append, List.length_singleton, Block.bytes_add, hbefore, hbytes, Nat.zero_add, hsame]

theorem bytes_kept (hbytes : buf.bytes 0 s.length = s) (c : UInt8) :
    (buf.fill s.length [c]).bytes 0 s.length = s := by
  rw [buf.bytes_fill_before [c] (Nat.le_of_eq (Nat.zero_add _)), hbytes]

/-- The characters of a line are stored one behind the other. -/
theorem creadlnFrom_append (hbytes : buf.bytes 0 s.length = s) (h0 : 0 ∉ l) (h10 : 10 ∉ l)
    (hfits : s.length + (unreturned l).length < buf.size) :
    ∃ buf', creadlnFrom s.length s.length (l ++ rest) buf h =
        creadlnFrom (s ++ unreturned l).length (s ++ unreturned l).length rest buf' h ∧
      buf'.size = buf.size ∧ buf'.bytes 0 (s ++ unreturned l).length = s ++ unreturned l := by
  induction l generalizing s buf with
  | nil =>
      rw [show unreturned [] = [] from rfl, List.append_nil]
      exact ⟨buf, rfl, rfl, hbytes⟩
  | cons c l ih =>
      rw [List.mem_cons, not_or] at h0 h10
      have hlt : s.length < buf.size := by omega
      rw [List.cons_append, creadlnFrom, bind_of_ok (store_in_bounds hlt), if_neg (Ne.symm h0.1)]
      by_cases h13 : c = 13
      · have hsame : unreturned (c :: l) = unreturned l := by rw [h13]; rfl
        have hlt' : s.length < (buf.fill s.length [c]).size := hlt
        rw [hsame] at hfits ⊢
        rw [if_pos h13, bind_of_ok (store_in_bounds hlt')]
        exact ih (bytes_kept (bytes_kept hbytes c) 0) h0.2 h10.2 hfits
      · have hkept : s ++ unreturned (c :: l) = (s ++ [c]) ++ unreturned l := by simp [unreturned, h13]
        have hlen : (s ++ [c]).length = s.length + 1 := List.length_append
        have hfits' : (s ++ [c]).length + (unreturned l).length < (buf.fill s.length [c]).size := by
          have hsum := congrArg List.length hkept
          rw [List.length_append, List.length_append] at hsum
          rw [Block.size_fill]
          omega
        rw [if_neg h13, if_neg (Ne.symm h10.1), hkept, ← hlen]
        exact ih (bytes_snoc hbytes c) h0.2 h10.2 hfits'

/-- A line that ends with a newline. -/
theorem creadln_newline (h0 : 0 ∉ l) (h10 : 10 ∉ l) (hfits : (unreturned l).length < buf.size) (buflen : Nat) :
    ∃ buf', creadln ⟨l ++ 10 :: rest, false⟩ buf buflen h =
        .ok (((unreturned l).length, ⟨rest, false⟩, buf'), h) ∧
      buf'.size = buf.size ∧ buf'.string = unreturned l := by
  obtain ⟨b, hstored, hsize, hbytes⟩ :=
    @creadlnFrom_append l (10 :: rest) [] buf h rfl h0 h10 (by simpa using hfits)
  rw [List.nil_append] at hstored hbytes
  have hlt : (unreturned l).length < b.size := hsize ▸ hfits
  have hlt' : (unreturned l).length < (b.fill (unreturned l).length [10]).size := hlt
  have hread : creadln ⟨l ++ 10 :: rest, false⟩ buf buflen = creadlnFrom 0 0 (l ++ 10 :: rest) buf := rfl
  have hzero : 0 ∉ unreturned l := fun hmem => h0 (List.mem_filter.1 hmem).1
  refine ⟨(b.fill (unreturned l).length [10]).fill (unreturned l).length [0], ?_, hsize, ?_⟩
  · rw [hread]
    refine hstored.trans ?_
    rw [creadlnFrom, bind_of_ok (store_in_bounds hlt), if_neg (by decide), if_neg (by decide), if_pos rfl,
      bind_of_ok (store_in_bounds hlt')]
    rfl
  · exact Block.string_of_terminated (bytes_kept (bytes_kept hbytes 10) 0) hzero (by simp [Block.fill]) hlt

/-- The piece behind the last newline. -/
theorem creadln_last (h0 : 0 ∉ l) (h10 : 10 ∉ l) (hfits : (unreturned l).length < buf.size) (buflen : Nat) :
    ∃ buf', creadln ⟨l, false⟩ buf buflen h = .ok (((unreturned l).length, ⟨[], true⟩, buf'), h) ∧
      buf'.size = buf.size ∧ buf'.string = unreturned l := by
  obtain ⟨b, hstored, hsize, hbytes⟩ := @creadlnFrom_append l [] [] buf h rfl h0 h10 (by simpa using hfits)
  rw [List.nil_append] at hstored hbytes
  rw [List.append_nil] at hstored
  have hlt : (unreturned l).length < b.size := hsize ▸ hfits
  have hread : creadln ⟨l, false⟩ buf buflen = creadlnFrom 0 0 l buf := rfl
  have hzero : 0 ∉ unreturned l := fun hmem => h0 (List.mem_filter.1 hmem).1
  refine ⟨b.fill (unreturned l).length [0], ?_, hsize, ?_⟩
  · rw [hread]
    refine hstored.trans ?_
    rw [creadlnFrom, bind_of_ok (store_in_bounds hlt)]
    rfl
  · exact Block.string_of_terminated (bytes_kept hbytes 0) hzero (by simp [Block.fill]) hlt

/-- Once the end of the file was seen there is only the terminator to store. -/
theorem creadln_eof (hpos : 0 < buf.size) (buflen : Nat) :
    creadln ⟨rest, true⟩ buf buflen h = .ok ((-1, ⟨rest, true⟩, buf.fill 0 [0]), h) := by
  rw [creadln, if_pos rfl, bind_of_ok (store_in_bounds hpos)]
  rfl

end

/-- Whether a file ends with a newline is up to what is behind one. -/
theorem closed_append (l rest : Bytes) : Closed (l ++ 10 :: rest) ↔ Closed rest := by
  simp [Closed, List.getLast?_append, List.getLast?_cons]

theorem closed_of_notMem {content : Bytes} (hnot : 10 ∉ content) : Closed content ↔ content = [] := by
  rcases List.eq_nil_or_concat content with rfl | ⟨l, c, rfl⟩
  · exact ⟨fun _ => rfl, fun _ => rfl⟩
  · have hc : c ≠ 10 := fun hc => hnot (by simp [hc])
    simp [Closed, hc]

/-- A file starts with a line that ends with a newline, or has no newline. -/
theorem delivered_cases (content : Bytes) :
    (∃ l rest, content = l ++ 10 :: rest ∧ 10 ∉ l ∧ delivered content = unreturned l :: delivered rest ∧
      lines content = unreturned l :: lines rest) ∨
      10 ∉ content ∧ delivered content = [unreturned content] ∧
        lines content = if content = [] then [] else [unreturned content] := by
  by_cases hmem : (10 : UInt8) ∈ content
  · obtain ⟨l, rest, rfl, hl⟩ := List.eq_append_cons_of_mem hmem
    have hsplit := List.splitOn_append_cons_self_of_not_mem hl rest
    refine .inl ⟨l, rest, rfl, hl, by rw [delivered, hsplit]; rfl, ?_⟩
    rw [lines, lines, hsplit]
    by_cases hclosed : Closed rest
    · rw [if_pos ((closed_append l rest).2 hclosed), if_pos hclosed,
        List.dropLast_cons_of_ne_nil (List.splitOn_ne_nil 10 rest), List.map_cons]
    · rw [if_neg (mt (closed_append l rest).1 hclosed), if_neg hclosed, List.map_cons]
  · have hsplit := List.splitOn_eq_singleton hmem
    refine .inr ⟨hmem, by rw [delivered, hsplit]; rfl, ?_⟩
    rw [lines, hsplit]
    by_cases hnil : content = []
    · rw [if_pos ((closed_of_notMem hmem).2 hnil), if_pos hnil]
      rfl
    · rw [if_neg (mt (closed_of_notMem hmem).1 hnil), if_neg hnil]
      rfl

/-- An empty line is delivered behind the lines of a file that no line is open in. -/
theorem delivered_eq (content : Bytes) : delivered content = lines content ++ if Closed content then [[]] else [] := by
  induction hlen : content.length using Nat.strongRecOn generalizing content with
  | _ n ih =>
      rcases delivered_cases content with ⟨l, rest, rfl, -, hdelivered, hlines⟩ | ⟨hnot, hdelivered, hlines⟩
      · have hrest := ih rest.length (by rw [← hlen, List.length_append, List.length_cons]; omega) rest rfl
        rw [hdelivered, hlines, hrest, List.cons_append]
        simp only [closed_append]
      · rw [hdelivered, hlines]
        by_cases hnil : content = []
        · rw [if_pos hnil, if_pos ((closed_of_notMem hnot).2 hnil), hnil]
          rfl
        · rw [if_neg hnil, if_neg (mt (closed_of_notMem hnot).1 hnil), List.append_nil]

/-- Lines that fit are delivered one after the other, and then the end. -/
theorem readlines_eq {content : Bytes} {buf : Block} {h : Heap} {fuel : Nat} (buflen : Nat) (h0 : 0 ∉ content)
    (hfits : ∀ l ∈ delivered content, l.length < buf.size) (hfuel : content.length + 1 < fuel) :
    readlines fuel ⟨content, false⟩ buf buflen h =
      .ok (((delivered content).map fun l => ((l.length : Int), l), -1), h) := by
  induction fuel generalizing content buf with
  | zero => omega
  | succ fuel ih =>
      rcases delivered_cases content with ⟨l, rest, rfl, hl, hlines, -⟩ | ⟨hl, hlines, -⟩
      · rw [List.mem_append, List.mem_cons, not_or, not_or] at h0
        rw [hlines] at hfits ⊢
        obtain ⟨buf', hread, hsize, hstring⟩ :=
          creadln_newline (h := h) h0.1 hl (hfits _ List.mem_cons_self) buflen
        rw [List.length_append, List.length_cons] at hfuel
        have hfits' : ∀ l ∈ delivered rest, l.length < buf'.size :=
          fun l hl => hsize ▸ hfits l (List.mem_cons_of_mem _ hl)
        have hrest := ih h0.2.2 hfits' (by omega)
        rw [readlines, bind_of_ok hread]
        dsimp only
        rw [if_neg (by omega), bind_of_ok hrest, hstring]
        rfl
      · rw [hlines] at hfits ⊢
        have hlt := hfits _ List.mem_cons_self
        obtain ⟨buf', hread, hsize, hstring⟩ := creadln_last (h := h) h0 hl hlt buflen
        obtain ⟨fuel, rfl⟩ : ∃ n, fuel = n + 1 := ⟨fuel - 1, by omega⟩
        have hpos : 0 < buf'.size := by omega
        rw [readlines, bind_of_ok hread]
        dsimp only
        rw [if_neg (by omega), readlines, bind_of_ok (bind_of_ok (creadln_eof hpos buflen)), hstring]
        rfl

/-- A call stays in its buffer if and only if the line fits into it; and of a file of lines that
fit exactly the lines are delivered if and only if a line is open at its end. -/
theorem line_stored (buf : Block) (h : Heap) :
    (∀ (file : File) (buflen : Nat), buf.size = buflen →
      (file.Fits buflen → ∃ r, creadln file buf buflen h = .ok r) ∧
        (¬file.Fits buflen → creadln file buf buflen h = .error .outOfBounds)) ∧
    ∀ content : Bytes, 0 ∉ content → (∀ l ∈ content.splitOn 10, l.length ≤ maxlinelen) →
      buf.size = maxlinelen + 1 →
      readlines (content.length + 2) ⟨content, false⟩ buf (maxlinelen + 1) h =
          .ok (((delivered content).map fun l => ((l.length : Int), l), -1), h) ∧
        (delivered content = lines content ↔ ¬Closed content) := by
  constructor
  · rintro ⟨rest, eof⟩ buflen rfl
    unfold File.Fits
    cases eof with
    | true =>
        constructor
        · intro hpos
          exact ⟨_, creadln_eof hpos _⟩
        · intro hempty
          exact bind_of_error (store_out_of_bounds (Nat.le_of_not_lt hempty))
    | false =>
        have hbounds := @creadlnFrom_bounds 0 0 rest buf h (Nat.zero_le buf.size)
        rw [Nat.zero_add] at hbounds
        exact ⟨hbounds.1, fun hlong => hbounds.2 (Nat.le_of_not_lt hlong)⟩
  · intro content h0 hlines hsize
    constructor
    · refine readlines_eq _ h0 (fun l hl => ?_) (Nat.lt_succ_self _)
      obtain ⟨l, hpiece, rfl⟩ := List.mem_map.1 hl
      have hle := hlines l hpiece
      have hfilter : (unreturned l).length ≤ l.length := List.length_filter_le _ _
      omega
    · rw [delivered_eq, List.append_right_eq_self]
      by_cases hclosed : Closed content
      · simp [hclosed]
      · simp [hclosed]

/-- A line of two characters does not fit into a buffer of two bytes, and of a file with one line and
its newline two lines are delivered. -/
theorem line_stored_short :
    ¬(File.mk [97, 98, 10] false).Fits 2 ∧
      creadln ⟨[97, 98, 10], false⟩ ⟨2, fun _ => 0⟩ 2 .zeroed = .error .outOfBounds ∧
      readlines 4 ⟨[97, 10], false⟩ ⟨maxlinelen + 1, fun _ => 0⟩ (maxlinelen + 1) .zeroed =
        .ok (([(1, [97]), (0, [])], -1), .zeroed) ∧
      lines [97, 10] = [[97]] :=
  ⟨by decide, rfl, @readlines_eq [97, 10] ⟨maxlinelen + 1, fun _ => 0⟩ .zeroed 4 (maxlinelen + 1) (by decide)
    (by decide) (by decide), by decide⟩

theorem line_stored_pair :
    (((File.mk [97, 10] false).Fits 2 → ∃ r, creadln ⟨[97, 10], false⟩ ⟨2, fun _ => 0⟩ 2 .zeroed = .ok r) ∧
        (¬(File.mk [97, 10] false).Fits 2 →
          creadln ⟨[97, 10], false⟩ ⟨2, fun _ => 0⟩ 2 .zeroed = .error .outOfBounds)) ∧
      readlines 5 ⟨[97, 10, 98], false⟩ ⟨maxlinelen + 1, fun _ => 0⟩ (maxlinelen + 1) .zeroed =
          .ok (([(1, [97]), (1, [98])], -1), .zeroed) ∧
        (delivered [97, 10, 98] = lines [97, 10, 98] ↔ ¬Closed [97, 10, 98]) :=
  ⟨(line_stored ⟨2, fun _ => 0⟩ .zeroed).1 ⟨[97, 10], false⟩ 2 rfl,
    (line_stored ⟨maxlinelen + 1, fun _ => 0⟩ .zeroed).2 [97, 10, 98] (by decide) (by decide) rfl⟩

end Timps.Naf
