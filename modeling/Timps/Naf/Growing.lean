-- SUMMARY: Automatic buffers with memory enough: every put appends.
import Timps.Naf.Plain
import Timps.Naf.Render
import Timps.Naf.SbufBuild

/-!
# Growing buffers

As long as memory lasts and the contents stay below half of the maximum, an automatic
buffer takes whatever is put into it.
-/

namespace Timps.Naf

open Prog (Gives bind_ok bind_of_ok)

namespace Sbuf

/-- An automatic buffer that can take `n` bytes more, with memory for its growth. -/
structure Growing (sb : Sbuf) (h : Heap) (n : Nat) : Prop where
  ok : sb.Ok
  autoresize : sb.autoresize = true
  willing : h.refuse = []
  le : sb.buflen ≤ 32768
  room : sb.pos + n ≤ 16000

/-- The numbers of a buffer after a put that is not refused. -/
def Shape.after (s : Shape) (n : Nat) : Shape := (s.put n).getD s

variable {sb sb' : Sbuf} {h : Heap} {v : Bytes} {m n : Nat}

theorem Growing.less (growing : Growing sb h n) (hle : m ≤ n) : Growing sb h m := by
  have hroom := growing.room
  exact ⟨growing.ok, growing.autoresize, growing.willing, growing.le, by omega⟩

theorem Shape.put_autoresize {s s' : Shape} (hput : s.put n = some s') :
    s'.autoresize = s.autoresize ∧ (s.buflen ≤ 32768 → s'.buflen ≤ 32768) := by
  unfold Shape.put at hput
  split at hput
  · cases hput
    exact ⟨rfl, id⟩
  · split at hput
    · cases hput
    · rename_i hgrant
      cases hput
      refine ⟨rfl, fun _ => ?_⟩
      dsimp only
      by_contra hmax
      exact hgrant (.inr (.inl (by omega)))

/-- The growth of such a buffer is not refused. -/
theorem Growing.shape_put (growing : Growing sb h n) :
    (sb.shape h).put n = some ((sb.shape h).after n) := by
  have hroom := growing.room
  have hpos := growing.ok.pos_le
  have hsome : ((sb.shape h).put n).isSome := by
    unfold Shape.put shape
    dsimp only
    split
    · rfl
    · rename_i hshort
      have hmax : ¬32768 < sb.buflen + 256 * steps n := by
        simp only [steps]
        omega
      simp [growing.autoresize, growing.willing, hmax]
  obtain ⟨s, hs⟩ := Option.isSome_iff_exists.1 hsome
  rw [Shape.after, hs]
  rfl

/-- Every put appends its bytes. -/
theorem Growing.put (growing : Growing sb h m) (hle : v.length + n ≤ m) :
    ∃ sb', sb.put v h = .ok ((v.length, sb'), h) ∧ Appends sb v sb' ∧
      sb'.shape h = (sb.shape h).after v.length ∧ Growing sb' h n := by
  have hfirst := growing.less (m := v.length) (by omega)
  obtain ⟨sb', h', hput, happ, hshape⟩ := put_of_shape growing.ok hfirst.shape_put
  obtain rfl := (put_plain sb v).steady growing.willing hput
  obtain ⟨hauto, hle'⟩ := Shape.put_autoresize hfirst.shape_put
  rw [← hshape] at hauto hle'
  have hroom := growing.room
  refine ⟨sb', hput, happ, hshape, happ.ok, hauto.trans growing.autoresize, growing.willing, hle' growing.le, ?_⟩
  rw [happ.pos]
  omega

/-- Put pieces one behind the other. -/
def putEach : List Bytes → Sbuf → Mem Sbuf
  | [], sb => pure sb
  | v :: vs, sb => do
      let (_, sb) ← sb.put v
      putEach vs sb

theorem putEach_plain (vs : List Bytes) (sb : Sbuf) : Plain (sb.putEach vs) := by
  induction vs generalizing sb with
  | nil => exact .pure _
  | cons v vs ih => exact .bind (put_plain sb v) fun r => ih r.2

theorem putEach_pos_lt {vs : List Bytes} (hpos : sb.pos < 65536) :
    Gives (sb.putEach vs) fun sb' => sb'.pos < 65536 := by
  induction vs generalizing sb with
  | nil => exact .pure hpos
  | cons v vs ih => exact .bind (put_pos_lt hpos) fun r hr => ih hr

/-- A first piece, and the others. -/
theorem putEach_cons_ok {vs : List Bytes} (hwilling : h.refuse = [])
    (hput : sb.putEach (v :: vs) h = .ok (sb', h)) :
    ∃ n sb₁, sb.put v h = .ok ((n, sb₁), h) ∧ sb₁.putEach vs h = .ok (sb', h) := by
  obtain ⟨⟨n, sb₁⟩, h₁, hone, hrest⟩ := bind_ok.1 hput
  obtain rfl := (put_plain _ _).steady hwilling hone
  exact ⟨n, sb₁, hone, hrest⟩

/-- Pieces with room for all of them are appended. -/
theorem putEach_of_room (vs : List Bytes) (ok : sb.Ok) (hroom : sb.pos + vs.flatten.length ≤ sb.buflen) :
    ∃ sb', sb.putEach vs h = .ok (sb', h) ∧ Appends sb vs.flatten sb' ∧ sb'.buflen = sb.buflen ∧
      sb'.autoresize = sb.autoresize := by
  induction vs generalizing sb with
  | nil => exact ⟨sb, rfl, .refl ok, rfl, rfl⟩
  | cons v vs ih =>
      rw [List.flatten_cons, List.length_append] at hroom
      obtain ⟨sb₁, hput₁, happ₁, hlen₁, hauto₁⟩ :=
        put_appends (h := h) ok (show sb.pos + v.length ≤ sb.buflen by omega)
      have hpos₁ := happ₁.pos
      obtain ⟨sb₂, hput₂, happ₂, hlen₂, hauto₂⟩ := ih happ₁.ok (by omega)
      exact ⟨sb₂, (bind_of_ok hput₁).trans hput₂, happ₁.trans happ₂, hlen₂.trans hlen₁, hauto₂.trans hauto₁⟩

/-- The numbers of a buffer after puts that are not refused. -/
def Shape.afterEach (s : Shape) (vs : List Bytes) : Shape := vs.foldl (fun s v => s.after v.length) s

theorem Growing.putEach {vs : List Bytes} (growing : Growing sb h (vs.flatten.length + n)) :
    ∃ sb', sb.putEach vs h = .ok (sb', h) ∧ Appends sb vs.flatten sb' ∧
      sb'.shape h = (sb.shape h).afterEach vs ∧ Growing sb' h n := by
  induction vs generalizing sb with
  | nil => exact ⟨sb, rfl, .refl growing.ok, rfl, growing.less (Nat.le_add_left _ _)⟩
  | cons v vs ih =>
      rw [List.flatten_cons, List.length_append, Nat.add_assoc] at growing
      obtain ⟨sb₁, hput₁, happ₁, hs₁, growing₁⟩ := growing.put (Nat.le_refl _)
      obtain ⟨sb₂, hput₂, happ₂, hs₂, growing₂⟩ := ih growing₁
      refine ⟨sb₂, ?_, happ₁.trans happ₂, ?_, growing₂⟩
      · unfold Sbuf.putEach
        rw [bind_of_ok hput₁]
        exact hput₂
      · rw [hs₂, hs₁]
        rfl

end Sbuf

end Timps.Naf
