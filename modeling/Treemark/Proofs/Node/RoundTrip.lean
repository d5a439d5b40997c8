import Treemark.Node.Parser
import Treemark.Proofs.Draft.Levels
import Treemark.Proofs.Draft.Written

/-!
# Round trip of trees

A written tree reads back as itself if it is at most 64 nodes high; a higher one is refused for its
depth. Trees that were read are never higher, so what has been read once is always read back.
-/

namespace Treemark

theorem Draft.resolved_eq_ok_iff {d : Draft} {n : Node} :
    d.resolved = .ok n ↔ d.resolve = .ok n := by
  rw [resolved]
  cases d.resolve with
  | error u => constructor <;> (intro h; cases h)
  | ok m => constructor <;> (intro h; cases h; rfl)

namespace Node

theorem read_toJson (n : Node) :
    Draft.read n.toJson.toList = if n.height ≤ 64 then .ok (n.draft, []) else .error .tooDeep := by
  have hread := Draft.nodeReader_written n Draft.maxLevels []
  rw [List.append_nil] at hread
  rw [Draft.read, toJson, String.toList_ofList, hread]
  have hlevels : Draft.maxLevels = 127 := rfl
  by_cases h : n.height ≤ 64
  · rw [if_pos h, if_pos (by omega)]
  · rw [if_neg h, if_neg (by omega)]

theorem parse_toJson_eq (n : Node) :
    parse n.toJson = if n.height ≤ 64 then .ok n else .error (.malformed .tooDeep) := by
  rw [parse, read_toJson]
  by_cases h : n.height ≤ 64
  · have hend : checkEnd [] = .ok () := rfl
    have hresolved : n.draft.resolved = .ok n :=
      Draft.resolved_eq_ok_iff.mpr (resolveAt_draft [] n)
    simp only [h, ↓reduceIte, hend, hresolved]
  · simp only [h, ↓reduceIte]

theorem height_of_parse {text : String} {n : Node} (h : parse text = .ok n) : n.height ≤ 64 := by
  unfold parse at h
  split at h
  · cases h
  · rename_i d rest hd
    split at h
    · cases h
    · rw [Draft.height_of_resolveAt d (Draft.resolved_eq_ok_iff.mp h)]
      exact Draft.height_of_read hd

/-- Trees of up to 64 nodes of height read back, higher ones are refused for their depth, and a tree
that was read from any text reads back. -/
theorem parse_toJson (n : Node) :
    (n.height ≤ 64 → parse n.toJson = .ok n) ∧
    (64 < n.height → ∃ fault, parse n.toJson = .error (.malformed fault) ∧
      fault.category.name = "syntax" ∧ fault.message = "recursion limit exceeded") ∧
    ∀ text, parse text = .ok n → parse n.toJson = .ok n := by
  have heq := parse_toJson_eq n
  refine ⟨fun h => ?_, fun h => ?_, fun text htext => ?_⟩
  · rw [heq, if_pos h]
  · rw [if_neg (by omega)] at heq
    exact ⟨.tooDeep, heq, rfl, rfl⟩
  · rw [heq, if_pos (height_of_parse htext)]

end Node

end Treemark
