import Treemark.Proofs.Markdown.Headings
import Treemark.Proofs.Markdown.Texts

/-!
# Verbatim text in the rendered text

Verbatim text stands between its fences in the text of a tree, as it is or, in a list, without the lines
that the list drops. Every list around it is one more that drops some.
-/

namespace Treemark

namespace Node

open Markdown

/-- The blocks in a text are in another one, less what so many lists drop of them. -/
def Carries (k : Nat) (s t : String) : Prop :=
  ∀ content : String, Ended content.toList → (block content).toList <:+: s.toList →
    (block (collapse^[k] content)).toList <:+: t.toList

namespace Carries

variable {j k : Nat} {s t u : String}

theorem of_piece (h : s.toList <:+: t.toList) : Carries 0 s t := fun _ _ hblock => hblock.trans h

theorem ended_iterate {content : String} (h : Ended content.toList) :
    Ended (collapse^[k] content).toList := by
  cases k with
  | zero => exact h
  | succ k =>
      rw [Function.iterate_succ_apply']
      exact ended_collapse _

theorem trans (hst : Carries k s t) (htu : Carries j t u) : Carries (j + k) s u := by
  intro content hcontent hblock
  rw [Function.iterate_add_apply]
  exact htu _ (ended_iterate hcontent) (hst content hcontent hblock)

end Carries

theorem Enters.carries {k : Nat} {s t : String} (h : Enters k s t) : Carries k s t := by
  induction h with
  | piece h => exact .of_piece h
  | separated rows count => exact fun content _ hblock => block_insertSeparator hblock count
  | listed text => exact fun content hcontent hblock => block_collapse hcontent hblock
  | trans _ _ ihst ihtu => exact ihst.trans ihtu

theorem Visits.carries {n m : Node} {k : Nat} (h : n.Visits k m) {s : String}
    (hs : n.render.Yields s) : ∃ t, m.render.Yields t ∧ Carries k t s := by
  obtain ⟨t, ht, henters⟩ := h.enters hs
  exact ⟨t, ht, henters.carries⟩

/-- The verbatim text that a pass comes to stands between its fences in the rendered text: as it is
outside of lists, and within lists without the lines that they drop. Nothing is dropped of a text without
carriage returns and bare lines. -/
theorem renderFrom_verbatim {n : Node} {c : Context} {markdown : String}
    (h : (n.renderFrom c).1 = .ok markdown) :
    (∀ m, .visit m ∈ n.steps ↔ ∃ k, n.Visits k m) ∧
    ∀ k text attributes children, n.Visits k ⟨.verbatim, text, attributes, children⟩ →
      (∃ before behind,
        markdown = before ++ "```\n" ++ collapse^[k] (text ++ "\n") ++ "```" ++ behind) ∧
      (k = 0 ∨ '\r' ∉ text.toList ∧ (∀ line ∈ text.toList.splitOn '\n', isBare line = false) →
        ∃ before behind, markdown = before ++ "```\n" ++ text ++ "\n```" ++ behind) := by
  constructor
  · intro m
    rw [Step.steps_of_ok h]
    exact mem_trail_iff
  · intro k text attributes children hvisits
    obtain ⟨t, ht, hcarries⟩ := hvisits.carries ⟨c, h⟩
    simp only [render] at ht
    cases ht.eq_of_pure
    have hcontent : Ended (text ++ "\n").toList := .inr ⟨text.toList, String.toList_append⟩
    have hfenced : (block (text ++ "\n")).toList <:+: (fenced text).toList :=
      ⟨['\n'], ['\n'], by simp [block, fenced, Kind.marker]⟩
    obtain ⟨a, b, hab⟩ := hcarries _ hcontent hfenced
    have hblock : markdown =
        String.ofList a ++ "\n```\n" ++ collapse^[k] (text ++ "\n") ++ "```\n" ++ String.ofList b := by
      rw [← String.toList_inj, ← hab]
      simp [block]
    have hpiece : ∃ before behind,
        markdown = before ++ "```\n" ++ collapse^[k] (text ++ "\n") ++ "```" ++ behind := by
      refine ⟨String.ofList a ++ "\n", "\n" ++ String.ofList b, ?_⟩
      rw [hblock, ← String.toList_inj]
      simp
    refine ⟨hpiece, fun hintact => ?_⟩
    have hsame : collapse^[k] (text ++ "\n") = text ++ "\n" := by
      rcases hintact with rfl | ⟨hreturn, hbare⟩
      · rfl
      · exact Function.iterate_fixed (collapse_eq_self hreturn hbare) k
    obtain ⟨before, behind, hpiece⟩ := hpiece
    refine ⟨before, behind, ?_⟩
    rw [hpiece, hsame, ← String.toList_inj]
    simp

/-- The block of a table in a list, with a line that the list keeps because of the line before it. -/
theorem renderFrom_verbatim_in_cell :
    let block : Node := ⟨.verbatim, "a.\n1.\nb", "", []⟩
    let cell : Node := ⟨.cell, "", "", [block]⟩
    let row : Node := ⟨.row, "", "", [⟨.cell, "", "", [cell]⟩]⟩
    let item : Node := ⟨.item, "", "", [⟨.table, "", "", [row]⟩]⟩
    let list : Node := ⟨.itemize, "", "", [⟨.document, "", "", [item]⟩]⟩
    let markdown := "\n- | \n---\n\n```\na.\n1.\nb\n```\n\n | \n\n\n\n\n"
    list.toMarkdown = .ok markdown ∧ ∃ before behind,
      markdown = before ++ "```\n" ++ collapse^[1] "a.\n1.\nb\n" ++ "```" ++ behind := by
  intro block cell row item list markdown
  have hmarkdown : list.toMarkdown = .ok markdown := by decide +kernel
  have hcell : cell.PartOf [row] :=
    ⟨row, .head _, rfl, ⟨.cell, "", "", [cell]⟩, .head _, rfl, .head _, rfl⟩
  have hvisits : list.Visits 1 block :=
    .further (.item (.inl rfl) (.head _)) (.further .content (.further (.part hcell)
      (.further (.child rfl (.head _)) (.here block))))
  exact ⟨hmarkdown, ((renderFrom_verbatim hmarkdown).2 1 _ _ _ hvisits).1⟩

/-- A list drops the line of a text that looks like the number of an empty item. -/
theorem list_drops_verbatim_line :
    let block : Node := ⟨.verbatim, "1.", "", []⟩
    let list : Node := ⟨.itemize, "", "", [⟨.document, "", "", [⟨.item, "", "", [block]⟩]⟩]⟩
    let markdown := "\n-\n\n```\n```\n\n\n\n"
    .visit block ∈ list.steps ∧ list.toMarkdown = .ok markdown ∧
      ¬ ∃ before behind, markdown = before ++ "```\n" ++ block.text ++ "\n```" ++ behind := by
  intro block list markdown
  refine ⟨by decide +kernel, by decide +kernel, ?_⟩
  rintro ⟨before, behind, h⟩
  have hinfix : "```\n1.\n```".toList <:+: markdown.toList := by
    refine ⟨before.toList, behind.toList, ?_⟩
    rw [h]
    simp [block]
  exact absurd hinfix (by decide +kernel)

end Node

end Treemark
