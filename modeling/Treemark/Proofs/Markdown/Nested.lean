import Treemark.Proofs.Markdown.Items
import Treemark.Proofs.Markdown.Settled
import Treemark.Proofs.Markdown.Texts

/-!
# Lists within lists

A list around another one drops bare lines of a text in which the inner list stands. It does so up to the
line to which the inner list is attached, and behind the inner list; the lines of the inner list itself are
kept, however many lists there are around it.
-/

namespace Treemark

namespace Markdown

/-- A text in the lists around it, each of which puts something in front of the text and behind it. The
innermost list comes first. -/
def within : List (String × String) → String → String
  | [], text => text
  | (lead, rest) :: outer, text => within outer (collapse ("\n" ++ lead ++ text ++ rest))

theorem exists_within {r : String} (hr : Settled r.toList) (outer : List (String × String))
    (u behind : String) : ∃ behind', within outer (u ++ "\n" ++ r ++ behind) =
      within (outer.map fun p => (p.1, "")) (u ++ "\n") ++ r ++ behind' := by
  induction outer generalizing u behind with
  | nil => exact ⟨behind, rfl⟩
  | cons p outer ih =>
      obtain ⟨lead, rest⟩ := p
      have hended : Ended ("\n" ++ lead ++ (u ++ "\n")).toList :=
        .inr ⟨("\n" ++ lead ++ u).toList, by simp⟩
      obtain ⟨behind', hcollapse⟩ := collapse_settled hended hr (behind ++ rest)
      -- what the inner list is attached to still ends in a line feed in the next list
      obtain ⟨v, hv⟩ := collapse_newline_ended (lead ++ (u ++ "\n"))
      rw [← String.append_assoc] at hv
      obtain ⟨behind'', hwithin⟩ := ih v behind'
      refine ⟨behind'', ?_⟩
      have hinner : "\n" ++ lead ++ (u ++ "\n" ++ r ++ behind) ++ rest =
          "\n" ++ lead ++ (u ++ "\n") ++ r ++ (behind ++ rest) := by
        simp only [String.append_assoc]
      rw [List.map_cons, within, within, hinner, hcollapse, String.append_empty, hv, hwithin]

end Markdown

namespace Node

open Markdown

/-- Every way into another text keeps the settled lines behind a line feed. -/
theorem Enters.settled_infix {r : String} (hr : Settled r.toList) {k : Nat} {s t : String}
    (h : Enters k s t) (hs : '\n' :: r.toList <:+: s.toList) : '\n' :: r.toList <:+: t.toList := by
  induction h with
  | piece h => exact hs.trans h
  | separated rows count => exact newline_infix_insertSeparator hs count
  | listed text => exact settled_infix_collapse hr hs
  | trans _ _ ihst ihtu => exact ihtu (ihst hs)

/-- The text of a list starts with a line feed before bare lines are dropped. If it has no carriage returns,
its lines are all kept where it stands in the text of another list: in front of them is what that list keeps
of the text up to the line with the inner list. So it is in lists around lists, and in every tree with a
list in it. -/
theorem renderFrom_list_within_lists :
    (∀ kind text attributes children (c : Context) markdown, kind = .itemize ∨ kind = .enumerate →
      (renderFrom ⟨kind, text, attributes, children⟩ c).1 = .ok markdown →
      ∃ body ∈ children.head?, ∃ items after, RenderInTurn c.deeper body.children items after ∧
        markdown = collapse ("\n" ++
          (String.join (items.map (tabs c.depth ++ kind.bullet ++ · ++ "\n")) ++ "\n"))) ∧
    (∀ t : String, '\r' ∉ t.toList → ∃ rest, collapse ("\n" ++ t) = "\n" ++ rest ∧
      (∀ a b, ∃ behind,
        collapse (a ++ collapse ("\n" ++ t) ++ b) = collapse (a ++ "\n") ++ rest ++ behind) ∧
      ∀ outer, ∃ behind, within outer (collapse ("\n" ++ t)) =
        within (outer.map fun p => (p.1, "")) "\n" ++ rest ++ behind) ∧
    ∀ (n m : Node) k c markdown, m.kind = .itemize ∨ m.kind = .enumerate → n.Visits k m →
      (n.renderFrom c).1 = .ok markdown →
      ∃ t, m.render.Yields (collapse ("\n" ++ t)) ∧
        ('\r' ∉ t.toList → ∃ before behind, markdown = before ++ collapse ("\n" ++ t) ++ behind) := by
  refine ⟨fun kind text attributes children c markdown hkind h => ?_, fun t ht => ?_,
    fun n m k c markdown hkind hvisits h => ?_⟩
  · obtain ⟨body, hbody, items, after, hitems, rfl⟩ := renderFrom_list_eq_ok hkind h
    exact ⟨body, hbody, items, after, hitems, by rw [listText, String.append_assoc]⟩
  · obtain ⟨rest, hrest, hsettled⟩ := exists_settled ht
    refine ⟨rest, hrest, fun a b => ?_, fun outer => ?_⟩
    · have hended : Ended (a ++ "\n").toList := .inr ⟨a.toList, by simp⟩
      obtain ⟨behind, hbehind⟩ := collapse_settled hended hsettled b
      refine ⟨behind, ?_⟩
      rw [hrest, ← hbehind]
      simp only [String.append_assoc]
    · obtain ⟨behind, hbehind⟩ := exists_within hsettled outer "" ""
      refine ⟨behind, ?_⟩
      rw [hrest]
      simpa using hbehind
  · obtain ⟨kind, text, attributes, children⟩ := m
    obtain ⟨s, ⟨c', hs⟩, henters⟩ := hvisits.enters ⟨c, h⟩
    obtain ⟨body, -, items, after, -, rfl⟩ := renderFrom_list_eq_ok hkind hs
    rw [listText, String.append_assoc] at hs henters
    refine ⟨_, ⟨c', hs⟩, fun ht => ?_⟩
    obtain ⟨rest, hrest, hsettled⟩ := exists_settled ht
    rw [hrest] at henters ⊢
    have hrest : '\n' :: rest.toList <:+: ("\n" ++ rest).toList := by simp
    obtain ⟨before, behind, hmarkdown⟩ := henters.settled_infix hsettled hrest
    refine ⟨String.ofList before, String.ofList behind, ?_⟩
    rw [← String.toList_inj, ← hmarkdown]
    simp

/-- The outer list keeps the line to which the inner one is attached, since a sentence ends before it, and
the inner list its item without a text. -/
theorem renderFrom_list_within_lists_numbered :
    let item (content : Node) : Node := ⟨.item, "", "", [content]⟩
    let list (items : List Node) : Node := ⟨.enumerate, "", "", [⟨.document, "", "", items⟩]⟩
    let inner := list [item ⟨.plain, "Sub.", "", []⟩, item ⟨.plain, "", "", []⟩]
    let outer := list [item ⟨.plain, "Done.", "", []⟩, item inner]
    let text := "\t1.Sub.\n\t1.\n\n"
    outer.toMarkdown = .ok "\n1.Done.\n1.\n\t1.Sub.\n\t1.\n\n\n\n" ∧
      ∃ behind, within [("1.Done.\n1.", "\n\n")] (collapse ("\n" ++ text)) =
        "\n1.Done.\n1.\n" ++ text ++ behind := by
  intro item list inner outer text
  refine ⟨by decide +kernel, ?_⟩
  have htext : collapse ("\n" ++ text) = "\n" ++ text := by decide +kernel
  have hlead : within [("1.Done.\n1.", "")] "\n" = "\n1.Done.\n1.\n" := by decide +kernel
  obtain ⟨rest, hrest, -, hwithin⟩ := renderFrom_list_within_lists.2.1 text (by decide)
  obtain ⟨behind, hbehind⟩ := hwithin [("1.Done.\n1.", "\n\n")]
  obtain rfl : text = rest := (String.append_right_inj "\n").mp (htext.symm.trans hrest)
  exact ⟨behind, by rw [hbehind, ← hlead]; rfl⟩

end Node

end Treemark
