import Treemark.Proofs.Markdown.Fences
import Treemark.Proofs.Markdown.Pass
import Treemark.Proofs.Markdown.Visits

/-!
# Texts of visited nodes

What a pass gives for a tree is made of what it gave for the nodes that it came to. On its way up a text
becomes a piece of others, may get a separator in it, and loses bare lines in every list around it.
-/

namespace Treemark

/-! ## Texts of passes -/

/-- The pass gives this when it is run from some context. -/
def Pass.Yields {α : Type} (p : Pass α) (a : α) : Prop := ∃ c, (p.runFrom c).1 = .ok a

namespace Pass.Yields

variable {α β : Type} {p : Pass α} {a : α} {b : β}

theorem bind {f : α → Pass β} (h : (p >>= f).Yields b) : ∃ a, p.Yields a ∧ (f a).Yields b := by
  obtain ⟨c, hc⟩ := h
  rw [runFrom_bind] at hc
  rcases hp : p.runFrom c with ⟨v | a, after⟩
  · rw [hp] at hc
    cases hc
  · rw [hp] at hc
    exact ⟨a, ⟨c, by rw [hp]⟩, after, hc⟩

theorem eq_of_pure {a' : α} (h : (Pure.pure a : Pass α).Yields a') : a = a' := by
  obtain ⟨c, hc⟩ := h
  cases hc
  rfl

theorem inList (h : (Pass.inList p).Yields a) : p.Yields a := by
  obtain ⟨c, hc⟩ := h
  exact ⟨c.deeper, hc⟩

theorem map {f : α → β} (h : (f <$> p).Yields b) : ∃ a, p.Yields a ∧ f a = b := by
  rw [map_eq_pure_bind] at h
  obtain ⟨a, ha, h⟩ := h.bind
  exact ⟨a, ha, h.eq_of_pure⟩

theorem mapM {ι : Type} {f : ι → Pass α} {x : ι} {xs : List ι} {as : List α}
    (h : (xs.mapM f).Yields as) (hx : x ∈ xs) : ∃ a ∈ as, (f x).Yields a := by
  induction xs generalizing as with
  | nil => cases hx
  | cons y xs ih =>
      rw [List.mapM_cons] at h
      obtain ⟨b, hb, h⟩ := h.bind
      obtain ⟨bs, hbs, h⟩ := h.bind
      cases h.eq_of_pure
      rcases List.mem_cons.mp hx with rfl | hx
      · exact ⟨b, List.mem_cons_self, hb⟩
      · obtain ⟨a, ha, hyields⟩ := ih hbs hx
        exact ⟨a, List.mem_cons_of_mem _ ha, hyields⟩

end Pass.Yields

namespace Node

open Markdown

theorem renderList_yields {m : Node} {ns : List Node} {texts : List String}
    (h : (renderList ns).Yields texts) (hm : m ∈ ns) : ∃ t ∈ texts, m.render.Yields t := by
  rw [renderList_eq] at h
  exact h.mapM hm

theorem renderRows_yields {m : Node} {ns : List Node} {rows : List String}
    (h : (renderRows ns).Yields rows) (hm : m.PartOf ns) :
    ∃ row ∈ rows, ∃ t, m.render.Yields t ∧ t.toList <:+: row.toList := by
  obtain ⟨r, hr, hrow, c, hc, hcell, hm, hpart⟩ := hm
  rw [renderRows_eq] at h
  obtain ⟨row, hrows, h⟩ := h.mapM (List.mem_filter.mpr ⟨hr, isRow_iff.mpr hrow⟩)
  obtain ⟨cells, hcells, rfl⟩ := h.map
  rw [renderCells_eq] at hcells
  obtain ⟨parts, hparts, htexts⟩ := hcells.mapM (List.mem_filter.mpr ⟨hc, isCell_iff.mpr hcell⟩)
  obtain ⟨t, ht, hyields⟩ := renderList_yields htexts (List.mem_filter.mpr ⟨hm, isCell_iff.mpr hpart⟩)
  exact ⟨formatRow cells, hrows, t, hyields, infix_formatRow hparts ht⟩

/-! ## Texts of nodes -/

section

variable {kind : Kind} {text attributes s : String} {first : Node} {children : List Node}

theorem plain_yields (h : (render ⟨.plain, text, attributes, first :: children⟩).Yields s) :
    ∃ texts : List String, s = text ++ String.join (texts.map (" " ++ ·)) ∧
      ∀ m, m ∈ first :: children ∨ m ∈ first.children → ∃ t ∈ texts, m.render.Yields t := by
  rw [render_plain] at h
  obtain ⟨own, hown, h⟩ := h.bind
  obtain ⟨again, hagain, h⟩ := h.bind
  refine ⟨own ++ again, h.eq_of_pure.symm, fun m hm => ?_⟩
  rcases hm with hm | hm
  · obtain ⟨t, ht, hyields⟩ := renderList_yields hown hm
    exact ⟨t, List.mem_append_left _ ht, hyields⟩
  · obtain ⟨t, ht, hyields⟩ := renderList_yields hagain hm
    exact ⟨t, List.mem_append_right _ ht, hyields⟩

theorem list_yields (hkind : kind = .itemize ∨ kind = .enumerate)
    (h : (render ⟨kind, text, attributes, first :: children⟩).Yields s) :
    ∃ (lead : String) (items : List String),
      s = collapse ("\n" ++ String.join (items.map (lead ++ · ++ "\n")) ++ "\n") ∧
      ∀ m ∈ first.children, ∃ t ∈ items, m.render.Yields t := by
  rw [render_list hkind] at h
  obtain ⟨body, hbody, h⟩ := h.bind
  obtain ⟨c, -, hbody⟩ := hbody.inList.bind
  obtain ⟨items, hitems, hbody⟩ := hbody.bind
  cases hbody.eq_of_pure
  exact ⟨_, items, h.eq_of_pure.symm, fun m hm => renderList_yields hitems hm⟩

theorem table_yields (h : (render ⟨.table, text, attributes, first :: children⟩).Yields s) :
    ∃ (rows : List String) (count : Nat),
      s = insertSeparator (String.join (rows.map (· ++ "\n"))) count ++ "\n\n" ∧
      ∀ m : Node, m.PartOf (first :: children) ∨ m.PartOf first.children →
        ∃ row ∈ rows, ∃ t, m.render.Yields t ∧ t.toList <:+: row.toList := by
  rw [render_table] at h
  obtain ⟨own, hown, h⟩ := h.bind
  obtain ⟨nested, hnested, h⟩ := h.bind
  refine ⟨own ++ nested, _, h.eq_of_pure.symm, fun m hm => ?_⟩
  rcases hm with hm | hm
  · obtain ⟨row, hrow, hyields⟩ := renderRows_yields hown hm
    exact ⟨row, List.mem_append_left _ hrow, hyields⟩
  · obtain ⟨row, hrow, hyields⟩ := renderRows_yields hnested hm
    exact ⟨row, List.mem_append_right _ hrow, hyields⟩

theorem joined_yields (h : (renderJoined children).Yields s) : ∃ texts, s = String.join texts ∧
    ∀ m ∈ children, ∃ t ∈ texts, m.render.Yields t := by
  obtain ⟨texts, htexts, h⟩ := h.bind
  exact ⟨texts, h.eq_of_pure.symm, fun m hm => renderList_yields htexts hm⟩

/-- Other nodes that show their children just put them one behind the other. -/
theorem concatenated_yields {n : Node} (hkind : n.kind.concatenates = true) (h : n.render.Yields s) :
    ∃ lead texts rest, s = lead ++ String.join texts ++ rest ∧
      ∀ m ∈ n.children, ∃ t ∈ texts, m.render.Yields t := by
  obtain ⟨kind, text, attributes, children⟩ := n
  rcases Kind.concatenates_cases hkind with ⟨level, rfl⟩ | hgroup
  · rw [render_heading] at h
    obtain ⟨number, -, h⟩ := h.bind
    obtain ⟨body, hbody, h⟩ := h.bind
    obtain ⟨texts, rfl, htexts⟩ := joined_yields hbody
    exact ⟨_, texts, _, h.eq_of_pure.symm, htexts⟩
  · rw [render_group hgroup] at h
    obtain ⟨texts, rfl, htexts⟩ := joined_yields h
    exact ⟨"", texts, "", by simp, htexts⟩

end

/-! ## Ways of texts -/

/-- A text enters another one through so many lists. -/
inductive Enters : Nat → String → String → Prop where
  | piece {s t : String} : s.toList <:+: t.toList → Enters 0 s t
  | separated (rows : String) (count : Nat) : Enters 0 rows (insertSeparator rows count)
  | listed (text : String) : Enters 1 text (collapse ("\n" ++ text))
  | trans {j k : Nat} {s t u : String} : Enters k s t → Enters j t u → Enters (j + k) s u

/-- What a node gives is entered by what the nodes give that are rendered for it. -/
theorem Renders.enters {n m : Node} {k : Nat} (h : n.Renders k m) {s : String}
    (hs : n.render.Yields s) : ∃ t, m.render.Yields t ∧ Enters k t s := by
  have hplain {text attributes : String} {first : Node} {children : List Node}
      (hs : (render ⟨.plain, text, attributes, first :: children⟩).Yields s)
      (hm : m ∈ first :: children ∨ m ∈ first.children) :
      ∃ t, m.render.Yields t ∧ Enters 0 t s := by
    obtain ⟨texts, rfl, htexts⟩ := plain_yields hs
    obtain ⟨t, ht, hyields⟩ := htexts m hm
    exact ⟨t, hyields, .piece ((infix_joinMap ht (infix_behind " ")).trans (infix_behind _ _))⟩
  have htable {text attributes : String} {first : Node} {children : List Node}
      (hs : (render ⟨.table, text, attributes, first :: children⟩).Yields s)
      (hm : m.PartOf (first :: children) ∨ m.PartOf first.children) :
      ∃ t, m.render.Yields t ∧ Enters 0 t s := by
    obtain ⟨rows, count, rfl, hrows⟩ := table_yields hs
    obtain ⟨row, hrow, t, hyields, ht⟩ := hrows m hm
    have hjoin := ht.trans (infix_joinMap hrow fun row => infix_before row "\n")
    exact ⟨t, hyields,
      .trans (.trans (.piece hjoin) (.separated _ count)) (.piece (infix_before _ _))⟩
  cases h with
  | content =>
      rw [render_item] at hs
      exact ⟨s, hs, .piece List.infix_rfl⟩
  | child hflows hm =>
      rcases Kind.flows_cases hflows with hkind | hkind
      · obtain ⟨kind, text, attributes, children⟩ := n
        cases hkind
        cases children with
        | nil => cases hm
        | cons first children => exact hplain hs (.inl hm)
      · obtain ⟨lead, texts, rest, rfl, htexts⟩ := concatenated_yields hkind hs
        obtain ⟨t, ht, hyields⟩ := htexts m hm
        exact ⟨t, hyields, .piece ((infix_join ht).trans (infix_between _ _ _))⟩
  | again hm => exact hplain hs (.inr hm)
  | item hkind hm =>
      obtain ⟨lead, items, rfl, hitems⟩ := list_yields hkind hs
      obtain ⟨t, ht, hyields⟩ := hitems m hm
      have hjoin := (infix_joinMap ht fun t => infix_between lead t "\n").trans (infix_before _ "\n")
      rw [String.append_assoc]
      exact ⟨t, hyields, .trans (.piece hjoin) (.listed _)⟩
  | @part _ _ _ children hm =>
      obtain ⟨r, hr, -⟩ := id hm
      cases children with
      | nil => cases hr
      | cons first children => exact htable hs (.inl hm)
  | nested hm => exact htable hs (.inr hm)

theorem Visits.enters {n m : Node} {k : Nat} (h : n.Visits k m) {s : String}
    (hs : n.render.Yields s) : ∃ t, m.render.Yields t ∧ Enters k t s := by
  induction h generalizing s with
  | here n => exact ⟨s, hs, .piece List.infix_rfl⟩
  | further hrenders _ ih =>
      obtain ⟨t, ht, hts⟩ := hrenders.enters hs
      obtain ⟨u, hu, hut⟩ := ih ht
      exact ⟨u, hu, hut.trans hts⟩

end Node

end Treemark
