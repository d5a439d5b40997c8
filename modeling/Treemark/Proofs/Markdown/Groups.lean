import Treemark.Proofs.Markdown.Forms
import Treemark.Proofs.Markdown.Pass

/-!
# Groups

Nodes of many kinds do no more than to hold their children together. In a group or below a heading such a node
may give way to its children, as deep down as one likes, and a document may be rendered in pieces: the passes
are the same, with all that they give and leave behind.
-/

namespace Treemark

namespace Node

/-! ## Nodes one behind the other -/

theorem renderJoined_nil : renderJoined [] = pure "" := by
  simp only [renderJoined, renderList, pure_bind]
  rfl

theorem renderJoined_cons (n : Node) (ns : List Node) : renderJoined (n :: ns) = do
    let text ← render n
    let rest ← renderJoined ns
    return text ++ rest := by
  simp only [renderJoined, renderList, bind_assoc, pure_bind, String.join_cons]

theorem renderJoined_append (ns ms : List Node) : renderJoined (ns ++ ms) = do
    let text ← renderJoined ns
    let rest ← renderJoined ms
    return text ++ rest := by
  induction ns with
  | nil => simp only [List.nil_append, renderJoined_nil, pure_bind, String.empty_append, bind_pure]
  | cons n ns ih =>
      simp only [List.cons_append, renderJoined_cons, ih, bind_assoc, pure_bind, String.append_assoc]

theorem render_congr {n : Node} (h : n.kind.concatenates = true) {ns : List Node}
    (hjoined : renderJoined ns = renderJoined n.children) : render { n with children := ns } = n.render := by
  rcases Kind.concatenates_cases h with ⟨level, hlevel⟩ | hgroup
  · obtain ⟨kind, text, attributes, children⟩ := n
    cases hlevel
    rw [render_heading, render_heading, hjoined]
  · have hns : render { n with children := ns } = renderJoined ns := render_group hgroup
    rw [hns, render_group hgroup, hjoined]

/-! ## Groups that give way to their children -/

/-- Some groups among the nodes, and below groups and headings among them, have given way to their children. -/
inductive Ungroups : List Node → List Node → Prop where
  | nil : Ungroups [] []
  | keep (n : Node) {ns ms : List Node} : Ungroups ns ms → Ungroups (n :: ns) (n :: ms)
  | within {n : Node} {inner ns ms : List Node} : n.kind.concatenates = true →
      Ungroups n.children inner → Ungroups ns ms → Ungroups (n :: ns) ({ n with children := inner } :: ms)
  | replace {n : Node} {inner ns ms : List Node} : n.kind.isGroup = true →
      Ungroups n.children inner → Ungroups ns ms → Ungroups (n :: ns) (inner ++ ms)

theorem Ungroups.renderJoined_eq {ns ms : List Node} (h : Ungroups ns ms) :
    renderJoined ms = renderJoined ns := by
  induction h with
  | nil => rfl
  | keep n _ ih => rw [renderJoined_cons, renderJoined_cons, ih]
  | within hkind _ _ ihInner ih => rw [renderJoined_cons, renderJoined_cons, ih, render_congr hkind ihInner]
  | replace hkind _ _ ihInner ih =>
      rw [renderJoined_append, renderJoined_cons, ih, ihInner, render_group hkind]

mutual
/-- What takes the place of a node when all groups give way to their children. -/
def ungrouped : Node → List Node
  | ⟨kind, text, attributes, children⟩ =>
    if kind.isGroup then ungroupedList children
    else if kind.concatenates then [⟨kind, text, attributes, ungroupedList children⟩]
    else [⟨kind, text, attributes, children⟩]

def ungroupedList : List Node → List Node
  | [] => []
  | n :: ns => ungrouped n ++ ungroupedList ns
end

mutual
theorem ungroups_ungrouped {ns ms : List Node} (h : Ungroups ns ms) : (n : Node) →
    Ungroups (n :: ns) (n.ungrouped ++ ms)
  | ⟨kind, text, attributes, children⟩ => by
      rw [ungrouped]
      split
      · exact .replace ‹_› (ungroups_ungroupedList children) h
      · split
        · exact .within (n := ⟨kind, text, attributes, children⟩) ‹_› (ungroups_ungroupedList children) h
        · exact .keep _ h

theorem ungroups_ungroupedList : (ns : List Node) → Ungroups ns (ungroupedList ns)
  | [] => .nil
  | n :: ns => ungroups_ungrouped (ungroups_ungroupedList ns) n
end

/-- A node is one of some nodes, or it is below one of them through groups and headings only. -/
inductive Among : List Node → Node → Prop where
  | here {n : Node} {ns : List Node} : n ∈ ns → Among ns n
  | through {m n : Node} {ns : List Node} : m ∈ ns → m.kind.concatenates = true → Among m.children n →
      Among ns n

theorem Among.of_append {n : Node} {ns ms : List Node} (h : Among (ns ++ ms) n) :
    Among ns n ∨ Among ms n := by
  cases h with
  | here hn => exact (List.mem_append.mp hn).imp .here .here
  | through hm hkind hn => exact (List.mem_append.mp hm).imp (.through · hkind hn) (.through · hkind hn)

mutual
theorem Among.of_ungrouped {m : Node} : (n : Node) → Among n.ungrouped m → m.kind.isGroup = false
  | ⟨kind, text, attributes, children⟩, h => by
      rw [ungrouped] at h
      split at h
      · exact Among.of_ungroupedList children h
      · rename_i hgroup
        split at h
        · cases h with
          | here hm =>
              rw [List.mem_singleton.mp hm]
              exact eq_false_of_ne_true hgroup
          | through hn _ hm =>
              rw [List.mem_singleton.mp hn] at hm
              exact Among.of_ungroupedList children hm
        · rename_i hkind
          cases h with
          | here hm =>
              rw [List.mem_singleton.mp hm]
              exact eq_false_of_ne_true hgroup
          | through hn hconcatenates _ =>
              rw [List.mem_singleton.mp hn] at hconcatenates
              exact absurd hconcatenates hkind

theorem Among.of_ungroupedList {m : Node} : (ns : List Node) → Among (ungroupedList ns) m →
    m.kind.isGroup = false
  | [], h => by
      cases h with
      | here hm => cases hm
      | through hn _ _ => cases hn
  | n :: ns, h => by
      rcases Among.of_append h with h | h
      · exact Among.of_ungrouped n h
      · exact Among.of_ungroupedList ns h
end

/-- A node that gives its children one behind the other is rendered in the same way, from every context, when
groups give way to their children: some of them or all, at any depth. A document is rendered in the same way
as two others that share its children among them, the second from the context that the first one left, and
when the first one fails, so does the whole. -/
theorem renderFrom_ungrouped :
    (∀ (n : Node) (c : Context), n.kind.concatenates = true →
      (∀ ns, Ungroups n.children ns → renderFrom { n with children := ns } c = n.renderFrom c) ∧
      renderFrom { n with children := ungroupedList n.children } c = n.renderFrom c ∧
      ∀ m, Among (ungroupedList n.children) m → m.kind.isGroup = false) ∧
    ∀ (d d₁ d₂ : Node) (c : Context), d.kind = .document → d₁.kind = .document → d₂.kind = .document →
      d.children = d₁.children ++ d₂.children →
      d.renderFrom c =
        match d₁.renderFrom c with
        | (.ok text, between) =>
          match d₂.renderFrom between with
          | (.ok rest, after) => (.ok (text ++ rest), after)
          | (.error v, after) => (.error v, after)
        | (.error v, between) => (.error v, between) := by
  constructor
  · intro n c hkind
    have hungroups {ns : List Node} (h : Ungroups n.children ns) :
        renderFrom { n with children := ns } c = n.renderFrom c := by
      rw [renderFrom, render_congr hkind h.renderJoined_eq, renderFrom]
    exact ⟨fun ns h => hungroups h, hungroups (ungroups_ungroupedList n.children),
      fun m hm => Among.of_ungroupedList n.children hm⟩
  · intro d d₁ d₂ c hd hd₁ hd₂ hchildren
    have hdocument {n : Node} (h : n.kind = .document) : n.render = renderJoined n.children :=
      render_group (h ▸ rfl)
    rw [renderFrom, hdocument hd, hchildren, renderJoined_append, Pass.runFrom_bind, renderFrom,
      hdocument hd₁]
    rcases (renderJoined d₁.children).runFrom c with ⟨v | text, between⟩
    · rfl
    · simp only [Pass.runFrom_bind, renderFrom, hdocument hd₂]
      rcases (renderJoined d₂.children).runFrom between with ⟨v | rest, after⟩ <;> rfl

/-- Groups in a group and below a heading, the last of them with a node that cannot be rendered. -/
theorem renderFrom_ungrouped_nested :
    let bold : Node := ⟨.bold, "b", "", []⟩
    let empty : Node := ⟨.item, "", "", []⟩
    let heading (children : List Node) : Node := ⟨.heading .second, "u", "", children⟩
    let n : Node := ⟨.heading .first, "t", "",
      [⟨.label, "x", "", [⟨.code, "", "y", [bold]⟩, heading [⟨.row, "", "", [empty]⟩]]⟩, bold]⟩
    n.kind.concatenates = true ∧
      renderFrom ⟨.heading .first, "t", "", [bold, heading [empty], bold]⟩ { first := 3 } =
        n.renderFrom { first := 3 } := by
  intro bold empty heading n
  exact ⟨rfl, (renderFrom_ungrouped.1 n { first := 3 } rfl).2.1⟩

end Node

end Treemark
