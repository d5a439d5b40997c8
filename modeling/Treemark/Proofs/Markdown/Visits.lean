import Treemark.Proofs.Markdown.Forms

/-!
# Visits

A pass comes to a node by a chain of nodes, each rendered for the one before it. Every list on the way
is counted, since what is rendered in it goes through the list once more.
-/

namespace Treemark

/-! ## Nodes rendered for one another -/

/-- Whether nodes of a kind show all of their children. -/
def Kind.flows : Kind → Bool
  | plain => true
  | k => k.concatenates

theorem Kind.flows_cases {k : Kind} (h : k.flows = true) : k = plain ∨ k.concatenates = true := by
  cases k with
  | plain => exact .inl rfl
  | _ => exact .inr h

theorem Kind.flows_of_concatenates {k : Kind} (h : k.concatenates = true) : k.flows = true := by
  cases k with
  | plain => rfl
  | _ => exact h

namespace Node

/-- A node is rendered for another one, in no more list or in one more. -/
inductive Renders : Node → Nat → Node → Prop where
  | content {text attributes : String} {content : Node} {children : List Node} :
      Renders ⟨.item, text, attributes, content :: children⟩ 0 content
  | child {n m : Node} : n.kind.flows = true → m ∈ n.children → Renders n 0 m
  | again {text attributes : String} {first m : Node} {children : List Node} :
      m ∈ first.children → Renders ⟨.plain, text, attributes, first :: children⟩ 0 m
  | item {kind : Kind} {text attributes : String} {body m : Node} {children : List Node} :
      kind = .itemize ∨ kind = .enumerate → m ∈ body.children →
      Renders ⟨kind, text, attributes, body :: children⟩ 1 m
  | part {text attributes : String} {m : Node} {children : List Node} :
      m.PartOf children → Renders ⟨.table, text, attributes, children⟩ 0 m
  | nested {text attributes : String} {first m : Node} {children : List Node} :
      m.PartOf first.children → Renders ⟨.table, text, attributes, first :: children⟩ 0 m

/-- A pass over a node comes to another one within so many lists. -/
inductive Visits : Node → Nat → Node → Prop where
  | here (n : Node) : Visits n 0 n
  | further {n m l : Node} {j k : Nat} : n.Renders j m → m.Visits k l → Visits n (j + k) l

/-! ## The trail by its visits -/

variable {l m n : Node} {ns : List Node} {s : Step} {k : Nat}

theorem mem_trailList_iff : s ∈ trailList ns ↔ ∃ n ∈ ns, s ∈ n.trail := by
  rw [trailList_eq, List.mem_flatMap]

theorem visit_mem_trailCells_iff : .visit m ∈ trailCells ns ↔
    ∃ c ∈ ns, c.kind = .cell ∧ ∃ p ∈ c.children, p.kind = .cell ∧ .visit m ∈ p.trail := by
  simp only [trailCells_eq, List.mem_flatMap]
  constructor
  · rintro ⟨c, hc, h⟩
    split at h
    · rename_i hcell
      obtain ⟨p, hp, h⟩ := mem_trailList_iff.mp h
      obtain ⟨hp, hpart⟩ := List.mem_filter.mp hp
      exact ⟨c, hc, isCell_iff.mp hcell, p, hp, isCell_iff.mp hpart, h⟩
    · simp at h
  · rintro ⟨c, hc, hcell, p, hp, hpart, h⟩
    refine ⟨c, hc, ?_⟩
    rw [if_pos (isCell_iff.mpr hcell)]
    exact mem_trailList_iff.mpr ⟨p, List.mem_filter.mpr ⟨hp, isCell_iff.mpr hpart⟩, h⟩

theorem visit_mem_trailRows_iff :
    .visit m ∈ trailRows ns ↔ ∃ p : Node, p.PartOf ns ∧ .visit m ∈ p.trail := by
  simp only [trailRows_eq, List.mem_flatMap, List.mem_filter, isRow_iff, visit_mem_trailCells_iff]
  constructor
  · rintro ⟨r, ⟨hr, hrow⟩, c, hc, hcell, p, hp, hpart, h⟩
    exact ⟨p, ⟨r, hr, hrow, c, hc, hcell, hp, hpart⟩, h⟩
  · rintro ⟨p, ⟨r, hr, hrow, c, hc, hcell, hp, hpart⟩, h⟩
    exact ⟨r, ⟨hr, hrow⟩, c, hc, hcell, p, hp, hpart, h⟩

theorem mem_trail_of_flows (hflows : n.kind.flows = true) (hm : m ∈ n.children) (hs : s ∈ m.trail) :
    s ∈ n.trail := by
  have hlist : s ∈ trailList n.children := mem_trailList_iff.mpr ⟨m, hm, hs⟩
  obtain ⟨kind, text, attributes, children⟩ := n
  rcases Kind.flows_cases hflows with rfl | hconcatenates
  · cases children with
    | nil => cases hm
    | cons first children =>
        rw [trail_plain]
        exact List.mem_cons_of_mem _ (List.mem_append_left _ hlist)
  · rcases Kind.concatenates_cases hconcatenates with ⟨level, rfl⟩ | hgroup
    · rw [trail_heading]
      exact List.mem_cons_of_mem _ hlist
    · rw [trail_group hgroup]
      exact List.mem_cons_of_mem _ hlist

theorem Renders.mem_trail (h : n.Renders k l) (hm : .visit m ∈ l.trail) : .visit m ∈ n.trail := by
  cases h with
  | content =>
      rw [trail_item]
      exact List.mem_cons_of_mem _ hm
  | child hflows hl => exact mem_trail_of_flows hflows hl hm
  | again hl => simp [trail_plain, mem_trailList_iff.mpr ⟨l, hl, hm⟩]
  | item hkind hl => simp [trail_list hkind, mem_trailList_iff.mpr ⟨l, hl, hm⟩]
  | @part _ _ _ children hl =>
      obtain ⟨r, hr, -⟩ := id hl
      cases children with
      | nil => cases hr
      | cons first children => simp [trail_table, visit_mem_trailRows_iff.mpr ⟨l, hl, hm⟩]
  | nested hl => simp [trail_table, visit_mem_trailRows_iff.mpr ⟨l, hl, hm⟩]

theorem Renders.of_group (h : n.kind.isGroup = true) (hm : m ∈ n.children) : n.Renders 0 m :=
  .child (Kind.flows_of_concatenates (Kind.concatenates_of_isGroup h)) hm

/-- A pass comes to the node itself and to what it comes to in the nodes that it renders. -/
theorem renders_of_mem_trail (h : .visit m ∈ n.trail) :
    m = n ∨ ∃ k l, n.Renders k l ∧ .visit m ∈ l.trail := by
  have hlist {ns : List Node} {j : Nat} (h : .visit m ∈ trailList ns)
      (hns : ∀ l ∈ ns, n.Renders j l) : ∃ k l, n.Renders k l ∧ .visit m ∈ l.trail := by
    obtain ⟨l, hl, hm⟩ := mem_trailList_iff.mp h
    exact ⟨j, l, hns l hl, hm⟩
  have hrows {ns : List Node} {j : Nat} (h : .visit m ∈ trailRows ns)
      (hns : ∀ l : Node, l.PartOf ns → n.Renders j l) : ∃ k l, n.Renders k l ∧ .visit m ∈ l.trail := by
    obtain ⟨l, hl, hm⟩ := visit_mem_trailRows_iff.mp h
    exact ⟨j, l, hns l hl, hm⟩
  cases n.form with
  | lacking hv => exact .inl (by simpa [trail_lacking hv] using h)
  | leaf hleaf => exact .inl (by simpa [trail_leaf hleaf] using h)
  | group hgroup =>
      rw [trail_group hgroup, List.mem_cons, Step.visit.injEq] at h
      exact h.imp_right fun h => hlist h fun l hl => .of_group hgroup hl
  | heading =>
      rw [trail_heading, List.mem_cons, Step.visit.injEq] at h
      exact h.imp_right fun h => hlist h fun l hl => .child rfl hl
  | item =>
      rw [trail_item, List.mem_cons, Step.visit.injEq] at h
      exact h.imp_right fun h => ⟨0, _, .content, h⟩
  | plain =>
      rw [trail_plain, List.mem_cons, List.mem_append, Step.visit.injEq] at h
      rcases h with h | h | h
      · exact .inl h
      · exact .inr (hlist h fun l hl => .child rfl hl)
      · exact .inr (hlist h fun l hl => .again hl)
  | list hkind =>
      rw [trail_list hkind, List.mem_cons, Step.visit.injEq] at h
      exact h.imp_right fun h => hlist h fun l hl => .item hkind hl
  | table =>
      rw [trail_table, List.mem_cons, List.mem_append, Step.visit.injEq] at h
      rcases h with h | h | h
      · exact .inl h
      · exact .inr (hrows h fun l hl => .part hl)
      · exact .inr (hrows h fun l hl => .nested hl)

theorem Renders.sizeOf_lt (h : n.Renders k m) : sizeOf m < sizeOf n := by
  have hchild {n m : Node} (h : m ∈ n.children) : sizeOf m < sizeOf n := by
    have hmem := List.sizeOf_lt_of_mem h
    cases n
    simp only [mk.sizeOf_spec] at hmem ⊢
    omega
  have hpart {n m : Node} (h : m.PartOf n.children) : sizeOf m < sizeOf n := by
    obtain ⟨r, hr, -, c, hc, -, hm, -⟩ := h
    exact Nat.lt_trans (hchild hm) (Nat.lt_trans (hchild hc) (hchild hr))
  have hfirst (kind : Kind) (text attributes : String) (first : Node) (children : List Node) :
      sizeOf first < sizeOf (⟨kind, text, attributes, first :: children⟩ : Node) :=
    hchild List.mem_cons_self
  cases h with
  | content => exact hfirst ..
  | child _ hm => exact hchild hm
  | again hm => exact Nat.lt_trans (hchild hm) (hfirst ..)
  | item _ hm => exact Nat.lt_trans (hchild hm) (hfirst ..)
  | part hm => exact hpart hm
  | nested hm => exact Nat.lt_trans (hpart hm) (hfirst ..)

/-- What passes from all nodes that are rendered for a node to the node itself is true of every node. -/
theorem renders_induction {motive : Node → Prop}
    (step : ∀ n : Node, (∀ k m, n.Renders k m → motive m) → motive n) (n : Node) : motive n := by
  induction hn : sizeOf n using Nat.strongRecOn generalizing n with
  | ind size ih => exact step n fun k m hm => ih _ (hn ▸ hm.sizeOf_lt) m rfl

/-- The nodes on the trail are those that are rendered for one another, starting with the root. -/
theorem mem_trail_iff : .visit m ∈ n.trail ↔ ∃ k, n.Visits k m := by
  constructor
  · intro h
    induction n using renders_induction with
    | step n ih =>
        rcases renders_of_mem_trail h with rfl | ⟨j, l, hl, h⟩
        · exact ⟨0, .here m⟩
        · obtain ⟨k, hk⟩ := ih j l hl h
          exact ⟨j + k, .further hl hk⟩
  · rintro ⟨k, hk⟩
    induction hk with
    | here n =>
        rw [trail.eq_def]
        cases n
        exact List.mem_cons_self
    | further hl _ ih => exact hl.mem_trail ih

end Node

end Treemark
