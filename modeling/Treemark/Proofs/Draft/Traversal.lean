import Treemark.Draft

/-!
# The order of places

A place leads from the root of a tree to one of its nodes. In the lexicographic order of places a node comes
before all that is below it, and a child with all that is below it before the next child. That is the order in
which a tree is gone through, whatever its nodes carry.
-/

namespace Treemark

/-- Where a place leads, if it stays inside the tree. -/
def Place.follow {α : Type} (children : α → List α) (x : α) : Place → Option α
  | [] => some x
  | i :: p => (children x)[i]?.bind fun y => follow children y p

/-- A tree whose nodes carry values. -/
inductive Rose (α : Type) where
  | node (value : α) (children : List (Rose α))

namespace Rose

variable {α : Type}

def value : Rose α → α
  | node x _ => x

def children : Rose α → List (Rose α)
  | node _ rs => rs

mutual
/-- The values of a tree with their places, parents before children and children in order. -/
def placed (place : Place) : Rose α → List (Place × α)
  | node x rs => (place, x) :: placedList place 0 rs

/-- The values below a place, from the child of the given index on. -/
def placedList (place : Place) (index : Nat) : List (Rose α) → List (Place × α)
  | [] => []
  | r :: rs => placed (place ++ [index]) r ++ placedList place (index + 1) rs
end

mutual
/-- The values are gone through at all of their places. -/
theorem mem_placed_iff {place q : Place} {x : α} : (r : Rose α) →
    ((q, x) ∈ r.placed place ↔ ∃ p s, q = place ++ p ∧ Place.follow children r p = some s ∧ s.value = x)
  | node y rs => by
      rw [placed, List.mem_cons, Prod.mk.injEq, mem_placedList_iff rs]
      constructor
      · rintro (⟨rfl, rfl⟩ | ⟨i, r, p, s, rfl, hr, hs, rfl⟩)
        · exact ⟨[], _, (List.append_nil q).symm, rfl, rfl⟩
        · refine ⟨i :: p, s, by rw [Nat.zero_add], ?_, rfl⟩
          exact Option.bind_eq_some_iff.mpr ⟨r, hr, hs⟩
      · rintro ⟨p, s, rfl, hs, rfl⟩
        cases p with
        | nil =>
            cases hs
            exact .inl ⟨List.append_nil place, rfl⟩
        | cons i p =>
            obtain ⟨r, hr, hs⟩ := Option.bind_eq_some_iff.mp hs
            exact .inr ⟨i, r, p, s, by rw [Nat.zero_add], hr, hs, rfl⟩

theorem mem_placedList_iff {place q : Place} {index : Nat} {x : α} : (rs : List (Rose α)) →
    ((q, x) ∈ placedList place index rs ↔ ∃ i r p s, q = place ++ (index + i) :: p ∧ rs[i]? = some r ∧
      Place.follow children r p = some s ∧ s.value = x)
  | [] => by simp [placedList]
  | r :: rs => by
      rw [placedList, List.mem_append, mem_placed_iff r, mem_placedList_iff rs]
      constructor
      · rintro (⟨p, s, rfl, hs, hx⟩ | ⟨i, r', p, s, rfl, hr, hs, hx⟩)
        · exact ⟨0, r, p, s, by simp, rfl, hs, hx⟩
        · exact ⟨i + 1, r', p, s, by rw [Nat.add_right_comm, Nat.add_assoc], hr, hs, hx⟩
      · rintro ⟨_ | i, r', p, s, rfl, hr, hs, hx⟩
        · cases hr
          exact .inl ⟨p, s, by simp, hs, hx⟩
        · exact .inr ⟨i, r', p, s, by rw [Nat.add_right_comm, Nat.add_assoc], hr, hs, hx⟩
end

mutual
theorem pairwise_placed (place : Place) : (r : Rose α) →
    (r.placed place).Pairwise fun x y => x.1 < y.1
  | node y rs => by
      rw [placed, List.pairwise_cons]
      refine ⟨fun ⟨q, x⟩ hq => ?_, pairwise_placedList place 0 rs⟩
      obtain ⟨i, r, p, s, rfl, -⟩ := (mem_placedList_iff rs).mp hq
      have hbelow : place ++ [] < place ++ (0 + i) :: p := List.append_left_lt (List.nil_lt_cons _ p)
      rwa [List.append_nil] at hbelow

theorem pairwise_placedList (place : Place) (index : Nat) : (rs : List (Rose α)) →
    (placedList place index rs).Pairwise fun x y => x.1 < y.1
  | [] => .nil
  | r :: rs => by
      rw [placedList, List.pairwise_append]
      refine ⟨pairwise_placed (place ++ [index]) r, pairwise_placedList place (index + 1) rs, ?_⟩
      rintro ⟨q, x⟩ hq ⟨q', x'⟩ hq'
      obtain ⟨p, s, rfl, -⟩ := (mem_placed_iff r).mp hq
      obtain ⟨i, r', p', s', rfl, -⟩ := (mem_placedList_iff rs).mp hq'
      rw [List.append_assoc]
      exact List.append_left_lt (List.cons_lt_cons_iff.mpr (.inl (by omega)))
end

/-! ## Trees of nodes -/

/-- Each node of a tree carries the whole tree below it. -/
def Unfolds (below : α → List α) (rose : α → Rose α) : Prop :=
  ∀ x, rose x = node x ((below x).map rose)

variable {below : α → List α} {rose : α → Rose α}

theorem Unfolds.follow (h : Unfolds below rose) (p : Place) (x : α) :
    Place.follow children (rose x) p = (Place.follow below x p).map rose := by
  induction p generalizing x with
  | nil => rfl
  | cons i p ih =>
      have hchildren : (rose x).children = (below x).map rose := by rw [h x, children]
      rw [Place.follow, Place.follow, hchildren, List.getElem?_map]
      cases (below x)[i]? with
      | none => rfl
      | some y => exact ih y

theorem Unfolds.mem_placed_root_iff (h : Unfolds below rose) {p : Place} {x y : α} :
    (p, y) ∈ (rose x).placed [] ↔ Place.follow below x p = some y := by
  have hvalue (y : α) : (rose y).value = y := by rw [h y, value]
  simp only [mem_placed_iff, h.follow, Option.map_eq_some_iff]
  constructor
  · rintro ⟨p, _, rfl, ⟨y, hy, rfl⟩, rfl⟩
    exact (hvalue y).symm ▸ hy
  · intro hy
    exact ⟨p, rose y, rfl, ⟨y, hy, rfl⟩, hvalue y⟩

end Rose

namespace Draft

mutual
def rose : Draft → Rose Draft
  | ⟨kind, text, attributes, children⟩ => .node ⟨kind, text, attributes, children⟩ (roseList children)

def roseList : List Draft → List (Rose Draft)
  | [] => []
  | d :: ds => rose d :: roseList ds
end

theorem unfolds_rose : Rose.Unfolds children rose := by
  have hlist (ds : List Draft) : roseList ds = ds.map rose := by
    induction ds with
    | nil => rfl
    | cons d ds ih => rw [roseList, ih, List.map_cons]
  rintro ⟨kind, text, attributes, children⟩
  rw [rose, hlist]

/-- The node at a place, where there is one. -/
def at? (d : Draft) (p : Place) : Option Draft := p.follow children d

end Draft

namespace Node

mutual
def rose : Node → Rose Node
  | ⟨kind, text, attributes, children⟩ => .node ⟨kind, text, attributes, children⟩ (roseList children)

def roseList : List Node → List (Rose Node)
  | [] => []
  | n :: ns => rose n :: roseList ns
end

theorem unfolds_rose : Rose.Unfolds children rose := by
  have hlist (ns : List Node) : roseList ns = ns.map rose := by
    induction ns with
    | nil => rfl
    | cons n ns ih => rw [roseList, ih, List.map_cons]
  rintro ⟨kind, text, attributes, children⟩
  rw [rose, hlist]

/-- The node at a place, where there is one. -/
def at? (n : Node) (p : Place) : Option Node := p.follow children n

end Node

end Treemark
