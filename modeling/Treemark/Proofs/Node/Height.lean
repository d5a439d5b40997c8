import Treemark.Draft

/-!
# Heights

The height of a tree is the number of nodes on its longest way from the root to a leaf. Looking up the
kinds of a draft keeps its height, and the draft of a tree, which names each kind as it is written, looks
up to the tree.
-/

namespace Treemark

namespace Node

mutual
def height : Node → Nat
  | ⟨_, _, _, children⟩ => 1 + heightList children

def heightList : List Node → Nat
  | [] => 0
  | n :: ns => max (height n) (heightList ns)
end

theorem height_pos (n : Node) : 0 < n.height := by
  obtain ⟨_, _, _, children⟩ := n
  simp only [height]
  omega

mutual
def draft : Node → Draft
  | ⟨kind, text, attributes, children⟩ =>
    { kind := kind.name, text, attributes, children := draftList children }

def draftList : List Node → List Draft
  | [] => []
  | n :: ns => draft n :: draftList ns
end

end Node

namespace Draft

mutual
def height : Draft → Nat
  | ⟨_, _, _, children⟩ => 1 + heightList children

def heightList : List Draft → Nat
  | [] => 0
  | d :: ds => max (height d) (heightList ds)
end

theorem heightList_le {ds : List Draft} {b : Nat} (h : ∀ d ∈ ds, d.height ≤ b) :
    heightList ds ≤ b := by
  induction ds with
  | nil => exact Nat.zero_le b
  | cons d ds ih =>
      have hd := h d (by simp)
      have hds := ih fun e he => h e (by simp [he])
      simp only [heightList]
      omega

/-! ## Looking up kinds -/

mutual
theorem height_of_resolveAt {place : Place} {n : Node} : (d : Draft) →
    d.resolveAt place = .ok n → n.height = d.height
  | ⟨kind, text, attributes, children⟩, h => by
      simp only [resolveAt] at h
      split at h
      · cases h
      · split at h
        · cases h
        · rename_i ns hns
          cases h
          simp only [Node.height, height, heightList_of_resolveListAt children hns]

theorem heightList_of_resolveListAt {place : Place} {i : Nat} {ns : List Node} : (ds : List Draft) →
    resolveListAt place i ds = .ok ns → Node.heightList ns = heightList ds
  | [], h => by
      simp only [resolveListAt] at h
      cases h
      rfl
  | d :: ds, h => by
      simp only [resolveListAt] at h
      split at h
      · cases h
      · rename_i n hn
        split at h
        · cases h
        · rename_i ns hns
          cases h
          simp only [Node.heightList, heightList, height_of_resolveAt d hn,
            heightList_of_resolveListAt ds hns]
end

end Draft

theorem Kind.ofName?_name (k : Kind) : Kind.ofName? k.name = some k := by
  cases k with
  | heading level => cases level <;> decide
  | _ => decide

namespace Node

mutual
theorem resolveAt_draft (place : Place) : (n : Node) → n.draft.resolveAt place = .ok n
  | ⟨kind, text, attributes, children⟩ => by
      simp only [draft, Draft.resolveAt, Kind.ofName?_name, resolveListAt_draftList place 0 children]

theorem resolveListAt_draftList (place : Place) (i : Nat) : (ns : List Node) →
    Draft.resolveListAt place i (draftList ns) = .ok ns
  | [] => rfl
  | n :: ns => by
      simp only [draftList, Draft.resolveListAt, resolveAt_draft (place ++ [i]) n,
        resolveListAt_draftList place (i + 1) ns]
end

end Node

end Treemark
