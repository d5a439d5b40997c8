import Mathlib.Data.List.Forall2
import Treemark.Proofs.Draft.Spelling
import Treemark.Proofs.Node.RoundTrip

/-!
# Trees are read as they are spelled

A text is read as a tree just if it spells the tree, with nothing but blanks around it.
-/

namespace Treemark

open Json

/-- A kind goes by its own name and by its aliases. -/
def Kind.Called (k : Kind) (name : String) : Prop := name = k.name ∨ (name, k) ∈ Kind.aliases

/-- The tree has the shape and the texts of the draft, and the draft calls its kinds by their names. -/
inductive Draft.Names : Draft → Node → Prop where
  | mk {name text attributes : String} {k : Kind} {ds : List Draft} {ns : List Node} :
      k.Called name → List.Forall₂ Draft.Names ds ns →
      Draft.Names ⟨name, text, attributes, ds⟩ ⟨k, text, attributes, ns⟩

namespace Node

/-- The text spells the tree: blanks, a draft of the tree with at most 127 brackets open at once, and
blanks up to the end. -/
def SpelledBy (n : Node) (text : String) : Prop :=
  ∃ d s r, Blanks text.toList s ∧ Draft.Spelled 127 s d r ∧ d.Names n ∧ Blanks r []

end Node

/-! ## Kinds -/

theorem Kind.ofName?_alias : ∀ x ∈ Kind.aliases, Kind.ofName? x.1 = some x.2 := by
  decide

theorem Kind.ofName?_eq_some_iff {k : Kind} {name : String} :
    Kind.ofName? name = some k ↔ k.Called name := by
  constructor
  · intro h
    rw [ofName?, Option.or_eq_some_iff] at h
    rcases h with h | ⟨-, h⟩
    · have hname := List.find?_some h
      exact .inl (of_decide_eq_true hname).symm
    · obtain ⟨before, after, heq, -⟩ := List.lookup_eq_some_iff.mp h
      exact .inr (by simp [heq])
  · rintro (rfl | h)
    · exact ofName?_name k
    · exact ofName?_alias _ h

namespace Draft

mutual
theorem resolveAt_eq_ok_iff {place : Place} {n : Node} : (d : Draft) →
    (d.resolveAt place = .ok n ↔ d.Names n)
  | ⟨name, text, attributes, ds⟩ => by
      simp only [resolveAt]
      constructor
      · intro h
        split at h
        · cases h
        · rename_i k hk
          split at h
          · cases h
          · rename_i ns hns
            cases h
            exact .mk (Kind.ofName?_eq_some_iff.mp hk) ((resolveListAt_eq_ok_iff ds).mp hns)
      · rintro ⟨hk, hns⟩
        simp only [Kind.ofName?_eq_some_iff.mpr hk, (resolveListAt_eq_ok_iff ds).mpr hns]

theorem resolveListAt_eq_ok_iff {place : Place} {i : Nat} {ns : List Node} : (ds : List Draft) →
    (resolveListAt place i ds = .ok ns ↔ List.Forall₂ Draft.Names ds ns)
  | [] => by
      simp [resolveListAt, eq_comm]
  | d :: ds => by
      simp only [resolveListAt]
      constructor
      · intro h
        split at h
        · cases h
        · rename_i n hn
          split at h
          · cases h
          · rename_i ns hns
            cases h
            exact .cons ((resolveAt_eq_ok_iff d).mp hn) ((resolveListAt_eq_ok_iff ds).mp hns)
      · rintro (_ | ⟨hn, hns⟩)
        simp only [(resolveAt_eq_ok_iff d).mpr hn, (resolveListAt_eq_ok_iff ds).mpr hns]
end

end Draft

theorem checkEnd_eq_ok_iff {r : List Char} : checkEnd r = .ok () ↔ Blanks r [] := by
  unfold checkEnd
  constructor
  · intro h
    split at h
    · exact blanks_of_skipBlanks ‹_›
    · cases h
  · intro h
    have hend : skipBlanks r = [] := h.skipBlanks_eq
    rw [if_pos hend]

namespace Node

/-- A text is read as a tree just if it spells it. -/
theorem parse_eq_ok_iff (text : String) (n : Node) : parse text = .ok n ↔ n.SpelledBy text := by
  constructor
  · intro h
    unfold parse at h
    split at h
    · cases h
    · rename_i d r hread
      split at h
      · cases h
      · rename_i hend
        obtain ⟨s, hs, hd⟩ := Draft.read_eq_ok_iff.mp hread
        have hn := Draft.resolveAt_eq_ok_iff d |>.mp (Draft.resolved_eq_ok_iff.mp h)
        exact ⟨d, s, r, hs, hd, hn, checkEnd_eq_ok_iff.mp hend⟩
  · rintro ⟨d, s, r, hs, hd, hn, hr⟩
    have hread : Draft.read text.toList = .ok (d, r) := Draft.read_eq_ok_iff.mpr ⟨s, hs, hd⟩
    have hresolved : d.resolved = .ok n :=
      Draft.resolved_eq_ok_iff.mpr ((Draft.resolveAt_eq_ok_iff d).mpr hn)
    simp only [parse, hread, checkEnd_eq_ok_iff.mpr hr, hresolved]

-- A value without a meaning may hold a number beyond all ranges and half of a pair.
example : parse "\x7b\"x\": [1e999, \"\\ud800\"], \"k\\u0069nd\": \"textbf\" \x7d" =
    .ok { kind := .bold } := by
  decide +kernel

end Node

end Treemark
