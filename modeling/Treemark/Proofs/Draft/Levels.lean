import Treemark.Draft.Reader
import Treemark.Proofs.Node.Height

/-!
# Levels bound heights

A reader that may open so many brackets at once reads no draft that needs more: a draft of height `h`
has `h` brackets of nodes and `h - 1` brackets of lists around its deepest node.
-/

namespace Treemark

open Json

theorem Json.mapValue_ok {α β : Type} {f : α → β} {x : Reading α} {w : β} {rest : List Char}
    (h : mapValue f x = .ok (w, rest)) : ∃ v, x = .ok (v, rest) ∧ f v = w := by
  cases x with
  | error e => cases h
  | ok r =>
      obtain ⟨v, rest'⟩ := r
      cases h
      exact ⟨v, rfl, rfl⟩

/-- What holds of each value that a reader reads holds of each element of a list that it reads. -/
theorem Json.elements_forall {α : Type} {element : Reader α} {P : α → Prop}
    (hP : ∀ {s rest : List Char} {v : α}, element.read s = .ok (v, rest) → P v)
    {first : Bool} {s rest : List Char} {vs : List α}
    (h : elements element first s = .ok (vs, rest)) : ∀ v ∈ vs, P v := by
  fun_induction elements element first s generalizing vs rest with
  | case1 => cases h
  | case2 => cases h; simp
  | case3 => cases h
  | case4 => cases h
  | case5 _ s rest' hs v rest'' hv _ _ vs' rest''' he ih =>
      cases h
      intro u hu
      rcases List.mem_cons.mp hu with rfl | hu
      · exact hP hv
      · exact ih he u hu

namespace Draft

/-! ## Members -/

section Members

variable {children : Reader (List Draft)} {P : Members → Prop}

/-- A member is skipped, or it is one field that had not been there. -/
theorem readMember_cases {m m' : Members} {s rest : List Char}
    (h : readMember children m s = .ok (m', rest)) :
    m' = m ∨ ∃ f s', m.has f = false ∧ readField children m f s' = .ok (m', rest) := by
  unfold readMember at h
  split at h
  · cases h
  · split at h
    · rename_i f _
      split at h
      · cases h
      · rename_i hf
        split at h
        · cases h
        · exact .inr ⟨f, _, eq_false_of_ne_true hf, h⟩
    · split at h
      · cases h
      · split at h
        · cases h
        · cases h
          exact .inl rfl

theorem readMembers_preserves
    (hP : ∀ {m m' : Members} {f : Field} {s rest : List Char},
      P m → readField children m f s = .ok (m', rest) → P m')
    {m m' : Members} {first : Bool} {s rest : List Char} (hm : P m)
    (h : readMembers children m first s = .ok (m', rest)) : P m' := by
  fun_induction readMembers children m first s with
  | case1 => cases h
  | case2 => cases h; exact hm
  | case3 => cases h
  | case4 m _ s t hs m₁ t' ht _ _ ih =>
      rcases readMember_cases ht with rfl | ⟨f, s', _, hf⟩
      · exact ih hm h
      · exact ih (hP hm hf) h

theorem readPositions_preserves
    (hP : ∀ {m m' : Members} {f : Field} {s rest : List Char},
      P m → readField children m f s = .ok (m', rest) → P m')
    {m m' : Members} {first : Bool} {fs : List Field} {s rest : List Char} (hm : P m)
    (h : readPositions children m first fs s = .ok (m', rest)) : P m' := by
  fun_induction readPositions children m first fs s with
  | case1 m first s =>
      cases he : endElements s with
      | error e => simp [he, Except.map] at h
      | ok t => simp [he, Except.map] at h; exact h.1 ▸ hm
  | case2 => cases h
  | case3 => cases h; exact hm
  | case4 => cases h
  | case5 _ _ _ _ s t hs m₁ t' hf ih => exact ih (hP hm hf) h

end Members

/-- The children among some members need no more than so many levels. -/
def Members.Within (levels : Nat) (m : Members) : Prop :=
  ∀ ds, m.children = some ds → 2 * heightList ds ≤ levels

theorem Members.Within.empty (levels : Nat) : Members.Within levels {} := fun _ h => by cases h

theorem Members.Within.readField {levels : Nat} {children : Reader (List Draft)}
    (hc : ∀ {s rest : List Char} {ds : List Draft},
      children.read s = .ok (ds, rest) → 2 * heightList ds ≤ levels)
    {m m' : Members} {f : Field} {s rest : List Char} (hm : m.Within levels)
    (h : readField children m f s = .ok (m', rest)) : m'.Within levels := by
  cases f with
  | kind => obtain ⟨v, _, rfl⟩ := mapValue_ok h; exact hm
  | text => obtain ⟨v, _, rfl⟩ := mapValue_ok h; exact hm
  | attributes => obtain ⟨v, _, rfl⟩ := mapValue_ok h; exact hm
  | children =>
      obtain ⟨ds, hds, rfl⟩ := mapValue_ok h
      intro ds' he
      cases he
      exact hc hds

theorem Members.Within.finish {levels : Nat} {missing : Fault} {x : Reading Members}
    (hx : ∀ {m rest}, x = .ok (m, rest) → m.Within levels) {d : Draft} {rest : List Char}
    (h : finish missing x = .ok (d, rest)) : 2 * d.height ≤ levels + 2 := by
  unfold Draft.finish at h
  split at h
  · cases h
  · rename_i m rest'
    split at h
    · cases h
    · rename_i d' hd
      cases h
      obtain ⟨kind, _, rfl⟩ := Option.map_eq_some_iff.mp hd
      have hw := hx rfl
      simp only [height]
      cases hmc : m.children with
      | none => simp [heightList]
      | some ds =>
          have := hw ds hmc
          simp only [Option.getD_some]
          omega

/-! ## Readers -/

mutual
theorem height_of_nodeReader : (levels : Nat) → {s rest : List Char} → {d : Draft} →
    (nodeReader levels).read s = .ok (d, rest) → 2 * d.height ≤ levels + 1
  | 0, s, rest, d, h => by
      simp only [nodeReader, readNode] at h
      split at h
      · cases h
      · split at h <;> cases h
  | levels + 1, s, rest, d, h => by
      simp only [nodeReader, readNode] at h
      split at h
      · cases h
      · have hfield := @Members.Within.readField levels (childrenReader levels)
          (heightList_of_childrenReader levels)
        split at h
        · split at h
          · exact Members.Within.finish
              (fun hx => readPositions_preserves hfield (.empty levels) hx) h
          · exact Members.Within.finish
              (fun hx => readMembers_preserves hfield (.empty levels) hx) h
        · cases h

theorem heightList_of_childrenReader : (levels : Nat) → {s rest : List Char} → {ds : List Draft} →
    (childrenReader levels).read s = .ok (ds, rest) → 2 * heightList ds ≤ levels
  | 0, s, rest, ds, h => by
      simp only [childrenReader, readList] at h
      split at h
      · cases h
      · split at h <;> cases h
  | levels + 1, s, rest, ds, h => by
      simp only [childrenReader, readList] at h
      split at h
      · cases h
      · split at h
        · have hle := elements_forall (height_of_nodeReader levels) h
          have := heightList_le (b := (levels + 1) / 2) fun d hd => by
            have := hle d hd
            omega
          omega
        · cases h
end

theorem height_of_read {s rest : List Char} {d : Draft} (h : read s = .ok (d, rest)) :
    d.height ≤ 64 := by
  have : 2 * d.height ≤ maxLevels + 1 := height_of_nodeReader maxLevels h
  simp only [maxLevels] at this
  omega

end Draft

end Treemark
