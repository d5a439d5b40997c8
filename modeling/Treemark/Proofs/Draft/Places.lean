import Treemark.Proofs.Markdown.Numbering
import Treemark.Proofs.Node.Decoding

/-!
# Places in drafts

Looking up the kinds of a draft stops at the first node, in the order of places, whose kind is unknown, and
reports its name and its place.
-/

namespace Treemark

namespace Draft

/-- The nodes are visited at all of their places. -/
theorem mem_visits_iff {d : Draft} {p : Place} {name : String} :
    (p, name) ∈ d.visits [] ↔ ∃ m, d.at? p = some m ∧ m.kind = name := by
  rw [visits, List.mem_map]
  constructor
  · rintro ⟨⟨q, m⟩, hm, heq⟩
    cases heq
    exact ⟨m, unfolds_rose.mem_placed_root_iff.mp hm, rfl⟩
  · rintro ⟨m, hm, rfl⟩
    exact ⟨(p, m), unfolds_rose.mem_placed_root_iff.mpr hm, rfl⟩

theorem pairwise_visits (place : Place) (d : Draft) : (d.visits place).Pairwise fun x y => x.1 < y.1 :=
  List.pairwise_map.mpr (d.rose.pairwise_placed place)

/-! ## The first unknown kind -/

theorem FirstUnknown.exists_place {d : Draft} {u : UnknownKind} (h : d.FirstUnknown u) :
    ∃ p m, u = { name := m.kind, place := some p } ∧ d.at? p = some m ∧
      (∀ k : Kind, ¬ k.Called m.kind) ∧
      ∀ q m', d.at? q = some m' → (∀ k : Kind, ¬ k.Called m'.kind) → q ≠ p → p < q := by
  obtain ⟨before, place, name, after, hvisits, hbefore, hname, rfl⟩ := h
  have hsorted := pairwise_visits [] d
  have hplace : (place, name) ∈ d.visits [] := by simp [hvisits]
  obtain ⟨m, hm, rfl⟩ := mem_visits_iff.mp hplace
  refine ⟨_, m, rfl, hm, hname, fun q m' hm' hunknown hq => ?_⟩
  have hmem : (q, m'.kind) ∈ d.visits [] := mem_visits_iff.mpr ⟨m', hm', rfl⟩
  rw [hvisits] at hsorted hmem
  rw [List.pairwise_append, List.pairwise_cons] at hsorted
  rw [List.mem_append, List.mem_cons] at hmem
  rcases hmem with hmem | hmem | hmem
  · obtain ⟨k, hk⟩ := hbefore _ hmem
    exact absurd hk (hunknown k)
  · exact absurd (congrArg Prod.fst hmem) hq
  · exact hsorted.2.1.1 _ hmem

theorem called_of_resolve {d m : Draft} {n : Node} {p : Place} (h : d.resolve = .ok n)
    (hm : d.at? p = some m) : ∃ k : Kind, k.Called m.kind := by
  have hnone : (d.visits []).findSome? unknown? = none := by
    rw [findSome?_visits, ← resolve, h]
    rfl
  have hmem : (p, m.kind) ∈ d.visits [] := mem_visits_iff.mpr ⟨m, hm, rfl⟩
  exact unknown?_eq_none_iff.mp (List.findSome?_eq_none_iff.mp hnone _ hmem)

end Draft

/-! ## Paths -/

theorem Place.path_toList (p : Place) : (path p).toList = "root".toList ++
    p.flatMap fun i => ".children[".toList ++ (Nat.toDigits 10 i ++ [']']) := by
  simp [path, List.flatMap_map]

/-- The brackets tell the text of a path apart into its numbers. -/
theorem Place.path_injective : Function.Injective Place.path := by
  have hbracket (i : Nat) : ']' ∉ Nat.toDigits 10 i := fun h =>
    absurd (Nat.isDigit_of_mem_toDigits (by decide) (by decide) h) (by decide)
  intro p q h
  rw [← String.toList_inj, path_toList, path_toList, List.append_right_inj] at h
  induction p generalizing q with
  | nil =>
      cases q with
      | nil => rfl
      | cons j q => simp at h
  | cons i p ih =>
      cases q with
      | nil => simp at h
      | cons j q =>
          simp only [List.flatMap_cons, List.append_assoc, List.append_right_inj,
            List.singleton_append] at h
          have hsplit := congrArg (List.splitOn ']') h
          rw [List.splitOn_append_cons_self_of_not_mem (hbracket i),
            List.splitOn_append_cons_self_of_not_mem (hbracket j), List.cons.injEq] at hsplit
          obtain rfl := Context.toDigits_injective hsplit.1
          rw [List.append_right_inj, List.cons.injEq] at h
          rw [ih h.2]

namespace Draft

/-- If all kinds of a draft are known, it is looked up to the tree that they name. Otherwise the name and the
place of the first node whose kind is unknown are reported: of all such nodes it is the one whose place comes
before those of the others. The path of a place shows the way from the root to it, and no other place has the
same. -/
theorem resolve_locates (d : Draft) :
    ((∀ p m, d.at? p = some m → ∃ k : Kind, k.Called m.kind) → ∃ n, d.resolve = .ok n ∧ d.Names n) ∧
    ((∃ p m, d.at? p = some m ∧ ∀ k : Kind, ¬ k.Called m.kind) →
      ∃ p m u, d.resolve = .error u ∧ d.at? p = some m ∧ (∀ k : Kind, ¬ k.Called m.kind) ∧
        (∀ q m', d.at? q = some m' → (∀ k : Kind, ¬ k.Called m'.kind) → q ≠ p → p < q) ∧
        u.name = m.kind ∧
        u.path = "root" ++ String.join (p.map fun i => ".children[" ++ toString i ++ "]")) ∧
    ∀ p q m m', d.at? p = some m → d.at? q = some m' → p ≠ q → Place.path p ≠ Place.path q := by
  refine ⟨fun hknown => ?_, fun ⟨p, m, hm, hunknown⟩ => ?_, fun p q _ _ _ _ hne hpath => ?_⟩
  · cases h : d.resolve with
    | ok n => exact ⟨n, rfl, (resolveAt_eq_ok_iff d).mp h⟩
    | error u =>
        obtain ⟨p, m, -, hm, hunknown, -⟩ := (resolve_eq_error_iff.mp h).exists_place
        obtain ⟨k, hk⟩ := hknown p m hm
        exact absurd hk (hunknown k)
  · cases h : d.resolve with
    | ok n =>
        obtain ⟨k, hk⟩ := called_of_resolve h hm
        exact absurd hk (hunknown k)
    | error u =>
        obtain ⟨p, m, rfl, hm, hunknown, hfirst⟩ := (resolve_eq_error_iff.mp h).exists_place
        exact ⟨p, m, _, rfl, hm, hunknown, hfirst, rfl, rfl⟩
  · exact hne (Place.path_injective hpath)

/-- An unknown kind below the first child comes before that of the second child. -/
theorem resolve_locates_deep :
    let d : Draft := ⟨"document", "", "", [⟨"section", "", "", [⟨"deep", "", "", []⟩]⟩,
      ⟨"shallow", "", "", []⟩]⟩
    (∃ p m, d.at? p = some m ∧ ∀ k : Kind, ¬ k.Called m.kind) ∧
      ∃ p m, d.at? p = some m ∧ m.kind = "deep" ∧
        "root.children[0].children[0]" =
          "root" ++ String.join (p.map fun i => ".children[" ++ toString i ++ "]") := by
  intro d
  have hunknown : ∃ p m, d.at? p = some m ∧ ∀ k : Kind, ¬ k.Called m.kind := by
    refine ⟨[1], ⟨"shallow", "", "", []⟩, rfl, fun k hk => ?_⟩
    have hname : Kind.ofName? "shallow" = none := by decide +kernel
    cases hname.symm.trans (Kind.ofName?_eq_some_iff.mpr hk)
  obtain ⟨p, m, u, hu, hm, -, -, hname, hpath⟩ := (resolve_locates d).2.1 hunknown
  have hdeep : d.resolve = .error ⟨"deep", some [0, 0]⟩ := by decide +kernel
  cases hu.symm.trans hdeep
  exact ⟨hunknown, p, m, hm, hname.symm, hpath⟩

end Draft

end Treemark
