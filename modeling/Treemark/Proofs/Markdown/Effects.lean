import Treemark.Proofs.Markdown.Steps

/-!
# What a rendering pass leaves behind

A pass leaves the context with the headings counted that it came to and with the depth it found, and it
fails just with the first node on its trail that lacks a part. The trail depends on the tree alone.
-/

namespace Treemark

theorem Part.name_injective {p q : Part} (h : p.name = q.name) : p = q := by
  cases p <;> cases q <;> simp [name] at h <;> rfl

namespace Node

/-! ## The first node that lacks a part -/

/-- A node without children lacks a part of this name if its kind needs a child. -/
inductive Lacks : Node → String → Prop where
  | item (text attributes : String) : Lacks ⟨.item, text, attributes, []⟩ "item content"
  | itemize (text attributes : String) : Lacks ⟨.itemize, text, attributes, []⟩ "list body"
  | enumerate (text attributes : String) : Lacks ⟨.enumerate, text, attributes, []⟩ "list body"
  | paragraph (text attributes : String) : Lacks ⟨.paragraph, text, attributes, []⟩ "paragraph body"
  | table (text attributes : String) : Lacks ⟨.table, text, attributes, []⟩ "rows"

theorem Lacks.missing? {n : Node} {part : String} (h : n.Lacks part) :
    ∃ p, n.missing? = some p ∧ p.name = part := by
  cases h <;> exact ⟨_, rfl, rfl⟩

theorem lacks_of_missing? {n : Node} {p : Part} (h : n.missing? = some p) : n.Lacks p.name := by
  obtain ⟨kind, text, attributes, children⟩ := n
  cases children with
  | cons m ms => cases h
  | nil =>
      cases kind <;> cases h
      · exact .itemize text attributes
      · exact .enumerate text attributes
      · exact .item text attributes
      · exact .paragraph text attributes
      · exact .table text attributes

theorem violation?_eq_some_iff {n : Node} {v : ShapeViolation} :
    n.violation? = some v ↔ v.kind = n.kind ∧ n.Lacks v.missing.name := by
  constructor
  · intro h
    obtain ⟨p, hp, rfl⟩ := Option.map_eq_some_iff.mp h
    exact ⟨rfl, lacks_of_missing? hp⟩
  · rintro ⟨hkind, hlacks⟩
    obtain ⟨p, hp, hname⟩ := hlacks.missing?
    obtain ⟨kind, missing⟩ := v
    cases hkind
    cases Part.name_injective hname
    exact Option.map_eq_some_iff.mpr ⟨missing, hp, rfl⟩

theorem violation?_eq_none_iff {n : Node} : n.violation? = none ↔ ∀ part, ¬ n.Lacks part := by
  constructor
  · intro h part hlacks
    obtain ⟨p, hp, _⟩ := hlacks.missing?
    simp [violation?, hp] at h
  · intro h
    cases hp : n.missing? with
    | none => simp [violation?, hp]
    | some p => exact absurd (lacks_of_missing? hp) (h p.name)

theorem Lacks.level?_visit {n : Node} {part : String} (h : n.Lacks part) :
    (Step.visit n).level? = none := by
  cases h <;> rfl

end Node

namespace Step

theorem forall_violation?_eq_none_iff {ss : List Step} :
    (∀ s ∈ ss, s.violation? = none) ↔ ∀ n part, .visit n ∈ ss → ¬ n.Lacks part := by
  constructor
  · intro h n part hn
    exact Node.violation?_eq_none_iff.mp (h (.visit n) hn) part
  · intro h s hs
    cases s with
    | visit n => exact Node.violation?_eq_none_iff.mpr fun part => h n part hs
    | skip kind => rfl

theorem firstViolation?_eq_none_iff {ss : List Step} :
    firstViolation? ss = none ↔ ∀ n part, .visit n ∈ ss → ¬ n.Lacks part := by
  rw [firstViolation?, List.findSome?_eq_none_iff, forall_violation?_eq_none_iff]

theorem firstViolation?_eq_some_iff {ss : List Step} {v : ShapeViolation} :
    firstViolation? ss = some v ↔ ∃ before n after, ss = before ++ .visit n :: after ∧
      (∀ k part, .visit k ∈ before → ¬ k.Lacks part) ∧
      v.kind = n.kind ∧ n.Lacks v.missing.name := by
  rw [firstViolation?, List.findSome?_eq_some_iff]
  constructor
  · rintro ⟨before, s, after, rfl, hs, hbefore⟩
    cases s with
    | visit n =>
        exact ⟨before, n, after, rfl, forall_violation?_eq_none_iff.mp hbefore,
          Node.violation?_eq_some_iff.mp hs⟩
    | skip kind => cases hs
  · rintro ⟨before, n, after, rfl, hbefore, hn⟩
    exact ⟨before, .visit n, after, rfl, Node.violation?_eq_some_iff.mpr hn,
      forall_violation?_eq_none_iff.mpr hbefore⟩

/-- The headings in front of the first node that lacks a part are entered. -/
theorem entered_of_lacks {before : List Step} {n : Node} {part : String}
    (hbefore : ∀ k part, .visit k ∈ before → ¬ k.Lacks part) (hn : n.Lacks part)
    (after : List Step) : entered (before ++ .visit n :: after) = before.filterMap level? := by
  have hnone := firstViolation?_eq_none_iff.mpr hbefore
  obtain ⟨p, hp, _⟩ := hn.missing?
  have hv : (visit n).violation? = some ⟨n.kind, p⟩ := by simp [violation?, Node.violation?, hp]
  rw [entered_append_of_none hnone]
  simp only [entered, untilViolation_of_none hnone, untilViolation, hv, Option.isSome_some,
    ↓reduceIte, List.filterMap_cons, hn.level?_visit, List.filterMap_nil, List.append_nil]

end Step

namespace Node

/-! ## The outcome and the context -/

theorem violationOf_eq_some_iff {α : Type} {r : Except ShapeViolation α} {v : ShapeViolation} :
    violationOf r = some v ↔ r = .error v := by
  cases r <;> simp [violationOf]

theorem renderFrom_error_iff {n : Node} {c : Context} {v : ShapeViolation} :
    (n.renderFrom c).1 = .error v ↔ Step.firstViolation? n.trail = some v := by
  rw [← violationOf_eq_some_iff, ← (render_takes n).outcome c]
  rfl

/-- From every context a pass ends with the violation of the first node on its trail that lacks a part,
and it ends so only if there is such a node. -/
theorem renderFrom_fails_iff (n : Node) (c : Context) :
    ((∃ v, (n.renderFrom c).1 = .error v) ↔ ∃ m part, .visit m ∈ n.trail ∧ m.Lacks part) ∧
    ∀ v, (n.renderFrom c).1 = .error v ↔ ∃ before m after, n.trail = before ++ .visit m :: after ∧
      (∀ k part, .visit k ∈ before → ¬ k.Lacks part) ∧
      v.kind = m.kind ∧ m.Lacks v.missing.name := by
  refine ⟨⟨?_, ?_⟩, fun v => renderFrom_error_iff.trans Step.firstViolation?_eq_some_iff⟩
  · rintro ⟨v, hv⟩
    obtain ⟨before, m, after, htrail, _, _, hm⟩ :=
      Step.firstViolation?_eq_some_iff.mp (renderFrom_error_iff.mp hv)
    exact ⟨m, v.missing.name, by simp [htrail], hm⟩
  · rintro ⟨m, part, hmem, hm⟩
    cases hfirst : Step.firstViolation? n.trail with
    | none => exact absurd hm (Step.firstViolation?_eq_none_iff.mp hfirst m part hmem)
    | some v => exact ⟨v, renderFrom_error_iff.mpr hfirst⟩

/-- A pass restores the depth, and it counts the headings on its trail: all of them if it comes to the
end, and those in front of the first node that lacks a part if it fails. -/
theorem renderFrom_context (n : Node) (c : Context) :
    (n.renderFrom c).2.depth = c.depth ∧
    (n.renderFrom c).2 = n.levels.foldl Context.enter c ∧
    match (n.renderFrom c).1 with
    | .ok _ => n.levels = n.trail.filterMap Step.level?
    | .error v => ∃ before m after, n.trail = before ++ .visit m :: after ∧
        (∀ k part, .visit k ∈ before → ¬ k.Lacks part) ∧
        v.kind = m.kind ∧ m.Lacks v.missing.name ∧
        n.levels = before.filterMap Step.level? := by
  have hcontext : (n.renderFrom c).2 = n.levels.foldl Context.enter c := (render_takes n).context c
  refine ⟨?_, hcontext, ?_⟩
  · rw [hcontext]
    exact c.enterAll_depth n.levels
  · cases hr : (n.renderFrom c).1 with
    | ok markdown =>
        have hfirst : none = Step.firstViolation? n.trail :=
          (congrArg violationOf hr).symm.trans ((render_takes n).outcome c)
        simp only [levels, steps, Step.untilViolation_of_none hfirst.symm]
    | error v =>
        obtain ⟨before, m, after, htrail, hbefore, hkind, hm⟩ :=
          Step.firstViolation?_eq_some_iff.mp (renderFrom_error_iff.mp hr)
        refine ⟨before, m, after, htrail, hbefore, hkind, hm, ?_⟩
        have hentered := Step.entered_of_lacks hbefore hm after
        rwa [← htrail] at hentered

end Node

end Treemark
