import Treemark.Proofs.Markdown.Pass
import Treemark.Proofs.Markdown.Visits

/-!
# Passes take the steps of their trees

A pass over a tree takes the steps of the tree up to the first node that lacks a part. The headings among
them are counted in order, the depth of the lists is restored, and the pass fails with the violation of
that node. All of this is stated once for passes and steps in general and then shown of every tree.
-/

namespace Treemark

namespace Step

def firstViolation? (ss : List Step) : Option ShapeViolation := ss.findSome? violation?

def entered (ss : List Step) : List HeadingLevel := (untilViolation ss).filterMap level?

theorem firstViolation?_append (ss ts : List Step) :
    firstViolation? (ss ++ ts) = (firstViolation? ss).or (firstViolation? ts) :=
  List.findSome?_append

theorem untilViolation_append_of_none {ss : List Step} (h : firstViolation? ss = none)
    (ts : List Step) : untilViolation (ss ++ ts) = ss ++ untilViolation ts := by
  induction ss with
  | nil => rfl
  | cons s ss ih =>
      simp only [firstViolation?, List.findSome?_cons] at h
      split at h
      · cases h
      · rename_i hs
        simp only [List.cons_append, untilViolation, hs, Option.isSome_none, Bool.false_eq_true,
          ↓reduceIte, ih h]

theorem untilViolation_of_none {ss : List Step} (h : firstViolation? ss = none) :
    untilViolation ss = ss := by
  simpa [untilViolation] using untilViolation_append_of_none h []

theorem untilViolation_append_of_some {ss : List Step} {v : ShapeViolation}
    (h : firstViolation? ss = some v) (ts : List Step) :
    untilViolation (ss ++ ts) = untilViolation ss := by
  induction ss with
  | nil => cases h
  | cons s ss ih =>
      simp only [firstViolation?, List.findSome?_cons] at h
      split at h
      · rename_i hs
        simp only [List.cons_append, untilViolation, hs, Option.isSome_some, ↓reduceIte]
      · rename_i hs
        simp only [List.cons_append, untilViolation, hs, Option.isSome_none, Bool.false_eq_true,
          ↓reduceIte, ih h]

theorem entered_append_of_none {ss : List Step} (h : firstViolation? ss = none) (ts : List Step) :
    entered (ss ++ ts) = entered ss ++ entered ts := by
  simp only [entered, untilViolation_append_of_none h, untilViolation_of_none h,
    List.filterMap_append]

theorem entered_append_of_some {ss : List Step} {v : ShapeViolation}
    (h : firstViolation? ss = some v) (ts : List Step) : entered (ss ++ ts) = entered ss := by
  simp only [entered, untilViolation_append_of_some h]

theorem kind_of_level? {n : Node} {level : HeadingLevel} (h : (visit n).level? = some level) :
    n.kind = .heading level := by
  obtain ⟨kind, text, attributes, children⟩ := n
  cases kind <;> cases h
  rfl

end Step

/-! ## Counting headings -/

namespace Context

def enterAll (c : Context) (levels : List HeadingLevel) : Context := levels.foldl enter c

theorem enterAll_append (c : Context) (ls ms : List HeadingLevel) :
    c.enterAll (ls ++ ms) = (c.enterAll ls).enterAll ms :=
  List.foldl_append

theorem enter_depth (c : Context) (level : HeadingLevel) : (c.enter level).depth = c.depth := by
  cases level <;> rfl

theorem enterAll_depth (c : Context) (levels : List HeadingLevel) :
    (c.enterAll levels).depth = c.depth := by
  induction levels generalizing c with
  | nil => rfl
  | cons level levels ih => exact (ih (c.enter level)).trans (enter_depth c level)

def atDepth (c : Context) (depth : Nat) : Context := { c with depth }

theorem enterAll_atDepth (c : Context) (depth : Nat) (levels : List HeadingLevel) :
    (c.atDepth depth).enterAll levels = (c.enterAll levels).atDepth depth := by
  induction levels generalizing c with
  | nil => rfl
  | cons level levels ih =>
      have henter : (c.atDepth depth).enter level = (c.enter level).atDepth depth := by
        cases level <;> rfl
      exact (congrArg (enterAll · levels) henter).trans (ih (c.enter level))

theorem atDepth_of_eq {c : Context} {depth : Nat} (h : c.depth = depth) : c.atDepth depth = c := by
  subst h
  rfl

theorem leave_enterAll_deeper (c : Context) (levels : List HeadingLevel) :
    (c.deeper.enterAll levels).leave c = c.enterAll levels := by
  have hdeeper : c.deeper.enterAll levels = (c.enterAll levels).atDepth (c.depth + 1) :=
    enterAll_atDepth c (c.depth + 1) levels
  rw [hdeeper]
  exact atDepth_of_eq (enterAll_depth c levels)

end Context

/-! ## Taking steps -/

def violationOf {α : Type} : Except ShapeViolation α → Option ShapeViolation
  | .ok _ => none
  | .error v => some v

/-- A pass takes these steps from every context. -/
structure Pass.Takes {α : Type} (p : Pass α) (ss : List Step) : Prop where
  context : ∀ c, (p.runFrom c).2 = c.enterAll (Step.entered ss)
  outcome : ∀ c, violationOf (p.runFrom c).1 = Step.firstViolation? ss
  /-- Without headings the counters do not matter. -/
  uncounted : Step.entered ss = [] →
    ∀ c c', c.depth = c'.depth → (p.runFrom c).1 = (p.runFrom c').1

namespace Pass.Takes

variable {α β : Type} {ss ts : List Step} {p : Pass α}

theorem pure (a : α) : Takes (Pure.pure a) [] :=
  ⟨fun _ => rfl, fun _ => rfl, fun _ _ _ _ => rfl⟩

theorem run_cases (hp : p.Takes ss) (c : Context) :
    (∃ v, p.runFrom c = (.error v, c.enterAll (Step.entered ss)) ∧
      Step.firstViolation? ss = some v) ∨
    ∃ a, p.runFrom c = (.ok a, c.enterAll (Step.entered ss)) ∧
      Step.firstViolation? ss = none := by
  have hcontext := hp.context c
  have houtcome := hp.outcome c
  rcases hrun : p.runFrom c with ⟨v | a, after⟩
  · rw [hrun] at hcontext houtcome
    exact .inl ⟨v, by rw [← hcontext], houtcome.symm⟩
  · rw [hrun] at hcontext houtcome
    exact .inr ⟨a, by rw [← hcontext], houtcome.symm⟩

theorem bind {f : α → Pass β} (hp : p.Takes ss) (hf : ∀ a, (f a).Takes ts) :
    (p >>= f).Takes (ss ++ ts) := by
  constructor
  · intro c
    rcases hp.run_cases c with ⟨v, hrun, hfirst⟩ | ⟨a, hrun, hfirst⟩
    · rw [runFrom_bind, hrun, Step.entered_append_of_some hfirst]
    · rw [runFrom_bind, hrun, Step.entered_append_of_none hfirst, Context.enterAll_append]
      exact (hf a).context _
  · intro c
    rcases hp.run_cases c with ⟨v, hrun, hfirst⟩ | ⟨a, hrun, hfirst⟩
    · rw [runFrom_bind, hrun, Step.firstViolation?_append, hfirst]
      rfl
    · rw [runFrom_bind, hrun, Step.firstViolation?_append, hfirst]
      exact (hf a).outcome _
  · intro hnone c c' hdepth
    rcases hp.run_cases c with ⟨v, hrun, hfirst⟩ | ⟨a, hrun, hfirst⟩
    · rcases hp.run_cases c' with ⟨v', hrun', hfirst'⟩ | ⟨a', hrun', hfirst'⟩
      · cases hfirst.symm.trans hfirst'
        rw [runFrom_bind, runFrom_bind, hrun, hrun']
      · cases hfirst.symm.trans hfirst'
    · rw [Step.entered_append_of_none hfirst, List.append_eq_nil_iff] at hnone
      have hsame := hp.uncounted hnone.1 c c' hdepth
      rcases hp.run_cases c' with ⟨v', hrun', hfirst'⟩ | ⟨a', hrun', hfirst'⟩
      · cases hfirst.symm.trans hfirst'
      · rw [hrun, hrun'] at hsame
        cases hsame
        rw [runFrom_bind, runFrom_bind, hrun, hrun']
        refine (hf a).uncounted hnone.2 _ _ ?_
        rw [Context.enterAll_depth, Context.enterAll_depth, hdepth]

theorem thenPure (hp : p.Takes ss) (f : α → β) : (p >>= fun a => Pure.pure (f a)).Takes ss := by
  have h : (p >>= fun a => Pure.pure (f a)).Takes (ss ++ []) := hp.bind fun a => pure (f a)
  rwa [List.append_nil] at h

theorem map (hp : p.Takes ss) (f : α → β) : (f <$> p).Takes ss := by
  rw [map_eq_pure_bind]
  exact hp.thenPure f

theorem quiet {s : Step} (hs : s.Quiet) (hp : p.Takes ss) : p.Takes (s :: ss) := by
  have hfirst : Step.firstViolation? (s :: ss) = Step.firstViolation? ss := by
    simp only [Step.firstViolation?, List.findSome?_cons, hs.1]
  have hentered : Step.entered (s :: ss) = Step.entered ss := by
    simp only [Step.entered, Step.untilViolation, hs.1, Option.isSome_none, Bool.false_eq_true,
      ↓reduceIte, List.filterMap_cons, hs.2]
  constructor
  · rw [hentered]; exact hp.context
  · rw [hfirst]; exact hp.outcome
  · rw [hentered]; exact hp.uncounted

theorem throw {s : Step} {v : ShapeViolation} (hv : s.violation? = some v) (hl : s.level? = none) :
    (MonadExcept.throw v : Pass α).Takes [s] := by
  have hfirst : Step.firstViolation? [s] = some v := by
    simp only [Step.firstViolation?, List.findSome?_cons, hv]
  have hentered : Step.entered [s] = [] := by
    simp only [Step.entered, Step.untilViolation, hv, Option.isSome_some, ↓reduceIte,
      List.filterMap_cons, hl, List.filterMap_nil]
  constructor
  · intro c; rw [hentered]; rfl
  · intro c; rw [hfirst]; rfl
  · intro _ c c' _; rfl

theorem enterHeading {f : String → Pass α} {s : Step} {level : HeadingLevel}
    (hv : s.violation? = none) (hl : s.level? = some level) (hf : ∀ number, (f number).Takes ss) :
    (Pass.enterHeading level >>= f).Takes (s :: ss) := by
  have hfirst : Step.firstViolation? (s :: ss) = Step.firstViolation? ss := by
    simp only [Step.firstViolation?, List.findSome?_cons, hv]
  have hentered : Step.entered (s :: ss) = level :: Step.entered ss := by
    simp only [Step.entered, Step.untilViolation, hv, Option.isSome_none, Bool.false_eq_true,
      ↓reduceIte, List.filterMap_cons, hl]
  constructor
  · intro c
    rw [hentered, runFrom_bind, runFrom_enterHeading]
    exact (hf _).context (c.enter level)
  · intro c
    rw [hfirst, runFrom_bind, runFrom_enterHeading]
    exact (hf _).outcome (c.enter level)
  · intro hnone
    rw [hentered] at hnone
    cases hnone

theorem inList (hp : p.Takes ss) : (Pass.inList p).Takes ss := by
  constructor
  · intro c
    rw [runFrom_inList, hp.context]
    exact Context.leave_enterAll_deeper c _
  · intro c
    exact hp.outcome c.deeper
  · intro hnone c c' hdepth
    exact hp.uncounted hnone c.deeper c'.deeper (congrArg (· + 1) hdepth)

/-- Only the depth of the context may be looked at. -/
theorem get {f : Context → Pass α} (hf : ∀ c, (f c).Takes ss)
    (hdepth : ∀ c c', c.depth = c'.depth → f c = f c') : (MonadState.get >>= f).Takes ss := by
  constructor
  · intro c
    exact (hf c).context c
  · intro c
    exact (hf c).outcome c
  · intro hnone c c' h
    change ((f c).runFrom c).1 = ((f c').runFrom c').1
    rw [hdepth c c' h]
    exact (hf c').uncounted hnone c c' h

theorem mapM {γ : Type} {f : γ → Pass α} {t : γ → List Step} {xs : List γ}
    (hf : ∀ x ∈ xs, (f x).Takes (t x)) : (xs.mapM f).Takes (xs.flatMap t) := by
  induction xs with
  | nil => exact pure []
  | cons x xs ih =>
      rw [List.mapM_cons, List.flatMap_cons]
      refine .bind (hf x List.mem_cons_self) fun a => ?_
      exact .thenPure (ih fun y hy => hf y (List.mem_cons_of_mem _ hy)) _

end Pass.Takes

/-! ## Trees -/

namespace Node

section

variable {ns : List Node}

theorem renderList_takes (h : ∀ n ∈ ns, n.render.Takes n.trail) : (renderList ns).Takes (trailList ns) := by
  rw [renderList_eq, trailList_eq]
  exact .mapM h

theorem renderCells_takes (h : ∀ c ∈ ns, c.kind = .cell → ∀ m ∈ c.children, m.kind = .cell →
    m.render.Takes m.trail) : (renderCells ns).Takes (trailCells ns) := by
  rw [renderCells_eq, trailCells_eq]
  induction ns with
  | nil => exact .pure []
  | cons c ns ih =>
      have hns := ih fun c' hc' => h c' (List.mem_cons_of_mem _ hc')
      by_cases hcell : c.isCell = true
      · rw [List.filter_cons_of_pos hcell, List.mapM_cons, List.flatMap_cons, if_pos hcell]
        refine .bind (renderList_takes fun m hm => ?_) fun parts => .thenPure hns _
        obtain ⟨hm, hpart⟩ := List.mem_filter.mp hm
        exact h c List.mem_cons_self (isCell_iff.mp hcell) m hm (isCell_iff.mp hpart)
      · rw [List.filter_cons_of_neg hcell, List.flatMap_cons, if_neg hcell]
        exact .quiet ⟨rfl, rfl⟩ hns

theorem renderRows_takes (h : ∀ m : Node, m.PartOf ns → m.render.Takes m.trail) :
    (renderRows ns).Takes (trailRows ns) := by
  rw [renderRows_eq, trailRows_eq]
  refine .mapM fun r hr => .map (renderCells_takes fun c hc hcell m hm hpart => h m ?_) _
  obtain ⟨hr, hrow⟩ := List.mem_filter.mp hr
  exact ⟨r, hr, isRow_iff.mp hrow, c, hc, hcell, hm, hpart⟩

end

/-- Rendering a tree takes the steps of its trail. -/
theorem render_takes (n : Node) : n.render.Takes n.trail := by
  induction n using renders_induction with
  | step n ih =>
      cases n.form with
      | lacking h =>
          rw [render_lacking h, trail_lacking h]
          exact .throw h (level?_lacking h)
      | leaf h =>
          obtain ⟨text, htext⟩ := render_leaf h
          rw [htext, trail_leaf h]
          exact .quiet (quiet_leaf h) (.pure text)
      | group h =>
          rw [render_group h, trail_group h]
          exact .quiet (quiet_group h) (.thenPure (renderList_takes fun m hm => ih 0 m (.of_group h hm)) _)
      | heading =>
          rw [render_heading, trail_heading]
          refine .enterHeading violation?_heading rfl fun number => .thenPure (.thenPure ?_ _) _
          exact renderList_takes fun m hm => ih 0 m (.child rfl hm)
      | item =>
          rw [render_item, trail_item]
          exact .quiet ⟨rfl, rfl⟩ (ih 0 _ .content)
      | plain =>
          rw [render_plain, trail_plain]
          refine .quiet ⟨rfl, rfl⟩ (.bind (renderList_takes fun m hm => ih 0 m (.child rfl hm)) ?_)
          intro own
          exact .thenPure (renderList_takes fun m hm => ih 0 m (.again hm)) _
      | list hkind =>
          rw [render_list hkind, trail_list hkind]
          refine .quiet (quiet_list hkind) (.thenPure (.inList (.get (fun c => ?_) ?_)) _)
          · exact .thenPure (renderList_takes fun m hm => ih 1 m (.item hkind hm)) _
          · intro c c' h
            simp only [Context.indent, h]
      | table =>
          rw [render_table, trail_table]
          refine .quiet ⟨rfl, rfl⟩ (.bind (renderRows_takes fun m hm => ih 0 m (.part hm)) ?_)
          intro own
          exact .thenPure (renderRows_takes fun m hm => ih 0 m (.nested hm)) _

end Node

end Treemark
