import Treemark.Proofs.Markdown.Indented
import Treemark.Proofs.Markdown.Steps

/-!
# Rendering at different depths

Two passes over a tree, from the same counters but at different depths, end alike: both with the same
violation, or with texts of which one is the other with deeper indentation.
-/

namespace Treemark

namespace Context

/-- The same counters inside `k` more lists. -/
def within (c : Context) (k : Nat) : Context := c.atDepth (c.depth + k)

theorem enter_within (c : Context) (k : Nat) (level : HeadingLevel) :
    (c.within k).enter level = (c.enter level).within k := by
  cases level <;> rfl

theorem number_within (c : Context) (k : Nat) (level : HeadingLevel) :
    (c.within k).number level = c.number level := by
  cases level <;> rfl

theorem deeper_within (c : Context) (k : Nat) : (c.within k).deeper = c.deeper.within k := by
  simp only [within, atDepth, deeper, Nat.add_right_comm]

theorem leave_within (after c : Context) (k : Nat) :
    (after.within k).leave (c.within k) = (after.leave c).within k := rfl

theorem indent_within (c : Context) (k : Nat) :
    (c.deeper.within k).indent = tabs k ++ c.deeper.indent := by
  have hdepth : (c.deeper.within k).depth - 1 = k + (c.deeper.depth - 1) := by
    simp only [within, atDepth, deeper]
    omega
  rw [indent, indent, hdepth, tabs, tabs, tabs, ← String.ofList_append, ← List.replicate_add]

end Context

/-- Two passes fail alike, or give related values. -/
inductive Outcomes {α β : Type} (R : α → β → Prop) :
    Except ShapeViolation α → Except ShapeViolation β → Prop where
  | ok {a : α} {b : β} : R a b → Outcomes R (.ok a) (.ok b)
  | error (v : ShapeViolation) : Outcomes R (.error v) (.error v)

theorem Outcomes.error_or_ok {α β : Type} {R : α → β → Prop} {r : Except ShapeViolation α}
    {r' : Except ShapeViolation β} (h : Outcomes R r r') :
    (∃ v, r = .error v ∧ r' = .error v) ∨ ∃ a b, r = .ok a ∧ r' = .ok b ∧ R a b := by
  cases h with
  | ok h => exact .inr ⟨_, _, rfl, rfl, h⟩
  | error v => exact .inl ⟨v, rfl, rfl⟩

/-- From a context and from inside `k` more lists two passes have related outcomes, and they leave the
same counters behind. -/
structure Pass.Alike {α β : Type} (k : Nat) (R : α → β → Prop) (p : Pass α) (q : Pass β)
    (c : Context) : Prop where
  outcome : Outcomes R (p.runFrom c).1 (q.runFrom (c.within k)).1
  context : (q.runFrom (c.within k)).2 = (p.runFrom c).2.within k

namespace Pass.Alike

variable {α β γ δ : Type} {k : Nat} {R : α → β → Prop} {S : γ → δ → Prop}
  {p : Pass α} {q : Pass β} {c : Context}

theorem pure {a : α} {b : β} (h : R a b) (c : Context) :
    Alike k R (Pure.pure a) (Pure.pure b) c :=
  ⟨.ok h, rfl⟩

theorem throw (v : ShapeViolation) (c : Context) :
    Alike k R (MonadExcept.throw v) (MonadExcept.throw v) c :=
  ⟨.error v, rfl⟩

theorem bind {f : α → Pass γ} {g : β → Pass δ} (hp : Alike k R p q c)
    (hf : ∀ a b, R a b → ∀ c, Alike k S (f a) (g b) c) : Alike k S (p >>= f) (q >>= g) c := by
  obtain ⟨houtcome, hcontext⟩ := hp
  rcases hrun : p.runFrom c with ⟨outcome, after⟩
  rcases hrun' : q.runFrom (c.within k) with ⟨outcome', after'⟩
  rw [hrun, hrun'] at houtcome hcontext
  obtain rfl : after' = after.within k := hcontext
  cases houtcome with
  | ok h =>
      constructor
      · rw [runFrom_bind, runFrom_bind, hrun, hrun']
        exact (hf _ _ h after).outcome
      · rw [runFrom_bind, runFrom_bind, hrun, hrun']
        exact (hf _ _ h after).context
  | error v =>
      constructor
      · rw [runFrom_bind, runFrom_bind, hrun, hrun']
        exact .error v
      · rw [runFrom_bind, runFrom_bind, hrun, hrun']

theorem thenPure {f : α → γ} {g : β → δ} (hp : Alike k R p q c)
    (hf : ∀ a b, R a b → S (f a) (g b)) :
    Alike k S (p >>= fun a => Pure.pure (f a)) (q >>= fun b => Pure.pure (g b)) c :=
  hp.bind fun a b h => pure (hf a b h)

theorem map {f : α → γ} {g : β → δ} (hp : Alike k R p q c) (hf : ∀ a b, R a b → S (f a) (g b)) :
    Alike k S (f <$> p) (g <$> q) c := by
  rw [map_eq_pure_bind, map_eq_pure_bind]
  exact hp.thenPure hf

theorem enterHeading {level : HeadingLevel} {f : String → Pass γ} {g : String → Pass δ}
    (hf : ∀ number c, Alike k S (f number) (g number) c) :
    Alike k S (Pass.enterHeading level >>= f) (Pass.enterHeading level >>= g) c := by
  have hf' := hf ((c.enter level).number level) (c.enter level)
  constructor
  · rw [runFrom_bind, runFrom_bind, runFrom_enterHeading, runFrom_enterHeading,
      Context.enter_within, Context.number_within]
    exact hf'.outcome
  · rw [runFrom_bind, runFrom_bind, runFrom_enterHeading, runFrom_enterHeading,
      Context.enter_within, Context.number_within]
    exact hf'.context

theorem inList (hp : Alike k R p q c.deeper) : Alike k R (Pass.inList p) (Pass.inList q) c := by
  constructor
  · rw [runFrom_inList, runFrom_inList, Context.deeper_within]
    exact hp.outcome
  · rw [runFrom_inList, runFrom_inList, Context.deeper_within, hp.context, Context.leave_within]

theorem get {f : Context → Pass γ} {g : Context → Pass δ}
    (hf : Alike k S (f c) (g (c.within k)) c) :
    Alike k S (MonadState.get >>= f) (MonadState.get >>= g) c :=
  ⟨hf.outcome, hf.context⟩

theorem mapM {ι : Type} {f : ι → Pass α} {g : ι → Pass β} {xs : List ι}
    (hf : ∀ x ∈ xs, ∀ c, Alike k R (f x) (g x) c) (c : Context) :
    Alike k (List.Forall₂ R) (xs.mapM f) (xs.mapM g) c := by
  induction xs generalizing c with
  | nil => exact pure .nil c
  | cons x xs ih =>
      rw [List.mapM_cons, List.mapM_cons]
      refine (hf x List.mem_cons_self c).bind fun a b h c => ?_
      exact (ih (fun y hy => hf y (List.mem_cons_of_mem _ hy)) c).thenPure fun as bs hs => .cons h hs

end Pass.Alike

/-! ## Trees -/

namespace Node

open Markdown

section

variable {k : Nat} {ns : List Node}

theorem renderList_alike (h : ∀ n ∈ ns, ∀ c, n.render.Alike k (IndentedText k) n.render c) (c : Context) :
    (renderList ns).Alike k (List.Forall₂ (IndentedText k)) (renderList ns) c := by
  rw [renderList_eq]
  exact .mapM h c

theorem renderRows_alike (h : ∀ m : Node, m.PartOf ns → ∀ c, m.render.Alike k (IndentedText k) m.render c)
    (c : Context) : (renderRows ns).Alike k (List.Forall₂ (IndentedText k)) (renderRows ns) c := by
  rw [renderRows_eq]
  refine .mapM (fun r hr c => .map ?_ fun cells cells' hcells => .formatRow hcells) c
  rw [renderCells_eq]
  refine .mapM (fun cell hcell => renderList_alike fun m hm => h m ?_) c
  obtain ⟨hr, hrow⟩ := List.mem_filter.mp hr
  obtain ⟨hcell, hkind⟩ := List.mem_filter.mp hcell
  obtain ⟨hm, hpart⟩ := List.mem_filter.mp hm
  exact ⟨r, hr, isRow_iff.mp hrow, cell, hcell, isCell_iff.mp hkind, hm, isCell_iff.mp hpart⟩

end

theorem render_alike (k : Nat) (n : Node) (c : Context) : n.render.Alike k (IndentedText k) n.render c := by
  induction n using renders_induction generalizing c with
  | step n ih =>
      cases n.form with
      | lacking h =>
          rw [render_lacking h]
          exact .throw _ c
      | leaf h =>
          obtain ⟨text, htext⟩ := render_leaf h
          rw [htext]
          exact .pure (.refl text) c
      | group h =>
          rw [render_group h]
          exact (renderList_alike (fun m hm => ih 0 m (.of_group h hm)) c).thenPure fun _ _ h => .join h
      | heading =>
          rw [render_heading]
          refine .enterHeading fun number c => ?_
          refine ((renderList_alike (fun m hm => ih 0 m (.child rfl hm)) c).thenPure
            fun _ _ h => IndentedText.join h).thenPure fun body body' hbody => ?_
          exact ((IndentedText.refl _).append hbody).append (.refl _)
      | item =>
          rw [render_item]
          exact ih 0 _ .content c
      | plain text =>
          rw [render_plain]
          refine (renderList_alike (fun m hm => ih 0 m (.child rfl hm)) c).bind fun own own' hown c => ?_
          refine (renderList_alike (fun m hm => ih 0 m (.again hm)) c).thenPure
            fun again again' hagain => ?_
          refine (IndentedText.refl text).append (.joinMap (List.rel_append hown hagain) ?_)
          exact fun s t h => (IndentedText.refl _).append h
      | list hkind =>
          rw [render_list hkind]
          -- inside the list the depth is positive, so that `k` more levels are `k` more tabs
          refine (Pass.Alike.inList (.get ?_)).thenPure fun s t h => IndentedList.collapse h
          refine (renderList_alike (fun m hm => ih 1 m (.item hkind hm)) c.deeper).thenPure
            fun texts texts' h => .items h ?_
          rw [Context.indent_within, String.append_assoc]
      | table =>
          rw [render_table]
          refine (renderRows_alike (fun m hm => ih 0 m (.part hm)) c).bind fun own own' hown c => ?_
          refine (renderRows_alike (fun m hm => ih 0 m (.nested hm)) c).thenPure
            fun nested nested' hnested => ?_
          refine (IndentedText.insertSeparator (.joinMap (List.rel_append hown hnested) ?_) _).append
            (.refl _)
          exact fun s t h => h.append (.refl _)

/-! ## The depth only indents -/

theorem levels_eq_nil_of_visits {n : Node}
    (h : ∀ m, .visit m ∈ n.steps → ∀ level, m.kind ≠ .heading level) : n.levels = [] := by
  refine List.filterMap_eq_nil_iff.mpr fun s hs => ?_
  cases s with
  | skip kind => rfl
  | visit m =>
      cases hlevel : (Step.visit m).level? with
      | none => rfl
      | some level => exact absurd (Step.kind_of_level? hlevel) (h m hs level)

/-- From the same counters a tree gives the same text at every depth, up to tabs in front of lines behind
the first, or the same violation. If the pass comes to no heading, the counters may differ too. -/
theorem renderFrom_deeper (n : Node) (c c' : Context) (hfirst : c.first = c'.first)
    (hsecond : c.second = c'.second) (hthird : c.third = c'.third) (hdepth : c.depth ≤ c'.depth) :
    ((∃ v, (n.renderFrom c).1 = .error v ∧ (n.renderFrom c').1 = .error v) ∨
      ∃ s t, (n.renderFrom c).1 = .ok s ∧ (n.renderFrom c').1 = .ok t ∧
        IndentedLines (c'.depth - c.depth) (s.toList.splitOn '\n') (t.toList.splitOn '\n')) ∧
    ((∀ m, .visit m ∈ n.steps → ∀ level, m.kind ≠ .heading level) →
      ∀ first second third,
        (n.renderFrom { c with first, second, third }).1 = (n.renderFrom c).1) := by
  have hwithin : c' = c.within (c'.depth - c.depth) := by
    simp only [Context.within, Context.atDepth, hfirst, hsecond, hthird, Nat.add_sub_cancel' hdepth]
  have houtcome := (render_alike (c'.depth - c.depth) n c).outcome
  rw [← hwithin] at houtcome
  constructor
  · rcases houtcome.error_or_ok with herror | ⟨s, t, hs, ht, htext⟩
    · exact .inl herror
    · exact .inr ⟨s, t, hs, ht, Indented.splitOn htext⟩
  · intro hnone first second third
    exact (render_takes n).uncounted (levels_eq_nil_of_visits hnone) _ _ rfl

/-- A list whose only item begins with another list. -/
theorem renderFrom_deeper_nested :
    let inner : Node := ⟨.enumerate, "", "",
      [⟨.document, "", "", [⟨.item, "", "", [⟨.plain, "a", "", []⟩]⟩]⟩]⟩
    let outer : Node := ⟨.itemize, "", "", [⟨.document, "", "", [⟨.item, "", "", [inner]⟩]⟩]⟩
    (outer.renderFrom {}).1 = .ok "\n-\n\t1.a\n\n\n\n" ∧
      (outer.renderFrom { depth := 2 }).1 = .ok "\n\t\t-\n\t\t\t1.a\n\n\n\n" ∧
      IndentedLines 2 ("\n-\n\t1.a\n\n\n\n".toList.splitOn '\n')
        ("\n\t\t-\n\t\t\t1.a\n\n\n\n".toList.splitOn '\n') := by
  intro inner outer
  have hs : (outer.renderFrom {}).1 = .ok "\n-\n\t1.a\n\n\n\n" := by rfl
  have ht : (outer.renderFrom { depth := 2 }).1 = .ok "\n\t\t-\n\t\t\t1.a\n\n\n\n" := by rfl
  have hdeeper := renderFrom_deeper outer {} { depth := 2 } rfl rfl rfl (by decide)
  refine ⟨hs, ht, ?_⟩
  rcases hdeeper.1 with ⟨v, hv, _⟩ | ⟨s, t, hs', ht', hlines⟩
  · cases hs.symm.trans hv
  · cases hs.symm.trans hs'
    cases ht.symm.trans ht'
    exact hlines

end Node

end Treemark
