import Treemark.Markdown.Render

/-!
# Running passes

What a pass gives when it is run from a context, for each way of building a pass.
-/

namespace Treemark.Pass

variable {α β : Type} {c after : Context}

theorem runFrom_pure (a : α) (c : Context) : (pure a : Pass α).runFrom c = (.ok a, c) := rfl

theorem runFrom_get (c : Context) : (get : Pass Context).runFrom c = (.ok c, c) := rfl

theorem runFrom_enterHeading (level : HeadingLevel) (c : Context) :
    (enterHeading level).runFrom c = (.ok ((c.enter level).number level), c.enter level) := rfl

theorem runFrom_inList (p : Pass α) (c : Context) :
    (inList p).runFrom c = ((p.runFrom c.deeper).1, (p.runFrom c.deeper).2.leave c) := rfl

theorem runFrom_bind (p : Pass α) (f : α → Pass β) (c : Context) :
    (p >>= f).runFrom c =
      match p.runFrom c with
      | (.ok a, after) => (f a).runFrom after
      | (.error v, after) => (.error v, after) := by
  change (ExceptT.bindCont f (p.runFrom c).1).run (p.runFrom c).2 = _
  rcases p.runFrom c with ⟨_ | _, _⟩ <;> rfl

/-! ## Passes that succeed -/

theorem bind_eq_ok_iff {p : Pass α} {f : α → Pass β} {b : β} :
    (p >>= f).runFrom c = (.ok b, after) ↔
      ∃ a between, p.runFrom c = (.ok a, between) ∧ (f a).runFrom between = (.ok b, after) := by
  rw [runFrom_bind]
  constructor
  · intro h
    split at h
    · rename_i a between hp
      exact ⟨a, between, hp, h⟩
    · cases h
  · rintro ⟨a, between, hp, hf⟩
    rw [hp]
    exact hf

theorem pure_eq_ok_iff {a b : α} :
    (pure a : Pass α).runFrom c = (.ok b, after) ↔ b = a ∧ after = c := by
  rw [runFrom_pure, Prod.mk.injEq, Except.ok.injEq, eq_comm, @eq_comm _ c]

theorem map_eq_ok_iff {p : Pass α} {f : α → β} {b : β} :
    (f <$> p).runFrom c = (.ok b, after) ↔ ∃ a, p.runFrom c = (.ok a, after) ∧ b = f a := by
  rw [map_eq_pure_bind, bind_eq_ok_iff]
  constructor
  · rintro ⟨a, between, hp, h⟩
    obtain ⟨rfl, rfl⟩ := pure_eq_ok_iff.mp h
    exact ⟨a, hp, rfl⟩
  · rintro ⟨a, hp, rfl⟩
    exact ⟨a, after, hp, rfl⟩

end Treemark.Pass
