import Treemark.Proofs.Markdown.Numbering
import Treemark.Proofs.Markdown.Pieces
import Treemark.Proofs.Markdown.Steps

/-!
# Headings in the rendered text

The line of every heading that a pass comes to, with its marker, number and title, stands in the rendered
text as one piece, and these pieces stand in the order in which the pass comes to the headings.
-/

namespace Treemark

/-! ## Lines of headings -/

namespace Step

/-- The level and the title of a step to a heading. -/
def heading? : Step → Option (HeadingLevel × String)
  | visit ⟨.heading level, title, _, _⟩ => some (level, title)
  | _ => none

def headings (ss : List Step) : List (HeadingLevel × String) := ss.filterMap heading?

theorem map_fst_heading? (s : Step) : s.heading?.map Prod.fst = s.level? := by
  cases s with
  | skip kind => rfl
  | visit n =>
      obtain ⟨kind, text, attributes, children⟩ := n
      cases kind <;> rfl

theorem map_fst_headings (ss : List Step) : (headings ss).map Prod.fst = ss.filterMap level? := by
  rw [headings, List.map_filterMap]
  exact congrArg (List.filterMap · ss) (funext map_fst_heading?)

theorem Quiet.heading? {s : Step} (h : s.Quiet) : s.heading? = none := by
  rw [← Option.map_eq_none_iff, map_fst_heading?, h.2]

end Step

/-- The headings that a pass over a tree comes to, in this order. -/
def Node.headings (n : Node) : List (HeadingLevel × String) := Step.headings n.steps

def headingLine (level : HeadingLevel) (number title : String) : String :=
  (Kind.heading level).marker ++ " " ++ number ++ " " ++ title

namespace Context

/-- The lines of headings that are entered one after the other. -/
def headingLines (c : Context) (hs : List (HeadingLevel × String)) : List String :=
  List.zipWith (fun h number => headingLine h.1 number h.2) hs (c.numbers (hs.map Prod.fst))

theorem headingLines_cons (c : Context) (level : HeadingLevel) (title : String)
    (hs : List (HeadingLevel × String)) : c.headingLines ((level, title) :: hs) =
      headingLine level ((c.enter level).number level) title :: (c.enter level).headingLines hs := rfl

theorem length_headingLines (c : Context) (hs : List (HeadingLevel × String)) :
    (c.headingLines hs).length = hs.length := by
  induction hs generalizing c with
  | nil => rfl
  | cons h hs ih => rw [headingLines_cons, List.length_cons, List.length_cons, ih]

theorem headingLines_append (c : Context) (hs hs' : List (HeadingLevel × String)) :
    c.headingLines (hs ++ hs') =
      c.headingLines hs ++ (c.enterAll (hs.map Prod.fst)).headingLines hs' := by
  induction hs generalizing c with
  | nil => rfl
  | cons h hs ih =>
      rw [List.cons_append, headingLines_cons, headingLines_cons, ih]
      rfl

theorem numbers_atDepth (c : Context) (depth : Nat) (levels : List HeadingLevel) :
    (c.atDepth depth).numbers levels = c.numbers levels := by
  induction levels generalizing c with
  | nil => rfl
  | cons level levels ih =>
      have htail := ih (c.enter level)
      cases level <;> exact congrArg (List.cons _) htail

theorem headingLines_deeper (c : Context) (hs : List (HeadingLevel × String)) :
    c.deeper.headingLines hs = c.headingLines hs := by
  have hdeeper : c.deeper = c.atDepth (c.depth + 1) := rfl
  rw [headingLines, hdeeper, numbers_atDepth]
  rfl

end Context

/-! ## Passes -/

/-- If a pass comes to its end, what it gives is related to the lines of the headings among its steps. -/
def Pass.Gives {α : Type} (p : Pass α) (ss : List Step) (R : List String → α → Prop) : Prop :=
  ∀ c a, (p.runFrom c).1 = .ok a → R (c.headingLines (Step.headings ss)) a

namespace Pass.Gives

variable {α β : Type} {ss ts : List Step} {p : Pass α} {R : List String → α → Prop}
  {S : List String → β → Prop}

theorem pure {a : α} (h : R [] a) : Gives (Pure.pure a) [] R := by
  intro c b hrun
  cases hrun
  exact h

theorem throw (v : ShapeViolation) (ss : List Step) :
    (MonadExcept.throw v : Pass α).Gives ss R := fun _ _ hrun => by cases hrun

theorem bind {f : α → Pass β} (htakes : p.Takes ss) (hp : p.Gives ss R)
    (hf : ∀ ls a, R ls a → (f a).Gives ts fun ms b => S (ls ++ ms) b) :
    (p >>= f).Gives (ss ++ ts) S := by
  intro c b hrun
  rw [runFrom_bind] at hrun
  rcases htakes.run_cases c with ⟨v, hv, _⟩ | ⟨a, ha, hnone⟩
  · rw [hv] at hrun
    cases hrun
  · rw [ha] at hrun
    have hentered : Step.entered ss = (Step.headings ss).map Prod.fst := by
      rw [Step.map_fst_headings, Step.entered, Step.untilViolation_of_none hnone]
    rw [Step.headings, List.filterMap_append, Context.headingLines_append]
    rw [hentered] at hrun
    exact hf _ a (hp c a (by rw [ha])) _ b hrun

theorem thenPure {f : α → β} (hp : p.Gives ss R) (hf : ∀ ls a, R ls a → S ls (f a)) :
    (p >>= fun a => Pure.pure (f a)).Gives ss S := by
  intro c b hrun
  rw [runFrom_bind] at hrun
  rcases hp' : p.runFrom c with ⟨v | a, after⟩
  · rw [hp'] at hrun
    cases hrun
  · rw [hp'] at hrun
    cases hrun
    exact hf _ a (hp c a (by rw [hp']))

theorem map {f : α → β} (hp : p.Gives ss R) (hf : ∀ ls a, R ls a → S ls (f a)) :
    (f <$> p).Gives ss S := by
  rw [map_eq_pure_bind]
  exact hp.thenPure hf

theorem quiet {s : Step} (hs : s.Quiet) (hp : p.Gives ss R) : p.Gives (s :: ss) R := by
  intro c a hrun
  rw [Step.headings, List.filterMap_cons, hs.heading?]
  exact hp c a hrun

theorem enterHeading {f : String → Pass α} {level : HeadingLevel} {title attributes : String}
    {children : List Node}
    (hf : ∀ number, (f number).Gives ss fun ls a => R (headingLine level number title :: ls) a) :
    (Pass.enterHeading level >>= f).Gives
      (.visit ⟨.heading level, title, attributes, children⟩ :: ss) R := by
  intro c a hrun
  rw [runFrom_bind, runFrom_enterHeading] at hrun
  exact hf _ (c.enter level) a hrun

theorem inList (hp : p.Gives ss R) : (Pass.inList p).Gives ss R := by
  intro c a hrun
  have hdeeper := hp c.deeper a hrun
  rwa [Context.headingLines_deeper] at hdeeper

theorem get {f : Context → Pass α} (hf : ∀ c, (f c).Gives ss R) :
    (MonadState.get >>= f).Gives ss R := fun c a hrun => hf c c a hrun

theorem mapM {ι : Type} {f : ι → Pass α} {t : ι → List Step} {xs : List ι}
    (htakes : ∀ x ∈ xs, (f x).Takes (t x)) (hf : ∀ x ∈ xs, (f x).Gives (t x) R) :
    (xs.mapM f).Gives (xs.flatMap t) (Markdown.Spread R) := by
  induction xs with
  | nil => exact pure .nil
  | cons x xs ih =>
      have hxs := ih (fun y hy => htakes y (List.mem_cons_of_mem _ hy))
        fun y hy => hf y (List.mem_cons_of_mem _ hy)
      rw [List.mapM_cons, List.flatMap_cons]
      refine .bind (htakes x List.mem_cons_self) (hf x List.mem_cons_self) fun ls a ha => ?_
      exact hxs.thenPure fun ms as has => .cons ha has

end Pass.Gives

/-! ## Trees -/

namespace Node

open Markdown

section

variable {ns : List Node}

theorem renderList_gives (h : ∀ n ∈ ns, n.render.Gives n.trail Shows) :
    (renderList ns).Gives (trailList ns) (Spread Shows) := by
  rw [renderList_eq, trailList_eq]
  exact .mapM (fun n _ => render_takes n) h

theorem renderCells_gives (h : ∀ c ∈ ns, c.kind = .cell → ∀ m ∈ c.children, m.kind = .cell →
    m.render.Gives m.trail Shows) : (renderCells ns).Gives (trailCells ns) (Spread (Spread Shows)) := by
  rw [renderCells_eq, trailCells_eq]
  induction ns with
  | nil => exact .pure .nil
  | cons c ns ih =>
      have hns := ih fun c' hc' => h c' (List.mem_cons_of_mem _ hc')
      by_cases hcell : c.isCell = true
      · rw [List.filter_cons_of_pos hcell, List.mapM_cons, List.flatMap_cons, if_pos hcell]
        refine .bind (renderList_takes fun m _ => render_takes m) (renderList_gives fun m hm => ?_)
          fun ls parts hparts => hns.thenPure fun ms cells hcells => .cons hparts hcells
        obtain ⟨hm, hpart⟩ := List.mem_filter.mp hm
        exact h c List.mem_cons_self (isCell_iff.mp hcell) m hm (isCell_iff.mp hpart)
      · rw [List.filter_cons_of_neg hcell, List.flatMap_cons, if_neg hcell]
        exact .quiet ⟨rfl, rfl⟩ hns

theorem renderRows_gives (h : ∀ m : Node, m.PartOf ns → m.render.Gives m.trail Shows) :
    (renderRows ns).Gives (trailRows ns) (Spread Shows) := by
  rw [renderRows_eq, trailRows_eq]
  refine .mapM (fun r _ => .map (renderCells_takes fun c _ _ m _ _ => render_takes m) _) fun r hr => ?_
  refine .map (renderCells_gives fun c hc hcell m hm hpart => h m ?_) fun ls cells hcells => .formatRow hcells
  obtain ⟨hr, hrow⟩ := List.mem_filter.mp hr
  exact ⟨r, hr, isRow_iff.mp hrow, c, hc, hcell, hm, hpart⟩

end

/-- The text of a tree shows the lines of the headings on its trail. -/
theorem render_gives (n : Node) : n.render.Gives n.trail Shows := by
  induction n using renders_induction with
  | step n ih =>
      cases n.form with
      | lacking h =>
          rw [render_lacking h]
          exact .throw _ _
      | leaf h =>
          obtain ⟨text, htext⟩ := render_leaf h
          rw [htext, trail_leaf h]
          exact .quiet (quiet_leaf h) (.pure (.none text))
      | group h =>
          rw [render_group h, trail_group h]
          refine .quiet (quiet_group h) (.thenPure (renderList_gives fun m hm => ?_) fun _ _ ht => .join ht)
          exact ih 0 m (.of_group h hm)
      | heading level text =>
          rw [render_heading, trail_heading]
          refine .enterHeading fun number => ?_
          refine ((renderList_gives fun m hm => ih 0 m (.child rfl hm)).thenPure
            fun _ _ ht => Shows.join ht).thenPure fun ls body hbody => ?_
          exact (((Shows.piece (headingLine level number text)).before "\n\n").append hbody).before "\n\n"
      | item =>
          rw [render_item, trail_item]
          exact .quiet ⟨rfl, rfl⟩ (ih 0 _ .content)
      | plain text =>
          rw [render_plain, trail_plain]
          refine .quiet ⟨rfl, rfl⟩ (.bind (renderList_takes fun m _ => render_takes m)
            (renderList_gives fun m hm => ih 0 m (.child rfl hm)) fun ls own hown => ?_)
          refine (renderList_gives fun m hm => ih 0 m (.again hm)).thenPure fun ms again hagain => ?_
          exact .behind text (.joinMap (hown.append hagain) fun _ _ ht => ht.behind " ")
      | list hkind =>
          rw [render_list hkind, trail_list hkind]
          refine .quiet (quiet_list hkind) ((Pass.Gives.inList (.get fun c => ?_)).thenPure
            fun _ _ ht => Shows.collapse ht)
          refine (renderList_gives fun m hm => ih 1 m (.item hkind hm)).thenPure fun ls texts htexts => ?_
          exact (Shows.behind "\n" (.joinMap htexts fun _ _ ht => (ht.behind _).before "\n")).before "\n"
      | table =>
          rw [render_table, trail_table]
          refine .quiet ⟨rfl, rfl⟩ (.bind (renderRows_takes fun m _ => render_takes m)
            (renderRows_gives fun m hm => ih 0 m (.part hm)) fun ls own hown => ?_)
          refine (renderRows_gives fun m hm => ih 0 m (.nested hm)).thenPure fun ms nested hnested => ?_
          refine Shows.before (.insertSeparator (.joinMap (hown.append hnested) ?_) _) "\n\n"
          exact fun _ _ ht => ht.before "\n"

end Node

/-! ## Titles of one line -/

theorem Context.digit_or_dot_of_mem_number {c : Context} {level : HeadingLevel} {d : Char}
    (h : d ∈ (c.number level).toList) : d.isDigit = true ∨ d = '.' := by
  have hdigit : ∀ {n : Nat}, d ∈ Nat.toDigits 10 n → d.isDigit = true :=
    Nat.isDigit_of_mem_toDigits (by decide) (by decide)
  cases level <;> simp [number] at h <;> grind

theorem sturdy_headingLine {c : Context} {level : HeadingLevel} {title : String}
    (hfeed : '\n' ∉ title.toList) (hcarriage : '\r' ∉ title.toList) :
    Markdown.Sturdy (headingLine level (c.number level) title).toList := by
  have hmarker : Markdown.Sturdy (Kind.heading level).marker.toList := by
    cases level <;> exact ⟨by decide, by decide, by decide⟩
  have hnumber : ∀ d : Char, d.isDigit = false → d ≠ '.' → d ∉ (c.number level).toList := by
    intro d hdigit hdot hd
    rcases Context.digit_or_dot_of_mem_number hd with h | h
    · exact absurd h (by simp [hdigit])
    · exact hdot h
  have hfeed' := hnumber '\n' (by decide) (by decide)
  have hcarriage' := hnumber '\r' (by decide) (by decide)
  constructor
  · simp [headingLine, hmarker.feed, hfeed', hfeed]
  · simp [headingLine, hmarker.carriage, hcarriage', hcarriage]
  · simp [headingLine, hmarker.sign]

theorem Context.sturdy_of_mem_headingLines {c : Context} {hs : List (HeadingLevel × String)}
    (h : ∀ level title, (level, title) ∈ hs → '\n' ∉ title.toList ∧ '\r' ∉ title.toList)
    {line : String} (hline : line ∈ c.headingLines hs) : Markdown.Sturdy line.toList := by
  induction hs generalizing c with
  | nil => cases hline
  | cons first hs ih =>
      obtain ⟨level, title⟩ := first
      have htitle := h level title List.mem_cons_self
      rcases List.mem_cons.mp hline with rfl | hline
      · exact sturdy_headingLine htitle.1 htitle.2
      · exact ih (fun level title hmem => h level title (List.mem_cons_of_mem _ hmem)) hline

theorem Step.steps_of_ok {n : Node} {c : Context} {markdown : String}
    (h : (n.renderFrom c).1 = .ok markdown) : n.steps = n.trail := by
  have hfirst := (Node.render_takes n).outcome c
  have hnone : none = Step.firstViolation? n.trail := (congrArg violationOf h).symm.trans hfirst
  rw [Node.steps, Step.untilViolation_of_none hnone.symm]

namespace Node

/-- If no title of a heading that the pass comes to goes over the end of a line, the rendered text is made
of the lines of these headings, in order, and of what stands in front of them, between them and behind. -/
theorem renderFrom_headings (n : Node) (c : Context)
    (htitles : ∀ level title, (level, title) ∈ n.headings →
      '\n' ∉ title.toList ∧ '\r' ∉ title.toList)
    {markdown : String} (h : (n.renderFrom c).1 = .ok markdown) :
    ∃ lead gaps, gaps.length = n.headings.length ∧
      markdown = lead ++ String.join (List.zipWith (· ++ ·) (c.headingLines n.headings) gaps) := by
  have htrail : n.headings = Step.headings n.trail := by rw [headings, Step.steps_of_ok h]
  have hshows : Markdown.Shows (c.headingLines n.headings) markdown :=
    htrail ▸ render_gives n c markdown h
  obtain ⟨lead, gaps, hlength, hgaps⟩ :=
    hshows.gaps fun line hline => Context.sturdy_of_mem_headingLines htitles hline
  exact ⟨lead, gaps, hlength.trans (c.length_headingLines n.headings), hgaps⟩

/-- A heading in a list within a list, one that a string shows twice and one in a cell of a table. -/
theorem renderFrom_headings_nested :
    let item (content : Node) : Node :=
      ⟨.enumerate, "", "", [⟨.document, "", "", [⟨.item, "", "", [content]⟩]⟩]⟩
    let cell (content : Node) : Node := ⟨.cell, "", "", [content]⟩
    let twice : Node := ⟨.plain, "t", "", [⟨.document, "", "", [⟨.heading .second, "B", "", []⟩]⟩]⟩
    let table : Node :=
      ⟨.table, "", "", [⟨.row, "", "", [cell (cell ⟨.heading .third, "C", "", []⟩)]⟩]⟩
    let n : Node := ⟨.document, "", "", [item (item ⟨.heading .first, "A", "", []⟩), twice, table]⟩
    let markdown := "\n\t1.## 1 A\n\n\n\n\n\n\n\nt ### 1.1 B\n\n\n\n ### 1.2 B\n\n\n\n " ++
      "| #### 1.2.1 C\n---------------\n\n\n\n | \n\n\n"
    (∀ level title, (level, title) ∈ n.headings → '\n' ∉ title.toList ∧ '\r' ∉ title.toList) ∧
      (n.renderFrom {}).1 = .ok markdown ∧
      ∃ lead gaps, gaps.length = 4 ∧ markdown = lead ++ String.join (List.zipWith (· ++ ·)
        ["## 1 A", "### 1.1 B", "### 1.2 B", "#### 1.2.1 C"] gaps) := by
  intro item cell twice table n markdown
  have hheadings : n.headings = [(.first, "A"), (.second, "B"), (.second, "B"), (.third, "C")] := rfl
  have htitles : ∀ level title, (level, title) ∈ n.headings →
      '\n' ∉ title.toList ∧ '\r' ∉ title.toList := by
    intro level title htitle
    simp only [hheadings, List.mem_cons, Prod.mk.injEq, List.not_mem_nil, or_false] at htitle
    rcases htitle with ⟨_, rfl⟩ | ⟨_, rfl⟩ | ⟨_, rfl⟩ | ⟨_, rfl⟩ <;> decide
  have hmarkdown : (n.renderFrom {}).1 = .ok markdown := by decide +kernel
  exact ⟨htitles, hmarkdown, renderFrom_headings n {} htitles hmarkdown⟩

end Node

end Treemark
