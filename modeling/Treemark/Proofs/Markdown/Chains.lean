import Mathlib.Data.List.Induction
import Mathlib.Data.Nat.Fib.Basic
import Treemark.Proofs.Markdown.Headings
import Treemark.Proofs.Markdown.Items
import Treemark.Proofs.Markdown.Visits

/-!
# Chains of strings

A string shows its children and then the children of its first child once more. In a chain of strings, each
the only child of the one above it, a node that is `n` strings deep is therefore rendered as often as the one
above it and the one above that together: the visits grow like the Fibonacci numbers.
-/

namespace Treemark

/-- What takes one step for a list of two elements or more, and then one for each of the two lists below it,
grows like the Fibonacci numbers. -/
theorem eq_fib_length {α : Type} {f : List α → Nat} {k : Nat} (hnil : f [] = Nat.fib k)
    (hsingleton : ∀ x, f [x] = Nat.fib (k + 1))
    (hcons : ∀ x y xs, f (x :: y :: xs) = f xs + f (y :: xs)) (xs : List α) :
    f xs = Nat.fib (xs.length + k) := by
  induction xs using List.twoStepInduction with
  | nil => rw [hnil, List.length_nil, Nat.zero_add]
  | singleton x => rw [hsingleton, List.length_singleton, Nat.add_comm]
  | cons_cons x y xs ih ih' =>
      have hlength : xs.length + k + 2 = (x :: y :: xs).length + k := by
        simp only [List.length_cons]
        omega
      calc f (x :: y :: xs) = Nat.fib (xs.length + k) + Nat.fib (xs.length + k + 1) := by
            rw [hcons, ih, ih', List.length_cons, Nat.add_right_comm]
        _ = Nat.fib (xs.length + k + 2) := Nat.fib_add_two.symm
        _ = Nat.fib ((x :: y :: xs).length + k) := by rw [hlength]

namespace Node

/-- Strings with these texts and attributes, each the only child of the one above it, around a node. -/
def chain (core : Node) : List (String × String) → Node
  | [] => core
  | (text, attributes) :: labels => ⟨.plain, text, attributes, [chain core labels]⟩

variable {core : Node} {c between after : Context}

/-! ## Visits -/

theorem trail_childless (hchildren : core.children = []) : core.trail = [.visit core] := by
  obtain ⟨kind, text, attributes, _⟩ := core
  cases hchildren
  cases kind <;> simp [trail, trailList, trailRows]

theorem trail_chain_singleton (hchildren : core.children = []) (label : String × String) :
    (chain core [label]).trail = [.visit (chain core [label]), .visit core] := by
  rw [chain, chain, trail_plain, hchildren, trailList, trailList, trail_childless hchildren]
  rfl

theorem trail_chain_cons_cons (label label' : String × String) (labels : List (String × String)) :
    (chain core (label :: label' :: labels)).trail =
      .visit (chain core (label :: label' :: labels)) ::
        ((chain core (label' :: labels)).trail ++ (chain core labels).trail) := by
  rw [chain, trail_plain]
  simp only [chain, trailList, List.append_nil]

theorem length_trail_chain (hchildren : core.children = []) (labels : List (String × String)) :
    (chain core labels).trail.length + 1 = Nat.fib (labels.length + 3) := by
  refine eq_fib_length (f := fun labels => (chain core labels).trail.length + 1) ?_ ?_ ?_ labels
  · rw [chain, trail_childless hchildren]
    rfl
  · intro label
    rw [trail_chain_singleton hchildren]
    rfl
  · intro label label' labels
    rw [trail_chain_cons_cons, List.length_cons, List.length_append]
    omega

theorem mem_trail_chain (hchildren : core.children = []) {labels : List (String × String)} {s : Step}
    (h : s ∈ (chain core labels).trail) :
    ∃ below, below <:+ labels ∧ s = .visit (chain core below) := by
  induction labels using List.twoStepInduction with
  | nil =>
      rw [chain, trail_childless hchildren, List.mem_singleton] at h
      exact ⟨[], List.suffix_rfl, h⟩
  | singleton label =>
      simp only [trail_chain_singleton hchildren, List.mem_cons, List.not_mem_nil, or_false] at h
      rcases h with rfl | rfl
      · exact ⟨[label], List.suffix_rfl, rfl⟩
      · exact ⟨[], List.nil_suffix, rfl⟩
  | cons_cons label label' labels ih ih' =>
      rw [trail_chain_cons_cons, List.mem_cons, List.mem_append] at h
      rcases h with rfl | h | h
      · exact ⟨_, List.suffix_rfl, rfl⟩
      · obtain ⟨below, hbelow, rfl⟩ := ih' label' h
        exact ⟨below, hbelow.trans (List.suffix_cons label _), rfl⟩
      · obtain ⟨below, hbelow, rfl⟩ := ih h
        exact ⟨below, hbelow.trans ((List.suffix_cons label' _).trans (List.suffix_cons label _)), rfl⟩

theorem headings_trail_chain (level : HeadingLevel) (title attributes : String)
    (labels : List (String × String)) :
    Step.headings (chain ⟨.heading level, title, attributes, []⟩ labels).trail =
      List.replicate (Nat.fib (labels.length + 1)) (level, title) := by
  induction labels using List.twoStepInduction with
  | nil => rw [chain, trail_childless rfl]; rfl
  | singleton label => rw [trail_chain_singleton rfl]; rfl
  | cons_cons label label' labels ih ih' =>
      have hbelow := ih' label'
      have hfib : Nat.fib (labels.length + 3) = _ := Nat.fib_add_two
      simp only [Step.headings] at ih hbelow ⊢
      rw [trail_chain_cons_cons, List.filterMap_cons_none rfl, List.filterMap_append, hbelow, ih,
        ← List.replicate_add, List.length_cons, List.length_cons, List.length_cons, hfib, Nat.add_comm]

/-! ## Texts -/

/-- The texts of the strings of a chain in the order in which they are emitted, cut wherever the node below
them is rendered. -/
def leads : List String → List (List String)
  | [] => [[]]
  | [text] => [[text]]
  | text :: text' :: texts => (leads (text' :: texts)).modifyHead (text :: ·) ++ leads texts

theorem length_leads (texts : List String) : (leads texts).length = Nat.fib (texts.length + 1) := by
  refine eq_fib_length (f := fun texts => (leads texts).length) rfl (fun _ => rfl) ?_ texts
  intro text text' texts
  rw [leads, List.length_append, List.length_modifyHead, Nat.add_comm]

theorem leads_ne_nil (texts : List String) : leads texts ≠ [] := by
  rw [← List.length_pos_iff, length_leads, Nat.fib_pos]
  exact Nat.succ_pos _

theorem flatten_leads (text text' : String) (texts : List String) :
    (leads (text :: text' :: texts)).flatten =
      text :: ((leads (text' :: texts)).flatten ++ (leads texts).flatten) := by
  obtain ⟨lead, rest, hleads⟩ := List.exists_cons_of_ne_nil (leads_ne_nil (text' :: texts))
  simp only [leads, hleads, List.modifyHead_cons, List.flatten_append, List.flatten_cons,
    List.cons_append, List.append_assoc]

theorem length_flatten_leads (texts : List String) :
    (leads texts).flatten.length + 1 = Nat.fib (texts.length + 2) := by
  refine eq_fib_length (f := fun texts => (leads texts).flatten.length + 1) rfl (fun _ => rfl) ?_ texts
  intro text text' texts
  rw [flatten_leads, List.length_cons, List.length_append]
  omega

theorem mem_of_mem_leads {texts : List String} {text : String} (h : text ∈ (leads texts).flatten) :
    text ∈ texts := by
  induction texts using List.twoStepInduction with
  | nil => simp [leads] at h
  | singleton first => simpa [leads] using h
  | cons_cons first second texts ih ih' =>
      rw [flatten_leads, List.mem_cons, List.mem_append] at h
      rcases h with rfl | h | h
      · exact List.mem_cons_self
      · exact List.mem_cons_of_mem _ (ih' second h)
      · exact List.mem_cons_of_mem _ (List.mem_cons_of_mem _ (ih h))

/-- Groups of texts with one more text behind each of them, which depends on how many came before. -/
def interleave (piece : Context → String) (next : Context → Context) (c : Context) :
    List (List String) → List String
  | [] => []
  | group :: groups => group ++ piece c :: interleave piece next (next c) groups

section Interleave

variable {piece : Context → String} {next : Context → Context}

theorem interleave_ne_nil {groups : List (List String)} (h : groups ≠ []) :
    interleave piece next c groups ≠ [] := by
  obtain ⟨group, rest, rfl⟩ := List.exists_cons_of_ne_nil h
  simp [interleave]

theorem interleave_modifyHead (text : String) {groups : List (List String)} (h : groups ≠ []) :
    interleave piece next c (groups.modifyHead (text :: ·)) =
      text :: interleave piece next c groups := by
  obtain ⟨group, rest, rfl⟩ := List.exists_cons_of_ne_nil h
  rfl

theorem interleave_append (groups groups' : List (List String)) :
    interleave piece next c (groups ++ groups') =
      interleave piece next c groups ++ interleave piece next (next^[groups.length] c) groups' := by
  induction groups generalizing c with
  | nil => rfl
  | cons group groups ih =>
      simp only [List.cons_append, interleave, ih, List.append_assoc, List.length_cons,
        Function.iterate_succ_apply]

theorem interleave_leads_cons_cons (text text' : String) (texts : List String) :
    interleave piece next c (leads (text :: text' :: texts)) =
      text :: (interleave piece next c (leads (text' :: texts)) ++
        interleave piece next (next^[Nat.fib (texts.length + 2)] c) (leads texts)) := by
  rw [leads, interleave_append, interleave_modifyHead text (leads_ne_nil _), List.length_modifyHead,
    length_leads, List.length_cons, List.cons_append]

theorem intercalate_interleave_leads (text text' : String) (texts : List String) :
    " ".intercalate (interleave piece next c (leads (text :: text' :: texts))) =
      text ++ " " ++ (" ".intercalate (interleave piece next c (leads (text' :: texts))) ++ " " ++
        " ".intercalate (interleave piece next (next^[Nat.fib (texts.length + 2)] c) (leads texts))) := by
  have hne : ∀ {c texts}, interleave piece next c (leads texts) ≠ [] :=
    interleave_ne_nil (leads_ne_nil _)
  rw [interleave_leads_cons_cons, String.intercalate_cons_of_ne_nil (by simp [hne]),
    String.intercalate_append_of_ne_nil hne hne]

theorem length_interleave (groups : List (List String)) :
    (interleave piece next c groups).length = groups.flatten.length + groups.length := by
  induction groups generalizing c with
  | nil => rfl
  | cons group groups ih =>
      simp only [interleave, List.length_append, List.length_cons, ih, List.flatten_cons]
      omega

theorem mem_interleave {groups : List (List String)} {text : String}
    (h : text ∈ interleave piece next c groups) : text ∈ groups.flatten ∨ ∃ c', text = piece c' := by
  induction groups generalizing c with
  | nil => cases h
  | cons group groups ih =>
      rw [interleave, List.mem_append, List.mem_cons] at h
      rw [List.flatten_cons, List.mem_append]
      rcases h with h | rfl | h
      · exact .inl (.inl h)
      · exact .inr ⟨c, rfl⟩
      · exact (ih h).imp_left .inr

end Interleave

/-! ## Runs -/

/-- A string above a single node shows that node and then the node's own children. -/
theorem renderFrom_above {n : Node} {text attributes own : String} {again : List String}
    (hown : n.renderFrom c = (.ok own, between)) (hagain : RenderInTurn between n.children again after) :
    (⟨.plain, text, attributes, [n]⟩ : Node).renderFrom c =
      (.ok (text ++ String.join ((own :: again).map (" " ++ ·))), after) := by
  have hchild := renderList_eq_ok_iff.mpr (.cons hown (.nil between))
  have hchildren := renderList_eq_ok_iff.mpr hagain
  obtain ⟨kind, t, a, children⟩ := n
  simp only [renderFrom, render, Pass.runFrom_bind, hchild, hchildren]
  rfl

/-- What is rendered at the end of a chain of strings stands between their texts, each time from the context
that the time before left. -/
theorem renderFrom_chain_of_core {piece : Context → String} {next : Context → Context}
    (hchildren : core.children = []) (hcore : ∀ c, core.renderFrom c = (.ok (piece c), next c))
    (labels : List (String × String)) (c : Context) :
    (chain core labels).renderFrom c =
      (.ok (" ".intercalate (interleave piece next c (leads (labels.map Prod.fst)))),
        next^[Nat.fib (labels.length + 1)] c) := by
  induction labels using List.twoStepInduction generalizing c with
  | nil =>
      rw [chain, hcore]
      simp [leads, interleave]
  | singleton label =>
      have hagain : RenderInTurn (next c) core.children [] (next c) := hchildren ▸ .nil (next c)
      rw [chain, chain, renderFrom_above (hcore c) hagain]
      simp [leads, interleave, String.append_assoc]
  | cons_cons label label' labels ih ih' =>
      -- The only child is a chain itself, and the only child of that one is shown again behind it.
      have hown := ih' label' c
      have hagain := RenderInTurn.singleton (ih (next^[Nat.fib (labels.length + 2)] c))
      have hfib : Nat.fib (labels.length + 3) = Nat.fib (labels.length + 1) + _ := Nat.fib_add_two
      rw [chain, renderFrom_above hown hagain, List.length_cons, List.length_cons, hfib,
        Function.iterate_add_apply]
      simp only [List.map_cons, intercalate_interleave_leads, List.length_map, List.map_nil]
      simp [String.append_assoc]

/-! ## A chain of one text -/

theorem interleave_same {text : String} {texts : List String} (h : ∀ t ∈ texts, t = text) :
    interleave (fun _ => text) id c (leads texts) =
      List.replicate (Nat.fib (texts.length + 3) - 1) text := by
  rw [List.eq_replicate_iff]
  constructor
  · have hfib : Nat.fib (texts.length + 3) =
      Nat.fib (texts.length + 1) + Nat.fib (texts.length + 2) := Nat.fib_add_two
    have hflatten := length_flatten_leads texts
    rw [length_interleave, length_leads]
    omega
  · intro t ht
    rcases mem_interleave ht with ht | ⟨_, rfl⟩
    · exact h t (mem_of_mem_leads ht)
    · rfl

/-- Strings of one text show nothing but that text. -/
theorem renderFrom_chain_same {text attributes : String} {labels : List (String × String)}
    (h : ∀ t ∈ labels.map Prod.fst, t = text) (c : Context) :
    (chain ⟨.plain, text, attributes, []⟩ labels).renderFrom c =
      (.ok (" ".intercalate (List.replicate (Nat.fib (labels.length + 3) - 1) text)), c) := by
  have hcore : ∀ c, (⟨.plain, text, attributes, []⟩ : Node).renderFrom c = (.ok text, id c) := by
    intro c
    simp [renderFrom, render, renderList, Pass.runFrom_pure]
  rw [renderFrom_chain_of_core rfl hcore labels c, interleave_same h, List.length_map,
    Function.iterate_id, id]

theorem length_intercalate_replicate (text : String) (m : Nat) :
    (" ".intercalate (List.replicate (m + 1) text)).length + (text.length + 2) =
      (text.length + 1) * (m + 2) := by
  induction m with
  | zero => simp; omega
  | succ m ih =>
      have hspace : " ".length = 1 := rfl
      rw [List.replicate_succ, String.intercalate_cons_of_ne_nil (by simp), String.length_append,
        String.length_append, hspace, Nat.mul_succ, ← ih]
      omega

/-! ## A heading at the end of a chain -/

theorem renderFrom_heading_childless (level : HeadingLevel) (title attributes : String) (c : Context) :
    (⟨.heading level, title, attributes, []⟩ : Node).renderFrom c =
      (.ok (headingLine level ((c.enter level).number level) title ++ "\n\n\n\n"), c.enter level) := by
  have hfeeds : "\n\n" ++ String.join [] ++ "\n\n" = "\n\n\n\n" := rfl
  simp only [renderFrom, render, renderList, Pass.runFrom_bind, Pass.runFrom_enterHeading,
    Pass.runFrom_pure, headingLine, ← hfeeds, String.append_assoc]

theorem iterate_enter_first (c : Context) (m : Nat) :
    (fun c : Context => c.enter .first)^[m + 1] c = ⟨c.first + (m + 1), 0, 0, c.depth⟩ := by
  induction m with
  | zero => rfl
  | succ m ih => rw [Function.iterate_succ_apply', ih]; rfl

theorem interleave_headings (title : String) (c : Context) (groups : List (List String)) :
    interleave (fun c => headingLine .first ((c.enter .first).number .first) title ++ "\n\n\n\n")
        (fun c => c.enter .first) c groups =
      (List.zipWith (fun group number => group ++ [headingLine .first (toString number) title ++ "\n\n\n\n"])
        groups (List.range' (c.first + 1) groups.length)).flatten := by
  induction groups generalizing c with
  | nil => rfl
  | cons group groups ih =>
      rw [interleave, ih, List.length_cons, List.range'_succ, List.zipWith_cons_cons, List.flatten_cons,
        List.append_assoc]
      rfl

/-- A heading is numbered anew each time that it is rendered. -/
theorem renderFrom_chain_heading (title attributes : String) (labels : List (String × String))
    (c : Context) :
    let shown := fun group number =>
      group ++ [headingLine .first (toString number) title ++ "\n\n\n\n"]
    (chain ⟨.heading .first, title, attributes, []⟩ labels).renderFrom c =
      (.ok (" ".intercalate (List.zipWith shown (leads (labels.map Prod.fst))
          (List.range' (c.first + 1) (Nat.fib (labels.length + 1)))).flatten),
        ⟨c.first + Nat.fib (labels.length + 1), 0, 0, c.depth⟩) := by
  obtain ⟨m, hm⟩ : ∃ m, Nat.fib (labels.length + 1) = m + 1 :=
    Nat.exists_eq_add_one.mpr (Nat.fib_pos.mpr (Nat.succ_pos _))
  rw [renderFrom_chain_of_core rfl (renderFrom_heading_childless .first title attributes) labels c,
    interleave_headings, length_leads, List.length_map, hm, iterate_enter_first]

/-- The cost of showing a first child's children twice. A chain of `n` strings of one text emits it
`fib (n + 2) - 1` times, once for each visit to one of its nodes. A heading of the first level without
children, below `n` strings of any texts, is rendered `fib (n + 1)` times and counted anew each time; the
texts of the strings, `fib (n + 2) - 1` in all, stand between these renderings. -/
theorem renderFrom_chain (c : Context) :
    (∀ (text attributes : String) (above : List String),
      let n := above.length + 1
      let core : Node := ⟨.plain, text, attributes, []⟩
      let labels := above.map fun attributes => (text, attributes)
      ∃ markdown, (chain core labels).renderFrom c = (.ok markdown, c) ∧
        markdown.length + (text.length + 2) = (text.length + 1) * Nat.fib (n + 2) ∧
        markdown = " ".intercalate (List.replicate (Nat.fib (n + 2) - 1) text) ∧
        (chain core labels).steps.length = Nat.fib (n + 2) - 1 ∧
        ∀ s ∈ (chain core labels).steps, ∃ below, below <:+ labels ∧ s = .visit (chain core below)) ∧
    ∀ (title attributes : String) (labels : List (String × String)),
      let n := labels.length
      let root := chain ⟨.heading .first, title, attributes, []⟩ labels
      let texts := labels.map Prod.fst
      let shown := fun group number =>
        group ++ [headingLine .first (toString number) title ++ "\n\n\n\n"]
      root.headings = List.replicate (Nat.fib (n + 1)) (.first, title) ∧
        root.renderFrom c = (.ok (" ".intercalate (List.zipWith shown (leads texts)
            (List.range' (c.first + 1) (Nat.fib (n + 1)))).flatten),
          ⟨c.first + Nat.fib (n + 1), 0, 0, c.depth⟩) ∧
        (leads texts).length = Nat.fib (n + 1) ∧
        (leads texts).flatten.length = Nat.fib (n + 2) - 1 ∧
        ∀ text ∈ (leads texts).flatten, text ∈ texts := by
  constructor
  · intro text attributes above n core labels
    have hlabels : labels.length = above.length := List.length_map _
    have htexts : ∀ t ∈ labels.map Prod.fst, t = text := by
      simp only [labels, List.map_map, List.mem_map]
      rintro _ ⟨_, _, rfl⟩
      rfl
    have hrun : (chain core labels).renderFrom c = _ := renderFrom_chain_same htexts c
    have hsteps := Step.steps_of_ok (congrArg Prod.fst hrun)
    have hvisits : (chain core labels).trail.length + 1 = Nat.fib (n + 2) := by
      rw [length_trail_chain rfl, hlabels]
    obtain ⟨m, hm⟩ : ∃ m, Nat.fib (n + 2) = m + 2 :=
      Nat.exists_eq_add_of_le' (Nat.fib_mono (Nat.le_add_left 3 above.length))
    rw [hlabels] at hrun
    refine ⟨_, hrun, ?_, rfl, ?_, ?_⟩
    · rw [hm]
      exact length_intercalate_replicate text m
    · rw [hsteps, ← hvisits, Nat.add_sub_cancel]
    · rw [hsteps]
      exact fun s hs => mem_trail_chain rfl hs
  · intro title attributes labels n root texts shown
    have htexts : texts.length = n := List.length_map _
    have hrun := renderFrom_chain_heading title attributes labels c
    refine ⟨?_, hrun, ?_, ?_, fun text => mem_of_mem_leads⟩
    · rw [headings, Step.steps_of_ok (congrArg Prod.fst hrun)]
      exact headings_trail_chain .first title attributes labels
    · rw [length_leads, htexts]
    · rw [← htexts, ← length_flatten_leads, Nat.add_sub_cancel]

example : (chain ⟨.heading .first, "S", "", []⟩ [("a", ""), ("b", "")]).toMarkdown =
    .ok "a b ## 1 S\n\n\n\n ## 2 S\n\n\n\n" := by decide +kernel

end Node

end Treemark
