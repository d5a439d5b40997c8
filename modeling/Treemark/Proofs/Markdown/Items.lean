import Treemark.Proofs.Markdown.Forms
import Treemark.Proofs.Markdown.Kept
import Treemark.Proofs.Markdown.Pass

/-!
# Items of lists

The text of a list has a line for every item whose text is a single line. A list with dashes keeps all of
them. A numbered list keeps all items with a text, and an item without one only behind an item that ends
in a period.
-/

namespace Treemark

namespace Markdown

/-- The text of a list before bare lines are dropped. -/
def listText (kind : Kind) (depth : Nat) (items : List String) : String :=
  "\n" ++ String.join (items.map (tabs depth ++ kind.bullet ++ · ++ "\n")) ++ "\n"

/-- The line of an item. -/
def itemLine (kind : Kind) (depth : Nat) (item : String) : List Char :=
  (tabs depth ++ kind.bullet ++ item).toList

theorem listText_toList (kind : Kind) (depth : Nat) (items : List String) :
    (listText kind depth items).toList = unlines ([] :: items.map (itemLine kind depth) ++ [[]]) := by
  simp [listText, unlines, itemLine, List.flatMap_map]

/-! ## Bare items -/

variable {kind : Kind} {depth : Nat}

theorem char_notMem_itemLine (hkind : kind = .itemize ∨ kind = .enumerate) {item : String} {c : Char}
    (hc : c ∉ item.toList) (htab : c ≠ '\t') (hbullet : c ∉ ['-', '1', '.']) :
    c ∉ itemLine kind depth item := by
  rcases hkind with rfl | rfl <;>
    simp_all [itemLine, tabs, Kind.bullet, List.mem_replicate]

theorem isBare_itemLine_itemize (item : String) : isBare (itemLine .itemize depth item) = false := by
  have hline : itemLine .itemize depth item = List.replicate depth '\t' ++ '-' :: item.toList := by
    simp [itemLine, tabs, Kind.bullet]
  rw [hline, isBare_tabs]
  simp [isBare, isIndent]

theorem itemLine_enumerate (item : String) :
    itemLine .enumerate depth item = List.replicate depth '\t' ++ '1' :: '.' :: item.toList := by
  simp [itemLine, tabs, Kind.bullet]

theorem isBare_itemLine_enumerate (item : String) :
    isBare (itemLine .enumerate depth item) = decide (item = "") := by
  rw [itemLine_enumerate, isBare_tabs]
  simp [isBare, isIndent]

theorem endsInPeriod_itemLine_enumerate {item : String} (h : item ≠ "") :
    endsInPeriod (itemLine .enumerate depth item) = endsInPeriod item.toList := by
  rw [itemLine_enumerate, endsInPeriod_tabs]
  cases hitem : item.toList with
  | nil => exact absurd (String.toList_eq_nil_iff.mp hitem) h
  | cons c s => simp [endsInPeriod]

/-- The items of a list that are kept. -/
def keptItems (kind : Kind) (items : List String) : List String :=
  if kind = .enumerate then remaining (· = "") (endsInPeriod ·.toList) items else items

theorem remaining_items (hkind : kind = .itemize ∨ kind = .enumerate) (items : List String) :
    remaining isBare endsInPeriod (items.map (itemLine kind depth)) =
      (keptItems kind items).map (itemLine kind depth) := by
  rcases hkind with rfl | rfl
  · refine remaining_eq_self fun l hl => ?_
    obtain ⟨s, -, rfl⟩ := List.mem_map.mp hl
    exact isBare_itemLine_itemize s
  · exact remaining_map isBare_itemLine_enumerate
      (fun s hs => endsInPeriod_itemLine_enumerate (of_decide_eq_false hs)) items

theorem collapse_listText (hkind : kind = .itemize ∨ kind = .enumerate) {items : List String}
    (hitems : ∀ s ∈ items, '\n' ∉ s.toList ∧ '\r' ∉ s.toList) :
    collapse (listText kind depth items) = listText kind depth (keptItems kind items) := by
  have hlines : lines (listText kind depth items).toList =
      [] :: items.map (itemLine kind depth) ++ [[]] := by
    have hclean : ∀ l ∈ [] :: items.map (itemLine kind depth) ++ [[]], '\n' ∉ l ∧ '\r' ∉ l := by
      intro l hl
      simp only [List.cons_append, List.mem_cons, List.mem_append, List.mem_map, List.not_mem_nil,
        or_false] at hl
      rcases hl with rfl | ⟨s, hs, rfl⟩ | rfl
      · simp
      · obtain ⟨hfeed, hreturn⟩ := hitems s hs
        exact ⟨char_notMem_itemLine hkind hfeed (by simp) (by simp),
          char_notMem_itemLine hkind hreturn (by simp) (by simp)⟩
      · simp
    rw [listText_toList, lines_unlines fun l hl => (hclean l hl).1]
    exact map_withoutReturn_eq_self fun l hl hlast => (hclean l hl).2 (List.mem_of_getLast? hlast)
  have hframe (ls : List (List Char)) : keptLines [] ([] :: ls ++ [[]]) = [] :: keptLines [] ls ++ [[]] :=
    keptLines_concat ([] :: ls) []
  rw [← String.toList_inj, collapse, String.toList_ofList, hlines, hframe, keptLines_eq_remaining,
    remaining_items hkind, listText_toList]

end Markdown

namespace Node

open Markdown

/-- The elements give these values one after the other, each from the context that the one before it
left. -/
inductive InTurn {α β : Type} (Gives : Context → α → β → Context → Prop) :
    Context → List α → List β → Context → Prop where
  | nil (c : Context) : InTurn Gives c [] [] c
  | cons {c between after : Context} {x : α} {xs : List α} {y : β} {ys : List β} :
      Gives c x y between → InTurn Gives between xs ys after →
      InTurn Gives c (x :: xs) (y :: ys) after

namespace InTurn

variable {α β : Type} {Gives : Context → α → β → Context → Prop} {c between after : Context}

theorem nil_iff {ys : List β} : InTurn Gives c [] ys after ↔ ys = [] ∧ after = c := by
  constructor
  · rintro ⟨⟩
    exact ⟨rfl, rfl⟩
  · rintro ⟨rfl, rfl⟩
    exact .nil _

theorem cons_iff {x : α} {xs : List α} {ys : List β} : InTurn Gives c (x :: xs) ys after ↔
    ∃ y between, Gives c x y between ∧ ∃ ys', InTurn Gives between xs ys' after ∧ ys = y :: ys' := by
  constructor
  · rintro (_ | ⟨hx, hxs⟩)
    exact ⟨_, _, hx, _, hxs, rfl⟩
  · rintro ⟨y, between, hx, ys', hxs, rfl⟩
    exact .cons hx hxs

theorem append {xs xs' : List α} {ys ys' : List β} (hxs : InTurn Gives c xs ys between)
    (hxs' : InTurn Gives between xs' ys' after) : InTurn Gives c (xs ++ xs') (ys ++ ys') after := by
  induction hxs with
  | nil => exact hxs'
  | cons hx _ ih => exact .cons hx (ih hxs')

theorem length_eq {xs : List α} {ys : List β} (h : InTurn Gives c xs ys after) :
    ys.length = xs.length := by
  induction h with
  | nil => rfl
  | cons _ _ ih => rw [List.length_cons, List.length_cons, ih]

end InTurn

/-- The nodes give these texts one after the other, each from the context that the one before it left. -/
def RenderInTurn : Context → List Node → List String → Context → Prop :=
  InTurn fun c n text after => n.renderFrom c = (.ok text, after)

variable {c after : Context}

theorem RenderInTurn.singleton {n : Node} {text : String} (h : n.renderFrom c = (.ok text, after)) :
    RenderInTurn c [n] [text] after :=
  .cons h (.nil _)

theorem mapM_eq_ok_iff {α β : Type} {f : α → Pass β} {xs : List α} {ys : List β} :
    (xs.mapM f).runFrom c = (.ok ys, after) ↔
      InTurn (fun c x y after => (f x).runFrom c = (.ok y, after)) c xs ys after := by
  induction xs generalizing c ys with
  | nil => rw [List.mapM_nil, Pass.pure_eq_ok_iff, InTurn.nil_iff]
  | cons x xs ih =>
      simp only [List.mapM_cons, Pass.bind_eq_ok_iff, Pass.pure_eq_ok_iff, InTurn.cons_iff]
      constructor
      · rintro ⟨y, between, hx, ys', _, hxs, rfl, rfl⟩
        exact ⟨y, between, hx, ys', ih.mp hxs, rfl⟩
      · rintro ⟨y, between, hx, ys', hxs, rfl⟩
        exact ⟨y, between, hx, ys', after, ih.mpr hxs, rfl, rfl⟩

theorem renderList_eq_ok_iff {ns : List Node} {texts : List String} :
    (renderList ns).runFrom c = (.ok texts, after) ↔ RenderInTurn c ns texts after := by
  rw [renderList_eq, mapM_eq_ok_iff]
  rfl

section

variable {kind : Kind} {text attributes : String} {children : List Node}

theorem renderFrom_list (hkind : kind = .itemize ∨ kind = .enumerate) (body : Node) :
    renderFrom ⟨kind, text, attributes, body :: children⟩ c =
      match (renderList body.children).runFrom c.deeper with
      | (.ok items, after) => (.ok (collapse (listText kind c.depth items)), after.leave c)
      | (.error v, after) => (.error v, after.leave c) := by
  rw [renderFrom, render_list hkind]
  simp only [Pass.runFrom_bind, Pass.runFrom_inList, Pass.runFrom_get]
  rcases (renderList body.children).runFrom c.deeper with ⟨_ | items, _⟩ <;> rfl

theorem renderFrom_list_of_items (hkind : kind = .itemize ∨ kind = .enumerate) {body : Node}
    {items : List String} (hitems : RenderInTurn c.deeper body.children items after) :
    renderFrom ⟨kind, text, attributes, body :: children⟩ c =
      (.ok (collapse (listText kind c.depth items)), after.leave c) := by
  rw [renderFrom_list hkind, renderList_eq_ok_iff.mpr hitems]

theorem renderFrom_list_eq_ok (hkind : kind = .itemize ∨ kind = .enumerate) {markdown : String}
    (h : (renderFrom ⟨kind, text, attributes, children⟩ c).1 = .ok markdown) :
    ∃ body ∈ children.head?, ∃ items after, RenderInTurn c.deeper body.children items after ∧
      markdown = collapse (listText kind c.depth items) := by
  cases children with
  | nil =>
      have hlacking : violation? ⟨kind, text, attributes, []⟩ = some ⟨kind, .listBody⟩ := by
        rcases hkind with rfl | rfl <;> rfl
      rw [renderFrom, render_lacking hlacking] at h
      cases h
  | cons body children =>
      rw [renderFrom_list hkind] at h
      rcases hrun : (renderList body.children).runFrom c.deeper with ⟨v | items, after⟩
      · rw [hrun] at h
        cases h
      · rw [hrun] at h
        exact ⟨body, rfl, items, after, renderList_eq_ok_iff.mp hrun, (Except.ok.inj h).symm⟩

end

/-- A list whose items have texts of a single line keeps all of them, in order. Only items of a numbered
list that have no text are dropped, unless the nearest item before them with a text ends in a period. -/
theorem renderFrom_items {kind : Kind} (hkind : kind = .itemize ∨ kind = .enumerate)
    (text attributes : String) {body : Node} (children : List Node) {items : List String}
    (hitems : RenderInTurn c.deeper body.children items after)
    (hline : ∀ s ∈ items, '\n' ∉ s.toList ∧ '\r' ∉ s.toList) :
    renderFrom ⟨kind, text, attributes, body :: children⟩ c =
      (.ok ("\n" ++ String.join
        ((if kind = .enumerate then remaining (· = "") (endsInPeriod ·.toList) items else items).map
          (tabs c.depth ++ kind.bullet ++ · ++ "\n")) ++ "\n"), after.leave c) := by
  rw [renderFrom_list_of_items hkind hitems, collapse_listText hkind hline]
  rfl

/-- In the first item without a text a sentence has ended, and in the second one none has. -/
theorem renderFrom_items_numbered :
    let item (text : String) : Node := ⟨.item, "", "", [⟨.plain, text, "", []⟩]⟩
    let body : Node := ⟨.document, "", "", [item "Done.", item "", item "x", item ""]⟩
    renderFrom ⟨.enumerate, "", "", [body]⟩ { depth := 1 } =
      (.ok "\n\t1.Done.\n\t1.\n\t1.x\n\n", { depth := 1 }) := by
  intro item body
  have hitems : RenderInTurn { depth := 2 } body.children ["Done.", "", "x", ""] { depth := 2 } :=
    .cons rfl (.cons rfl (.cons rfl (.cons rfl (.nil _))))
  have hkept : remaining (· = "") (endsInPeriod ·.toList) ["Done.", "", "x", ""] =
      ["Done.", "", "x"] := by decide
  have h := renderFrom_items (c := { depth := 1 }) (.inr rfl) "" "" [] hitems (by simp)
  rw [if_pos rfl, hkept] at h
  exact h

end Node

end Treemark
