import Mathlib.Data.List.Sort
import Treemark.Node.Listing
import Treemark.Proofs.Draft.Places
import Treemark.Proofs.Markdown.Lines

/-!
# What listings show

As long as no text in a tree has a line feed, its listing has a line for each of its nodes, in the order of
their places and indented by their levels. The levels alone show which node stands below which, so the listing
shows the shape of the tree, and its lines show the kinds and the texts.
-/

namespace Treemark

open Markdown

/-! ## Names in capitals -/

namespace Kind

theorem of_mem_name {k : Kind} {c : Char} (h : c ∈ k.name.toList) :
    c = '_' ∨ 97 ≤ c.toNat ∧ c.toNat ≤ 122 := by
  have hall : k.name.toList.all (fun c => c = '_' ∨ 97 ≤ c.toNat ∧ c.toNat ≤ 122) := by
    cases k with
    | heading level => cases level <;> rfl
    | _ => rfl
  exact of_decide_eq_true (List.all_eq_true.mp hall c h)

theorem toUpper_of_mem_name {k : Kind} {c : Char} (h : c ∈ k.name.toList) :
    c.toUpper.toLower = c ∧ c.toUpper ∉ ['\t', '\n', ':'] := by
  have hsmall : ∀ i < 26, (Char.ofNat (97 + i)).toUpper.toLower = Char.ofNat (97 + i) ∧
      (Char.ofNat (97 + i)).toUpper ∉ ['\t', '\n', ':'] := by decide
  rcases of_mem_name h with rfl | ⟨hlow, hhigh⟩
  · decide
  · have hc := hsmall (c.toNat - 97) (by omega)
    rwa [show 97 + (c.toNat - 97) = c.toNat by omega, Char.ofNat_toNat] at hc

theorem banner_toList (k : Kind) : k.banner.toList = k.name.toList.map Char.toUpper := by
  rw [banner, String.toList_ofList]

theorem notMem_banner (k : Kind) {c : Char} (hc : c ∈ ['\t', '\n', ':']) : c ∉ k.banner.toList := by
  intro h
  rw [banner_toList] at h
  obtain ⟨d, hd, rfl⟩ := List.mem_map.mp h
  exact (toUpper_of_mem_name hd).2 hc

theorem banner_injective {j k : Kind} (h : j.banner = k.banner) : j = k := by
  have hname (k : Kind) : k.banner.toList.map Char.toLower = k.name.toList := by
    rw [banner_toList, List.map_map]
    exact (List.map_congr_left fun c hc => (toUpper_of_mem_name hc).1).trans (List.map_id _)
  have hnames : j.name = k.name := String.toList_inj.mp (by rw [← hname j, ← hname k, h])
  exact Option.some.inj (by rw [← ofName?_name j, ← ofName?_name k, hnames])

end Kind

namespace Node

/-! ## Nodes and their places -/

/-- The nodes of a tree with their places, parents before children and children in order. -/
def placed (place : Place) (n : Node) : List (Place × Node) := n.rose.placed place

/-- The nodes below a place, from the child of the given index on. -/
def placedList (place : Place) (index : Nat) (ns : List Node) : List (Place × Node) :=
  Rose.placedList place index (roseList ns)

theorem placed_mk (place : Place) (kind : Kind) (text attributes : String) (children : List Node) :
    placed place ⟨kind, text, attributes, children⟩ =
      (place, ⟨kind, text, attributes, children⟩) :: placedList place 0 children := rfl

theorem placedList_cons (place : Place) (index : Nat) (n : Node) (ns : List Node) :
    placedList place index (n :: ns) = n.placed (place ++ [index]) ++ placedList place (index + 1) ns := rfl

theorem mem_placed_root_iff {n m : Node} {p : Place} : (p, m) ∈ n.placed [] ↔ n.at? p = some m :=
  unfolds_rose.mem_placed_root_iff

theorem pairwise_placed (place : Place) (n : Node) :
    (n.placed place).Pairwise fun x y => x.1 < y.1 := n.rose.pairwise_placed place

mutual
theorem length_placed (place : Place) : (n : Node) → (n.placed place).length = n.count
  | ⟨kind, text, attributes, children⟩ => by
      rw [placed_mk, count, List.length_cons, length_placedList place 0 children, Nat.add_comm]

theorem length_placedList (place : Place) (index : Nat) : (ns : List Node) →
    (placedList place index ns).length = countList ns
  | [] => rfl
  | n :: ns => by
      rw [placedList_cons, countList, List.length_append, length_placed (place ++ [index]) n,
        length_placedList place (index + 1) ns]
end

/-! ## Lines -/

/-- What a listing shows of a node. -/
def label (n : Node) : Kind × String := (n.kind, n.text ++ " (" ++ n.attributes ++ ")")

/-- The levels and the labels of the nodes from a place on, in order. -/
def rows (place : Place) (n : Node) : List (Nat × Kind × String) :=
  (n.placed place).map fun e => (e.1.length, e.2.label)

def rowsList (place : Place) (index : Nat) (ns : List Node) : List (Nat × Kind × String) :=
  (placedList place index ns).map fun e => (e.1.length, e.2.label)

/-- The line of a node with this level and label. -/
def rowLine (depth : Nat) : Nat × Kind × String → List Char
  | (level, kind, text) =>
    List.replicate (depth + level) '\t' ++ (kind.banner ++ ": " ++ text).toList

mutual
theorem listing_toList (depth : Nat) (place : Place) : (n : Node) →
    (n.listing (depth + place.length)).toList = unlines ((n.rows place).map (rowLine depth))
  | ⟨kind, text, attributes, children⟩ => by
      have hbelow := listingList_toList depth place 0 children
      rw [rowsList] at hbelow
      simp [listing, hbelow, rows, placed_mk, unlines_cons, rowLine, label, tabs]

theorem listingList_toList (depth : Nat) (place : Place) (index : Nat) : (ns : List Node) →
    (listingList (depth + place.length + 1) ns).toList =
      unlines ((rowsList place index ns).map (rowLine depth))
  | [] => rfl
  | n :: ns => by
      have hfirst := listing_toList depth (place ++ [index]) n
      have hrest := listingList_toList depth place (index + 1) ns
      rw [List.length_append, List.length_singleton, ← Nat.add_assoc] at hfirst
      rw [listingList, String.toList_append, hfirst, hrest, ← unlines_append, ← List.map_append]
      simp only [rows, rowsList, placedList_cons, List.map_append]
end

theorem listing_eq_unlines (depth : Nat) (n : Node) :
    (n.listing depth).toList = unlines ((n.rows []).map (rowLine depth)) :=
  listing_toList depth [] n

theorem rowText_toList (kind : Kind) (text : String) :
    (kind.banner ++ ": " ++ text).toList = kind.banner.toList ++ ':' :: ' ' :: text.toList := by
  simp

theorem rowText_eq_cons (kind : Kind) (text : String) :
    ∃ c s, (kind.banner ++ ": " ++ text).toList = c :: s ∧ c ≠ '\t' := by
  have htab := kind.notMem_banner (c := '\t') (by decide)
  rw [rowText_toList]
  cases hbanner : kind.banner.toList with
  | nil => exact ⟨':', _, rfl, by decide⟩
  | cons c s =>
      rw [hbanner, List.mem_cons, not_or] at htab
      exact ⟨c, _, rfl, Ne.symm htab.1⟩

theorem rowLine_tabs (depth : Nat) (row : Nat × Kind × String) :
    (rowLine depth row).takeWhile (· = '\t') = List.replicate (depth + row.1) '\t' ∧
    (rowLine depth row).dropWhile (· = '\t') = (row.2.1.banner ++ ": " ++ row.2.2).toList := by
  obtain ⟨level, kind, text⟩ := row
  have htabs : ∀ c ∈ List.replicate (depth + level) '\t', decide (c = '\t') = true := by simp
  obtain ⟨c, s, hline, hc⟩ := rowText_eq_cons kind text
  rw [rowLine, List.takeWhile_append_of_pos htabs, List.dropWhile_append_of_pos htabs, hline]
  simp [hc]

variable {depth : Nat}

/-- The tabs end with the name of the kind, and the name ends with the first colon. -/
theorem rowLine_injective : Function.Injective (rowLine depth) := by
  rintro ⟨level, kind, text⟩ ⟨level', kind', text'⟩ h
  obtain ⟨htabs, hname⟩ := rowLine_tabs depth (level, kind, text)
  obtain ⟨htabs', hname'⟩ := rowLine_tabs depth (level', kind', text')
  have hlevel := congrArg List.length (htabs.symm.trans (h ▸ htabs'))
  simp only [List.length_replicate, Nat.add_left_cancel_iff] at hlevel
  have hline := hname.symm.trans (h ▸ hname')
  simp only [rowText_toList] at hline
  obtain ⟨hkind, htext⟩ := append_delimiter_inj (kind.notMem_banner (by decide))
    (kind'.notMem_banner (by decide)) hline
  rw [hlevel, Kind.banner_injective (String.toList_inj.mp hkind),
    String.toList_inj.mp (List.cons.inj htext).2]

/-- No text and no attributes in the tree go over the end of a line. -/
def SingleLined (n : Node) : Prop :=
  ∀ p m, n.at? p = some m → '\n' ∉ m.text.toList ∧ '\n' ∉ m.attributes.toList

theorem singleLined_iff {n : Node} : n.SingleLined ↔
    ∀ e ∈ n.placed [], '\n' ∉ e.2.text.toList ∧ '\n' ∉ e.2.attributes.toList :=
  ⟨fun h e he => h e.1 e.2 (mem_placed_root_iff.mp he),
    fun h p m hm => h (p, m) (mem_placed_root_iff.mpr hm)⟩

theorem SingleLined.rowLine {n : Node} (h : n.SingleLined) :
    ∀ l ∈ (n.rows []).map (rowLine depth), '\n' ∉ l := by
  intro l hl
  rw [rows, List.map_map] at hl
  obtain ⟨e, he, rfl⟩ := List.mem_map.mp hl
  obtain ⟨htext, hattributes⟩ := singleLined_iff.mp h e he
  have hbanner := e.2.kind.notMem_banner (c := '\n') (by decide)
  simp [Node.rowLine, label, htext, hattributes, hbanner]

theorem listing_eq_iff {m n : Node} (hm : m.SingleLined) (hn : n.SingleLined) :
    m.listing depth = n.listing depth ↔ m.rows [] = n.rows [] := by
  rw [← String.toList_inj, listing_eq_unlines, listing_eq_unlines]
  refine ⟨fun h => ?_, fun h => h ▸ rfl⟩
  exact List.map_injective_iff.mpr rowLine_injective (unlines_inj hm.rowLine hn.rowLine h)

/-! ## Trees from the levels of their nodes -/

/-- The places and the labels of the nodes from a place on, in order. -/
def labels (place : Place) (n : Node) : List (Place × Kind × String) :=
  (n.placed place).map fun e => (e.1, e.2.label)

def labelsList (place : Place) (index : Nat) (ns : List Node) : List (Place × Kind × String) :=
  (placedList place index ns).map fun e => (e.1, e.2.label)

theorem map_label_at?_eq_some_iff {n : Node} {p : Place} {l : Kind × String} :
    (n.at? p).map label = some l ↔ (p, l) ∈ n.labels [] := by
  rw [Option.map_eq_some_iff, labels, List.mem_map]
  constructor
  · rintro ⟨m, hm, rfl⟩
    exact ⟨(p, m), mem_placed_root_iff.mpr hm, rfl⟩
  · rintro ⟨⟨q, m⟩, hm, heq⟩
    cases heq
    exact ⟨m, mem_placed_root_iff.mp hm, rfl⟩

theorem rows_eq_map_labels (n : Node) : n.rows [] = (n.labels []).map fun x => (x.1.length, x.2) := by
  rw [rows, labels, List.map_map]
  rfl

/-- The first of the rows, if there is any, is not below a node of this level. -/
def Outside (level : Nat) (rows : List (Nat × Kind × String)) : Prop := ∀ row ∈ rows.head?, row.1 ≤ level

section

variable {place : Place} {s t : List (Nat × Kind × String)}

theorem rowsList_cons (index : Nat) (n : Node) (ns : List Node) :
    rowsList place index (n :: ns) = n.rows (place ++ [index]) ++ rowsList place (index + 1) ns := by
  rw [rowsList, placedList_cons, List.map_append]
  rfl

theorem labelsList_cons (index : Nat) (n : Node) (ns : List Node) :
    labelsList place index (n :: ns) =
      n.labels (place ++ [index]) ++ labelsList place (index + 1) ns := by
  rw [labelsList, placedList_cons, List.map_append]
  rfl

theorem head?_rowsList_cons (index : Nat) (n : Node) (ns : List Node) :
    (rowsList place index (n :: ns)).head? = some (place.length + 1, n.label) := by
  cases n
  simp [rowsList_cons, rows, placed_mk]

theorem Outside.rowsList (h : Outside place.length s) (index : Nat) (ns : List Node) :
    Outside (place.length + 1) (rowsList place index ns ++ s) := by
  intro row hrow
  cases ns with
  | nil => exact Nat.le_succ_of_le (h row hrow)
  | cons n ns =>
      rw [List.head?_append, head?_rowsList_cons, Option.some_or, Option.mem_some_iff] at hrow
      exact hrow ▸ Nat.le_refl _

theorem Outside.ne_rowsList_cons (h : Outside place.length s) (index : Nat) (n : Node) (ns : List Node) :
    s ≠ Node.rowsList place index (n :: ns) ++ t := by
  rintro rfl
  have hrow := h (place.length + 1, n.label) (by rw [List.head?_append, head?_rowsList_cons]; rfl)
  exact Nat.not_succ_le_self _ hrow

end

mutual
/-- Behind the rows of a tree there is no more row that stands below its root. -/
theorem labels_of_rows {place : Place} {s t : List (Nat × Kind × String)}
    (hs : Outside place.length s) (ht : Outside place.length t) : (m n : Node) →
    m.rows place ++ s = n.rows place ++ t → m.labels place = n.labels place ∧ s = t
  | ⟨kind, text, attributes, children⟩, ⟨kind', text', attributes', children'⟩, h => by
      rw [rows, rows, placed_mk, placed_mk, List.map_cons, List.map_cons, List.cons_append, List.cons_append,
        List.cons.injEq, Prod.mk.injEq] at h
      obtain ⟨hbelow, hst⟩ := labelsList_of_rows hs ht 0 children children' h.2
      rw [labelsList, labelsList] at hbelow
      rw [labels, labels, placed_mk, placed_mk, List.map_cons, List.map_cons, hbelow, h.1.2]
      exact ⟨rfl, hst⟩

theorem labelsList_of_rows {place : Place} {s t : List (Nat × Kind × String)}
    (hs : Outside place.length s) (ht : Outside place.length t) (index : Nat) : (ms ns : List Node) →
    rowsList place index ms ++ s = rowsList place index ns ++ t →
    labelsList place index ms = labelsList place index ns ∧ s = t
  | [], [], h => ⟨rfl, h⟩
  | [], n :: ns, h => absurd h (hs.ne_rowsList_cons index n ns)
  | m :: ms, [], h => absurd h.symm (ht.ne_rowsList_cons index m ms)
  | m :: ms, n :: ns, h => by
      have hlength : (place ++ [index]).length = place.length + 1 := by simp
      rw [rowsList_cons, rowsList_cons, List.append_assoc, List.append_assoc] at h
      obtain ⟨hfirst, hrest⟩ := labels_of_rows (hlength ▸ hs.rowsList (index + 1) ms)
        (hlength ▸ ht.rowsList (index + 1) ns) m n h
      obtain ⟨hothers, hst⟩ := labelsList_of_rows hs ht (index + 1) ms ns hrest
      rw [labelsList_cons, labelsList_cons, hfirst, hothers]
      exact ⟨rfl, hst⟩
end

/-- The levels of the nodes in order tell as much as their places. -/
theorem rows_eq_iff {m n : Node} :
    m.rows [] = n.rows [] ↔ ∀ p, (m.at? p).map label = (n.at? p).map label := by
  constructor
  · intro h p
    have hnil : Outside ([] : Place).length [] := fun row hrow => absurd hrow (by simp)
    have hlabels := (labels_of_rows hnil hnil m n (by rw [h])).1
    refine Option.ext fun l => ?_
    rw [map_label_at?_eq_some_iff, map_label_at?_eq_some_iff, hlabels]
  · intro h
    let before (x y : Place × Kind × String) : Prop := x.1 < y.1
    have hirrefl : Std.Irrefl before := ⟨fun x => List.lt_irrefl x.1⟩
    have hantisymm : Std.Antisymm before := ⟨fun x y hxy hyx => absurd hyx (List.lt_asymm hxy)⟩
    have hsorted (n : Node) : (n.labels []).Pairwise before :=
      List.pairwise_map.mpr (pairwise_placed [] n)
    have hlabels : m.labels [] = n.labels [] := by
      refine (hsorted m).eq_of_mem_iff (hsorted n) fun ⟨p, l⟩ => ?_
      rw [← map_label_at?_eq_some_iff, ← map_label_at?_eq_some_iff, h p]
    rw [rows_eq_map_labels, rows_eq_map_labels, hlabels]

/-! ## Listings -/

/-- A tree without line feeds in its texts has a listing of as many lines as it has nodes. The lines are those
of the nodes in the order of their places, each with a tab for each level above the node besides those of the
depth. Two such trees have the same listing only if they have nodes at the same places, with the same kinds and
with texts and attributes that look the same when they are run together. -/
theorem listing_faithful (depth : Nat) {n : Node} (hn : n.SingleLined) :
    (∀ p m, (p, m) ∈ n.placed [] ↔ n.at? p = some m) ∧
    (n.placed []).Pairwise (fun x y => x.1 < y.1) ∧
    (∃ lines : List (List Char), (n.listing depth).toList.splitOn '\n' = lines ++ [[]] ∧
      lines.length = n.count ∧ (n.placed []).length = n.count ∧
      ∀ (i : Nat) (p : Place) (m : Node), (n.placed [])[i]? = some (p, m) → ∃ line, lines[i]? = some line ∧
        line.takeWhile (· = '\t') = List.replicate (depth + p.length) '\t' ∧
        line.dropWhile (· = '\t') =
          (m.kind.banner ++ ": " ++ (m.text ++ " (" ++ m.attributes ++ ")")).toList) ∧
    ∀ n' : Node, n'.SingleLined → (n.listing depth = n'.listing depth ↔
      ∀ p, (n.at? p).map (fun m => (m.kind, m.text ++ " (" ++ m.attributes ++ ")")) =
        (n'.at? p).map fun m => (m.kind, m.text ++ " (" ++ m.attributes ++ ")")) := by
  refine ⟨fun p m => mem_placed_root_iff, pairwise_placed [] n, ?_, fun n' hn' => ?_⟩
  · refine ⟨(n.rows []).map (rowLine depth), ?_, ?_, length_placed [] n, fun i p m hi => ?_⟩
    · rw [listing_eq_unlines, splitOn_unlines hn.rowLine]
    · rw [List.length_map, rows, List.length_map, length_placed]
    · refine ⟨rowLine depth (p.length, m.label), ?_, rowLine_tabs depth _⟩
      simp only [rows, List.getElem?_map, hi, Option.map_some]
  · exact (listing_eq_iff hn hn').trans rows_eq_iff

/-- Two trees that differ, but not in what a listing shows of them. -/
theorem listing_faithful_parentheses :
    let leaf (text attributes : String) : Node := ⟨.label, text, attributes, []⟩
    let m : Node := ⟨.document, "", "", [leaf "\ta: (b)" "c", leaf "" ""]⟩
    let n : Node := ⟨.document, "", "", [leaf "\ta:" "b) (c", leaf "" ""]⟩
    m.SingleLined ∧ n.SingleLined ∧ m ≠ n ∧ m.listing 1 = n.listing 1 := by
  intro leaf m n
  have hm : m.SingleLined := singleLined_iff.mpr (by decide +kernel)
  have hn : n.SingleLined := singleLined_iff.mpr (by decide +kernel)
  refine ⟨hm, hn, by decide +kernel, ((listing_faithful 1 hm).2.2.2 n hn).mpr fun p => ?_⟩
  match p with
  | [] => rfl
  | [0] => decide +kernel
  | [1] => rfl
  | 0 :: _ :: _ => rfl
  | 1 :: _ :: _ => rfl
  | (_ + 2) :: _ => rfl

end Node

end Treemark
