import Treemark.Node.Written
import Treemark.Draft.Reader
import Treemark.Proofs.Node.Height
import Treemark.Proofs.Json.Quoted

/-!
# Written trees read back

A written tree is read as its own draft as long as the levels suffice, and otherwise the first bracket
beyond them is reported. Both are stated for every number of levels and for every text that follows.
-/

namespace Treemark

open Json

namespace Json

/-! ## Tokens -/

theorem skipBlanks_of_not_blank {c : Char} (h : isBlank c = false) (s : List Char) :
    skipBlanks (c :: s) = c :: s := by
  simp [skipBlanks, h]

/-- What stands in front of an element or a member. -/
def lead (first : Bool) : List Char := if first then [] else [',']

theorem nextElement_lead {c : Char} (hblank : isBlank c = false) (hc : c ≠ ']') (first : Bool)
    (s : List Char) : nextElement first (lead first ++ c :: s) = .ok (.further (c :: s)) := by
  cases first with
  | true => simp [lead, nextElement, skipBlanks_of_not_blank hblank, hc]
  | false =>
      have hcomma := skipBlanks_of_not_blank (c := ',') rfl (c :: s)
      simp [lead, nextElement, hcomma, skipBlanks_of_not_blank hblank, hc]

theorem nextMember_lead (first : Bool) (s : List Char) :
    nextMember first (lead first ++ '"' :: s) = .ok (.further s) := by
  have hquote := skipBlanks_of_not_blank (c := '"') rfl s
  cases first with
  | true => simp [lead, nextMember, startName, hquote]
  | false =>
      have hcomma := skipBlanks_of_not_blank (c := ',') rfl ('"' :: s)
      simp [lead, nextMember, startName, hcomma, hquote]

theorem nextElement_closing (first : Bool) (s : List Char) :
    nextElement first (']' :: s) = .ok (.closed s) := by
  simp [nextElement, skipBlanks_of_not_blank (c := ']') rfl s]

theorem nextMember_closing (first : Bool) (s : List Char) :
    nextMember first ('}' :: s) = .ok (.closed s) := by
  simp [nextMember, skipBlanks_of_not_blank (c := '}') rfl s]

theorem Field.ofName?_name (f : Field) : Field.ofName? f.name = some f := by
  cases f <;> decide

/-! ## Elements -/

theorem elements_closed {α : Type} {element : Reader α} {first : Bool} {s rest : List Char}
    (h : nextElement first s = .ok (.closed rest)) :
    elements element first s = .ok ([], rest) := by
  rw [elements]
  split <;> simp_all

theorem elements_further {α : Type} {element : Reader α} {first : Bool} {s rest : List Char}
    (h : nextElement first s = .ok (.further rest)) :
    elements element first s =
      (element.read rest).bind fun r => mapValue (r.1 :: ·) (elements element false r.2) := by
  rw [elements]
  split
  · simp_all
  · simp_all
  · rename_i rest' hs
    rw [h] at hs
    cases hs
    split
    · simp_all [Except.bind]
    · rename_i v rest' hv
      simp only [hv, Except.bind]
      cases elements element false rest' <;> rfl

end Json

namespace Draft

/-! ## Members -/

variable (children : Reader (List Draft))

theorem readMembers_closed {m : Members} {first : Bool} {s rest : List Char}
    (h : nextMember first s = .ok (.closed rest)) :
    readMembers children m first s = .ok (m, rest) := by
  rw [readMembers]
  split <;> simp_all

theorem readMembers_further {m : Members} {first : Bool} {s rest : List Char}
    (h : nextMember first s = .ok (.further rest)) :
    readMembers children m first s =
      (readMember children m rest).bind fun r => readMembers children r.1 false r.2 := by
  rw [readMembers]
  split
  · simp_all
  · simp_all
  · rename_i rest' hs
    rw [h] at hs
    cases hs
    split <;> simp_all [Except.bind]

theorem readString_quoted (s : String) (rest : List Char) :
    readString (quoted s ++ rest) = .ok (s, rest) := by
  have hquote := skipBlanks_of_not_blank (c := '"') rfl
    (s.toList.flatMap escapeChar ++ '"' :: rest)
  simp [quoted, readString, hquote, stringTail_written]

theorem readMembers_writtenMember {m : Members} {f : Field} (hf : m.has f = false) (first : Bool)
    (value rest : List Char) :
    readMembers children m first (lead first ++ (writtenMember f.name value ++ rest)) =
      (readField children m f (value ++ rest)).bind fun r => readMembers children r.1 false r.2 := by
  have hcolon : skipColon (':' :: (value ++ rest)) = .ok (value ++ rest) := by
    simp [skipColon, skipBlanks_of_not_blank (c := ':') rfl]
  have hmember : readMember children m
      (f.name.toList.flatMap escapeChar ++ '"' :: ':' :: (value ++ rest)) =
        readField children m f (value ++ rest) := by
    simp [readMember, stringTail_written, Field.ofName?_name, hf, hcolon]
  have hwritten : writtenMember f.name value ++ rest =
      '"' :: (f.name.toList.flatMap escapeChar ++ '"' :: ':' :: (value ++ rest)) := by
    simp [writtenMember, quoted]
  rw [hwritten, readMembers_further children (nextMember_lead first _), hmember]

theorem readMembers_writtenText {f : Field} (put : Option String → Members)
    (hf : (put none).has f = false)
    (hread : ∀ s, readField children (put none) f s = mapValue (fun v => put (some v)) (readString s))
    (text : String) (rest : List Char) :
    readMembers children (put none) false (writtenText f.name text ++ rest) =
      readMembers children (put (if text = "" then none else some text)) false rest := by
  unfold writtenText
  split
  · rfl
  · have h := readMembers_writtenMember children hf false (quoted text) rest
    rw [hread, readString_quoted] at h
    exact h

/-- The members in front of the children. -/
def Members.ofTexts (kind text attributes : String) : Members :=
  { kind := some kind
    text := if text = "" then none else some text
    attributes := if attributes = "" then none else some attributes }

theorem readMembers_writtenTexts (kind text attributes : String) (rest : List Char) :
    readMembers children {} true (writtenMember "kind" (quoted kind) ++
        (writtenText "text" text ++ (writtenText "attributes" attributes ++ rest))) =
      readMembers children (.ofTexts kind text attributes) false rest := by
  have hkind := readMembers_writtenMember children (m := {}) (f := .kind) rfl true
    (quoted kind) (writtenText "text" text ++ (writtenText "attributes" attributes ++ rest))
  simp only [readField, readString_quoted, mapValue, Except.bind] at hkind
  refine hkind.trans ?_
  refine (readMembers_writtenText children (f := .text)
    (fun t => { kind := some kind, text := t }) rfl (fun _ => rfl) text _).trans ?_
  exact readMembers_writtenText children (f := .attributes)
    (fun a => { kind := some kind, text := if text = "" then none else some text, attributes := a })
    rfl (fun _ => rfl) attributes rest

theorem finish_ofTexts (kind text attributes : String) (ds : Option (List Draft))
    (rest : List Char) :
    finish .missingKind (.ok ({ Members.ofTexts kind text attributes with children := ds }, rest)) =
      .ok ({ kind, text, attributes, children := ds.getD [] }, rest) := by
  simp only [finish, Members.draft?, Members.ofTexts, Option.map_some]
  split <;> split <;> simp_all

/-! ## Trees -/

theorem readNode_written (children : Reader (List Draft)) (kind : Kind) (text attributes : String)
    (ns : List Node) (rest : List Char) :
    readNode (some children) (Node.written ⟨kind, text, attributes, ns⟩ ++ rest) =
      finish .missingKind (readMembers children (.ofTexts kind.name text attributes) false
        (Node.writtenChildren ns ++ '}' :: rest)) := by
  have hopen := skipBlanks_of_not_blank (c := '{') rfl
  simp [Node.written, readNode, hopen, readMembers_writtenTexts]

theorem elements_written (element : Reader Draft) (first : Bool) (n : Node) (s : List Char) :
    elements element first (lead first ++ (n.written ++ s)) =
      (element.read (n.written ++ s)).bind fun r =>
        mapValue (r.1 :: ·) (elements element false r.2) := by
  obtain ⟨kind, text, attributes, ns⟩ := n
  simp only [Node.written, List.cons_append]
  exact elements_further (nextElement_lead (c := '{') (by decide) (by decide) first _)

theorem elements_writtenCons {levels : Nat} {n : Node} {ns : List Node} {s rest : List Char}
    (hn : (nodeReader levels).read (n.written ++ s) =
      if 2 * n.height ≤ levels + 1 then .ok (n.draft, s) else .error .tooDeep)
    (hns : elements (nodeReader levels) false s =
      if 2 * Node.heightList ns ≤ levels + 1 then .ok (Node.draftList ns, rest)
      else .error .tooDeep) (first : Bool) :
    elements (nodeReader levels) first (lead first ++ (n.written ++ s)) =
      if 2 * Node.heightList (n :: ns) ≤ levels + 1 then .ok (Node.draftList (n :: ns), rest)
      else .error .tooDeep := by
  rw [elements_written, hn]
  by_cases h₁ : 2 * n.height ≤ levels + 1
  · by_cases h₂ : 2 * Node.heightList ns ≤ levels + 1
    · have h : 2 * max n.height (Node.heightList ns) ≤ levels + 1 := by omega
      simp [h₁, h₂, h, hns, Except.bind, mapValue, Node.heightList, Node.draftList]
    · have h : ¬ 2 * max n.height (Node.heightList ns) ≤ levels + 1 := by omega
      simp [h₁, h₂, h, hns, Except.bind, mapValue, Node.heightList]
  · have h : ¬ 2 * max n.height (Node.heightList ns) ≤ levels + 1 := by omega
    simp [h₁, h, Except.bind, Node.heightList]

theorem childrenReader_writtenCons {n : Node} {ns : List Node} {s rest : List Char}
    (hn : ∀ levels, (nodeReader levels).read (n.written ++ s) =
      if 2 * n.height ≤ levels + 1 then .ok (n.draft, s) else .error .tooDeep)
    (hns : ∀ levels, elements (nodeReader levels) false s =
      if 2 * Node.heightList ns ≤ levels + 1 then .ok (Node.draftList ns, rest)
      else .error .tooDeep) (levels : Nat) :
    (childrenReader levels).read ('[' :: (n.written ++ s)) =
      if 2 * Node.heightList (n :: ns) ≤ levels then .ok (Node.draftList (n :: ns), rest)
      else .error .tooDeep := by
  have hopen := skipBlanks_of_not_blank (c := '[') rfl (n.written ++ s)
  cases levels with
  | zero =>
      have hpos := n.height_pos
      have hdeep : ¬ 2 * max n.height (Node.heightList ns) ≤ 0 := by omega
      simp only [childrenReader, readList, hopen, Node.heightList, hdeep, ↓reduceIte]
  | succ levels =>
      simp only [childrenReader, readList, hopen, ↓reduceIte]
      exact elements_writtenCons (hn levels) (hns levels) true

theorem readNode_writtenCons {children : Reader (List Draft)} {n : Node} {ns : List Node}
    {rest : List Char} {x : Except Fault (List Draft)}
    (h : children.read ('[' :: (n.written ++ (Node.writtenRest ns ++ ']' :: '}' :: rest))) =
      x.map (·, '}' :: rest)) (kind : Kind) (text attributes : String) :
    readNode (some children) (Node.written ⟨kind, text, attributes, n :: ns⟩ ++ rest) =
      x.map ({ kind := kind.name, text, attributes, children := · }, rest) := by
  have hwritten : Node.writtenChildren (n :: ns) ++ '}' :: rest =
      lead false ++ (writtenMember Field.children.name
        ('[' :: (n.written ++ (Node.writtenRest ns ++ [']']))) ++ '}' :: rest) := by
    simp [Node.writtenChildren, lead, Field.name]
  rw [readNode_written, hwritten, readMembers_writtenMember children (f := .children) rfl]
  simp only [readField, List.cons_append, List.append_assoc, List.nil_append, h]
  cases x with
  | error e => rfl
  | ok ds =>
      simp only [Except.map, mapValue, Except.bind,
        readMembers_closed _ (nextMember_closing false rest)]
      exact finish_ofTexts kind.name text attributes (some ds) rest

mutual
/-- A written tree is read as its draft if the levels suffice for its height. -/
theorem nodeReader_written : (n : Node) → (levels : Nat) → (rest : List Char) →
    (nodeReader levels).read (n.written ++ rest) =
      if 2 * n.height ≤ levels + 1 then .ok (n.draft, rest) else .error .tooDeep
  | ⟨kind, text, attributes, children⟩, 0, rest => by
      have hopen := skipBlanks_of_not_blank (c := '{') rfl
      have hdeep : ¬ 2 * (1 + Node.heightList children) ≤ 0 + 1 := by omega
      simp [nodeReader, readNode, Node.written, Node.height, hopen, hdeep]
  | ⟨kind, text, attributes, []⟩, levels + 1, rest => by
      have hlevels : 2 ≤ levels + 1 + 1 := by omega
      simp only [nodeReader, readNode_written, Node.writtenChildren, List.nil_append,
        readMembers_closed _ (nextMember_closing false rest)]
      refine (finish_ofTexts kind.name text attributes none rest).trans ?_
      simp [Node.height, Node.heightList, Node.draft, Node.draftList, hlevels]
  | ⟨kind, text, attributes, n :: ns⟩, levels + 1, rest => by
      have hchildren := childrenReader_writtenCons (fun levels => nodeReader_written n levels _)
        (fun levels => elements_writtenRest ns levels ('}' :: rest)) levels
      have hheight : Node.height ⟨kind, text, attributes, n :: ns⟩ =
          1 + Node.heightList (n :: ns) := rfl
      by_cases h : 2 * Node.heightList (n :: ns) ≤ levels
      · rw [if_pos h] at hchildren
        rw [if_pos (by omega)]
        exact readNode_writtenCons (x := .ok _) hchildren kind text attributes
      · rw [if_neg h] at hchildren
        rw [if_neg (by omega)]
        exact readNode_writtenCons (x := .error _) hchildren kind text attributes

theorem elements_writtenRest : (ns : List Node) → (levels : Nat) → (rest : List Char) →
    elements (nodeReader levels) false (Node.writtenRest ns ++ ']' :: rest) =
      if 2 * Node.heightList ns ≤ levels + 1 then .ok (Node.draftList ns, rest) else .error .tooDeep
  | [], levels, rest => by
      simp [Node.writtenRest, Node.heightList, Node.draftList,
        elements_closed (nextElement_closing false rest)]
  | n :: ns, levels, rest => by
      have hn := nodeReader_written n levels (Node.writtenRest ns ++ ']' :: rest)
      have hns := elements_writtenRest ns levels rest
      simpa [Node.writtenRest, lead] using elements_writtenCons hn hns false
end

end Draft

end Treemark
