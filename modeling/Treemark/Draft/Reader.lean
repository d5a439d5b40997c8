import Treemark.Draft
import Treemark.Json.Sequence

/-!
# Reading drafts

A node is written as an object with the members `kind`, `text`, `attributes` and `children`, of which
only the first is needed, or as a list of one to four of these values in this order. At most 127 brackets
of nodes and lists of children are open at once.
-/

namespace Treemark

open Json

namespace Draft

/-! ## Values of one type -/

/-- The fault of a value that starts with the given character and is not of the wanted type. Words,
numbers and strings are read to their end first. -/
def misfit (wanted : Wanted) (c : Char) (s : List Char) : Fault :=
  let word (w : List Char) (found : Found) : Fault :=
    match skipWord w s with
    | .error e => e
    | .ok _ => .wrongType found wanted
  let number (r : Except Fault Found) : Fault :=
    match r with
    | .error e => e
    | .ok found => .wrongType found wanted
  if c = 'n' then word ['u', 'l', 'l'] .null
  else if c = 't' then word ['r', 'u', 'e'] (.boolean true)
  else if c = 'f' then word ['a', 'l', 's', 'e'] (.boolean false)
  else if c = '-' then number (numeral true s)
  else if c.isDigit then number (numeral false (c :: s))
  else if c = '"' then
    match stringTail s with
    | .error e => e
    | .ok (cs, _) => .wrongType (.string (String.ofList cs)) wanted
  else if c = '[' then .wrongType .sequence wanted
  else if c = '{' then .wrongType .map wanted
  else .valueExpected

def readString (s : List Char) : Reading String :=
  match skipBlanks s with
  | [] => .error .endOfValue
  | c :: s =>
    if c = '"' then
      match stringTail s with
      | .error e => .error e
      | .ok (cs, rest) => .ok (String.ofList cs, rest)
    else .error (misfit .string c s)

/-- Reads a list of values with one reader; there is none where no bracket may be opened any more. -/
def readList {α : Type} (element : Option (Reader α)) (s : List Char) : Reading (List α) :=
  match skipBlanks s with
  | [] => .error .endOfValue
  | c :: s =>
    if c = '[' then
      match element with
      | none => .error .tooDeep
      | some element => elements element true s
    else .error (misfit .sequence c s)

/-! ## Nodes -/

structure Members where
  kind : Option String := none
  text : Option String := none
  attributes : Option String := none
  children : Option (List Draft) := none

def Members.has (m : Members) : Field → Bool
  | .kind => m.kind.isSome
  | .text => m.text.isSome
  | .attributes => m.attributes.isSome
  | .children => m.children.isSome

/-- The node of all its members; only the kind has to be among them. -/
def Members.draft? (m : Members) : Option Draft :=
  m.kind.map fun kind =>
    { kind
      text := m.text.getD ""
      attributes := m.attributes.getD ""
      children := m.children.getD [] }

def readField (children : Reader (List Draft)) (m : Members) (f : Field) (s : List Char) :
    Reading Members :=
  match f with
  | .kind => mapValue (fun v => { m with kind := some v }) (readString s)
  | .text => mapValue (fun v => { m with text := some v }) (readString s)
  | .attributes => mapValue (fun v => { m with attributes := some v }) (readString s)
  | .children => mapValue (fun v => { m with children := some v }) (children.read s)

/-- Reads a member, from behind the quote that opens its name. A field may not come twice. -/
def readMember (children : Reader (List Draft)) (m : Members) (s : List Char) : Reading Members :=
  match stringTail s with
  | .error e => .error e
  | .ok (name, s) =>
    match Field.ofName? (String.ofList name) with
    | some f =>
      if m.has f then .error (.repeatedField f)
      else
        match skipColon s with
        | .error e => .error e
        | .ok s => readField children m f s
    | none =>
      match skipColon s with
      | .error e => .error e
      | .ok s =>
        match skipValue s with
        | .error e => .error e
        | .ok rest => .ok (m, rest)

theorem readString_shorter {s r : List Char} {v : String} (h : readString s = .ok (v, r)) :
    r.length < s.length := by
  unfold readString at h
  split at h
  · cases h
  · rename_i hs
    have := skipBlanks_cons hs
    split at h
    · split at h
      · cases h
      · rename_i ht
        have := stringTail_shorter ht
        simp only [Except.ok.injEq, Prod.mk.injEq] at h
        simp only [← h.2]
        omega
    · cases h

theorem readList_shorter {α : Type} {element : Option (Reader α)} {s r : List Char} {vs : List α}
    (h : readList element s = .ok (vs, r)) : r.length < s.length := by
  unfold readList at h
  split at h
  · cases h
  · rename_i hs
    have := skipBlanks_cons hs
    split at h
    · split at h
      · cases h
      · have := elements_shorter h
        omega
    · cases h

theorem readField_shorter {children : Reader (List Draft)} {m m' : Members} {f : Field}
    {s r : List Char} (h : readField children m f s = .ok (m', r)) : r.length < s.length := by
  cases f with
  | kind => exact mapValue_shorter readString_shorter h
  | text => exact mapValue_shorter readString_shorter h
  | attributes => exact mapValue_shorter readString_shorter h
  | children => exact mapValue_shorter children.shorter h

theorem readMember_shorter {children : Reader (List Draft)} {m m' : Members} {s r : List Char}
    (h : readMember children m s = .ok (m', r)) : r.length < s.length := by
  unfold readMember at h
  split at h
  · cases h
  · rename_i hn
    have := stringTail_shorter hn
    split at h
    · split at h
      · cases h
      · split at h
        · cases h
        · rename_i hc
          have := skipColon_length_le hc
          have := readField_shorter h
          omega
    · split at h
      · cases h
      · rename_i hc
        have := skipColon_length_le hc
        split at h
        · cases h
        · rename_i hv
          have := skipValue_shorter hv
          simp only [Except.ok.injEq, Prod.mk.injEq] at h
          simp only [← h.2]
          omega

/-- Reads the members of an object, from behind its opening bracket or one of its members to behind its
closing bracket. -/
def readMembers (children : Reader (List Draft)) (m : Members) (first : Bool) (s : List Char) :
    Reading Members :=
  match hs : nextMember first s with
  | .error e => .error e
  | .ok (.closed rest) => .ok (m, rest)
  | .ok (.further rest) =>
    match hm : readMember children m rest with
    | .error e => .error e
    | .ok (m, rest) =>
      have := nextMember_further hs
      have := readMember_shorter hm
      readMembers children m false rest
termination_by s.length

theorem readMembers_shorter {children : Reader (List Draft)} {m m' : Members} {first : Bool}
    {s r : List Char} (h : readMembers children m first s = .ok (m', r)) : r.length < s.length := by
  fun_induction readMembers children m first s with
  | case1 => cases h
  | case2 _ _ s rest hs =>
    simp only [Except.ok.injEq, Prod.mk.injEq] at h
    exact h.2 ▸ nextMember_closed hs
  | case3 => cases h
  | case4 _ _ s rest hs _ rest' hm hlt hlt' ih =>
    have := ih h
    omega

/-- Reads the values of a list that stand for fields by their position. -/
def readPositions (children : Reader (List Draft)) (m : Members) (first : Bool) :
    List Field → List Char → Reading Members
  | [], s => (endElements s).map fun rest => (m, rest)
  | f :: fs, s =>
    match nextElement first s with
    | .error e => .error e
    | .ok (.closed rest) => .ok (m, rest)
    | .ok (.further s) =>
      match readField children m f s with
      | .error e => .error e
      | .ok (m, s) => readPositions children m false fs s

theorem readPositions_shorter {children : Reader (List Draft)} {m m' : Members} {first : Bool}
    {fs : List Field} {s r : List Char} (h : readPositions children m first fs s = .ok (m', r)) :
    r.length < s.length := by
  fun_induction readPositions children m first fs s with
  | case1 m first s =>
    cases he : endElements s with
    | error e => simp [he, Except.map] at h
    | ok rest =>
      simp only [he, Except.map, Except.ok.injEq, Prod.mk.injEq] at h
      exact h.2 ▸ endElements_shorter he
  | case2 => cases h
  | case3 _ _ _ _ s rest hs =>
    simp only [Except.ok.injEq, Prod.mk.injEq] at h
    exact h.2 ▸ nextElement_closed hs
  | case4 => cases h
  | case5 _ _ _ _ s rest hs _ rest' hf ih =>
    have := nextElement_further hs
    have := readField_shorter hf
    have := ih h
    omega

def finish (missing : Fault) (r : Reading Members) : Reading Draft :=
  match r with
  | .error e => .error e
  | .ok (m, rest) =>
    match m.draft? with
    | none => .error missing
    | some d => .ok (d, rest)

/-- Reads a node; without a reader for the children no bracket may be opened any more. -/
def readNode (children : Option (Reader (List Draft))) (s : List Char) : Reading Draft :=
  match skipBlanks s with
  | [] => .error .endOfValue
  | c :: s =>
    if c = '[' ∨ c = '{' then
      match children with
      | none => .error .tooDeep
      | some children =>
        if c = '[' then finish .emptyNode (readPositions children {} true Field.all s)
        else finish .missingKind (readMembers children {} true s)
    else .error (misfit .node c s)

theorem finish_shorter {missing : Fault} {x : Reading Members} {s r : List Char} {d : Draft}
    (hx : ∀ {m r}, x = .ok (m, r) → r.length < s.length) (h : finish missing x = .ok (d, r)) :
    r.length < s.length := by
  unfold finish at h
  split at h
  · cases h
  · split at h
    · cases h
    · simp only [Except.ok.injEq, Prod.mk.injEq] at h
      exact h.2 ▸ hx rfl

theorem readNode_shorter {children : Option (Reader (List Draft))} {s r : List Char} {d : Draft}
    (h : readNode children s = .ok (d, r)) : r.length < s.length := by
  unfold readNode at h
  split at h
  · cases h
  · rename_i hs
    refine Nat.lt_trans ?_ (skipBlanks_cons hs)
    split at h
    · split at h
      · cases h
      · split at h
        · exact finish_shorter readPositions_shorter h
        · exact finish_shorter readMembers_shorter h
    · cases h

/-! ## Levels -/

mutual
def nodeReader : (levels : Nat) → Reader Draft
  | 0 => ⟨readNode none, readNode_shorter⟩
  | levels + 1 => ⟨readNode (some (childrenReader levels)), readNode_shorter⟩

def childrenReader : (levels : Nat) → Reader (List Draft)
  | 0 => ⟨readList (none : Option (Reader Draft)), readList_shorter⟩
  | levels + 1 => ⟨readList (some (nodeReader levels)), readList_shorter⟩
end

def maxLevels : Nat := 127

def read (s : List Char) : Reading Draft := (nodeReader maxLevels).read s

end Draft

end Treemark
