import Treemark.Json.Skip

/-!
# Elements in brackets

Which separator stands before the next element of a list or the next member of an object, and the lists
whose elements all have the same reader.
-/

namespace Treemark.Json

def mapValue {α β : Type} (f : α → β) : Reading α → Reading β
  | .error e => .error e
  | .ok (v, rest) => .ok (f v, rest)

theorem mapValue_shorter {α β : Type} {f : α → β} {x : Reading α} {s r : List Char} {w : β}
    (hx : ∀ {v r}, x = .ok (v, r) → r.length < s.length) (h : mapValue f x = .ok (w, r)) :
    r.length < s.length := by
  unfold mapValue at h
  split at h
  · cases h
  · simp only [Except.ok.injEq, Prod.mk.injEq] at h
    exact h.2 ▸ hx rfl

/-- A way to read values that never succeeds without moving forward. -/
structure Reader (α : Type) where
  read : List Char → Reading α
  shorter : ∀ {s r : List Char} {v : α}, read s = .ok (v, r) → r.length < s.length

/-- Whether an open bracket is closed here or goes on; the text that follows the bracket or the
separator comes with it. -/
inductive Next where
  | closed (rest : List Char)
  | further (rest : List Char)

/-- Decides behind an element of a list, or behind the opening bracket if it is the first, whether another
element follows. -/
def nextElement (first : Bool) (s : List Char) : Except Fault Next :=
  match skipBlanks s with
  | [] => .error (.endOfBracket .list)
  | c :: rest =>
    if c = ']' then .ok (.closed rest)
    else if first then .ok (.further (c :: rest))
    else if c = ',' then
      match skipBlanks rest with
      | [] => .error .endOfValue
      | d :: rest => if d = ']' then .error .trailingComma else .ok (.further (d :: rest))
    else .error (.separatorExpected .list)

def startName (c : Char) (rest : List Char) : Except Fault Next :=
  if c = '"' then .ok (.further rest) else .error .keyExpected

/-- Decides behind a member of an object, or behind the opening bracket if it is the first, whether
another member follows; the text goes on behind the quote that opens its name. -/
def nextMember (first : Bool) (s : List Char) : Except Fault Next :=
  match skipBlanks s with
  | [] => .error (.endOfBracket .object)
  | c :: rest =>
    if c = '}' then .ok (.closed rest)
    else if first then startName c rest
    else if c = ',' then
      match skipBlanks rest with
      | [] => .error .endOfValue
      | d :: rest => if d = '}' then .error .trailingComma else startName d rest
    else .error (.separatorExpected .object)

def endElements (s : List Char) : Except Fault (List Char) :=
  match skipBlanks s with
  | [] => .error (.endOfBracket .list)
  | c :: rest =>
    if c = ']' then .ok rest
    else if c = ',' ∧ (skipBlanks rest).head? = some ']' then .error .trailingComma
    else .error .trailingCharacters

theorem nextElement_closed {first : Bool} {s r : List Char} (h : nextElement first s = .ok (.closed r)) :
    r.length < s.length := by
  unfold nextElement at h
  split at h
  · cases h
  · rename_i hs
    have := skipBlanks_cons hs
    grind

theorem nextElement_further {first : Bool} {s r : List Char}
    (h : nextElement first s = .ok (.further r)) : r.length ≤ s.length := by
  unfold nextElement at h
  split at h
  · cases h
  · rename_i hs
    have := skipBlanks_cons hs
    have := @skipBlanks_cons
    grind

theorem nextMember_closed {first : Bool} {s r : List Char} (h : nextMember first s = .ok (.closed r)) :
    r.length < s.length := by
  unfold nextMember startName at h
  split at h
  · cases h
  · rename_i hs
    have := skipBlanks_cons hs
    grind

theorem nextMember_further {first : Bool} {s r : List Char}
    (h : nextMember first s = .ok (.further r)) : r.length < s.length := by
  unfold nextMember startName at h
  split at h
  · cases h
  · rename_i hs
    have := skipBlanks_cons hs
    have := @skipBlanks_cons
    grind

theorem endElements_shorter {s r : List Char} (h : endElements s = .ok r) : r.length < s.length := by
  unfold endElements at h
  split at h
  · cases h
  · rename_i hs
    have := skipBlanks_cons hs
    grind

/-- The elements of a list, from behind its opening bracket or one of its elements to behind its closing
bracket. -/
def elements {α : Type} (element : Reader α) (first : Bool) (s : List Char) : Reading (List α) :=
  match hs : nextElement first s with
  | .error e => .error e
  | .ok (.closed rest) => .ok ([], rest)
  | .ok (.further rest) =>
    match hv : element.read rest with
    | .error e => .error e
    | .ok (v, rest) =>
      have := nextElement_further hs
      have := element.shorter hv
      match elements element false rest with
      | .error e => .error e
      | .ok (vs, rest) => .ok (v :: vs, rest)
termination_by s.length

theorem elements_shorter {α : Type} {element : Reader α} {first : Bool} {s r : List Char} {vs : List α}
    (h : elements element first s = .ok (vs, r)) : r.length < s.length := by
  fun_induction elements element first s generalizing vs r with
  | case1 => cases h
  | case2 _ s rest hs =>
    simp only [Except.ok.injEq, Prod.mk.injEq] at h
    exact h.2 ▸ nextElement_closed hs
  | case3 => cases h
  | case4 => cases h
  | case5 _ s rest hs v rest' hv hle hlt vs rest'' he ih =>
    simp only [Except.ok.injEq, Prod.mk.injEq] at h
    have := ih he
    simp only [← h.2]
    omega

end Treemark.Json
