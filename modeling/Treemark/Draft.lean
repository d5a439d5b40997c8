import Treemark.Node

/-!
# Drafts of trees

A tree as its text gives it, where the kind of a node is a mere name. A draft becomes a tree when all
its kinds are known; otherwise the first unknown one, parents before children and children in order, is
reported with its place.
-/

namespace Treemark

structure Draft where
  kind : String
  text : String := ""
  attributes : String := ""
  children : List Draft := []
  deriving Inhabited, Repr

/-- The way from the root to a node: which child to take at each step. -/
abbrev Place := List Nat

def Place.path (p : Place) : String :=
  "root" ++ String.join (p.map fun i => ".children[" ++ toString i ++ "]")

/-- A name that stands for no kind; it has no place when it was looked up on its own. -/
structure UnknownKind where
  name : String
  place : Option Place := none
  deriving DecidableEq, Repr

def UnknownKind.path (u : UnknownKind) : String := (u.place.map Place.path).getD ""

def UnknownKind.message (u : UnknownKind) : String :=
  "unknown node kind `" ++ u.name ++ "` at " ++ u.path

def Kind.ofName (s : String) : Except UnknownKind Kind :=
  match ofName? s with
  | some k => .ok k
  | none => .error { name := s }

namespace Draft

mutual
def resolveAt (place : Place) : Draft → Except UnknownKind Node
  | ⟨kind, text, attributes, children⟩ =>
    match Kind.ofName? kind with
    | none => .error { name := kind, place := some place }
    | some k =>
      match resolveListAt place 0 children with
      | .error e => .error e
      | .ok ns => .ok { kind := k, text, attributes, children := ns }

/-- The trees of the children of a place, from the child of the given index on. -/
def resolveListAt (place : Place) (index : Nat) : List Draft → Except UnknownKind (List Node)
  | [] => .ok []
  | d :: ds =>
    match resolveAt (place ++ [index]) d with
    | .error e => .error e
    | .ok n =>
      match resolveListAt place (index + 1) ds with
      | .error e => .error e
      | .ok ns => .ok (n :: ns)
end

def resolve (d : Draft) : Except UnknownKind Node := d.resolveAt []

end Draft

end Treemark
