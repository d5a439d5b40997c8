import Treemark.Kind

/-!
# Document trees

A node carries a text, attributes and an ordered list of children, which it owns.
-/

namespace Treemark

structure Node where
  kind : Kind
  text : String := ""
  attributes : String := ""
  children : List Node := []
  deriving Repr

namespace Node

mutual
def decEq : (m n : Node) → Decidable (m = n)
  | ⟨k, t, a, cs⟩, ⟨k', t', a', cs'⟩ =>
    have := decEqList cs cs'
    decidable_of_decidable_of_iff (p := (k = k' ∧ t = t' ∧ a = a' ∧ cs = cs')) (by simp)

def decEqList : (ms ns : List Node) → Decidable (ms = ns)
  | [], [] => isTrue rfl
  | [], _ :: _ => isFalse nofun
  | _ :: _, [] => isFalse nofun
  | m :: ms, n :: ns =>
    have := decEq m n
    have := decEqList ms ns
    decidable_of_decidable_of_iff (p := (m = n ∧ ms = ns)) (by simp)
end

instance : DecidableEq Node := decEq

/-- A plain string without any text is the node that stands for nothing in particular. -/
instance : Inhabited Node := ⟨{ kind := .plain }⟩

def ofText (text : String) : Node := { kind := .plain, text := text }

def attach (n child : Node) (times : Nat := 1) : Node :=
  { n with children := n.children ++ List.replicate times child }

/-- Wraps a node into `times` new ones of one kind and text, each the only child of the next. -/
def nest (kind : Kind) (text : String) : (times : Nat) → Node → Node
  | 0, n => n
  | times + 1, n => nest kind text times { kind, text, children := [n] }

def firstChild? (n : Node) : Option Node := n.children.head?

def isRow (n : Node) : Bool := n.kind == .row

def isCell (n : Node) : Bool := n.kind == .cell

mutual
def count : Node → Nat
  | ⟨_, _, _, children⟩ => 1 + countList children

def countList : List Node → Nat
  | [] => 0
  | n :: ns => count n + countList ns
end

end Node

end Treemark
