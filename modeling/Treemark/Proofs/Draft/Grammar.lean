import Treemark.Draft.Reader
import Treemark.Proofs.Json.Grammar

/-!
# The grammar of drafts

A node is spelled as an object or as a list, and the number of brackets of nodes and of lists of children
that may still be opened goes down with each of them. Blanks stand in front of the things of the grammar,
and do not belong to them.
-/

namespace Treemark.Draft

open Json

/-- A string with its quotes. -/
inductive StringText : List Char → String → List Char → Prop where
  | mk {s cs r : List Char} : SpelledTail s cs r → StringText ('"' :: s) (String.ofList cs) r

/-! ## Lists -/

/-- The things in a list, from behind its opening bracket or behind one of them, with the closing
bracket. -/
inductive ItemsText {α : Type} (Item : List Char → α → List Char → Prop) :
    Bool → List Char → List α → List Char → Prop where
  | close (first : Bool) {s r : List Char} : Blanks s (']' :: r) → ItemsText Item first s [] r
  | more {first : Bool} {s t u r : List Char} {v : α} {vs : List α} : Separated first s t →
      Item t v u → ItemsText Item false u vs r → ItemsText Item first s (v :: vs) r

inductive ListText {α : Type} (Item : List Char → α → List Char → Prop) :
    List Char → List α → List Char → Prop where
  | mk {s r : List Char} {vs : List α} : ItemsText Item true s vs r → ListText Item ('[' :: s) vs r

/-! ## Members -/

/-- The members of both; where both have a value for a field, it is the one of the first. -/
def Members.merge (m m' : Members) : Members where
  kind := m.kind.or m'.kind
  text := m.text.or m'.text
  attributes := m.attributes.or m'.attributes
  children := m.children.or m'.children

/-- The members tell all about the node: its kind, and each other part that is not empty. -/
structure Members.Describe (m : Members) (d : Draft) : Prop where
  kind : m.kind = some d.kind
  text : m.text.getD "" = d.text
  attributes : m.attributes.getD "" = d.attributes
  children : m.children.getD [] = d.children

/-- The value of a field, as the only member. -/
inductive FieldText (Children : List Char → List Draft → List Char → Prop) :
    Field → List Char → Members → List Char → Prop where
  | kind {s r : List Char} {v : String} : StringText s v r →
      FieldText Children .kind s { kind := some v } r
  | text {s r : List Char} {v : String} : StringText s v r →
      FieldText Children .text s { text := some v } r
  | attributes {s r : List Char} {v : String} : StringText s v r →
      FieldText Children .attributes s { attributes := some v } r
  | children {s r : List Char} {ds : List Draft} : Children s ds r →
      FieldText Children .children s { children := some ds } r

/-- The name of a member, from behind its opening quote to where the value starts. -/
inductive NameText : List Char → List Char → List Char → Prop where
  | mk {s t u r name : List Char} : SpelledTail s name t → Blanks t (':' :: u) → Blanks u r →
      NameText s name r

/-- The members of an object, from behind its opening bracket or behind one of them, with the closing
bracket. No field comes twice; a name that is not that of a field may, with any value. -/
inductive MembersText (Children : List Char → List Draft → List Char → Prop) :
    Bool → List Char → Members → List Char → Prop where
  | close (first : Bool) {s r : List Char} : Blanks s ('}' :: r) →
      MembersText Children first s {} r
  | field {first : Bool} {s t u v r : List Char} {f : Field} {g m : Members} :
      Separated first s ('"' :: t) → NameText t f.name.toList u → FieldText Children f u g v →
      MembersText Children false v m r → m.has f = false →
      MembersText Children first s (m.merge g) r
  | other {first : Bool} {s t u v r name : List Char} {m : Members} :
      Separated first s ('"' :: t) → NameText t name u → (∀ f : Field, f.name.toList ≠ name) →
      Value u v → MembersText Children false v m r → MembersText Children first s m r

/-- The values of a list that stand for the given fields by their position, or for the first of them. -/
inductive PositionsText (Children : List Char → List Draft → List Char → Prop) :
    Bool → List Field → List Char → Members → List Char → Prop where
  | close (first : Bool) (fs : List Field) {s r : List Char} : Blanks s (']' :: r) →
      PositionsText Children first fs s {} r
  | field {first : Bool} {s t u r : List Char} {f : Field} {fs : List Field} {g m : Members} :
      Separated first s t → FieldText Children f t g u → PositionsText Children false fs u m r →
      PositionsText Children first (f :: fs) s (m.merge g) r

/-! ## Nodes -/

inductive NodeText (Children : List Char → List Draft → List Char → Prop) :
    List Char → Draft → List Char → Prop where
  | object {s r : List Char} {m : Members} {d : Draft} : MembersText Children true s m r →
      m.Describe d → NodeText Children ('{' :: s) d r
  | list {s r : List Char} {m : Members} {d : Draft} :
      PositionsText Children true [.kind, .text, .attributes, .children] s m r → m.Describe d →
      NodeText Children ('[' :: s) d r

mutual
/-- A node with at most so many brackets, its own included, open at once. -/
def Spelled : (levels : Nat) → List Char → Draft → List Char → Prop
  | 0 => fun _ _ _ => False
  | levels + 1 => NodeText (SpelledList levels)

/-- A list of nodes with at most so many brackets, its own included, open at once. -/
def SpelledList : (levels : Nat) → List Char → List Draft → List Char → Prop
  | 0 => fun _ _ _ => False
  | levels + 1 => ListText (Spelled levels)
end

end Treemark.Draft
