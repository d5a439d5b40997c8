import Treemark.Proofs.Draft.Traversal
import Treemark.Proofs.Node.Spelling

/-!
# The two ways to read a tree

A tree that is read as a part of something else is looked up before the end of the text is. That makes
a difference for one sort of text only: a complete root node with an unknown kind in front of more
characters.
-/

namespace Treemark

open Json

namespace Draft

/-- The names of kinds in a draft with the places of their nodes, parents before children and children in
order. -/
def visits (place : Place) (d : Draft) : List (Place × String) :=
  (d.rose.placed place).map fun e => (e.1, e.2.kind)

def visitsList (place : Place) (index : Nat) (ds : List Draft) : List (Place × String) :=
  (Rose.placedList place index (roseList ds)).map fun e => (e.1, e.2.kind)

theorem visits_mk (place : Place) (kind text attributes : String) (children : List Draft) :
    visits place ⟨kind, text, attributes, children⟩ = (place, kind) :: visitsList place 0 children := rfl

theorem visitsList_cons (place : Place) (index : Nat) (d : Draft) (ds : List Draft) :
    visitsList place index (d :: ds) = d.visits (place ++ [index]) ++ visitsList place (index + 1) ds := by
  rw [visitsList, roseList, Rose.placedList, List.map_append]
  rfl

/-- The name is that of no kind, while all the names before it are names of kinds. -/
def FirstUnknown (d : Draft) (u : UnknownKind) : Prop :=
  ∃ before place name after, d.visits [] = before ++ (place, name) :: after ∧
    (∀ x ∈ before, ∃ k : Kind, k.Called x.2) ∧ (∀ k : Kind, ¬ k.Called name) ∧
    u = { name, place := some place }

/-! ## Looking up stops at the first unknown kind -/

def unknown? (x : Place × String) : Option UnknownKind :=
  match Kind.ofName? x.2 with
  | some _ => none
  | none => some { name := x.2, place := some x.1 }

theorem unknown?_eq_none_iff {x : Place × String} :
    unknown? x = none ↔ ∃ k : Kind, k.Called x.2 := by
  simp only [← Kind.ofName?_eq_some_iff]
  unfold unknown?
  cases Kind.ofName? x.2 <;> simp

theorem unknown?_eq_some_iff {x : Place × String} {u : UnknownKind} :
    unknown? x = some u ↔ (∀ k : Kind, ¬ k.Called x.2) ∧ u = { name := x.2, place := some x.1 } := by
  simp only [← Kind.ofName?_eq_some_iff]
  unfold unknown?
  cases Kind.ofName? x.2 <;> simp [eq_comm]

/-- The fault of a computation that fails. -/
def fault? {ε α : Type} : Except ε α → Option ε
  | .error e => some e
  | .ok _ => none

mutual
theorem findSome?_visits (place : Place) : (d : Draft) →
    (d.visits place).findSome? unknown? = fault? (d.resolveAt place)
  | ⟨kind, text, attributes, children⟩ => by
      have hchildren := findSome?_visitsList place 0 children
      simp only [visits_mk, resolveAt, List.findSome?_cons, unknown?]
      cases Kind.ofName? kind with
      | none => rfl
      | some k =>
          cases hlist : resolveListAt place 0 children <;> simpa [hlist, fault?] using hchildren

theorem findSome?_visitsList (place : Place) (index : Nat) : (ds : List Draft) →
    (visitsList place index ds).findSome? unknown? = fault? (resolveListAt place index ds)
  | [] => rfl
  | d :: ds => by
      have hhead := findSome?_visits (place ++ [index]) d
      have htail := findSome?_visitsList place (index + 1) ds
      simp only [visitsList_cons, resolveListAt, List.findSome?_append, hhead, htail]
      cases d.resolveAt (place ++ [index]) with
      | error u => rfl
      | ok n => cases resolveListAt place (index + 1) ds <;> rfl
end

theorem resolve_eq_error_iff {d : Draft} {u : UnknownKind} :
    d.resolve = .error u ↔ d.FirstUnknown u := by
  have hfault : d.resolve = .error u ↔ fault? (d.resolveAt []) = some u := by
    unfold resolve
    cases d.resolveAt [] <;> simp [fault?]
  rw [hfault, ← findSome?_visits, List.findSome?_eq_some_iff]
  constructor
  · rintro ⟨before, ⟨place, name⟩, after, hvisits, hu, hbefore⟩
    obtain ⟨hname, rfl⟩ := unknown?_eq_some_iff.mp hu
    exact ⟨before, place, name, after, hvisits,
      fun x hx => unknown?_eq_none_iff.mp (hbefore x hx), hname, rfl⟩
  · rintro ⟨before, place, name, after, hvisits, hbefore, hname, rfl⟩
    exact ⟨before, (place, name), after, hvisits, unknown?_eq_some_iff.mpr ⟨hname, rfl⟩,
      fun x hx => unknown?_eq_none_iff.mpr (hbefore x hx)⟩

theorem resolved_eq_error_iff {d : Draft} {u : UnknownKind} :
    d.resolved = .error (.unknownKind u) ↔ d.FirstUnknown u := by
  rw [← resolve_eq_error_iff, resolved]
  cases d.resolve <;> simp [Except.mapError]

theorem resolved_cases (d : Draft) :
    (∃ n, d.resolved = .ok n) ∨ ∃ u, d.resolved = .error (.unknownKind u) := by
  unfold resolved
  cases d.resolve with
  | error u => exact .inr ⟨u, rfl⟩
  | ok n => exact .inl ⟨n, rfl⟩

end Draft

namespace Node

/-- A complete root node stands at the front of the text and does not end it, and in the node is an
unknown kind, of which this is the first. -/
def UnknownInFront (text : String) (u : UnknownKind) : Prop :=
  ∃ d s r, Blanks text.toList s ∧ Draft.Spelled 127 s d r ∧ d.FirstUnknown u ∧ ¬ Blanks r []

theorem checkEnd_eq_error_iff {r : List Char} :
    checkEnd r = .error (.malformed .trailingCharacters) ↔ ¬ Blanks r [] := by
  rw [← checkEnd_eq_ok_iff]
  unfold checkEnd
  split <;> simp

theorem unknownInFront_iff {text : String} {u : UnknownKind} : UnknownInFront text u ↔
    ∃ d r, Draft.read text.toList = .ok (d, r) ∧ d.resolved = .error (.unknownKind u) ∧
      checkEnd r = .error (.malformed .trailingCharacters) := by
  simp only [Draft.read_eq_ok_iff, Draft.resolved_eq_error_iff, checkEnd_eq_error_iff]
  constructor
  · rintro ⟨d, s, r, hs, hd, hu, hr⟩
    exact ⟨d, r, ⟨s, hs, hd⟩, hu, hr⟩
  · rintro ⟨d, r, ⟨s, hs, hd⟩, hu, hr⟩
    exact ⟨d, s, r, hs, hd, hu, hr⟩

theorem checkEnd_cases (r : List Char) :
    checkEnd r = .ok () ∨ checkEnd r = .error (.malformed .trailingCharacters) := by
  rw [checkEnd_eq_error_iff, checkEnd_eq_ok_iff]
  exact Classical.em _

/-- Both ways end alike, unless what is left of the text would hide an unknown kind from one of them. -/
theorem decode_cases (text : String) :
    (decode text = parse text ∧ ∀ u, ¬ UnknownInFront text u) ∨
    ∃ u, UnknownInFront text u ∧ parse text = .error (.malformed .trailingCharacters) ∧
      decode text = .error (.unknownKind u) := by
  cases hread : Draft.read text.toList with
  | error fault =>
      refine .inl ⟨by simp only [decode, parse, hread], fun u hu => ?_⟩
      obtain ⟨d, r, hread', -⟩ := unknownInFront_iff.mp hu
      rw [hread] at hread'
      cases hread'
  | ok x =>
      obtain ⟨d, r⟩ := x
      have hfront {u : UnknownKind} (hu : UnknownInFront text u) :
          d.resolved = .error (.unknownKind u) ∧
            checkEnd r = .error (.malformed .trailingCharacters) := by
        obtain ⟨d', r', hread', hrest⟩ := unknownInFront_iff.mp hu
        rw [hread] at hread'
        cases hread'
        exact hrest
      rcases checkEnd_cases r with hend | hend
      · refine .inl ⟨?_, fun u hu => ?_⟩
        · simp only [decode, parse, hread, hend]
          cases d.resolved <;> rfl
        · have hend' := (hfront hu).2
          rw [hend] at hend'
          cases hend'
      · rcases d.resolved_cases with ⟨n, hn⟩ | ⟨u, hu⟩
        · refine .inl ⟨by simp only [decode, parse, hread, hend, hn], fun u hu => ?_⟩
          have hn' := (hfront hu).1
          rw [hn] at hn'
          cases hn'
        · refine .inr ⟨u, unknownInFront_iff.mpr ⟨d, r, hread, hu, hend⟩, ?_, ?_⟩
          · simp only [parse, hread, hend]
          · simp only [decode, hread, hu]

theorem UnknownInFront.unique {text : String} {u u' : UnknownKind} (h : UnknownInFront text u)
    (h' : UnknownInFront text u') : u = u' := by
  obtain ⟨d, r, hread, hu, -⟩ := unknownInFront_iff.mp h
  obtain ⟨d', r', hread', hu', -⟩ := unknownInFront_iff.mp h'
  rw [hread] at hread'
  cases hread'
  rw [hu] at hu'
  cases hu'
  rfl

/-- Both ways read the same trees and fail alike, except where a complete root node with an unknown kind
does not end the text: then the one way reports the characters behind the node, and the other the first
unknown kind in it. -/
theorem decode_agrees (text : String) :
    (∀ n, decode text = .ok n ↔ parse text = .ok n) ∧
    (∀ u, parse text = .error (.unknownKind u) → ∃ e, decode text = .error e ∧
      e.category = .data ∧ e.reason = "unknown node kind `" ++ u.name ++ "` at " ++ u.path) ∧
    ∀ fault, parse text = .error (.malformed fault) →
      (∀ u, UnknownInFront text u → fault = .trailingCharacters ∧ ∃ e, decode text = .error e ∧
        e.category = .data ∧ e.reason = "unknown node kind `" ++ u.name ++ "` at " ++ u.path) ∧
      ((¬ ∃ u, UnknownInFront text u) → ∃ e, decode text = .error e ∧
        e.category = fault.category ∧ e.reason = fault.message) := by
  rcases decode_cases text with ⟨heq, hnone⟩ | ⟨u, hu, hparse, hdecode⟩
  · rw [heq]
    refine ⟨fun n => .rfl, fun u hu => ⟨_, hu, rfl, rfl⟩, fun fault hfault => ⟨fun u hu => ?_, ?_⟩⟩
    · exact absurd hu (hnone u)
    · exact fun _ => ⟨_, hfault, rfl, rfl⟩
  · rw [hparse, hdecode]
    refine ⟨by simp, by simp, fun fault hfault => ⟨fun u' hu' => ?_, fun hnone => ?_⟩⟩
    · cases hfault
      cases hu.unique hu'
      exact ⟨rfl, _, rfl, rfl, rfl⟩
    · exact absurd ⟨u, hu⟩ hnone

example : parse "[\"x\"] 1" = .error (.malformed .trailingCharacters) ∧
    decode "[\"x\"] 1" = .error (.unknownKind { name := "x", place := some [] }) := by
  decide +kernel

end Node

end Treemark
