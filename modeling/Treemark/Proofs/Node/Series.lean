import Treemark.Node.Written
import Treemark.Proofs.Draft.Written
import Treemark.Proofs.Json.Strings

/-!
# Series of written trees

A written tree shows where it ends, however deep it is, and has no control characters. Hence trees that are
written one behind the other can be told apart, with line feeds behind them or without.
-/

namespace Treemark

open Json

namespace Node

/-! ## Ends of written trees -/

theorem draft_injective {m n : Node} (h : m.draft = n.draft) : m = n := by
  have hm := resolveAt_draft [] m
  rw [h, resolveAt_draft [] n] at hm
  exact (Except.ok.inj hm).symm

/-- With enough levels a reader gets both trees back, from the same text. -/
theorem written_append_inj {m n : Node} {s t : List Char} (h : m.written ++ s = n.written ++ t) :
    m = n ∧ s = t := by
  let levels := 2 * max m.height n.height
  have hm := Draft.nodeReader_written m levels s
  have hn := Draft.nodeReader_written n levels t
  rw [if_pos (by omega)] at hm hn
  rw [h, hn, Except.ok.injEq, Prod.mk.injEq] at hm
  exact ⟨draft_injective hm.1.symm, hm.2.symm⟩

theorem toJson_prefix_iff {m n : Node} : m.toJson.toList <+: n.toJson.toList ↔ m = n := by
  constructor
  · rintro ⟨s, h⟩
    rw [toJson, toJson, String.toList_ofList, String.toList_ofList] at h
    exact (written_append_inj (t := []) (by rw [h, List.append_nil])).1
  · rintro rfl
    exact List.prefix_refl _

/-! ## Characters of written trees -/

end Node

/-- No character of the text is a control character below U+0020. -/
def Printable (s : List Char) : Prop := ∀ c ∈ s, 0x20 ≤ c.toNat

namespace Printable

variable {s t : List Char}

theorem nil : Printable [] := fun _ h => absurd h List.not_mem_nil

theorem cons {c : Char} (hc : 0x20 ≤ c.toNat) (hs : Printable s) : Printable (c :: s) :=
  List.forall_mem_cons.mpr ⟨hc, hs⟩

theorem append (hs : Printable s) (ht : Printable t) : Printable (s ++ t) :=
  List.forall_mem_append.mpr ⟨hs, ht⟩

theorem escapeChar (c : Char) : Printable (escapeChar c) := by
  have hletters : ∀ x ∈ letters, 0x20 ≤ x.1.toNat := by decide
  have hdigit : ∀ d < 16, 0x20 ≤ (Nat.digitChar d).toNat := by decide
  rcases escapeChar_cases c with ⟨letter, he, hletter⟩ | ⟨hc, he⟩ | ⟨-, -, hc, he⟩
  · rw [he]
    have hletter := hletters (letter, c) (letterEscape?_iff.mp hletter)
    exact .cons (by decide) (.cons hletter .nil)
  · rw [he]
    have hhigh := hdigit (c.toNat / 16) (by omega)
    have hlow := hdigit (c.toNat % 16) (by omega)
    exact .cons (by decide) (.cons (by decide) (.cons (by decide) (.cons (by decide)
      (.cons hhigh (.cons hlow .nil)))))
  · rw [he]
    exact .cons hc .nil

theorem quoted (s : String) : Printable (quoted s) := by
  refine .cons (by decide) (.append (fun d hd => ?_) (.cons (by decide) .nil))
  obtain ⟨c, -, hd⟩ := List.mem_flatMap.mp hd
  exact escapeChar c d hd

theorem writtenMember (name : String) {value : List Char} (h : Printable value) :
    Printable (writtenMember name value) :=
  .append (quoted name) (.cons (by decide) h)

theorem writtenText (name text : String) : Printable (writtenText name text) := by
  unfold Treemark.writtenText
  split
  · exact .nil
  · exact .cons (by decide) (.writtenMember name (quoted text))

end Printable

namespace Node

mutual
theorem printable_written : (n : Node) → Printable n.written
  | ⟨kind, text, attributes, children⟩ => by
      have hkind := Printable.writtenMember "kind" (.quoted kind.name)
      have htexts := (Printable.writtenText "text" text).append (.writtenText "attributes" attributes)
      have hclose : Printable ['}'] := .cons (by decide) .nil
      have h := hkind.append (htexts.append ((printable_writtenChildren children).append hclose))
      simpa [written] using h.cons (c := '{') (by decide)

theorem printable_writtenChildren : (ns : List Node) → Printable (writtenChildren ns)
  | [] => .nil
  | n :: ns => by
      have hclose : Printable [']'] := .cons (by decide) .nil
      have hlist := (printable_written n).append ((printable_writtenRest ns).append hclose)
      have h := Printable.writtenMember "children" (hlist.cons (c := '[') (by decide))
      simpa [writtenChildren] using h.cons (c := ',') (by decide)

theorem printable_writtenRest : (ns : List Node) → Printable (writtenRest ns)
  | [] => .nil
  | n :: ns => by
      have h := (printable_written n).append (printable_writtenRest ns)
      simpa [writtenRest] using h.cons (c := ',') (by decide)
end

/-! ## Trees one behind the other -/

/-- The texts of some trees, each with so many line feeds behind it. -/
def series (trees : List (Node × Nat)) : String :=
  String.join (trees.map fun e => e.1.toJson ++ String.ofList (List.replicate e.2 '\n'))

theorem series_cons_toList (e : Node × Nat) (trees : List (Node × Nat)) :
    (series (e :: trees)).toList =
      e.1.written ++ (List.replicate e.2 '\n' ++ (series trees).toList) := by
  simp [series, toJson, String.join_cons]

theorem head?_written (n : Node) : n.written.head? = some '{' := by
  cases n
  rfl

theorem head?_series_cons (e : Node × Nat) (trees : List (Node × Nat)) :
    (series (e :: trees)).toList.head? = some '{' := by
  rw [series_cons_toList, List.head?_append, head?_written, Option.some_or]

theorem head?_series_ne_newline (trees : List (Node × Nat)) :
    (series trees).toList.head? ≠ some '\n' := by
  cases trees with
  | nil => exact nofun
  | cons e trees =>
      rw [head?_series_cons]
      decide

theorem replicate_newline_append_inj {j k : Nat} {s t : List Char} (hs : s.head? ≠ some '\n')
    (ht : t.head? ≠ some '\n') (h : List.replicate j '\n' ++ s = List.replicate k '\n' ++ t) :
    j = k ∧ s = t := by
  induction j generalizing k with
  | zero =>
      cases k with
      | zero => exact ⟨rfl, by simpa using h⟩
      | succ k =>
          rw [List.replicate_zero, List.nil_append] at h
          exact absurd (congrArg List.head? h) hs
  | succ j ih =>
      cases k with
      | zero =>
          rw [List.replicate_zero, List.nil_append] at h
          exact absurd (congrArg List.head? h.symm) ht
      | succ k =>
          rw [List.replicate_succ, List.replicate_succ, List.cons_append, List.cons_append,
            List.cons.injEq] at h
          obtain ⟨hfeeds, hrest⟩ := ih h.2
          exact ⟨congrArg (· + 1) hfeeds, hrest⟩

theorem series_injective {trees trees' : List (Node × Nat)} (h : series trees = series trees') :
    trees = trees' := by
  rw [← String.toList_inj] at h
  induction trees generalizing trees' with
  | nil =>
      cases trees' with
      | nil => rfl
      | cons e' trees' => cases (congrArg List.head? h).trans (head?_series_cons e' trees')
  | cons e trees ih =>
      cases trees' with
      | nil => cases (congrArg List.head? h.symm).trans (head?_series_cons e trees)
      | cons e' trees' =>
          rw [series_cons_toList, series_cons_toList] at h
          obtain ⟨hn, hbehind⟩ := written_append_inj h
          obtain ⟨hfeeds, hrest⟩ := replicate_newline_append_inj (head?_series_ne_newline trees)
            (head?_series_ne_newline trees') hbehind
          rw [Prod.ext hn hfeeds, ih hrest]

/-- No written tree is the beginning of another one, none has a control character, and a text is made of
written trees with line feeds behind them in one way at most. All this holds of trees of any height. -/
theorem toJson_apart :
    (∀ m n : Node, m.toJson.toList <+: n.toJson.toList ↔ m = n) ∧
    (∀ n : Node, ∀ c ∈ n.toJson.toList, 0x20 ≤ c.toNat) ∧
    ∀ trees trees' : List (Node × Nat), series trees = series trees' ↔ trees = trees' := by
  refine ⟨fun m n => toJson_prefix_iff, fun n c hc => ?_, fun trees trees' => ⟨series_injective, ?_⟩⟩
  · rw [toJson, String.toList_ofList] at hc
    exact printable_written n c hc
  · exact congrArg series

/-- A tree that is too deep to be read, with a control character in its text. -/
theorem toJson_apart_deep :
    let deep : Node := ⟨.document, "\n", "", [nest .document "" 64 (ofText "")]⟩
    64 < deep.height ∧ '\\' ∈ deep.toJson.toList ∧ 0x20 ≤ '\\'.toNat ∧
      series [(deep, 2), (deep, 0)] ≠ series [(deep, 0), (deep, 2)] := by
  intro deep
  have hslash : '\\' ∈ deep.toJson.toList := by
    simp [deep, toJson, written, writtenText, writtenMember, quoted, escapeChar]
  refine ⟨by decide +kernel, hslash, toJson_apart.2.1 deep _ hslash, fun h => ?_⟩
  have htrees := (toJson_apart.2.2 _ _).mp h
  simp at htrees

end Node

end Treemark
