import Treemark.Proofs.Draft.Grammar
import Treemark.Proofs.Draft.Written
import Treemark.Proofs.Json.Separators

/-!
# Drafts are read as they are spelled

Each reader finds a value at the front of a text just where the grammar has it there behind blanks. This
goes from the readers of the parts to the reader of the whole, and at last through the levels.
-/

namespace Treemark

open Json

namespace Draft

/-- The reader finds just what is spelled behind blanks, and what is spelled starts with a character that
could not stand between values. -/
structure Reads {α : Type} (read : List Char → Reading α) (Text : List Char → α → List Char → Prop) :
    Prop where
  iff : ∀ {s : List Char} {v : α} {r : List Char},
    read s = .ok (v, r) ↔ ∃ t, Blanks s t ∧ Text t v r
  head : ∀ {s : List Char} {v : α} {r : List Char}, Text s v r → ∃ c t, s = c :: t ∧ opens c = true

theorem Reads.mapValue_iff {α β : Type} {read : List Char → Reading α}
    {Text : List Char → α → List Char → Prop} (hread : Reads read Text) {f : α → β} {w : β}
    {s r : List Char} :
    mapValue f (read s) = .ok (w, r) ↔ ∃ t v, Blanks s t ∧ Text t v r ∧ f v = w := by
  constructor
  · intro h
    unfold mapValue at h
    split at h
    · cases h
    · rename_i hv
      cases h
      obtain ⟨t, hs, hv⟩ := hread.iff.mp hv
      exact ⟨t, _, hs, hv, rfl⟩
  · rintro ⟨t, v, hs, hv, rfl⟩
    rw [hread.iff.mpr ⟨t, hs, hv⟩, mapValue]

/-! ## Strings and lists -/

theorem reads_string : Reads readString StringText where
  iff {s v r} := by
    constructor
    · intro h
      unfold readString at h
      split at h
      · cases h
      · rename_i hs
        split at h
        · subst_vars
          split at h
          · cases h
          · rename_i hstring
            cases h
            exact ⟨_, blanks_of_skipBlanks hs, .mk (stringTail_iff.mp hstring)⟩
        · cases h
    · rintro ⟨t, hs, ⟨hstring⟩⟩
      simp [readString, hs.skipBlanks_cons rfl, stringTail_iff.mpr hstring]
  head h := by
    cases h
    exact ⟨_, _, rfl, rfl⟩

section

variable {α : Type} {element : Reader α} {Item : List Char → α → List Char → Prop}

theorem elements_iff (hitem : Reads element.read Item) {first : Bool} {s r : List Char} {vs : List α} :
    elements element first s = .ok (vs, r) ↔ ItemsText Item first s vs r := by
  constructor
  · intro h
    fun_induction elements element first s generalizing vs r with
    | case1 => cases h
    | case2 first s rest hs => cases h; exact .close first (nextElement_closed_iff.mp hs)
    | case3 => cases h
    | case4 => cases h
    | case5 first s rest hs v rest' hv _ _ vs rest'' he ih =>
        cases h
        obtain ⟨t, ht, hv⟩ := hitem.iff.mp hv
        exact .more ((separated_of_nextElement hs).trans ht) hv (ih he)
  · intro h
    induction h with
    | close first hs => exact elements_closed (nextElement_closed_iff.mpr hs)
    | more hs hv _ ih =>
        obtain ⟨c, t, rfl, hc⟩ := hitem.head hv
        rw [elements_further (hs.nextElement_eq hc), hitem.iff.mpr ⟨_, .none _, hv⟩, Except.bind, ih]
        rfl

theorem reads_list (hitem : Reads element.read Item) :
    Reads (readList (some element)) (ListText Item) where
  iff {s v r} := by
    constructor
    · intro h
      unfold readList at h
      split at h
      · cases h
      · rename_i hs
        split at h
        · subst_vars
          exact ⟨_, blanks_of_skipBlanks hs, .mk ((elements_iff hitem).mp h)⟩
        · cases h
    · rintro ⟨t, hs, ⟨hitems⟩⟩
      simp [readList, hs.skipBlanks_cons rfl, (elements_iff hitem).mpr hitems]
  head h := by
    cases h
    exact ⟨_, _, rfl, rfl⟩

theorem readList_none {s r : List Char} {vs : List α} :
    readList (none : Option (Reader α)) s ≠ .ok (vs, r) := by
  intro h
  unfold readList at h
  split at h
  · cases h
  · split at h <;> cases h

end

/-! ## Members -/

theorem Members.merge_assoc (a b c : Members) : (a.merge b).merge c = a.merge (b.merge c) := by
  simp [merge, Option.or_assoc]

@[simp] theorem Members.empty_merge (m : Members) : ({} : Members).merge m = m := by
  simp [merge]

@[simp] theorem Members.merge_empty (m : Members) : m.merge {} = m := by
  simp [merge]

theorem Members.has_merge (m m' : Members) (f : Field) : (m.merge m').has f = (m.has f || m'.has f) := by
  cases f <;> simp [merge, has]

theorem Members.has_empty (f : Field) : ({} : Members).has f = false := by
  cases f <;> rfl

theorem Members.draft?_iff {m : Members} {d : Draft} : m.draft? = some d ↔ m.Describe d := by
  constructor
  · intro h
    obtain ⟨kind, text, attributes, children⟩ := m
    cases kind with
    | none => cases h
    | some kind => cases h; exact ⟨rfl, rfl, rfl, rfl⟩
  · intro h
    obtain ⟨kind, text, attributes, children⟩ := d
    rw [draft?, h.kind, h.text, h.attributes, h.children]
    rfl

theorem finish_iff {missing : Fault} {x : Reading Members} {d : Draft} {r : List Char} :
    finish missing x = .ok (d, r) ↔ ∃ m : Members, x = .ok (m, r) ∧ m.Describe d := by
  simp only [← Members.draft?_iff]
  constructor
  · intro h
    unfold finish at h
    split at h
    · cases h
    · split at h
      · cases h
      · rename_i hdraft
        cases h
        exact ⟨_, rfl, hdraft⟩
  · rintro ⟨m, rfl, hdraft⟩
    simp only [finish, hdraft]

theorem ofName?_eq_some_iff {f : Field} {name : List Char} :
    Field.ofName? (String.ofList name) = some f ↔ f.name.toList = name := by
  constructor
  · intro h
    have hname := List.find?_some h
    simp only [decide_eq_true_eq] at hname
    rw [hname, String.toList_ofList]
  · rintro rfl
    rw [String.ofList_toList, Field.ofName?_name]

theorem ofName?_eq_none_iff {name : List Char} :
    Field.ofName? (String.ofList name) = none ↔ ∀ f : Field, f.name.toList ≠ name := by
  simp only [ne_eq, ← ofName?_eq_some_iff, Option.eq_none_iff_forall_ne_some]

section

variable {children : Reader (List Draft)} {Children : List Char → List Draft → List Char → Prop}

theorem FieldText.has {f : Field} {s r : List Char} {g : Members} (h : FieldText Children f s g r)
    (f' : Field) : g.has f' = decide (f' = f) := by
  cases h <;> cases f' <;> rfl

theorem FieldText.head (hchildren : Reads children.read Children) {f : Field} {s r : List Char}
    {g : Members} (h : FieldText Children f s g r) : ∃ c t, s = c :: t ∧ opens c = true := by
  cases h with
  | kind hv => exact reads_string.head hv
  | text hv => exact reads_string.head hv
  | attributes hv => exact reads_string.head hv
  | children hv => exact hchildren.head hv

theorem readField_iff (hchildren : Reads children.read Children) {m m' : Members} {f : Field}
    {s r : List Char} : readField children m f s = .ok (m', r) ↔
      ∃ t g, Blanks s t ∧ FieldText Children f t g r ∧ g.merge m = m' := by
  constructor
  · intro h
    cases f with
    | kind =>
        obtain ⟨t, v, hs, hv, rfl⟩ := reads_string.mapValue_iff.mp h
        exact ⟨t, _, hs, .kind hv, by simp [Members.merge]⟩
    | text =>
        obtain ⟨t, v, hs, hv, rfl⟩ := reads_string.mapValue_iff.mp h
        exact ⟨t, _, hs, .text hv, by simp [Members.merge]⟩
    | attributes =>
        obtain ⟨t, v, hs, hv, rfl⟩ := reads_string.mapValue_iff.mp h
        exact ⟨t, _, hs, .attributes hv, by simp [Members.merge]⟩
    | children =>
        obtain ⟨t, v, hs, hv, rfl⟩ := hchildren.mapValue_iff.mp h
        exact ⟨t, _, hs, .children hv, by simp [Members.merge]⟩
  · rintro ⟨t, g, hs, hfield, rfl⟩
    cases hfield with
    | kind hv => exact reads_string.mapValue_iff.mpr ⟨t, _, hs, hv, by simp [Members.merge]⟩
    | text hv => exact reads_string.mapValue_iff.mpr ⟨t, _, hs, hv, by simp [Members.merge]⟩
    | attributes hv => exact reads_string.mapValue_iff.mpr ⟨t, _, hs, hv, by simp [Members.merge]⟩
    | children hv => exact hchildren.mapValue_iff.mpr ⟨t, _, hs, hv, by simp [Members.merge]⟩

/-- A member is one of a field that has no value yet, or one that means nothing. -/
theorem readMember_sound (hchildren : Reads children.read Children) {m m' : Members}
    {s r : List Char} (h : readMember children m s = .ok (m', r)) :
    (∃ f t g, NameText s f.name.toList t ∧ FieldText Children f t g r ∧ m.has f = false ∧
      m' = g.merge m) ∨
    (∃ name t, NameText s name t ∧ (∀ f : Field, f.name.toList ≠ name) ∧ Value t r ∧ m' = m) := by
  unfold readMember at h
  split at h
  · cases h
  · rename_i name u hname
    have hname := stringTail_iff.mp hname
    split at h
    · rename_i f hf
      split at h
      · cases h
      rename_i hhas
      split at h
      · cases h
      · rename_i hcolon
        obtain ⟨t, g, ht, hfield, rfl⟩ := (readField_iff hchildren).mp h
        rw [← ofName?_eq_some_iff.mp hf] at hname
        exact .inl ⟨f, t, g, .mk hname (skipColon_iff.mp hcolon) ht, hfield,
          eq_false_of_ne_true hhas, rfl⟩
    · rename_i hf
      split at h
      · cases h
      · rename_i hcolon
        split at h
        · cases h
        · rename_i hvalue
          cases h
          obtain ⟨t, ht, hvalue⟩ := value_of_skipValue hvalue
          exact .inr ⟨name, t, .mk hname (skipColon_iff.mp hcolon) ht, ofName?_eq_none_iff.mp hf,
            hvalue, rfl⟩

theorem NameText.readMember_field (hchildren : Reads children.read Children) {m g : Members}
    {f : Field} {s t r : List Char} (h : NameText s f.name.toList t)
    (hfield : FieldText Children f t g r) (hm : m.has f = false) :
    readMember children m s = .ok (g.merge m, r) := by
  obtain ⟨hname, hcolon, hblanks⟩ := h
  simp only [readMember, stringTail_iff.mpr hname, ofName?_eq_some_iff.mpr rfl, hm,
    skipColon_iff.mpr hcolon, Bool.false_eq_true, ↓reduceIte]
  exact (readField_iff hchildren).mpr ⟨t, g, hblanks, hfield, rfl⟩

theorem NameText.readMember_other {m : Members} {s t r name : List Char} (h : NameText s name t)
    (hother : ∀ f : Field, f.name.toList ≠ name) (hvalue : Value t r) (hr : Delimited r) :
    readMember children m s = .ok (m, r) := by
  obtain ⟨hname, hcolon, hblanks⟩ := h
  simp only [readMember, stringTail_iff.mpr hname, ofName?_eq_none_iff.mpr hother,
    skipColon_iff.mpr hcolon, hvalue.skipValue_eq hblanks hr]

theorem MembersText.delimited {s r : List Char} {m : Members}
    (h : MembersText Children false s m r) : Delimited s := by
  have hseparated {t : List Char} (hs : Separated false s t) : Delimited s := by
    cases hs with | next hs => exact .of_blanks hs rfl
  cases h with
  | close _ hs => exact .of_blanks hs rfl
  | field hs => exact hseparated hs
  | other hs => exact hseparated hs

/-- No field has a value on both sides. -/
def Members.Apart (m m' : Members) : Prop := ∀ f, m.has f = true → m'.has f = false

/-- It comes to the same whether the member read now counts to those before it or to those behind it. -/
theorem FieldText.apart_iff {f : Field} {s r : List Char} {g m m' : Members}
    (hg : FieldText Children f s g r) :
    m.Apart (m'.merge g) ∧ m'.has f = false ↔ m.has f = false ∧ (g.merge m).Apart m' := by
  simp only [Members.Apart, Members.has_merge, hg.has, Bool.or_eq_true, Bool.or_eq_false_iff,
    decide_eq_true_eq, decide_eq_false_iff_not]
  constructor
  · rintro ⟨hm, hf⟩
    refine ⟨eq_false_of_ne_true fun h => (hm f h).2 rfl, ?_⟩
    rintro f' (rfl | hf')
    · exact hf
    · exact (hm f' hf').1
  · rintro ⟨hf, hm⟩
    refine ⟨fun f' hf' => ⟨hm f' (.inr hf'), ?_⟩, hm f (.inl rfl)⟩
    rintro rfl
    simp [hf] at hf'

theorem readMembers_iff (hchildren : Reads children.read Children) {m m' : Members} {first : Bool}
    {s r : List Char} : readMembers children m first s = .ok (m', r) ↔
      ∃ g, MembersText Children first s g r ∧ m.Apart g ∧ g.merge m = m' := by
  constructor
  · intro h
    fun_induction readMembers children m first s with
    | case1 => cases h
    | case2 m first s rest hs =>
        cases h
        exact ⟨{}, .close first (nextMember_closed_iff.mp hs), fun f _ => Members.has_empty f,
          Members.empty_merge _⟩
    | case3 => cases h
    | case4 m first s rest hs m₁ rest' hmember _ _ ih =>
        -- the members that are left take no field of those read so far, nor the one read now
        obtain ⟨g, hrest, hapart, rfl⟩ := ih h
        have hs := nextMember_further_iff.mp hs
        rcases readMember_sound hchildren hmember with
          ⟨f, t, g₀, hname, hfield, hhas, rfl⟩ | ⟨name, t, hname, hother, hvalue, rfl⟩
        · obtain ⟨hapart, hf⟩ := hfield.apart_iff.mpr ⟨hhas, hapart⟩
          exact ⟨g.merge g₀, .field hs hname hfield hrest hf, hapart, Members.merge_assoc g g₀ m⟩
        · exact ⟨g, .other hs hname hother hvalue hrest, hapart, rfl⟩
  · rintro ⟨g, h, hapart, rfl⟩
    induction h generalizing m with
    | close first hs =>
        rw [readMembers_closed children (nextMember_closed_iff.mpr hs), Members.empty_merge]
    | field hs hname hfield _ hf ih =>
        obtain ⟨hhas, hapart⟩ := hfield.apart_iff.mp ⟨hapart, hf⟩
        rw [readMembers_further children (nextMember_further_iff.mpr hs),
          hname.readMember_field hchildren hfield hhas, Except.bind, ih hapart, Members.merge_assoc]
    | other hs hname hother hvalue hrest ih =>
        -- a skipped number ends where the grammar says, since a comma or a bracket comes next
        rw [readMembers_further children (nextMember_further_iff.mpr hs),
          hname.readMember_other hother hvalue hrest.delimited, Except.bind, ih hapart]

theorem readPositions_iff (hchildren : Reads children.read Children) {m m' : Members} {first : Bool}
    {fs : List Field} {s r : List Char} : readPositions children m first fs s = .ok (m', r) ↔
      ∃ g, PositionsText Children first fs s g r ∧ g.merge m = m' := by
  constructor
  · intro h
    fun_induction readPositions children m first fs s with
    | case1 m first s =>
        cases hend : endElements s with
        | error => simp [hend, Except.map] at h
        | ok rest =>
            simp only [hend, Except.map, Except.ok.injEq, Prod.mk.injEq] at h
            obtain ⟨rfl, rfl⟩ := h
            exact ⟨{}, .close first [] (endElements_iff.mp hend), m.empty_merge⟩
    | case2 => cases h
    | case3 m first f fs s rest hs =>
        cases h
        exact ⟨{}, .close first (f :: fs) (nextElement_closed_iff.mp hs), Members.empty_merge _⟩
    | case4 => cases h
    | case5 m first f fs s rest hs m₁ rest' hfield ih =>
        obtain ⟨t, g₀, ht, hvalue, rfl⟩ := (readField_iff hchildren).mp hfield
        obtain ⟨g, hrest, rfl⟩ := ih h
        exact ⟨g.merge g₀, .field ((separated_of_nextElement hs).trans ht) hvalue hrest,
          Members.merge_assoc g g₀ m⟩
  · rintro ⟨g, h, rfl⟩
    induction h generalizing m with
    | close first fs hs =>
        cases fs with
        | nil => simp [readPositions, endElements_iff.mpr hs, Except.map]
        | cons => simp [readPositions, nextElement_closed_iff.mpr hs]
    | field hs hfield _ ih =>
        obtain ⟨c, t, rfl, hc⟩ := hfield.head hchildren
        have hread := (readField_iff hchildren (m := m)).mpr ⟨_, _, .none _, hfield, rfl⟩
        simp only [readPositions, hs.nextElement_eq hc, hread, ih, Members.merge_assoc]

/-! ## Nodes -/

theorem reads_node (hchildren : Reads children.read Children) :
    Reads (readNode (some children)) (NodeText Children) where
  iff {s d r} := by
    constructor
    · intro h
      unfold readNode at h
      split at h
      · cases h
      · rename_i c s' hs
        have hs := blanks_of_skipBlanks hs
        split at h
        · rename_i hbracket
          simp only at h
          split at h
          · subst_vars
            obtain ⟨m, hm, hd⟩ := finish_iff.mp h
            obtain ⟨g, hpositions, rfl⟩ := (readPositions_iff hchildren).mp hm
            rw [Members.merge_empty] at hd
            exact ⟨_, hs, .list hpositions hd⟩
          · rename_i hlist
            obtain rfl := hbracket.resolve_left hlist
            obtain ⟨m, hm, hd⟩ := finish_iff.mp h
            obtain ⟨g, hmembers, -, rfl⟩ := (readMembers_iff hchildren).mp hm
            rw [Members.merge_empty] at hd
            exact ⟨_, hs, .object hmembers hd⟩
        · cases h
    · rintro ⟨t, hs, hnode⟩
      cases hnode with
      | object hmembers hd =>
          have hread := (readMembers_iff hchildren).mpr
            ⟨_, hmembers, fun f hf => absurd hf (by simp [Members.has_empty]), Members.merge_empty _⟩
          simp [readNode, hs.skipBlanks_cons rfl, hread, finish_iff.mpr ⟨_, rfl, hd⟩]
      | list hpositions hd =>
          have hread : readPositions children {} true Field.all _ = .ok (_, r) :=
            (readPositions_iff hchildren).mpr ⟨_, hpositions, Members.merge_empty _⟩
          simp [readNode, hs.skipBlanks_cons rfl, hread, finish_iff.mpr ⟨_, rfl, hd⟩]
  head h := by
    cases h <;> exact ⟨_, _, rfl, rfl⟩

theorem readNode_none {s r : List Char} {d : Draft} : readNode none s ≠ .ok (d, r) := by
  intro h
  unfold readNode at h
  split at h
  · cases h
  · split at h <;> cases h

end

mutual
theorem reads_spelled : (levels : Nat) → Reads (nodeReader levels).read (Spelled levels)
  | 0 => ⟨by simp [nodeReader, Spelled, readNode_none], by simp [Spelled]⟩
  | levels + 1 => reads_node (reads_spelledList levels)

theorem reads_spelledList : (levels : Nat) →
    Reads (childrenReader levels).read (SpelledList levels)
  | 0 => ⟨by simp [childrenReader, SpelledList, readList_none], by simp [SpelledList]⟩
  | levels + 1 => reads_list (reads_spelled levels)
end

/-- The draft at the front of a text is the one spelled there. -/
theorem read_eq_ok_iff {s r : List Char} {d : Draft} :
    read s = .ok (d, r) ↔ ∃ t, Blanks s t ∧ Spelled 127 t d r :=
  (reads_spelled maxLevels).iff

end Draft

end Treemark
