import Treemark.Proofs.Draft.Written
import Treemark.Proofs.Json.Streaming

/-!
# Drafts in texts that go on

A node ends with its own bracket, so a draft that was read is the same whatever follows it. Its members
may end with a number that is skipped, but then the text stops inside the brackets of the node.
-/

namespace Treemark

open Json Remainder

theorem Json.elements_streams {α : Type} {element : Reader α}
    (helement : ∀ t, Streams true fun x => element.read (t ++ x)) (first : Bool) (t : List Char) :
    Streams true fun x => elements element first (t ++ x) := by
  refine (nextElement_streams first t).andBehind ?_ ?_
  · intro x e h
    rw [elements]
    split <;> simp_all
  · intro next h
    cases next with
    | closed r => exact .reads ([], r) fun x => elements_closed (h x)
    | further r =>
        have hle : r.length ≤ t.length :=
          nextElement_further (eq_ok_of_extend (f := nextElement first) h)
        have hmore (x : List Char) : elements element first (t ++ x) = _ := elements_further (h x)
        simp only [hmore]
        refine (helement r).andBehind ?_ ?_
        · intro x e he
          rw [he]
          rfl
        · rintro ⟨v, u⟩ hv
          have hlt : u.length < r.length := element.shorter (eq_ok_of_extend (f := element.read) hv)
          simp only [hv, Except.bind, extend_pair]
          exact (Json.elements_streams helement false u).mapValue _
termination_by t.length

namespace Draft

/-! ## Members -/

theorem readString_streams (t : List Char) : Streams true fun x => readString (t ++ x) := by
  rcases skipBlanks_append_cases t with hnil | ⟨c, r, h⟩
  · exact .stops (by simp only [List.append_nil, readString, hnil]; rfl)
  · simp only [readString, h]
    apply Streams.ite
    · intro _
      refine (stringTail_streams r).andBehind ?_ ?_
      · intro x e he
        simp only [he]
      · rintro ⟨cs, u⟩ hu
        simp only [hu, extend_pair]
        exact .reads (String.ofList cs, u) fun x => rfl
    · exact fun _ => .fails fun x => ⟨_, rfl⟩

section

variable {children : Reader (List Draft)}

theorem readList_streams {α : Type} {element : Option (Reader α)}
    (helement : ∀ e ∈ element, ∀ t, Streams true fun x => e.read (t ++ x)) (t : List Char) :
    Streams true fun x => readList element (t ++ x) := by
  rcases skipBlanks_append_cases t with hnil | ⟨c, r, h⟩
  · exact .stops (by simp only [List.append_nil, readList, hnil]; rfl)
  · simp only [readList, h]
    apply Streams.ite
    · intro _
      cases element with
      | none => exact .fault _
      | some element => exact elements_streams (helement element rfl) true r
    · exact fun _ => .fails fun x => ⟨_, rfl⟩

theorem readField_streams (hchildren : ∀ t, Streams true fun x => children.read (t ++ x))
    (m : Members) (f : Field) (t : List Char) :
    Streams true fun x => readField children m f (t ++ x) := by
  cases f with
  | kind => exact (readString_streams t).mapValue _
  | text => exact (readString_streams t).mapValue _
  | attributes => exact (readString_streams t).mapValue _
  | children => exact (hchildren t).mapValue _

/-- A number that is skipped may be the end of a member, and nothing says where it ends. -/
theorem readMember_streams (hchildren : ∀ t, Streams true fun x => children.read (t ++ x))
    (m : Members) (t : List Char) : Streams false fun x => readMember children m (t ++ x) := by
  refine (stringTail_streams t).andBehind ?_ ?_
  · intro x e h
    simp only [readMember, h]
  · rintro ⟨name, r⟩ h
    simp only [readMember, h, extend_pair]
    cases Field.ofName? (String.ofList name) with
    | some f =>
        apply Streams.ite
        · exact fun _ => .fault _
        intro _
        refine (skipColon_streams r).andBehind ?_ ?_
        · intro x e he
          simp only [he]
        · intro u hu
          simp only [hu]
          exact (readField_streams hchildren m f u).opened false
    | none =>
        refine (skipColon_streams r).andBehind ?_ ?_
        · intro x e he
          simp only [he]
        · intro u hu
          simp only [hu]
          refine (skipValue_streams u).andThen ?_ ?_ ?_
          · intro x e he
            simp only [extend_list, he]
          · intro v hv
            simp only [extend_list, hv]
            exact .reads (m, v) fun x => rfl
          · intro x v _ hv hnil
            simp only [extend_list, hv]
            exact ⟨rfl, hnil⟩

theorem readMembers_streams (hchildren : ∀ t, Streams true fun x => children.read (t ++ x))
    (m : Members) (first : Bool) (t : List Char) :
    Streams true fun x => readMembers children m first (t ++ x) := by
  refine (nextMember_streams first t).andBehind ?_ ?_
  · intro x e h
    rw [readMembers]
    split <;> simp_all
  · intro next h
    cases next with
    | closed r => exact .reads (m, r) fun x => readMembers_closed children (h x)
    | further r =>
        have hle : r.length < t.length :=
          nextMember_further (eq_ok_of_extend (f := nextMember first) h)
        have hmore (x : List Char) : readMembers children m first (t ++ x) = _ :=
          readMembers_further children (h x)
        simp only [hmore]
        refine (readMember_streams hchildren m r).andThen ?_ ?_ ?_
        · intro x e he
          simp only [he, Except.bind]
        · rintro ⟨m', u⟩ hu
          have hlt : u.length < r.length :=
            readMember_shorter (eq_ok_of_extend (f := readMember children m) hu)
          simp only [hu, Except.bind, extend_pair]
          exact readMembers_streams hchildren m' false u
        · rintro x ⟨m', u⟩ _ hu hnil
          subst hnil
          simp only [hu, Except.bind]
          rw [readMembers]
          rfl
termination_by t.length

theorem readPositions_streams (hchildren : ∀ t, Streams true fun x => children.read (t ++ x))
    (m : Members) (first : Bool) (fs : List Field) (t : List Char) :
    Streams true fun x => readPositions children m first fs (t ++ x) := by
  induction fs generalizing m first t with
  | nil =>
      refine (endElements_streams t).andBehind ?_ ?_
      · intro x e h
        simp only [readPositions, h, Except.map]
      · intro r h
        simp only [readPositions, h, Except.map]
        exact .reads (m, r) fun x => rfl
  | cons f fs ih =>
      refine (nextElement_streams first t).andBehind ?_ ?_
      · intro x e h
        simp only [readPositions, h]
      · intro next h
        cases next with
        | closed r =>
            simp only [readPositions, h, extend_closed]
            exact .reads (m, r) fun x => rfl
        | further r =>
            simp only [readPositions, h, extend_further]
            refine (readField_streams hchildren m f r).andBehind ?_ ?_
            · intro x e he
              simp only [he]
            · rintro ⟨m', u⟩ hu
              simp only [hu, extend_pair]
              exact ih m' false u

/-! ## Nodes -/

theorem streams_finish {read : List Char → Reading Members} (h : Streams true read)
    (missing : Fault) : Streams true fun x => finish missing (read x) := by
  refine h.andBehind ?_ ?_
  · intro x e he
    simp only [Draft.finish, he]
  · rintro ⟨m, r⟩ hm
    simp only [Draft.finish, hm, extend_pair]
    cases m.draft? with
    | none => exact .fault _
    | some d => exact .reads (d, r) fun x => rfl

theorem readNode_streams {children : Option (Reader (List Draft))}
    (hchildren : ∀ c ∈ children, ∀ t, Streams true fun x => c.read (t ++ x)) (t : List Char) :
    Streams true fun x => readNode children (t ++ x) := by
  rcases skipBlanks_append_cases t with hnil | ⟨c, r, h⟩
  · exact .stops (by simp only [List.append_nil, readNode, hnil]; rfl)
  · simp only [readNode, h]
    apply Streams.ite
    · intro _
      cases children with
      | none => exact .fault _
      | some children =>
          apply Streams.ite
          · intro _
            exact streams_finish (readPositions_streams (hchildren children rfl) _ _ _ r) _
          · intro _
            exact streams_finish (readMembers_streams (hchildren children rfl) _ _ r) _
    · exact fun _ => .fails fun x => ⟨_, rfl⟩

end

mutual
theorem nodeReader_streams : (levels : Nat) → (t : List Char) →
    Streams true fun x => (nodeReader levels).read (t ++ x)
  | 0, t => by
      simp only [nodeReader]
      exact readNode_streams (by simp) t
  | levels + 1, t => by
      simp only [nodeReader]
      refine readNode_streams ?_ t
      rintro c ⟨⟩
      exact childrenReader_streams levels

theorem childrenReader_streams : (levels : Nat) → (t : List Char) →
    Streams true fun x => (childrenReader levels).read (t ++ x)
  | 0, t => by
      simp only [childrenReader]
      exact readList_streams (by simp) t
  | levels + 1, t => by
      simp only [childrenReader]
      refine readList_streams ?_ t
      rintro c ⟨⟩
      exact nodeReader_streams levels
end

/-- A draft is the same whatever follows it. -/
theorem read_append {t r : List Char} {d : Draft} (h : read t = .ok (d, r)) (s : List Char) :
    read (t ++ s) = .ok (d, r ++ s) := by
  have hnil : read (t ++ []) = .ok (d, r) := by rwa [List.append_nil]
  cases nodeReader_streams maxLevels t with
  | reads v hv =>
      cases (eq_ok_of_extend (f := read) hv).symm.trans h
      exact hv s
  | fails hfails =>
      obtain ⟨e, he⟩ := hfails []
      cases he.symm.trans hnil
  | stops hstops =>
      rw [show (nodeReader maxLevels).read (t ++ []) = .ok (d, r) from hnil] at hstops
      cases hstops.1
  | breaks hbreaks => cases hbreaks.symm.trans hnil

/-- A fault stays one whatever follows, unless the text ended too early: with the fault itself, or where
a number lacks a digit. -/
theorem read_append_of_error {t : List Char} {fault : Fault} (h : read t = .error fault)
    (hcategory : fault.category ≠ .endOfText) :
    (∀ s, ∃ fault', read (t ++ s) = .error fault') ∨
    fault = .invalidNumber ∧
      ∃ fault', read (t ++ ['0']) = .error fault' ∧ fault'.category = .endOfText := by
  have hnil : read (t ++ []) = .error fault := by rwa [List.append_nil]
  cases nodeReader_streams maxLevels t with
  | reads v hv => cases (hv []).symm.trans hnil
  | fails hfails => exact .inl hfails
  | stops hstops =>
      rw [show (nodeReader maxLevels).read (t ++ []) = .error fault from hnil] at hstops
      exact absurd hstops hcategory
  | breaks hbreaks hdigit =>
      cases hbreaks.symm.trans hnil
      cases hread : read (t ++ ['0']) with
      | error fault' =>
          rw [show (nodeReader maxLevels).read (t ++ ['0']) = .error fault' from hread] at hdigit
          exact .inr ⟨rfl, fault', rfl, hdigit⟩
      | ok v =>
          rw [show (nodeReader maxLevels).read (t ++ ['0']) = .ok v from hread] at hdigit
          cases hdigit.1

end Draft

end Treemark
