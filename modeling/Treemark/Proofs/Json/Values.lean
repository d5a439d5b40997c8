import Treemark.Proofs.Json.Numbers

/-!
# Values of any sort are passed over as they are spelled

The brackets that are open around a value lie on a stack; what the grammar asks of the text behind the
value is read off it.
-/

namespace Treemark.Json

/-! ## Words, names and values without brackets -/

theorem skipWord_iff {word s r : List Char} : skipWord word s = .ok r ↔ s = word ++ r := by
  fun_induction skipWord word s with
  | case1 s => simp
  | case2 => simp
  | case3 word c s ih => simpa using ih
  | case4 c word d s hne => simp [Ne.symm hne]

theorem scalar_of_skipScalar {c : Char} {s r : List Char} (h : skipScalar c s = .ok r) :
    Scalar (c :: s) r := by
  unfold skipScalar at h
  split at h
  · subst c
    rw [skipWord_iff.mp h]
    exact .nullWord r
  split at h
  · subst c
    rw [skipWord_iff.mp h]
    exact .trueWord r
  split at h
  · subst c
    rw [skipWord_iff.mp h]
    exact .falseWord r
  split at h
  · subst c
    exact .string (skipString_iff.mp h)
  split at h
  · subst c
    exact .negative (unsigned_of_skipNumeral h)
  split at h
  · exact .positive (unsigned_of_skipNumeral h)
  · cases h

theorem Unsigned.head {s r : List Char} (h : Unsigned s r) : ∃ d t, s = d :: t ∧ d.isDigit = true := by
  obtain ⟨hwhole, -, -⟩ := h
  cases hwhole with
  | zero => exact ⟨_, _, rfl, rfl⟩
  | digits hdigits => exact hdigits.head

theorem ne_of_isDigit {c d : Char} (hd : d.isDigit = true) (hc : c.isDigit = false) : d ≠ c := by
  rintro rfl
  exact absurd hd (by simp [hc])

/-- A value without brackets is found by its first character. -/
theorem Scalar.skipScalar_eq {s r : List Char} (h : Scalar s r) (hr : Delimited r) :
    ∃ c t, s = c :: t ∧ skipScalar c t = .ok r := by
  cases h with
  | nullWord => exact ⟨_, _, rfl, skipWord_iff.mpr rfl⟩
  | trueWord => exact ⟨_, _, rfl, skipWord_iff.mpr rfl⟩
  | falseWord => exact ⟨_, _, rfl, skipWord_iff.mpr rfl⟩
  | string hstring => exact ⟨_, _, rfl, skipString_iff.mpr hstring⟩
  | positive hnumeral =>
      obtain ⟨d, t, rfl, hd⟩ := hnumeral.head
      exact ⟨d, t, rfl, by simp [skipScalar, ne_of_isDigit hd, hd, hnumeral.skipNumeral_eq hr]⟩
  | negative hnumeral => exact ⟨_, _, rfl, hnumeral.skipNumeral_eq hr⟩

/-- The first character of a value is none that could stand between values. -/
def opens (c : Char) : Bool :=
  !isBlank c && c ≠ ',' && c ≠ ':' && c ≠ ']' && c ≠ '}'

theorem Scalar.head {s r : List Char} (h : Scalar s r) :
    ∃ c t, s = c :: t ∧ opens c = true ∧ c ≠ '[' ∧ c ≠ '{' := by
  cases h with
  | positive hnumeral =>
      obtain ⟨d, t, rfl, hd⟩ := hnumeral.head
      exact ⟨d, t, rfl, by simp [opens, isBlank, ne_of_isDigit hd]⟩
  | _ => exact ⟨_, _, rfl, by decide, by decide, by decide⟩

theorem Value.head {s r : List Char} (h : Value s r) : ∃ c t, s = c :: t ∧ opens c = true := by
  cases h with
  | scalar hscalar =>
      obtain ⟨c, t, hs, hc, -⟩ := hscalar.head
      exact ⟨c, t, hs, hc⟩
  | bracket b => cases b <;> exact ⟨_, _, rfl, by decide⟩

theorem skipColon_iff {s r : List Char} : skipColon s = .ok r ↔ Blanks s (':' :: r) := by
  constructor
  · intro h
    unfold skipColon at h
    split at h
    · cases h
    · rename_i hs
      split at h
      · subst_vars
        cases h
        exact blanks_of_skipBlanks hs
      · cases h
  · intro h
    simp [skipColon, h.skipBlanks_cons rfl]

theorem skipName_iff {s r : List Char} : skipName s = .ok r ↔
    ∃ t u, Blanks s ('"' :: t) ∧ LooseTail t u ∧ Blanks u (':' :: r) := by
  constructor
  · intro h
    unfold skipName at h
    split at h
    · cases h
    · rename_i hs
      split at h
      · cases h
      · rename_i hquote
        split at h
        · cases h
        · rename_i hstring
          rw [Decidable.not_not.mp hquote] at hs
          exact ⟨_, _, blanks_of_skipBlanks hs, skipString_iff.mp hstring, skipColon_iff.mp h⟩
  · rintro ⟨t, u, hs, hstring, hcolon⟩
    simp [skipName, hs.skipBlanks_cons rfl, skipString_iff.mpr hstring, skipColon_iff.mpr hcolon]

/-! ## From the machine to the grammar -/

/-- What the open brackets demand of the text behind a value inside them. -/
def Closes : List Bracket → List Char → List Char → Prop
  | [], s, r => s = r
  | b :: outer, s, r => ∃ t, Inside b false s t ∧ Closes outer t r

/-- A value behind blanks, and after it what the open brackets demand. -/
def Goes (outer : List Bracket) (s r : List Char) : Prop :=
  ∃ t u, Blanks s t ∧ Value t u ∧ Closes outer u r

/-- What is demanded of the text behind one step: nothing once no bracket is open, and otherwise that
another value stands there. -/
def Follows : List Bracket → List Char → List Char → Prop
  | [], s, r => s = r
  | b :: outer, s, r => Goes (b :: outer) s r

theorem element_of_skipLead {b : Bracket} {s t u r : List Char} (h : skipLead b s = .ok t)
    (ht : Blanks t u) (hu : Value u r) : ∃ v, Blanks s v ∧ Element b v r := by
  cases b with
  | list => cases h; exact ⟨u, ht, .item hu⟩
  | object =>
      obtain ⟨v, w, hs, hstring, hcolon⟩ := skipName_iff.mp h
      exact ⟨_, hs, .member hstring hcolon ht hu⟩

theorem closes_of_closeBrackets {outer inner : List Bracket} {s t r : List Char}
    (h : closeBrackets outer s = .ok (inner, t)) (ht : Follows inner t r) : Closes outer s r := by
  fun_induction closeBrackets outer s with
  | case1 s => cases h; exact ht
  | case2 => cases h
  | case3 => cases h
  | case4 b outer s rest u hlead hs =>
      cases h
      obtain ⟨v, w, hu, hv, x, hinside, houter⟩ := ht
      obtain ⟨y, hrest, helement⟩ := element_of_skipLead hlead hu hv
      exact ⟨x, .more (.next (blanks_of_skipBlanks hs) hrest) helement hinside, houter⟩
  | case5 b outer s rest hs hcomma ih =>
      exact ⟨rest, .close b false (blanks_of_skipBlanks hs), ih h⟩
  | case6 => cases h

theorem inside_of_openBracket {b : Bracket} {outer inner : List Bracket} {s t r : List Char}
    (h : openBracket b outer s = .ok (inner, t)) (ht : Follows inner t r) :
    ∃ u, Inside b true s u ∧ Closes outer u r := by
  unfold openBracket at h
  split at h
  · cases h
  · rename_i rest hs
    split at h
    · subst_vars
      exact ⟨rest, .close b true (blanks_of_skipBlanks hs), closes_of_closeBrackets h ht⟩
    · split at h
      · cases h
      · rename_i hlead
        cases h
        obtain ⟨v, w, hu, hv, x, hinside, houter⟩ := ht
        obtain ⟨y, hs, helement⟩ := element_of_skipLead hlead hu hv
        exact ⟨x, .more (.first hs) helement hinside, houter⟩

theorem goes_of_skipStep {outer inner : List Bracket} {s t r : List Char}
    (h : skipStep outer s = .ok (inner, t)) (ht : Follows inner t r) : Goes outer s r := by
  unfold skipStep at h
  split at h
  · cases h
  · rename_i hs
    have hs := blanks_of_skipBlanks hs
    split at h
    · subst_vars
      obtain ⟨u, hinside, houter⟩ := inside_of_openBracket h ht
      exact ⟨_, u, hs, .bracket .list hinside, houter⟩
    split at h
    · subst_vars
      obtain ⟨u, hinside, houter⟩ := inside_of_openBracket h ht
      exact ⟨_, u, hs, .bracket .object hinside, houter⟩
    split at h
    · cases h
    · rename_i hscalar
      exact ⟨_, _, hs, .scalar (scalar_of_skipScalar hscalar), closes_of_closeBrackets h ht⟩

theorem goes_of_skipWithin {outer : List Bracket} {s r : List Char} (h : skipWithin outer s = .ok r) :
    Goes outer s r := by
  fun_induction skipWithin outer s with
  | case1 => cases h
  | case2 outer s rest hstep => cases h; exact goes_of_skipStep hstep rfl
  | case3 outer s b inner rest hstep _ ih => exact goes_of_skipStep hstep (ih h)

/-! ## From the grammar to the machine -/

/-- Goes on from the state after a step. -/
def proceed : Except Fault (List Bracket × List Char) → Except Fault (List Char)
  | .error e => .error e
  | .ok ([], s) => .ok s
  | .ok (b :: inner, s) => skipWithin (b :: inner) s

theorem skipWithin_eq (outer : List Bracket) (s : List Char) :
    skipWithin outer s = proceed (skipStep outer s) := by
  rw [skipWithin]
  split <;> simp_all [proceed]

/-- Goes on behind a value. -/
def resume (outer : List Bracket) (s : List Char) : Except Fault (List Char) :=
  proceed (closeBrackets outer s)

/-- Goes on from behind an opening bracket, or from behind an element in it. -/
def enter (b : Bracket) (outer : List Bracket) (first : Bool) (s : List Char) :
    Except Fault (List Char) :=
  if first then proceed (openBracket b outer s) else resume (b :: outer) s

theorem Inside.delimited {b : Bracket} {s r : List Char} (h : Inside b false s r) : Delimited s := by
  cases h with
  | close _ _ hs => exact .of_blanks hs (by cases b <;> rfl)
  | more hs => cases hs with | next hs => exact .of_blanks hs rfl

theorem skipBlanks_opens {s t : List Char} {c : Char} (h : Blanks s (c :: t)) (hc : opens c = true) :
    skipBlanks s = c :: t :=
  h.skipBlanks_cons (by simp_all [opens])

theorem Element.head {b : Bracket} {s r : List Char} (h : Element b s r) :
    ∃ c t, s = c :: t ∧ opens c = true := by
  cases h with
  | item hvalue => exact hvalue.head
  | member => exact ⟨_, _, rfl, rfl⟩

theorem isBlank_closing (b : Bracket) : isBlank b.closing = false := by
  cases b <;> rfl

theorem opens_closing (b : Bracket) : opens b.closing = false := by
  cases b <;> rfl

theorem closing_ne_comma (b : Bracket) : b.closing ≠ ',' := by
  cases b <;> decide

mutual
theorem Value.skipWithin_eq {s r : List Char} (h : Value s r) (hr : Delimited r)
    (outer : List Bracket) {u : List Char} (hu : Blanks u s) : skipWithin outer u = resume outer r := by
  match h with
  | .scalar hscalar =>
      obtain ⟨c, t, rfl, hc, hlist, hobject⟩ := hscalar.head
      obtain ⟨_, _, hct, hskip⟩ := hscalar.skipScalar_eq hr
      cases hct
      rw [Json.skipWithin_eq, skipStep, skipBlanks_opens hu hc]
      simp only [hlist, hobject, hskip, ↓reduceIte, resume]
  | .bracket b hinside =>
      have hopen : proceed (openBracket b outer _) = resume outer r := hinside.entered outer
      rw [Json.skipWithin_eq, ← hopen]
      cases b with
      | list =>
          have hu : skipBlanks u = '[' :: _ := hu.skipBlanks_cons rfl
          simp only [skipStep, hu, ↓reduceIte]
      | object =>
          have hu : skipBlanks u = '{' :: _ := hu.skipBlanks_cons rfl
          simp only [skipStep, hu, ↓reduceIte, Char.reduceEq]

theorem Inside.entered {b : Bracket} {first : Bool} {s r : List Char} (h : Inside b first s r)
    (outer : List Bracket) : enter b outer first s = resume outer r := by
  match h with
  | .close _ first hs =>
      have hs := hs.skipBlanks_cons (isBlank_closing b)
      cases first with
      | true => simp only [enter, openBracket, hs, ↓reduceIte, resume]
      | false => simp [enter, resume, closeBrackets, hs, closing_ne_comma b]
  | @Inside.more _ _ _ v _ _ hs helement hinside =>
      -- taken before the text is split at its first character, which hides that they are subderivations
      have hskipped {u : List Char} (hu : Blanks u v) := helement.skipped hinside.delimited hu
      have hentered : resume (b :: outer) _ = resume outer r := hinside.entered outer
      obtain ⟨c, w, rfl, hc⟩ := helement.head
      cases hs with
      | first hs =>
          have hclosing : c ≠ b.closing := by
            rintro rfl
            exact absurd hc (by simp [opens_closing b])
          obtain ⟨t, hlead, hskip⟩ := hskipped hs
          have hopen : openBracket b outer s = .ok (b :: outer, t) := by
            simp only [openBracket, skipBlanks_opens hs hc, hclosing, hlead, ↓reduceIte]
          rw [enter, if_pos rfl, hopen, proceed, hskip, hentered]
      | next hs ht =>
          obtain ⟨t, hlead, hskip⟩ := hskipped ht
          have hclose : closeBrackets (b :: outer) s = .ok (b :: outer, t) := by
            simp only [closeBrackets, hs.skipBlanks_cons rfl, hlead, ↓reduceIte]
          rw [enter, if_neg Bool.false_ne_true, resume, hclose, proceed, hskip, hentered]

theorem Element.skipped {b : Bracket} {s r u : List Char} (h : Element b s r) (hr : Delimited r)
    (hu : Blanks u s) :
    ∃ t, skipLead b u = .ok t ∧ ∀ outer, skipWithin (b :: outer) t = resume (b :: outer) r := by
  match h with
  | .item hvalue => exact ⟨u, rfl, fun outer => hvalue.skipWithin_eq hr _ hu⟩
  | .member hstring hcolon hblanks hvalue =>
      exact ⟨_, skipName_iff.mpr ⟨_, _, hu, hstring, hcolon⟩,
        fun outer => hvalue.skipWithin_eq hr _ hblanks⟩
end

theorem value_of_skipValue {s r : List Char} (h : skipValue s = .ok r) :
    ∃ t, Blanks s t ∧ Value t r := by
  obtain ⟨t, u, hs, hvalue, rfl⟩ := goes_of_skipWithin h
  exact ⟨t, hs, hvalue⟩

theorem Value.skipValue_eq {s t r : List Char} (h : Value t r) (hs : Blanks s t) (hr : Delimited r) :
    skipValue s = .ok r :=
  h.skipWithin_eq hr [] hs

end Treemark.Json
