import Treemark.Json.Sequence
import Treemark.Proofs.Json.Values

/-!
# Texts that go on

A text is read in one pass from its front. What a reader finds there is the same when the text goes on,
and where it fails it fails again, unless the text just ended too early. Two things stand out, and both
are about numbers: a number ends only where something else follows, and one that is skipped is at fault
when its last digit is missing at the end of the text.
-/

namespace Treemark.Json

/-- A result that holds the rest of the text behind what was read. -/
class Remainder (ρ : Type) where
  rest : ρ → List Char
  /-- The result for a text that goes on. -/
  extend : ρ → List Char → ρ
  extend_nil : ∀ v, extend v [] = v

open Remainder

instance : Remainder (List Char) := ⟨id, (· ++ ·), List.append_nil⟩

instance (α : Type) : Remainder (α × List Char) :=
  ⟨fun v => v.2, fun v x => (v.1, v.2 ++ x), fun v => by rw [List.append_nil]⟩

@[simp] theorem extend_list (s x : List Char) : extend s x = s ++ x := rfl

@[simp] theorem extend_pair {α : Type} (v : α) (s x : List Char) :
    extend (v, s) x = (v, s ++ x) := rfl

variable {ρ σ : Type} [Remainder ρ] [Remainder σ]

theorem eq_ok_of_extend {f : List Char → Except Fault ρ} {t : List Char} {v : ρ}
    (h : ∀ x, f (t ++ x) = .ok (extend v x)) : f t = .ok v := by
  have hnil := h []
  rwa [extend_nil, List.append_nil] at hnil

/-- The text ended too early, or right behind something that does not say itself where it ends. -/
def Stops (closed : Bool) : Except Fault ρ → Prop
  | .error e => e.category = .endOfText
  | .ok v => closed = false ∧ rest v = []

/-- What becomes of a reading whose text goes on with one text or another. Either it finds the same
whatever follows, or it fails whatever follows, or the text stopped where it ended first. A number that
lacks a digit is at fault, but with one digit more the text stops there. -/
inductive Streams (closed : Bool) (read : List Char → Except Fault ρ) : Prop where
  | reads (v : ρ) : (∀ x, read x = .ok (extend v x)) → Streams closed read
  | fails : (∀ x, ∃ e, read x = .error e) → Streams closed read
  | stops : Stops closed (read []) → Streams closed read
  | breaks : read [] = .error .invalidNumber → Stops closed (read ['0']) → Streams closed read

namespace Streams

variable {closed closed' : Bool}

theorem fault (e : Fault) : Streams closed fun _ => (.error e : Except Fault ρ) :=
  .fails fun _ => ⟨e, rfl⟩

/-- Reading on behind what was read. -/
theorem andThen {read : List Char → Except Fault ρ} {whole : List Char → Except Fault σ}
    (h : Streams closed read) (herror : ∀ x e, read x = .error e → whole x = .error e)
    (hok : ∀ v, (∀ x, read x = .ok (extend v x)) → Streams closed' whole)
    (hspent : ∀ x v, closed = false → read x = .ok v → rest v = [] → Stops closed' (whole x)) :
    Streams closed' whole := by
  have hstops : ∀ x, Stops closed (read x) → Stops closed' (whole x) := by
    intro x hx
    cases hread : read x with
    | error e =>
        rw [hread] at hx
        rw [herror x e hread]
        exact hx
    | ok v =>
        rw [hread] at hx
        exact hspent x v hx.1 hread hx.2
  cases h with
  | reads v hv => exact hok v hv
  | fails hfails =>
      refine .fails fun x => ?_
      obtain ⟨e, he⟩ := hfails x
      exact ⟨e, herror x e he⟩
  | stops hnil => exact .stops (hstops [] hnil)
  | breaks hnil hdigit => exact .breaks (herror _ _ hnil) (hstops _ hdigit)

/-- Reading on behind something that has an end of its own. -/
theorem andBehind {read : List Char → Except Fault ρ} {whole : List Char → Except Fault σ}
    (h : Streams true read) (herror : ∀ x e, read x = .error e → whole x = .error e)
    (hok : ∀ v, (∀ x, read x = .ok (extend v x)) → Streams closed whole) :
    Streams closed whole := by
  apply h.andThen herror hok
  intro x v hclosed
  cases hclosed

theorem ite {p : Prop} [Decidable p] {yes no : List Char → Except Fault ρ}
    (hyes : p → Streams closed yes) (hno : ¬ p → Streams closed no) :
    Streams closed fun x => if p then yes x else no x := by
  by_cases hp : p
  · simpa only [hp, ↓reduceIte] using hyes hp
  · simpa only [hp, ↓reduceIte] using hno hp

/-- What has an end of its own may stand where something else has none. -/
theorem opened {read : List Char → Except Fault ρ} (h : Streams true read) (closed : Bool) :
    Streams closed read := by
  have hstops : ∀ x, Stops true (read x) → Stops closed (read x) := by
    intro x hx
    cases hread : read x with
    | error e => rwa [hread] at hx
    | ok v => rw [hread] at hx; cases hx.1
  cases h with
  | reads v hv => exact .reads v hv
  | fails hfails => exact .fails hfails
  | stops hnil => exact .stops (hstops _ hnil)
  | breaks hnil hdigit => exact .breaks hnil (hstops _ hdigit)

end Streams

theorem skipBlanks_append_cases (t : List Char) :
    skipBlanks t = [] ∨ ∃ c r, ∀ x, skipBlanks (t ++ x) = c :: (r ++ x) := by
  cases h : skipBlanks t with
  | nil => exact .inl rfl
  | cons c r =>
      refine .inr ⟨c, r, fun x => ?_⟩
      rw [skipBlanks, List.dropWhile_append, show t.dropWhile isBlank = c :: r from h]
      rfl

/-! ## Numbers -/

/-- The digits in front of a text go over its end, or another character stands behind them. -/
theorem splitDigits_append_cases (t : List Char) :
    (∀ x, splitDigits (t ++ x) = (t ++ (splitDigits x).1, (splitDigits x).2)) ∨
    ∃ ds c r, c.isDigit = false ∧ ∀ x, splitDigits (t ++ x) = (ds, c :: (r ++ x)) := by
  induction t with
  | nil => exact .inl fun x => rfl
  | cons d t ih =>
      by_cases hd : d.isDigit = true
      · rcases ih with h | ⟨ds, c, r, hc, h⟩
        · exact .inl fun x => by rw [List.cons_append, splitDigits_cons hd, h]; rfl
        · exact .inr ⟨d :: ds, c, r, hc, fun x => by rw [List.cons_append, splitDigits_cons hd, h]⟩
      · refine .inr ⟨[], d, t, eq_false_of_ne_true hd, fun x => splitDigits_of_no_digit ?_⟩
        rintro c ⟨⟩
        exact eq_false_of_ne_true hd

theorem skipDigits_streams (t : List Char) : Streams false fun x => skipDigits (t ++ x) := by
  rcases splitDigits_append_cases t with h | ⟨ds, c, r, -, h⟩
  · cases t with
    | nil => exact .breaks rfl ⟨rfl, rfl⟩
    | cons d t => exact .stops (by simp only [skipDigits, h]; exact ⟨rfl, rfl⟩)
  · cases ds with
    | nil => exact .fails fun x => ⟨.invalidNumber, by simp only [skipDigits, h]⟩
    | cons d ds => exact .reads (c :: r) fun x => by simp only [skipDigits, h]; rfl

theorem splitSign_append (c : Char) (t x : List Char) :
    (splitSign (c :: (t ++ x))).2 = (splitSign (c :: t)).2 ++ x := by
  unfold splitSign
  split <;> simp_all

theorem skipExponent_streams (t : List Char) : Streams false fun x => skipExponent (t ++ x) := by
  have hsign (t : List Char) : Streams false fun x => skipDigits (splitSign (t ++ x)).2 := by
    cases t with
    | nil => exact .breaks rfl ⟨rfl, rfl⟩
    | cons c t => simpa only [List.cons_append, splitSign_append] using skipDigits_streams _
  cases t with
  | nil => exact .stops ⟨rfl, rfl⟩
  | cons c t =>
      by_cases he : c = 'e'
      · simpa only [he, List.cons_append, skipExponent] using hsign t
      by_cases hE : c = 'E'
      · simpa only [hE, List.cons_append, skipExponent] using hsign t
      · exact .reads (c :: t) fun x => by simp [skipExponent, he, hE, Remainder.extend]

theorem skipFraction_streams (t : List Char) : Streams false fun x => skipFraction (t ++ x) := by
  cases t with
  | nil => exact .stops ⟨rfl, rfl⟩
  | cons c t =>
      by_cases hc : c = '.'
      · subst hc
        refine (skipDigits_streams t).andThen ?_ ?_ ?_
        · intro x e h
          simp only [List.cons_append, skipFraction, h]
        · intro r h
          simp only [List.cons_append, skipFraction, h]
          exact skipExponent_streams r
        · intro x r _ h hr
          subst hr
          simp only [List.cons_append, skipFraction, h]
          exact ⟨rfl, rfl⟩
      · have hskip : ∀ s, skipFraction (c :: s) = skipExponent (c :: s) := fun s => by
          simp [skipFraction, hc]
        simpa only [List.cons_append, hskip] using skipExponent_streams (c :: t)

theorem skipNumeral_eq {s ds r : List Char} (h : splitDigits s = (ds, r)) (hds : ds ≠ [])
    (hzero : ∀ d ds', ds ≠ '0' :: d :: ds') : skipNumeral s = skipFraction r := by
  unfold skipNumeral
  rw [h]
  split
  · simp_all
  · rename_i heq
    exact absurd (congrArg Prod.fst heq) (hzero _ _)
  · simp_all

theorem skipNumeral_streams (t : List Char) : Streams false fun x => skipNumeral (t ++ x) := by
  rcases splitDigits_append_cases t with h | ⟨ds, c, r, -, h⟩
  · by_cases ht : t = []
    · subst ht
      exact .breaks rfl ⟨rfl, rfl⟩
    by_cases hzero : ∃ d ds, t = '0' :: d :: ds
    · obtain ⟨d, ds, rfl⟩ := hzero
      exact .fails fun x => ⟨.invalidNumber, by simp only [skipNumeral, h]; rfl⟩
    · have hsplit : splitDigits (t ++ []) = (t, []) := by simpa [splitDigits] using h []
      have hnumeral := skipNumeral_eq hsplit ht fun d ds hds => hzero ⟨d, ds, hds⟩
      exact .stops (by rw [hnumeral]; exact ⟨rfl, rfl⟩)
  · by_cases hds : ds = []
    · subst hds
      exact .fails fun x => ⟨.invalidNumber, by simp only [skipNumeral, h]⟩
    by_cases hzero : ∃ d ds', ds = '0' :: d :: ds'
    · obtain ⟨d, ds', rfl⟩ := hzero
      exact .fails fun x => ⟨.invalidNumber, by simp only [skipNumeral, h]⟩
    · have hnumeral (x : List Char) : skipNumeral (t ++ x) = skipFraction (c :: r ++ x) :=
        skipNumeral_eq (h x) hds fun d ds' h => hzero ⟨d, ds', h⟩
      simp only [hnumeral]
      exact skipFraction_streams (c :: r)

/-! ## Strings -/

theorem HexDigit.utf8Size_eq {c : Char} {v : Nat} (h : HexDigit c v) : c.utf8Size = 1 := by
  have hall : ∀ v < 16,
      (Nat.digitChar v).utf8Size = 1 ∧ (Nat.digitChar v).toUpper.utf8Size = 1 := by
    decide
  obtain ⟨hv, rfl | rfl⟩ := h
  · exact (hall v hv).1
  · exact (hall v hv).2

/-- Less than four bytes of digits are left where less than four digits are. -/
theorem HexUnit.byteCount_lt {t x r : List Char} {u : Nat} (h : HexUnit (t ++ x) u r)
    (ht : t.length < 4) : byteCount t < 4 := by
  generalize hs : t ++ x = s at h
  obtain ⟨r, ha, hb, hc, hd⟩ := h
  rcases t with _ | ⟨a, _ | ⟨b, _ | ⟨c, _ | ⟨d, t⟩⟩⟩⟩
  · decide
  · cases hs
    simp [byteCount, ha.utf8Size_eq]
  · cases hs
    simp [byteCount, ha.utf8Size_eq, hb.utf8Size_eq]
  · cases hs
    simp [byteCount, ha.utf8Size_eq, hb.utf8Size_eq, hc.utf8Size_eq]
  · simp only [List.length_cons] at ht
    omega

theorem hexUnit_streams (t : List Char) : Streams true fun x => hexUnit (t ++ x) := by
  by_cases ht : t.length < 4
  · by_cases hbytes : byteCount t < 4
    · have hnil : hexUnit t = .error .endOfString := by
        unfold hexUnit
        split
        · simp at ht
          omega
        · rw [if_neg (by omega)]
      exact .stops (by rw [List.append_nil, hnil]; rfl)
    · -- one of the few characters takes several bytes, so it is no digit
      refine .fails fun x => ?_
      cases h : hexUnit (t ++ x) with
      | error e => exact ⟨e, rfl⟩
      | ok v => exact absurd ((hexUnit_iff.mp h).byteCount_lt ht) hbytes
  · rcases t with _ | ⟨a, _ | ⟨b, _ | ⟨c, _ | ⟨d, t⟩⟩⟩⟩
    iterate 4 simp at ht
    simp only [List.cons_append, hexUnit]
    cases hexDigit? a with
    | none => exact .fault _
    | some a =>
        cases hexDigit? b with
        | none => exact .fault _
        | some b =>
            cases hexDigit? c with
            | none => exact .fault _
            | some c =>
                cases hexDigit? d with
                | none => exact .fault _
                | some d => exact .reads (_, t) fun x => rfl

theorem lowHalf_streams (high : Nat) (t : List Char) :
    Streams true fun x => lowHalf high (t ++ x) := by
  rcases t with _ | ⟨c, t⟩
  · exact .stops rfl
  by_cases hc : c = '\\'
  · subst hc
    rcases t with _ | ⟨d, t⟩
    · exact .stops rfl
    by_cases hd : d = 'u'
    · subst hd
      refine (hexUnit_streams t).andBehind ?_ ?_
      · intro x e h
        simp only [List.cons_append, lowHalf, h]
      · rintro ⟨low, r⟩ h
        simp only [List.cons_append, lowHalf, h, extend_pair]
        apply Streams.ite
        · exact fun _ => .reads (pairChar high low, r) fun x => by rw [extend_pair]
        · exact fun _ => .fault _
    · exact .fails fun x => ⟨.brokenPair, by simp [lowHalf, hd]⟩
  · exact .fails fun x => ⟨.brokenPair, by simp [lowHalf, hc]⟩

theorem hexEscape_streams (t : List Char) : Streams true fun x => hexEscape (t ++ x) := by
  refine (hexUnit_streams t).andBehind ?_ ?_
  · intro x e h
    simp only [hexEscape, h]
  · rintro ⟨u, r⟩ h
    simp only [hexEscape, h, extend_pair]
    apply Streams.ite
    · exact fun _ => .fault _
    · intro _
      apply Streams.ite
      · exact fun _ => lowHalf_streams u r
      · exact fun _ => .reads (_, r) fun x => rfl

theorem escape_streams (t : List Char) : Streams true fun x => escape (t ++ x) := by
  cases t with
  | nil => exact .stops rfl
  | cons c t =>
      simp only [List.cons_append, escape]
      cases letterEscape? c with
      | some d => exact .reads (d, t) fun x => rfl
      | none => exact .ite (fun _ => hexEscape_streams t) fun _ => .fault _

theorem skipEscape_streams (t : List Char) : Streams true fun x => skipEscape (t ++ x) := by
  cases t with
  | nil => exact .stops rfl
  | cons c t =>
      simp only [List.cons_append, skipEscape]
      cases letterEscape? c with
      | some d => exact .reads t fun x => rfl
      | none =>
          refine .ite (fun _ => ?_) fun _ => .fault _
          refine (hexUnit_streams t).andBehind ?_ ?_
          · intro x e h
            simp only [h]
          · rintro ⟨u, r⟩ h
            simp only [h]
            exact .reads r fun x => rfl

/-- With a character in front of what is read. -/
theorem Streams.mapValue {α β : Type} {read : List Char → Reading α} (h : Streams true read)
    (f : α → β) : Streams true fun x => mapValue f (read x) := by
  refine h.andBehind ?_ ?_
  · intro x e he
    simp only [Json.mapValue, he]
  · rintro ⟨v, r⟩ hv
    simp only [Json.mapValue, hv]
    exact .reads (f v, r) fun x => rfl

theorem stringTail_streams : (t : List Char) → Streams true fun x => stringTail (t ++ x)
  | [] => .stops (by simp [stringTail, Stops, Fault.category])
  | c :: t => by
      by_cases hquote : c = '"'
      · exact .reads ([], t) fun x => by simp [stringTail, hquote, Remainder.extend]
      by_cases hslash : c = '\\'
      · subst hslash
        refine (escape_streams t).andBehind ?_ ?_
        · intro x e h
          rw [List.cons_append, stringTail]
          simp only [Char.reduceEq, ↓reduceIte]
          split <;> simp_all
        · rintro ⟨d, r⟩ h
          have hrest (x : List Char) : stringTail ('\\' :: t ++ x) =
              Json.mapValue (d :: ·) (stringTail (r ++ x)) := stringTail_escape (h x)
          have hlt : r.length < t.length := escape_shorter (eq_ok_of_extend (f := escape) h)
          simp only [hrest]
          exact (stringTail_streams r).mapValue _
      by_cases hcontrol : c.toNat < 0x20
      · refine .fails fun x => ⟨.controlCharacter, ?_⟩
        rw [List.cons_append, stringTail]
        simp only [hquote, hslash, hcontrol, ↓reduceIte]
      · have hrest (x : List Char) :=
          stringTail_plain hquote hslash (Nat.le_of_not_lt hcontrol) (t ++ x)
        simp only [List.cons_append, hrest]
        exact (stringTail_streams t).mapValue _
termination_by t => t.length

theorem skipString_streams : (t : List Char) → Streams true fun x => skipString (t ++ x)
  | [] => .stops (by simp [skipString, Stops, Fault.category])
  | c :: t => by
      by_cases hquote : c = '"'
      · exact .reads t fun x => by simp [skipString, hquote]
      by_cases hslash : c = '\\'
      · subst hslash
        refine (skipEscape_streams t).andBehind ?_ ?_
        · intro x e h
          rw [List.cons_append, skipString]
          simp only [Char.reduceEq, ↓reduceIte]
          split <;> simp_all
        · intro r h
          have hrest (x : List Char) : skipString ('\\' :: t ++ x) = skipString (r ++ x) :=
            skipString_escape (h x)
          have hlt : r.length < t.length := skipEscape_shorter (eq_ok_of_extend (f := skipEscape) h)
          simp only [hrest]
          exact skipString_streams r
      by_cases hcontrol : c.toNat < 0x20
      · refine .fails fun x => ⟨.controlCharacter, ?_⟩
        rw [List.cons_append, skipString]
        simp only [hquote, hslash, hcontrol, ↓reduceIte]
      · have hrest (x : List Char) : skipString (c :: t ++ x) = skipString (t ++ x) := by
          rw [List.cons_append, skipString]
          simp only [hquote, hslash, hcontrol, ↓reduceIte]
        simp only [hrest]
        exact skipString_streams t
termination_by t => t.length

/-! ## Values that are skipped -/

theorem skipWord_streams (word t : List Char) : Streams true fun x => skipWord word (t ++ x) := by
  induction word generalizing t with
  | nil => exact .reads t fun x => rfl
  | cons c word ih =>
      cases t with
      | nil => exact .stops rfl
      | cons d t =>
          simp only [List.cons_append, skipWord]
          exact .ite (fun _ => ih t) fun _ => .fault _

theorem skipScalar_streams (c : Char) (t : List Char) :
    Streams false fun x => skipScalar c (t ++ x) := by
  have hnumeral : Streams false fun x => skipNumeral (c :: (t ++ x)) := skipNumeral_streams (c :: t)
  simp only [skipScalar]
  apply Streams.ite
  · exact fun _ => (skipWord_streams _ t).opened false
  intro _
  apply Streams.ite
  · exact fun _ => (skipWord_streams _ t).opened false
  intro _
  apply Streams.ite
  · exact fun _ => (skipWord_streams _ t).opened false
  intro _
  apply Streams.ite
  · exact fun _ => (skipString_streams t).opened false
  intro _
  apply Streams.ite
  · exact fun _ => skipNumeral_streams t
  intro _
  apply Streams.ite
  · exact fun _ => hnumeral
  · exact fun _ => .fault _

theorem skipColon_streams (t : List Char) : Streams true fun x => skipColon (t ++ x) := by
  rcases skipBlanks_append_cases t with hnil | ⟨c, r, h⟩
  · exact .stops (by simp only [List.append_nil, skipColon, hnil]; rfl)
  · simp only [skipColon, h]
    exact .ite (fun _ => .reads r fun x => rfl) fun _ => .fault _

theorem skipName_streams (t : List Char) : Streams true fun x => skipName (t ++ x) := by
  rcases skipBlanks_append_cases t with hnil | ⟨c, r, h⟩
  · exact .stops (by simp only [List.append_nil, skipName, hnil]; rfl)
  · simp only [skipName, h]
    apply Streams.ite
    · exact fun _ => .fault _
    intro _
    refine (skipString_streams r).andBehind ?_ ?_
    · intro x e he
      simp only [he]
    · intro u hu
      simp only [hu]
      exact skipColon_streams u

theorem skipLead_streams (b : Bracket) (t : List Char) :
    Streams true fun x => skipLead b (t ++ x) := by
  cases b with
  | list => exact .reads t fun x => rfl
  | object => exact skipName_streams t

theorem closeBrackets_streams (outer : List Bracket) (t : List Char) :
    Streams true fun x => closeBrackets outer (t ++ x) := by
  induction outer generalizing t with
  | nil => exact .reads ([], t) fun x => rfl
  | cons b outer ih =>
      rcases skipBlanks_append_cases t with hnil | ⟨c, r, h⟩
      · exact .stops (by simp only [List.append_nil, closeBrackets, hnil]; rfl)
      · simp only [closeBrackets, h]
        apply Streams.ite
        · intro _
          refine (skipLead_streams b r).andBehind ?_ ?_
          · intro x e he
            simp only [he]
          · intro u hu
            simp only [hu]
            exact .reads (b :: outer, u) fun x => rfl
        · intro _
          apply Streams.ite
          · exact fun _ => ih r
          · exact fun _ => .fault _

theorem openBracket_streams (b : Bracket) (outer : List Bracket) (t : List Char) :
    Streams true fun x => openBracket b outer (t ++ x) := by
  rcases skipBlanks_append_cases t with hnil | ⟨c, r, h⟩
  · exact .stops (by simp only [List.append_nil, openBracket, hnil]; rfl)
  · simp only [openBracket, h]
    apply Streams.ite
    · exact fun _ => closeBrackets_streams outer r
    intro _
    refine (skipLead_streams b t).andBehind ?_ ?_
    · intro x e he
      simp only [he]
    · intro u hu
      simp only [hu]
      exact .reads (b :: outer, u) fun x => rfl

theorem closeBrackets_nil (outer : List Bracket) : Stops false (closeBrackets outer []) := by
  cases outer with
  | nil => exact ⟨rfl, rfl⟩
  | cons b outer => rfl

theorem skipStep_streams (outer : List Bracket) (t : List Char) :
    Streams false fun x => skipStep outer (t ++ x) := by
  rcases skipBlanks_append_cases t with hnil | ⟨c, r, h⟩
  · exact .stops (by simp only [List.append_nil, skipStep, hnil]; rfl)
  · simp only [skipStep, h]
    apply Streams.ite
    · exact fun _ => (openBracket_streams .list outer r).opened false
    intro _
    apply Streams.ite
    · exact fun _ => (openBracket_streams .object outer r).opened false
    intro _
    refine (skipScalar_streams c r).andThen ?_ ?_ ?_
    · intro x e he
      simp only [he]
    · intro u hu
      simp only [hu]
      exact (closeBrackets_streams outer u).opened false
    · intro x u _ hu hnil
      simp only [hu, show u = [] from hnil]
      exact closeBrackets_nil outer

theorem skipWithin_streams (outer : List Bracket) (t : List Char) :
    Streams false fun x => skipWithin outer (t ++ x) := by
  simp only [skipWithin_eq]
  refine (skipStep_streams outer t).andThen ?_ ?_ ?_
  · intro x e he
    simp only [he, proceed]
  · rintro ⟨inner, r⟩ h
    cases inner with
    | nil =>
        simp only [h, extend_pair, proceed]
        exact .reads r fun x => rfl
    | cons b inner =>
        have hlt : r.length < t.length := skipStep_shorter (eq_ok_of_extend (f := skipStep outer) h)
        simp only [h, extend_pair, proceed]
        exact skipWithin_streams (b :: inner) r
  · rintro x ⟨inner, r⟩ _ h hr
    subst hr
    cases inner with
    | nil =>
        simp only [h, proceed]
        exact ⟨rfl, rfl⟩
    | cons b inner =>
        simp only [h, proceed]
        rw [skipWithin_eq]
        rfl
termination_by t.length

theorem skipValue_streams (t : List Char) : Streams false fun x => skipValue (t ++ x) :=
  skipWithin_streams [] t

/-! ## Elements in brackets -/

instance : Remainder Next where
  rest
    | .closed r => r
    | .further r => r
  extend
    | .closed r, x => .closed (r ++ x)
    | .further r, x => .further (r ++ x)
  extend_nil v := by cases v <;> simp

@[simp] theorem extend_closed (s x : List Char) : extend (Next.closed s) x = .closed (s ++ x) := rfl

@[simp] theorem extend_further (s x : List Char) :
    extend (Next.further s) x = .further (s ++ x) := rfl

theorem nextElement_streams (first : Bool) (t : List Char) :
    Streams true fun x => nextElement first (t ++ x) := by
  rcases skipBlanks_append_cases t with hnil | ⟨c, r, h⟩
  · exact .stops (by simp only [List.append_nil, nextElement, hnil]; rfl)
  · simp only [nextElement, h]
    apply Streams.ite
    · exact fun _ => .reads (.closed r) fun x => rfl
    intro _
    apply Streams.ite
    · exact fun _ => .reads (.further (c :: r)) fun x => rfl
    intro _
    apply Streams.ite
    · intro _
      rcases skipBlanks_append_cases r with hnil | ⟨d, u, hu⟩
      · exact .stops (by simp only [List.append_nil, hnil]; rfl)
      · simp only [hu]
        exact .ite (fun _ => .fault _) fun _ => .reads (.further (d :: u)) fun x => rfl
    · exact fun _ => .fault _

theorem startName_streams (c : Char) (t : List Char) :
    Streams true fun x => startName c (t ++ x) := by
  simp only [startName]
  exact .ite (fun _ => .reads (.further t) fun x => rfl) fun _ => .fault _

theorem nextMember_streams (first : Bool) (t : List Char) :
    Streams true fun x => nextMember first (t ++ x) := by
  rcases skipBlanks_append_cases t with hnil | ⟨c, r, h⟩
  · exact .stops (by simp only [List.append_nil, nextMember, hnil]; rfl)
  · simp only [nextMember, h]
    apply Streams.ite
    · exact fun _ => .reads (.closed r) fun x => rfl
    intro _
    apply Streams.ite
    · exact fun _ => startName_streams c r
    intro _
    apply Streams.ite
    · intro _
      rcases skipBlanks_append_cases r with hnil | ⟨d, u, hu⟩
      · exact .stops (by simp only [List.append_nil, hnil]; rfl)
      · simp only [hu]
        exact .ite (fun _ => .fault _) fun _ => startName_streams d u
    · exact fun _ => .fault _

theorem endElements_streams (t : List Char) : Streams true fun x => endElements (t ++ x) := by
  rcases skipBlanks_append_cases t with hnil | ⟨c, r, h⟩
  · exact .stops (by simp only [List.append_nil, endElements, hnil]; rfl)
  · simp only [endElements, h]
    apply Streams.ite
    · exact fun _ => .reads r fun x => rfl
    · -- whichever of the two faults it is, it may change when the text goes on
      intro _
      refine .fails fun x => ?_
      split
      · exact ⟨.trailingComma, rfl⟩
      · exact ⟨.trailingCharacters, rfl⟩

end Treemark.Json
