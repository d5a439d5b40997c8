import Treemark.Proofs.Markdown.Indented

/-!
# Pieces of texts

Some pieces that stand in a text one behind the other still do so when the text is joined with others,
loses its bare lines, becomes a cell of a row or gets a separator, as long as no piece goes over the end
of a line or could be a part of a bare line.
-/

namespace Treemark.Markdown

/-- The pieces stand in the text in this order and without overlaps. -/
inductive InOrder : List (List Char) → List Char → Prop where
  | nil : InOrder [] []
  | other (c : Char) {ps : List (List Char)} {s : List Char} : InOrder ps s → InOrder ps (c :: s)
  | piece (p : List Char) {ps : List (List Char)} {s : List Char} :
      InOrder ps s → InOrder (p :: ps) (p ++ s)

/-- The pieces are spread over the elements of a list. -/
inductive Spread {π α : Type} (R : List π → α → Prop) : List π → List α → Prop where
  | nil : Spread R [] []
  | cons {ps qs : List π} {x : α} {xs : List α} :
      R ps x → Spread R qs xs → Spread R (ps ++ qs) (x :: xs)

theorem Spread.append {π α : Type} {R : List π → α → Prop} {ps qs : List π} {xs ys : List α}
    (hxs : Spread R ps xs) (hys : Spread R qs ys) : Spread R (ps ++ qs) (xs ++ ys) := by
  induction hxs with
  | nil => exact hys
  | cons hx _ ih =>
      rw [List.append_assoc]
      exact .cons hx ih

namespace InOrder

variable {ps qs : List (List Char)} {s t : List Char}

theorem none (s : List Char) : InOrder [] s := by
  induction s with
  | nil => exact .nil
  | cons c s ih => exact .other c ih

theorem append (hs : InOrder ps s) (ht : InOrder qs t) : InOrder (ps ++ qs) (s ++ t) := by
  induction hs with
  | nil => exact ht
  | other c _ ih => exact .other c ih
  | piece p _ ih =>
      rw [List.append_assoc]
      exact .piece p ih

theorem mem {p : List Char} {c : Char} (h : InOrder ps s) (hp : p ∈ ps) (hc : c ∈ p) : c ∈ s := by
  induction h with
  | nil => cases hp
  | other d _ ih => exact List.mem_cons_of_mem d (ih hp)
  | piece q _ ih =>
      rw [List.mem_append]
      rcases List.mem_cons.mp hp with rfl | hp
      · exact .inl hc
      · exact .inr (ih hp)

theorem gaps (h : InOrder ps s) : ∃ lead gaps, gaps.length = ps.length ∧
    s = lead ++ (List.zipWith (· ++ ·) ps gaps).flatten := by
  induction h with
  | nil => exact ⟨[], [], rfl, rfl⟩
  | other c _ ih =>
      obtain ⟨lead, gaps, hlength, rfl⟩ := ih
      exact ⟨c :: lead, gaps, hlength, rfl⟩
  | piece p _ ih =>
      obtain ⟨lead, gaps, hlength, rfl⟩ := ih
      exact ⟨[], lead :: gaps, by simp [hlength], by simp⟩

/-- A piece lies on one side of a character that is in none of them. -/
theorem split {c : Char} (h : InOrder ps (s ++ c :: t)) (hc : ∀ p ∈ ps, c ∉ p) :
    ∃ qs rs, ps = qs ++ rs ∧ InOrder qs s ∧ InOrder rs t := by
  generalize hu : s ++ c :: t = u at h
  induction h generalizing s with
  | nil => simp at hu
  | @other d ps u h ih =>
      cases s with
      | nil =>
          cases hu
          exact ⟨[], ps, rfl, .nil, h⟩
      | cons e s =>
          cases hu
          obtain ⟨qs, rs, rfl, hqs, hrs⟩ := ih hc rfl
          exact ⟨qs, rs, rfl, .other d hqs, hrs⟩
  | @piece p ps u h ih =>
      have hp := hc p List.mem_cons_self
      rcases List.append_eq_append_iff.mp hu with ⟨v, rfl, hv⟩ | ⟨v, rfl, rfl⟩
      · -- the character would be in the piece, unless nothing of the piece is behind it
        cases v with
        | nil =>
            rw [List.append_nil] at hp ⊢
            obtain ⟨qs, rs, rfl, hqs, hrs⟩ :=
              ih (s := []) (fun q hq => hc q (List.mem_cons_of_mem _ hq)) (by simpa using hv)
            refine ⟨s :: qs, rs, rfl, ?_, hrs⟩
            simpa using piece s hqs
        | cons e v =>
            cases hv
            simp at hp
      · obtain ⟨qs, rs, rfl, hqs, hrs⟩ := ih (fun q hq => hc q (List.mem_cons_of_mem _ hq)) rfl
        exact ⟨p :: qs, rs, rfl, .piece p hqs, hrs⟩

end InOrder

theorem Spread.flatMap {α : Type} {R : List (List Char) → α → Prop} {ps : List (List Char)}
    {xs : List α} (h : Spread R ps xs) {f : α → List Char}
    (hf : ∀ qs x, R qs x → InOrder qs (f x)) : InOrder ps (xs.flatMap f) := by
  induction h with
  | nil => exact .nil
  | cons hx _ ih => exact (hf _ _ hx).append ih

/-! ## Dropping bare lines -/

/-- A piece of one line that is no part of a bare line. -/
structure Sturdy (p : List Char) : Prop where
  feed : '\n' ∉ p
  carriage : '\r' ∉ p
  sign : '#' ∈ p

theorem sign_notMem_of_isBare {l : List Char} (h : isBare l = true) : '#' ∉ l := by
  intro hmem
  rw [← List.takeWhile_append_dropWhile (p := isIndent) (l := l), List.mem_append] at hmem
  rcases hmem with hmem | hmem
  · exact absurd (List.all_eq_true.mp List.all_takeWhile _ hmem) (by decide)
  · rw [of_decide_eq_true h] at hmem
    exact absurd hmem (by decide)

theorem lines_append {p : List Char} (hfeed : '\n' ∉ p) (hcarriage : '\r' ∉ p) {s : List Char}
    (hs : s ≠ []) : lines (p ++ s) = (lines s).modifyHead (p ++ ·) := by
  induction p with
  | nil => cases h : lines s <;> simp [h]
  | cons c p ih =>
      rw [List.mem_cons, not_or] at hfeed hcarriage
      have hreturn : c = '\r' → (p ++ s).head? ≠ some '\n' := fun hc => absurd hc.symm hcarriage.1
      rw [List.cons_append, lines_char (Ne.symm hfeed.1) hreturn (by simp [hs]),
        ih hfeed.2 hcarriage.2]
      cases lines s <;> rfl

theorem lines_sturdy {p : List Char} (h : Sturdy p) : lines p = [p] := by
  rw [lines_unended h.feed, if_neg (List.ne_nil_of_mem h.sign)]

theorem Spread.modifyHead {ps qs : List (List Char)} {ls : List (List Char)} {s : List Char}
    (hs : InOrder qs s) (h : Spread InOrder ps ls) (hne : ls ≠ []) :
    Spread InOrder (qs ++ ps) (ls.modifyHead (s ++ ·)) := by
  cases h with
  | nil => exact absurd rfl hne
  | cons hl hls =>
      rw [← List.append_assoc]
      exact .cons (hs.append hl) hls

theorem InOrder.eq_nil {ps : List (List Char)} (h : InOrder ps []) (hps : ∀ p ∈ ps, Sturdy p) :
    ps = [] := by
  refine List.eq_nil_iff_forall_not_mem.mpr fun p hp => ?_
  exact List.not_mem_nil (h.mem hp (hps p hp).sign)

/-- A carriage return in front of a line feed is no part of a line, but no piece ends in one. -/
theorem InOrder.lines {ps : List (List Char)} {s : List Char} (h : InOrder ps s)
    (hps : ∀ p ∈ ps, Sturdy p) : Spread InOrder ps (lines s) := by
  induction h with
  | nil => exact .nil
  | @other c ps s h ih =>
      have ih := ih hps
      by_cases hc : c = '\n'
      · subst hc
        rw [lines_newline]
        exact Spread.cons .nil ih
      · by_cases hreturn : c = '\r' ∧ s.head? = some '\n'
        · obtain ⟨rfl, hs⟩ := hreturn
          rwa [lines_return hs]
        · have hchar : c = '\r' → s.head? ≠ some '\n' := fun hr hs => hreturn ⟨hr, hs⟩
          cases s with
          | nil =>
              have hfeed : '\n' ∉ [c] := fun hfeed => hc (List.mem_singleton.mp hfeed).symm
              rw [lines_unended hfeed, if_neg (List.cons_ne_nil c []), ← List.append_nil ps]
              exact .cons (.other c h) .nil
          | cons d s =>
              rw [lines_char hc hchar (by simp)]
              exact .modifyHead (.none [c]) ih (lines_ne_nil (by simp))
  | @piece p ps s h ih =>
      have ih := ih fun q hq => hps q (List.mem_cons_of_mem p hq)
      have hp := hps p List.mem_cons_self
      have hpiece : InOrder [p] p := by simpa using piece p .nil
      cases s with
      | nil =>
          rw [List.append_nil, lines_sturdy hp,
            h.eq_nil fun q hq => hps q (List.mem_cons_of_mem p hq)]
          exact .cons hpiece .nil
      | cons d s =>
          rw [lines_append hp.feed hp.carriage (by simp)]
          exact .modifyHead hpiece ih (lines_ne_nil (by simp))

theorem Spread.keptLines {ps : List (List Char)} {ls : List (List Char)}
    (h : Spread InOrder ps ls) (hps : ∀ p ∈ ps, Sturdy p) (previous : List Char) :
    Spread InOrder ps (keptLines previous ls) := by
  induction h generalizing previous with
  | nil => exact .nil
  | @cons ps qs l ls hl _ ih =>
      have ih := ih fun p hp => hps p (List.mem_append_right ps hp)
      simp only [Markdown.keptLines]
      split
      · rename_i hdropped
        -- a bare line has no number sign, hence none of the pieces
        have hbare : isBare l = true := by simp_all
        obtain rfl : ps = [] := List.eq_nil_iff_forall_not_mem.mpr fun p hp =>
          sign_notMem_of_isBare hbare (hl.mem hp (hps p (List.mem_append_left qs hp)).sign)
        exact ih previous
      · exact .cons hl (ih l)

theorem InOrder.collapse {ps : List (List Char)} {text : String} (h : InOrder ps text.toList)
    (hps : ∀ p ∈ ps, Sturdy p) : InOrder ps (collapse text).toList := by
  rw [Markdown.collapse, String.toList_ofList]
  refine ((h.lines hps).keptLines hps []).flatMap fun qs l hl => ?_
  simpa using hl.append (.none ['\n'])

/-! ## Strings -/

/-- The pieces stand in the text in this order, provided that they are sturdy. -/
def Shows (ps : List String) (s : String) : Prop :=
  (∀ p ∈ ps, Sturdy p.toList) → InOrder (ps.map String.toList) s.toList

namespace Shows

variable {ps qs : List String} {s t : String}

theorem none (s : String) : Shows [] s := fun _ => .none s.toList

theorem piece (p : String) : Shows [p] p := fun _ => by simpa using InOrder.piece p.toList .nil

theorem append (hs : Shows ps s) (ht : Shows qs t) : Shows (ps ++ qs) (s ++ t) := by
  intro h
  rw [List.map_append, String.toList_append]
  exact (hs fun p hp => h p (List.mem_append_left qs hp)).append
    (ht fun p hp => h p (List.mem_append_right ps hp))

/-- What stands in front of the pieces, between them and behind them. -/
theorem gaps (h : Shows ps s) (hps : ∀ p ∈ ps, Sturdy p.toList) : ∃ lead gaps,
    gaps.length = ps.length ∧ s = lead ++ String.join (List.zipWith (· ++ ·) ps gaps) := by
  obtain ⟨lead, gaps, hlength, hs⟩ := (h hps).gaps
  refine ⟨String.ofList lead, gaps.map String.ofList, by simpa using hlength, ?_⟩
  rw [← String.toList_inj, hs]
  simp [List.flatMap_def, List.map_zipWith, List.zipWith_map_left, List.zipWith_map_right]

theorem behind (lead : String) (hs : Shows ps s) : Shows ps (lead ++ s) := (none lead).append hs

theorem before (hs : Shows ps s) (rest : String) : Shows ps (s ++ rest) := by
  simpa using hs.append (none rest)

theorem joinMap {texts : List String} (h : Spread Shows ps texts) {f : String → String}
    (hf : ∀ qs t, Shows qs t → Shows qs (f t)) : Shows ps (String.join (texts.map f)) := by
  induction h with
  | nil => exact none _
  | cons ht _ ih =>
      rw [List.map_cons, String.join_cons]
      exact (hf _ _ ht).append ih

theorem join {texts : List String} (h : Spread Shows ps texts) : Shows ps (String.join texts) := by
  simpa using joinMap h (f := id) fun _ _ ht => ht

theorem collapse (h : Shows ps s) : Shows ps (collapse s) := by
  intro hps
  refine (h hps).collapse fun p hp => ?_
  obtain ⟨q, hq, rfl⟩ := List.mem_map.mp hp
  exact hps q hq

theorem insertSeparator (h : Shows ps s) (count : Nat) : Shows ps (insertSeparator s count) := by
  intro hps
  have hs := h hps
  rw [Markdown.insertSeparator]
  split
  · exact hs
  · rename_i newline rest hrest
    obtain rfl : newline = '\n' := by
      have hhead := List.head?_dropWhile_not (· ≠ '\n') s.toList
      rw [hrest] at hhead
      simpa using hhead
    rw [← List.takeWhile_append_dropWhile (p := (· ≠ '\n')) (l := s.toList), hrest] at hs
    obtain ⟨qs, rs, hsplit, hqs, hrs⟩ := hs.split fun p hp => by
      obtain ⟨q, hq, rfl⟩ := List.mem_map.mp hp
      exact (hps q hq).feed
    rw [hsplit, String.toList_ofList, List.append_assoc]
    exact hqs.append ((InOrder.none _).append (.other '\n' hrs))

theorem formatRow {cells : List (List String)} (h : Spread (Spread Shows) ps cells) :
    Shows ps (formatRow cells) := by
  have hparts : ∀ {qs : List String} {parts : List String}, Spread Shows qs parts →
      (∀ p ∈ qs, Sturdy p.toList) → InOrder (qs.map String.toList)
        (gap ++ parts.flatMap fun part => part.toList ++ gap) := by
    intro qs parts h hqs
    have hjoin := joinMap h (f := (· ++ String.ofList gap)) (fun _ _ ht => ht.before _) hqs
    simpa [List.flatMap_map] using (InOrder.none gap).append hjoin
  intro hps
  rw [formatRow_toList]
  induction h with
  | nil => exact .nil
  | @cons ps qs parts cells hcell hcells ih =>
      have hcell := hparts hcell fun p hp => hps p (List.mem_append_left qs hp)
      have ih := ih fun p hp => hps p (List.mem_append_right ps hp)
      rw [List.map_append]
      cases hcells with
      | nil => simpa [rowText] using hcell
      | cons => simpa [rowText, cellText] using (hcell.append (.none gap)).append ih

end Shows

end Treemark.Markdown
