import Mathlib.Data.List.Induction
import Treemark.Proofs.Markdown.Lines

/-!
# Lines that are kept

Which lines of a text are kept is decided line after line, by the end of the line that was kept last. It
can also be told from the text alone: a bare line shares the fate of the nearest line before it that is
not bare, and is kept if that one ends in a period.
-/

namespace Treemark.Markdown

/-! ## What is dropped of a list -/

section

variable {α β : Type} (bare ends : α → Bool)

/-- Read backwards, the first element that is not bare ends a sentence. -/
def endsSentence (xs : List α) : Bool := (xs.reverse.find? (!bare ·)).any ends

/-- A bare element is dropped unless a sentence ends before it. -/
def isDropped (xs : List α) (i : Nat) : Bool :=
  xs[i]?.any bare && !endsSentence bare ends (xs.take i)

/-- The elements that are not dropped. -/
def remaining (xs : List α) : List α :=
  (xs.zipIdx.filter fun x => !isDropped bare ends xs x.2).map Prod.fst

theorem endsSentence_concat (xs : List α) (x : α) :
    endsSentence bare ends (xs ++ [x]) = if bare x then endsSentence bare ends xs else ends x := by
  cases h : bare x <;> simp [endsSentence, h]

theorem isDropped_append {xs : List α} {i : Nat} (h : i < xs.length) (ys : List α) :
    isDropped bare ends (xs ++ ys) i = isDropped bare ends xs i := by
  simp [isDropped, List.getElem?_append_left h, List.take_append_of_le_length (Nat.le_of_lt h)]

theorem isDropped_concat_length (xs : List α) (x : α) :
    isDropped bare ends (xs ++ [x]) xs.length = (bare x && !endsSentence bare ends xs) := by
  simp [isDropped]

theorem remaining_concat (xs : List α) (x : α) :
    remaining bare ends (xs ++ [x]) =
      remaining bare ends xs ++ if bare x && !endsSentence bare ends xs then [] else [x] := by
  have hbefore : ∀ y ∈ xs.zipIdx,
      (!isDropped bare ends (xs ++ [x]) y.2) = !isDropped bare ends xs y.2 := by
    intro y hy
    rw [isDropped_append bare ends (List.snd_lt_of_mem_zipIdx hy)]
  rw [remaining, List.zipIdx_append, List.filter_append, List.filter_congr hbefore, List.map_append,
    ← remaining, Nat.zero_add]
  congr 1
  cases h : bare x && !endsSentence bare ends xs <;> simp [isDropped_concat_length, h]

/-- Nothing that is not bare gets lost, and it stays in order. -/
theorem filter_remaining (xs : List α) :
    (remaining bare ends xs).filter (!bare ·) = xs.filter (!bare ·) := by
  induction xs using List.reverseRecOn with
  | nil => rfl
  | append_singleton xs x ih =>
      rw [remaining_concat, List.filter_append, List.filter_append, ih]
      congr 1
      cases h : bare x
      · simp [h]
      · split <;> simp [h]

variable {bare ends} in
theorem remaining_eq_self {xs : List α} (h : ∀ x ∈ xs, bare x = false) :
    remaining bare ends xs = xs := by
  have hkept : ∀ x ∈ xs.zipIdx, !isDropped bare ends xs x.2 := by
    intro x hx
    have hget := List.mem_zipIdx_iff_getElem?.mp hx
    simp [isDropped, hget, h x.1 (List.mem_of_getElem? hget)]
  rw [remaining, List.filter_eq_self.mpr hkept, List.zipIdx_map_fst]

variable {bare ends} in
/-- Of bare elements one behind the other all are dropped or none. -/
theorem isDropped_eq_of_run {xs : List α} {i j : Nat} (hij : i ≤ j)
    (h : ∀ k, i ≤ k → k ≤ j → xs[k]?.any bare) :
    isDropped bare ends xs i = isDropped bare ends xs j := by
  induction hij with
  | refl => rfl
  | @step j hij ih =>
      rw [ih fun k hk hkj => h k hk (Nat.le_succ_of_le hkj)]
      have hj := h j hij (Nat.le_succ j)
      obtain ⟨x, hx, hbare⟩ := (Option.any_eq_true _ _).mp hj
      rw [isDropped, isDropped, hj, h (j + 1) (Nat.le_succ_of_le hij) (Nat.le_refl _),
        List.take_add_one, hx, Option.toList_some, endsSentence_concat, if_pos hbare]

variable {bare ends} in
theorem isDropped_of_leading {xs : List α} {i : Nat} (h : ∀ k ≤ i, xs[k]?.any bare) :
    isDropped bare ends xs i := by
  rw [← isDropped_eq_of_run (Nat.zero_le i) fun k _ hk => h k hk, isDropped,
    h 0 (Nat.zero_le i)]
  rfl

variable {bare ends} in
/-- Elements that stand for others are dropped where these are; how a bare one ends does not matter. -/
theorem remaining_map {bare' ends' : β → Bool} {f : β → α} (hbare : ∀ x, bare (f x) = bare' x)
    (hends : ∀ x, bare' x = false → ends (f x) = ends' x) (xs : List β) :
    remaining bare ends (xs.map f) = (remaining bare' ends' xs).map f := by
  have hsentence (xs : List β) :
      endsSentence bare ends (xs.map f) = endsSentence bare' ends' xs := by
    induction xs using List.reverseRecOn with
    | nil => rfl
    | append_singleton xs x ih =>
        rw [List.map_append, List.map_singleton, endsSentence_concat, endsSentence_concat, ih, hbare]
        cases h : bare' x
        · simp [hends x h]
        · rfl
  induction xs using List.reverseRecOn with
  | nil => rfl
  | append_singleton xs x ih =>
      rw [List.map_append, List.map_singleton, remaining_concat, remaining_concat, ih, hsentence,
        hbare, List.map_append]
      split <;> rfl

end

/-! ## Bare lines -/

theorem isBare_tabs (k : Nat) (l : List Char) : isBare (List.replicate k '\t' ++ l) = isBare l := by
  have htabs : ∀ c ∈ List.replicate k '\t', isIndent c = true := by
    intro c hc
    rw [List.eq_of_mem_replicate hc]
    rfl
  rw [isBare, isBare, List.dropWhile_append_of_pos htabs]

theorem endsInPeriod_tabs (k : Nat) (l : List Char) :
    endsInPeriod (List.replicate k '\t' ++ l) = endsInPeriod l := by
  cases hl : l.getLast? with
  | some c => simp [endsInPeriod, List.getLast?_append, hl]
  | none =>
      rw [List.getLast?_eq_none_iff] at hl
      subst l
      cases k <;> simp [endsInPeriod, List.getLast?_replicate]

theorem endsInPeriod_of_isBare {l : List Char} (h : isBare l = true) : endsInPeriod l = true := by
  have hbare : l.dropWhile isIndent = ['1', '.'] := of_decide_eq_true h
  rw [endsInPeriod, ← List.takeWhile_append_dropWhile (p := isIndent) (l := l), hbare]
  simp

/-! ## Lines that are kept -/

theorem keptLines_append (previous : List Char) (ls ms : List (List Char)) :
    keptLines previous (ls ++ ms) =
      keptLines previous ls ++ keptLines ((keptLines previous ls).getLastD previous) ms := by
  induction ls generalizing previous with
  | nil => rfl
  | cons l ls ih =>
      simp only [List.cons_append, keptLines]
      split
      · exact ih previous
      · rw [ih l, List.cons_append, List.getLastD_cons]

/-- Of the line that was kept last, only its end matters. -/
theorem keptLines_congr {p q : List Char} (h : endsInPeriod p = endsInPeriod q)
    (ls : List (List Char)) : keptLines p ls = keptLines q ls := by
  induction ls with
  | nil => rfl
  | cons l ls ih => simp only [keptLines, h, ih]

theorem collapse_newline {text : String} {s : List Char} (h : text.toList = '\n' :: s) :
    (collapse text).toList = '\n' :: unlines (keptLines [] (lines s)) := by
  have hbare : isBare [] = false := rfl
  simp [collapse, h, lines_newline, keptLines, hbare, unlines]

theorem keptLines_concat (ls : List (List Char)) (l : List Char) :
    keptLines [] (ls ++ [l]) = keptLines [] ls ++
      if isBare l && !endsInPeriod ((keptLines [] ls).getLastD []) then [] else [l] :=
  keptLines_append [] ls [l]

/-- The line that was kept last ends as the text does, bare lines at its end aside: these are kept only
where they follow a period, and end in one themselves. -/
theorem endsInPeriod_keptLines (ls : List (List Char)) :
    endsInPeriod ((keptLines [] ls).getLastD []) = endsSentence isBare endsInPeriod ls := by
  induction ls using List.reverseRecOn with
  | nil => rfl
  | append_singleton ls l ih =>
      rw [keptLines_concat, endsSentence_concat, ih]
      cases hbare : isBare l
      · simp
      · have hperiod := endsInPeriod_of_isBare hbare
        cases hsentence : endsSentence isBare endsInPeriod ls <;> simp_all

theorem keptLines_eq_remaining (ls : List (List Char)) :
    keptLines [] ls = remaining isBare endsInPeriod ls := by
  induction ls using List.reverseRecOn with
  | nil => rfl
  | append_singleton ls l ih =>
      rw [keptLines_concat, remaining_concat, endsInPeriod_keptLines, ih]

/-- A text without its bare lines, except those behind the end of a sentence, line by line and with every
line ended. Its lines are the pieces between its line feeds, less carriage returns in front of these. Of a
run of bare lines all are dropped or none, and at the start of a text all are. -/
theorem collapse_eq_remaining (text : String) :
    (collapse text).toList = unlines (remaining isBare endsInPeriod (lines text.toList)) ∧
    lines text.toList = (text.toList.splitOn '\n').dropLast.map withoutReturn ++
      (text.toList.splitOn '\n').getLast?.toList.filter (· ≠ []) ∧
    (∀ i j, i ≤ j → (∀ k, i ≤ k → k ≤ j → (lines text.toList)[k]?.any isBare) →
      isDropped isBare endsInPeriod (lines text.toList) i =
        isDropped isBare endsInPeriod (lines text.toList) j) ∧
    (∀ i, (∀ k ≤ i, (lines text.toList)[k]?.any isBare) →
      isDropped isBare endsInPeriod (lines text.toList) i) ∧
    (remaining isBare endsInPeriod (lines text.toList)).filter (!isBare ·) =
      (lines text.toList).filter (!isBare ·) := by
  refine ⟨?_, lines_eq _, fun i j => isDropped_eq_of_run, fun i => isDropped_of_leading,
    filter_remaining isBare endsInPeriod _⟩
  rw [collapse, String.toList_ofList, keptLines_eq_remaining]

end Treemark.Markdown
