import Treemark.Cli.Arguments

/-!
# Command lines that ask for a conversion

Such a command line has two values, which may stand anywhere among the flags. No flag is there twice, and
behind two dashes there are only values.
-/

namespace Treemark.Cli

/-- An argument that is no flag, wherever it stands: a dash alone or one that starts with no dash. -/
def Plain (s : String) : Prop := s.toList.head? = some '-' → s = "-"

instance (s : String) : Decidable (Plain s) :=
  inferInstanceAs (Decidable (s.toList.head? = some '-' → s = "-"))

/-- The arguments are these values in this order, with these flags among them. -/
inductive Arranged : List String → Bool → Bool → List String → Prop where
  | nil : Arranged [] false false []
  | value {s : String} {values args : List String} {dump verbose : Bool} :
      Plain s → Arranged values dump verbose args → Arranged (s :: values) dump verbose (s :: args)
  | dump {values args : List String} {verbose : Bool} :
      Arranged values false verbose args → Arranged values true verbose ("--dump" :: args)
  | verbose {s : String} {values args : List String} {dump : Bool} :
      s ∈ ["-v", "--verbose"] → Arranged values dump false args → Arranged values dump true (s :: args)
  | values (values : List String) : Arranged values false false ("--" :: values)

/-! ## One argument -/

namespace Argument

theorem ofString_cases (s : String) :
    (Plain s ∧ ofString s = .value s) ∨
    (s = "--" ∧ ofString s = .endOfFlags) ∨
    (∃ name, s = "--" ++ String.ofList name ∧ ofString s = .flags [Flag.ofLong? name]) ∨
    ∃ letters, s = "-" ++ String.ofList letters ∧ letters ≠ [] ∧
      ofString s = .flags (letters.map Flag.ofShort?) := by
  unfold ofString
  split
  · rename_i hs
    exact .inl ⟨fun _ => String.toList_inj.mp hs, rfl⟩
  · rename_i hs
    exact .inr (.inl ⟨String.toList_inj.mp hs, rfl⟩)
  · rename_i name hname hs
    exact .inr (.inr (.inl ⟨name, by rw [← String.toList_inj, hs]; simp, rfl⟩))
  · rename_i letters hne _ _ hs
    exact .inr (.inr (.inr ⟨letters, by rw [← String.toList_inj, hs]; simp, by simpa using hne, rfl⟩))
  · rename_i hdash
    refine .inl ⟨fun hhead => ?_, rfl⟩
    obtain ⟨letters, hs⟩ := List.head?_eq_some_iff.mp hhead
    exact absurd hs (hdash letters)

theorem ofString_of_plain {s : String} (h : Plain s) : ofString s = .value s := by
  rcases ofString_cases s with ⟨-, hs⟩ | ⟨rfl, -⟩ | ⟨name, rfl, -⟩ | ⟨letters, rfl, hne, -⟩
  · exact hs
  · exact absurd (h rfl) (by decide)
  · have hname := h (by simp)
    rw [← String.toList_inj] at hname
    simp at hname
  · have hletters := h (by simp)
    rw [← String.toList_inj] at hletters
    simp [hne] at hletters

theorem ofString_dump : ofString "--dump" = .flags [some .dump] := by decide

theorem ofString_verbose {s : String} (h : s ∈ ["-v", "--verbose"]) :
    ofString s = .flags [some .verbose] := by
  simp only [List.mem_cons, List.not_mem_nil, or_false] at h
  rcases h with rfl | rfl <;> decide

end Argument

/-! ## Flags -/

theorem Flag.ofShort?_cases (c : Char) :
    c = 'v' ∧ ofShort? c = some verbose ∨ ofShort? c = some help ∨ ofShort? c = none := by
  unfold ofShort?
  split
  · exact .inl ⟨rfl, rfl⟩
  · exact .inr (.inl rfl)
  · exact .inr (.inr rfl)

theorem Flag.ofLong?_cases (name : List Char) :
    name = "dump".toList ∧ ofLong? name = some dump ∨
    name = "verbose".toList ∧ ofLong? name = some verbose ∨
    ofLong? name = some help ∨ ofLong? name = none := by
  unfold ofLong?
  split
  · rename_i hname
    exact .inl ⟨hname, rfl⟩
  · split
    · rename_i hname
      exact .inr (.inl ⟨hname, rfl⟩)
    · split
      · exact .inr (.inr (.inl rfl))
      · exact .inr (.inr (.inr rfl))

namespace Progress

variable {p q : Progress} {s : String} {fs : List (Option Flag)}

theorem flags_dump (p : Progress) :
    p.flags [some .dump] = if p.dump then .error .misuse else .ok { p with dump := true } := by
  simp only [flags, flag]
  cases p.dump <;> rfl

theorem flags_verbose (p : Progress) : p.flags [some .verbose] =
    if p.verbose then .error .misuse else .ok { p with verbose := true } := by
  simp only [flags, flag]
  cases p.verbose <;> rfl

/-- Only one letter is a flag that may be noted, and only once. -/
theorem letters_of_flags {letters : List Char} (h : p.flags (letters.map Flag.ofShort?) = .ok q) :
    letters = [] ∨ letters = ['v'] := by
  match letters, h with
  | [], _ => exact .inl rfl
  | [c], h =>
      rcases Flag.ofShort?_cases c with ⟨rfl, -⟩ | hc | hc
      · exact .inr rfl
      · simp [flags, flag, hc] at h
      · simp [flags, flag, hc] at h
  | c :: d :: letters, h =>
      simp only [List.map_cons, flags] at h
      rcases Flag.ofShort?_cases c with ⟨-, hc⟩ | hc | hc
      · rcases Flag.ofShort?_cases d with ⟨-, hd⟩ | hd | hd
        all_goals
          simp only [hc, hd, flag] at h
          cases hverbose : p.verbose <;> simp [hverbose] at h
      · simp [hc, flag] at h
      · simp [hc, flag] at h

/-- The flags of one argument are noted if it is one of three, and was not there before. -/
theorem flags_eq_ok_iff (hfs : Argument.ofString s = .flags fs) : p.flags fs = .ok q ↔
    (s = "--dump" ∧ p.dump = false ∧ q = { p with dump := true }) ∨
    (s ∈ ["-v", "--verbose"] ∧ p.verbose = false ∧ q = { p with verbose := true }) := by
  constructor
  · intro h
    rcases Argument.ofString_cases s with ⟨-, hs⟩ | ⟨-, hs⟩ | ⟨name, rfl, hs⟩ | ⟨letters, rfl, hne, hs⟩
    · rw [hs] at hfs
      cases hfs
    · rw [hs] at hfs
      cases hfs
    · rw [hs] at hfs
      cases hfs
      rcases Flag.ofLong?_cases name with ⟨rfl, hflag⟩ | ⟨rfl, hflag⟩ | hflag | hflag
      · rw [hflag, flags_dump] at h
        cases hdump : p.dump <;> simp [hdump] at h
        exact .inl ⟨rfl, rfl, h.symm⟩
      · rw [hflag, flags_verbose] at h
        cases hverbose : p.verbose <;> simp [hverbose] at h
        exact .inr ⟨by decide, rfl, h.symm⟩
      · simp [hflag, flags, flag] at h
      · simp [hflag, flags, flag] at h
    · rw [hs] at hfs
      cases hfs
      obtain rfl := (letters_of_flags h).resolve_left hne
      have hletter : List.map Flag.ofShort? ['v'] = [some .verbose] := rfl
      rw [hletter, flags_verbose] at h
      cases hverbose : p.verbose <;> simp [hverbose] at h
      exact .inr ⟨by decide, rfl, h.symm⟩
  · rintro (⟨rfl, hdump, rfl⟩ | ⟨hs, hverbose, rfl⟩)
    · rw [Argument.ofString_dump] at hfs
      cases hfs
      rw [flags_dump, hdump]
      rfl
    · rw [Argument.ofString_verbose hs] at hfs
      cases hfs
      rw [flags_verbose, hverbose]
      rfl

/-! ## Whole command lines -/

theorem value_eq_ok_iff : p.value s = .ok q ↔
    p.values.length < 2 ∧ q = { p with values := p.values ++ [s] } := by
  unfold value
  split
  · simp_all [eq_comm]
  · simp only [reduceCtorEq, false_iff]
    exact fun h => absurd h.1 (by assumption)

theorem valuesOnly_eq_ok_iff {ss : List String} (hp : p.values.length ≤ 2) :
    p.valuesOnly ss = .ok q ↔
      p.values.length + ss.length ≤ 2 ∧ q = { p with values := p.values ++ ss } := by
  induction ss generalizing p with
  | nil => simp [valuesOnly, hp, eq_comm]
  | cons s ss ih =>
      rw [valuesOnly]
      by_cases hlength : p.values.length < 2
      · have hvalue : p.value s = .ok { p with values := p.values ++ [s] } :=
          value_eq_ok_iff.mpr ⟨hlength, rfl⟩
        rw [hvalue]
        simp only
        rw [ih (by simp; omega)]
        simp [Nat.add_assoc, Nat.add_comm 1]
      · simp only [value, hlength, ↓reduceIte, reduceCtorEq, List.length_cons, false_iff]
        omega

/-- The progress with more values and flags. -/
def add (p : Progress) (values : List String) (dump verbose : Bool) : Progress where
  values := p.values ++ values
  dump := p.dump || dump
  verbose := p.verbose || verbose

theorem arguments_of_arranged {values args : List String} {dump verbose : Bool}
    (h : Arranged values dump verbose args) (hvalues : p.values.length + values.length ≤ 2)
    (hdump : (p.dump && dump) = false) (hverbose : (p.verbose && verbose) = false) :
    p.arguments args = .ok (p.add values dump verbose) := by
  induction h generalizing p with
  | nil => simp [arguments, add]
  | @value s values args dump verbose hs _ ih =>
      rw [List.length_cons] at hvalues
      have hvalue : p.value s = .ok { p with values := p.values ++ [s] } :=
        value_eq_ok_iff.mpr ⟨by omega, rfl⟩
      rw [arguments, Argument.ofString_of_plain hs]
      simp only [hvalue]
      have hadd : add { p with values := p.values ++ [s] } values dump verbose =
          p.add (s :: values) dump verbose := by
        simp [add]
      rw [← hadd]
      refine ih (p := { p with values := p.values ++ [s] }) ?_ hdump hverbose
      simp
      omega
  | @dump values args verbose _ ih =>
      have hflags := (flags_eq_ok_iff (p := p) Argument.ofString_dump).mpr
        (.inl ⟨rfl, by simpa using hdump, rfl⟩)
      rw [arguments, Argument.ofString_dump]
      simp only [hflags]
      have hadd : add { p with dump := true } values false verbose = p.add values true verbose := by
        simp [add]
      rw [← hadd]
      exact ih hvalues (Bool.and_false _) hverbose
  | @verbose s values args dump hs _ ih =>
      have hflags := (flags_eq_ok_iff (p := p) (Argument.ofString_verbose hs)).mpr
        (.inr ⟨hs, by simpa using hverbose, rfl⟩)
      rw [arguments, Argument.ofString_verbose hs]
      simp only [hflags]
      have hadd : add { p with verbose := true } values dump false = p.add values dump true := by
        simp [add]
      rw [← hadd]
      exact ih hvalues hdump (Bool.and_false _)
  | values values =>
      have hend : Argument.ofString "--" = .endOfFlags := by decide
      rw [arguments, hend]
      exact (valuesOnly_eq_ok_iff (by omega)).mpr ⟨hvalues, by simp [add]⟩

theorem arranged_of_arguments {args : List String} (hp : p.values.length ≤ 2)
    (h : p.arguments args = .ok q) : ∃ values dump verbose, Arranged values dump verbose args ∧
      (p.dump && dump) = false ∧ (p.verbose && verbose) = false ∧ q = p.add values dump verbose := by
  induction args generalizing p with
  | nil =>
      cases h
      exact ⟨[], false, false, .nil, by simp [add]⟩
  | cons s args ih =>
      rw [arguments] at h
      rcases Argument.ofString_cases s with ⟨hplain, hs⟩ | ⟨rfl, hs⟩ | hflag
      · simp only [hs] at h
        split at h
        · cases h
        · rename_i p' hvalue
          obtain ⟨hlength, rfl⟩ := value_eq_ok_iff.mp hvalue
          obtain ⟨values, dump, verbose, harranged, hdump, hverbose, rfl⟩ := ih (by simp; omega) h
          exact ⟨s :: values, dump, verbose, .value hplain harranged, hdump, hverbose, by simp [add]⟩
      · simp only [hs] at h
        obtain ⟨-, rfl⟩ := (valuesOnly_eq_ok_iff hp).mp h
        exact ⟨args, false, false, .values args, by simp [add]⟩
      · obtain ⟨fs, hs⟩ : ∃ fs, Argument.ofString s = .flags fs := by
          rcases hflag with ⟨name, -, hs⟩ | ⟨letters, -, -, hs⟩
          · exact ⟨_, hs⟩
          · exact ⟨_, hs⟩
        simp only [hs] at h
        split at h
        · cases h
        · rename_i p' hflags
          rcases (flags_eq_ok_iff hs).mp hflags with ⟨rfl, hunset, rfl⟩ | ⟨hflag, hunset, rfl⟩
          · obtain ⟨values, dump, verbose, harranged, hdump, hverbose, rfl⟩ :=
              ih (p := { p with dump := true }) hp h
            obtain rfl : dump = false := by simpa using hdump
            exact ⟨values, true, verbose, .dump harranged, by simp [hunset], hverbose, by simp [add]⟩
          · obtain ⟨values, dump, verbose, harranged, hdump, hverbose, rfl⟩ :=
              ih (p := { p with verbose := true }) hp h
            obtain rfl : verbose = false := by simpa using hverbose
            exact ⟨values, dump, true, .verbose hflag harranged, hdump, by simp [hunset],
              by simp [add]⟩

/-! ### Errors -/

theorem flag_eq_error {f : Option Flag} {r : Request} (h : p.flag f = .error r) :
    r = .help ∨ r = .misuse := by
  unfold flag at h
  split at h
  · cases h
    exact .inr rfl
  · cases h
    exact .inl rfl
  · split at h <;> cases h
    exact .inr rfl
  · split at h <;> cases h
    exact .inr rfl

theorem flags_eq_error {r : Request} (h : p.flags fs = .error r) : r = .help ∨ r = .misuse := by
  fun_induction flags p fs with
  | case1 => cases h
  | case2 _ _ _ _ hflag =>
      cases h
      exact flag_eq_error hflag
  | case3 _ _ _ _ _ ih => exact ih h

theorem value_eq_error {r : Request} (h : p.value s = .error r) : r = .misuse := by
  unfold value at h
  split at h <;> cases h
  rfl

theorem valuesOnly_eq_error {ss : List String} {r : Request} (h : p.valuesOnly ss = .error r) :
    r = .misuse := by
  fun_induction valuesOnly p ss with
  | case1 => cases h
  | case2 _ _ _ _ hvalue =>
      cases h
      exact value_eq_error hvalue
  | case3 _ _ _ _ _ ih => exact ih h

theorem arguments_eq_error {args : List String} {r : Request} (h : p.arguments args = .error r) :
    r = .help ∨ r = .misuse := by
  fun_induction arguments p args with
  | case1 => cases h
  | case2 => exact .inr (valuesOnly_eq_error h)
  | case3 _ _ _ _ _ _ hvalue =>
      cases h
      exact .inr (value_eq_error hvalue)
  | case4 _ _ _ _ _ _ _ ih => exact ih h
  | case5 _ _ _ _ _ _ hflags =>
      cases h
      exact flags_eq_error hflags
  | case6 _ _ _ _ _ _ _ ih => exact ih h

end Progress

/-- A command line asks for a conversion just if it is two values among such flags. -/
theorem Request.ofArguments_eq_convert_iff {args : List String} {o : Options} :
    ofArguments args = .convert o ↔ Arranged [o.input, o.output] o.dump o.verbose args := by
  constructor
  · intro h
    unfold ofArguments at h
    split at h
    · rename_i r hr
      rcases Progress.arguments_eq_error hr with rfl | rfl <;> cases h
    · rename_i p hp
      obtain ⟨values, dump, verbose, harranged, -, -, rfl⟩ :=
        Progress.arranged_of_arguments (by simp) hp
      split at h
      · rename_i input output hvalues
        cases h
        obtain rfl : values = [input, output] := by simpa [Progress.add] using hvalues
        simpa [Progress.add] using harranged
      · cases h
  · intro h
    have harguments := Progress.arguments_of_arranged (p := {}) h (by simp) rfl rfl
    simp only [ofArguments, harguments, Progress.add, List.nil_append, Bool.false_or]

end Treemark.Cli
