import Treemark.Cli.Convert
import Treemark.Proofs.Cli.Arguments
import Treemark.Proofs.Files.Emission

/-!
# What runs come to

A run that is asked for a conversion delivers the Markdown of the tree in its input, or it fails and
leaves the files alone. Nothing of that depends on what it tells on the way.
-/

namespace Treemark.Cli

/-- The input is the text of a tree, and the tree is rendered as this Markdown. -/
def Produces (t : FileTree) (input markdown : String) : Prop :=
  ∃ text n, t.readText? input = some text ∧ Node.parse text = .ok n ∧ n.toMarkdown = .ok markdown

/-- A text can be put out: on a standard output, or to a file that can be opened, and if it is not empty
then not on a full device. -/
def Accepts (t : FileTree) (full : Bool) (output markdown : String) : Prop :=
  if output = "-" then full = true → markdown = ""
  else ∃ p, t.create output = .ok p ∧ (t.find? p = some .fullDevice → markdown = "")

/-! ## Results without notes -/

/-- The Markdown of an input, or the failure to get it. -/
def markdownOf (t : FileTree) (input : String) : Except Failure String :=
  match t.load input with
  | .error e => .error (.ofLoad input e)
  | .ok n => n.toMarkdown.mapError (.ofRender input)

/-- What is printed and the files behind the run, or why the Markdown is not put out. -/
def putOut (t : FileTree) (full : Bool) (output markdown : String) :
    Except SinkError (String × FileTree) :=
  if output = "-" then
    match print full markdown with
    | .error cause => .error (.cannotWrite output cause)
    | .ok () => .ok (markdown, t)
  else
    match t.emit markdown output with
    | .error e => .error e
    | .ok t => .ok ("", t)

def settle (t : FileTree) (full : Bool) (input output : String) : Except Failure (String × FileTree) :=
  match markdownOf t input with
  | .error failure => .error failure
  | .ok markdown => (putOut t full output markdown).mapError (.ofSink output)

/-- What a run leaves behind, given the notes of its conversion and the events behind that. -/
def leave (t : FileTree) (f : Filter) (notes : List Note) (more : List Event) :
    Except Failure (String × FileTree) → Outcome × FileTree
  | .error failure => ({ exit := 1, stderr := showNotes f notes ++ failure.report }, t)
  | .ok (stdout, u) =>
    ({ exit := 0, stdout, stderr := showNotes f notes ++ showNotes f (more.map .event) }, u)

theorem convert_snd (t : FileTree) (o : Options) :
    (o.convert (t.read o.input)).2 = markdownOf t o.input := by
  unfold Options.convert markdownOf FileTree.load
  cases loadTree o.input (t.read o.input) with
  | error e => rfl
  | ok n =>
      simp only [Node.toMarkdown]
      rcases n.renderFrom {} with ⟨v | markdown, c⟩ <;> rfl

/-! ## Runs in memory -/

namespace System

variable (full : Bool) (o : Options) (w : Memory)

theorem run_bind {α β : Type} (p : StateM Memory α) (f : α → StateM Memory β) :
    (p >>= f).run w = (f (p.run w).1).run (p.run w).2 := rfl

theorem inMemory_read (path : String) :
    ((inMemory full).read path).run w = (w.files.read path, w) := rfl

theorem inMemory_print (text : String) :
    ((inMemory full).print text).run w =
      match Cli.print full text with
      | .error e => (.error e, w)
      | .ok () => (.ok (), { w with stdout := w.stdout ++ text }) := rfl

theorem inMemory_emit (content destination : String) :
    ((inMemory full).emit content destination).run w =
      match w.files.emit content destination with
      | .error e => (.error e, w)
      | .ok t => (.ok (), { w with files := t }) := rfl

theorem inMemory_tell (text : String) :
    ((inMemory full).tell text).run w = ((), { w with stderr := w.stderr ++ text }) := rfl

theorem inMemory_fail (failure : Failure) :
    ((inMemory full).fail failure).run w = (1, { w with stderr := w.stderr ++ failure.report }) := rfl

theorem inMemory_deliver (markdown : String) :
    ((inMemory full).deliver o markdown).run w =
      match putOut w.files full o.output markdown with
      | .error e => (.error e, w)
      | .ok (stdout, t) => (.ok (), { w with files := t, stdout := w.stdout ++ stdout }) := by
  unfold deliver putOut Options.toStdout
  by_cases houtput : o.output = "-"
  · simp only [houtput, decide_true, ↓reduceIte, run_bind, inMemory_print]
    cases Cli.print full markdown <;> rfl
  · simp only [houtput, decide_false, Bool.false_eq_true, ↓reduceIte, inMemory_emit]
    cases w.files.emit markdown o.output with
    | error e => rfl
    | ok t => simp only [String.append_empty]

/-- A conversion tells its notes, and then the report of what failed or the notes on the delivery. -/
theorem inMemory_convert (log : Option String) :
    ((inMemory full).convert o log).run w =
      let notes := (o.convert (w.files.read o.input)).1
      let told := { w with stderr := w.stderr ++ showNotes (o.filter log) notes }
      match (o.convert (w.files.read o.input)).2 with
      | .error failure => ((inMemory full).fail failure).run told
      | .ok markdown =>
        match putOut w.files full o.output markdown with
        | .error e => ((inMemory full).fail (.ofSink o.output e)).run told
        | .ok (stdout, t) =>
          (0, { files := t, stdout := w.stdout ++ stdout,
                stderr := told.stderr ++
                  showNotes (o.filter log) ((o.delivered markdown).map .event) }) := by
  simp only [convert, run_bind, inMemory_read, inMemory_tell]
  rcases o.convert (w.files.read o.input) with ⟨notes, failure | markdown⟩
  · rfl
  · simp only [run_bind, inMemory_deliver]
    rcases putOut w.files full o.output markdown with e | ⟨stdout, t⟩ <;> rfl

end System

/-- Neither the flags nor the log matter for what a run comes to, and the events behind the conversion do
not depend on them. -/
theorem run_of_arranged (t : FileTree) (full : Bool) (input output : String) : ∃ more,
    ∀ dump verbose args log, Arranged [input, output] dump verbose args →
      let o : Options := ⟨input, output, dump, verbose⟩
      run t args log full =
        leave t (o.filter log) (o.convert (t.read input)).1 more (settle t full input output) := by
  have hrequest {dump verbose : Bool} {args : List String}
      (h : Arranged [input, output] dump verbose args) :
      Request.ofArguments args = .convert ⟨input, output, dump, verbose⟩ :=
    Request.ofArguments_eq_convert_iff.mpr h
  have hconvert (dump verbose : Bool) := convert_snd t ⟨input, output, dump, verbose⟩
  unfold settle
  cases hmarkdown : markdownOf t input with
  | error failure =>
      refine ⟨[], fun dump verbose args log h => ?_⟩
      simp only [run, System.perform, hrequest h, System.inMemory_convert, hconvert, hmarkdown]
      simp only [System.inMemory_fail, leave, String.empty_append]
  | ok markdown =>
      refine ⟨Options.delivered ⟨input, output, false, false⟩ markdown,
        fun dump verbose args log h => ?_⟩
      simp only [run, System.perform, hrequest h, System.inMemory_convert, hconvert, hmarkdown]
      rcases putOut t full output markdown with e | ⟨stdout, u⟩
      · simp only [System.inMemory_fail, String.empty_append]
        rfl
      · simp only [String.empty_append]
        rfl

/-! ## What is produced and put out -/

theorem mapError_eq_ok_iff {ε ε' α : Type} {x : Except ε α} {f : ε → ε'} {a : α} :
    x.mapError f = .ok a ↔ x = .ok a := by
  cases x with
  | error e =>
      constructor
      · intro h
        cases h
      · intro h
        cases h
  | ok b =>
      constructor
      · intro h
        cases h
        rfl
      · intro h
        cases h
        rfl

theorem load_eq_ok_iff {t : FileTree} {input : String} {n : Node} :
    t.load input = .ok n ↔ ∃ text, t.readText? input = some text ∧ Node.parse text = .ok n := by
  unfold FileTree.load loadTree FileTree.readText?
  cases t.read input >>= decodeText with
  | error e => simp
  | ok text =>
      simp only [Option.some.injEq, exists_eq_left']
      exact mapError_eq_ok_iff

theorem markdownOf_eq_ok_iff {t : FileTree} {input markdown : String} :
    markdownOf t input = .ok markdown ↔ Produces t input markdown := by
  have hproduces : Produces t input markdown ↔
      ∃ n, t.load input = .ok n ∧ n.toMarkdown = .ok markdown := by
    simp only [Produces, load_eq_ok_iff]
    grind
  rw [hproduces, markdownOf]
  cases t.load input with
  | error e => simp
  | ok n =>
      simp only [Except.ok.injEq, exists_eq_left']
      exact mapError_eq_ok_iff

theorem print_eq_ok_iff {full : Bool} {text : String} :
    print full text = .ok () ↔ (full = true → text = "") := by
  unfold print
  split <;> simp_all

theorem putOut_eq_ok_iff {t u : FileTree} {full : Bool} {output markdown stdout : String} :
    putOut t full output markdown = .ok (stdout, u) ↔
      output = "-" ∧ print full markdown = .ok () ∧ markdown = stdout ∧ t = u ∨
      output ≠ "-" ∧ "" = stdout ∧ t.emit markdown output = .ok u := by
  unfold putOut
  by_cases houtput : output = "-"
  · cases print full markdown <;> simp [houtput]
  · cases t.emit markdown output <;> simp [houtput]

theorem exists_putOut_iff {t : FileTree} {full : Bool} {output markdown : String} :
    (∃ x, putOut t full output markdown = .ok x) ↔ Accepts t full output markdown := by
  rw [Accepts, ← print_eq_ok_iff, ← FileTree.emit_ok_iff, putOut]
  by_cases houtput : output = "-"
  · cases print full markdown <;> simp [houtput]
  · cases t.emit markdown output <;> simp [houtput]

theorem settle_eq_ok_iff {t : FileTree} {full : Bool} {input output : String}
    {x : String × FileTree} : settle t full input output = .ok x ↔
      ∃ markdown, Produces t input markdown ∧ putOut t full output markdown = .ok x := by
  simp only [← markdownOf_eq_ok_iff, settle]
  cases markdownOf t input with
  | error failure => simp
  | ok markdown => simp [mapError_eq_ok_iff]

theorem Produces.unique {t : FileTree} {input markdown markdown' : String}
    (h : Produces t input markdown) (h' : Produces t input markdown') : markdown = markdown' := by
  rw [← markdownOf_eq_ok_iff] at h h'
  rw [h] at h'
  cases h'
  rfl

/-! ## Runs -/

/-- What a run is bound to, given the files in front of it and whether the standard output is on a full
device. -/
structure Converts (t : FileTree) (full : Bool) (input output : String) (r : Outcome × FileTree) :
    Prop where
  /-- It succeeds just if Markdown is produced and the destination takes it. -/
  success : r.1.exit = 0 ↔ ∃ markdown, Produces t input markdown ∧ Accepts t full output markdown
  printed : ∀ markdown, Produces t input markdown → Accepts t full output markdown → output = "-" →
    r.1.stdout = markdown ∧ r.2 = t
  /-- The file holds the Markdown, and no other position and no path to another file is different. -/
  written : ∀ markdown, Produces t input markdown → Accepts t full output markdown → output ≠ "-" →
    r.1.stdout = "" ∧ ∃ p, t.create output = .ok p ∧ r.2.read output = .ok markdown.toUTF8 ∧
      r.2.home = t.home ∧ (∀ q, q ≠ p → r.2.find? q = t.find? q) ∧
      ∀ path, t.create path ≠ .ok p → (r.2.read path).toOption = (t.read path).toOption
  failure : r.1.exit ≠ 0 → r.1.exit = 1 ∧ r.1.stdout = ""
  /-- Without Markdown, and where the destination cannot be opened, nothing is touched. -/
  untouched : (∀ markdown, ¬ Produces t input markdown) ∨
    (output ≠ "-" ∧ ∀ p, t.create output ≠ .ok p) → r.1.exit = 1 ∧ r.1.stdout = "" ∧ r.2 = t

theorem leave_converts {t : FileTree} {full : Bool} {input output : String} (f : Filter)
    (notes : List Note) (more : List Event) :
    Converts t full input output (leave t f notes more (settle t full input output)) := by
  rcases hsettle : settle t full input output with failure | ⟨stdout, u⟩
  · have hnone : ∀ markdown, Produces t input markdown → ¬ Accepts t full output markdown := by
      intro markdown hproduces haccepts
      obtain ⟨x, hx⟩ := exists_putOut_iff.mpr haccepts
      rw [settle_eq_ok_iff.mpr ⟨markdown, hproduces, hx⟩] at hsettle
      cases hsettle
    constructor
    · refine ⟨fun h => (by cases h), ?_⟩
      rintro ⟨markdown, hproduces, haccepts⟩
      exact absurd haccepts (hnone markdown hproduces)
    · exact fun markdown hproduces haccepts => absurd haccepts (hnone markdown hproduces)
    · exact fun markdown hproduces haccepts => absurd haccepts (hnone markdown hproduces)
    · exact fun _ => ⟨rfl, rfl⟩
    · exact fun _ => ⟨rfl, rfl, rfl⟩
  · obtain ⟨markdown, hproduces, hput⟩ := settle_eq_ok_iff.mp hsettle
    have haccepts := exists_putOut_iff.mp ⟨_, hput⟩
    have hdone := putOut_eq_ok_iff.mp hput
    constructor
    · exact ⟨fun _ => ⟨markdown, hproduces, haccepts⟩, fun _ => rfl⟩
    · intro markdown' hproduces' _ houtput
      obtain rfl := hproduces.unique hproduces'
      obtain ⟨-, -, rfl, rfl⟩ := hdone.resolve_right fun h => h.1 houtput
      exact ⟨rfl, rfl⟩
    · intro markdown' hproduces' _ houtput
      obtain rfl := hproduces.unique hproduces'
      obtain ⟨-, rfl, hemit⟩ := hdone.resolve_left fun h => houtput h.1
      obtain ⟨p, hcreate, hagree, hread⟩ := FileTree.agreeBut_of_emit hemit
      exact ⟨rfl, p, hcreate, hread, hagree.home.symm, fun q hq => (hagree.others q hq).symm,
        fun path hpath => hagree.toOption_read hpath⟩
    · exact fun hexit => absurd rfl hexit
    · rintro (hnone | ⟨houtput, hclosed⟩)
      · exact absurd hproduces (hnone markdown)
      · rw [Accepts, if_neg houtput] at haccepts
        obtain ⟨p, hcreate, -⟩ := haccepts
        exact absurd hcreate (hclosed p)

/-- Every run that is asked for a conversion does what it is bound to, however the command line arranges
the flags, and any other run ends with a help text or an error of usage and touches no file. -/
theorem run_converts (t : FileTree) (args : List String) (log : Option String) (full : Bool) :
    (∀ input output dump verbose, Arranged [input, output] dump verbose args →
      Converts t full input output (run t args log full)) ∧
    ((∀ input output dump verbose, ¬ Arranged [input, output] dump verbose args) →
      ((run t args log full).1.exit = 0 ∨ (run t args log full).1.exit = 2) ∧
        (run t args log full).2 = t) := by
  constructor
  · intro input output dump verbose h
    obtain ⟨more, hmore⟩ := run_of_arranged t full input output
    rw [hmore dump verbose args log h]
    exact leave_converts _ _ _
  · intro h
    simp only [run, System.perform]
    cases hrequest : Request.ofArguments args with
    | help =>
        simp only [System.run_bind, System.inMemory_print]
        cases print full helpText <;> exact ⟨.inl rfl, rfl⟩
    | misuse => exact ⟨.inr rfl, rfl⟩
    | convert o => exact absurd (Request.ofArguments_eq_convert_iff.mp hrequest) (h _ _ _ _)

/-- A file with the text of a tree, and all the flags among the paths. -/
theorem run_converts_file :
    let t := FileTree.fresh.put "in" "\x7b\"kind\":\"bold\",\"text\":\"x\"\x7d".toUTF8
    let args := ["--dump", "in", "-v", "out"]
    Arranged ["in", "out"] true true args ∧ Converts t false "in" "out" (run t args none false) ∧
      (run t args none false).1.exit = 0 := by
  intro t args
  have harranged : Arranged ["in", "out"] true true args :=
    .dump (.value (by decide) (.verbose (by decide) (.value (by decide) .nil)))
  refine ⟨harranged, ?_, by decide +kernel⟩
  exact (run_converts t args none false).1 "in" "out" true true harranged

end Treemark.Cli
