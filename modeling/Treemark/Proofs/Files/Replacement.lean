import Treemark.Proofs.Files.Emission

/-!
# Files written over

An emission opens its file, which empties the file or makes a new one, and then writes into it from the
start on. Behind it the file holds the text alone, whatever was there before and under whatever spelling of
the path it came there. Other paths are read as before, and where the file cannot be opened nothing changes.
-/

namespace Treemark.FileTree

variable {t u : FileTree} {p q : Position} {text path other : String} {content : ByteArray}

/-! ## Opening and writing in place -/

/-- Opens the file at a path to be written anew: from then on it exists and is empty. A device stays. -/
def openAnew (t : FileTree) (path : String) : Except FileError Position × FileTree :=
  match t.create path with
  | .error cause => (.error cause, t)
  | .ok p =>
    match t.find? p with
    | some .fullDevice => (.ok p, t)
    | _ => (.ok p, t.insert p (.file .empty))

/-- Writes bytes over the start of a file. What the file holds behind them stays. -/
def overwrite (t : FileTree) (p : Position) (content : ByteArray) : Except FileError Unit × FileTree :=
  match t.find? p with
  | some (.file old) => (.ok (), t.insert p (.file (content ++ old.extract content.size old.size)))
  | some .fullDevice => (if content.isEmpty then .ok () else .error .deviceFull, t)
  | some .directory => (.error .isDirectory, t)
  | none => (.error .notFound, t)

/-- Emits a text step by step, and gives the files as the last step that was taken left them. -/
def emitInPlace (t : FileTree) (text path : String) : Except SinkError Unit × FileTree :=
  match t.openAnew path with
  | (.error cause, t) => (.error (.cannotOpen path cause), t)
  | (.ok p, t) =>
    let (result, t) := t.overwrite p text.toUTF8
    (result.mapError (.cannotWrite path), t)

/-- Emits texts one after the other, each to its path, whatever comes of it. -/
def emitAll (t : FileTree) (emissions : List (String × String)) : FileTree :=
  emissions.foldl (fun t (text, path) => (t.emitInPlace text path).2) t

theorem insert_insert (t : FileTree) (p : Position) (e e' : Entry) :
    (t.insert p e).insert p e' = t.insert p e' := by
  simp [insert, List.filter_filter]

theorem isEmpty_toUTF8_iff : text.toUTF8.isEmpty = true ↔ text = "" := by
  rw [ByteArray.isEmpty, beq_iff_eq, ByteArray.size_eq_zero_iff]
  exact String.toByteArray_eq_empty_iff

theorem emitInPlace_of_refused {cause : FileError} (h : t.create path = .error cause) :
    t.emitInPlace text path = (.error (.cannotOpen path cause), t) := by
  simp only [emitInPlace, openAnew, h]

theorem emitInPlace_of_device (h : t.create path = .ok p) (hp : t.find? p = some .fullDevice) :
    t.emitInPlace text path =
      (if text = "" then .ok () else .error (.cannotWrite path .deviceFull), t) := by
  simp only [emitInPlace, openAnew, h, hp, overwrite, isEmpty_toUTF8_iff]
  split <;> rfl

/-- Nothing is left of the file by the time it is written, so the text is all it holds. -/
theorem emitInPlace_of_file (h : t.create path = .ok p) (hp : t.find? p ≠ some .fullDevice) :
    t.emitInPlace text path = (.ok (), t.insert p (.file text.toUTF8)) := by
  have hopen : t.openAnew path = (.ok p, t.insert p (.file .empty)) := by
    simp only [openAnew, h]
  have htail : ByteArray.empty.extract text.toUTF8.size ByteArray.empty.size = .empty :=
    ByteArray.extract_eq_empty_iff.mpr (by simp)
  simp only [emitInPlace, hopen, overwrite, find?_insert_self, htail, ByteArray.append_empty,
    insert_insert]
  rfl

/-- The sink comes to what opening and writing in place come to. -/
theorem emit_eq_emitInPlace (t : FileTree) (text path : String) :
    t.emit text path = (t.emitInPlace text path).1.map fun _ => (t.emitInPlace text path).2 := by
  unfold emit
  cases hcreate : t.create path with
  | error cause =>
      rw [emitInPlace_of_refused hcreate]
      rfl
  | ok p =>
      by_cases hp : t.find? p = some .fullDevice
      · simp only [emitInPlace_of_device hcreate hp, write, hp, isEmpty_toUTF8_iff]
        by_cases htext : text = ""
        · simp only [htext, ↓reduceIte]
          rfl
        · simp only [htext, ↓reduceIte]
          rfl
      · rw [emitInPlace_of_file hcreate hp]
        simp only [write_eq_ok_iff.mpr (.inr ⟨hp, rfl⟩)]
        rfl

/-- An emission that succeeds has opened a file, which holds the text now, and has touched nothing else. -/
theorem agreeBut_of_emitInPlace (h : (t.emitInPlace text path).1 = .ok ()) : ∃ p,
    t.create path = .ok p ∧ AgreeBut p t (t.emitInPlace text path).2 ∧
      (t.emitInPlace text path).2.read path = .ok text.toUTF8 := by
  have hemit : t.emit text path = .ok (t.emitInPlace text path).2 := by
    rw [emit_eq_emitInPlace, h]
    rfl
  exact agreeBut_of_emit hemit

/-- Where no file can be opened for an emission, nothing has changed by then. -/
theorem emitInPlace_eq_cannotOpen {destination : String} {cause : FileError}
    (h : (t.emitInPlace text path).1 = .error (.cannotOpen destination cause)) :
    destination = path ∧ t.create path = .error cause ∧ (t.emitInPlace text path).2 = t := by
  cases hcreate : t.create path with
  | error e =>
      rw [emitInPlace_of_refused hcreate] at h ⊢
      cases h
      exact ⟨rfl, rfl, rfl⟩
  | ok p =>
      by_cases hp : t.find? p = some .fullDevice
      · rw [emitInPlace_of_device hcreate hp] at h
        by_cases htext : text = "" <;> simp [htext] at h
      · rw [emitInPlace_of_file hcreate hp] at h
        cases h

theorem agreeBut_emitInPlace (text : String) (h : t.create path = .ok p) :
    AgreeBut p t (t.emitInPlace text path).2 := by
  obtain ⟨-, -, -, -, hdirectory⟩ := lookAt_of_create h
  by_cases hp : t.find? p = some .fullDevice
  · rw [emitInPlace_of_device h hp]
    exact .refl hdirectory
  · rw [emitInPlace_of_file h hp]
    exact .insert hdirectory _

/-! ## Emissions one after the other -/

/-- An emission to the same file before it makes no difference to an emission. -/
theorem emitInPlace_emitInPlace {text' path' : String} (h : t.create path = .ok p)
    (h' : t.create path' = .ok p) :
    (t.emitInPlace text' path').2.emitInPlace text path = t.emitInPlace text path := by
  by_cases hp : t.find? p = some .fullDevice
  · rw [emitInPlace_of_device h' hp]
  · have hcreate := (agreeBut_emitInPlace text' h').create h
    rw [emitInPlace_of_file h' hp] at hcreate ⊢
    rw [emitInPlace_of_file hcreate (by simp [find?_insert_self]), insert_insert,
      emitInPlace_of_file h hp]

theorem emitInPlace_emitAll {emissions : List (String × String)} (h : t.create path = .ok p)
    (hall : ∀ e ∈ emissions, t.create e.2 = .ok p) :
    (t.emitAll emissions).emitInPlace text path = t.emitInPlace text path := by
  induction emissions generalizing t with
  | nil => rfl
  | cons e emissions ih =>
      obtain ⟨text', path'⟩ := e
      have h' : t.create path' = .ok p := hall (text', path') List.mem_cons_self
      have hagree := agreeBut_emitInPlace text' h'
      have hrest : ∀ e ∈ emissions, (t.emitInPlace text' path').2.create e.2 = .ok p :=
        fun e he => hagree.create (hall e (List.mem_cons_of_mem _ he))
      calc (t.emitAll ((text', path') :: emissions)).emitInPlace text path
        _ = (t.emitInPlace text' path').2.emitInPlace text path := ih (hagree.create h) hrest
        _ = t.emitInPlace text path := emitInPlace_emitInPlace h h'

/-! ## What an emission leaves -/

/-- Two paths lead to the same file, or to the same place for one. -/
def SameFile (t : FileTree) (path other : String) : Prop :=
  ∃ p, t.create path = .ok p ∧ t.create other = .ok p

/-- A path that does not lead to a device. -/
def Ordinary (t : FileTree) (path : String) : Prop :=
  ∀ p, t.create path = .ok p → t.find? p ≠ some .fullDevice

/-- What an emission is bound to, given the files in front of it, what comes of it, and the files behind
it. -/
structure Replaces (t : FileTree) (text path : String) (r : Except SinkError Unit × FileTree) :
    Prop where
  /-- It succeeds just if the path leads to a file or to a place for one. -/
  success : t.Ordinary path → (r.1 = .ok () ↔ ∃ p, t.create path = .ok p)
  /-- The file holds the text alone. -/
  content : t.Ordinary path → r.1 = .ok () → r.2.read path = .ok text.toUTF8
  /-- A tree is loaded from the file as it is parsed from the text. -/
  tree : t.Ordinary path → r.1 = .ok () → r.2.load path = (Node.parse text).mapError .tree
  /-- Nothing is different at any other position. -/
  elsewhere : r.1 = .ok () → ∃ p, t.create path = .ok p ∧ AgreeBut p t r.2
  /-- Every path that does not lead to the file is read as before. -/
  others : r.1 = .ok () → ∀ other, ¬ t.SameFile path other →
    (r.2.read other).toOption = (t.read other).toOption
  /-- Even the reason why such a path cannot be read is the same, unless its way ended at nothing where it
  ends at a new file now. -/
  reasons : r.1 = .ok () → ∀ other, ¬ t.SameFile path other →
    r.2.read other = t.read other ∨ t.read path = .error .notFound ∧
      t.read other = .error .notFound ∧ r.2.read other = .error .notDirectory
  /-- Where the file cannot be opened, nothing is different at all. -/
  unopened : ∀ destination cause, r.1 = .error (.cannotOpen destination cause) →
    destination = path ∧ t.create path = .error cause ∧ r.2 = t
  /-- Emissions before it to the same file, under whatever spellings of its path, make no difference to what
  comes of it and to the files behind it. -/
  again : ∀ earlier : List (String × String), (∀ e ∈ earlier, t.SameFile path e.2) →
    (t.emitAll earlier).emitInPlace text path = r

theorem SameFile.create_eq (h : t.SameFile path other) (hcreate : t.create path = .ok p) :
    t.create other = .ok p := by
  obtain ⟨q, hpath, hother⟩ := h
  rw [hother, ← hpath, hcreate]

theorem emitInPlace_success_iff (hordinary : t.Ordinary path) :
    (t.emitInPlace text path).1 = .ok () ↔ ∃ p, t.create path = .ok p := by
  constructor
  · intro h
    obtain ⟨p, hcreate, -⟩ := agreeBut_of_emitInPlace h
    exact ⟨p, hcreate⟩
  · rintro ⟨p, hcreate⟩
    rw [emitInPlace_of_file hcreate (hordinary p hcreate)]

theorem decodeText_toUTF8 (text : String) : decodeText text.toUTF8 = .ok text := by
  have htext : text.toUTF8.IsValidUTF8 := text.isValidUTF8
  simp only [decodeText, String.fromUTF8?, dif_pos htext]
  rfl

theorem load_of_read (h : t.read path = .ok text.toUTF8) :
    t.load path = (Node.parse text).mapError .tree := by
  have hdecode : (Except.ok text.toUTF8 >>= decodeText) = .ok text := decodeText_toUTF8 text
  rw [load, loadTree, h, hdecode]

theorem read_of_missing (h : t.create path = .ok p) (hp : t.find? p = none) :
    t.read path = .error .notFound := by
  obtain ⟨l, hlocate, -, hlook, -⟩ := lookAt_of_create h
  simp only [FileTree.read, hlocate, hlook, hp]

theorem read_emitInPlace_of_not_sameFile (h : (t.emitInPlace text path).1 = .ok ())
    (hother : ¬ t.SameFile path other) :
    (t.emitInPlace text path).2.read other = t.read other ∨ t.read path = .error .notFound ∧
      t.read other = .error .notFound ∧
      (t.emitInPlace text path).2.read other = .error .notDirectory := by
  obtain ⟨p, hcreate, hagree, hread⟩ := agreeBut_of_emitInPlace h
  cases hagree.read fun hp => hother ⟨p, hcreate, hp⟩ with
  | same hsame => exact .inl hsame.symm
  | appeared hp hbefore hbehind => exact .inr ⟨read_of_missing hcreate hp, hbefore, hbehind⟩
  | vanished hp _ _ =>
      have hmissing := read_of_missing (hagree.create hcreate) hp
      rw [hread] at hmissing
      cases hmissing

theorem emitInPlace_of_sameFile {earlier : List (String × String)}
    (hearlier : ∀ e ∈ earlier, t.SameFile path e.2) :
    (t.emitAll earlier).emitInPlace text path = t.emitInPlace text path := by
  cases earlier with
  | nil => rfl
  | cons e earlier =>
      obtain ⟨p, hcreate, -⟩ := hearlier e List.mem_cons_self
      exact emitInPlace_emitAll hcreate fun e he => (hearlier e he).create_eq hcreate

/-- The sink comes to what opening the file and writing into it come to, and behind that the file holds the
text and nothing else is different. -/
theorem emit_replaces (t : FileTree) (text path : String) :
    t.emit text path =
        (t.emitInPlace text path).1.map (fun _ => (t.emitInPlace text path).2) ∧
      Replaces t text path (t.emitInPlace text path) := by
  refine ⟨emit_eq_emitInPlace t text path, ?_⟩
  constructor
  case success => exact emitInPlace_success_iff
  case content =>
    intro _ h
    obtain ⟨_, _, _, hread⟩ := agreeBut_of_emitInPlace h
    exact hread
  case tree =>
    intro _ h
    obtain ⟨_, _, _, hread⟩ := agreeBut_of_emitInPlace h
    exact load_of_read hread
  case elsewhere =>
    intro h
    obtain ⟨p, hcreate, hagree, -⟩ := agreeBut_of_emitInPlace h
    exact ⟨p, hcreate, hagree⟩
  case others =>
    intro h other hother
    obtain ⟨p, hcreate, hagree, -⟩ := agreeBut_of_emitInPlace h
    exact hagree.toOption_read fun hp => hother ⟨p, hcreate, hp⟩
  case reasons => exact fun h _ hother => read_emitInPlace_of_not_sameFile h hother
  case unopened => exact fun _ _ h => emitInPlace_eq_cannotOpen h
  case again => exact fun _ hearlier => emitInPlace_of_sameFile hearlier

/-- A longer file is written over under another spelling of its path; what lies behind it is another path. -/
theorem emit_replaces_respelled :
    let t := (fresh.makeDirectories "d").put "out" "older and longer".toUTF8
    let r := t.emitInPlace "\x7b\"kind\":\"bold\"\x7d" "d/../out"
    t.Ordinary "d/../out" ∧ t.SameFile "d/../out" "out" ∧ ¬ t.SameFile "d/../out" "out/x" ∧
      r.1 = .ok () ∧ Replaces t "\x7b\"kind\":\"bold\"\x7d" "d/../out" r := by
  intro t r
  have hcreate : t.create "d/../out" = .ok ["work", "out"] := rfl
  have hother : t.create "out" = .ok ["work", "out"] := rfl
  have hbehind : t.create "out/x" = .error .notDirectory := rfl
  have hreplaces := (emit_replaces t "\x7b\"kind\":\"bold\"\x7d" "d/../out").2
  have hordinary : t.Ordinary "d/../out" := by
    intro p hp hdevice
    rw [hcreate] at hp
    cases hp
    have hfile : t.find? ["work", "out"] = some (.file "older and longer".toUTF8) := rfl
    rw [hfile] at hdevice
    cases hdevice
  refine ⟨hordinary, ⟨_, hcreate, hother⟩, ?_, ?_, hreplaces⟩
  · rintro ⟨p, -, hp⟩
    rw [hbehind] at hp
    cases hp
  · exact (hreplaces.success hordinary).mpr ⟨_, hcreate⟩

end Treemark.FileTree
