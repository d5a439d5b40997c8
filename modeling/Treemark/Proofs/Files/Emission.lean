import Treemark.Files.Tree

/-!
# What writing a file changes

A file that is written holds what was written, and nothing else is different: not what stands at other
positions, and not what other paths are read as. The position of the file was none of a directory before,
so no path goes through it.
-/

namespace Treemark.FileTree

/-- The trees differ at one position at most, and neither has a directory there. -/
structure AgreeBut (p : Position) (t u : FileTree) : Prop where
  home : t.home = u.home
  others : ∀ q, q ≠ p → t.find? q = u.find? q
  left : t.find? p ≠ some .directory
  right : u.find? p ≠ some .directory

variable {t u : FileTree} {p q : Position} {path : String} {l : Located} {content : ByteArray}

/-! ## Looking up paths -/

theorem look_eq_ok_iff {dir : Position} {name : String} {e : Option Entry} :
    t.look dir name = .ok e ↔
      isDots name = true ∧ e = some .directory ∨
      isDots name = false ∧ name.utf8ByteSize ≤ FilePath.maxNameBytes ∧ e = t.find? (child dir name) := by
  unfold look
  by_cases hdots : isDots name = true
  · simp [hdots, eq_comm (a := e)]
  · by_cases hname : FilePath.maxNameBytes < name.utf8ByteSize
    · simp [hdots, hname, Nat.not_le.mpr hname]
    · simp [hdots, hname, Nat.le_of_not_lt hname, eq_comm (a := e)]

/-- A file is created at the end of a path that does not lead to a directory. -/
theorem create_eq_ok_iff : t.create path = .ok p ↔ ∃ l e, t.locate path = .ok l ∧ l.slash = false ∧
    t.lookAt l = .ok e ∧ e ≠ some .directory ∧ p = child l.directory l.name := by
  unfold create
  constructor
  · intro h
    split at h
    · cases h
    · rename_i l hl
      split at h
      · cases h
      · rename_i hslash
        split at h
        · cases h
        · cases h
        · rename_i e he hlook
          cases h
          exact ⟨l, e, hl, eq_false_of_ne_true hslash, hlook, by simpa using he, rfl⟩
  · rintro ⟨l, e, hl, hslash, hlook, he, rfl⟩
    simp only [hl, hslash, Bool.false_eq_true, ↓reduceIte, hlook]

theorem read_eq_ok_iff : t.read path = .ok content ↔ ∃ l, t.locate path = .ok l ∧ l.slash = false ∧
    (t.lookAt l = .ok (some (.file content)) ∨
      t.lookAt l = .ok (some .fullDevice) ∧ content = .empty) := by
  unfold read
  constructor
  · intro h
    split at h
    · cases h
    · rename_i l hl
      split at h
      · cases h
      · cases h
      · cases h
      · rename_i hlook
        split at h
        · cases h
        · rename_i hslash
          cases h
          exact ⟨l, hl, eq_false_of_ne_true hslash, .inl hlook⟩
      · rename_i hlook
        split at h
        · cases h
        · rename_i hslash
          cases h
          exact ⟨l, hl, eq_false_of_ne_true hslash, .inr ⟨hlook, rfl⟩⟩
  · rintro ⟨l, hl, hslash, hlook | ⟨hlook, rfl⟩⟩
    · simp [hl, hslash, hlook]
    · simp [hl, hslash, hlook]

/-- What is found at a path for a file is found there by its position. -/
theorem lookAt_of_create (h : t.create path = .ok p) : ∃ l, t.locate path = .ok l ∧ l.slash = false ∧
    t.lookAt l = .ok (t.find? p) ∧ t.find? p ≠ some .directory := by
  obtain ⟨l, e, hlocate, hslash, hlook, he, rfl⟩ := create_eq_ok_iff.mp h
  rcases look_eq_ok_iff.mp hlook with ⟨-, rfl⟩ | ⟨-, -, rfl⟩
  · exact absurd rfl he
  · exact ⟨l, hlocate, hslash, hlook, he⟩

/-! ## Paths in two trees -/

/-- What comes of a path that goes on behind a position where no directory is. -/
def Blocked {α : Type} (t : FileTree) (p : Position) (x : Except FileError α) : Prop :=
  t.find? p = none ∧ x = .error .notFound ∨ t.find? p ≠ none ∧ x = .error .notDirectory

theorem walk_blocked {dir : Position} {name : String} (names : List String)
    (hp : t.find? p ≠ some .directory) (hlook : t.look dir name = .ok (t.find? p)) :
    Blocked t p (t.walk dir (name :: names)) := by
  rw [FileTree.walk, hlook]
  rcases hfind : t.find? p with - | - | content | -
  · exact .inl ⟨hfind, rfl⟩
  · exact absurd hfind hp
  · exact .inr ⟨by simp [hfind], rfl⟩
  · exact .inr ⟨by simp [hfind], rfl⟩

theorem read_blocked (hp : t.find? p ≠ some .directory) (hlocate : t.locate path = .ok l)
    (hslash : l.slash = true) (hlook : t.lookAt l = .ok (t.find? p)) : Blocked t p (t.read path) := by
  simp only [FileTree.read, hlocate, hlook, hslash, ↓reduceIte]
  rcases hfind : t.find? p with - | - | content | -
  · exact .inl ⟨hfind, rfl⟩
  · exact absurd hfind hp
  · exact .inr ⟨by simp [hfind], rfl⟩
  · exact .inr ⟨by simp [hfind], rfl⟩

/-- What comes of a path in one tree and in another is the same, unless the path goes on behind a position
where a file is in only one of them. -/
inductive Alike {α : Type} (p : Position) (t u : FileTree) (x y : Except FileError α) : Prop where
  | same (h : x = y)
  | appeared (h : t.find? p = none) (hx : x = .error .notFound) (hy : y = .error .notDirectory)
  | vanished (h : u.find? p = none) (hx : x = .error .notDirectory) (hy : y = .error .notFound)

namespace Alike

variable {α : Type} {x y : Except FileError α}

theorem of_blocked (hx : Blocked t p x) (hy : Blocked u p y) : Alike p t u x y := by
  rcases hx with ⟨ht, rfl⟩ | ⟨-, rfl⟩ <;> rcases hy with ⟨hu, rfl⟩ | ⟨-, rfl⟩
  · exact .same rfl
  · exact .appeared ht rfl rfl
  · exact .vanished hu rfl rfl
  · exact .same rfl

theorem eq_ok {a : α} (h : Alike p t u x y) (hx : x = .ok a) : y = .ok a := by
  cases h with
  | same h => rw [← h, hx]
  | appeared _ h _ => cases hx.symm.trans h
  | vanished _ h _ => cases hx.symm.trans h

theorem toOption_eq (h : Alike p t u x y) : y.toOption = x.toOption := by
  cases h with
  | same h => rw [h]
  | appeared _ hx hy => rw [hx, hy]; rfl
  | vanished _ hx hy => rw [hx, hy]; rfl

end Alike

namespace AgreeBut

theorem refl (h : t.find? p ≠ some .directory) : AgreeBut p t t := ⟨rfl, fun _ _ => rfl, h, h⟩

/-- A name is looked up alike, unless it leads to the position. -/
theorem look (h : AgreeBut p t u) (dir : Position) (name : String) :
    t.look dir name = u.look dir name ∨ child dir name = p ∧
      t.look dir name = .ok (t.find? p) ∧ u.look dir name = .ok (u.find? p) := by
  unfold FileTree.look
  by_cases hdots : isDots name = true
  · simp [hdots]
  by_cases hname : FilePath.maxNameBytes < name.utf8ByteSize
  · simp [hdots, hname]
  by_cases hchild : child dir name = p
  · simp [hdots, hname, hchild]
  · simp [hdots, hname, h.others _ hchild]

theorem walk (h : AgreeBut p t u) (dir : Position) (names : List String) :
    Alike p t u (t.walk dir names) (u.walk dir names) := by
  induction names generalizing dir with
  | nil => exact .same rfl
  | cons name names ih =>
      rcases h.look dir name with hsame | ⟨-, ht, hu⟩
      · simp only [FileTree.walk, hsame]
        split
        · exact .same rfl
        · exact .same rfl
        · exact ih _
        · exact .same rfl
      · exact .of_blocked (walk_blocked names h.left ht) (walk_blocked names h.right hu)

theorem locate (h : AgreeBut p t u) (path : String) :
    Alike p t u (t.locate path) (u.locate path) := by
  unfold FileTree.locate
  split
  · exact .same rfl
  · rename_i path _
    have hstart : u.start path = t.start path := by rw [start, start, h.home]
    rw [hstart]
    cases h.walk (t.start path) path.names.dropLast with
    | same hwalk => exact .same (by rw [hwalk])
    | appeared hp ht hu => exact .appeared hp (by rw [ht]) (by rw [hu])
    | vanished hp ht hu => exact .vanished hp (by rw [ht]) (by rw [hu])

theorem create (h : AgreeBut p t u) (hcreate : t.create path = .ok q) : u.create path = .ok q := by
  obtain ⟨l, e, hlocate, hslash, hlook, he, rfl⟩ := create_eq_ok_iff.mp hcreate
  have hlocate' := (h.locate path).eq_ok hlocate
  rcases h.look l.directory l.name with hsame | ⟨-, -, hu⟩
  · exact create_eq_ok_iff.mpr ⟨l, e, hlocate', hslash, hsame.symm.trans hlook, he, rfl⟩
  · exact create_eq_ok_iff.mpr ⟨l, _, hlocate', hslash, hu, h.right, rfl⟩

/-- Paths that do not lead to the position are read alike. -/
theorem read (h : AgreeBut p t u) (hcreate : t.create path ≠ .ok p) :
    Alike p t u (t.read path) (u.read path) := by
  cases h.locate path with
  | same hlocate =>
      cases hl : t.locate path with
      | error e => exact .same (by rw [FileTree.read, FileTree.read, ← hlocate, hl])
      | ok l =>
          have hl' := hlocate ▸ hl
          rcases h.look l.directory l.name with hsame | ⟨hchild, ht, hu⟩
          · exact .same (by simp only [FileTree.read, hl, hl', lookAt, hsame])
          · -- only a slash behind the name keeps the path from leading to the position
            cases hslash : l.slash with
            | false =>
                have hp : t.create path = .ok p :=
                  create_eq_ok_iff.mpr ⟨l, _, hl, hslash, ht, h.left, hchild.symm⟩
                exact absurd hp hcreate
            | true =>
                exact .of_blocked (read_blocked h.left hl hslash ht)
                  (read_blocked h.right hl' hslash hu)
  | appeared hp ht hu => exact .appeared hp (by rw [FileTree.read, ht]) (by rw [FileTree.read, hu])
  | vanished hp ht hu => exact .vanished hp (by rw [FileTree.read, ht]) (by rw [FileTree.read, hu])

theorem toOption_read (h : AgreeBut p t u) (hcreate : t.create path ≠ .ok p) :
    (u.read path).toOption = (t.read path).toOption := (h.read hcreate).toOption_eq

end AgreeBut

/-! ## Writing -/

theorem find?_insert_self (t : FileTree) (p : Position) (e : Entry) : (t.insert p e).find? p = some e := by
  simp [insert, find?]

theorem find?_insert_of_ne (t : FileTree) (e : Entry) (h : q ≠ p) :
    (t.insert p e).find? q = t.find? q := by
  have hq : (q == p) = false := beq_false_of_ne h
  have hfilter : (t.entries.filter fun x => x.1 ≠ p).lookup q = t.entries.lookup q := by
    induction t.entries with
    | nil => rfl
    | cons x entries ih =>
        obtain ⟨r, e⟩ := x
        by_cases hr : r = p
        · subst hr
          simpa [List.lookup_cons, hq] using ih
        · rw [List.filter_cons_of_pos (by simpa using hr), List.lookup_cons, List.lookup_cons, ih]
  simpa [insert, find?, List.lookup_cons, hq] using hfilter

theorem write_eq_ok_iff : t.write p content = .ok u ↔
    t.find? p = some .fullDevice ∧ content = .empty ∧ u = t ∨
    t.find? p ≠ some .fullDevice ∧ u = t.insert p (.file content) := by
  unfold write
  split
  · rename_i hdevice
    have hempty : content.isEmpty = true ↔ content = .empty := by
      rw [ByteArray.isEmpty, beq_iff_eq, ByteArray.size_eq_zero_iff]
    split <;> simp_all [eq_comm (a := u)]
  · simp_all [eq_comm (a := u)]

theorem AgreeBut.insert (h : t.find? p ≠ some .directory) (content : ByteArray) :
    AgreeBut p t (t.insert p (.file content)) where
  home := rfl
  others q hq := (find?_insert_of_ne t _ hq).symm
  left := h
  right := by simp [find?_insert_self]

/-- A text is written if a file may be created for it, and on a full device only if it is empty. -/
theorem emit_ok_iff {text : String} : (∃ u, t.emit text path = .ok u) ↔
    ∃ p, t.create path = .ok p ∧ (t.find? p = some .fullDevice → text = "") := by
  have hempty : text.toUTF8 = .empty ↔ text = "" := String.toByteArray_eq_empty_iff
  unfold emit
  cases t.create path with
  | error e => simp
  | ok p =>
      have hwrite : (∃ u, t.write p text.toUTF8 = .ok u) ↔ (t.find? p = some .fullDevice → text = "") := by
        simp only [write_eq_ok_iff, hempty]
        by_cases hdevice : t.find? p = some .fullDevice <;> simp [hdevice]
      simp only [Except.ok.injEq, exists_eq_left', ← hwrite]
      cases t.write p text.toUTF8 <;> simp

theorem agreeBut_of_emit {text : String} (h : t.emit text path = .ok u) : ∃ p,
    t.create path = .ok p ∧ AgreeBut p t u ∧ u.read path = .ok text.toUTF8 := by
  unfold emit at h
  split at h
  · cases h
  · rename_i p hcreate
    split at h
    · cases h
    · rename_i u' hwrite
      cases h
      obtain ⟨l, hlocate, hslash, hlook, hdirectory⟩ := lookAt_of_create hcreate
      rcases write_eq_ok_iff.mp hwrite with ⟨hdevice, htext, rfl⟩ | ⟨-, rfl⟩
      · rw [hdevice] at hlook
        exact ⟨p, hcreate, .refl hdirectory,
          read_eq_ok_iff.mpr ⟨l, hlocate, hslash, .inr ⟨hlook, htext⟩⟩⟩
      · have hagree : AgreeBut p t (t.insert p (.file text.toUTF8)) := .insert hdirectory _
        obtain ⟨l, hlocate, hslash, hlook, -⟩ := lookAt_of_create (hagree.create hcreate)
        rw [find?_insert_self] at hlook
        exact ⟨p, hcreate, hagree, read_eq_ok_iff.mpr ⟨l, hlocate, hslash, .inl hlook⟩⟩

end Treemark.FileTree
