import SwapCodec.Proofs.Settings.Library
import SwapCodec.Settings.Source
import Mathlib.Data.List.Perm.Subperm

/-!
# Lines of files

A file that names a parent extends it, a file that names none stands alone, and anything else that
a path can lead to breaks off (`FileTree.Extends`, `FileTree.StandsAlone`, `FileTree.Breaks`,
`FileTree.extends_or_standsAlone_or_breaks`). What is above a file is found from one file to the
next, without a bound and without looking back (`FileTree.Line`).

A path without steps back leads to the file at that very place or to none
(`FileTree.mem_places_of_document`). So the files that have led to a path are never more than
there are, and every line ends (`FileTree.exists_line`).

Where a line goes on depends on nothing but the path, so there is only one line to a path that
extends no other (`FileTree.Line.unique`), and it never meets a file twice
(`FileTree.Line.nodup`).
-/

set_option autoImplicit false

namespace SwapCodec

/-! ## Paths without steps back -/

namespace Path

theorem backStep_notMem_walk {place more : List String} (forward : backStep ∉ place) :
    backStep ∉ walk place more := by
  induction more generalizing place with
  | nil => exact forward
  | cons step more ih =>
      rw [walk]
      apply ih
      split
      · exact fun mem => forward (List.dropLast_subset _ mem)
      · rename_i other
        intro mem
        rcases List.mem_append.mp mem with mem | mem
        · exact forward mem
        · exact other (beq_iff_eq.mpr (List.mem_singleton.mp mem).symm)

/-- No step of a path without steps back leads back. -/
theorem backStep_notMem_resolved (p : Path) : backStep ∉ p.resolved.steps :=
  backStep_notMem_walk List.not_mem_nil

end Path

namespace FileTree

variable {t : FileTree} {root : Option Path} {p q next top : Path}
  {own base entries : t.library.Entries} {line : List (Path × t.library.Entries)}
  {seen : List Path} {bound : Nat} {e : Error}

/-! ## Files at a place -/

/-- The places of the files. -/
def places (t : FileTree) : List Path := t.files.map (·.1)

theorem length_places : t.places.length = t.files.length := List.length_map _

/-- Steps that do not lead back are taken one behind the other. -/
theorem eq_of_follow {place more last : List String} (forward : backStep ∉ more)
    (found : t.follow place more = .ok (some last)) : last = place ++ more := by
  induction more generalizing place with
  | nil =>
      cases found
      rw [List.append_nil]
  | cons step more ih =>
      have onward : (step == backStep) = false :=
        beq_eq_false_iff_ne.mpr fun same => forward (same ▸ List.mem_cons_self)
      rw [follow] at found
      split at found
      · split at found
        · exact absurd found fail_ne_ok
        · rw [onward] at found
          rw [ih (fun mem => forward (List.mem_cons_of_mem _ mem)) found]
          simp
      · cases found

/-- The text of a file is found where its path has been followed to. -/
theorem exists_follow_of_contents {text : String} (held : t.contents p = .ok (some text)) :
    ∃ last, t.follow [] p.steps = .ok (some last) ∧ ⟨last⟩ ∈ t.places := by
  rw [contents] at held
  split at held
  · cases held
  split at held
  · exact absurd held fail_ne_ok
  obtain ⟨place, followed, found⟩ := Except.map_eq_ok_iff.mp held
  obtain ⟨last, rfl, found⟩ := Option.bind_eq_some_iff.mp found
  obtain ⟨file, found, -⟩ := Option.map_eq_some_iff.mp found
  have there := List.find?_some found
  rw [beq_iff_eq] at there
  exact ⟨last, followed, there ▸ List.mem_map_of_mem (List.mem_of_find?_eq_some found)⟩

theorem exists_contents_of_document (read : t.document p = .ok entries) :
    ∃ text, t.contents p = .ok (some text) := by
  obtain ⟨contents, held, read⟩ := Except.bind_eq_ok_iff.mp read
  cases contents with
  | none => exact absurd read fail_ne_ok
  | some text => exact ⟨text, held⟩

/-- A document of a path without steps back is that of the file at that place. -/
theorem mem_places_of_document (read : t.document p.resolved = .ok entries) :
    p.resolved ∈ t.places := by
  obtain ⟨text, held⟩ := exists_contents_of_document read
  obtain ⟨last, followed, there⟩ := exists_follow_of_contents held
  rwa [eq_of_follow p.backStep_notMem_resolved followed] at there

/-! ## What a path leads to -/

/-- The file at a path names a parent: the entries of the file itself, and the path of the
parent. -/
inductive Extends (t : FileTree) (root : Option Path) (p : Path) :
    t.library.Entries → Path → Prop where
  | named {entries : t.library.Entries} {v : t.library.Item} {name : String} {next : Path}
    (nameable : p.isNameable = true) (read : t.document p.resolved = .ok entries)
    (given : t.library.valueAt? t.extendsKey entries = some v)
    (truthy : t.library.isTruthy v = true) (spelled : t.library.text v = .ok name)
    (placed : t.parentPath root p.resolved name = .ok next) :
    Extends t root p (t.library.dropEntry t.extendsKey entries) next

/-- The file at a path names no parent: the entries of the file. -/
inductive StandsAlone (t : FileTree) (p : Path) : t.library.Entries → Prop where
  | alone {entries : t.library.Entries} (nameable : p.isNameable = true)
    (read : t.document p.resolved = .ok entries)
    (unnamed : ∀ v, t.library.valueAt? t.extendsKey entries = some v →
      t.library.isTruthy v = false) :
    StandsAlone t p (t.library.dropEntry t.extendsKey entries)

/-- A path leads no further: it cannot be named, there is no dictionary to be read, or no path of a
parent can be made of its entries. -/
inductive Breaks (t : FileTree) (root : Option Path) (p : Path) : Error → Prop where
  | unnameable (unnameable : p.isNameable = false) : Breaks t root p (.fault .value)
  | unread {e : Error} (nameable : p.isNameable = true)
    (unread : t.document p.resolved = .error e) : Breaks t root p e
  | unspelled {e : Error} {entries : t.library.Entries} {v : t.library.Item}
    (nameable : p.isNameable = true) (read : t.document p.resolved = .ok entries)
    (given : t.library.valueAt? t.extendsKey entries = some v)
    (truthy : t.library.isTruthy v = true) (unspelled : t.library.text v = .error e) :
    Breaks t root p e
  | unplaced {e : Error} {entries : t.library.Entries} {v : t.library.Item} {name : String}
    (nameable : p.isNameable = true) (read : t.document p.resolved = .ok entries)
    (given : t.library.valueAt? t.extendsKey entries = some v)
    (truthy : t.library.isTruthy v = true) (spelled : t.library.text v = .ok name)
    (unplaced : t.parentPath root p.resolved name = .error e) : Breaks t root p e

/-- A path extends no other one. -/
def IsLast (t : FileTree) (root : Option Path) (p : Path) : Prop :=
  ∀ own next, ¬ t.Extends root p own next

theorem Extends.mem_places (h : t.Extends root p own next) : p.resolved ∈ t.places := by
  obtain ⟨-, read, -⟩ := h
  exact mem_places_of_document read

/-- What a file extends depends on nothing but its place. -/
theorem Extends.unique {other : t.library.Entries} {last : Path} (h : t.Extends root p own next)
    (h' : t.Extends root q other last) (same : p.resolved = q.resolved) :
    own = other ∧ next = last := by
  obtain ⟨-, read, given, -, spelled, placed⟩ := h
  obtain ⟨-, read', given', -, spelled', placed'⟩ := h'
  rw [← same] at read' placed'
  cases read.symm.trans read'
  cases given.symm.trans given'
  cases spelled.symm.trans spelled'
  cases placed.symm.trans placed'
  exact ⟨rfl, rfl⟩

theorem Extends.not_standsAlone (h : t.Extends root p own next) (same : p.resolved = q.resolved) :
    ¬ t.StandsAlone q base := by
  obtain ⟨-, read, given, truthy, -⟩ := h
  rintro ⟨-, read', unnamed⟩
  rw [← same] at read'
  cases read.symm.trans read'
  rw [unnamed _ given] at truthy
  cases truthy

/-- A path that can be named does not break off where another one goes on. -/
theorem Extends.not_breaks (h : t.Extends root p own next) (same : p.resolved = q.resolved)
    (nameable : q.isNameable = true) : ¬ t.Breaks root q e := by
  obtain ⟨-, read, given, truthy, spelled, placed⟩ := h
  intro broken
  cases broken with
  | unnameable unnameable => cases nameable.symm.trans unnameable
  | unread _ unread => cases (same ▸ read).symm.trans unread
  | unspelled _ read' given' _ unspelled =>
      cases (same ▸ read).symm.trans read'
      cases given.symm.trans given'
      cases spelled.symm.trans unspelled
  | unplaced _ read' given' _ spelled' unplaced =>
      cases (same ▸ read).symm.trans read'
      cases given.symm.trans given'
      cases spelled.symm.trans spelled'
      cases (same ▸ placed).symm.trans unplaced

theorem StandsAlone.isLast (h : t.StandsAlone p base) : t.IsLast root p :=
  fun _ _ first => first.not_standsAlone rfl h

theorem Breaks.isLast (h : t.Breaks root p e) : t.IsLast root p := by
  intro own next first
  have nameable : p.isNameable = true := by
    obtain ⟨nameable, -⟩ := first
    exact nameable
  exact first.not_breaks rfl nameable h

/-! ## Names that are too long -/

/-- The file system refuses to follow a path. -/
def IsTooLong (t : FileTree) (p : Path) : Prop :=
  p.isNameable = true ∧ ∃ e, t.contents p.resolved = .error e

/-- The file at a path names a parent by a relative path whose first step is longer than the file
system allows. -/
def NamesTooLong (t : FileTree) (p : Path) : Prop :=
  p.isNameable = true ∧ ∃ entries v name step more, t.document p.resolved = .ok entries ∧
    t.library.valueAt? t.extendsKey entries = some v ∧ t.library.isTruthy v = true ∧
    t.library.text v = .ok name ∧ name.startsWith "/" = false ∧
    (p.resolved.parent.join name).isNameable = true ∧ Path.stepsOf name = step :: more ∧
    t.nameLimit < step.utf8ByteSize

theorem follow_eq_error {place more : List String} (h : t.follow place more = .error e) :
    e = .fault .system := by
  induction more generalizing place with
  | nil => cases h
  | cons step more ih =>
      rw [follow] at h
      split at h
      · split at h
        · cases h
          rfl
        · exact ih h
      · cases h

/-- A path is refused by nothing but the file system. -/
theorem contents_eq_error (h : t.contents p = .error e) : e = .fault .system := by
  rw [contents] at h
  split at h
  · cases h
  split at h
  · cases h
    rfl
  · cases followed : t.follow [] p.steps with
    | error e' =>
        rw [followed] at h
        cases h
        exact follow_eq_error followed
    | ok place =>
        rw [followed] at h
        cases h

theorem IsTooLong.breaks (h : t.IsTooLong p) (root : Option Path) :
    t.Breaks root p (.fault .system) := by
  obtain ⟨nameable, e, refused⟩ := h
  refine .unread nameable ?_
  rw [document, refused, contents_eq_error refused]
  rfl

theorem follow_append {place more rest last : List String}
    (h : t.follow place more = .ok (some last)) :
    t.follow place (more ++ rest) = t.follow last rest := by
  induction more generalizing place with
  | nil =>
      cases h
      rfl
  | cons step more ih =>
      rw [follow] at h
      rw [List.cons_append, follow]
      split at h
      · split at h
        · exact absurd h fail_ne_ok
        · rename_i inside short
          rw [if_pos inside, if_neg short, ih h]
      · cases h

/-- Before a step is taken there is a directory. -/
theorem exists_directory_of_follow {place more last : List String} {step : String}
    (h : t.follow place (more ++ [step]) = .ok (some last)) :
    ∃ there, t.follow place more = .ok (some there) ∧ t.isDirectory there = true := by
  induction more generalizing place with
  | nil =>
      refine ⟨place, rfl, ?_⟩
      rw [List.nil_append, follow] at h
      split at h
      · assumption
      · cases h
  | cons first more ih =>
      rw [List.cons_append, follow] at h
      rw [follow]
      split at h
      · split at h
        · exact absurd h fail_ne_ok
        · rename_i inside short
          rw [if_pos inside, if_neg short]
          exact ih h
      · cases h

/-- A document lies in a directory. -/
theorem exists_directory_of_document (read : t.document p.resolved = .ok entries) :
    ∃ there, t.follow [] p.resolved.parent.steps = .ok (some there) ∧
      t.isDirectory there = true := by
  obtain ⟨text, held⟩ := exists_contents_of_document read
  obtain ⟨last, followed, -⟩ := exists_follow_of_contents held
  rw [Path.parent]
  rcases List.eq_nil_or_concat' p.resolved.steps with none | ⟨init, step, steps⟩
  · rw [none]
    exact ⟨[], rfl, rfl⟩
  · rw [steps] at followed ⊢
    rw [List.dropLast_concat]
    exact exists_directory_of_follow followed

theorem NamesTooLong.breaks (h : t.NamesTooLong p) (root : Option Path) :
    t.Breaks root p (.fault .system) := by
  obtain ⟨nameable, entries, v, name, step, more, read, given, truthy, spelled, relative, named,
    steps, long⟩ := h
  refine .unplaced nameable read given truthy spelled ?_
  obtain ⟨there, followed, inside⟩ := exists_directory_of_document read
  have beside : (p.resolved.parent.join name).steps = p.resolved.parent.steps ++ step :: more := by
    rw [Path.join, relative, if_neg Bool.false_ne_true, steps]
  have refused : t.contents (p.resolved.parent.join name) = .error (.fault .system) := by
    rw [contents, named, Bool.not_true, if_neg Bool.false_ne_true]
    split
    · rfl
    · rw [beside, follow_append followed, follow, if_pos inside, if_pos long]
      rfl
  simp only [parentPath, isFile, refused, Except.map]

/-! ## Lines -/

/-- Files from a path up to another one, each of which extends the next: their places and their
own entries. -/
inductive Line (t : FileTree) (root : Option Path) :
    Path → List (Path × t.library.Entries) → Path → Prop where
  | here (p : Path) : Line t root p [] p
  | up {p next top : Path} {own : t.library.Entries} {line : List (Path × t.library.Entries)}
    (first : t.Extends root p own next) (rest : Line t root next line top) :
    Line t root p ((p.resolved, own) :: line) top

/-- Files that have led to a path are not more than there are. -/
theorem length_le_of_subset (distinct : seen.Nodup) (inside : seen ⊆ t.places) :
    seen.length ≤ t.files.length :=
  length_places (t := t) ▸ (distinct.subperm inside).length_le

namespace Line

/-- There is one line to a path that extends no other. -/
theorem unique {top' : Path} {line' : List (Path × t.library.Entries)}
    (h : t.Line root p line top) (last : t.IsLast root top) (h' : t.Line root p line' top')
    (last' : t.IsLast root top') : line = line' ∧ top = top' := by
  induction h generalizing line' with
  | here p =>
      cases h' with
      | here => exact ⟨rfl, rfl⟩
      | up first => exact absurd first (last _ _)
  | up first _ ih =>
      cases h' with
      | here => exact absurd first (last' _ _)
      | up first' rest' =>
          obtain ⟨rfl, rfl⟩ := first.unique first' rfl
          obtain ⟨rfl, rfl⟩ := ih last rest'
          exact ⟨rfl, rfl⟩

/-- Above a file of a line there is the rest of the line. -/
theorem exists_of_mem (h : t.Line root p line top) (mem : q ∈ line.map (·.1)) :
    ∃ m own next above, m.resolved = q ∧ t.Extends root m own next ∧ t.Line root next above top ∧
      above.length < line.length := by
  induction h with
  | here p => cases mem
  | @up p next top own line first rest ih =>
      rcases List.mem_cons.mp mem with rfl | mem
      · exact ⟨p, own, next, line, rfl, first, rest, Nat.lt_succ_self _⟩
      · obtain ⟨m, own, next, above, same, onward, further, short⟩ := ih mem
        exact ⟨m, own, next, above, same, onward, further, Nat.lt_succ_of_lt short⟩

/-- A line to a path that extends no other meets no file twice. -/
theorem nodup (h : t.Line root p line top) (last : t.IsLast root top) :
    (line.map (·.1)).Nodup := by
  induction h with
  | here p => exact List.nodup_nil
  | @up p next top own line first rest ih =>
      refine List.nodup_cons.mpr ⟨fun mem => ?_, ih last⟩
      -- Were the place met again, what is above it there would be all that is above it here.
      obtain ⟨m, own', next', above, same, onward, further, short⟩ := rest.exists_of_mem mem
      obtain ⟨-, rfl⟩ := first.unique onward same.symm
      obtain ⟨rfl, -⟩ := rest.unique last further last
      exact Nat.lt_irrefl _ short

theorem subset_places (h : t.Line root p line top) : line.map (·.1) ⊆ t.places := by
  induction h with
  | here p => exact List.nil_subset _
  | up first _ ih => exact List.cons_subset.mpr ⟨first.mem_places, ih⟩

end Line

/-! ## Values of files -/

/-- The values of a file are finitely many. -/
theorem holdsFinitely_of_document (read : t.document p = .ok entries) :
    ∀ e ∈ entries, HoldsFinitely t.library.entries? e.2 := by
  obtain ⟨contents, -, read⟩ := Except.bind_eq_ok_iff.mp read
  cases contents with
  | none => exact absurd read fail_ne_ok
  | some text =>
      obtain ⟨v, known, read⟩ := Except.bind_eq_ok_iff.mp read
      have finite : HoldsFinitely t.library.entries? v := t.library.finite known
      cases inside : t.library.document? v with
      | none =>
          rw [inside] at read
          exact absurd read fail_ne_ok
      | some own =>
          rw [inside] at read
          cases read
          rw [Library.document?] at inside
          split at inside
          · cases inside
            exact List.forall_mem_nil _
          · exact fun e mem => Library.IsIn.holdsFinitely ⟨_, inside, e, mem, rfl⟩ finite

theorem Extends.holdsFinitely (h : t.Extends root p own next) :
    ∀ e ∈ own, HoldsFinitely t.library.entries? e.2 := by
  obtain ⟨-, read, -⟩ := h
  exact fun e mem => holdsFinitely_of_document read e (List.mem_of_mem_filter mem)

end FileTree

end SwapCodec
