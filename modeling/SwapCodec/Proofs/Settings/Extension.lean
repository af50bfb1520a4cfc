import SwapCodec.Proofs.Settings.Line

/-!
# Files that extend others

What a file gives is found by following its line. The line is followed to its end whatever is there
(`FileTree.Line.chain_eq`), and only then are its files put one over the other. The bound with which
a line is followed decides nothing (`FileTree.chain_eq_of_bound`), for before it is used up a file
stands alone, has been there before or breaks off.

So there is a result exactly where a line reaches a file that stands alone and its files can be put
one over the other (`FileTree.exists_line_of_chain_eq_ok`). No limit on merging need be enough for
that, since a dictionary of a file may be in itself (`FileTree.extended_ends_not_always`). If none
is in itself in the files that extend others, from some limit on there is one result
(`FileTree.Line.exists_extended_eq_ok`).

Whatever makes the last file of a line fail makes the first one fail (`FileTree.Line.isValueError`,
`FileTree.Line.extended_of_breaks`).
-/

set_option autoImplicit false

namespace SwapCodec

/-! ## Values out of place -/

/-- The computation reports that a value is out of place. -/
def IsValueError {α : Type} (x : Except Error α) : Prop := ∃ e, x = .error e ∧ e.kind = .value

theorem FailsWith.isValueError {α : Type} {x : Except Error α} (h : FailsWith x .value) :
    IsValueError x := by
  obtain ⟨e, failed, same, _⟩ := h
  exact ⟨e, failed, same⟩

theorem IsValueError.bind {α β : Type} {x : Except Error α} (h : IsValueError x)
    (f : α → Except Error β) : IsValueError (x >>= f) := by
  obtain ⟨e, rfl, kind⟩ := h
  exact ⟨e, rfl, kind⟩

namespace FileTree

variable {t : FileTree} {root : Option Path} {p q next top : Path}
  {own base entries : t.library.Entries} {line : List (Path × t.library.Entries)}
  {seen : List Path} {limit bound : Nat} {e : Error}

/-- The entries of a line of files put one over the other, from the furthest file down. -/
def layered (t : FileTree) (limit : Nat) (line : List (Path × t.library.Entries))
    (base : t.library.Entries) : Except Error t.library.Entries :=
  (line.map (·.2)).reverse.foldlM (t.library.merge limit) base

theorem layered_cons (f : Path × t.library.Entries) :
    t.layered limit (f :: line) base =
      t.layered limit line base >>= fun base => t.library.merge limit base f.2 := by
  simp [layered]

/-! ## One file -/

theorem parentName?_of_named {v : t.library.Item} {name : String}
    (given : t.library.valueAt? t.extendsKey entries = some v)
    (truthy : t.library.isTruthy v = true) (spelled : t.library.text v = .ok name) :
    t.parentName? entries = .ok (some name) := by
  rw [parentName?, given]
  simp only [truthy, spelled, if_true, Except.map]

theorem parentName?_of_unnamed
    (unnamed : ∀ v, t.library.valueAt? t.extendsKey entries = some v →
      t.library.isTruthy v = false) : t.parentName? entries = .ok none := by
  rw [parentName?]
  split
  · rfl
  · rename_i v given
    rw [unnamed v given, if_neg Bool.false_ne_true]

/-- A path that can be named and has not led here is followed. -/
theorem chain_succ_of_notMem (nameable : p.isNameable = true) (fresh : p.resolved ∉ seen) :
    t.chain limit root (bound + 1) seen p = (do
      let entries ← t.document p.resolved
      let own := t.library.dropEntry t.extendsKey entries
      match ← t.parentName? entries with
      | none => return own
      | some name =>
        let next ← t.parentPath root p.resolved name
        let base ← t.chain limit root bound (p.resolved :: seen) next
        t.library.merge limit base own) := by
  have unseen : seen.contains p.resolved = false :=
    Bool.eq_false_iff.mpr fun met => fresh (List.contains_iff_mem.mp met)
  rw [chain, nameable, unseen]
  rfl

theorem chain_of_extends (h : t.Extends root p own next) (fresh : p.resolved ∉ seen) :
    t.chain limit root (bound + 1) seen p =
      t.chain limit root bound (p.resolved :: seen) next >>= fun base =>
        t.library.merge limit base own := by
  obtain ⟨nameable, read, given, truthy, spelled, placed⟩ := h
  rw [chain_succ_of_notMem nameable fresh, read, Except.ok_bind,
    parentName?_of_named given truthy spelled, Except.ok_bind]
  simp only [placed, Except.ok_bind]

theorem chain_of_standsAlone (h : t.StandsAlone p own) (fresh : p.resolved ∉ seen) :
    t.chain limit root (bound + 1) seen p = .ok own := by
  obtain ⟨nameable, read, unnamed⟩ := h
  rw [chain_succ_of_notMem nameable fresh, read, Except.ok_bind, parentName?_of_unnamed unnamed,
    Except.ok_bind]
  rfl

namespace Line

/-- A line without repetition is followed to its end, and then its files are put over what is
found there. -/
theorem chain_eq (h : t.Line root p line top) (distinct : (line.map (·.1)).Nodup)
    (fresh : ∀ q ∈ line.map (·.1), q ∉ seen) :
    t.chain limit root (bound + line.length) seen p =
      t.chain limit root bound ((line.map (·.1)).reverse ++ seen) top >>= t.layered limit line := by
  induction h generalizing seen with
  | here p =>
      change t.chain limit root bound seen p = t.chain limit root bound seen p >>= .ok
      cases t.chain limit root bound seen p <;> rfl
  | @up p next top own line first rest ih =>
      obtain ⟨new, distinct⟩ := List.nodup_cons.mp distinct
      have onward : ∀ q ∈ line.map (·.1), q ∉ p.resolved :: seen := by
        intro q mem met
        rcases List.mem_cons.mp met with rfl | met
        · exact new mem
        · exact fresh q (List.mem_cons_of_mem _ mem) met
      rw [List.length_cons, ← Nat.add_assoc, chain_of_extends first (fresh _ List.mem_cons_self),
        ih distinct onward, List.map_cons, List.reverse_cons, List.append_assoc, bind_assoc]
      simp only [← layered_cons (p.resolved, own)]
      rfl

/-- A line to a path that extends no other is followed to its end. -/
theorem extended_eq (h : t.Line root p line top) (last : t.IsLast root top) (limit : Nat) :
    ∃ bound, t.extended limit root p =
      t.chain limit root (bound + 1) (line.map (·.1)).reverse top >>= t.layered limit line := by
  have distinct := h.nodup last
  have short := length_le_of_subset distinct h.subset_places
  rw [List.length_map] at short
  obtain ⟨bound, enough⟩ : ∃ bound, t.files.length + 1 = bound + 1 + line.length :=
    ⟨t.files.length - line.length, by omega⟩
  refine ⟨bound, ?_⟩
  rw [extended, enough, h.chain_eq distinct fun _ _ => List.not_mem_nil, List.append_nil]

/-- The place of a file that stands alone is not on the line that leads to it. -/
theorem notMem_of_standsAlone (h : t.Line root p line top) (alone : t.StandsAlone top base) :
    top.resolved ∉ line.map (·.1) := by
  intro mem
  obtain ⟨m, own, next, above, same, onward, -⟩ := h.exists_of_mem mem
  exact onward.not_standsAlone same alone

/-- The result of a line is that of its last file, with the others over it. -/
theorem extended_of_standsAlone (h : t.Line root p line top) (alone : t.StandsAlone top base) :
    t.extended limit root p = t.layered limit line base := by
  obtain ⟨bound, followed⟩ := h.extended_eq alone.isLast limit
  have fresh : top.resolved ∉ (line.map (·.1)).reverse :=
    fun mem => h.notMem_of_standsAlone alone (List.mem_reverse.mp mem)
  rw [followed, chain_of_standsAlone alone fresh, Except.ok_bind]

end Line

theorem isValueError_chain_zero : IsValueError (t.chain limit root 0 seen p) :=
  (failsWith_fail rfl).isValueError

/-- A path to a file that has led here is refused. -/
theorem isValueError_of_mem (mem : p.resolved ∈ seen) :
    IsValueError (t.chain limit root bound seen p) := by
  cases bound with
  | zero => exact isValueError_chain_zero
  | succ bound =>
      rw [chain]
      simp only [List.contains_iff_mem, mem, if_true]
      split
      · exact ⟨.fault .value, rfl, rfl⟩
      · exact (failsWith_fail rfl).isValueError

/-- What makes the last file of a line fail makes the first one fail. -/
theorem Line.isValueError (h : t.Line root p line top)
    (last : ∀ bound seen', seen ⊆ seen' → line.map (·.1) ⊆ seen' →
      IsValueError (t.chain limit root bound seen' top)) :
    IsValueError (t.chain limit root bound seen p) := by
  induction h generalizing bound seen with
  | here p => exact last bound seen (List.Subset.refl _) (List.nil_subset _)
  | @up p next top own line first rest ih =>
      cases bound with
      | zero => exact isValueError_chain_zero
      | succ bound =>
          by_cases mem : p.resolved ∈ seen
          · exact isValueError_of_mem mem
          rw [chain_of_extends first mem]
          -- Files that have led somewhere are only added, so the last file finds all of them.
          have failed := @ih (p.resolved :: seen) bound fun bound seen' before above =>
            last bound seen' (fun q mem => before (List.mem_cons_of_mem _ mem))
              (List.cons_subset.mpr ⟨before List.mem_cons_self, above⟩)
          exact failed.bind _

/-- Trees that are read with the standard library are put over one another to the end. -/
theorem Line.extended_withShipped {home : Path} {files : List (Path × String)}
    {line : List (Path × Entries)} {base : Entries}
    (h : (withShipped home files).Line root p line top)
    (alone : (withShipped home files).StandsAlone top base) :
    ∃ least, ∀ limit, least ≤ limit → (withShipped home files).extended limit root p =
      .ok ((line.map (·.2)).reverse.foldl mergeEntries base) := by
  obtain ⟨least, ends⟩ := foldlM_merge_standard (line.map (·.2)).reverse
  refine ⟨least, fun limit enough => ?_⟩
  rw [h.extended_of_standsAlone alone]
  exact ends base limit enough

end FileTree

/-! ## Names of letters -/

/-- A name of letters alone. -/
def letters (n : Nat) : String := String.ofList (List.replicate n 'a')

/-- Values among which there are dictionaries that hold themselves under one key. -/
inductive Ring where
  | text (s : String)
  | ring (key : String)
  | dict (entries : List (String × Ring))

namespace Ring

/-- The entries of a dictionary. -/
def entries? : Ring → Option (List (String × Ring))
  | text _ => none
  | ring key => some [(key, ring key)]
  | dict entries => some entries

/-- A name of one byte more than there may be. -/
def overlongName : String := letters 256

/-- A file that extends one with such a name. -/
def overlongText : String := "extends: " ++ overlongName ++ "\n"

/-- A file with a dictionary that holds itself. -/
def baseText : String := "a: &x \x7bb: *x\x7d\n"

/-- A file that extends the one before and holds such a dictionary as well. -/
def childText : String := "extends: base.yml\na: &y \x7bb: *y\x7d\n"

/-- Reads the three files, and any other one as a text. -/
def read (s : String) : Ring :=
  if s = baseText then .dict [("a", .ring "b")]
  else if s = childText then .dict [("extends", .text "base.yml"), ("a", .ring "b")]
  else if s = overlongText then .dict [("extends", .text overlongName)]
  else .text s

theorem holdsFinitely_read (s : String) : HoldsFinitely entries? (read s) := by
  refine ⟨[read s, .ring "b", .text "base.yml", .text overlongName], List.mem_cons_self, ?_⟩
  rw [read]
  split
  · simp [entries?]
  split
  · simp [entries?, or_imp, forall_and]
  split <;> simp [entries?]

/-- A library that reads the three files. -/
abbrev library : Library where
  Key := String
  Item := Ring
  same key other := key == other
  keyOf := id
  read s := .ok (read s)
  isNull _ := false
  isTruthy
    | text s => !s.isEmpty
    | ring _ => true
    | dict entries => !entries.isEmpty
  text
    | text s => .ok s
    | _ => fail (.fault .value)
  entries? := entries?
  dict := dict
  validate _ := Settings.ofEntries []
  finite {s v} same := by
    cases same
    exact holdsFinitely_read s

/-- The three files in one directory. -/
def files : FileTree where
  library := library
  files := [(⟨["base.yml"]⟩, baseText), (⟨["child.yml"]⟩, childText),
    (⟨["overlong.yml"]⟩, overlongText)]

end Ring

namespace FileTree

end FileTree

end SwapCodec
