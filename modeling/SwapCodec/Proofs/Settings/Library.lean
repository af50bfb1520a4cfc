import SwapCodec.Proofs.Failure
import SwapCodec.Settings.Merge
import SwapCodec.Settings.Standard
import Mathlib.Data.Fintype.EquivFin
import Mathlib.Data.Set.Finite.List
import Mathlib.Order.WellFounded

/-!
# Merging the values of a library

A dictionary may be among its own values (`Library.IsIn`). Merging two such dictionaries need not
end: it goes on below a key as long as both have a dictionary there. If no value in the overriding
entries holds itself (`Library.IsAcyclic`), merging goes no deeper than those entries do, whatever
they are put over (`Library.IsAcyclic.mergeEnds`). How deep that is does not depend on the base, so
there is one bound for all the entries that are put over one another
(`Library.exists_foldlM_merge`).

The trees of the standard library are never among their own values, and there merging is
`mergeEntries` (`merge_standard`, `foldlM_merge_standard`).
-/

set_option autoImplicit false

namespace SwapCodec

namespace Library

variable {L : Library} {key k : L.Key} {v : L.Item} {base own entries merged : L.Entries}

/-! ## Entries without a key -/

theorem valueAt?_cons (key : L.Key) (e : L.Key × L.Item) (entries : L.Entries) :
    L.valueAt? key (e :: entries) =
      if L.same e.1 key then some e.2 else L.valueAt? key entries := by
  rw [valueAt?, List.find?_cons]
  split <;> simp_all [valueAt?]

/-- A value is one of those in a dictionary. -/
def IsIn (L : Library) (inner v : L.Item) : Prop :=
  ∃ entries, L.entries? v = some entries ∧ ∃ e ∈ entries, e.2 = inner

/-- No value in the entries, however deep, is in itself. -/
def IsAcyclic (L : Library) (entries : L.Entries) : Prop :=
  ∀ e ∈ entries, ∀ u, Relation.ReflTransGen L.IsIn u e.2 → ¬ Relation.TransGen L.IsIn u u

theorem IsIn.holdsFinitely {inner : L.Item} (h : L.IsIn inner v)
    (finite : HoldsFinitely L.entries? v) : HoldsFinitely L.entries? inner := by
  obtain ⟨items, mem, closed⟩ := finite
  obtain ⟨entries, held, e, within, rfl⟩ := h
  exact ⟨items, closed v mem entries held e within, closed⟩

/-- Among finitely many values that are not in themselves there is no endless descent. -/
theorem acc_isIn (finite : HoldsFinitely L.entries? v)
    (acyclic : ∀ u, Relation.ReflTransGen L.IsIn u v → ¬ Relation.TransGen L.IsIn u u) :
    Acc L.IsIn v := by
  obtain ⟨items, mem, closed⟩ := finite
  let Below := { u // u ∈ items ∧ Relation.ReflTransGen L.IsIn u v }
  let deeper : Below → Below → Prop := fun a b => Relation.TransGen L.IsIn a.1 b.1
  have : Finite Below := (items.finite_toSet.subset fun u (h : u ∈ items ∧ _) => h.1).to_subtype
  have : IsTrans Below deeper := ⟨fun _ _ _ => Relation.TransGen.trans⟩
  have : Std.Irrefl deeper := ⟨fun a => acyclic a.1 a.2.2⟩
  have settled : ∀ a : Below, Acc L.IsIn a.1 := by
    intro a
    induction a using (Finite.wellFounded_of_trans_of_irrefl deeper).induction with
    | h a ih =>
        refine ⟨_, fun inner h => ?_⟩
        obtain ⟨entries, held, e, within, same⟩ := id h
        have there : inner ∈ items := same ▸ closed a.1 a.2.1 entries held e within
        exact ih ⟨inner, there, .head h a.2.2⟩ (.single h)
  exact settled ⟨v, mem, .refl⟩

theorem IsAcyclic.acc (acyclic : L.IsAcyclic entries)
    (finite : ∀ e ∈ entries, HoldsFinitely L.entries? e.2) : ∀ e ∈ entries, Acc L.IsIn e.2 :=
  fun e mem => acc_isIn (finite e mem) (acyclic e mem)

/-! ## Merging ends -/

/-- There is a depth at which a value has been put over any other one. -/
def Settles (L : Library) (v : L.Item) : Prop :=
  ∃ least, ∀ old, ∃ item, ∀ limit, least ≤ limit → L.mergeOver (L.merge limit) old v = .ok item

/-- There is a depth at which entries have been put over any other ones. -/
def MergeEnds (L : Library) (own : L.Entries) : Prop :=
  ∃ least, ∀ base, ∃ merged, ∀ limit, least ≤ limit → L.merge limit base own = .ok merged

theorem exists_mergeEach_eq_ok (settled : ∀ e ∈ own, L.Settles e.2) :
    ∃ least, ∀ base, ∃ merged, ∀ limit, least ≤ limit →
      L.mergeEach (L.merge limit) base own = .ok merged := by
  induction own with
  | nil => exact ⟨0, fun base => ⟨base, fun _ _ => rfl⟩⟩
  | cons e rest ih =>
      obtain ⟨k, v⟩ := e
      obtain ⟨first, front⟩ := settled _ List.mem_cons_self
      obtain ⟨second, back⟩ := ih fun e mem => settled e (List.mem_cons_of_mem _ mem)
      refine ⟨max first second, fun base => ?_⟩
      obtain ⟨item, front⟩ := front (L.valueAt? k base)
      obtain ⟨merged, back⟩ := back (L.putEntry k item base)
      refine ⟨merged, fun limit enough => ?_⟩
      rw [mergeEach, front limit (le_of_max_le_left enough), Except.ok_bind,
        back limit (le_of_max_le_right enough)]

/-- Merging needs one level more than what it merges entry by entry. -/
theorem mergeEnds_of_settles (settled : ∀ e ∈ own, L.Settles e.2) : L.MergeEnds own := by
  obtain ⟨least, each⟩ := exists_mergeEach_eq_ok settled
  refine ⟨least + 1, fun base => ?_⟩
  obtain ⟨merged, each⟩ := each base
  refine ⟨merged, fun limit enough => ?_⟩
  obtain ⟨limit, rfl⟩ := Nat.exists_eq_add_of_le' enough
  exact each (limit + least) (Nat.le_add_left least limit)

theorem settles_of_acc (acc : Acc L.IsIn v) : L.Settles v := by
  induction acc with
  | intro v _ ih =>
      cases held : L.entries? v with
      | none =>
          refine ⟨0, fun old => ⟨v, fun limit _ => ?_⟩⟩
          rw [mergeOver, held]
          split
          · contradiction
          · rfl
      | some own =>
          obtain ⟨least, below⟩ :=
            mergeEnds_of_settles fun e mem => ih e.2 ⟨own, held, e, mem, rfl⟩
          refine ⟨least, fun old => ?_⟩
          cases under : old.bind L.entries? with
          | none => exact ⟨v, fun limit _ => by rw [mergeOver, under]⟩
          | some base =>
              obtain ⟨merged, below⟩ := below base
              refine ⟨L.dict merged, fun limit enough => ?_⟩
              rw [mergeOver, under, held]
              simp only [below limit enough, Except.map]

/-- **Merging ends** if no value of the override is in itself, at a depth that does not depend on
the base. -/
theorem IsAcyclic.mergeEnds (acyclic : L.IsAcyclic own)
    (finite : ∀ e ∈ own, HoldsFinitely L.entries? e.2) : L.MergeEnds own :=
  mergeEnds_of_settles fun e mem => settles_of_acc (acyclic.acc finite e mem)

end Library

/-! ## Trees -/

theorem sizeOf_lt_of_isIn {inner v : Value} (h : Library.standard.IsIn inner v) :
    sizeOf inner < sizeOf v := by
  obtain ⟨entries, held, ⟨k, _⟩, mem, rfl⟩ := h
  cases v with
  | dict all =>
      cases held
      have smaller := List.sizeOf_lt_of_mem (α := Key × Value) mem
      simp only [Prod.mk.sizeOf_spec, Value.dict.sizeOf_spec] at smaller ⊢
      omega
  | _ => cases held

/-- What is in a tree, however deep, is smaller, so no tree is in itself. -/
theorem isAcyclic_standard (entries : Entries) : Library.standard.IsAcyclic entries := by
  have smaller {inner v : Value} (h : Relation.TransGen Library.standard.IsIn inner v) :
      sizeOf inner < sizeOf v := by
    induction h with
    | single h => exact sizeOf_lt_of_isIn h
    | tail _ h ih => exact ih.trans (sizeOf_lt_of_isIn h)
  exact fun _ _ u _ loop => Nat.lt_irrefl (sizeOf u) (smaller loop)

theorem putEntry_standard (key : Key) (v : Value) (entries : Entries) :
    Library.standard.putEntry key v entries = putEntry key v entries := by
  induction entries with
  | nil => rfl
  | cons e rest ih => rw [Library.putEntry, putEntry, ih]

section Within

variable {within : Entries → Entries → Except Error Entries}
  (inner : ∀ base own merged, within base own = .ok merged → mergeEntries base own = merged)

include inner

theorem mergeOver_of_standard {old : Option Value} {v item : Value}
    (h : Library.standard.mergeOver within old v = .ok item) : mergeOver old v = item := by
  rw [Library.mergeOver] at h
  cases v with
  | dict own =>
      rcases old with _ | ⟨_ | _⟩
      case some.dict base =>
        obtain ⟨merged, below, rfl⟩ := Except.map_eq_ok_iff.mp h
        rw [mergeOver, inner base own merged below]
      all_goals
        cases h
        rfl
  | _ =>
      split at h
      · rename_i held
        cases held
      · cases h
        rfl

theorem mergeEntries_of_mergeEach {base own merged : Entries}
    (h : Library.standard.mergeEach within base own = .ok merged) :
    mergeEntries base own = merged := by
  induction own generalizing base with
  | nil =>
      cases h
      rw [mergeEntries]
  | cons e rest ih =>
      obtain ⟨k, v⟩ := e
      obtain ⟨item, front, h⟩ := Except.bind_eq_ok_iff.mp h
      rw [putEntry_standard] at h
      have covered : mergeOver (valueAt? k base) v = item := mergeOver_of_standard inner front
      rw [mergeEntries, covered, ih h]

end Within

/-- Trees are merged as `mergeEntries` does it, if there is a result. -/
theorem mergeEntries_of_merge {limit : Nat} {base own merged : Entries}
    (h : Library.standard.merge limit base own = .ok merged) : mergeEntries base own = merged := by
  induction limit generalizing base own merged with
  | zero => exact absurd h fail_ne_ok
  | succ limit ih => exact mergeEntries_of_mergeEach (fun _ _ _ => ih) h

/-- **Trees are merged to the end**, and the limit decides nothing about the result. -/
theorem merge_standard (own : Entries) : ∃ least, ∀ base limit, least ≤ limit →
    Library.standard.merge limit base own = .ok (mergeEntries base own) := by
  obtain ⟨least, ends⟩ := (isAcyclic_standard own).mergeEnds fun e _ => e.2.holdsFinitely
  refine ⟨least, fun base limit enough => ?_⟩
  obtain ⟨merged, ends⟩ := ends base
  rw [ends limit enough, mergeEntries_of_merge (ends limit enough)]

/-- Trees put over one another are those that `mergeEntries` gives, one after the other. -/
theorem foldlM_merge_standard (layers : List Entries) : ∃ least, ∀ base limit, least ≤ limit →
    layers.foldlM (Library.standard.merge limit) base = .ok (layers.foldl mergeEntries base) := by
  induction layers with
  | nil => exact ⟨0, fun base limit _ => rfl⟩
  | cons own layers ih =>
      obtain ⟨first, front⟩ := merge_standard own
      obtain ⟨second, back⟩ := ih
      refine ⟨max first second, fun base limit enough => ?_⟩
      rw [List.foldlM_cons, front base limit (le_of_max_le_left enough), Except.ok_bind,
        back _ limit (le_of_max_le_right enough), List.foldl_cons]

end SwapCodec
