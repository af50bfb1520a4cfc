import SwapCodec.Proofs.Layout.Packing
import SwapCodec.Settings.Merge

/-!
# Dictionaries put over one another

A tree is a dictionary whose keys are texts, no two of them the same, and in which every
dictionary is a tree (`IsTree`). Such a dictionary is determined by its keys in their order and by
the value of each key (`TextKeyed.ext`).

Merging is described by the same two things. The keys of the base keep their places, and the other
keys of the override come behind them (`keysOf_mergeEntries`). The value of a key depends on the
two values that it had (`valueAt?_mergeEntries`, `overlaid`). So a law of merging comes down to one
about the values of a single key, and the dictionaries among these are smaller.

Merging a tree with itself changes nothing, and three trees may be grouped either way, provided
that no path of keys leads to a dictionary in front and behind but to a value of another kind in
the middle (`Regroupable`). Where two of the three are the same tree this is always so, and
therefore merging with a tree that has been merged changes nothing either (`merging_regrouped`).
-/

set_option autoImplicit false

namespace SwapCodec

variable {a b c base entries first own second : Entries} {k : Key} {name : String} {v : Value}

/-! ## Dictionaries whose keys are texts -/

theorem Key.same_str_iff : k.same (.str name) = true ↔ k = .str name := by
  cases k with
  | str other => simp [same_str]
  | float x =>
      have unlike : (Key.float x == .str name) = false := by simp
      rw [same]
      split <;> simp_all [asInt?]
  | _ => simp [same, asInt?]

/-- The keys of a dictionary, in their order. -/
def keysOf (entries : Entries) : List Key := entries.map (·.1)

/-- The keys are texts, and no two of them are the same. -/
structure TextKeyed (entries : Entries) : Prop where
  texts : ∀ k ∈ keysOf entries, ∃ name, k = .str name
  distinct : (keysOf entries).Nodup

theorem valueAt?_str_cons (name : String) (e : Key × Value) (entries : Entries) :
    valueAt? (.str name) (e :: entries) =
      if e.1 = .str name then some e.2 else valueAt? (.str name) entries := by
  simp only [valueAt?_cons, Key.same_str_iff]

theorem valueAt?_eq_none_of_notMem (fresh : .str name ∉ keysOf entries) :
    valueAt? (.str name) entries = none := by
  induction entries with
  | nil => rfl
  | cons e entries ih =>
      rw [keysOf, List.map_cons, List.mem_cons, not_or] at fresh
      rw [valueAt?_str_cons, if_neg (Ne.symm fresh.1), ih fresh.2]

theorem mem_of_valueAt? (found : valueAt? (.str name) entries = some v) :
    (.str name, v) ∈ entries := by
  induction entries with
  | nil => cases found
  | cons e entries ih =>
      rw [valueAt?_str_cons] at found
      split at found
      · rename_i here
        cases found
        exact here ▸ List.mem_cons_self
      · exact List.mem_cons_of_mem e (ih found)

namespace TextKeyed

theorem cons_iff {e : Key × Value} :
    TextKeyed (e :: entries) ↔
      (∃ name, e.1 = .str name) ∧ e.1 ∉ keysOf entries ∧ TextKeyed entries := by
  constructor
  · rintro ⟨texts, distinct⟩
    obtain ⟨fresh, distinct⟩ := List.nodup_cons.mp distinct
    obtain ⟨text, texts⟩ := List.forall_mem_cons.mp texts
    exact ⟨text, fresh, texts, distinct⟩
  · rintro ⟨text, fresh, texts, distinct⟩
    exact ⟨List.forall_mem_cons.mpr ⟨text, texts⟩, List.nodup_cons.mpr ⟨fresh, distinct⟩⟩

theorem valueAt?_of_mem {e : Key × Value} (keyed : TextKeyed entries) (mem : e ∈ entries) :
    valueAt? e.1 entries = some e.2 := by
  induction entries with
  | nil => cases mem
  | cons f entries ih =>
      obtain ⟨_, fresh, keyed⟩ := cons_iff.mp keyed
      rcases List.mem_cons.mp mem with rfl | later
      · obtain ⟨name, text⟩ := ‹∃ name, e.1 = .str name›
        rw [text, valueAt?_str_cons, if_pos text]
      · obtain ⟨name, text⟩ := keyed.texts e.1 (List.mem_map_of_mem later)
        have other : f.1 ≠ .str name := fun same =>
          fresh (same ▸ text ▸ List.mem_map_of_mem later)
        rw [← ih keyed later, text, valueAt?_str_cons, if_neg other]

/-- The entries are made of the keys and their values. -/
theorem filterMap_keysOf (keyed : TextKeyed entries) :
    (keysOf entries).filterMap (fun k => (valueAt? k entries).map (k, ·)) = entries := by
  rw [keysOf, List.filterMap_map, List.filterMap_congr (g := some), List.filterMap_some]
  intro e mem
  simp only [Function.comp_apply, keyed.valueAt?_of_mem mem, Option.map_some]

theorem ext (keyed : TextKeyed first) (keys : keysOf first = keysOf second)
    (values : ∀ name, valueAt? (.str name) first = valueAt? (.str name) second) :
    first = second := by
  have other : TextKeyed second := ⟨keys ▸ keyed.texts, keys ▸ keyed.distinct⟩
  rw [← keyed.filterMap_keysOf, ← other.filterMap_keysOf, keys]
  refine List.filterMap_congr fun k mem => ?_
  obtain ⟨name, rfl⟩ := other.texts k mem
  rw [values]

end TextKeyed

/-! ## Values put over one another -/

/-- The value of a key where one dictionary is put over another, from the two values that the
key had: dictionaries are merged, and any other new value replaces the old one. -/
def overlaid : Option Value → Option Value → Option Value
  | some (.dict base), some (.dict own) => some (.dict (mergeEntries base own))
  | _, some v => some v
  | old, none => old

theorem mergeOver_dict (base own : Entries) :
    mergeOver (some (.dict base)) (.dict own) = .dict (mergeEntries base own) := rfl

/-- Where the old value is no dictionary, it is replaced. -/
theorem mergeOver_of_old {old : Option Value} (other : ∀ base, old ≠ some (.dict base))
    (v : Value) : mergeOver old v = v := by
  cases v with
  | dict own =>
      rw [mergeOver]
      intro base same
      exact other base same
  | _ => rfl

/-- Where the new value is no dictionary, it replaces the old one. -/
theorem mergeOver_of_new (other : ∀ own, v ≠ .dict own) (old : Option Value) :
    mergeOver old v = v := by
  cases v with
  | dict own => exact absurd rfl (other own)
  | _ => rfl

theorem overlaid_none (old : Option Value) : overlaid old none = old := by
  cases old with
  | none => rfl
  | some v => cases v <;> rfl

theorem overlaid_some (old : Option Value) (v : Value) :
    overlaid old (some v) = some (mergeOver old v) := by
  by_cases new : ∃ own, v = .dict own
  · obtain ⟨own, rfl⟩ := new
    by_cases front : ∃ base, old = some (.dict base)
    · obtain ⟨base, rfl⟩ := front
      rfl
    · rw [mergeOver_of_old (not_exists.mp front), overlaid]
      exact fun base _ same _ => front ⟨base, same⟩
  · rw [mergeOver_of_new (not_exists.mp new), overlaid]
    exact fun _ own _ same => new ⟨own, same⟩

/-! ## Keys and values of a merged dictionary -/

theorem keysOf_putEntry (name : String) (v : Value) (entries : Entries) :
    keysOf (putEntry (.str name) v entries) =
      if .str name ∈ keysOf entries then keysOf entries else keysOf entries ++ [.str name] := by
  induction entries with
  | nil => rfl
  | cons e entries ih =>
      simp only [putEntry, Key.same_str_iff]
      by_cases here : e.1 = .str name
      · rw [if_pos here, if_pos (here ▸ List.mem_cons_self)]
        rfl
      · have there : .str name ∈ keysOf (e :: entries) ↔ .str name ∈ keysOf entries := by
          simp [keysOf, Ne.symm here]
        rw [if_neg here, keysOf, List.map_cons]
        change e.1 :: keysOf (putEntry (.str name) v entries) = _
        simp only [there, ih]
        split <;> rfl

theorem valueAt?_putEntry (name other : String) (v : Value) (entries : Entries) :
    valueAt? (.str other) (putEntry (.str name) v entries) =
      if name = other then some v else valueAt? (.str other) entries := by
  induction entries with
  | nil =>
      rw [putEntry, valueAt?_str_cons]
      simp only [Key.str.injEq]
  | cons e entries ih =>
      simp only [putEntry, Key.same_str_iff]
      by_cases here : e.1 = .str name
      · rw [if_pos here, valueAt?_str_cons, valueAt?_str_cons]
        simp only [here, Key.str.injEq]
        split <;> rfl
      · rw [if_neg here, valueAt?_str_cons, valueAt?_str_cons, ih]
        by_cases same : name = other
        · subst same
          rw [if_neg here, if_pos rfl, if_pos rfl]
        · rw [if_neg same, if_neg same]

/-- **Values.** The value of a key depends on its two old values alone. -/
theorem valueAt?_mergeEntries (keyed : TextKeyed own) (base : Entries) (name : String) :
    valueAt? (.str name) (mergeEntries base own) =
      overlaid (valueAt? (.str name) base) (valueAt? (.str name) own) := by
  induction own generalizing base with
  | nil => exact (overlaid_none _).symm
  | cons e own ih =>
      obtain ⟨⟨key, text⟩, fresh, others⟩ := TextKeyed.cons_iff.mp keyed
      obtain ⟨k, v⟩ := e
      subst text
      rw [mergeEntries, ih others, valueAt?_putEntry, valueAt?_str_cons]
      simp only [Key.str.injEq]
      by_cases same : key = name
      · subst same
        rw [if_pos rfl, if_pos rfl, valueAt?_eq_none_of_notMem fresh, overlaid_none, overlaid_some]
      · rw [if_neg same, if_neg same]

/-- **Keys.** The keys of the base keep their places, and new keys come behind them. -/
theorem keysOf_mergeEntries (keyed : TextKeyed own) (base : Entries) :
    keysOf (mergeEntries base own) =
      keysOf base ++ (keysOf own).filter (· ∉ keysOf base) := by
  induction own generalizing base with
  | nil => rw [mergeEntries, keysOf, keysOf, List.map_nil, List.filter_nil, List.append_nil]
  | cons e own ih =>
      obtain ⟨⟨key, text⟩, fresh, others⟩ := TextKeyed.cons_iff.mp keyed
      obtain ⟨k, v⟩ := e
      subst text
      rw [mergeEntries, ih others, keysOf_putEntry]
      change _ = _ ++ (Key.str key :: keysOf own).filter (· ∉ keysOf base)
      by_cases known : .str key ∈ keysOf base
      · rw [if_pos known, List.filter_cons_of_neg (by simpa using known)]
      · have kept : (keysOf own).filter (· ∉ keysOf base ++ [.str key]) =
            (keysOf own).filter (· ∉ keysOf base) := by
          refine List.filter_congr fun k mem => ?_
          have other : k ≠ .str key := fun same => fresh (same ▸ mem)
          simp [other]
        rw [if_neg known, kept, List.filter_cons_of_pos (by simpa using known), List.append_assoc]
        rfl

theorem TextKeyed.merge (first : TextKeyed base) (second : TextKeyed own) :
    TextKeyed (mergeEntries base own) := by
  constructor
  · intro k mem
    rw [keysOf_mergeEntries second, List.mem_append, List.mem_filter] at mem
    rcases mem with mem | ⟨mem, -⟩
    · exact first.texts k mem
    · exact second.texts k mem
  · rw [keysOf_mergeEntries second, List.nodup_append]
    refine ⟨first.distinct, second.distinct.filter _, ?_⟩
    rintro k mem _ other rfl
    simpa [mem] using (List.mem_filter.mp other).2

/-! ## Laws of values -/

theorem overlaid_self {x : Option Value}
    (inner : ∀ p, x = some (.dict p) → mergeEntries p p = p) : overlaid x x = x := by
  cases x with
  | none => rfl
  | some v =>
      rw [overlaid_some]
      by_cases whole : ∃ p, v = .dict p
      · obtain ⟨p, rfl⟩ := whole
        rw [mergeOver_dict, inner p rfl]
      · rw [mergeOver_of_new (not_exists.mp whole)]

/-- Three values may be grouped either way if the one in the middle is no break between two
dictionaries, and if dictionaries in all three places may be grouped either way. -/
theorem overlaid_assoc {x y z : Option Value}
    (joined : ∀ p v r, x = some (.dict p) → y = some v → z = some (.dict r) → ∃ q, v = .dict q)
    (inner : ∀ p q r, x = some (.dict p) → y = some (.dict q) → z = some (.dict r) →
      mergeEntries (mergeEntries p q) r = mergeEntries p (mergeEntries q r)) :
    overlaid (overlaid x y) z = overlaid x (overlaid y z) := by
  cases z with
  | none => simp only [overlaid_none]
  | some w =>
      cases y with
      | none =>
          have alone : mergeOver none w = w := mergeOver_of_old (by simp) w
          simp only [overlaid_none, overlaid_some, alone]
      | some v =>
          simp only [overlaid_some, Option.some.injEq]
          by_cases last : ∃ r, w = .dict r
          · obtain ⟨r, rfl⟩ := last
            by_cases middle : ∃ q, v = .dict q
            · obtain ⟨q, rfl⟩ := middle
              by_cases front : ∃ p, x = some (.dict p)
              · obtain ⟨p, rfl⟩ := front
                simp only [mergeOver_dict, inner p q r rfl rfl rfl]
              · simp only [mergeOver_of_old (not_exists.mp front), mergeOver_dict]
            · have front (p : Entries) : x ≠ some (.dict p) := fun same =>
                middle (joined p v r same rfl rfl)
              have alone (q : Entries) : some v ≠ some (.dict q) := fun same =>
                middle ⟨q, Option.some.inj same⟩
              simp only [mergeOver_of_new (not_exists.mp middle), mergeOver_of_old alone,
                mergeOver_of_old front]
          · simp only [mergeOver_of_new (not_exists.mp last)]

/-! ## Trees -/

/-- A dictionary whose keys are texts, no two of them the same, and in which every dictionary is a
tree as well. -/
inductive IsTree : Entries → Prop
  | intro {entries : Entries} (keyed : TextKeyed entries)
      (inner : ∀ k below, (k, Value.dict below) ∈ entries → IsTree below) : IsTree entries

theorem IsTree.keyed (tree : IsTree entries) : TextKeyed entries := by
  cases tree
  assumption

/-- The value that a path of keys leads to. -/
def Value.along? : Value → List String → Option Value
  | v, [] => some v
  | .dict entries, name :: path => do
    let v ← valueAt? (.str name) entries
    v.along? path
  | _, _ :: _ => none

/-- No path of keys leads to a dictionary in front and behind, but to a value of another kind in
the middle. -/
def Regroupable (a b c : Entries) : Prop :=
  ∀ path p v r, (Value.dict a).along? path = some (.dict p) →
    (Value.dict b).along? path = some v → (Value.dict c).along? path = some (.dict r) →
      ∃ q, v = .dict q

theorem Value.along?_cons (name : String) (path : List String) (entries : Entries) :
    (Value.dict entries).along? (name :: path) =
      (valueAt? (.str name) entries).bind (·.along? path) := rfl

/-- Only a dictionary leads to dictionaries. -/
theorem Value.eq_dict_of_along? {path : List String} {p : Entries}
    (found : v.along? path = some (.dict p)) : ∃ inner, v = .dict inner := by
  cases path with
  | nil => exact ⟨p, Option.some.inj found⟩
  | cons name path =>
      cases v with
      | dict inner => exact ⟨inner, rfl⟩
      | _ => cases found

namespace Regroupable

theorem left (a b : Entries) : Regroupable a a b := by
  intro path p v r front middle _
  exact ⟨p, Option.some.inj (middle.symm.trans front)⟩

theorem right (a b : Entries) : Regroupable a b b := by
  intro path p v r _ middle back
  exact ⟨r, Option.some.inj (middle.symm.trans back)⟩

end Regroupable

/-- The condition goes down from key to key. -/
theorem regroupable_iff :
    Regroupable a b c ↔ ∀ name p v r, valueAt? (.str name) a = some (.dict p) →
      valueAt? (.str name) b = some v → valueAt? (.str name) c = some (.dict r) →
        ∃ q, v = .dict q ∧ Regroupable p q r := by
  constructor
  · intro h name p v r front middle back
    have below (path : List String) :
        (Value.dict a).along? (name :: path) = (Value.dict p).along? path ∧
          (Value.dict b).along? (name :: path) = v.along? path ∧
            (Value.dict c).along? (name :: path) = (Value.dict r).along? path := by
      simp only [Value.along?_cons, front, middle, back, Option.bind_some, and_self]
    obtain ⟨q, rfl⟩ := h [name] p v r (below []).1 (below []).2.1 (below []).2.2
    refine ⟨q, rfl, fun path => ?_⟩
    obtain ⟨front', middle', back'⟩ := below path
    rw [← front', ← middle', ← back']
    exact h (name :: path)
  · intro h path p v r front middle back
    cases path with
    | nil => exact ⟨b, (Option.some.inj middle).symm⟩
    | cons name path =>
        simp only [Value.along?_cons, Option.bind_eq_some_iff] at front middle back
        obtain ⟨x, foundX, front⟩ := front
        obtain ⟨y, foundY, middle⟩ := middle
        obtain ⟨z, foundZ, back⟩ := back
        obtain ⟨frontEntries, rfl⟩ := Value.eq_dict_of_along? front
        obtain ⟨backEntries, rfl⟩ := Value.eq_dict_of_along? back
        obtain ⟨middleEntries, rfl, below⟩ := h name _ y _ foundX foundY foundZ
        exact below path p v r front middle back

/-! ## Laws of trees -/

theorem IsTree.mergeEntries_self (tree : IsTree a) : mergeEntries a a = a := by
  induction tree with
  | @intro a keyed _ ih =>
      have keys : keysOf (mergeEntries a a) = keysOf a := by
        rw [keysOf_mergeEntries keyed, List.filter_eq_nil_iff.mpr (by simp), List.append_nil]
      refine (keyed.merge keyed).ext keys fun name => ?_
      rw [valueAt?_mergeEntries keyed]
      exact overlaid_self fun p found => ih _ p (mem_of_valueAt? found)

/-- New keys come in the same order however the three are grouped. -/
theorem keysOf_mergeEntries_assoc (second : TextKeyed b) (third : TextKeyed c) (a : Entries) :
    keysOf (mergeEntries (mergeEntries a b) c) = keysOf (mergeEntries a (mergeEntries b c)) := by
  simp only [keysOf_mergeEntries, second, third, second.merge third, List.filter_append,
    List.filter_filter, List.append_assoc]
  congr 2
  refine List.filter_congr fun k mem => ?_
  by_cases known : k ∈ keysOf a <;> simp [known]

theorem IsTree.mergeEntries_assoc (treeA : IsTree a) (treeB : IsTree b) (treeC : IsTree c)
    (regroupable : Regroupable a b c) :
    mergeEntries (mergeEntries a b) c = mergeEntries a (mergeEntries b c) := by
  -- the induction is on the first tree: dictionaries are merged only where it has one as well
  induction treeA generalizing b c with
  | @intro a first inner ih =>
      obtain ⟨second, innerB⟩ := treeB
      obtain ⟨third, innerC⟩ := treeC
      refine ((first.merge second).merge third).ext (keysOf_mergeEntries_assoc second third a)
        fun name => ?_
      simp only [valueAt?_mergeEntries, second, third, second.merge third]
      have descend := regroupable_iff.mp regroupable name
      refine overlaid_assoc (fun p v r front middle back => ?_) fun p q r front middle back => ?_
      · obtain ⟨q, same, -⟩ := descend p v r front middle back
        exact ⟨q, same⟩
      · obtain ⟨q', same, below⟩ := descend p (.dict q) r front middle back
        cases same
        exact ih _ p (mem_of_valueAt? front) (innerB _ q (mem_of_valueAt? middle))
          (innerC _ r (mem_of_valueAt? back)) below

/-- **Merging.** One tree is put over another, key by key. Merging a tree with itself, or with one
that has been merged, changes nothing. Three trees may be grouped either way if no path of keys
leads to a dictionary in front and behind but to another value in the middle. -/
theorem merging_regrouped (treeA : IsTree a) (treeB : IsTree b) (treeC : IsTree c) :
    keysOf (mergeEntries a b) = keysOf a ++ (keysOf b).filter (· ∉ keysOf a) ∧
      (∀ name, valueAt? (.str name) (mergeEntries a b) =
        overlaid (valueAt? (.str name) a) (valueAt? (.str name) b)) ∧
      mergeEntries a a = a ∧
      mergeEntries (mergeEntries a b) b = mergeEntries a b ∧
      mergeEntries a (mergeEntries a b) = mergeEntries a b ∧
      (Regroupable a b c →
        mergeEntries (mergeEntries a b) c = mergeEntries a (mergeEntries b c)) := by
  refine ⟨keysOf_mergeEntries treeB.keyed a, valueAt?_mergeEntries treeB.keyed a,
    treeA.mergeEntries_self, ?_, ?_, treeA.mergeEntries_assoc treeB treeC⟩
  · rw [treeA.mergeEntries_assoc treeB treeB (.right a b), treeB.mergeEntries_self]
  · rw [← treeA.mergeEntries_assoc treeA treeB (.left a b), treeA.mergeEntries_self]

/-- A dictionary under one key. -/
def layer (inner : Entries) : Entries := [(.str "nested", .dict inner)]

theorem isTree_layer {field : String} {n : Int} : IsTree (layer [(.str field, .int n)]) := by
  have inner : IsTree [(.str field, .int n)] :=
    .intro ⟨by simp [keysOf], by simp [keysOf]⟩ (by simp)
  refine .intro ⟨by simp [keysOf, layer], by simp [keysOf, layer]⟩ fun k below mem => ?_
  cases List.mem_singleton.mp mem
  exact inner

theorem merging_regrouped_nested :
    let a := layer [(.str "a", .int 1)]
    let b := layer [(.str "b", .int 2)]
    let c := layer [(.str "a", .int 3)]
    (IsTree a ∧ IsTree b ∧ IsTree c ∧ Regroupable a b c) ∧
      mergeEntries (mergeEntries a b) c = layer [(.str "a", .int 3), (.str "b", .int 2)] ∧
      mergeEntries (mergeEntries a b) c = mergeEntries a (mergeEntries b c) := by
  intro a b c
  have regroupable : Regroupable a b c := by
    rw [regroupable_iff]
    intro name p v r front middle back
    cases List.mem_singleton.mp (mem_of_valueAt? front)
    cases List.mem_singleton.mp (mem_of_valueAt? middle)
    cases List.mem_singleton.mp (mem_of_valueAt? back)
    refine ⟨_, rfl, regroupable_iff.mpr fun name p v r front => ?_⟩
    cases List.mem_singleton.mp (mem_of_valueAt? front)
  obtain ⟨-, -, -, -, -, regrouped⟩ :=
    merging_regrouped (isTree_layer : IsTree a) (isTree_layer : IsTree b) (isTree_layer : IsTree c)
  exact ⟨⟨isTree_layer, isTree_layer, isTree_layer, regroupable⟩, rfl, regrouped regroupable⟩

/-- A value of another kind in the middle makes a difference. -/
example :
    let a := layer [(.str "a", .int 1)]
    let b := [(.str "nested", .int 2)]
    let c := layer [(.str "b", .int 3)]
    mergeEntries (mergeEntries a b) c = layer [(.str "b", .int 3)] ∧
      mergeEntries a (mergeEntries b c) = layer [(.str "a", .int 1), (.str "b", .int 3)] :=
  ⟨rfl, rfl⟩

end SwapCodec
