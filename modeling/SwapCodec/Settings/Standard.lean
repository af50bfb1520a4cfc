import SwapCodec.Settings.Library
import SwapCodec.Yaml.Reader

/-!
# The standard libraries

`Library.standard` reads the part of YAML that `Yaml.read` knows, whose values are the trees of
`Value`, and makes settings of named values by the rules of `Settings.ofEntries`. It stands in for
the libraries where a program runs and where a concrete text is read.
-/

set_option autoImplicit false

namespace SwapCodec

namespace Value

/-- The entries of a dictionary. -/
def entries? : Value → Option (List (Key × Value))
  | dict entries => some entries
  | _ => none

/-- The value is the absent one. -/
def isNull : Value → Bool
  | null => true
  | _ => false

/-- The value as running text. -/
def text (v : Value) : Except Error String :=
  match v.plain? with
  | some s => .ok s
  | none => fail (.fault .value)

/-- A tree has finitely many values in it. -/
theorem holdsFinitely (v : Value) : HoldsFinitely entries? v := by
  have leaf : entries? v = none → HoldsFinitely entries? v := by
    intro none
    refine ⟨[v], List.mem_singleton_self v, fun u mem entries held => ?_⟩
    rw [List.mem_singleton.mp mem, none] at held
    cases held
  match v, leaf with
  | .dict entries, _ =>
    -- The values below each entry are put together.
    have below : ∀ e : { e // e ∈ entries }, HoldsFinitely entries? e.1.2 :=
      fun e => holdsFinitely e.1.2
    let all := entries.attach.flatMap fun e => Classical.choose (below e)
    have inside : ∀ e ∈ entries, e.2 ∈ all := fun e mem =>
      List.mem_flatMap.mpr ⟨⟨e, mem⟩, List.mem_attach entries _,
        (Classical.choose_spec (below ⟨e, mem⟩)).1⟩
    refine ⟨.dict entries :: all, List.mem_cons_self, fun u mem held same e within => ?_⟩
    rcases List.mem_cons.mp mem with rfl | mem
    · cases same
      exact List.mem_cons_of_mem _ (inside e within)
    · obtain ⟨f, there, mem⟩ := List.mem_flatMap.mp mem
      exact List.mem_cons_of_mem _ (List.mem_flatMap.mpr
        ⟨f, there, (Classical.choose_spec (below f)).2 u mem held same e within⟩)
  | .null, leaf | .bool _, leaf | .int _, leaf | .float _, leaf | .str _, leaf | .bytes _, leaf
  | .list _, leaf | .tuple _, leaf | .traits _, leaf | .args _ _, leaf | .opcode _, leaf =>
    exact leaf rfl
termination_by sizeOf v
decreasing_by
  obtain ⟨⟨k, w⟩, mem⟩ := e
  have smaller := List.sizeOf_lt_of_mem mem
  simp only [Prod.mk.sizeOf_spec, dict.sizeOf_spec] at smaller ⊢
  omega

end Value

/-- The libraries that read the known part of YAML and make settings by the rules of this
development. -/
abbrev Library.standard : Library where
  Key := SwapCodec.Key
  Item := Value
  same := SwapCodec.Key.same
  keyOf := .str
  read := Yaml.read
  isNull := Value.isNull
  isTruthy := Value.isTruthy
  text := Value.text
  entries? := Value.entries?
  dict := .dict
  validate := Settings.ofEntries
  finite {_ v} _ := v.holdsFinitely

end SwapCodec
