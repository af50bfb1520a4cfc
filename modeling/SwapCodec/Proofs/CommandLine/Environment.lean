import SwapCodec.Proofs.CommandLine.Grammar

/-!
# Options from the environment

An option that is not spelled out on a command line has the text of its variable, if the
environment has one (`CommandOption.inherited?`). Such options are put in front of the line as
words of their own. What they come to can be said without these words: each option is
added with its text, up to the first that cannot be (`Grammar.inherit`). The line itself
is then read after them (`Grammar.readKnown_eq`).

So all that a line has to do with its environment is which options it spells out
(`Grammar.inherit_congr`), and the same options come to the same for two grammars that
let options stand together (`Grammar.inherit_eq`).
-/

set_option autoImplicit false

namespace SwapCodec.CommandLine

namespace Grammar

variable {g : Grammar} {env : Variables} {line : List String} {o : CommandOption}
  {os : List CommandOption} {a b : Arguments} {text : String}

/-- An option is added to what is given, with the text of its variable. -/
def take (g : Grammar) (env : Variables) (o : CommandOption) (text : String) (a : Arguments) :
    Except Stop Arguments :=
  match o.role with
  | .help => .ok a
  | .value form =>
    match form.readAttached? text with
    | some v => .ok (a.give o.name v)
    | none => .error .usage
  | .flag =>
    match env.switch? text with
    | some true => if g.clashes o a then .error .usage else .ok (a.give o.name .present)
    | some false => .ok a
    | none => .error .usage

/-- The options are added to what is given, each with its text from the environment. -/
def inherit (g : Grammar) (env : Variables) (line : List String) :
    List CommandOption → Arguments → Except Stop Arguments
  | [], a => .ok a
  | o :: os, a =>
    match o.inherited? env.texts line with
    | none => g.inherit env line os a
    | some text => do
      let b ← g.take env o text a
      g.inherit env line os b

/-! ## What the words come to -/

/-- The words of an option are read as the option with its text. -/
theorem readWords_fromVariable (known : o.role ≠ .help → g.Knows o) {words : List String}
    (spelt : o.fromVariable env.switch? text = .ok words) (ps : List Operand) (rest : List String) :
    g.readWords ps false a (words ++ rest) =
      g.take env o text a >>= fun b => g.readWords ps false b rest := by
  rw [CommandOption.fromVariable] at spelt
  cases role : o.role with
  | help =>
      rw [role] at spelt
      cases spelt
      simp only [take, role]
      rfl
  | value form =>
      rw [role] at spelt known
      cases spelt
      have word := (known nofun).reads_attached text
      rw [List.singleton_append]
      cases value : form.readAttached? text with
      | none =>
          simp only [take, role, value]
          exact readWords_attached_error word role value
      | some v =>
          simp only [take, role, value]
          exact readWords_attached word role value
  | flag =>
      rw [role] at spelt known
      have word := (known nofun).reads_spelling
      cases switch : env.switch? text with
      | none =>
          rw [switch] at spelt
          cases spelt
      | some on =>
          rw [switch] at spelt
          cases on with
          | false =>
              cases spelt
              simp only [take, role, switch]
              rfl
          | true =>
              cases spelt
              rw [List.singleton_append]
              cases clash : g.clashes o a with
              | true =>
                  simp only [take, role, switch, clash, if_true]
                  exact readWords_clash word role clash
              | false =>
                  simp only [take, role, switch, clash, Bool.false_eq_true, if_false]
                  exact readWords_flag word role clash

theorem fromVariable_error {s : Stop} (failed : o.fromVariable env.switch? text = .error s) :
    s = .usage := by
  rw [CommandOption.fromVariable] at failed
  repeat' split at failed
  all_goals cases failed
  all_goals rfl

/-- An option whose variable stands for no words cannot be added. -/
theorem take_of_fromVariable_error {s : Stop} (failed : o.fromVariable env.switch? text = .error s)
    (a : Arguments) : g.take env o text a = .error .usage := by
  rw [CommandOption.fromVariable] at failed
  split at failed
  · cases failed
  · cases failed
  · rename_i role
    split at failed
    · cases failed
    · cases failed
    · rename_i switch
      simp only [take, role, switch]

theorem take_error {s : Stop} (failed : g.take env o text a = .error s) : s = .usage := by
  rw [take] at failed
  repeat' split at failed
  all_goals cases failed
  all_goals rfl

theorem words_error {s : Stop} (failed : env.words line os = .error s) :
    s = .usage := by
  induction os with
  | nil =>
      rw [env.words_nil] at failed
      cases failed
  | cons o os ih =>
      cases inherited : o.inherited? env.texts line with
      | none =>
          rw [env.words_of_none line o os inherited] at failed
          exact ih failed
      | some text =>
          rw [env.words_of_some line o os _ inherited] at failed
          cases spelt : o.fromVariable env.switch? text with
          | error s' =>
              rw [spelt] at failed
              cases failed
              exact fromVariable_error spelt
          | ok here =>
              rw [spelt] at failed
              cases more : env.words line os with
              | error s' =>
                  rw [more] at failed
                  cases failed
                  exact ih more
              | ok words =>
                  rw [more] at failed
                  cases failed

/-- The words from the environment are read as their options, each with its text. -/
theorem readWords_words (known : ∀ o ∈ os, o.role ≠ .help → g.Knows o)
    (ps : List Operand) (a : Arguments) :
    (env.words line os >>= fun added => g.readWords ps false a (added ++ line)) =
      g.inherit env line os a >>= fun b => g.readWords ps false b line := by
  induction os generalizing a with
  | nil =>
      rw [env.words_nil]
      rfl
  | cons o os ih =>
      rw [List.forall_mem_cons] at known
      rw [inherit]
      cases inherited : o.inherited? env.texts line with
      | none =>
          rw [env.words_of_none line o os inherited]
          exact ih known.2 a
      | some text =>
          rw [env.words_of_some line o os _ inherited]
          cases spelt : o.fromVariable env.switch? text with
          | error s =>
              obtain rfl := fromVariable_error spelt
              simp only [take_of_fromVariable_error spelt]
              rfl
          | ok here =>
              have reads : ∀ more, g.readWords ps false a (here ++ more ++ line) =
                  g.take env o text a >>= fun b => g.readWords ps false b (more ++ line) := by
                intro more
                rw [List.append_assoc]
                exact readWords_fromVariable known.1 spelt ps (more ++ line)
              calc
                _ = env.words line os >>= fun more =>
                    g.readWords ps false a (here ++ more ++ line) := by
                  simp only [Except.ok_bind, bind_assoc, pure_bind]
                _ = g.take env o text a >>= fun b => env.words line os >>= fun more =>
                    g.readWords ps false b (more ++ line) := by
                  simp only [reads]
                  -- An option that cannot be added and variables that stand for no words end
                  -- alike, so it makes no difference which of them comes first.
                  cases taken : g.take env o text a with
                  | ok b => rfl
                  | error s =>
                      obtain rfl := take_error taken
                      cases added : env.words line os with
                      | ok more => rfl
                      | error s =>
                          obtain rfl := words_error added
                          rfl
                _ = _ := by
                  simp only [ih known.2, bind_assoc]

/-- **Lines.** A line is read behind the options from the environment. -/
theorem readKnown_eq (known : ∀ o ∈ g.options, o.role ≠ .help → g.Knows o) (env : Variables)
    (line : List String) :
    g.readKnown env line =
      g.inherit env line g.options {} >>= fun a => g.readWords g.operands false a line := by
  rw [← readWords_words known, readKnown, withVariables, bind_assoc]
  simp only [pure_bind]
  rfl

/-! ## What the options depend on -/

theorem inherit_congr {other : List String}
    (same : ∀ o ∈ os, o.inherited? env.texts line = o.inherited? env.texts other) (a : Arguments) :
    g.inherit env line os a = g.inherit env other os a := by
  induction os generalizing a with
  | nil => rfl
  | cons o os ih =>
      rw [List.forall_mem_cons] at same
      rw [inherit, inherit, same.1]
      split
      · exact ih same.2 a
      · simp only [ih same.2]

theorem take_eq {f : Grammar} (compatible : g.exclusive = false) (others : f.exclusive = false)
    (o : CommandOption) (text : String) (a : Arguments) :
    g.take env o text a = f.take env o text a := by
  have alone : g.clashes o a = f.clashes o a := by
    rw [clashes, clashes, compatible, others, Bool.false_and, Bool.false_and]
  simp only [take, alone]

/-- Options that may stand together come to the same for every grammar. -/
theorem inherit_eq {f : Grammar} (compatible : g.exclusive = false) (others : f.exclusive = false)
    (env : Variables) (line : List String) (os : List CommandOption) (a : Arguments) :
    g.inherit env line os a = f.inherit env line os a := by
  induction os generalizing a with
  | nil => rfl
  | cons o os ih =>
      rw [inherit, inherit]
      split
      · exact ih a
      · simp only [take_eq compatible others, ih]

theorem inherited?_of_unset (unset : env.lookup o.variable = none) (line : List String) :
    o.inherited? env.texts line = none := by
  have none : env.texts.lookup o.variable = none := unset
  rw [CommandOption.inherited?, none, ite_self]

/-- Options for which the environment has nothing add nothing. -/
theorem inherit_of_unset (unset : ∀ o ∈ os, env.lookup o.variable = none) (a : Arguments) :
    g.inherit env line os a = .ok a := by
  induction os with
  | nil => rfl
  | cons o os ih =>
      rw [List.forall_mem_cons] at unset
      rw [inherit, inherited?_of_unset unset.1]
      exact ih unset.2

theorem inherit_append_of_unset {own : List CommandOption}
    (unset : ∀ o ∈ own, env.lookup o.variable = none) (a : Arguments) :
    g.inherit env line (os ++ own) a = g.inherit env line os a := by
  induction os generalizing a with
  | nil => exact inherit_of_unset unset a
  | cons o os ih =>
      rw [List.cons_append, inherit, inherit]
      split
      · exact ih a
      · simp only [ih]

/-! ## What the options leave as it is -/

theorem take_ok (taken : g.take env o text a = .ok b) : b = a ∨ ∃ v, b = a.give o.name v := by
  rw [take] at taken
  repeat' split at taken
  all_goals cases taken
  all_goals first | exact .inl rfl | exact .inr ⟨_, rfl⟩

theorem inherit_unknown (inherited : g.inherit env line os a = .ok b) : b.unknown = a.unknown := by
  induction os generalizing a with
  | nil =>
      cases inherited
      rfl
  | cons o os ih =>
      rw [inherit] at inherited
      split at inherited
      · exact ih inherited
      · obtain ⟨c, taken, rest⟩ := Except.bind_eq_ok_iff.mp inherited
        rw [ih rest]
        rcases take_ok taken with rfl | ⟨v, rfl⟩ <;> rfl

theorem inherit_lookup (inherited : g.inherit env line os a = .ok b) {name : String}
    (apart : ∀ o ∈ os, name ≠ o.name) : b.given.lookup name = a.given.lookup name := by
  induction os generalizing a with
  | nil =>
      cases inherited
      rfl
  | cons o os ih =>
      rw [List.forall_mem_cons] at apart
      rw [inherit] at inherited
      split at inherited
      · exact ih inherited apart.2
      · obtain ⟨c, taken, rest⟩ := Except.bind_eq_ok_iff.mp inherited
        rw [ih rest apart.2]
        rcases take_ok taken with rfl | ⟨v, rfl⟩
        · rfl
        · exact Arguments.lookup_give_of_ne apart.1

theorem inherit_error {s : Stop} (failed : g.inherit env line os a = .error s) : s = .usage := by
  induction os generalizing a with
  | nil => cases failed
  | cons o os ih =>
      rw [inherit] at failed
      split at failed
      · exact ih failed
      · rename_i text _
        cases taken : g.take env o text a with
        | error s' =>
            rw [taken] at failed
            cases failed
            exact take_error taken
        | ok c =>
            rw [taken] at failed
            exact ih failed

/-! ## Lines that are left -/

/-- The word has nothing to do with the options of the grammar. -/
structure Passes (g : Grammar) (s : String) : Prop where
  /-- The grammar has no use for the word. -/
  left : g.Leaves s
  /-- The word spells out no option. -/
  unspelt : ∀ o ∈ g.options, spelled s ≠ o.spelling

instance (g : Grammar) (s : String) : Decidable (g.Passes s) :=
  decidable_of_iff (g.Leaves s ∧ ∀ o ∈ g.options, spelled s ≠ o.spelling)
    ⟨fun h => ⟨h.1, h.2⟩, fun h => ⟨h.left, h.unspelt⟩⟩

theorem passes_of_single (helpless : g.help? = none) {s : String} (single : Single s) :
    g.Passes s :=
  ⟨leaves_of_single helpless single, fun o _ => single.spelled_ne o⟩

theorem inherited?_append (others : ∀ s ∈ line, spelled s ≠ o.spelling) (front : List String) :
    o.inherited? env.texts (front ++ line) = o.inherited? env.texts front := by
  have unspelt : o.spelling ∉ line.map spelled := by
    intro mem
    obtain ⟨s, within, same⟩ := List.mem_map.mp mem
    exact others s within same
  simp only [CommandOption.inherited?, List.map_append, List.contains_iff_mem, List.mem_append,
    unspelt, or_false]

/-- A line that has nothing to do with a grammar is left as it is, and the options are
those of the environment. -/
theorem readKnown_of_passes (known : ∀ o ∈ g.options, o.role ≠ .help → g.Knows o)
    (operands : g.operands = []) (passes : ∀ s ∈ line, g.Passes s) :
    g.readKnown env line = (g.inherit env [] g.options {}).map
      fun a => { a with unknown := line } := by
  have same : ∀ o ∈ g.options, o.inherited? env.texts line = o.inherited? env.texts [] := by
    intro o mem
    exact inherited?_append (fun s within => (passes s within).unspelt o mem) []
  rw [readKnown_eq known, operands, inherit_congr same]
  cases inherited : g.inherit env [] g.options {} with
  | error s => rfl
  | ok a =>
      rw [Except.ok_bind, readWords_leave fun s within => (passes s within).left,
        inherit_unknown inherited]
      rfl

end Grammar

end SwapCodec.CommandLine
