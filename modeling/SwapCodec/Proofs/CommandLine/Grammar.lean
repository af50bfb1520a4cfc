import SwapCodec.CommandLine.Arguments
import SwapCodec.Proofs.Failure
import Mathlib.Data.List.TakeWhile

/-!
# Command lines that are read

A command line is read word by word. A text without a dash in front is an operand for
every grammar (`Grammar.reads_of_plain`), and the name of an option behind two dashes,
with or without a value attached, is that option for a grammar that knows it
(`Grammar.Knows`).

What the first word of a line adds does not depend on the words behind it, except for an
option whose value is the next word (`Grammar.readWords`). So a line is read by one
equation for each kind of word, and operands are filled in order
(`Grammar.readWords_fill`). A grammar without operands leaves the words that it does not
know as they are (`Grammar.readWords_leave`).
-/

set_option autoImplicit false

namespace SwapCodec.CommandLine

namespace Arguments

variable {a : Arguments} {name other : String} {v : Given}

/-! ## What is given -/

theorem lookup_give_self : (a.give name v).given.lookup name = some v := by
  simp [give]

theorem lookup_give_of_ne (apart : other ≠ name) :
    (a.give name v).given.lookup other = a.given.lookup other := by
  rw [give, List.lookup_cons, beq_eq_false_iff_ne.mpr apart]

theorem text?_congr {b : Arguments} (same : a.given.lookup name = b.given.lookup name) :
    a.text? name = b.text? name := by
  rw [text?, text?, same]

theorem integer?_eq_none (nothing : a.given.lookup name = none) : a.integer? name = none := by
  rw [integer?, nothing]

theorem has_eq_false (nothing : a.given.lookup name = none) : a.has name = false := by
  rw [has, nothing]
  rfl

theorem text?_give_self {s : String} : (a.give name (.text s)).text? name = some s := by
  rw [text?, lookup_give_self]

theorem operand_give_self {s : String} : (a.give name (.text s)).operand name = s := by
  rw [operand, text?_give_self]
  rfl

/-- The texts are given for the operands, one after the other. -/
def fill (a : Arguments) : List Operand → List String → Arguments
  | p :: ps, s :: texts => (a.give p.name (.text s)).fill ps texts
  | _, _ => a

theorem lookup_fill_of_ne {ps : List Operand} (apart : ∀ p ∈ ps, other ≠ p.name)
    (texts : List String) : (a.fill ps texts).given.lookup other = a.given.lookup other := by
  induction ps generalizing a texts with
  | nil => rfl
  | cons p ps ih =>
      cases texts with
      | nil => rfl
      | cons s texts =>
          rw [List.forall_mem_cons] at apart
          rw [fill, ih apart.2, lookup_give_of_ne apart.1]

@[simp] theorem unknown_fill (a : Arguments) (ps : List Operand) (texts : List String) :
    (a.fill ps texts).unknown = a.unknown := by
  induction ps generalizing a texts with
  | nil => rfl
  | cons p ps ih =>
      cases texts with
      | nil => rfl
      | cons s texts =>
          rw [fill, ih]
          rfl

end Arguments

/-! ## Single words -/

/-- The text does not start with a dash. -/
def Plain (s : String) : Prop := s.toList.head? ≠ some '-'

instance (s : String) : Decidable (Plain s) := inferInstanceAs (Decidable (_ ≠ _))

/-- The text does not start with two dashes. -/
def Single (s : String) : Prop := ∀ cs, s.toList ≠ '-' :: '-' :: cs

theorem Plain.single {s : String} (plain : Plain s) : Single s := by
  intro cs chars
  exact plain (congrArg List.head? chars)

theorem Single.ne_separator {s : String} (single : Single s) : s ≠ separatorMark := by
  rintro rfl
  exact single [] rfl

theorem CommandOption.toList_spelling (o : CommandOption) :
    o.spelling.toList = '-' :: '-' :: o.name.toList := by
  rw [spelling, String.toList_append]
  rfl

/-- A text without two dashes in front spells out no option. -/
theorem Single.spelled_ne {s : String} (single : Single s) (o : CommandOption) :
    spelled s ≠ o.spelling := by
  intro same
  have chars := congrArg String.toList same
  rw [CommandOption.toList_spelling, spelled] at chars
  split at chars
  · -- What is spelled out is the dash with the characters up to an equals sign, so its second
    -- character is that of the text.
    rename_i cs start
    rw [String.toList_ofList, splitAttached] at chars
    cases cs with
    | nil => cases chars
    | cons c cs =>
        simp only [List.takeWhile_cons, List.cons.injEq, true_and] at chars
        split at chars
        · simp only [List.cons.injEq] at chars
          rw [chars.1] at start
          exact single cs start
        · cases chars
  · exact single _ chars

section

variable {name : List Char} (solid : '=' ∉ name)

include solid

theorem ne_equals_of_mem : ∀ c ∈ name, (c != '=') = true := by
  intro c mem
  simpa using ne_of_mem_of_not_mem mem solid

theorem splitAttached_append (value : List Char) :
    splitAttached (name ++ '=' :: value) = (name, some value) := by
  rw [splitAttached, List.takeWhile_append_of_pos (ne_equals_of_mem solid),
    List.dropWhile_append_of_pos (ne_equals_of_mem solid)]
  simp

theorem splitAttached_of_solid : splitAttached name = (name, none) := by
  rw [splitAttached, List.takeWhile_eq_self_iff.mpr (ne_equals_of_mem solid),
    List.dropWhile_eq_nil_iff.mpr (ne_equals_of_mem solid)]

end

namespace Grammar

variable {g : Grammar} {o : CommandOption}

/-- A text without a dash in front is an operand for every grammar. -/
theorem token?_of_plain (g : Grammar) {s : String} (plain : Plain s) :
    g.token? s = some (.operand s) := by
  rw [token?]
  split
  · rename_i chars
    exact absurd (congrArg List.head? chars) plain
  · rename_i chars
    exact absurd (congrArg List.head? chars) plain
  · rename_i chars
    exact absurd (congrArg List.head? chars) plain
  · rfl

theorem token?_of_minus (g : Grammar) {s : String} {c : Char} {cs : List Char}
    (minus : s.toList = '-' :: c :: cs) (dash : c ≠ '-') (help : c ≠ 'h') :
    g.token? s = some (strayToken s) := by
  rw [token?]
  split
  · rename_i chars
    cases minus.symm.trans chars
    exact absurd rfl dash
  · rename_i chars
    cases minus.symm.trans chars
    exact absurd rfl help
  · rfl
  · rename_i chars
    exact absurd minus (chars c cs)

/-- The grammar knows the option by its name. -/
structure Knows (g : Grammar) (o : CommandOption) : Prop where
  /-- The option has a name. -/
  named : o.spelling ≠ separatorMark
  /-- No value can be mistaken for a part of the name. -/
  solid : '=' ∉ o.name.toList
  /-- The name stands for this option alone. -/
  meant : g.meanings o.name.toList = [o]

instance (g : Grammar) (o : CommandOption) : Decidable (g.Knows o) :=
  decidable_of_iff
    (o.spelling ≠ separatorMark ∧ '=' ∉ o.name.toList ∧ g.meanings o.name.toList = [o])
    ⟨fun h => ⟨h.1, h.2.1, h.2.2⟩, fun h => ⟨h.named, h.solid, h.meant⟩⟩

theorem token?_dashed (g : Grammar) {s : String} {cs : List Char}
    (dashed : s.toList = '-' :: '-' :: cs) {name : List Char} {attached : Option (List Char)}
    (parted : splitAttached cs = (name, attached)) (meant : g.meanings name = [o]) :
    g.token? s = some (.option o (attached.map String.ofList)) := by
  simp only [token?, dashed, parted, meant]

theorem Knows.token?_spelling (known : g.Knows o) :
    g.token? o.spelling = some (.option o none) :=
  g.token?_dashed o.toList_spelling (splitAttached_of_solid known.solid) known.meant

theorem Knows.token?_attached (known : g.Knows o) (s : String) :
    g.token? (o.spelling ++ "=" ++ s) = some (.option o (some s)) := by
  have dashed : (o.spelling ++ "=" ++ s).toList =
      '-' :: '-' :: (o.name.toList ++ '=' :: s.toList) := by
    simp only [CommandOption.spelling, String.toList_append, List.append_assoc]
    rfl
  have token := g.token?_dashed dashed (splitAttached_append known.solid s.toList) known.meant
  rwa [Option.map_some, String.ofList_toList] at token

/-- The word is the token for the grammar. -/
structure Reads (g : Grammar) (s : String) (t : Token) : Prop where
  /-- The word does not end the options. -/
  other : s ≠ separatorMark
  /-- What the word is. -/
  token : g.token? s = some t

instance (g : Grammar) (s : String) (t : Token) : Decidable (g.Reads s t) :=
  decidable_of_iff (s ≠ separatorMark ∧ g.token? s = some t)
    ⟨fun h => ⟨h.1, h.2⟩, fun h => ⟨h.other, h.token⟩⟩

theorem reads_of_plain (g : Grammar) {s : String} (plain : Plain s) : g.Reads s (.operand s) :=
  ⟨plain.single.ne_separator, g.token?_of_plain plain⟩

theorem Knows.reads_spelling (known : g.Knows o) : g.Reads o.spelling (.option o none) :=
  ⟨known.named, known.token?_spelling⟩

theorem Knows.reads_attached (known : g.Knows o) (s : String) :
    g.Reads (o.spelling ++ "=" ++ s) (.option o (some s)) := by
  refine ⟨fun same => ?_, known.token?_attached s⟩
  have mem : '=' ∈ (o.spelling ++ "=" ++ s).toList := by simp
  rw [same] at mem
  exact absurd mem (by decide)

/-! ## Lines -/

/-- What the words of a line add to what is given already. -/
def readWords (g : Grammar) (ps : List Operand) (filled : Bool) (a : Arguments)
    (line : List String) : Except Stop Arguments :=
  match g.tokens? line with
  | some ts => g.readFrom ps filled a ts
  | none => .error .usage

section

variable {ps : List Operand} {filled : Bool} {a : Arguments} {line : List String} {s : String}

theorem readWords_of_reads {t : Token} (word : g.Reads s t) {b : Arguments} {qs : List Operand}
    {now : Bool} (step : ∀ ts, g.readFrom ps filled a (t :: ts) = g.readFrom qs now b ts) :
    g.readWords ps filled a (s :: line) = g.readWords qs now b line := by
  rw [readWords, readWords, tokens?, if_neg (by simpa using word.other), word.token]
  cases g.tokens? line with
  | none => rfl
  | some ts => exact step ts

theorem readWords_of_reads_error {t : Token} (word : g.Reads s t)
    (step : ∀ ts, g.readFrom ps filled a (t :: ts) = .error .usage) :
    g.readWords ps filled a (s :: line) = .error .usage := by
  rw [readWords, tokens?, if_neg (by simpa using word.other), word.token]
  cases g.tokens? line with
  | none => rfl
  | some ts => exact step ts

theorem readWords_operand {p : Operand} {v : Given} (word : g.Reads s (.operand s))
    (value : p.form.read? s = some v) :
    g.readWords (p :: ps) filled a (s :: line) = g.readWords ps true (a.give p.name v) line := by
  refine readWords_of_reads word fun ts => ?_
  rw [readFrom]
  simp only [value]

theorem readWords_surplus (word : g.Reads s (.operand s)) :
    g.readWords [] filled a (s :: line) = g.readWords [] false (a.leave s) line := by
  refine readWords_of_reads word fun ts => ?_
  rw [readFrom]

theorem readWords_unknown (word : g.Reads s (.unknown s)) :
    g.readWords ps filled a (s :: line) = g.readWords ps false (a.leave s) line := by
  refine readWords_of_reads word fun ts => ?_
  rw [readFrom]

theorem readWords_flag (word : g.Reads s (.option o none)) (role : o.role = .flag)
    (alone : g.clashes o a = false) :
    g.readWords ps filled a (s :: line) = g.readWords ps false (a.give o.name .present) line := by
  refine readWords_of_reads word fun ts => ?_
  rw [readFrom.eq_def]
  simp only [role, alone, Bool.false_eq_true, if_false]

theorem readWords_clash (word : g.Reads s (.option o none)) (role : o.role = .flag)
    (clash : g.clashes o a = true) :
    g.readWords ps filled a (s :: line) = .error .usage := by
  refine readWords_of_reads_error word fun ts => ?_
  rw [readFrom.eq_def]
  simp only [role, clash, if_true]

theorem readWords_attached {form : ValueForm} {text : String} {v : Given}
    (word : g.Reads s (.option o (some text))) (role : o.role = .value form)
    (value : form.readAttached? text = some v) :
    g.readWords ps filled a (s :: line) = g.readWords ps false (a.give o.name v) line := by
  refine readWords_of_reads word fun ts => ?_
  rw [readFrom.eq_def]
  simp only [role, value]

theorem readWords_attached_error {form : ValueForm} {text : String}
    (word : g.Reads s (.option o (some text))) (role : o.role = .value form)
    (none : form.readAttached? text = none) :
    g.readWords ps filled a (s :: line) = .error .usage := by
  refine readWords_of_reads_error word fun ts => ?_
  rw [readFrom.eq_def]
  simp only [role, none]

/-- An option whose value is the next word takes both words. -/
theorem readWords_separate {form : ValueForm} {text : String} {v : Given}
    (word : g.Reads s (.option o none)) (role : o.role = .value form)
    (next : g.Reads text (.operand text)) (value : form.read? text = some v) :
    g.readWords ps filled a (s :: text :: line) =
      g.readWords ps false (a.give o.name v) line := by
  rw [readWords, readWords, tokens?, if_neg (by simpa using word.other), word.token, tokens?,
    if_neg (by simpa using next.other), next.token]
  cases g.tokens? line with
  | none => rfl
  | some ts =>
      show g.readFrom ps filled a (.option o none :: .operand text :: ts) = _
      rw [readFrom.eq_def]
      simp only [role, value]

end

section

variable {ps : List Operand} {a : Arguments}

/-- Operands that may be any text are filled in order. -/
theorem readWords_fill {texts : List String} (texty : ∀ p ∈ ps, p.form = .text)
    (count : ps.length = texts.length) (words : ∀ s ∈ texts, g.Reads s (.operand s))
    (filled : Bool) : g.readWords ps filled a texts = .ok (a.fill ps texts) := by
  induction ps generalizing texts filled a with
  | nil =>
      obtain rfl : texts = [] := List.length_eq_zero_iff.mp count.symm
      rfl
  | cons p ps ih =>
      cases texts with
      | nil => cases count
      | cons s texts =>
          rw [List.forall_mem_cons] at texty words
          have value : p.form.read? s = some (.text s) := by
            rw [texty.1]
            rfl
          rw [readWords_operand words.1 value, ih texty.2 (Nat.succ.inj count) words.2]
          rfl

/-- The grammar has no use for the word. -/
def Leaves (g : Grammar) (s : String) : Prop := g.Reads s (.operand s) ∨ g.Reads s (.unknown s)

instance (g : Grammar) (s : String) : Decidable (g.Leaves s) := inferInstanceAs (Decidable (_ ∨ _))

/-- A grammar without help has no use for a text without two dashes in front. -/
theorem leaves_of_single (helpless : g.help? = none) {s : String} (single : Single s) :
    g.Leaves s := by
  have stray : g.token? s = some (strayToken s) ∨ g.token? s = some (.operand s) := by
    rw [token?]
    split
    · rename_i chars
      exact absurd chars (single _)
    · rw [helpless]
      exact .inl rfl
    · exact .inl rfl
    · exact .inr rfl
  rcases stray with token | token
  · rw [strayToken] at token
    split at token
    · exact .inl ⟨single.ne_separator, token⟩
    · exact .inr ⟨single.ne_separator, token⟩
  · exact .inl ⟨single.ne_separator, token⟩

/-- Words of which the grammar knows nothing are left. -/
theorem readWords_leave_append {line : List String} (left : ∀ s ∈ line, g.Leaves s)
    (rest : List String) :
    g.readWords [] false a (line ++ rest) =
      g.readWords [] false { a with unknown := a.unknown ++ line } rest := by
  induction line generalizing a with
  | nil => simp
  | cons s line ih =>
      rw [List.forall_mem_cons] at left
      have step : g.readWords [] false a (s :: (line ++ rest)) =
          g.readWords [] false (a.leave s) (line ++ rest) := by
        rcases left.1 with word | word
        · exact readWords_surplus word
        · exact readWords_unknown word
      rw [List.cons_append, step, ih left.2]
      simp [Arguments.leave]

theorem readWords_leave {line : List String} (left : ∀ s ∈ line, g.Leaves s) :
    g.readWords [] false a line = .ok { a with unknown := a.unknown ++ line } := by
  have read := readWords_leave_append (a := a) left []
  rwa [List.append_nil] at read

end

end Grammar

end SwapCodec.CommandLine
