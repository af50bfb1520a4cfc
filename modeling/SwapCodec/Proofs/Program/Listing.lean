import SwapCodec.Proofs.Program.Builder
import SwapCodec.Proofs.Program.Concat
import SwapCodec.Proofs.Registry.Tables
import SwapCodec.Proofs.Schema.Text

/-!
# Listings that are put together again

A listing is taken apart line by line (`linesOf`), and a line into the offset, the name
and the document (`ListedLine.ofText`). The instruction that a line describes is found
by its name, its arguments are read from the document, and it is added to a builder
(`Builder.addLine?`).

In a narrow registry each instruction of a program in the wire form has a line of its
own, with the offset at which its frame starts (`Registry.Lists`,
`Registry.exists_lists`). Adding the lines one by one appends the frames
(`Registry.Lists.addLines?_eq`), so a listing of a decoded program gives back its bytes
(`listing_lossless`).
-/

set_option autoImplicit false

namespace SwapCodec

/-! ## Taking a listing apart -/

/-- The lines of a text; the empty text has none. -/
def linesOf (text : String) : List String :=
  if text = "" then [] else (text.toList.splitOn '\n').map String.ofList

/-- The parts of a line of a listing. -/
structure ListedLine where
  /-- The offset of the instruction. -/
  offset : String
  /-- The name of its opcode. -/
  name : String
  /-- The text of its arguments. -/
  document : String
  deriving DecidableEq

/-- The parts of a line. Spaces in front of the offset are skipped, and the offset and the
name end at the next space. -/
def ListedLine.ofText (line : String) : ListedLine :=
  let offset := line.toList.dropWhile (· == ' ')
  let name := (offset.dropWhile (· != ' ')).drop 1
  let document := (name.dropWhile (· != ' ')).drop 1
  { offset := String.ofList (offset.takeWhile (· != ' '))
    name := String.ofList (name.takeWhile (· != ' '))
    document := String.ofList document }

/-- The builder with the instruction that a line describes. -/
def Builder.addLine? (b : Builder) (line : String) : Option Builder := do
  let parts := ListedLine.ofText line
  let o ← Opcode.ofName? parts.name
  let document ← (Json.read parts.document).toOption
  let args ← (b.registry.argsOfJson (.opcode o) document).toOption
  (b.add (.opcode o) args).toOption

/-- The builder with the instructions that the lines describe, in order. -/
def Builder.addLines? (b : Builder) : List String → Option Builder
  | [] => some b
  | line :: lines => do
    let next ← b.addLine? line
    next.addLines? lines

/-! ## Lines -/

theorem linesOf_joined {lines : List String} (filled : ∀ line ∈ lines, line ≠ "")
    (single : ∀ line ∈ lines, '\n' ∉ line.toList) : linesOf (joined "\n" lines) = lines := by
  rw [joined_eq_intercalate]
  by_cases empty : lines = []
  · rw [empty, String.intercalate_nil, linesOf, if_pos rfl]
  have parted : ("\n".intercalate lines).toList.splitOn '\n' = lines.map String.toList := by
    rw [String.toList_intercalate]
    exact List.splitOn_intercalate '\n' (List.forall_mem_map.mpr single) (by simpa using empty)
  have nonempty : "\n".intercalate lines ≠ "" := by
    intro none
    rw [none] at parted
    obtain ⟨line, mem, same⟩ : ∃ line ∈ lines, line.toList = [] :=
      List.mem_map.mp (parted ▸ List.mem_singleton_self [])
    exact filled line mem (String.toList_inj.mp same)
  rw [linesOf, if_neg nonempty, parted, List.map_map]
  simp

theorem Opcode.ofName?_dotted (o : Opcode) : ofName? o.dotted = some o := by
  cases o <;> decide

theorem Opcode.not_mem_dotted (o : Opcode) : ' ' ∉ o.dotted.toList ∧ '\n' ∉ o.dotted.toList := by
  cases o <;> decide

theorem decimalNat_toList (n : Nat) : (Text.decimalNat n).toList = Nat.toDigits 10 n := by
  have natural : ¬ Int.ofNat n < 0 := Int.not_lt.mpr (Int.natCast_nonneg n)
  rw [Text.decimalNat, Text.decimal, if_neg natural, String.toList_ofList]
  rfl

theorem not_mem_toDigits {c : Char} (other : Json.isDigit c = false) (n : Nat) :
    c ∉ Nat.toDigits 10 n := fun mem => by
  cases other.symm.trans (Json.isDigit_of_mem_toDigits mem)

namespace Registry

theorem listingLine_toList (pc : Nat) (o : Opcode) (text : String) :
    ∃ indent, (listingLine pc o text).toList = List.replicate indent ' ' ++
      (Nat.toDigits 10 pc ++ ' ' :: (o.dotted.toList ++ ' ' :: text.toList)) := by
  refine ⟨5 - (Text.decimalNat pc).length, ?_⟩
  simp only [listingLine, Text.padLeft, String.toList_append, String.toList_ofList,
    decimalNat_toList, List.append_assoc]
  rfl

theorem listingLine_ne_empty (pc : Nat) (o : Opcode) (text : String) :
    listingLine pc o text ≠ "" := by
  obtain ⟨indent, line⟩ := listingLine_toList pc o text
  intro empty
  rw [empty] at line
  have size := congrArg List.length line
  simp at size

theorem newline_not_mem_listingLine (pc : Nat) (o : Opcode) {text : String}
    (oneLine : '\n' ∉ text.toList) : '\n' ∉ (listingLine pc o text).toList := by
  obtain ⟨indent, line⟩ := listingLine_toList pc o text
  simp only [line, List.mem_append, List.mem_cons, List.mem_replicate, not_or]
  exact ⟨by simp, not_mem_toDigits rfl pc, by decide, o.not_mem_dotted.2, by decide, oneLine⟩

end Registry

section

variable {word : List Char} (solid : ' ' ∉ word) (rest : List Char)

include solid

theorem takeWhile_word : (word ++ ' ' :: rest).takeWhile (· != ' ') = word := by
  rw [List.takeWhile_append_of_pos fun c mem => by simpa using ne_of_mem_of_not_mem mem solid,
    List.takeWhile_cons_of_neg (by decide), List.append_nil]

theorem dropWhile_word : (word ++ ' ' :: rest).dropWhile (· != ' ') = ' ' :: rest := by
  rw [List.dropWhile_append_of_pos fun c mem => by simpa using ne_of_mem_of_not_mem mem solid,
    List.dropWhile_cons_of_neg (by decide)]

end

/-- A line is taken apart into what it was made of. -/
theorem ListedLine.ofText_listingLine (pc : Nat) (o : Opcode) (text : String) :
    ofText (Registry.listingLine pc o text) = ⟨Text.decimalNat pc, o.dotted, text⟩ := by
  obtain ⟨indent, line⟩ := Registry.listingLine_toList pc o text
  have digits : ' ' ∉ Nat.toDigits 10 pc := not_mem_toDigits rfl pc
  have offset : (Registry.listingLine pc o text).toList.dropWhile (· == ' ') =
      Nat.toDigits 10 pc ++ ' ' :: (o.dotted.toList ++ ' ' :: text.toList) := by
    obtain ⟨c, more, first⟩ := List.exists_cons_of_ne_nil (Nat.toDigits_ne_nil (n := pc) (b := 10))
    have solid : c ≠ ' ' := ne_of_mem_of_not_mem (first ▸ List.mem_cons_self) digits
    rw [line, List.dropWhile_append_of_pos (by simp), first, List.cons_append,
      List.dropWhile_cons_of_neg (by simpa using solid)]
  simp only [ofText, offset, takeWhile_word digits, dropWhile_word digits, List.drop_one,
    List.tail_cons, takeWhile_word o.not_mem_dotted.1, dropWhile_word o.not_mem_dotted.1,
    String.ofList_toList]
  rw [← decimalNat_toList, String.ofList_toList]

/-! ## The lines of a program -/

namespace Registry

/-- The text is the document of the instruction on one line, and the arguments are read
back from it. -/
structure Prints (R : Registry) (i : Instruction) (schema : Schema) (document : Value)
    (text : String) : Prop where
  resolved : R.resolve (.opcode i.opcode) = .ok schema
  written : schema.toJson i.args = .ok document
  printed : Json.compact document = .ok text
  oneLine : '\n' ∉ text.toList
  read : Json.read text = .ok document
  back : schema.ofJson document = .ok i.args

/-- The lines of instructions with the given frames, where `pc` is the offset of the
first one. -/
inductive Lists (R : Registry) : Nat → List Instruction → List (List UInt8) → List String → Prop
  /-- There are no instructions. -/
  | nil (pc : Nat) : Lists R pc [] [] []
  /-- The next instruction starts where the frame of this one ends. -/
  | cons {pc : Nat} {i : Instruction} {schema : Schema} {document : Value} {text : String}
      {data : List UInt8} {L : List Instruction} {parts : List (List UInt8)} {lines : List String}
      (prints : R.Prints i schema document text)
      (encoded : R.encode (.opcode i.opcode) i.args = .ok data)
      (rest : Lists R (pc + data.length) L parts lines) :
      Lists R pc (i :: L) (data :: parts) (listingLine pc i.opcode text :: lines)

variable {R : Registry} {pc : Nat} {i : Instruction} {schema : Schema} {document : Value}
  {text : String} {data payload : List UInt8} {L : List Instruction} {parts : List (List UInt8)}
  {lines : List String}

theorem Prints.listingFrom_eq (h : R.Prints i schema document text)
    (encoded : schema.encode i.args = .ok payload) (pc : Nat) (done : Array String)
    (items : List (Value × Value)) :
    R.listingFrom pc done (i.toPair :: items) =
      R.listingFrom (pc + headerSize + payload.length) (done.push (listingLine pc i.opcode text))
        items := by
  rw [Instruction.toPair, listingFrom, h.resolved]
  simp only [bind, Except.bind, h.written, h.printed, encoded]

/-- What is encoded can be printed. -/
theorem Wire.exists_prints (wellFormed : R.WellFormed) (narrow : R.Narrow) (wire : R.Wire i data) :
    ∃ schema document text payload, R.Prints i schema document text ∧
      schema.encode i.args = .ok payload ∧ data.length = headerSize + payload.length := by
  obtain ⟨index, schema, payload, found, formed, _, rfl⟩ := wire
  have built := (wellFormed.lawful_of_getElem? found).built
  have types := (narrow _ (List.mem_of_getElem? found)).types
  obtain ⟨document, text, written, printed, oneLine, read, back⟩ := formed.exists_text built types
  have resolved : R.resolve (.opcode i.opcode) = .ok schema :=
    wellFormed.resolve_iff.mpr ⟨_, index, rfl, found⟩
  refine ⟨schema, document, text, payload, ⟨resolved, written, printed, oneLine, read, back⟩,
    formed.encode_eq built, ?_⟩
  simp only [frame, List.length_cons, headerSize]
  omega

/-- **Printing.** The frames of a program are listed one by one. -/
theorem exists_lists (wellFormed : R.WellFormed) (narrow : R.Narrow)
    (frames : List.Forall₂ R.Wire L parts) (pc : Nat) (done : Array String) :
    ∃ lines, R.listingFrom pc done (L.map Instruction.toPair) = .ok (done.toList ++ lines) ∧
      R.Lists pc L parts lines := by
  induction frames generalizing pc done with
  | nil => exact ⟨[], by rw [List.append_nil]; rfl, .nil pc⟩
  | @cons i data L parts wire _ ih =>
      obtain ⟨schema, document, text, payload, prints, encoded, size⟩ :=
        wire.exists_prints wellFormed narrow
      have step := prints.listingFrom_eq encoded pc done
      obtain ⟨lines, listed, lists⟩ := ih (pc + headerSize + payload.length)
        (done.push (listingLine pc i.opcode text))
      refine ⟨listingLine pc i.opcode text :: lines, ?_,
        .cons prints (wire.encode_eq wellFormed) ?_⟩
      · rw [List.map_cons, step, listed, Array.toList_push, List.append_assoc,
          List.singleton_append]
      · rwa [size, ← Nat.add_assoc]

namespace Lists

theorem length_eq (h : R.Lists pc L parts lines) : lines.length = L.length := by
  induction h with
  | nil => rfl
  | cons _ _ _ ih => rw [List.length_cons, List.length_cons, ih]

theorem forall_line (h : R.Lists pc L parts lines) {P : String → Prop}
    (each : ∀ {pc i schema document text}, R.Prints i schema document text →
      P (listingLine pc i.opcode text)) : ∀ line ∈ lines, P line := by
  induction h with
  | nil => exact List.forall_mem_nil _
  | cons prints _ _ ih => exact List.forall_mem_cons.mpr ⟨each prints, ih⟩

/-- The offset in a line is the number of bytes in front of the frame. -/
theorem getElem?_eq (h : R.Lists pc L parts lines) {k : Nat} (found : L[k]? = some i) :
    ∃ schema document text, R.Prints i schema document text ∧
      lines[k]? = some (listingLine (pc + (parts.take k).flatten.length) i.opcode text) := by
  induction h generalizing k with
  | nil => cases found
  | cons prints _ _ ih =>
      cases k with
      | zero =>
          cases found
          exact ⟨_, _, _, prints, rfl⟩
      | succ k =>
          obtain ⟨schema, document, text, later, line⟩ := ih found
          refine ⟨schema, document, text, later, ?_⟩
          rw [List.getElem?_cons_succ, line, List.take_succ_cons, List.flatten_cons,
            List.length_append, Nat.add_assoc]

end Lists

/-- A line is added as the instruction that it was printed for. -/
theorem Prints.addLine?_eq (h : R.Prints i schema document text)
    (encoded : R.encode (.opcode i.opcode) i.args = .ok data) {b : Builder}
    (same : b.registry = R) (pc : Nat) :
    b.addLine? (listingLine pc i.opcode text) = some (b.enter i data) := by
  have args : R.argsOfJson (.opcode i.opcode) document = .ok i.args :=
    Except.bind_eq_ok_iff.mpr ⟨schema, h.resolved, h.back⟩
  have added : b.add (.opcode i.opcode) i.args = .ok (b.enter i data) :=
    Builder.add_eq_ok_iff.mpr ⟨i.opcode, data, rfl, same ▸ encoded, rfl⟩
  simp only [Builder.addLine?, ListedLine.ofText_listingLine, i.opcode.ofName?_dotted, h.read,
    same, args, added, Except.toOption, Option.bind_eq_bind, Option.bind_some]

/-- **Reading.** Adding the lines appends the frames. -/
theorem Lists.addLines?_eq (h : R.Lists pc L parts lines) {b : Builder} (same : b.registry = R) :
    ∃ next, b.addLines? lines = some next ∧
      next.writer.toList = b.writer.toList ++ parts.flatten := by
  induction h generalizing b with
  | nil => exact ⟨b, rfl, (List.append_nil _).symm⟩
  | @cons pc i _ _ _ data _ _ _ prints encoded _ ih =>
      have added := prints.addLine?_eq encoded same pc
      obtain ⟨next, others, appended⟩ := ih (b := b.enter i data) same
      refine ⟨next, ?_, ?_⟩
      · rw [Builder.addLines?, added]
        exact others
      · rw [appended, Builder.toList_writer_enter, List.flatten_cons, List.append_assoc]

end Registry

/-- A program that a published registry decodes has a listing, with a line for each instruction. -/
theorem Registry.exists_listing {S : OpcodeSet} {data : List UInt8} {limit : Int}
    {L : List Instruction} (decoded : (ofSet S).decodeProgram data limit = .ok L) :
    ∃ parts lines, (ofSet S).Lists 0 L parts lines ∧
      (ofSet S).listing (L.map Instruction.toPair) = .ok (joined "\n" lines) := by
  have wellFormed := (ofSet_reachable S).wellFormed
  obtain ⟨_, parts, frames, rfl⟩ := wellFormed.decodeProgram_eq_ok_iff.mp decoded
  obtain ⟨lines, listed, lists⟩ := exists_lists wellFormed (ofSet_narrow S) frames 0 #[]
  exact ⟨parts, lines, lists, Except.bind_eq_ok_iff.mpr ⟨_, listed, rfl⟩⟩

/-- **Lossless listing.** The listing of a program that a published registry decodes has one
line for each instruction, with the offset at which its encoding starts in the program,
the name of its opcode and its arguments as a document. Adding the lines one by one to an
empty builder gives back the bytes of the program. -/
theorem listing_lossless (set : OpcodeSet) (data : List UInt8) (limit : Int)
    (L : List Instruction) (decoded : (Registry.ofSet set).decodeProgram data limit = .ok L) :
    let R := Registry.ofSet set
    ∃ text parts, R.listing (L.map Instruction.toPair) = .ok text ∧
      List.Forall₂ (fun i part => R.encode (.opcode i.opcode) i.args = .ok part) L parts ∧
      data = parts.flatten ∧
      (L = [] → text = "") ∧
      (linesOf text).length = L.length ∧
      (∀ k i, L[k]? = some i → ∃ schema document json,
        R.resolve (.opcode i.opcode) = .ok schema ∧ schema.toJson i.args = .ok document ∧
          Json.compact document = .ok json ∧
          (linesOf text)[k]? =
            some (Registry.listingLine (parts.take k).flatten.length i.opcode json)) ∧
      ∃ b, ({ registry := R } : Builder).addLines? (linesOf text) = some b ∧
        b.build limit = .ok data := by
  intro R
  have wellFormed : R.WellFormed := (Registry.ofSet_reachable set).wellFormed
  obtain ⟨short, parts, frames, rfl⟩ := wellFormed.decodeProgram_eq_ok_iff.mp decoded
  obtain ⟨lines, listed, lists⟩ :=
    Registry.exists_lists wellFormed (Registry.ofSet_narrow set) frames 0 #[]
  have split : linesOf (joined "\n" lines) = lines :=
    linesOf_joined (lists.forall_line fun _ => Registry.listingLine_ne_empty _ _ _)
      (lists.forall_line fun prints => Registry.newline_not_mem_listingLine _ _ prints.oneLine)
  obtain ⟨b, added, written⟩ := lists.addLines?_eq (b := { registry := R }) rfl
  have bytes : b.writer.toList = parts.flatten := written
  refine ⟨joined "\n" lines, parts, ?_, Registry.forall_encode_eq wellFormed frames, rfl, ?_, ?_,
    ?_, b, ?_, ?_⟩
  · exact Except.bind_eq_ok_iff.mpr ⟨lines, listed, rfl⟩
  · rintro rfl
    cases lists
    rfl
  · rw [split, lists.length_eq]
  · intro k i found
    obtain ⟨schema, document, json, prints, line⟩ := lists.getElem?_eq found
    rw [Nat.zero_add] at line
    refine ⟨schema, document, json, prints.resolved, prints.written, prints.printed, ?_⟩
    rw [split, line]
  · rw [split, added]
  · rw [Builder.build_eq_ok (by rwa [Builder.pc_eq, bytes]), bytes]

theorem listing_lossless_jump :
    let R := Registry.ofSet .swapVm
    let L : List Instruction :=
      [⟨.jump, .args "JumpArgs" [("next_pc", .int 4)]⟩, ⟨.xycSwapXD, .args "EmptyArgs" []⟩]
    R.decodeProgram [0, 2, 0, 4, 14, 0] 6 = .ok L ∧
      ∃ text b, R.listing (L.map Instruction.toPair) = .ok text ∧ (linesOf text).length = 2 ∧
        ({ registry := R } : Builder).addLines? (linesOf text) = some b ∧
        b.build 6 = .ok [0, 2, 0, 4, 14, 0] := by
  intro R L
  have frames : List.Forall₂ (fun i part => R.decode part = .ok i) L [[0, 2, 0, 4], [14, 0]] :=
    .cons rfl (.cons rfl .nil)
  have decoded : R.decodeProgram [0, 2, 0, 4, 14, 0] 6 = .ok L :=
    Registry.decodeProgram_of_decodes frames (by decide)
  obtain ⟨text, _, listed, _, _, _, count, _, b, added, built⟩ :=
    listing_lossless .swapVm [0, 2, 0, 4, 14, 0] 6 L decoded
  exact ⟨decoded, text, b, listed, count, added, built⟩

end SwapCodec
