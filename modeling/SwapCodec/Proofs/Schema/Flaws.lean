import SwapCodec.Proofs.Flaws
import SwapCodec.Proofs.Schema.Wire

/-!
# Malformed records

A type is narrow when no integer in it is wider than the machine's words, and a
schema is narrow when its types are and its relation, asked about a record that
was read, reports flaws. Reading a narrow type or a narrow schema fails only with
flaws (`ArgType.Narrow.onlyFlaws`, `Schema.Narrow.onlyFlaws`). So decoding the
records of a narrow schema gives a record or a decode error, and nothing else
(`Schema.Narrow.decode_or_failsWith`).
-/

set_option autoImplicit false

namespace SwapCodec

/-! ## Traits -/

namespace Traits

theorem exists_of_used {kind : TraitKind} {word : Nat}
    (used : word &&& kind.layout.usedMask = word) :
    ∃ t : Traits, t.kind = kind ∧ t.Plain ∧ t.word = word := by
  have packed := packBits?_read_word kind word
  rw [used] at packed
  let t : Traits := ⟨kind, kind.layout.fields.map (·.read word), by rw [packed]; rfl⟩
  have same : t.word = word := word_eq_of_packBits? packed
  exact ⟨t, rfl, by rw [Plain, same], same⟩

theorem onlyFlaws_ofWord (kind : TraitKind) {n : Int}
    (fits : Signedness.unsigned.fits traitsWidth n = true) :
    OnlyFlaws (ofWord kind true (.int n)) := by
  obtain ⟨lower, upper⟩ := fits_iff.mp fits
  simp only [Signedness.lower, Signedness.upper, traitsWidth, Width.full, Nat.pow_eq] at lower upper
  obtain ⟨word, rfl⟩ := Int.eq_ofNat_of_zero_le lower
  by_cases clear : kind.layout.stray word = 0
  · obtain ⟨t, same, plain, rfl⟩ := exists_of_used (Layout.stray_eq_zero_iff.mp clear)
    rw [ofWord_strict_eq_ok_iff.mpr ⟨same, plain, rfl⟩]
    exact .ok t
  · have natural : 0 ≤ kind.layout.wordBits := by
      rw [TraitKind.wordBits_eq]
      decide
    have checked : kind.layout.checkWord (.int word) = .ok word := by
      rw [Layout.checkWord_eq_ok_iff natural, TraitKind.wordBits_eq]
      refine ⟨rfl, ?_⟩
      show word < 2 ^ 256
      omega
    have refused : ofWord kind true (.int word) =
        fail (.strayBits kind.layout.name (kind.layout.stray word)) := by
      simp only [ofWord, Layout.unpackAs, Layout.unpackStrict, if_true]
      rw [checked]
      simp only [bind, Except.bind, if_neg clear, fail]
    rw [refused]
    exact .fail rfl rfl

end Traits

/-! ## Types -/

namespace ArgType

/-- No integer of the type is wider than the machine's words. -/
def Narrow : ArgType → Prop
  | word _ w => w.bits ≤ 256
  | array inner => inner.Narrow
  | _ => True

instance decidableNarrow : (T : ArgType) → Decidable T.Narrow
  | word _ w => inferInstanceAs (Decidable (w.bits ≤ 256))
  | bool => .isTrue trivial
  | address => .isTrue trivial
  | traits _ => .isTrue trivial
  | array inner => decidableNarrow inner

/-- Reading a narrow type fails only with flaws. -/
theorem Narrow.onlyFlaws {T : ArgType} (narrow : T.Narrow) : T.deserialize.OnlyFlaws := by
  induction T with
  | word s w => exact (Decoder.OnlyFlaws.word s narrow).bind (.word s w) fun _ _ _ => .pure _
  | bool => exact Decoder.OnlyFlaws.bool.bind .bool fun _ _ _ => .pure _
  | address => exact (Decoder.OnlyFlaws.bytes addressSize).bind (.bytes _) fun _ _ _ => .pure _
  | traits kind =>
      refine (Decoder.OnlyFlaws.word .unsigned (by decide)).bind (.word .unsigned traitsWidth) ?_
      rintro n _ ⟨fits, _⟩
      exact (Decoder.OnlyFlaws.lift (Traits.onlyFlaws_ofWord kind fits)).bind (.lift _)
        fun _ _ _ => .pure _
  | array inner ih =>
      exact ((ih narrow).array inner.deserialize_parses).bind (.array inner.deserialize_parses)
        fun _ _ _ => .pure _

end ArgType

/-! ## Records -/

namespace Schema

/-- The types of the entries are narrow, and the relation fails only with flaws
on a record that was read. -/
structure Narrow (s : Schema) : Prop where
  /-- The types of the entries are narrow. -/
  types : ∀ entry ∈ s.entries, entry.2.Narrow
  /-- The relation reports flaws. -/
  relation : ∀ fields data, FieldsWire s.entries fields data →
    OnlyFlaws (s.relation (s.recordFields fields))

theorem onlyFlaws_readFields {entries : List (String × ArgType)}
    (narrow : ∀ entry ∈ entries, entry.2.Narrow) : (readFields entries).OnlyFlaws := by
  induction entries with
  | nil => exact .pure []
  | cons entry entries ih =>
      obtain ⟨first, others⟩ := List.forall_mem_cons.mp narrow
      exact first.onlyFlaws.bind entry.2.deserialize_parses fun _ _ _ =>
        (ih others).bind (readFields_parses entries) fun _ _ _ => .pure _

variable {s : Schema}

/-- Reading a record of a narrow schema fails only with flaws. -/
theorem Narrow.onlyFlaws (narrow : s.Narrow) : s.deserialize.OnlyFlaws :=
  (onlyFlaws_readFields narrow.types).bind (readFields_parses s.entries) fun fields data formed =>
    (Decoder.OnlyFlaws.lift (narrow.relation fields data formed)).bind (.lift _)
      fun _ _ _ => .pure _

/-- Closing the reader adds flaws of its own: bytes may be left over. -/
theorem Narrow.isFlaw_of_run (narrow : s.Narrow) {data : List UInt8} {e : Error}
    (failed : s.deserialize.run data = .error e) : e.IsFlaw := by
  have whole : (Decoder.whole s.deserialize).OnlyFlaws := by
    intro r e next stopped
    rw [Decoder.whole, bind_apply] at stopped
    split at stopped
    · rename_i x middle taken
      rw [bind_apply] at stopped
      split at stopped
      · cases stopped
      · rename_i err last unclosed
        cases stopped
        exact Decoder.OnlyFlaws.close _ _ _ unclosed
    · rename_i err middle refused
      cases stopped
      exact narrow.onlyFlaws _ _ _ refused
  exact whole { rest := data } e _ (Prod.ext failed rfl)

/-- **Malformed records.** Decoding gives a record or a decode error. -/
theorem Narrow.decode_or_failsWith (narrow : s.Narrow) (data : List UInt8) :
    (∃ args, s.decode data = .ok args) ∨ FailsWith (s.decode data) .decode := by
  by_cases short : s.isShort data = true
  · have refused : s.decode data = fail (.shortPayload s.record.name) := by
      rw [decode, if_pos short]
    rw [refused]
    exact .inr (failsWith_fail rfl)
  · cases ran : s.deserialize.run data with
    | ok args =>
        refine .inl ⟨args, ?_⟩
        simp only [decode, if_neg short, ran]
    | error e =>
        have flaw := narrow.isFlaw_of_run ran
        right
        simp only [decode, if_neg short, ran]
        by_cases kind : e.kind = .decode
        · rw [if_pos kind]
          exact ⟨e, rfl, kind, flaw.worded⟩
        · rw [if_neg kind, if_pos flaw.known]
          exact failsWith_fail (Option.isSome_map.trans flaw.worded)

end Schema

end SwapCodec
