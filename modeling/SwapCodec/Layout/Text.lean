import SwapCodec.Layout
import SwapCodec.Value.Text

/-!
# Text of layouts

A layout is shown with its name, its fields and the width of its word.
-/

set_option autoImplicit false

namespace SwapCodec

/-- A field with its range and whether it is a flag. -/
def BitField.text? (f : BitField) : Option String := do
  let offset ← Text.decimal? f.offset
  let width ← Text.decimal? f.width
  return "BitField(name=" ++ Text.quoted f.name ++ ", offset=" ++ offset ++ ", width=" ++ width
    ++ ", is_flag=" ++ boolText f.isFlag ++ ")"

/-- A layout with its fields. -/
def Layout.text? (L : Layout) : Option String := do
  let fields ← L.fields.mapM BitField.text?
  let bits ← Text.decimal? L.wordBits
  return "TraitLayout(" ++ Text.quoted L.name ++ ", [" ++ joined ", " fields ++ "], word_bits="
    ++ bits ++ ")"

end SwapCodec
