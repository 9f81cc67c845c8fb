/-! # Code point sequences

Text as a sequence of Unicode code points. Unlike `String`, such a sequence may hold lone
surrogates, which text handed in from outside can contain; they are kept as given and refused
only where the text has to be encoded.
-/
namespace PacketLink.Text

/-- Text as a sequence of code points, surrogates allowed. -/
abbrev CodePoints := List Nat

def CodePoints.ofString (s : String) : CodePoints := s.toList.map Char.toNat

theorem CodePoints.ofString_append (s t : String) :
    CodePoints.ofString (s ++ t) = CodePoints.ofString s ++ CodePoints.ofString t := by
  simp [CodePoints.ofString]

end PacketLink.Text
