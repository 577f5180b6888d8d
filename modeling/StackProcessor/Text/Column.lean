/-!
# StackProcessor — columns

Text in columns of a least width, at the left (`flushLeft`) or at the right (`flushRight`). A text
that is too wide for its column is written in full.
-/

namespace StackProcessor.Text

/-- The blanks that fill `s` up to `width` characters. -/
def filling (width : Nat) (s : String) : String :=
  String.ofList (List.replicate (width - s.length) ' ')

/-- `s` at the left of a column. -/
def flushLeft (width : Nat) (s : String) : String := s ++ filling width s

/-- `s` at the right of a column. -/
def flushRight (width : Nat) (s : String) : String := filling width s ++ s

end StackProcessor.Text
