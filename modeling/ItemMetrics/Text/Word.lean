import ItemMetrics.Text.Blank
import ItemMetrics.Text.Split

/-! Counting words. Words are separated by spaces and line feeds only; a run between two separators
counts when it holds at least one character that is not blank, so a lone tab is no word and a tab
inside a run does not end it. -/

namespace ItemMetrics.Text

def isWordBreak (c : Char) : Bool :=
  c == ' ' || c == '\n'

/-- The number of runs between word breaks that are not blank throughout. -/
def countWords (s : String) : Nat :=
  (pieces isWordBreak s.toList).countP fun run => !run.all isBlank

end ItemMetrics.Text
