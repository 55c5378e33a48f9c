/-! Terminal styles. A styled text stands between the control sequence that turns the style on and
the one that turns it off. -/

namespace ItemMetrics.Report

inductive Style where
  | bold
  | cyan
  | green
  deriving DecidableEq, Repr

namespace Style

/-- The parameters of the sequences that turn a style on and off. -/
def codes : Style → String × String
  | .bold => ("1", "0")
  | .cyan => ("36", "39")
  | .green => ("32", "39")

def sequence (code : String) : String :=
  "\x1b[" ++ code ++ "m"

def apply (style : Style) (s : String) : String :=
  sequence style.codes.1 ++ s ++ sequence style.codes.2

/-- Applies styles from the inside out where colours are wanted. -/
def paint (colors : Bool) (styles : List Style) (s : String) : String :=
  if colors then styles.foldl (fun s style => style.apply s) s else s

end Style
end ItemMetrics.Report
