import Pipeworks.Decimal.Rounded
import Pipeworks.Text.Letters

/-!
# How commands write

Styles of a terminal, rules, bars of progress, and durations.
-/

namespace Pipeworks.Command

/-- A style of a terminal. -/
inductive Style where
  | bold
  | dim
  | red
  | green
  | yellow
  deriving DecidableEq, Repr

/-- The number by which a terminal knows a style. -/
def Style.code : Style → Nat
  | .bold => 1
  | .dim => 2
  | .red => 31
  | .green => 32
  | .yellow => 33

/-- Switch the style of a terminal; 0 switches all styles off. -/
def switch (code : Nat) : String :=
  "\x1b[" ++ toString code ++ "m"

/-- A text in a style. -/
def Style.apply (style : Style) (s : String) : String :=
  switch style.code ++ s ++ switch 0

/-- A horizontal double line. -/
def rule (width : Nat) : String :=
  Text.repeated width "═"

/-- The number of places in a bar of progress. -/
def barWidth : Nat := 20

/-- A text filled up with blanks on its left side. -/
def rightAligned (width : Nat) (s : String) : String :=
  Text.repeated (width - s.length) " " ++ s

/-- A bar for a percentage; more than 100 counts as 100. -/
def progressBar (percent : Nat) : String :=
  let percent := min percent 100
  let filled := percent * barWidth / 100
  "[" ++ Text.repeated filled "#" ++ Text.repeated (barWidth - filled) "-" ++ "] "
    ++ rightAligned 3 (toString percent) ++ "%"

/-- A duration in seconds with one decimal place. -/
def duration (ms : Nat) : String :=
  let nanos := ms % 1000 * 1000000
  Decimal.fixedText 1 ((ms / 1000).toFloat + nanos.toFloat / 1000000000.0) ++ "s"

end Pipeworks.Command
