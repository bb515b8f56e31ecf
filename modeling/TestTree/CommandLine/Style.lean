import TestTree.Text.Basic

namespace TestTree.CommandLine

inductive Style
  | bold
  | dimmed
  | red
  | green
  | yellow
  | magenta
  | cyan
  | boldRed
  | boldMagenta
deriving DecidableEq, Repr

/-- The numbers that a terminal knows a style by. -/
def Style.code : Style → Text
  | bold => "1"
  | dimmed => "2"
  | red => "31"
  | green => "32"
  | yellow => "33"
  | magenta => "35"
  | cyan => "36"
  | boldRed => "1;31"
  | boldMagenta => "1;35"

def paint (colors : Bool) (style : Style) (text : Text) : Text :=
  if colors then "\x1b[".toList ++ style.code ++ ['m'] ++ text ++ "\x1b[0m".toList else text

def line (text : Text) : Text := text ++ ['\n']

@[simp] theorem paint_plain (style : Style) (text : Text) : paint false style text = text := rfl

end TestTree.CommandLine
