set_option autoImplicit false

namespace PolishPlotter.Screen

structure Color where
  red : UInt8
  green : UInt8
  blue : UInt8
  deriving DecidableEq, Repr

structure Paint where
  colored : Color → String → String
  bold : String → String

namespace Paint

def rendition (parameters : String) : String := "\x1b[" ++ parameters ++ "m"

def painted (parameters text : String) : String :=
  rendition parameters ++ text ++ rendition "0"

def ansi : Paint where
  colored color := painted s!"38;2;{color.red};{color.green};{color.blue}"
  bold := painted "1"

end Paint

end PolishPlotter.Screen
