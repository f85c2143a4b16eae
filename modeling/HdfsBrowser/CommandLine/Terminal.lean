/-!
# Terminals

Colours of texts, for terminals that show them.
-/

namespace HdfsBrowser.CommandLine

def styled (code : String) (on : Bool) (text : String) : String :=
  if on then "\x1b[" ++ code ++ "m" ++ text ++ "\x1b[0m" else text

def bold : Bool → String → String := styled "1"

def dim : Bool → String → String := styled "2"

def red : Bool → String → String := styled "31"

def usesColor (noColor : Option String) (isTerminal : Bool) : Bool :=
  (noColor.getD "").isEmpty && isTerminal

end HdfsBrowser.CommandLine
