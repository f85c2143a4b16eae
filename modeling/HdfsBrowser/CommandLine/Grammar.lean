import HdfsBrowser.Number.Decimal
import HdfsBrowser.Text.Column
import HdfsBrowser.Text.Quoted

/-!
# Grammars of command lines

A command line is made of switches, which start with a hyphen, and of
operands.  A switch may be shortened as long as it stays the only one, and its
value stands behind an equals sign or in the next argument.  What looks like a
negative number or contains a space is an operand, and so is everything after
the first `--`.

Switches and operands are read from left to right.  Operands take as many
arguments as they can before the next switch; what nobody takes is left over.
-/

namespace HdfsBrowser.CommandLine

/-! ## Switches and operands -/

inductive SwitchKind where
  | help
  | flag
  | text
  | number
  deriving DecidableEq, Repr

structure Switch where
  names : List String
  kind : SwitchKind
  deriving DecidableEq, Repr

inductive Count where
  | one
  | atMostOne
  | atLeastOne
  /-- One argument, and everything behind it. -/
  | everything
  deriving DecidableEq, Repr

structure Operand where
  name : String
  count : Count
  deriving DecidableEq, Repr

structure Grammar where
  program : String
  switches : List Switch
  operands : List Operand
  deriving DecidableEq, Repr

def Switch.title (s : Switch) : String := Text.joinWith "/" s.names

def Grammar.spellings (g : Grammar) : List (String × Switch) :=
  g.switches.flatMap fun s => s.names.map fun name => (name, s)

/-! ## Faults -/

inductive UsageFault where
  | ambiguous (given : String) (candidates : List String)
  | ignored (switch : Switch) (text : String)
  | noValue (switch : Switch)
  | notNumber (switch : Switch) (text : String)
  | unknownChoice (operand given : String) (choices : List String)
  | missing (operands : List String)
  | unrecognized (texts : List String)
  deriving DecidableEq, Repr

def UsageFault.message : UsageFault → String
  | .ambiguous given candidates =>
    "ambiguous option: " ++ given ++ " could match " ++ Text.joinWith ", " candidates
  | .ignored s text =>
    "argument " ++ s.title ++ ": ignored explicit argument " ++ Text.quoted text
  | .noValue s => "argument " ++ s.title ++ ": expected one argument"
  | .notNumber s text => "argument " ++ s.title ++ ": invalid float value: " ++ Text.quoted text
  | .unknownChoice operand given choices =>
    "argument " ++ operand ++ ": invalid choice: " ++ Text.quoted given ++ " (choose from " ++
      Text.joinWith ", " (choices.map Text.quoted) ++ ")"
  | .missing operands =>
    "the following arguments are required: " ++ Text.joinWith ", " operands
  | .unrecognized texts => "unrecognized arguments: " ++ Text.joinWith " " texts

inductive Stop where
  | help (program : String)
  | fault (program : String) (why : UsageFault)
  deriving DecidableEq, Repr

/-! ## Tokens -/

inductive Attached where
  | nothing
  | letters (text : String)
  | value (text : String)
  deriving DecidableEq, Repr

structure Named where
  switch : Switch
  attached : Attached
  deriving DecidableEq, Repr

inductive Token where
  | operand (text : String)
  | divider
  | switch (text : String) (named : Option Named)
  deriving DecidableEq, Repr

namespace Token

def text : Token → String
  | operand text => text
  | divider => "--"
  | switch text _ => text

def isSwitch : Token → Bool
  | switch .. => true
  | _ => false

end Token

def looksNegative (cs : List Char) : Bool :=
  let isDigit (c : Char) : Bool := (Text.decimalDigit? c).isSome
  let body := match cs with
    | '-' :: rest => if rest.getLast? = some '\n' then rest.dropLast else rest
    | _ => []
  match body.dropWhile isDigit with
  | [] => !body.isEmpty
  | c :: places => c == '.' && !places.isEmpty && places.all isDigit

namespace Grammar

def candidates (g : Grammar) (arg : List Char) : List (String × Named) :=
  match arg with
  | '-' :: '-' :: _ =>
    let (start, value) := Text.cutAtFirst '=' arg
    let attached : Attached := match value with
      | some v => .value (String.ofList v)
      | none => .nothing
    g.spellings.filterMap fun (name, s) =>
      if start.isPrefixOf name.toList then some (name, ⟨s, attached⟩) else none
  | _ =>
    g.spellings.filterMap fun (name, s) =>
      if name.toList = arg.take 2 then some (name, ⟨s, .letters (String.ofList (arg.drop 2))⟩)
      else none

def spelledOut? (g : Grammar) (arg : List Char) : Option Named :=
  let spelled (name : List Char) : Option Switch :=
    (g.spellings.find? (·.1.toList == name)).map (·.2)
  match spelled arg with
  | some s => some ⟨s, .nothing⟩
  | none =>
    match Text.cutAtFirst '=' arg with
    | (name, some value) => (spelled name).map (⟨·, .value (String.ofList value)⟩)
    | _ => none

def classify (g : Grammar) (arg : String) : Except Stop Token :=
  let cs := arg.toList
  if cs.head? ≠ some '-' then .ok (.operand arg)
  else
    match g.spelledOut? cs with
    | some named => .ok (.switch arg (some named))
    | none =>
      if cs.length = 1 then .ok (.operand arg)
      else
        match g.candidates cs with
        | [(_, named)] => .ok (.switch arg (some named))
        | [] =>
          if looksNegative cs || cs.contains ' ' then .ok (.operand arg)
          else .ok (.switch arg none)
        | several => .error (.fault g.program (.ambiguous arg (several.map (·.1))))

/-- What the arguments are; all behind the first `--` are operands. -/
def tokens (g : Grammar) : List String → Except Stop (List Token)
  | [] => .ok []
  | arg :: rest =>
    if arg = "--" then .ok (.divider :: rest.map .operand)
    else do
      let token ← g.classify arg
      .ok (token :: (← g.tokens rest))

end Grammar

/-! ## Readings -/

structure Reading where
  flags : List String
  texts : List (String × String)
  numbers : List (String × Binary64)
  operands : List (String × List String)
  extras : List String
  deriving DecidableEq, Repr

namespace Reading

def empty : Reading := ⟨[], [], [], [], []⟩

def hasFlag (r : Reading) (name : String) : Bool := r.flags.contains name

def text? (r : Reading) (name : String) : Option String :=
  (r.texts.reverse.find? (·.1 == name)).map (·.2)

def number? (r : Reading) (name : String) : Option Binary64 :=
  (r.numbers.reverse.find? (·.1 == name)).map (·.2)

def arguments (r : Reading) (name : String) : List String :=
  ((r.operands.find? (·.1 == name)).map (·.2)).getD []

def argument? (r : Reading) (name : String) : Option String := (r.arguments name).head?

end Reading

/-- How much of the tokens an operand takes, if it can take any. -/
def Count.take (count : Count) (ts : List Token) : Option (List Token × List Token) :=
  let isDivider (t : Token) : Bool := t == .divider
  let (lead, body) := ts.span isDivider
  match count, body with
  | .one, .operand text :: rest =>
    let (trail, rest) := rest.span isDivider
    some (lead ++ .operand text :: trail, rest)
  | .atMostOne, .operand text :: rest =>
    let (trail, rest) := rest.span isDivider
    some (lead ++ .operand text :: trail, rest)
  | .atMostOne, body => some (lead, body)
  | .atLeastOne, .operand text :: rest =>
    let (more, rest) := rest.span (!·.isSwitch)
    some (lead ++ .operand text :: more, rest)
  | .everything, .operand text :: rest => some (lead ++ .operand text :: rest, [])
  | _, _ => none

/-- The arguments among some tokens: the first `--` only divides. -/
def Count.arguments (count : Count) (ts : List Token) : List String :=
  let texts := ts.map Token.text
  if count = .everything then texts else texts.erase "--"

structure Scan where
  awaited : List Operand
  reading : Reading
  tokens : List Token
  deriving DecidableEq, Repr

namespace Scan

def takeOperands (reading : Reading) (ts : List Token) : List Operand → Scan
  | [] => ⟨[], reading, ts⟩
  | o :: awaited =>
    match o.count.take ts with
    | none => ⟨o :: awaited, reading, ts⟩
    | some (taken, rest) =>
      takeOperands
        { reading with operands := reading.operands ++ [(o.name, o.count.arguments taken)] }
        rest awaited

def leave (s : Scan) (texts : List String) (rest : List Token) : Scan :=
  { s with reading := { s.reading with extras := s.reading.extras ++ texts }, tokens := rest }

def stray? : List Char → Option String
  | [] => none
  | '-' :: rest => some (String.ofList ('-' :: rest))
  | 'h' :: '=' :: rest => some (String.ofList rest)
  | 'h' :: rest => stray? rest
  | _ :: _ => none

def setValue (program : String) (s : Scan) (switch : Switch) (value : String)
    (rest : List Token) : Except Stop Scan :=
  let name := switch.names.headD ""
  if switch.kind = .number then
    match Decimal.read? value with
    | some x =>
      .ok { s with
        reading := { s.reading with numbers := s.reading.numbers ++ [(name, x)] }, tokens := rest }
    | none => .error (.fault program (.notNumber switch value))
  else
    .ok { s with
      reading := { s.reading with texts := s.reading.texts ++ [(name, value)] }, tokens := rest }

def setFlag (program : String) (s : Scan) (named : Named) (rest : List Token) :
    Except Stop Scan :=
  let ignored (text : String) : Except Stop Scan :=
    .error (.fault program (.ignored named.switch text))
  let set : Except Stop Scan :=
    if named.switch.kind = .help then .error (.help program)
    else
      .ok { s with
        reading := { s.reading with flags := s.reading.flags ++ [named.switch.names.headD ""] }
        tokens := rest }
  match named.attached with
  | .nothing => set
  | .value text => ignored text
  | .letters text =>
    match stray? text.toList with
    | some stray => ignored stray
    | none => set

def takeSwitch (program : String) (s : Scan) (named : Named) (rest : List Token) :
    Except Stop Scan :=
  if named.switch.kind = .text ∨ named.switch.kind = .number then
    match named.attached, rest with
    | .value text, _ | .letters text, _ => setValue program s named.switch text rest
    | .nothing, .operand text :: rest => setValue program s named.switch text rest
    | .nothing, _ => .error (.fault program (.noValue named.switch))
  else setFlag program s named rest

/-- Reads at least one token: operands, what nobody takes, or a switch. -/
def step (program : String) (s : Scan) : Except Stop Scan :=
  match s.tokens with
  | [] => .ok s
  | .switch text none :: rest => .ok (s.leave [text] rest)
  | .switch _ (some named) :: rest => takeSwitch program s named rest
  | ts =>
    let taken := takeOperands s.reading ts s.awaited
    if taken.tokens.length < ts.length then .ok taken
    else
      let (front, rest) := ts.span (!·.isSwitch)
      .ok (taken.leave (front.map Token.text) rest)

def toLastSwitch (program : String) : Nat → Scan → Except Stop Scan
  | 0, s => .ok s
  | fuel + 1, s =>
    if s.tokens.any Token.isSwitch then do toLastSwitch program fuel (← s.step program)
    else .ok s

end Scan

namespace Grammar

def missing (awaited : List Operand) : List String :=
  (awaited.filter (·.count != .atMostOne)).map (·.name)

def read (g : Grammar) (args : List String) : Except Stop Reading := do
  let ts ← g.tokens args
  let s ← Scan.toLastSwitch g.program ts.length ⟨g.operands, .empty, ts⟩
  let last := Scan.takeOperands s.reading s.tokens s.awaited
  let s := last.leave (last.tokens.map Token.text) []
  match missing s.awaited with
  | [] => .ok s.reading
  | names => .error (.fault g.program (.missing names))

end Grammar

end HdfsBrowser.CommandLine
