import Docmark.Files.Path
import Docmark.Page.Context

/-!
The arguments of the command line. They are read from left to right, and the first help request or
mistake ends the reading.
-/

namespace Docmark.Command

inductive Slot
  | input
  | output
  | secondary
  | unexpected
  | search
  | directory
  | settings
  deriving DecidableEq, Repr

inductive Switch
  | stdin
  | stdout
  | git
  | readme
  /-- Taken, but a run tells no more for it than its warnings. -/
  | verbose
  deriving DecidableEq, Repr

inductive Misuse
  | unknown (argument : Text)
  | missingValue (slot : Slot)
  | needlessValue (argument : Text)
  | repeatedSlot (slot : Slot)
  | repeatedSwitch (switch : Switch)
  | unknownPolicy (name : Text)
  deriving DecidableEq, Repr

inductive Item
  | value (slot : Slot) (text : Text)
  | switch (switch : Switch)
  | help
  | mistake (misuse : Misuse)
  deriving DecidableEq, Repr

def Slot.name : Slot → Text
  | input => "inputfile"
  | output => "outputfile"
  | secondary => "secondaryDir"
  | unexpected => "unexpected"
  | search => "search"
  | directory => "directory"
  | settings => "settings"

def Slot.letter : Slot → Char
  | input => 'i'
  | output => 'o'
  | secondary => 'l'
  | unexpected => 'u'
  | search => 's'
  | directory => 'd'
  | settings => 'f'

def Switch.name : Switch → Text
  | stdin => "cin"
  | stdout => "cout"
  | git => "git"
  | readme => "readme"
  | verbose => "verbose"

def Switch.letter? : Switch → Option Char
  | stdin | stdout => none
  | git => some 'g'
  | readme => some 'r'
  | verbose => some 'v'

def slots : List Slot :=
  [.input, .output, .secondary, .unexpected, .search, .directory, .settings]

def switches : List Switch :=
  [.stdin, .stdout, .git, .readme, .verbose]

def Misuse.message : Misuse → Text
  | unknown argument => "unexpected argument '" ++ argument ++ "' found"
  | missingValue slot => "a value is required for '--" ++ slot.name ++ "' but none was supplied"
  | needlessValue argument => "unexpected value in '" ++ argument ++ "'"
  | repeatedSlot slot => "the argument '--" ++ slot.name ++ "' cannot be used multiple times"
  | repeatedSwitch switch => "the argument '--" ++ switch.name ++ "' cannot be used multiple times"
  | unknownPolicy name => "invalid value '" ++ name ++ "' for '--unexpected'"

def readLetters : Text → List Item × Option Slot
  | [] => ([], none)
  | c :: rest =>
    if c = 'h' then ([.help], none)
    else
      match switches.find? (·.letter? = some c), slots.find? (·.letter = c) with
      | some switch, _ =>
        let (items, waiting) := readLetters rest
        (.switch switch :: items, waiting)
      | none, some slot =>
        if rest.isEmpty then ([], some slot)
        else ([.value slot ((Text.dropOpening? ['='] rest).getD rest)], none)
      | none, none => ([.mistake (.unknown ['-', c])], none)

def readName (name : Text) : List Item × Option Slot :=
  if name = "help" then ([.help], none)
  else
    match switches.find? (·.name = name), slots.find? (·.name = name) with
    | some switch, _ => ([.switch switch], none)
    | none, some slot => ([], some slot)
    | none, none => ([.mistake (.unknown ("--" ++ name))], none)

def readAssignment (name value : Text) : Item :=
  match slots.find? (·.name = name) with
  | some slot => .value slot value
  | none =>
    if name = "help" || switches.any (·.name = name) then
      .mistake (.needlessValue ("--" ++ name ++ "=" ++ value))
    else .mistake (.unknown ("--" ++ name))

def readArgument : Text → List Item × Option Slot
  | '-' :: '-' :: long =>
    match Text.cutFirst? '=' long with
    | some (name, value) => ([readAssignment name value], none)
    | none => readName long
  | '-' :: c :: rest => readLetters (c :: rest)
  | argument => ([.mistake (.unknown argument)], none)

def looksLikeOption (argument : Text) : Bool :=
  argument.head? = some '-' && argument != ['-']

/-- The items of the arguments; the slot is one that waits for its value. Nothing may follow `--`. -/
def items : Option Slot → List Text → List Item
  | none, [] => []
  | some slot, [] => [.mistake (.missingValue slot)]
  | some slot, argument :: rest =>
    if looksLikeOption argument then [.mistake (.missingValue slot)]
    else .value slot argument :: items none rest
  | none, argument :: rest =>
    if argument = "--" then rest.head?.toList.map fun extra => .mistake (.unknown extra)
    else (readArgument argument).1 ++ items (readArgument argument).2 rest

inductive Stop
  | help
  | misuse (cause : Misuse)
  deriving DecidableEq, Repr

structure Given where
  values : List (Slot × Text)
  switches : List Switch
  deriving DecidableEq, Repr

namespace Given

def value? (g : Given) (slot : Slot) : Option Text :=
  g.values.lookup slot

def has (g : Given) (switch : Switch) : Bool :=
  g.switches.contains switch

def policy? (name : Text) : Option Policy :=
  (Policy.ofName name).toOption

def add (g : Given) : Item → Except Stop Given
  | .help => .error .help
  | .mistake cause => .error (.misuse cause)
  | .switch switch =>
    if g.has switch then .error (.misuse (.repeatedSwitch switch))
    else .ok { g with switches := switch :: g.switches }
  | .value slot text =>
    if (g.value? slot).isSome then .error (.misuse (.repeatedSlot slot))
    else if slot = .unexpected && (policy? text).isNone then
      .error (.misuse (.unknownPolicy text))
    else .ok { g with values := (slot, text) :: g.values }

end Given

structure Arguments where
  options : Options
  settingsFile : Path
  input : Option Path
  output : Option Path
  secondary : Option Path
  stdin : Bool
  stdout : Bool
  search : Option Path
  directory : Text
  readme : Bool
  deriving DecidableEq, Repr

namespace Arguments

def ofGiven (g : Given) : Arguments where
  options := {
    policy := ((g.value? .unexpected).bind Given.policy?).getD .error
    layout := if g.has .git then .singlePage else .perAssembly }
  settingsFile := (g.value? .settings).getD "settings.json"
  input := g.value? .input
  output := g.value? .output
  secondary := g.value? .secondary
  stdin := g.has .stdin
  stdout := g.has .stdout
  search := g.value? .search
  directory := (g.value? .directory).getD "Release"
  readme := g.has .readme

def parse (arguments : List Text) : Except Stop Arguments :=
  if arguments.isEmpty then .error .help
  else ((items none arguments).foldlM Given.add ⟨[], []⟩).map ofGiven

end Arguments
end Docmark.Command
