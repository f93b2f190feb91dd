/-!
# Command line arguments

The command line names script files and options, in any order. Arguments are read from left to
right and the first one that is wrong, or that asks for the version or the help text, decides. An
argument `--` makes all that follow it script names.

* `Argument.ofString` — the four shapes of an argument;
* `Request.parse` — what a command line asks for.
-/

namespace Easel.CommandLine

/-- What can be set on the command line. The two times are kept as they were given, or not given, so
that a second time is noticed. -/
structure Options where
  /-- The script files in the order given; none stands for standard input. -/
  scripts : List String
  /-- Summarise frames instead of drawing them. -/
  plain : Bool
  /-- How long to wait between two scripts, in milliseconds. -/
  intervalMs? : Option Nat
  /-- How long to leave the last frame on the screen, in milliseconds. -/
  holdMs? : Option Nat
  /-- How often more detailed diagnostics were asked for. -/
  verbosity : Nat
deriving DecidableEq, Repr

namespace Options

/-- No scripts, and nothing set. -/
def default : Options := ⟨[], false, none, none, 0⟩

/-- How long to wait between two scripts; not at all unless asked to. -/
def intervalMs (o : Options) : Nat := o.intervalMs?.getD 0

/-- How long to leave the last frame on the screen; a second and a half unless told otherwise. -/
def holdMs (o : Options) : Nat := o.holdMs?.getD 1500

end Options

/-- Why a command line is wrong. An error names the option without its hyphens, or the text that
could not be used. -/
inductive UsageError where
  | unknownOption (name : String)
  /-- An option that is allowed once was given again. -/
  | repeatedOption (name : String)
  /-- A value was attached to an option that takes none. -/
  | unexpectedValue (name : String)
  | missingValue (name : String)
  | invalidNumber (name value : String)
  | emptyScriptName
deriving DecidableEq, Repr

/-- The wording of the error, in one line. -/
def UsageError.message : UsageError → String
  | .unknownOption name => s!"error: unexpected argument '{name}' found"
  | .repeatedOption name => s!"error: the argument '{name}' cannot be used multiple times"
  | .unexpectedValue name => s!"error: unexpected value for '{name}'"
  | .missingValue name => s!"error: a value is required for '{name}'"
  | .invalidNumber name value => s!"error: invalid value '{value}' for '{name}'"
  | .emptyScriptName => "error: a script name must not be empty"

/-- The status that the program ends with if its command line is wrong. -/
def UsageError.exitCode : Nat := 2

/-- What a command line asks for. -/
inductive Request where
  | run (options : Options)
  | showVersion
  | showHelp
deriving DecidableEq, Repr

/-- The text that answers a request for the version. -/
def versionText : String := "painter 0.1.0\n"

/-- The text that answers a request for help. -/
def helpText : String :=
  "Run canvas scripts through a double-buffered loop\n\n" ++
    "Usage: painter [OPTIONS] [SCRIPTS]...\n\n" ++
    "Options:\n" ++
    "      --interval-ms <N>  Pause between two scripts, in milliseconds\n" ++
    "      --hold-ms <N>      Keep the last frame for this long, in milliseconds\n" ++
    "      --plain            Print one summary line per frame instead of drawing\n" ++
    "  -v, --verbose          More detailed diagnostics\n" ++
    "  -h, --help             Print help\n" ++
    "  -V, --version          Print version\n"

/-! ### Shapes of arguments -/

/-- An argument by its shape. The shape is told from the argument alone; what it means may depend on
the one before it, since a value may be an argument of its own. -/
inductive Argument where
  /-- Two hyphens alone. -/
  | endOfOptions
  /-- Two hyphens and a name, with a value if there is an equals sign. -/
  | long (name : String) (value? : Option String)
  /-- One hyphen and letters, each of which is an option. -/
  | letters (cs : List Char)
  /-- Anything else, a hyphen alone included. -/
  | script (name : String)
deriving DecidableEq, Repr

namespace Argument

/-- Splits a long option at its first equals sign. All later equals signs belong to the value. -/
def splitValue (cs : List Char) : List Char × Option (List Char) :=
  match cs.dropWhile (· ≠ '=') with
  | [] => (cs, none)
  | _ :: value => (cs.takeWhile (· ≠ '='), some value)

/-- The shape of an argument. A hyphen alone is no option, since nothing follows it. -/
def ofString (text : String) : Argument :=
  match text.toList with
  | ['-', '-'] => .endOfOptions
  | '-' :: '-' :: rest =>
    match splitValue rest with
    | (name, value?) => .long (String.ofList name) (value?.map String.ofList)
  | '-' :: c :: cs => .letters (c :: cs)
  | _ => .script text

/-- Only a script name's shape can stand as the separate value of an option. -/
def isScript : Argument → Bool
  | .script _ => true
  | .endOfOptions | .long .. | .letters _ => false

end Argument

/-- A number of milliseconds: decimal digits, with an optional plus sign, below `2 ^ 64`. Without
digits, or with anything else among them, it is none. -/
def milliseconds? (text : String) : Option Nat :=
  let digits := match text.toList with
    | '+' :: rest => rest
    | cs => cs
  if digits ≠ [] ∧ digits.all Char.isDigit then
    let value := digits.foldl (fun n c => 10 * n + (c.toNat - '0'.toNat)) 0
    if value < UInt64.size then some value else none
  else none

/-! ### Reading the command line -/

/-- The options that take a number. They differ only in their name and in the time that they set. -/
inductive Timing where
  | interval | hold
deriving DecidableEq, Repr

namespace Timing

/-- The name after the two hyphens. -/
def name : Timing → String
  | .interval => "interval-ms"
  | .hold => "hold-ms"

/-- The option with a name, if it takes a number. -/
def ofName? (name : String) : Option Timing :=
  [Timing.interval, .hold].find? fun timing => timing.name = name

/-- Sets the option, which is allowed once. -/
def set (timing : Timing) (value : String) (o : Options) : Except UsageError Options :=
  match milliseconds? value, timing, o.intervalMs?, o.holdMs? with
  | none, _, _, _ => .error (.invalidNumber timing.name value)
  | some n, .interval, none, _ => .ok { o with intervalMs? := some n }
  | some n, .hold, _, none => .ok { o with holdMs? := some n }
  -- The number is good, so the option has been given before.
  | some _, _, _, _ => .error (.repeatedOption timing.name)

end Timing

namespace Options

/-- Adds a script to those named so far. -/
def addScript (o : Options) (name : String) : Except UsageError Options :=
  if name.isEmpty then .error .emptyScriptName else .ok { o with scripts := o.scripts ++ [name] }

/-- Adds scripts in order; the first name that is empty ends it. -/
def addScripts (o : Options) : List String → Except UsageError Options
  | [] => .ok o
  | name :: rest =>
    match o.addScript name with
    | .error e => .error e
    | .ok o => o.addScripts rest

end Options

/-- What an option that takes no value leads to: more options, or a request that settles all. -/
abbrev Flagged := Except UsageError (Options ⊕ Request)

/-- A long option that takes no value. Only the first of them is refused a second time; more
diagnostics can be asked for as often as one likes. -/
def longFlag (o : Options) (name : String) : Flagged :=
  match name with
  | "plain" =>
    if o.plain then .error (.repeatedOption name) else .ok (.inl { o with plain := true })
  | "verbose" => .ok (.inl { o with verbosity := o.verbosity + 1 })
  | "version" => .ok (.inr .showVersion)
  | "help" => .ok (.inr .showHelp)
  | _ => .error (.unknownOption name)

/-- The names of long options that take no value, by which a value too many is told from an unknown
option. -/
def longFlagNames : List String := ["plain", "verbose", "version", "help"]

/-- Letters behind one hyphen, from left to right. A letter that settles all keeps those behind it
from being read. -/
def letterFlags (o : Options) : List Char → Flagged
  | [] => .ok (.inl o)
  | 'v' :: rest => letterFlags { o with verbosity := o.verbosity + 1 } rest
  | 'V' :: _ => .ok (.inr .showVersion)
  | 'h' :: _ => .ok (.inr .showHelp)
  | c :: _ => .error (.unknownOption (String.ofList [c]))

namespace Request

/-- What the rest of a command line asks for, given the options set so far. Whatever is wrong behind
a request that settles all is never seen. -/
def parseFrom (o : Options) : List String → Except UsageError Request
  | [] => .ok (.run o)
  | argument :: rest =>
    match Argument.ofString argument with
    -- Nothing behind the two hyphens is an option.
    | .endOfOptions => (o.addScripts rest).map .run
    | .script name =>
      match o.addScript name with
      | .error e => .error e
      | .ok o => parseFrom o rest
    | .letters cs =>
      match letterFlags o cs with
      | .error e => .error e
      | .ok (.inl o) => parseFrom o rest
      | .ok (.inr request) => .ok request
    | .long name value? =>
      match Timing.ofName? name, value?, rest with
      | none, some _, _ =>
        .error (if name ∈ longFlagNames then .unexpectedValue name else .unknownOption name)
      | none, none, rest =>
        match longFlag o name with
        | .error e => .error e
        | .ok (.inl o) => parseFrom o rest
        | .ok (.inr request) => .ok request
      | some timing, some value, rest =>
        match timing.set value o with
        | .error e => .error e
        | .ok o => parseFrom o rest
      -- The value is the next argument, which must not look like an option.
      | some _, none, [] => .error (.missingValue name)
      | some timing, none, value :: rest =>
        if (Argument.ofString value).isScript then
          match timing.set value o with
          | .error e => .error e
          | .ok o => parseFrom o rest
        else .error (.missingValue name)

/-- What a command line asks for. Nothing is set in the beginning. -/
def parse (arguments : List String) : Except UsageError Request := parseFrom .default arguments

end Request

end Easel.CommandLine
