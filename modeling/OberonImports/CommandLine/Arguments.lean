import OberonImports.Path

/-!
# Arguments

What a run is asked for by its arguments, which are byte sequences like the paths among them. Options
come first: `-c` or `--config` with the path of a configuration file, and `-v` or `--verbose`, each at
most once. Then comes a command, which may be missing; only `ranks` has an option of its own. Anything
else is a usage error.
-/

namespace OberonImports.CommandLine

open Text.Utf8 (encode decode?)

/-- What a run does. -/
inductive Command where
  | run
  | list
  | graph
  | ranks (json : Bool)
  | validate
  deriving Repr, DecidableEq

/-- The options in front of the command. -/
structure Options where
  config : Option Path
  verbose : Bool
  deriving Repr, DecidableEq

/-- What the arguments ask for. -/
inductive Request where
  | help
  | version
  | command (options : Options) (command : Command)
  deriving Repr, DecidableEq

/-- The form of an argument: the sign that ends the options, a long option with or without an
attached value, short options in a row, or a word. -/
inductive Argument where
  | endOfOptions
  | long (name : List UInt8) (value : Option (List UInt8))
  | short (letters : List UInt8)
  | word (bytes : List UInt8)
  deriving Repr, DecidableEq

def dash : UInt8 := 0x2D

def equalsSign : UInt8 := 0x3D

/-- The name of a long option, and the value behind the first equals sign. -/
def Argument.ofLong (option : List UInt8) : Argument :=
  match option.dropWhile (· ≠ equalsSign) with
  | [] => long option none
  | _ :: value => long (option.takeWhile (· ≠ equalsSign)) (some value)

/-- The form of an argument. A lone dash is a word. -/
def Argument.ofBytes : List UInt8 → Argument
  | first :: second :: rest =>
      if first ≠ dash then word (first :: second :: rest)
      else if second ≠ dash then short (second :: rest)
      else if rest = [] then endOfOptions
      else ofLong rest
  | bytes => word bytes

namespace Options

def none : Options := ⟨.none, false⟩

/-- The options with the path of a configuration file, which must be given once and not be empty. -/
def withConfig? (options : Options) (path : Path) : Option Options :=
  if options.config.isSome ∨ path = [] then .none else some { options with config := some path }

/-- The verbose options. They must not be verbose already. -/
def withVerbose? (options : Options) : Option Options :=
  if options.verbose then .none else some { options with verbose := true }

end Options

/-- What short options in a row amount to: options, options that lack the path of a configuration
file, or a request of their own. -/
inductive ShortResult where
  | options (options : Options)
  | awaitingConfig (options : Options)
  | request (request : Request)
  deriving Repr, DecidableEq

/-- The options with a path that is attached to a letter, with or without an equals sign. -/
def attachedConfig? (options : Options) : Path → Option ShortResult
  | [] => some (.awaitingConfig options)
  | c :: path =>
      (options.withConfig? (if c = equalsSign then path else c :: path)).map .options

/-- Read short options in a row. -/
def shortOptions? (options : Options) : List UInt8 → Option ShortResult
  | [] => some (.options options)
  | letter :: letters =>
      match Char.ofNat letter.toNat with
      | 'v' => do shortOptions? (← options.withVerbose?) letters
      | 'h' => some (.request .help)
      | 'V' => some (.request .version)
      | 'c' => attachedConfig? options letters
      | _ => none

def asksForHelp (argument : List UInt8) : Bool :=
  match Argument.ofBytes argument with
  | .long name none => name = encode "help"
  | .short (letter :: _) => Char.ofNat letter.toNat = 'h'
  | _ => false

def commandWords : List String := ["run", "list", "graph", "ranks", "validate"]

def helpWord : String := "help"

def noMore? (options : Options) (command : Command) : List (List UInt8) → Option Request
  | [] => some (.command options command)
  | argument :: arguments =>
      if Argument.ofBytes argument = .endOfOptions ∧ arguments = [] then
        some (.command options command)
      else if asksForHelp argument then some .help
      else none

def ranksOptions? (options : Options) (json : Bool) : List (List UInt8) → Option Request
  | [] => noMore? options (.ranks json) []
  | argument :: arguments =>
      if argument ≠ encode "--json" then noMore? options (.ranks json) (argument :: arguments)
      else if json then none
      else ranksOptions? options true arguments

def command? (options : Options) (word : List UInt8) (arguments : List (List UInt8)) :
    Option Request :=
  match decode? word with
  | some "run" => noMore? options .run arguments
  | some "list" => noMore? options .list arguments
  | some "graph" => noMore? options .graph arguments
  | some "validate" => noMore? options .validate arguments
  | some "ranks" => ranksOptions? options false arguments
  | some "help" =>
      match arguments with
      | [] => some .help
      | [word] => if word ∈ (helpWord :: commandWords).map encode then some .help else none
      | _ => none
  | _ => none

/-- Read arguments behind some options. `awaiting` says that the next one has to be the path of a
configuration file. -/
def arguments? (options : Options) (awaiting : Bool) : List (List UInt8) → Option Request
  | [] => if awaiting then none else some (.command options .run)
  | argument :: arguments =>
      match Argument.ofBytes argument, awaiting with
      | .word path, true => do arguments? (← options.withConfig? path) false arguments
      | _, true => none
      | .word word, false => command? options word arguments
      | .endOfOptions, false => if arguments = [] then some (.command options .run) else none
      | .long name value, false =>
          match decode? name, value with
          | some "config", none => arguments? options true arguments
          | some "config", some path => do arguments? (← options.withConfig? path) false arguments
          | some "verbose", none => do arguments? (← options.withVerbose?) false arguments
          | some "help", none => some .help
          | some "version", none => some .version
          | _, _ => none
      | .short letters, false =>
          match shortOptions? options letters with
          | none => none
          | some (.options options) => arguments? options false arguments
          | some (.awaitingConfig options) => arguments? options true arguments
          | some (.request request) => some request

def request? (arguments : List (List UInt8)) : Option Request := arguments? .none false arguments

end OberonImports.CommandLine
