/-
What the tool is asked to do.

The arguments name a command, and some commands have commands of their own.  Every argument is read
at the level of the command that it follows: an option takes the next argument as its value, unless
that looks like an option itself, and after `--` everything is a place.

* `Request`, `Invocation` — what may be asked for;
* `Level` — the commands with their options, their flags and the commands below them;
* `ArgumentKind`, `Level.classify` — what one argument means;
* `Arguments.read` — the arguments of one level after another;
* `Invocation.parse` — what the arguments ask for, if they do.
-/
import Groundwork.Storage.Path

set_option autoImplicit false

namespace Groundwork

/-- What the tool is asked to do. -/
inductive Request where
  /-- To report what a blueprint declares. -/
  | validate (file : FilePath)
  /-- To list the constructs of a blueprint in dependency order. -/
  | order (file : FilePath)
  /-- To draw a blueprint, into a directory if one is given. -/
  | draw (file : FilePath) (dest : Option FilePath)
  /-- To show the settings, as JSON or else as TOML. -/
  | showSettings (json : Bool)
  /-- To write the default settings to a file. -/
  | initSettings (file : FilePath)
deriving DecidableEq

/-- What the tool is asked to do, and with which settings. -/
structure Invocation where
  /-- What to do. -/
  request : Request
  /-- The file of settings that is asked for. -/
  config : Option FilePath := none
deriving DecidableEq

/-- Why there is nothing to do. -/
inductive Refusal where
  /-- Help is asked for. -/
  | help
  /-- The arguments make no sense. -/
  | misuse
deriving DecidableEq

/-! ### Levels -/

/-- The commands, which are the levels at which arguments are read. -/
inductive Level where
  /-- The tool itself. -/
  | root
  /-- Reporting on a blueprint. -/
  | validate
  /-- Listing in order. -/
  | order
  /-- Drawing. -/
  | dot
  /-- Commands on settings. -/
  | config
  /-- Showing settings. -/
  | show
  /-- Writing settings. -/
  | init
deriving DecidableEq

namespace Level

/-- The commands below a command, by their names. -/
def children : Level → List (String × Level)
  | .root => [("validate", .validate), ("order", .order), ("dot", .dot), ("config", .config)]
  | .config => [("show", .show), ("init", .init)]
  | _ => []

/-- The options with values, by their letters. -/
def options : Level → List (Char × String)
  | .dot | .init => [('c', "config"), ('o', "output")]
  | _ => [('c', "config")]

/-- The flags. -/
def flags : Level → List String
  | .show => ["toml", "json"]
  | _ => []

/-- The number of places of a command. -/
def places : Level → Nat
  | .validate | .order | .dot => 1
  | _ => 0

/-- Whether an option names a directory, which has to have a name. -/
def namesDirectory (l : Level) (option : String) : Bool := l = .dot && option = "output"

/-- The command that names lead to. -/
def descend (l : Level) (names : List String) : Option Level :=
  names.foldlM (fun l name => l.children.lookup name) l

end Level

/-! ### Arguments -/

/-- What one argument means. -/
inductive ArgumentKind where
  /-- A command. -/
  | command (level : Level)
  /-- A question for help about the commands that follow. -/
  | helpCommand
  /-- A question for help. -/
  | help
  /-- The mark after which everything is a place. -/
  | separator
  /-- A flag. -/
  | flag (name : String)
  /-- An option, with its value if that is attached. -/
  | option (name : String) (value : Option String)
  /-- A place. -/
  | place
  /-- An option that is not known. -/
  | unknown

/-- Whether an argument looks like an option; a single dash does not. -/
def looksLikeOption (s : String) : Bool :=
  match s.toList with
  | '-' :: _ :: _ => true
  | _ => false

/-- What an argument with two dashes means. -/
def Level.classifyLong (l : Level) (cs : List Char) : ArgumentKind :=
  let name := String.ofList (cs.takeWhile (· != '='))
  let value := match cs.dropWhile (· != '=') with
    | _ :: v => some (String.ofList v)
    | [] => none
  if (l.options.map (·.2)).contains name then .option name value
  else
    match value with
    | some _ => .unknown
    | none =>
      if name = "help" then .help else if l.flags.contains name then .flag name else .unknown

/-- What an argument with one dash means. -/
def Level.classifyShort (l : Level) (c : Char) (rest : List Char) : ArgumentKind :=
  match l.options.lookup c with
  | some name =>
    match rest with
    | [] => .option name none
    | '=' :: v => .option name (some (String.ofList v))
    | v => .option name (some (String.ofList v))
  | none => if c = 'h' then .help else .unknown

/-- What an argument means. -/
def Level.classify (l : Level) (arg : String) : ArgumentKind :=
  match l.children.lookup arg with
  | some child => .command child
  | none =>
    if arg = "help" && !l.children.isEmpty then .helpCommand
    else
      match arg.toList with
      | ['-', '-'] => .separator
      | '-' :: '-' :: cs => l.classifyLong cs
      | '-' :: c :: rest => l.classifyShort c rest
      | _ => .place

/-- The arguments that have been read. -/
structure Arguments where
  /-- The command at which arguments are read now. -/
  level : Level := .root
  /-- The options at this command. -/
  options : List (String × String) := []
  /-- The flags at this command. -/
  flags : List String := []
  /-- The places at this command. -/
  places : List String := []
  /-- The file of settings that was asked for before this command. -/
  config : Option String := none

namespace Arguments

/-- The file of settings that is asked for; what is said last counts. -/
def settingsFile (a : Arguments) : Option String := (a.options.lookup "config").or a.config

/-- Goes on to a command below. -/
def enter (a : Arguments) (level : Level) : Arguments := { level, config := a.settingsFile }

/-- Adds an option, which may be given only once. -/
def addOption (a : Arguments) (name value : String) : Except Refusal Arguments :=
  if (a.options.lookup name).isSome || (a.level.namesDirectory name && value.isEmpty) then
    .error .misuse
  else .ok { a with options := a.options ++ [(name, value)] }

/-- Adds a flag, which may be given only once. -/
def addFlag (a : Arguments) (name : String) : Except Refusal Arguments :=
  if a.flags.contains name then .error .misuse else .ok { a with flags := a.flags ++ [name] }

/-- Adds a place, of which there must not be too many. -/
def addPlace (a : Arguments) (value : String) : Except Refusal Arguments :=
  if a.places.length < a.level.places && !value.isEmpty then
    .ok { a with places := a.places ++ [value] }
  else .error .misuse

/-- Reads arguments after those that have been read. -/
def read (a : Arguments) : List String → Except Refusal Arguments
  | [] => .ok a
  | arg :: rest =>
    match a.level.classify arg with
    | .command level => (a.enter level).read rest
    | .helpCommand => .error (if (a.level.descend rest).isSome then .help else .misuse)
    | .help => .error .help
    | .separator => rest.foldlM addPlace a
    | .flag name => (a.addFlag name).bind fun a => a.read rest
    | .option name (some value) => (a.addOption name value).bind fun a => a.read rest
    | .option name none =>
      match rest with
      | [] => .error .misuse
      | value :: rest =>
        if looksLikeOption value then .error .misuse
        else (a.addOption name value).bind fun a => a.read rest
    | .place => (a.addPlace arg).bind fun a => a.read rest
    | .unknown => .error .misuse

/-- What the arguments ask for. -/
def request? (a : Arguments) : Option Request :=
  let output := (a.options.lookup "output").map FilePath.mk
  match a.level, a.places with
  | .validate, [file] => some (.validate ⟨file⟩)
  | .order, [file] => some (.order ⟨file⟩)
  | .dot, [file] => some (.draw ⟨file⟩ output)
  | .show, _ =>
    if a.flags.contains "toml" && a.flags.contains "json" then none
    else some (.showSettings (a.flags.contains "json"))
  | .init, _ => some (.initSettings (output.getD ⟨"infragraph.toml"⟩))
  | _, _ => none

end Arguments

/-- What the arguments ask for, if they do. -/
def Invocation.parse (args : List String) : Except Refusal Invocation := do
  let a ← ({} : Arguments).read args
  match a.request? with
  | some request => return { request, config := a.settingsFile.map FilePath.mk }
  | none => throw .misuse

end Groundwork
