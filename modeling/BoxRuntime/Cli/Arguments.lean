/-
  Arguments of the command line.

  Arguments are read from left to right.  The first thing that is wrong refuses them all, and a
  request for the version or for help is granted as soon as it is met.  An option may be given once
  only, overrides of the log level apart.  Options may stand before or after the script; after two
  dashes nothing is an option any more.
-/
import BoxRuntime.Cli.Verbosity

namespace BoxRuntime.Cli

/-- How log lines look on the error stream. -/
inductive LogFormat where
  | pretty
  | compact
  | json
deriving DecidableEq

def LogFormat.ofName? : String → Option LogFormat
  | "pretty" => some .pretty
  | "compact" => some .compact
  | "json" => some .json
  | _ => none

/-- What to run, and how. -/
structure Options where
  debug : Bool := false
  level : Verbosity := .warn
  overrides : List (Component × Verbosity) := []
  format : LogFormat := .compact
  logFile : Option String := none
  /-- The number of log records kept to be shown when the program fails; zero keeps none. -/
  ringSize : Nat := 256
  script : String
deriving DecidableEq

/-- What the arguments ask for. -/
inductive Request where
  | run (o : Options)
  | version
  | help
  /-- The arguments are refused. -/
  | invalid
deriving DecidableEq

/-- What has been given so far. -/
structure Given where
  debug : Bool := false
  level : Option Verbosity := none
  overrides : List (Component × Verbosity) := []
  format : Option LogFormat := none
  logFile : Option String := none
  ringSize : Option Nat := none
  script : Option String := none

namespace Given

/-- Sets something that may be set once. -/
def once {α : Type} (old : Option α) (new : Option α) (set : α → Given) : Option Given :=
  match old, new with
  | none, some a => some (set a)
  | _, _ => none

/-- A path; it is not empty. -/
def path? (s : String) : Option String :=
  if s.isEmpty then none else some s

/-- Takes an option with its value. -/
def setOption (g : Given) (name value : String) : Option Given :=
  match name with
  | "log-level" => once g.level (parseLevel value).toOption fun l => { g with level := some l }
  | "log" => (parseOverride value).toOption.map fun o => { g with overrides := g.overrides ++ [o] }
  | "log-format" => once g.format (LogFormat.ofName? value) fun f => { g with format := some f }
  | "log-file" => once g.logFile (path? value) fun p => { g with logFile := some p }
  | "ring-size" => once g.ringSize (word? value) fun n => { g with ringSize := some n }
  | _ => none

def setDebug (g : Given) : Option Given :=
  if g.debug then none else some { g with debug := true }

def setScript (g : Given) (s : String) : Option Given :=
  once g.script (path? s) fun p => { g with script := some p }

/-- All that was given, completed by the defaults.  The script has none. -/
def request (g : Given) : Request :=
  match g.script with
  | none => .invalid
  | some script =>
    .run
      { debug := g.debug
        level := g.level.getD .warn
        overrides := g.overrides
        format := g.format.getD .compact
        logFile := g.logFile
        ringSize := g.ringSize.getD 256
        script }

end Given

/-- The options that take a value. -/
def valueOptions : List String :=
  ["log-level", "log", "log-format", "log-file", "ring-size"]

/-- An argument that cannot be the value of an option.  A single dash can. -/
def isOptionLike : List Char → Bool
  | '-' :: _ :: _ => true
  | _ => false

/-- A bundle of one-letter options. -/
def bundle (g : Given) : List Char → Request ⊕ Given
  | [] => .inr g
  | 'D' :: rest =>
    match g.setDebug with
    | some g => bundle g rest
    | none => .inl .invalid
  | 'V' :: _ => .inl .version
  | 'h' :: _ => .inl .help
  | _ => .inl .invalid

/-- Arguments after two dashes. -/
def afterDashes (g : Given) : List String → Request
  | [] => g.request
  | s :: rest =>
    match g.setScript s with
    | some g => afterDashes g rest
    | none => .invalid

/-- An option that takes no value. -/
def flag (g : Given) : String → Request ⊕ Given
  | "debug" =>
    match g.setDebug with
    | some g => .inr g
    | none => .inl .invalid
  | "version" => .inl .version
  | "help" => .inl .help
  | _ => .inl .invalid

/-- Reads arguments from left to right. -/
def read (g : Given) : List String → Request
  | [] => g.request
  | arg :: rest =>
    match arg.toList with
    | ['-', '-'] => afterDashes g rest
    | '-' :: '-' :: name =>
      match splitAtEquals (String.ofList name) with
      | some (name, value) =>
        match g.setOption name value with
        | some g => read g rest
        | none => .invalid
      | none =>
        -- Without `=` the value is the next argument, unless that looks like an option itself.
        if valueOptions.contains (String.ofList name) then
          match rest with
          | [] => .invalid
          | value :: rest =>
            if isOptionLike value.toList then .invalid
            else
              match g.setOption (String.ofList name) value with
              | some g => read g rest
              | none => .invalid
        else
          match flag g (String.ofList name) with
          | .inl r => r
          | .inr g => read g rest
    -- One dash and a word: a row of short options, of which the last may want a value.
    | '-' :: c :: letters =>
      match bundle g (c :: letters) with
      | .inl r => r
      | .inr g => read g rest
    | _ =>
      match g.setScript arg with
      | some g => read g rest
      | none => .invalid

/-- What some arguments ask for. -/
def Request.ofArguments (args : List String) : Request :=
  read {} args

end BoxRuntime.Cli
