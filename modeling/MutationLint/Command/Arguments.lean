import MutationLint.Command.Overrides

/-! Reading the command line. Options and paths may be mixed, `--` ends the options, and an option
that takes a value takes whatever follows it. -/

namespace MutationLint.Command

inductive Switch where
  | commonjs
  | prototypes
  | allowThis
  | functionProps
  | noReducers
  | lodashImports
  | debug
  | help
  deriving DecidableEq, Repr

inductive Setting where
  | exception
  | reducer
  | ignoreMethod
  | rule
  | config
  deriving DecidableEq, Repr

structure CheckArguments where
  paths : List Text := []
  switches : List Switch := []
  exceptions : List Text := []
  reducers : List Text := []
  ignoredMethods : List Text := []
  rules : List Text := []
  config : Option Text := none
  deriving DecidableEq, Repr

inductive Invocation where
  | check (arguments : CheckArguments)
  | rules
  | version
  | help
  deriving DecidableEq, Repr

def endOfOptions : Text := "--"

def helpOption : Text := "--help"

def versionOption : Text := "--version"

def switches : List (Text × Switch) :=
  [("--commonjs", .commonjs), ("--prototypes", .prototypes), ("--allow-this", .allowThis),
    ("--function-props", .functionProps), ("--no-reducers", .noReducers),
    ("--lodash-imports", .lodashImports), ("--debug", .debug), (helpOption, .help)]

def longSettings : List (Text × Setting) :=
  [("--exception", .exception), ("--reducer", .reducer), ("--ignore-method", .ignoreMethod),
    ("--rule", .rule), ("--config", .config)]

def shortSettings : List (Char × Setting) := [('e', .exception), ('r', .rule), ('c', .config)]

inductive Argument where
  | positional
  | switch (s : Switch)
  /-- A setting, with its value when that is part of the argument. -/
  | setting (s : Setting) (value : Option Text)
  | unknown
  deriving DecidableEq, Repr

def classifyShort : List Mark → Argument
  | .char c :: rest =>
    match shortSettings.lookup c with
    | some s => .setting s (if rest.isEmpty then none else some ⟨rest⟩)
    | none => .unknown
  | _ => .unknown

def dash : Mark := .char '-'

def isOption (arg : Text) : Bool := arg.marks.head? == some dash && 1 < arg.length

/-- What an argument is. The value of a long option may follow an equals sign. -/
def classify (arg : Text) : Argument :=
  if !isOption arg then .positional
  else
    let (name, value) := arg.cut '='
    match switches.lookup name, longSettings.lookup name with
    | some s, _ => if value.isNone then .switch s else .unknown
    | none, some s => .setting s value
    | none, none =>
      if arg.marks.take 2 == [dash, dash] then .unknown else classifyShort (arg.marks.drop 1)

namespace CheckArguments

def withSetting (a : CheckArguments) (s : Setting) (value : Text) : CheckArguments :=
  match s with
  | .exception => { a with exceptions := a.exceptions ++ [value] }
  | .reducer => { a with reducers := a.reducers ++ [value] }
  | .ignoreMethod => { a with ignoredMethods := a.ignoredMethods ++ [value] }
  | .rule => { a with rules := a.rules ++ [value] }
  | .config => { a with config := some value }

/-- Reads arguments on top of those already read; nothing when the usage is wrong. -/
def read? (a : CheckArguments) : List Text → Option CheckArguments
  | [] => some a
  | arg :: rest =>
    if arg = endOfOptions then some { a with paths := a.paths ++ rest }
    else match classify arg with
      | .positional => read? { a with paths := a.paths ++ [arg] } rest
      | .switch s => read? { a with switches := s :: a.switches } rest
      | .setting s (some value) => read? (a.withSetting s value) rest
      | .setting s none =>
        match rest with
        | value :: rest => read? (a.withSetting s value) rest
        | [] => none
      | .unknown => none

def has (a : CheckArguments) (s : Switch) : Bool := a.switches.contains s

/-- The reducers to use: none at all, those given, or whatever the project says. -/
def reducerNames (a : CheckArguments) : Option (List Text) :=
  if a.has .noReducers then some [] else if a.reducers.isEmpty then none else some a.reducers

def overrides (a : CheckArguments) : Overrides :=
  { commonjs := a.has .commonjs
    prototypes := a.has .prototypes
    allowThis := a.has .allowThis
    functionProps := a.has .functionProps
    lodashImports := a.has .lodashImports
    exceptions := a.exceptions
    reducers := a.reducerNames
    ignoredMethods := a.ignoredMethods }

end CheckArguments

/-- The arguments of `rules`, which takes none but a call for help. -/
def readRules? (args : List Text) : Option Invocation :=
  let (early, late) := args.span (· != endOfOptions)
  if early.any fun a => isOption a && a != helpOption then none
  else if early.contains helpOption then some .help
  else if early.isEmpty && (late.drop 1).isEmpty then some .rules
  else none

def readCheck? (args : List Text) : Option Invocation :=
  (CheckArguments.read? {} args).map fun a => if a.has .help then .help else .check a

def readCommand? : List Text → Option Invocation
  | [] => none
  | name :: rest =>
    if name = "check" then readCheck? rest else if name = "rules" then readRules? rest else none

/-- Options that come before the command answer for themselves, and the version comes before
help. -/
def readOptions? (answer : Option Invocation) : List Text → Option Invocation
  | [] => answer
  | arg :: rest =>
    if arg = endOfOptions then answer.or (readCommand? rest)
    else if arg = versionOption then readOptions? (some .version) rest
    else if arg = helpOption then readOptions? (answer.or (some .help)) rest
    else if isOption arg then none
    else answer.or (readCommand? (arg :: rest))

def read? (args : List Text) : Option Invocation := readOptions? none args

end MutationLint.Command
