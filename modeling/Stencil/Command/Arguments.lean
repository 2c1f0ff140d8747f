/-!
# Command line arguments

The command line names one template file. Options with a value take it after an
equals sign or from the next argument, which then must not look like an option;
after a lone double dash every argument is the template. No option may be given
twice, a path must not be empty, and the assigns are given directly or as a file,
not both.

Arguments are read one at a time. Asking for help or the version ends reading, so
it precedes every mistake that comes after it.
-/

namespace Stencil

/-- What a rendering is asked for with. -/
structure Arguments where
  template : String
  assigns : Option String
  assignsFile : Option String
  config : Option String
  snippetsDir : Option String
  extension : Option String
  noStrip : Bool
  verbose : Bool
  deriving DecidableEq, Repr

/-- What a command line asks for. -/
inductive Invocation where
  | render (arguments : Arguments)
  | help
  | version
  | usageError
  deriving DecidableEq, Repr

namespace Arguments

/-- The options that take a value. -/
inductive ValueOption where
  | assigns
  | assignsFile
  | config
  | snippetsDir
  | extension
  deriving DecidableEq, Repr

/-- The options without a value. -/
inductive Flag where
  | noStrip
  | verbose
  | help
  | version
  deriving DecidableEq, Repr

/-- The option of a long name. -/
def ValueOption.ofName? : String → Option ValueOption
  | "assigns" => some .assigns
  | "assigns-file" => some .assignsFile
  | "config" => some .config
  | "snippets-dir" => some .snippetsDir
  | "extension" => some .extension
  | _ => none

/-- Whether the value is a path, which must not be empty. -/
def ValueOption.isPath : ValueOption → Bool
  | .assigns | .extension => false
  | .assignsFile | .config | .snippetsDir => true

/-- The flag of a long name. -/
def Flag.ofName? : String → Option Flag
  | "no-strip" => some .noStrip
  | "verbose" => some .verbose
  | "help" => some .help
  | "version" => some .version
  | _ => none

/-- The flag of a letter. -/
def Flag.ofLetter? : Char → Option Flag
  | 'v' => some .verbose
  | 'h' => some .help
  | 'V' => some .version
  | _ => none

/-- The arguments read so far: the values of options, the flags, the template, and the
option whose value must come next. -/
structure Reading where
  values : List (ValueOption × String)
  flags : List Flag
  template : Option String
  pending : Option ValueOption

/-- The result of an argument: reading goes on, or the invocation is decided. -/
inductive Step where
  | reading (state : Reading)
  | decided (invocation : Invocation)

/-- Nothing has been read. -/
def Reading.start : Reading := ⟨[], [], none, none⟩

/-- The value of an option. -/
def Reading.value? (state : Reading) (option : ValueOption) : Option String :=
  (state.values.find? (·.1 = option)).map Prod.snd

/-- Takes the value of an option. -/
def Reading.takeValue (state : Reading) (option : ValueOption) (value : String) : Step :=
  if option.isPath && value.isEmpty then .decided .usageError
  else .reading { state with values := (option, value) :: state.values, pending := none }

/-- Takes an option, whose value may be attached. -/
def Reading.takeOption (state : Reading) (option : ValueOption) (attached : Option String) : Step :=
  if (state.value? option).isSome then .decided .usageError
  else
    match attached with
    | some value => state.takeValue option value
    | none => .reading { state with pending := some option }

/-- Takes a flag. -/
def Reading.takeFlag (state : Reading) (flag : Flag) : Step :=
  match flag with
  | .help => .decided .help
  | .version => .decided .version
  | _ =>
    if state.flags.contains flag then .decided .usageError
    else .reading { state with flags := flag :: state.flags }

/-- Takes the template. -/
def Reading.takeTemplate (state : Reading) (path : String) : Step :=
  if path.isEmpty || state.template.isSome then .decided .usageError
  else .reading { state with template := some path }

/-- Takes an argument after its double dash: a name, and a value if an equals sign
follows it. -/
def Reading.takeLong (state : Reading) (argument : List Char) : Step :=
  let name := String.ofList (argument.takeWhile (· ≠ '='))
  let attached :=
    match argument.dropWhile (· ≠ '=') with
    | [] => none
    | _ :: value => some (String.ofList value)
  match ValueOption.ofName? name, Flag.ofName? name, attached with
  | some option, _, _ => state.takeOption option attached
  | none, some flag, none => state.takeFlag flag
  | none, _, _ => .decided .usageError

/-- Takes the letters of an argument after its dash. -/
def Reading.takeLetters (state : Reading) : List Char → Step
  | [] => .reading state
  | letter :: letters =>
    match Flag.ofLetter? letter with
    | none => .decided .usageError
    | some flag =>
      match state.takeFlag flag with
      | .decided invocation => .decided invocation
      | .reading next => takeLetters next letters

/-- Takes an argument that follows nothing but complete ones. -/
def Reading.take (state : Reading) (argument : String) : Step :=
  match argument.toList with
  | '-' :: '-' :: rest => state.takeLong rest
  | '-' :: letter :: letters => state.takeLetters (letter :: letters)
  | _ => state.takeTemplate argument

/-- Whether an argument looks like an option. A lone dash does not. -/
def looksLikeOption (argument : String) : Bool :=
  match argument.toList with
  | '-' :: _ :: _ => true
  | _ => false

/-- What has been asked for when the arguments end. -/
def Reading.finish (state : Reading) : Invocation :=
  let assigns := state.value? .assigns
  let assignsFile := state.value? .assignsFile
  match state.template, state.pending with
  | some template, none =>
    if assigns.isSome && assignsFile.isSome then .usageError
    else .render {
      template := template
      assigns := assigns
      assignsFile := assignsFile
      config := state.value? .config
      snippetsDir := state.value? .snippetsDir
      extension := state.value? .extension
      noStrip := state.flags.contains .noStrip
      verbose := state.flags.contains .verbose }
  | _, _ => .usageError

/-- Goes on after an argument, unless it decided the invocation. -/
def Step.andThen (step : Step) (next : Reading → Invocation) : Invocation :=
  match step with
  | .decided invocation => invocation
  | .reading state => next state

/-- Reads arguments after the double dash: each is the template. -/
def readTemplates (state : Reading) : List String → Invocation
  | [] => state.finish
  | argument :: arguments =>
    (state.takeTemplate argument).andThen fun next => readTemplates next arguments

/-- Reads arguments from a state. -/
def readFrom (state : Reading) : List String → Invocation
  | [] => state.finish
  | argument :: arguments =>
    match state.pending with
    | some option =>
      if looksLikeOption argument then .usageError
      else (state.takeValue option argument).andThen fun next => readFrom next arguments
    | none =>
      if argument = "--" then readTemplates state arguments
      else (state.take argument).andThen fun next => readFrom next arguments

/-- What a command line asks for. -/
def read (arguments : List String) : Invocation := readFrom .start arguments

end Arguments

end Stencil
