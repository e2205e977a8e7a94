/-!
# Arguments

The command takes switches, options with a value and at most one file.  A switch has a long name and
mostly a letter, letters may be put together behind one dash, and the value of an option follows it
or is joined to it.  Behind two dashes everything is a file.
-/

namespace VersionSweep

/-- What a command asks for. -/
structure Arguments where
  file : Option String
  stdin : Bool
  version : Option String
  markdown : Bool
  errors : Bool
  regress : Bool
  diff : Bool
  libraryPath : Option String
  config : Option String
  listVersions : Bool
  deriving DecidableEq, Repr

/-- The ways in which arguments do not make a command. -/
inductive UsageError where
  | unknown (argument : String)
  | repeated (name : String)
  | missingValue (name : String)
  | emptyValue (name : String)
  | unwantedValue (name : String)
  | secondFile (path : String)
  | stdinWithFile
  | diffWithoutRegress
  deriving DecidableEq, Repr

/-- The switches. -/
inductive Switch where
  | stdin
  | markdown
  | errors
  | regress
  | diff
  | listVersions
  deriving DecidableEq, Repr

/-- The options with a value. -/
inductive ValueOption where
  | version
  | libraryPath
  | config
  deriving DecidableEq, Repr

namespace Arguments

def none : Arguments :=
  ⟨.none, false, .none, false, false, false, false, .none, .none, false⟩

/-- What a name stands for. -/
inductive Named where
  | switch (switch : Switch)
  | option (option : ValueOption)
  | help

def ofLong? (name : String) : Option Named :=
  if name = "stdin" then some (.switch .stdin)
  else if name = "version" then some (.option .version)
  else if name = "markdown" then some (.switch .markdown)
  else if name = "errors" then some (.switch .errors)
  else if name = "regress" then some (.switch .regress)
  else if name = "diff" then some (.switch .diff)
  else if name = "lib-dir" then some (.option .libraryPath)
  else if name = "config" then some (.option .config)
  else if name = "list-versions" then some (.switch .listVersions)
  else if name = "help" then some .help
  else .none

def ofLetter? (letter : Char) : Option Named :=
  if letter = 's' then some (.switch .stdin)
  else if letter = 'v' then some (.option .version)
  else if letter = 'm' then some (.switch .markdown)
  else if letter = 'e' then some (.switch .errors)
  else if letter = 'r' then some (.switch .regress)
  else if letter = 'd' then some (.switch .diff)
  else if letter = 'h' then some .help
  else .none

/-- Why the reading of arguments ended early. -/
inductive Stop where
  | usage (error : UsageError)
  /-- The user asks how the command is used. -/
  | help
  deriving DecidableEq, Repr

/-- The arguments so far, the option that waits for its value, and whether all that follows is a
file. -/
structure State where
  found : Arguments
  waiting : Option ValueOption
  filesOnly : Bool

def ValueOption.name : ValueOption → String
  | .version => "version"
  | .libraryPath => "lib-dir"
  | .config => "config"

def isOn (found : Arguments) : Switch → Bool
  | .stdin => found.stdin
  | .markdown => found.markdown
  | .errors => found.errors
  | .regress => found.regress
  | .diff => found.diff
  | .listVersions => found.listVersions

def turnOn (found : Arguments) : Switch → Arguments
  | .stdin => { found with stdin := true }
  | .markdown => { found with markdown := true }
  | .errors => { found with errors := true }
  | .regress => { found with regress := true }
  | .diff => { found with diff := true }
  | .listVersions => { found with listVersions := true }

def addSwitch (name : String) (switch : Switch) (found : Arguments) : Except Stop Arguments :=
  if found.isOn switch then .error (.usage (.repeated name)) else .ok (found.turnOn switch)

/-- Give an option its value, which can be done once.  A path is not empty. -/
def addValue (option : ValueOption) (value : String) (found : Arguments) :
    Except Stop Arguments :=
  let name := ValueOption.name option
  let old := match option with
    | .version => found.version
    | .libraryPath => found.libraryPath
    | .config => found.config
  if old.isSome then .error (.usage (.repeated name))
  else
    match option with
    | .version => .ok { found with version := some value }
    | .libraryPath =>
      if value = "" then .error (.usage (.emptyValue name))
      else .ok { found with libraryPath := some value }
    | .config =>
      if value = "" then .error (.usage (.emptyValue name))
      else .ok { found with config := some value }

def addFile (path : String) (found : Arguments) : Except Stop Arguments :=
  if found.file.isSome then .error (.usage (.secondFile path))
  else if path = "" then .error (.usage (.emptyValue "file"))
  else .ok { found with file := some path }

def settled (state : State) : Except Stop Arguments :=
  match state.waiting with
  | some option => .error (.usage (.missingValue (ValueOption.name option)))
  | .none => .ok state.found

/-- An argument with a long name, and with a value joined to it if there is one. -/
def takeLong (state : State) (name : String) (value : Option String) : Except Stop State :=
  match ofLong? name with
  | .none => .error (.usage (.unknown name))
  | some .help =>
    if value.isSome then .error (.usage (.unwantedValue name))
    else do
      let _ ← settled state
      .error .help
  | some (.switch switch) =>
    if value.isSome then .error (.usage (.unwantedValue name))
    else do
      let found ← addSwitch name switch (← settled state)
      return { state with found }
  | some (.option option) => do
    let found ← settled state
    match value with
    | some value =>
      let found ← addValue option value found
      return { state with found }
    | .none => return { state with found, waiting := some option }

/-- Letters behind a dash.  An option among them takes the letters after it as its value, an equals
sign in front of which does not belong to the value. -/
def takeLetters (state : State) : List Char → Except Stop State
  | [] => .ok state
  | letter :: rest =>
    match ofLetter? letter with
    | .none => .error (.usage (.unknown (String.ofList [letter])))
    | some .help => do
      let _ ← settled state
      .error .help
    | some (.switch switch) => do
      let found ← addSwitch (String.ofList [letter]) switch (← settled state)
      takeLetters { state with found } rest
    | some (.option option) => do
      let found ← settled state
      match rest with
      | [] => return { state with found, waiting := some option }
      | '=' :: value =>
        let found ← addValue option (String.ofList value) found
        return { state with found }
      | value =>
        let found ← addValue option (String.ofList value) found
        return { state with found }

def splitLong (cs : List Char) : String × Option String :=
  let name := String.ofList (cs.takeWhile (· ≠ '='))
  match cs.dropWhile (· ≠ '=') with
  | _ :: value => (name, some (String.ofList value))
  | [] => (name, .none)

/-- An argument that is no name: the value of the option that waits, or a file. -/
def takePlain (state : State) (argument : String) : Except Stop State :=
  match state.waiting with
  | some option => do
    let found ← addValue option argument state.found
    return { state with found, waiting := .none }
  | .none => do
    let found ← addFile argument state.found
    return { state with found }

def take (state : State) (argument : String) : Except Stop State :=
  if state.filesOnly then do
    let found ← addFile argument (← settled state)
    return { state with found }
  else
    match argument.toList with
    | ['-', '-'] => .ok { state with filesOnly := true }
    | '-' :: '-' :: rest =>
      let (name, value) := splitLong rest
      takeLong state name value
    | '-' :: letter :: rest => takeLetters state (letter :: rest)
    | _ => takePlain state argument

def validate (found : Arguments) : Except Stop Arguments :=
  if found.stdin && found.file.isSome then .error (.usage .stdinWithFile)
  else if found.diff && !found.regress then .error (.usage .diffWithoutRegress)
  else .ok found

def parse (arguments : List String) : Except Stop Arguments := do
  let state ← arguments.foldlM take ⟨none, .none, false⟩
  validate (← settled state)

end Arguments

end VersionSweep
