import SeviriImagery.CommandLine.Setting
import SeviriImagery.Product.Assembly
import SeviriImagery.Text.Similarity

/-!
# Reading a command line

Arguments are read from left to right.  A switch is written with its name behind two hyphens or with
its letter behind one; letters may be put together.  A value follows its switch as an argument of
its own, or stands behind an equals sign, or right behind the letter.  An argument `--` ends the
switches.

What an argument stands for is settled only when the next one is looked at, so an unknown argument
is refused before a wrong value in front of it.  Whatever no argument is wrong with is checked last:
rivals, and operands that are missing.

A refusal shows the switches given so far where that says more than the general usage, and hints at
similar names.
-/

namespace SeviriImagery.CommandLine

/-- What is still to be settled. -/
inductive Pending where
  | nothing
  /-- A switch that takes a value, which may be still to come. -/
  | switch (s : Switch) (value : Option String)
  | operand (o : Operand) (value : String)

/-- How far arguments have been read. -/
structure ArgumentState where
  /-- The task, if one was named. -/
  task : Option Task
  /-- Settings, latest first. -/
  settings : List Setting
  /-- Operands, latest first. -/
  operands : List String
  pending : Pending
  /-- Whether switches have ended. -/
  escaped : Bool

/-- Why reading ends early. -/
inductive Ending where
  | refused (why : Refusal)
  | help (scope : Scope)
  | version

/-- A switch added to others, if it is not among them. -/
def withSwitch (switches : List Switch) (s : Switch) : List Switch :=
  if switches.contains s then switches else switches ++ [s]

namespace ArgumentState

/-- Before the first argument of a task, or before a task is named. -/
def start (task : Option Task) : ArgumentState := ⟨task, [], [], .nothing, false⟩

/-- Whose arguments are read. -/
def scope (st : ArgumentState) : Scope := .ofTask st.task

/-- The switches given and settled, in the order in which they were given last. -/
def given (st : ArgumentState) : List Switch :=
  (st.settings.map Setting.switch).eraseDups.reverse

/-- The switches given, what is pending among them even if its value is wrong.  A switch given twice
that may be given once only does not count at all. -/
def givenInAll (st : ArgumentState) : List Switch :=
  match st.pending with
  | .switch s (some _) => if st.given.contains s then st.given.erase s else st.given ++ [s]
  | _ => st.given

/-- The operands that have been named, settled or not. -/
def operandCount (st : ArgumentState) : Nat :=
  match st.pending with
  | .operand .. => st.operands.length + 1
  | _ => st.operands.length

/-- A refusal that shows the general usage. -/
def refusal (st : ArgumentState) (fault : Fault) (hint : Option Hint) : Ending :=
  .refused ⟨fault, hint, some (.general st.scope)⟩

/-- A refusal that shows chosen switches. -/
def narrowRefusal (st : ArgumentState) (fault : Fault) (hint : Option Hint)
    (switches : List Switch) : Ending :=
  .refused ⟨fault, hint, some ⟨st.scope, some switches⟩⟩

/-- A refusal of a value. -/
def valueRefusal (fault : Fault) : Ending := .refused ⟨fault, none, none⟩

/-- A switch with its value added to the settings. -/
def apply (st : ArgumentState) (s : Switch) (value : String) : Except Ending ArgumentState := do
  if s = .help then throw (.help st.scope)
  if s = .version then throw .version
  if s ≠ .verbose ∧ st.given.contains s then throw (st.refusal (.repeated s) none)
  let setting ← (s.setting value).mapError valueRefusal
  return { st with settings := setting.toList ++ st.settings }

/-- Settles what is pending. -/
def settle (st : ArgumentState) : Except Ending ArgumentState :=
  let free := { st with pending := .nothing }
  match st.pending with
  | .nothing => .ok free
  | .switch s none => .error (valueRefusal (.valueRequired s.text))
  | .switch s (some value) => free.apply s value
  | .operand o value =>
      if o = .outputDirectory ∧ value.isEmpty then
        .error (valueRefusal (.valueRequired o.placeholder))
      else .ok { free with operands := value :: st.operands }

/-- Settles what is pending and applies a switch at once. -/
def applyNext (st : ArgumentState) (s : Switch) (value : String) :
    Except Ending ArgumentState := do
  (← st.settle).apply s value

/-- Settles what is pending and waits for the value of a switch. -/
def await (st : ArgumentState) (s : Switch) : Except Ending ArgumentState := do
  return { (← st.settle) with pending := .switch s none }

/-- A hint at an operand that looks like a switch, if there can be operands. -/
def operandHint (st : ArgumentState) (argument : String) : Option Hint :=
  st.task.map fun _ => .operand argument

/-- The switch of a task whose name is most similar to a name, if any is similar. -/
def similarSwitch? (task : Option Task) (name : String) : Option Switch :=
  (Text.similar Switch.longName name (Switch.availableFor task)).getLast?

/-- The first task named among words which has a switch with a similar name. -/
def similarSwitchLater? (name : String) (words : List String) : Option Hint :=
  words.findSome? fun word => do
    let task ← Task.ofWord? word
    let s ← similarSwitch? (some task) name
    return .switchOf task s

/-- Refuses a name that no switch has; `rest` is what follows on the command line. -/
def unknownName (st : ArgumentState) (name : String) (rest : List String) : Ending :=
  let argument := "--" ++ name
  let meant := similarSwitch? st.task name
  let hint := match meant with
    | some s => some (.similarSwitch s)
    | none => if st.task.isSome then st.operandHint argument else similarSwitchLater? name rest
  let shown := meant.elim st.givenInAll (withSwitch st.givenInAll)
  if shown.isEmpty && st.operandCount == 0 then st.refusal (.unexpected argument) hint
  else st.narrowRefusal (.unexpected argument) hint shown

/-- Refuses a word that is no task. -/
def unknownTask (st : ArgumentState) (word : String) : Ending :=
  if st.escaped && Task.words.contains word then
    st.refusal (.unexpected word) (some (.escapedTask word))
  else
    match Text.similar id word Task.words with
    | [] => st.refusal (.unknownTask word) none
    | words => st.refusal (.unknownTask word) (some (.similarTasks words))

/-- An argument that is no switch. -/
def operand (st : ArgumentState) (argument : String) : Except Ending ArgumentState :=
  match st.task with
  | none => .error (st.unknownTask argument)
  | some task =>
      match task.operands[st.operandCount]? with
      | none => .error (st.refusal (.unexpected argument) none)
      | some o => do return { (← st.settle) with pending := .operand o argument }

/-- A switch by its name, with the value that follows an equals sign. -/
def long (st : ArgumentState) (name : String) (value : Option String) (rest : List String) :
    Except Ending ArgumentState :=
  match (Switch.availableFor st.task).find? (fun s => s.longName == name) with
  | none => .error (st.unknownName name rest)
  | some s =>
      match s.placeholder?, value with
      | some _, some v => st.applyNext s v
      | some _, none => st.await s
      | none, some v =>
          .error (st.narrowRefusal (.unneededValue v s) none (withSwitch st.given s))
      | none, none => st.applyNext s ""

/-- Switches by their letters, put together. -/
def letters (st : ArgumentState) : List Char → Except Ending ArgumentState
  | [] => .ok st
  | c :: rest =>
      match (Switch.availableFor st.task).find? (fun s => s.letter? == some c) with
      | none =>
          let argument := String.ofList ['-', c]
          .error (st.refusal (.unexpected argument) (st.operandHint argument))
      | some s =>
          match s.placeholder?, rest with
          | none, rest => do (← st.applyNext s "").letters rest
          | some _, [] => st.await s
          | some _, '=' :: value => st.applyNext s (String.ofList value)
          | some _, value => st.applyNext s (String.ofList value)

/-- The switch that waits for its value. -/
def waiting? (st : ArgumentState) : Option Switch :=
  match st.pending with
  | .switch s none => if st.escaped then none else some s
  | _ => none

/-- One argument read; `rest` is what follows it. -/
def step (st : ArgumentState) (argument : String) (rest : List String) :
    Except Ending ArgumentState :=
  let awaited := st.waiting?
  let take := fun s => Except.ok { st with pending := .switch s (some argument) }
  match awaited.filter Switch.allowsHyphen with
  | some s => take s
  | none =>
      if st.escaped then st.operand argument
      else
        match argument.toList with
        | ['-', '-'] => .ok { st with escaped := true }
        | '-' :: '-' :: text =>
            let name := text.takeWhile (· ≠ '=')
            let value := if name.length < text.length then some (text.drop (name.length + 1)) else none
            st.long (String.ofList name) (value.map String.ofList) rest
        | '-' :: c :: more => st.letters (c :: more)
        | _ =>
            match awaited with
            | some s => take s
            | none => st.operand argument

/-- All arguments of a task read. -/
def readAll (st : ArgumentState) : List String → Except Ending ArgumentState
  | [] => .ok st
  | argument :: rest => do (← st.step argument rest).readAll rest

/-- Settles everything, and refuses rivals and missing operands. -/
def finish (st : ArgumentState) (task : Task) : Except Ending ArgumentState := do
  let last ← st.settle
  let given := last.given
  for s in given do
    match s.rival? with
    | some r =>
        if given.contains r then throw (last.narrowRefusal (.rivals s r) none (given.erase r))
    | none => pure ()
  let missing := task.operands.drop last.operands.length
  if !missing.isEmpty then throw (last.narrowRefusal (.missing missing) none given)
  return last

/-- How many times more detail was asked for. -/
def verbosity (st : ArgumentState) : Nat :=
  (st.settings.filter fun s => s.switch = .verbose).length

/-- The first setting that `pick` picks. -/
def pick? {α : Type} (st : ArgumentState) (pick : Setting → Option α) : Option α :=
  st.settings.findSome? pick

end ArgumentState

/-- The order of the bytes of a number. -/
inductive ByteOrder where
  | bigEndian
  | littleEndian
deriving DecidableEq, Repr

/-- What is to be done. -/
inductive Request where
  /-- Shows the pixels, or writes them to a file in an order of bytes. -/
  | decode (product : String) (options : DecodeOptions) (file : Option (ByteOrder × String))
  /-- Writes raw counts as a product. -/
  | store (product directory : String) (area : Option PixelArea)
  | info (product : String)
  | list (product : String)

/-- What is to be done, and how much is told about it. -/
structure Invocation where
  verbosity : Nat
  request : Request

/-- The request that a task, its operands and its settings make. -/
def request (task : Task) (st : ArgumentState) : Request :=
  let operands := st.operands.reverse
  let product := operands.headD ""
  let area := st.pick? fun s => match s with
    | .area a => some a
    | _ => none
  match task with
  | .info => .info product
  | .list => .list product
  | .store => .store product ((operands.drop 1).headD "") area
  | .decode =>
      let geoArea := st.pick? fun s => match s with
        | .geo a => some a
        | _ => none
      let file := st.pick? fun s => match s with
        | .bigEndian path => some (ByteOrder.bigEndian, path)
        | .littleEndian path => some (ByteOrder.littleEndian, path)
        | _ => none
      let raw := st.settings.any fun s => s.switch = .raw
      .decode product { DecodeOptions.standard with area, geoArea, calibrate := !raw } file

/-- Reads the arguments of a task. -/
def taskArguments (task : Task) (before : ArgumentState) (arguments : List String) :
    Except Ending Invocation := do
  let read ← (ArgumentState.start (some task)).readAll arguments
  let last ← read.finish task
  let verbosity := if last.verbosity = 0 then before.verbosity else last.verbosity
  return ⟨verbosity, request task last⟩

/-- The help that words ask for, each of which leads further; refused if one leads nowhere. -/
def helpOn : Scope → List String → Ending
  | scope, [] => .help scope
  | .program, word :: rest =>
      match Task.ofWord? word with
      | some task => helpOn (.task task) rest
      | none =>
          if word == Task.helpWord then helpOn .help rest
          else .refused ⟨.unknownTask word, none, some (.general .program)⟩
  | scope, word :: _ => .refused ⟨.unknownTask word, none, some (.general scope)⟩

/-- Reads arguments up to the task and then those of the task; `none` if there is no task. -/
def arguments (before : ArgumentState) : List String → Except Ending (Option Invocation)
  | [] => do
      let _ ← before.settle
      return none
  | word :: rest =>
      match if before.escaped then none else Task.ofWord? word with
      | some task => (taskArguments task before rest).map some
      | none =>
          if !before.escaped && word == Task.helpWord then .error (helpOn .program rest)
          else do arguments (← before.step word rest) rest

end SeviriImagery.CommandLine
