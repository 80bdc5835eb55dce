import SeviriImagery.CommandLine.Usage
import SeviriImagery.Text.Controls

/-!
# Refusals

Arguments are refused for a `Fault`.  A refusal may give a hint at what was meant, and shows the
usage unless it is a value that is wrong.  `Refusal.text` is all that is told, in blocks with empty
lines between them.

Words of the command line are quoted without the control sequences in them.
-/

namespace SeviriImagery.CommandLine

/-- What is wrong with arguments. -/
inductive Fault where
  | unexpected (argument : String)
  | unknownTask (word : String)
  | invalidValue (value : String) (switch : Switch) (reason : String)
  | valueRequired (owner : String)
  | unneededValue (value : String) (switch : Switch)
  | rivals (first second : Switch)
  | repeated (switch : Switch)
  | missing (operands : List Operand)
deriving DecidableEq, Repr

/-- What may have been meant. -/
inductive Hint where
  /-- A switch with a similar name. -/
  | similarSwitch (switch : Switch)
  /-- Tasks with similar names, the most similar one last. -/
  | similarTasks (words : List String)
  /-- A switch of a task that is named later. -/
  | switchOf (task : Task) (switch : Switch)
  /-- An operand that looks like a switch. -/
  | operand (argument : String)
  /-- A task, named where no task is expected any more. -/
  | escapedTask (word : String)
deriving DecidableEq, Repr

/-- Why arguments are refused, and what is told about it. -/
structure Refusal where
  fault : Fault
  hint : Option Hint
  usage : Option Usage
deriving DecidableEq, Repr

/-- A word in quotation marks. -/
def quoted (word : String) : String := "'" ++ word ++ "'"

/-- A word of the command line in quotation marks, `lead` standing in front of it. -/
def quotedArgument (lead argument : String) : String :=
  quoted (lead ++ Text.withoutControls argument)

/-- The words of a fault. -/
def Fault.message : Fault → String
  | .unexpected argument => "unexpected argument " ++ quotedArgument "" argument ++ " found"
  | .unknownTask word => "unrecognized subcommand " ++ quotedArgument "" word
  | .invalidValue value switch reason =>
      "invalid value " ++ quotedArgument "" value ++ " for " ++ quoted switch.text ++ ": " ++ reason
  | .valueRequired owner => "a value is required for " ++ quoted owner ++ " but none was supplied"
  | .unneededValue value switch =>
      "unexpected value " ++ quotedArgument "" value ++ " for " ++ quoted switch.text ++
        " found; no more were expected"
  | .rivals first second =>
      "the argument " ++ quoted first.text ++ " cannot be used with " ++ quoted second.text
  | .repeated switch => "the argument " ++ quoted switch.text ++ " cannot be used multiple times"
  | .missing operands => "the following required arguments were not provided:" ++
      String.join (operands.map fun o => "\n  " ++ o.placeholder)

/-- The words of a hint. -/
def Hint.message : Hint → String
  | .similarSwitch switch => "a similar argument exists: " ++ quoted switch.name
  | .similarTasks [word] => "a similar subcommand exists: " ++ quoted word
  | .similarTasks words =>
      "some similar subcommands exist: " ++ ", ".intercalate (words.map quoted)
  | .switchOf task switch => quoted (task.word ++ " " ++ switch.name) ++ " exists"
  | .operand argument =>
      "to pass " ++ quotedArgument "" argument ++ " as a value, use " ++ quotedArgument "-- " argument
  | .escapedTask word =>
      "subcommand " ++ quotedArgument "" word ++ " exists; to use it, remove the '--' before it"

namespace Refusal

/-- Whether there is help about what was refused; of the help itself there is none. -/
def offersHelp (r : Refusal) : Bool := r.usage.elim true fun u => u.scope != .help

/-- All that is told about a refusal. -/
def text (r : Refusal) : String :=
  let blocks := ["error: " ++ r.fault.message] ++
    (r.hint.map fun h => "  tip: " ++ h.message).toList ++
    (r.usage.map Usage.text).toList ++
    (if r.offersHelp then ["For more information, try '--help'."] else [])
  "\n\n".intercalate blocks ++ "\n"

end Refusal

end SeviriImagery.CommandLine
