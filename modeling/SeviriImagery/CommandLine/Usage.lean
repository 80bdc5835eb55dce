import SeviriImagery.CommandLine.Switch

/-!
# Usage lines

A usage line shows what may stand on a command line.  The general one names all switches at once; a
narrow one shows chosen switches only, those that were given and those that may have been meant.
Operands are always shown.
-/

namespace SeviriImagery.CommandLine

/-- Whose words are read: those in front of a task, those of a task, or those of the help. -/
inductive Scope where
  | program
  | task (t : Task)
  | help
deriving DecidableEq, Repr

namespace Scope

/-- The scope of the words of a task, or of those in front of it. -/
def ofTask : Option Task → Scope
  | none => program
  | some t => task t

/-- The words that lead into a scope. -/
def path : Scope → List String
  | program => ["xritconv"]
  | task t => ["xritconv", t.word]
  | help => ["xritconv", "help"]

/-- What stands for all switches of a scope. -/
def allSwitches : Scope → List String
  | program | task _ => ["[OPTIONS]"]
  | help => []

/-- The operands of a scope. -/
def operands : Scope → List String
  | program | help => []
  | task t => t.operands.map Operand.placeholder

/-- What stands for a task in the general usage of a scope. -/
def taskPlace : Scope → List String
  | program => ["[COMMAND]"]
  | task _ => []
  | help => ["[COMMAND]..."]

end Scope

/-- What a usage line shows. -/
structure Usage where
  scope : Scope
  /-- The switches of a narrow line. -/
  switches : Option (List Switch)
deriving DecidableEq, Repr

namespace Usage

/-- The general usage of a scope. -/
def general (scope : Scope) : Usage := ⟨scope, none⟩

/-- The words of a usage line. -/
def words (u : Usage) : List String :=
  u.scope.path ++
    (match u.switches with
      | none => u.scope.allSwitches ++ u.scope.operands ++ u.scope.taskPlace
      | some switches => switches.map Switch.text ++ u.scope.operands)

/-- A usage line. -/
def text (u : Usage) : String := "Usage: " ++ " ".intercalate u.words

end Usage

end SeviriImagery.CommandLine
