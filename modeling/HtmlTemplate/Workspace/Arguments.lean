import HtmlTemplate.Template.App
/-!
The words of a command line: a command with its operands, options that take a value, and a switch
that asks for more messages.
-/

namespace HtmlTemplate

inductive UsageError where
  | noCommand
  | unknownCommand (word : Text)
  | missingOperand (operand : String)
  | extraOperand (word : Text)
  | unknownOption (name : Text)
  | missingValue (name : Text)
  | repeatedOption (name : Text)
  | notNumber (name value : Text)
  deriving DecidableEq

namespace UsageError

def message : UsageError → String
  | .noCommand => "a command is required: render or eval"
  | .unknownCommand word => "unrecognized command `" ++ String.ofList word ++ "`"
  | .missingOperand operand => "the " ++ operand ++ " is required"
  | .extraOperand word => "unexpected argument `" ++ String.ofList word ++ "`"
  | .unknownOption name => "unexpected option `" ++ String.ofList name ++ "`"
  | .missingValue name => "a value is required for `" ++ String.ofList name ++ "`"
  | .repeatedOption name => "`" ++ String.ofList name ++ "` cannot be used multiple times"
  | .notNumber name value =>
      "invalid value `" ++ String.ofList value ++ "` for `" ++ String.ofList name ++ "`"

end UsageError

/-- A command line taken apart: operands in order, the values of options by their names, and whether
more messages are wanted. -/
structure Arguments where
  operands : List Text
  options : Fields Text
  verbose : Bool

namespace Arguments

/-- A command line to which an operand is put in front. -/
def addOperand (word : Text) (arguments : Arguments) : Arguments :=
  { arguments with operands := word :: arguments.operands }

/-- A command line to which the value of an option is put in front. -/
def addOption (name value : Text) (arguments : Arguments) : Except UsageError Arguments :=
  if arguments.options.names.contains name then .error (.repeatedOption name)
  else .ok { arguments with options := (name, value) :: arguments.options }

/-- Takes words apart.  The value of an option is the next word, or follows an equals sign; after
two hyphens every word is an operand. -/
def ofWords : List Text → Except UsageError Arguments
  | [] => .ok ⟨[], [], false⟩
  | word :: rest =>
      if word = "--".toList then .ok ⟨rest, [], false⟩
      else if word = "-v".toList || word = "--verbose".toList then do
        let arguments ← ofWords rest
        .ok { arguments with verbose := true }
      else if "--".toList.isPrefixOf word then
        match Text.breakOn ['='] word with
        | some (name, value) => do (← ofWords rest).addOption name value
        | none =>
            match rest with
            | [] => .error (.missingValue word)
            | value :: rest => do (← ofWords rest).addOption word value
      else if word.head? = some '-' && word.length ≠ 1 then .error (.unknownOption word)
      else do .ok ((← ofWords rest).addOperand word)

def checkOptions (arguments : Arguments) (known : List Text) : Except UsageError Unit :=
  match arguments.options.names.find? fun name => !known.contains name with
  | some name => .error (.unknownOption name)
  | none => .ok ()

end Arguments

inductive Invocation where
  | render (template : Text) (data components : Option Text) (limit : Nat) (out : Option Text)
  | evaluate (source : Text) (data : Option Text)
  deriving DecidableEq

namespace Invocation

def limitOf (options : Fields Text) : Except UsageError Nat :=
  match options.get? "--max-depth".toList with
  | none => .ok App.defaultLimit
  | some value =>
      match Value.indexOfText? value with
      | some limit => .ok limit
      | none => .error (.notNumber "--max-depth".toList value)

def ofArguments (arguments : Arguments) : Except UsageError Invocation :=
  let option := fun name : String => arguments.options.get? name.toList
  match arguments.operands with
  | [] => .error .noCommand
  | command :: operands =>
      if command = "render".toList then do
        arguments.checkOptions
          (["--data", "--components", "--max-depth", "--out"].map String.toList)
        let limit ← limitOf arguments.options
        match operands with
        | [] => .error (.missingOperand "path of a template")
        | [template] =>
            .ok (.render template (option "--data") (option "--components") limit (option "--out"))
        | _ :: word :: _ => .error (.extraOperand word)
      else if command = "eval".toList then do
        arguments.checkOptions ["--data".toList]
        match operands with
        | [] => .error (.missingOperand "expression")
        | [source] => .ok (.evaluate source (option "--data"))
        | _ :: word :: _ => .error (.extraOperand word)
      else .error (.unknownCommand command)

end Invocation

end HtmlTemplate
