import Arrowlet.Options.Integer
import Arrowlet.Text.Quoted

/-!
# Options of the command line

Arguments begin with flags. A flag is a name after one or two dashes; its value follows an equals
sign, or is the next argument. A switch needs no value. Flags end at the first argument that is not
spelled like one, or after `--`; the arguments from there on are sources. A flag that is given again
replaces what it said before.
-/

namespace Arrowlet

/-- The flags of the command. -/
inductive Flag where
  /-- Where the output goes. -/
  | output
  /-- Prints the output. -/
  | toStdout
  /-- How many files may be worked on at a time. -/
  | jobs
  /-- Logs what is done. -/
  | verbose
  deriving DecidableEq, Repr

namespace Flag

/-- The name of a flag. -/
def name : Flag → Bytes
  | output => "out"
  | toStdout => "stdout"
  | jobs => "jobs"
  | verbose => "v"

/-- The flag with a given name. -/
def ofName? (name : Bytes) : Option Flag :=
  [output, toStdout, jobs, verbose].find? fun flag => flag.name = name

/-- Whether a flag can stand without a value. -/
def isSwitch : Flag → Bool
  | toStdout | verbose => true
  | output | jobs => false

end Flag

/-- How an argument is spelled. -/
inductive Argument where
  /-- No flag. -/
  | plain
  /-- The end of the flags. -/
  | terminator
  /-- A flag, with the value that follows an equals sign. -/
  | flag (name : Bytes) (value? : Option Bytes)
  /-- Dashes that begin no flag. -/
  | malformed
  deriving DecidableEq, Repr

namespace Argument

/-- The dash that flags begin with. -/
abbrev dash : UInt8 := 0x2d

/-- The sign between a flag and its value. -/
abbrev equals : UInt8 := 0x3d

/-- Reads what follows the dashes of a flag. -/
def ofBody : Bytes → Argument
  | [] => malformed
  | b :: rest =>
    if b = dash || b = equals then malformed
    else
      flag (b :: rest.takeWhile (· ≠ equals)) <|
        match rest.dropWhile (· ≠ equals) with
        | [] => none
        | _ :: value => some value

/-- Reads an argument. -/
def ofText (arg : Bytes) : Argument :=
  if arg.head? ≠ some dash || arg.length < 2 then plain
  else if arg = [dash, dash] then terminator
  else if arg.take 2 = [dash, dash] then ofBody (arg.drop 2)
  else ofBody (arg.drop 1)

end Argument

/-- Why arguments cannot be read. -/
inductive OptionError where
  /-- Nothing is wrong, but the usage is asked for. -/
  | help
  /-- An argument has dashes that begin no flag. -/
  | badSyntax (arg : Bytes)
  /-- There is no flag with this name. -/
  | undefined (name : Bytes)
  /-- The value of a switch is neither true nor false. -/
  | badSwitch (value name : Bytes)
  /-- The value of a flag is no integer. -/
  | badInteger (value name : Bytes) (fault : IntegerFault)
  /-- A flag is the last argument and has no value. -/
  | needsValue (name : Bytes)
  deriving DecidableEq, Repr

/-- The error in words, as a line. Asking for the usage is no error. -/
def OptionError.message : OptionError → Bytes
  | help => []
  | badSyntax arg => "bad flag syntax: " ++ arg ++ "\n"
  | undefined name => "flag provided but not defined: -" ++ name ++ "\n"
  | badSwitch value name =>
    "invalid boolean value " ++ value.quoted ++ " for -" ++ name ++ ": parse error\n"
  | badInteger value name fault =>
    "invalid value " ++ value.quoted ++ " for flag -" ++ name ++ ": " ++ fault.message ++ "\n"
  | needsValue name => "flag needs an argument: -" ++ name ++ "\n"

/-- What the flags of the command say. -/
structure Options where
  /-- Where the output goes; empty if that was not said. -/
  output : Bytes
  /-- Whether the output is printed. -/
  toStdout : Bool
  /-- How many files may be worked on at a time. -/
  jobs : Int
  /-- Whether to log what is done. -/
  verbose : Bool
  deriving DecidableEq, Repr

namespace Options

/-- What holds without flags on a machine with a given number of processors. -/
def initial (processors : Nat) : Options := ⟨[], false, processors, false⟩

/-- The words for true and false. -/
def switchWords : List (Bytes × Bool) :=
  [("1", true), ("t", true), ("T", true), ("true", true), ("TRUE", true), ("True", true),
    ("0", false), ("f", false), ("F", false), ("false", false), ("FALSE", false),
    ("False", false)]

/-- The options after a flag with a value. -/
def set (o : Options) (flag : Flag) (value : Bytes) : Except OptionError Options :=
  match flag with
  | .output => .ok { o with output := value }
  | .jobs =>
    match Integer.parse value with
    | .ok n => .ok { o with jobs := n }
    | .error fault => .error (.badInteger value flag.name fault)
  | .toStdout => switch fun b => { o with toStdout := b }
  | .verbose => switch fun b => { o with verbose := b }
where
  /-- The options that the value of a switch leads to. -/
  switch (result : Bool → Options) : Except OptionError Options :=
    match switchWords.lookup value with
    | some b => .ok (result b)
    | none => .error (.badSwitch value flag.name)

/-- The error for a name that no flag has. -/
def undefinedFlag (name : Bytes) : OptionError :=
  if name = ("help" : Bytes) ∨ name = ("h" : Bytes) then .help else .undefined name

/-- Reads the flags at the beginning of the arguments, and returns the arguments after them. -/
def parse (o : Options) : List Bytes → Except OptionError (Options × List Bytes)
  | [] => .ok (o, [])
  | arg :: rest =>
    match Argument.ofText arg with
    | .plain => .ok (o, arg :: rest)
    | .terminator => .ok (o, rest)
    | .malformed => .error (.badSyntax arg)
    | .flag name value? =>
      match Flag.ofName? name with
      | none => .error (undefinedFlag name)
      | some flag =>
        match value?, rest with
        | some value, rest => do
          let o ← o.set flag value
          o.parse rest
        | none, [] =>
          if flag.isSwitch then do
            let o ← o.set flag "true"
            return (o, [])
          else .error (.needsValue name)
        | none, next :: rest => do
          if flag.isSwitch then
            let o ← o.set flag "true"
            o.parse (next :: rest)
          else
            let o ← o.set flag next
            o.parse rest

end Options

end Arrowlet
