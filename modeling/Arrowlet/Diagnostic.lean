import Arrowlet.Compile

/-!
# Diagnostics

A diagnostic is an error message followed by the line of the text that it is about, with a caret
under the place:

    1:11: expected ';', got end of input
      |> DEF x <- 5
      |>           ^

Tabs of the line are kept in front of the caret, so that it stands under the right character. An
error that names no line of the text is its message alone.
-/

namespace Arrowlet

namespace Diagnostic

/-- What stands in front of a caret under the given column of a line: a tab under a tab, a space
under any other character and beyond the end of the line. -/
def caretPad (line : Bytes) (column : Int) : Bytes :=
  let width := (column - 1).toNat
  let under := (line.units.take width).map fun u =>
    if u = .char '\t' then Bytes.tab else Bytes.space
  under ++ List.replicate (width - under.length) Bytes.space

/-- The line of a text with the given number, counted from one, without its carriage returns at the
end. -/
def line? (src : Bytes) (number : Int) : Option Bytes :=
  if number < 1 then none
  else src.lines[(number - 1).toNat]?.map (Bytes.trimRight (· = Bytes.carriageReturn))

/-- A message, and the line it is about with a caret under the place. -/
def render (message : Bytes) (pos? : Option Position) (src : Bytes) : Bytes :=
  match pos? with
  | none => message
  | some pos =>
    match line? src pos.line with
    | none => message
    | some line =>
      message ++ "\n  |> " ++ line ++ "\n  |> " ++ caretPad line pos.column ++ "^"

end Diagnostic

/-- The diagnostic of a text that cannot be compiled. -/
def CompileError.diagnostic (e : CompileError) (src : Bytes) : Bytes :=
  Diagnostic.render e.message e.position? src

/-- An error with the circumstances it was met in. -/
inductive Failure where
  /-- A text cannot be compiled. -/
  | compile (e : CompileError)
  /-- An error given in words. -/
  | stated (message : Bytes)
  /-- An error met while doing something else. -/
  | within (context : Bytes) (cause : Failure)
  deriving DecidableEq, Repr

namespace Failure

/-- The error in words, circumstances first. -/
def message : Failure → Bytes
  | compile e => e.message
  | stated message => message
  | within context cause => context ++ ": " ++ cause.message

/-- The place in a text that the error is about. -/
def position? : Failure → Option Position
  | compile e => e.position?
  | stated _ => none
  | within _ cause => cause.position?

/-- Whether the fault lies in a text that was to be compiled. -/
def isInSource : Failure → Bool
  | compile e => e.isInSource
  | stated _ => false
  | within _ cause => cause.isInSource

/-- The diagnostic of an error that is about a given text. -/
def diagnostic (f : Failure) (src : Bytes) : Bytes :=
  Diagnostic.render f.message f.position? src

/-- The diagnostic with the path of the text in front. -/
def located (f : Failure) (path src : Bytes) : Bytes := path ++ ":" ++ f.diagnostic src

end Failure

end Arrowlet
