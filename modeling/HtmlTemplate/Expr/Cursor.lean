import HtmlTemplate.Expr.Pipeline
import HtmlTemplate.Text.Bytes
/-!
Cutting a source by the places of its bytes.  A cursor goes over the bytes once and keeps the places
at which a head, a stage and the arguments of a stage begin, and the place at which those arguments
end.  From these places the source is sliced.  A slice may fail, and so may the counts of the open
brackets, which have 32 bits.
-/

namespace HtmlTemplate

namespace Scan

/-- The counts of open brackets fit into 32 bits. -/
def fits (scan : Scan) : Bool :=
  [scan.curly, scan.square, scan.paren].all fun n => -2147483648 ≤ n && n ≤ 2147483647

end Scan

namespace Pipeline

/-- A stage before its arguments are read: they are what stands in its parentheses. -/
structure Call where
  name : Text
  arguments : Option Text

/-- What is known of a source at one of its bytes.  The heads and calls before it are those that
have ended. -/
structure Cursor where
  scan : Scan
  offset : Nat
  headStart : Nat
  stageStart : Option Nat
  argumentsStart : Option Nat
  argumentsStop : Option Nat
  heads : List Text
  calls : List Call

namespace Cursor

def start : Cursor := ⟨.start, 0, 0, none, none, none, [], []⟩

/-- Slices a call out of a source.  Its arguments end where its stage ends, unless they have ended
after they began. -/
def call? (s : Text) (start stop : Nat) (argumentsStart argumentsStop : Option Nat) :
    Option Call := do
  let source ← s.slice? start stop
  let body := source.trim
  match body.byteIndex? '(', argumentsStart with
  | some opening, some first =>
      let arguments ← s.slice? first ((argumentsStop.filter (first ≤ ·)).getD stop)
      let name ← body.slice? 0 opening
      return ⟨name.trim, some arguments⟩
  | _, _ => return ⟨body, none⟩

/-- Ends the head or the stage that the cursor is in. -/
def close? (s : Text) (cursor : Cursor) : Option Cursor :=
  match cursor.stageStart with
  | none =>
      (s.slice? cursor.headStart cursor.offset).map fun head =>
        { cursor with heads := cursor.heads ++ [head.trim] }
  | some start =>
      (call? s start cursor.offset cursor.argumentsStart cursor.argumentsStop).map fun call =>
        { cursor with calls := cursor.calls ++ [call] }

/-- Takes note of a parenthesis that opens or closes the arguments of a stage. -/
def mark (cursor : Cursor) (b : Char) : Cursor :=
  { cursor with
    argumentsStart :=
      if cursor.stageStart.isSome && (b = '(' && cursor.scan.inCode && cursor.scan.paren = 0) then
        some (cursor.offset + 1)
      else cursor.argumentsStart
    argumentsStop :=
      if cursor.stageStart.isSome && (b = ')' && cursor.scan.inCode && cursor.scan.paren = 1) then
        some cursor.offset
      else cursor.argumentsStop }

/-- Reads a byte where `rest` follows it. -/
def visit? (s : Text) (cursor : Cursor) (b : Char) (rest : Text) : Option Cursor :=
  if Separator.pipe.separates cursor.scan b rest then
    (cursor.close? s).map fun closed =>
      { closed with
        stageStart := some (cursor.offset + 1), argumentsStart := none, argumentsStop := none }
  else if cursor.stageStart.isNone && Separator.comma.separates cursor.scan b rest then
    (cursor.close? s).map fun closed => { closed with headStart := cursor.offset + 1 }
  else some (cursor.mark b)

def pass (cursor : Cursor) (b : Char) : Cursor :=
  { cursor with scan := cursor.scan.step b, offset := cursor.offset + 1 }

/-- Goes on behind a byte, unless more brackets are open than can be counted. -/
def pass? (cursor : Cursor) (b : Char) : Option Cursor :=
  if (cursor.scan.step b).fits then some (cursor.pass b) else none

def walk? (s : Text) (cursor : Cursor) : Text → Option Cursor
  | [] => cursor.close? s
  | b :: rest => do
      let visited ← cursor.visit? s b rest
      let passed ← visited.pass? b
      walk? s passed rest

end Cursor

/-- Cuts a source into a pipeline by the places of its bytes.  The arguments of a stage are the
heads of a source that has to be shorter. -/
def split? (s : Text) : Option Pipeline := do
  let cursor ← Cursor.start.walk? s s.bytes
  let stages ← cursor.calls.mapM fun call =>
    match call.arguments with
    | none => some ⟨call.name, []⟩
    | some arguments =>
        if Text.isBlankText arguments then some ⟨call.name, []⟩
        else if _hshorter : arguments.length < s.length then
          (split? arguments).map fun pipeline => ⟨call.name, pipeline.heads⟩
        else none
  return ⟨cursor.heads, stages⟩
termination_by s.length

end Pipeline

end HtmlTemplate
