import Provision.Yaml.Cursor

/-!
# Plain scalars

A scalar without quotation marks runs on over blanks and line breaks until something comes that
cannot be part of it: a comment, an indicator, or a line that is indented too little.
-/

namespace Provision.Yaml.PlainScalar

/-- The characters that end a plain scalar inside brackets. -/
def isFlowIndicator (c : Char) : Bool :=
  c == ',' || c == '[' || c == ']' || c == '\x7b' || c == '\x7d'

/-- Whether a colon followed by `rest` is no part of a scalar inside brackets, and no end of it. -/
def isStrayColon (rest : List Char) : Bool :=
  match rest with
  | c :: _ => c == '?' || isFlowIndicator c
  | [] => false

/-- Whether a character followed by `rest` ends the scalar. -/
def ends (flow : Bool) (c : Char) (rest : List Char) : Bool :=
  (c == ':' && atBlankOrEnd rest) || (flow && isFlowIndicator c)

/-- What the reader has just passed. -/
inductive Behind where
  | start
  | word
  | gap

/-- Reads on. `indent` is the least column that a line of the scalar may begin at; what has been
read is kept last first. -/
def scan (flow : Bool) (indent : Int) (read : List Char) (gap : Gap) (crossed : Bool) :
    Behind → Place → List Char → Option Scanned
  | _, p, [] => some ⟨String.ofList read.reverse, crossed, ⟨p, []⟩⟩
  | behind, p, c :: rest =>
    if isBlank c then
      if crossed && p.column < indent && c == '\t' then none
      else scan flow indent read (gap.blank c) crossed .gap (p.right 1) rest
    else if isBreak c then
      match c, rest with
      | '\r', '\n' :: rest =>
        scan flow indent read (gap.newLine '\n') true .gap (p.down 2) rest
      | c, rest => scan flow indent read (gap.newLine c) true .gap (p.down 1) rest
    else
      let boundary := match behind with
        | .word => false
        | _ => atDocumentMark p (c :: rest) || c == '#'
      let outdented := match behind with
        | .gap => !flow && p.column < indent
        | _ => false
      if boundary || outdented then some ⟨String.ofList read.reverse, crossed, ⟨p, c :: rest⟩⟩
      else if flow && c == ':' && isStrayColon rest then none
      else if ends flow c rest then some ⟨String.ofList read.reverse, crossed, ⟨p, c :: rest⟩⟩
      else scan flow indent (c :: (gap.folded ++ read)) .none false .word (p.right 1) rest

end Provision.Yaml.PlainScalar
