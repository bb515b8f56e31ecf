import TestTree.Shell.Console
import TestTree.Shell.Escape
import TestTree.Text.Blank

namespace TestTree.Shell.Printf

inductive Conversion
  | percent
  | text
  | escaped
  | character
  | signed
  | unsigned (base : Nat) (isUpper : Bool)
deriving DecidableEq, Repr

inductive Amount
  | fixed (n : Nat)
  | fromArgument
deriving DecidableEq, Repr

structure Directive where
  flags : Text := []
  width : Option Amount := none
  precision : Option Amount := none
  conversion : Conversion
deriving DecidableEq, Repr

inductive Item
  | plain (bytes : Bytes)
  | ending
  | directive (directive : Directive)
  | invalid (spec : Text)
deriving DecidableEq, Repr

def conversion? : Char → Option Conversion
  | '%' => some .percent
  | 's' => some .text
  | 'b' => some .escaped
  | 'c' => some .character
  | 'd' => some .signed
  | 'i' => some .signed
  | 'u' => some (.unsigned 10 false)
  | 'o' => some (.unsigned 8 false)
  | 'x' => some (.unsigned 16 false)
  | 'X' => some (.unsigned 16 true)
  | _ => none

def takeAmount : Text → Option Amount × Text
  | '*' :: rest => (some .fromArgument, rest)
  | text =>
      let digits := text.takeWhile Char.isDigit
      (if digits.isEmpty then none else some (.fixed (ofDigits 10 digits)), text.dropWhile Char.isDigit)

def isFlag (c : Char) : Bool := "-+ 0#'I".toList.contains c

def isSizeLetter (c : Char) : Bool := "lLhjtz".toList.contains c

/-- The directive behind a percent sign, and what follows it. -/
def takeDirective (text : Text) : Item × Text :=
  let flags := text.takeWhile isFlag
  let (width, rest) := takeAmount (text.dropWhile isFlag)
  let (precision, rest) := match rest with
    | '.' :: rest =>
        let (amount, rest) := takeAmount rest
        (some (amount.getD (.fixed 0)), rest)
    | _ => (none, rest)
  match rest.dropWhile isSizeLetter with
  | [] => (.invalid ('%' :: text), [])
  | c :: rest =>
      match conversion? c with
      | some conversion => (.directive { flags, width, precision, conversion }, rest)
      | none => (.invalid ('%' :: text.take (text.length - rest.length)), rest)

/-- The escapes of a format, those of an argument that `%b` shows, and whether arguments that no
directive takes are worth a warning. -/
structure Dialect where
  format : EscapeRules
  argument : EscapeRules
  warns : Bool := true

/-- The pieces of a format. -/
def items (rules : EscapeRules) : Text → List Item
  | [] => []
  | '\\' :: rest =>
      match escape rules rest with
      | none => [.ending]
      | some (bytes, length) => .plain bytes :: items rules (rest.drop length)
  | '%' :: rest =>
      let (item, behind) := takeDirective rest
      item :: items rules (rest.drop (rest.length - behind.length))
  | c :: rest => .plain (Bytes.ofText [c]) :: items rules rest
termination_by text => text.length

/-- A number as an argument gives it: blanks, a sign, and digits after a mark for their base. The flag
tells whether that is all of the text. -/
def readNumber (text : Text) : Int × Bool :=
  match text with
  | quote :: c :: _ => if quote = '"' ∨ quote = '\'' then (c.toNat, true) else signed (Text.trimStart text)
  | _ => signed (Text.trimStart text)
where
  signed : Text → Int × Bool
    | '-' :: rest =>
        let (n, isWhole) := unsigned rest
        (-(n : Int), isWhole)
    | '+' :: rest =>
        let (n, isWhole) := unsigned rest
        (n, isWhole)
    | text =>
        let (n, isWhole) := unsigned text
        (n, isWhole)
  inBase (base : Nat) (isDigit : Char → Bool) (text : Text) : Nat × Bool :=
    let digits := text.takeWhile isDigit
    (ofDigits base digits, !digits.isEmpty && digits.length == text.length)
  unsigned : Text → Nat × Bool
    | '0' :: mark :: rest =>
        if (mark = 'x' ∨ mark = 'X') ∧ (rest.head?.bind hexDigit?).isSome then
          inBase 16 (fun c => (hexDigit? c).isSome) rest
        else inBase 8 isOctalDigit ('0' :: mark :: rest)
    | text => inBase 10 Char.isDigit text

/-- Fills up to a width with blanks, on the right if the flags say so. -/
def pad (flags : Text) (width : Nat) (bytes : Bytes) : Bytes :=
  let filling := List.replicate (width - bytes.length) 32
  if flags.contains '-' then bytes ++ filling else filling ++ bytes

/-- Fills up a number: to a precision or, if the flags say so, to the width with zeros behind the
sign, and then to the width with blanks. -/
def padNumber (flags : Text) (width : Nat) (precision : Option Nat) (sign digits : Text) : Bytes :=
  let shortest := match precision with
    | some n => n
    | none => if flags.contains '0' && !flags.contains '-' then width - sign.length else 1
  let digits := if precision = some 0 ∧ digits = ['0'] then [] else digits
  pad flags width
    (Bytes.ofText (sign ++ List.replicate (shortest - digits.length) '0' ++ digits))

def upper (text : Text) : Text := text.map Char.toUpper

def showSigned (flags : Text) (width : Nat) (precision : Option Nat) (n : Int) : Bytes :=
  let sign := if n < 0 then ['-'] else if flags.contains '+' then ['+']
    else if flags.contains ' ' then [' '] else []
  padNumber flags width precision sign (Text.ofNat n.natAbs)

def showUnsigned (flags : Text) (width : Nat) (precision : Option Nat) (base : Nat) (isUpper : Bool)
    (n : Nat) : Bytes :=
  let digits := Nat.toDigits base n
  let mark : Text :=
    if flags.contains '#' && n != 0 then
      if base = 16 then ['0', 'x'] else if base = 8 then ['0'] else []
    else []
  let shown := fun text => if isUpper then upper text else text
  padNumber flags width precision (shown mark) (shown digits)

/-- A run through the format: the arguments left, what was written, and how it stands. -/
structure Progress where
  arguments : List Text
  output : Bytes := []
  complaints : List Text := []
  hasFailed : Bool := false
  isOver : Bool := false

namespace Progress

def take (progress : Progress) : Option Text × Progress :=
  (progress.arguments.head?, { progress with arguments := progress.arguments.tail })

def write (progress : Progress) (bytes : Bytes) : Progress :=
  { progress with output := progress.output ++ bytes }

def warn (progress : Progress) (message : Text) : Progress :=
  { progress with complaints := progress.complaints ++ ["printf: ".toList ++ message] }

def complain (progress : Progress) (message : Text) : Progress :=
  { progress.warn message with hasFailed := true }

/-- The number that the next argument denotes, as near as the bounds allow; 0 if there is none. -/
def takeNumber (progress : Progress) (least greatest : Int) : Int × Progress :=
  match progress.take with
  | (none, progress) => (0, progress)
  | (some text, progress) =>
      let (n, isWhole) := readNumber text
      let problem : Option String :=
        if n < least ∨ greatest < n then some "': Numerical result out of range"
        else if isWhole then none
        else if n = 0 then some "': expected a numeric value"
        else some "': value not completely converted"
      (max least (min n greatest),
        match problem with
        | none => progress
        | some problem => progress.complain ("'".toList ++ text ++ problem.toList))

def takeAmount (progress : Progress) : Option Amount → Option Int × Progress
  | none => (none, progress)
  | some (.fixed n) => (some n, progress)
  | some .fromArgument =>
      let (n, progress) := progress.takeNumber (-0x80000000) 0x7FFFFFFF
      (some n, progress)

def directive (dialect : Dialect) (progress : Progress) (directive : Directive) : Progress :=
  let (width, progress) := progress.takeAmount directive.width
  let (precision, progress) := progress.takeAmount directive.precision
  let flags := if width.any (· < 0) then '-' :: directive.flags else directive.flags
  let width := (width.getD 0).natAbs
  let precision := (precision.filter (0 ≤ ·)).map Int.toNat
  match directive.conversion with
  | .percent => progress.write [37]
  | .text =>
      let (argument, progress) := progress.take
      let bytes := Bytes.ofText (argument.getD [])
      progress.write (pad flags width (bytes.take (precision.getD bytes.length)))
  | .character =>
      let (argument, progress) := progress.take
      progress.write (pad flags width [(Bytes.ofText (argument.getD [])).headD 0])
  | .escaped =>
      let (argument, progress) := progress.take
      let (bytes, ends) := unescape dialect.argument (argument.getD [])
      { progress.write bytes with isOver := ends }
  | .signed =>
      let (n, progress) := progress.takeNumber (-0x8000000000000000) 0x7FFFFFFFFFFFFFFF
      progress.write (showSigned flags width precision n)
  | .unsigned base isUpper =>
      let (n, progress) := progress.takeNumber (-0xFFFFFFFFFFFFFFFF) 0xFFFFFFFFFFFFFFFF
      progress.write (showUnsigned flags width precision base isUpper (n % 0x10000000000000000).toNat)

def item (dialect : Dialect) (progress : Progress) (item : Item) : Progress :=
  if progress.isOver then progress
  else
    match item with
    | .plain bytes => progress.write bytes
    | .ending => { progress with isOver := true }
    | .directive directive => progress.directive dialect directive
    | .invalid spec =>
        { progress.complain (spec ++ ": invalid conversion specification".toList) with isOver := true }

end Progress

/-- Warns of arguments that no directive takes. -/
def leaveOver (dialect : Dialect) (progress : Progress) : Progress :=
  match progress.arguments with
  | first :: _ =>
      if dialect.warns && !progress.isOver then
        progress.warn ("warning: ignoring excess arguments, starting with '".toList ++ first ++ ['\''])
      else progress
  | [] => progress

/-- Goes through the format, and again as long as that takes arguments, at most `bound` times. -/
def repeated (dialect : Dialect) (items : List Item) : Nat → Progress → Progress
  | 0, progress => progress
  | bound + 1, progress =>
      let after := items.foldl (Progress.item dialect) progress
      if after.isOver || after.arguments.isEmpty ||
          after.arguments.length == progress.arguments.length then leaveOver dialect after
      else repeated dialect items bound after

def run (dialect : Dialect) : Program
  | [], console =>
      (1, (console.complain "printf: missing operand").complain
        "Try 'printf --help' for more information.")
  | format :: arguments, console =>
      let (format, arguments) := match format, arguments with
        | ['-', '-'], format :: arguments => (format, arguments)
        | _, _ => (format, arguments)
      let progress := repeated dialect (items dialect.format format) (arguments.length + 1) { arguments }
      (if progress.hasFailed then 1 else 0,
        progress.complaints.foldl Console.complain (console.print progress.output))

end TestTree.Shell.Printf
