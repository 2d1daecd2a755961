import Jukebox.Text.Digit

/-!
# Quoted texts in TOML

The four forms of a quoted text. Double quotes allow escapes and single quotes take each character
as it stands; three quotes in a row allow line ends inside. A text of several lines leaves out a
line end right behind its opening quotes, may end in one or two further quotes, and, between
double quotes, a backslash at the end of a line takes away all blanks and line ends behind it.
-/

namespace Jukebox.Toml

/-- A blank inside a line. -/
def isBlank (c : Char) : Bool := c = ' ' || c = '\t'

/-- The characters that stand in no text and in no comment: a tab is allowed. -/
def isControl (c : Char) : Bool := (c.toNat < 32 && c != '\t') || c.toNat = 127

/-- The character that a letter after a backslash stands for. -/
def unescape (c : Char) : Option Char :=
  if c = '"' then some '"'
  else if c = '\\' then some '\\'
  else if c = 'b' then some '\x08'
  else if c = 'e' then some '\x1b'
  else if c = 'f' then some '\x0c'
  else if c = 'n' then some '\n'
  else if c = 'r' then some '\r'
  else if c = 't' then some '\t'
  else none

/-- The character of a code point in hexadecimal digits, `none` for a surrogate and for a number
beyond the code points. -/
def codePoint (digits : List Char) : Option Char :=
  match Text.hexNumeral digits with
  | none => none
  | some n => if n.isValidChar then some (Char.ofNat n) else none

/-- A text of one line up to its closing double quote, behind the characters read so far in
reverse. -/
def readBasic : List Char → List Char → Option (String × List Char)
  | _, [] => none
  | read, '"' :: rest => some (String.ofList read.reverse, rest)
  | read, '\\' :: 'x' :: a :: b :: rest =>
    match codePoint [a, b] with
    | some c => readBasic (c :: read) rest
    | none => none
  | read, '\\' :: 'u' :: a :: b :: c :: d :: rest =>
    match codePoint [a, b, c, d] with
    | some c => readBasic (c :: read) rest
    | none => none
  | read, '\\' :: 'U' :: a :: b :: c :: d :: e :: f :: g :: h :: rest =>
    match codePoint [a, b, c, d, e, f, g, h] with
    | some c => readBasic (c :: read) rest
    | none => none
  | read, '\\' :: c :: rest =>
    match unescape c with
    | some plain => readBasic (plain :: read) rest
    | none => none
  | read, c :: rest => if isControl c then none else readBasic (c :: read) rest

/-- A text of one line up to its closing single quote. -/
def readLiteral (cs : List Char) : Option (String × List Char) :=
  let body := cs.takeWhile (· ≠ '\'')
  match cs.dropWhile (· ≠ '\'') with
  | [] => none
  | _ :: rest => if body.any isControl then none else some (String.ofList body, rest)

/-- The rest behind a line end. -/
def lineEnd? : List Char → Option (List Char)
  | '\n' :: rest => some rest
  | '\r' :: '\n' :: rest => some rest
  | _ => none

/-- Whether only blanks follow on the line. -/
def blankToLineEnd (cs : List Char) : Bool := (lineEnd? (cs.dropWhile isBlank)).isSome

/-- Up to two further quotes that still belong to a text behind its three closing ones. -/
def closeWith (quote : Char) (read rest : List Char) : Option (String × List Char) :=
  let extra := (rest.take 2).takeWhile (· = quote)
  some (String.ofList (read.reverse ++ extra), rest.drop extra.length)

/-- A text of several lines up to its three closing double quotes, behind the characters read so
far in reverse. The flag says that blanks and line ends are left out, as behind a backslash at
the end of a line. -/
def readBasicLines : Bool → List Char → List Char → Option (String × List Char)
  | _, _, [] => none
  | _, read, '"' :: '"' :: '"' :: rest => closeWith '"' read rest
  | _, read, '\\' :: 'x' :: a :: b :: rest =>
    match codePoint [a, b] with
    | some c => readBasicLines false (c :: read) rest
    | none => none
  | _, read, '\\' :: 'u' :: a :: b :: c :: d :: rest =>
    match codePoint [a, b, c, d] with
    | some c => readBasicLines false (c :: read) rest
    | none => none
  | _, read, '\\' :: 'U' :: a :: b :: c :: d :: e :: f :: g :: h :: rest =>
    match codePoint [a, b, c, d, e, f, g, h] with
    | some c => readBasicLines false (c :: read) rest
    | none => none
  | _, read, '\\' :: c :: rest =>
    match unescape c with
    | some plain => readBasicLines false (plain :: read) rest
    | none => if blankToLineEnd (c :: rest) then readBasicLines true read (c :: rest) else none
  | skipping, read, '\r' :: '\n' :: rest =>
    readBasicLines skipping (if skipping then read else '\n' :: '\r' :: read) rest
  | skipping, read, c :: rest =>
    if skipping && (isBlank c || c = '\n') then readBasicLines true read rest
    else if isControl c && c != '\n' then none
    else readBasicLines false (c :: read) rest

/-- A text of several lines up to its three closing single quotes. -/
def readLiteralLines : List Char → List Char → Option (String × List Char)
  | _, [] => none
  | read, '\'' :: '\'' :: '\'' :: rest => closeWith '\'' read rest
  | read, '\r' :: '\n' :: rest => readLiteralLines ('\n' :: '\r' :: read) rest
  | read, c :: rest =>
    if isControl c && c != '\n' then none else readLiteralLines (c :: read) rest

/-- A quoted text of one line, as in a key. -/
def readQuotedLine : List Char → Option (String × List Char)
  | '"' :: '"' :: '"' :: _ => none
  | '\'' :: '\'' :: '\'' :: _ => none
  | '"' :: rest => readBasic [] rest
  | '\'' :: rest => readLiteral rest
  | _ => none

/-- A quoted text in any of its forms. -/
def readQuoted : List Char → Option (String × List Char)
  | '"' :: '"' :: '"' :: rest => readBasicLines false [] ((lineEnd? rest).getD rest)
  | '\'' :: '\'' :: '\'' :: rest => readLiteralLines [] ((lineEnd? rest).getD rest)
  | cs => readQuotedLine cs

end Jukebox.Toml
