import TurtleChain.Toml.Scalar

/-! Reading TOML documents. Every reader takes the text that is left and answers with what it read and the
text behind it. Brackets and braces nest at most `nestingLimit` deep, and a dotted key has at most as many
parts. -/

namespace TurtleChain.Toml

def nestingLimit : Nat := 79

private def skipBlanks (cs : List Char) : List Char :=
  cs.dropWhile fun c => c == ' ' || c == '\t'

private def isBareKeyChar (c : Char) : Bool :=
  c.isAlphanum || c == '_' || c == '-'

/-- One part of a key: bare, or in quotes. -/
private def readSimpleKey (cs : List Char) : Option (String × List Char) :=
  match cs with
  | '"' :: _ => readLineString cs
  | '\'' :: _ => readLineString cs
  | _ =>
    let key := cs.takeWhile isBareKeyChar
    if key.isEmpty then none else some (String.ofList key, cs.dropWhile isBareKeyChar)

/-- The parts of a dotted key, the last one apart. -/
private def readParts : Nat → List Char → Option ((List String × String) × List Char)
  | 0, _ => none
  | limit + 1, cs => do
    let (part, rest) ← readSimpleKey (skipBlanks cs)
    match skipBlanks rest with
    | '.' :: rest =>
      let ((path, last), rest) ← readParts limit rest
      return ((part :: path, last), rest)
    | rest => return (([], part), rest)

private def readKey (cs : List Char) : Option ((List String × String) × List Char) :=
  readParts nestingLimit cs

/-- Skips blanks, line ends and comments. -/
private def skipFiller (inComment : Bool) : List Char → List Char
  | [] => []
  | c :: rest =>
    if atNewline (c :: rest) then skipFiller false rest
    else if inComment then if isLineChar c then skipFiller true rest else c :: rest
    else if c = ' ' ∨ c = '\t' then skipFiller false rest
    else if c = '#' then skipFiller true rest
    else c :: rest

/-- What stands behind the value on a line: blanks and a comment. -/
private def lineEnd (cs : List Char) : Option (List Char) :=
  let rest := skipBlanks cs
  let rest := match rest with
    | '#' :: comment => comment.dropWhile isLineChar
    | rest => rest
  if rest.isEmpty then some []
  else if atNewline rest then some (rest.drop (newlineLength rest))
  else none

private def isScalarChar (c : Char) : Bool :=
  c.isAlphanum || ['_', '+', '-', '.', ':'].contains c

/-- The items of an array from behind a bracket or a comma; a comma may stand behind the last one. -/
private def readItems (value : List Char → Option (Toml × List Char)) :
    Nat → List Char → Option (List Toml × List Char)
  | 0, _ => none
  | fuel + 1, cs =>
    match skipFiller false cs with
    | ']' :: rest => some ([], rest)
    | cs => do
      let (item, rest) ← value cs
      match skipFiller false rest with
      | ']' :: rest => return ([item], rest)
      | ',' :: rest =>
        let (items, rest) ← readItems value fuel rest
        return (item :: items, rest)
      | _ => none

/-- A key and its value, added to a table. -/
private def readEntry (value : List Char → Option (Toml × List Char)) (kind : TableKind) (entries : Entries)
    (cs : List Char) : Option (Toml × List Char) := do
  let ((path, key), rest) ← readKey cs
  match skipBlanks rest with
  | '=' :: rest =>
    let (v, rest) ← value (skipBlanks rest)
    let changed ← addValue path key v kind entries
    return (changed, rest)
  | _ => none

/-- The entries of a table between braces, the first of them at hand. -/
private def readEntries (value : List Char → Option (Toml × List Char)) (entries : Entries) :
    Nat → List Char → Option (Entries × List Char)
  | 0, _ => none
  | fuel + 1, cs => do
    match ← readEntry value .opened entries cs with
    | (table _ entries, rest) =>
      match skipBlanks rest with
      | '\x7d' :: rest => return (entries, rest)
      | ',' :: rest => readEntries value entries fuel rest
      | _ => none
    | _ => none

/-- A value without brackets. One blank may stand between a date and a time. -/
private def readPlain (cs : List Char) : Option (Toml × List Char) :=
  match cs with
  | '"' :: _ => (readString cs).map fun (content, rest) => (string content, rest)
  | '\'' :: _ => (readString cs).map fun (content, rest) => (string content, rest)
  | _ =>
    let word := cs.takeWhile isScalarChar
    let rest := cs.dropWhile isScalarChar
    match rest with
    | ' ' :: behind =>
      let both := word ++ ' ' :: behind.takeWhile isScalarChar
      if Datetime.isDatetime both then
        some (datetime (String.ofList both), behind.dropWhile isScalarChar)
      else (readScalar? word).map (·, rest)
    | _ => (readScalar? word).map (·, rest)

/-- A value in which brackets and braces nest at most as deep as the limit says. -/
private def readValue : Nat → List Char → Option (Toml × List Char)
  | limit + 1, '[' :: rest =>
    (readItems (readValue limit) (rest.length + 1) rest).map fun (items, rest) => (array items, rest)
  | limit + 1, '\x7b' :: rest =>
    match skipBlanks rest with
    | '\x7d' :: rest => some (table .inline [], rest)
    | rest =>
      (readEntries (readValue limit) [] (rest.length + 1) rest).map fun (entries, rest) =>
        (table .inline entries, rest)
  | _, cs => readPlain cs

/-- The lines of a document. `header` is the path of the table that they belong to. -/
private def readLines (header : List String) (entries : Entries) : Nat → List Char → Option Entries
  | 0, _ => none
  | fuel + 1, cs =>
    match skipFiller false cs with
    | [] => some entries
    | '[' :: rest => do
      let ((path, key), rest) ← readKey rest
      match rest with
      | ']' :: rest =>
        let rest ← lineEnd rest
        match ← openTable path key .opened entries with
        | table _ entries => readLines (path ++ [key]) entries fuel rest
        | _ => none
      | _ => none
    | cs => do
      let ((path, key), rest) ← readKey cs
      match skipBlanks rest with
      | '=' :: rest =>
        let (value, rest) ← readValue nestingLimit (skipBlanks rest)
        let rest ← lineEnd rest
        match ← changeAt false (addValue path key value) header .opened entries with
        | table _ entries => readLines header entries fuel rest
        | _ => none
      | _ => none

/-- The entries of a whole document. A byte order mark in front is skipped. -/
def read? (text : String) : Option Entries :=
  let cs := match text.toList with
    | '\ufeff' :: rest => rest
    | cs => cs
  readLines [] [] (cs.length + 1) cs

end TurtleChain.Toml
