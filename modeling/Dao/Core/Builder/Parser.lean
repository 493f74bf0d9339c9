import Dao.Core.Builder.ShellWord

/-!
# Parsing a Dockerfile

The parser of the builder. A file is read line by line; lines that end in the
escape token are joined, comments and blank lines are passed over, and what is
left is split into an instruction, its flags and its arguments, which each
instruction parses in its own way.

Strings are lists of characters. The source reads the flags and the type of a
health check byte by byte, each byte as a character of its own (`latin1`), and may
cut a character in two: a byte that is left of one is a replacement character.
`encoding/json` and the Unicode tables are parameters. A node is its value with
the values of the nodes behind it; the line of an `ONBUILD` has another line as
its child, which may be nil. As this line is parsed like any other, `parseLine`
takes fuel.
-/

namespace Dao.Dockerfile

open ShellWord (Unicode singleQuote doubleQuote)

/-- The tables and the decoder for the arrays of `encoding/json`: a failure, an array
    with an element that is no string, or the strings. -/
structure Tables extends Unicode where
  toLower : Char → Char
  isPrint : Char → Bool
  decodeJSON : Str → Option (Option (List Str))

/-- `unicode.ToLower`. -/
def Tables.lower (t : Tables) (c : Char) : Char := if c.toNat < 128 then c.toLower else t.toLower c

/-- The escape tokens that `SetEscapeToken` accepts. -/
inductive Escape where
  | backslash
  | backtick
  deriving DecidableEq

def Escape.char : Escape → Char
  | .backslash => '\\'
  | .backtick => Char.ofNat 0x60

/-- `Directive`. The regular expression for continued lines follows the token. -/
structure Directive where
  escapeToken : Escape
  lookingForDirectives : Bool
  escapeSeen : Bool
  deriving DecidableEq

/-- The directive at the start of a file. -/
def Directive.initial : Directive := ⟨.backslash, true, false⟩

/-- The errors. -/
inductive ParseError where
  /-- "only one escape parser directive can be used". -/
  | escapeTwice
  /-- "invalid ESCAPE '%s'. Must be ` or \\". -/
  | invalidEscape (c : Char)
  /-- "%s must have two arguments". -/
  | twoArguments (key : Str)
  /-- "Syntax error - can't find = in %q. Must be of the form: name=value". -/
  | noEquals (word : Str)
  /-- `errDockerfileNotStringArray`. -/
  | notStringArray
  deriving DecidableEq

/-- `Node`, for a whole line. -/
inductive Node where
  /-- A line with the values of its arguments. -/
  | line (value : Str) (args : List Str) (json : Bool) (original : Str) (flags : List Str)
  /-- A line whose argument has a child. -/
  | sub (value : Str) (child : Node) (original : Str) (flags : List Str)
  /-- A line whose argument has nil as its child. -/
  | subNil (value : Str) (original : Str) (flags : List Str)
  deriving DecidableEq

/-! The names of the instructions, as in package `command`. -/

namespace Command

def add : Str := ['a', 'd', 'd']
def arg : Str := ['a', 'r', 'g']
def cmd : Str := ['c', 'm', 'd']
def copy : Str := ['c', 'o', 'p', 'y']
def entrypoint : Str := ['e', 'n', 't', 'r', 'y', 'p', 'o', 'i', 'n', 't']
def env : Str := ['e', 'n', 'v']
def expose : Str := ['e', 'x', 'p', 'o', 's', 'e']
def from_ : Str := ['f', 'r', 'o', 'm']
def healthcheck : Str := ['h', 'e', 'a', 'l', 't', 'h', 'c', 'h', 'e', 'c', 'k']
def label : Str := ['l', 'a', 'b', 'e', 'l']
def maintainer : Str := ['m', 'a', 'i', 'n', 't', 'a', 'i', 'n', 'e', 'r']
def onbuild : Str := ['o', 'n', 'b', 'u', 'i', 'l', 'd']
def run : Str := ['r', 'u', 'n']
def shell : Str := ['s', 'h', 'e', 'l', 'l']
def stopsignal : Str := ['s', 't', 'o', 'p', 's', 'i', 'g', 'n', 'a', 'l']
def user : Str := ['u', 's', 'e', 'r']
def volume : Str := ['v', 'o', 'l', 'u', 'm', 'e']
def workdir : Str := ['w', 'o', 'r', 'k', 'd', 'i', 'r']

end Command

/-- The class of `tokenWhitespace`. -/
def isBlank (c : Char) : Bool := c = ' ' || (0x0b ≤ c.toNat && c.toNat ≤ 0x0d) || c = '\t'

def isTab (c : Char) : Bool := c = ' ' || c = '\t'

/-- `tokenWhitespace.Split(s, 2)`. -/
def splitWhitespace (s : Str) : Str × Option Str :=
  match s.dropWhile (fun c => !isBlank c) with
  | [] => (s, none)
  | rest => (s.takeWhile (fun c => !isBlank c), some (rest.dropWhile isBlank))

/-- `tokenWhitespace.Split(s, -1)`, with the word that is read and whether the last
    character was a blank. -/
def splitAll (word : Str) (inBlanks : Bool) : Str → List Str
  | [] => [word]
  | c :: s =>
    if !isBlank c then splitAll (word ++ [c]) false s
    else if inBlanks then splitAll word true s
    else word :: splitAll [] true s

def stripComments (line : Str) : Str :=
  if line.head? = some '#' && !line.contains '\n' then [] else line

/-- What `LineContinuationRegex` leaves of a line that it matches. -/
def continued (escape : Escape) (line : Str) : Option Str :=
  match line.reverse.dropWhile isTab with
  | [] => none
  | c :: front => if c = escape.char then some front.reverse else none

/-- The character that `tokenEscapeCommand` captures in a line in lower case. -/
def escapeCommand (line : Str) : Option Char :=
  let word := (line.drop 1).dropWhile isTab
  let equals := (word.drop 6).dropWhile isTab
  let rest := equals.drop 1
  if line.head? = some '#' && word.take 6 = ['e', 's', 'c', 'a', 'p', 'e'] &&
      equals.head? = some '=' && !line.contains '\n' then
    (rest.dropWhile isTab).head?.or rest.getLast?
  else none

def setEscapeToken (c : Char) (d : Directive) : Except ParseError Directive :=
  if c = Escape.char .backtick then .ok { d with escapeToken := .backtick }
  else if c = Escape.char .backslash then .ok { d with escapeToken := .backslash }
  else .error (.invalidEscape c)

section Flags

/-- The bytes of a string, each as a character. -/
def latin1 (s : Str) : Str := (utf8 s).map (fun b => Char.ofNat b.toNat)

/-- A string before and after its first `k` bytes. -/
def cutBytes : Nat → Str → Str × Str
  | _, [] => ([], [])
  | k, c :: s =>
    if c.utf8Size ≤ k then
      let (front, back) := cutBytes (k - c.utf8Size) s
      (c :: front, back)
    else (List.replicate k '\uFFFD',
      if k = 0 then c :: s else List.replicate (c.utf8Size - k) '\uFFFD' ++ s)

inductive Phase where
  | inSpaces
  | inWord
  | inQuote (quote : Char)
  deriving DecidableEq

/-- The variables of the loops of `extractBuilderFlags` and `parseWords`. `escaped`
    says that the character before was an escape token: the source reads the two
    together. -/
structure Words where
  phase : Phase
  word : Str
  words : List Str
  blankOK : Bool
  escaped : Bool

def Words.start : Words := ⟨.inSpaces, [], [], false, false⟩

/-- The words with the one that ends here. -/
def Words.flush (s : Words) : List Str :=
  if s.blankOK || s.word ≠ [] then s.words ++ [s.word] else s.words

/-- The loop of `extractBuilderFlags`, over bytes: what is left, and the flags. -/
def extractFlags (s : Words) : Str → Str × List Str
  | [] => ([], if s.phase = .inSpaces || s.word = ['-', '-'] then s.words else s.flush)
  | ch :: rest =>
    if s.escaped then extractFlags { s with word := s.word ++ [ch], escaped := false } rest
    else match s.phase with
    | .inQuote quote =>
      if ch = quote then extractFlags { s with phase := .inWord } rest
      else if ch = '\\' then extractFlags { s with escaped := true } rest
      else extractFlags { s with word := s.word ++ [ch] } rest
    | phase =>
      if phase = .inSpaces && isSpace ch then extractFlags s rest
      else if phase = .inSpaces && (ch ≠ '-' || rest.head? ≠ some '-') then (ch :: rest, s.words)
      else if isSpace ch then
        if s.word = ['-', '-'] then (ch :: rest, s.words)
        else extractFlags ⟨.inSpaces, [], s.flush, false, false⟩ rest
      else if ch = singleQuote || ch = doubleQuote then
        extractFlags { s with phase := .inQuote ch, blankOK := true } rest
      else if ch = '\\' then extractFlags { s with phase := .inWord, escaped := true } rest
      else extractFlags { s with phase := .inWord, word := s.word ++ [ch] } rest

/-- `splitCommand`: the command, the flags and the arguments. -/
def splitCommand (t : Tables) (line : Str) : Str × List Str × Str :=
  match splitWhitespace (trimSpace line) with
  | (cmd, none) => (cmd.map t.lower, [], [])
  | (cmd, some rest) =>
    let (args, flags) := extractFlags .start (latin1 rest)
    (cmd.map t.lower, flags, trimSpace (cutBytes ((latin1 rest).length - args.length) rest).2)

end Flags

section LineParsers

/-- The loop of `parseWords`. An escape token at the end is dropped. -/
def wordsLoop (escape : Escape) (s : Words) : Str → List Str
  | [] => if s.phase = .inSpaces then s.words else s.flush
  | ch :: rest =>
    if s.escaped then
      wordsLoop escape { s with word := s.word ++ [escape.char, ch], escaped := false } rest
    else match s.phase with
    | .inQuote quote =>
      let phase := if ch = quote then .inWord else s.phase
      if ch = escape.char && quote ≠ singleQuote then
        wordsLoop escape { s with phase := phase, escaped := true } rest
      else wordsLoop escape { s with phase := phase, word := s.word ++ [ch] } rest
    | phase =>
      if isSpace ch then
        if phase = .inSpaces then wordsLoop escape s rest
        else wordsLoop escape ⟨.inSpaces, [], s.flush, false, false⟩ rest
      else if ch = singleQuote || ch = doubleQuote then
        wordsLoop escape
          { s with phase := .inQuote ch, word := s.word ++ [ch], blankOK := true } rest
      else if ch = escape.char then
        wordsLoop escape { s with phase := .inWord, escaped := true } rest
      else wordsLoop escape { s with phase := .inWord, word := s.word ++ [ch] } rest

def parseWords (rest : Str) (d : Directive) : List Str := wordsLoop d.escapeToken .start rest

/-- The names and values of the words of `parseNameVal`. -/
def nameValues : List Str → Except ParseError (List Str)
  | [] => .ok []
  | word :: words =>
    match cut '=' word with
    | none => .error (.noEquals word)
    | some (name, value) => (nameValues words).map (fun rest => name :: value :: rest)

def parseNameVal (rest key : Str) (d : Directive) : Except ParseError (List Str) :=
  match parseWords rest d with
  | [] => .ok []
  | word :: words =>
    if !word.contains '=' then
      match splitWhitespace rest with
      | (_, none) => .error (.twoArguments key)
      | (name, some value) => .ok [name, value]
    else nameValues (word :: words)

/-- `parseJSON`: no array, or its strings. -/
def parseJSON (t : Tables) (rest : Str) : Option (Except ParseError (List Str)) :=
  let rest := rest.dropWhile isSpace
  if rest.head? ≠ some '[' then none
  else match t.decodeJSON rest with
    | none => none
    | some none => some (.error .notStringArray)
    | some (some values) => some (.ok values)

def parseMaybeJSON (t : Tables) (rest : Str) : Except ParseError (List Str × Bool) :=
  if rest = [] then .ok ([], false)
  else match parseJSON t rest with
    | none => .ok ([rest], false)
    | some r => r.map (fun values => (values, true))

/-- `parseStringsWhitespaceDelimited`. -/
def parseStrings (rest : Str) : List Str := if rest = [] then [] else splitAll [] false rest

def parseHealthConfig (t : Tables) (rest : Str) : Except ParseError (List Str × Bool) :=
  let sep := ((latin1 rest).takeWhile (fun c => !isSpace c)).length
  let next := sep + (((latin1 rest).drop sep).takeWhile isSpace).length
  if sep = 0 then .ok ([], false)
  else (parseMaybeJSON t (cutBytes next rest).2).map
    (fun out => ((cutBytes sep rest).1 :: out.1, out.2))

/-- The table `dispatch`, without `ONBUILD`. What is no instruction has an empty node
    as its argument. -/
def parseArgs (t : Tables) (cmd rest : Str) (d : Directive) : Except ParseError (List Str × Bool) :=
  if cmd ∈ [Command.add, Command.copy, Command.volume] then
    match parseJSON t rest with
    | none => .ok (parseStrings rest, false)
    | some r => r.map (fun values => (values, true))
  else if cmd ∈ [Command.cmd, Command.entrypoint, Command.run, Command.shell] then
    parseMaybeJSON t rest
  else if cmd = Command.arg then .ok (parseWords rest d, false)
  else if cmd = Command.env then (parseNameVal rest "ENV".toList d).map (·, false)
  else if cmd = Command.label then (parseNameVal rest "LABEL".toList d).map (·, false)
  else if cmd = Command.expose then .ok (parseStrings rest, false)
  else if cmd = Command.healthcheck then parseHealthConfig t rest
  else if cmd ∈ [Command.from_, Command.maintainer, Command.stopsignal, Command.user,
      Command.workdir] then .ok (if rest = [] then [] else [rest], false)
  else .ok ([[]], false)

end LineParsers

/-- `ParseLine`: what is to be joined with the next line, the node if there is one, and
    the directive. -/
def parseLine (t : Tables) : Nat → Str → Directive →
    Option (Except ParseError (Str × Option Node × Directive))
  | 0, _, _ => none
  | n + 1, line, d =>
    match if d.lookingForDirectives then escapeCommand (line.map t.lower) else none with
    | some c =>
      if d.escapeSeen then some (.error .escapeTwice)
      else some ((setEscapeToken c d).map (fun d => ([], none, { d with escapeSeen := true })))
    | none =>
      let d := { d with lookingForDirectives := false }
      if stripComments line = [] then some (.ok ([], none, d))
      else match continued d.escapeToken line with
        | some front => some (.ok (front, none, d))
        | none =>
          let (cmd, flags, args) := splitCommand t line
          if cmd = Command.onbuild then
            if args = [] then some (.ok ([], some (.line cmd [] false line flags), d))
            else match parseLine t n args d with
              | none => none
              | some (.error e) => some (.error e)
              | some (.ok (_, none, d)) => some (.ok ([], some (.subNil cmd line flags), d))
              | some (.ok (_, some child, d)) =>
                some (.ok ([], some (.sub cmd child line flags), d))
          else
            some ((parseArgs t cmd args d).map (fun out =>
              ([], some (.line cmd out.1 out.2 line flags), d)))

section Files

/-- The length from which a `bufio.Scanner` refuses a line. -/
def maxTokenSize : Nat := 64 * 1024

/-- The lines of a file, with the line that is read. -/
def rawLines (line : Str) : Str → List Str
  | [] => if line = [] then [] else [line]
  | c :: input =>
    if c = '\n' then line :: rawLines [] input else rawLines (line ++ [c]) input

def dropCR (line : Str) : Str := if line.getLast? = some '\r' then line.dropLast else line

def isShort (line : Str) : Bool := (utf8 line).length < maxTokenSize

/-- The lines as they are parsed: without what ends them, and without a byte order mark. -/
def fileLines (lines : List Str) : List Str :=
  match lines.map dropCR with
  | [] => []
  | line :: lines => ShellWord.scan line :: lines

/-- A child of the root, with its `StartLine` and `EndLine`. -/
structure Child where
  node : Node
  startLine : Nat
  endLine : Nat
  deriving DecidableEq

/-- Where a line starts, and its text with what is scanned. -/
def joined (current : Nat) (pending : Option (Nat × Str)) (scanned : Str) : Nat × Str :=
  match pending with
  | none => (current + 1, scanned.dropWhile isSpace)
  | some (start, line) => (start, line ++ scanned)

/-- The two loops of `Parse`, in one: the number of the line before, the line that goes
    on with the number of its start, and the lines to come. -/
def parseLoop (t : Tables) : Nat → Option (Nat × Str) → List Str → Directive →
    Option (Except ParseError (List Child × Directive))
  | _, none, [], d => some (.ok ([], d))
  | current, some (start, line), [], d =>
    match parseLine t (line.length + 1) line d with
    | none => none
    | some (.error e) => some (.error e)
    | some (.ok (_, child, d)) => some (.ok ((child.map (⟨·, start, current⟩)).toList, d))
  | current, pending, scanned :: lines, d =>
    if pending.isSome && stripComments (trimSpace scanned) = [] then
      parseLoop t (current + 1) pending lines d
    else
      let (start, line) := joined current pending scanned
      match parseLine t (line.length + 1) line d with
      | none => none
      | some (.error e) => some (.error e)
      | some (.ok (_, some node, d)) =>
        (parseLoop t (current + 1) none lines d).map (·.map (fun out =>
          (⟨node, start, current + 1⟩ :: out.1, out.2)))
      | some (.ok (rest, none, d)) =>
        parseLoop t (current + 1)
          (if pending.isNone && rest = [] then none else some (start, rest)) lines d

/-- `Parse`: the children of the root, and the directive. What stopped the scanner is
    not looked at. -/
def parse (t : Tables) (input : Str) (d : Directive) :
    Option (Except ParseError (List Child × Directive)) :=
  parseLoop t 0 none (fileLines ((rawLines [] input).takeWhile isShort)) d

end Files

end Dao.Dockerfile
