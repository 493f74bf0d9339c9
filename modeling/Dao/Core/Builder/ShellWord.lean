import Dao.Core.Text

/-!
# Shell Words

The words of a Dockerfile instruction: quotes, escapes and the references to
the environment. One scan feeds two accumulators, the string that `ProcessWord`
returns and the words that `ProcessWords` splits it into. What stands in quotes
or after a backslash goes into a word as it is; everything else is split at its
spaces, the value of a reference as well.

Strings are lists of characters. A value of the environment that is not valid
UTF-8 has no such list. A scanner ignores a byte order mark at the beginning of
what it reads. What Unicode calls a letter or a digit is a parameter.

The source scans as it goes and a reference may hold another word, so the
functions take fuel.
-/

namespace Dao.ShellWord

/-- `unicode.IsLetter` and `unicode.IsDigit`. -/
structure Unicode where
  isLetter : Char → Bool
  isDigit : Char → Bool

/-- The tables of a text without other letters than those of ASCII. -/
def ascii : Unicode := ⟨Char.isAlpha, Char.isDigit⟩

/-- The errors, with the word that is processed. -/
inductive WordError where
  /-- "Unsupported modifier (%c) in substitution: %s". -/
  | unsupportedModifier (modifier : Option Char) (word : Str)
  /-- "Missing ':' in substitution: %s". -/
  | missingColon (word : Str)
  deriving DecidableEq

/-- `shellWord`, without its scanner. -/
structure Shell where
  tables : Unicode
  word : Str
  envs : List Str

def byteOrderMark : Char := Char.ofNat 0xfeff
def singleQuote : Char := Char.ofNat 0x27
def doubleQuote : Char := Char.ofNat 0x22

/-- What a scanner reads of a string. -/
def scan : Str → Str
  | [] => []
  | ch :: rest => if ch = byteOrderMark then rest else ch :: rest

structure WordsStruct where
  word : Str
  words : List Str
  inWord : Bool
  deriving DecidableEq

namespace WordsStruct

def empty : WordsStruct := ⟨[], [], false⟩

def addRawChar (w : WordsStruct) (ch : Char) : WordsStruct :=
  { w with word := w.word ++ [ch], inWord := true }

def addChar (w : WordsStruct) (ch : Char) : WordsStruct :=
  if isSpace ch && w.inWord then
    if w.word ≠ [] then ⟨[], w.words ++ [w.word], false⟩ else w
  else if !isSpace ch then w.addRawChar ch
  else w

def addString (w : WordsStruct) (str : Str) : WordsStruct := (scan str).foldl addChar w

def addRawString (w : WordsStruct) (str : Str) : WordsStruct :=
  { w with word := w.word ++ str, inWord := true }

def getWords (w : WordsStruct) : List Str :=
  if w.word ≠ [] then w.words ++ [w.word] else w.words

end WordsStruct

/-- The two accumulators of `processStopOn`. -/
structure Acc where
  result : Str
  words : WordsStruct
  deriving DecidableEq

def Acc.empty : Acc := ⟨[], .empty⟩

/-- `processName`: the name, and what is left to scan. -/
def processName (u : Unicode) (name : Str) : Str → Str × Str
  | [] => (name, [])
  | ch :: rest =>
    if name = [] && u.isDigit ch then ([ch], rest)
    else if !u.isLetter ch && !u.isDigit ch && ch ≠ '_' then (name, ch :: rest)
    else processName u (name ++ [ch]) rest

def getEnv (name : Str) : List Str → Str
  | [] => []
  | env :: envs =>
    match cut '=' env with
    | none => if name = env then [] else getEnv name envs
    | some (key, value) => if name ≠ key then getEnv name envs else value

/-- `processSingleQuote`, after the quote. -/
def processSingleQuote (result : Str) : Str → Str × Str
  | [] => (result, [])
  | ch :: rest =>
    if ch = singleQuote then (result, rest) else processSingleQuote (result ++ [ch]) rest

/-- The value of a reference with a modifier. -/
def modified (sw : Shell) (modifier : Option Char) (newValue word : Str) : Except WordError Str :=
  if modifier = some '+' then .ok (if newValue ≠ [] then word else newValue)
  else if modifier = some '-' then .ok (if newValue = [] then word else newValue)
  else .error (.unsupportedModifier modifier sw.word)

mutual

/-- `processStopOn`, with what is left to scan. -/
def processStopOn (sw : Shell) : Nat → Option Char → Acc → Str →
    Option (Except WordError (Acc × Str))
  | 0, _, _, _ => none
  | _ + 1, _, acc, [] => some (.ok (acc, []))
  | n + 1, stopChar, acc, ch :: rest =>
    if stopChar = some ch then some (.ok (acc, rest))
    else if ch = singleQuote then
      let (tmp, rest) := processSingleQuote [] rest
      processStopOn sw n stopChar ⟨acc.result ++ tmp, acc.words.addRawString tmp⟩ rest
    else if ch = doubleQuote then
      match processDoubleQuote sw n [] rest with
      | none => none
      | some (.error e) => some (.error e)
      | some (.ok (tmp, rest)) =>
        processStopOn sw n stopChar ⟨acc.result ++ tmp, acc.words.addRawString tmp⟩ rest
    else if ch = '$' then
      match processDollar sw n rest with
      | none => none
      | some (.error e) => some (.error e)
      | some (.ok (tmp, rest)) =>
        processStopOn sw n stopChar ⟨acc.result ++ tmp, acc.words.addString tmp⟩ rest
    else if ch = '\\' then
      match rest with
      | [] => some (.ok (acc, []))
      | ch :: rest => processStopOn sw n stopChar ⟨acc.result ++ [ch], acc.words.addRawChar ch⟩ rest
    else processStopOn sw n stopChar ⟨acc.result ++ [ch], acc.words.addChar ch⟩ rest

/-- `processDoubleQuote`, after the quote. -/
def processDoubleQuote (sw : Shell) : Nat → Str → Str → Option (Except WordError (Str × Str))
  | 0, _, _ => none
  | _ + 1, result, [] => some (.ok (result, []))
  | n + 1, result, ch :: rest =>
    if ch = doubleQuote then some (.ok (result, rest))
    else if ch = '$' then
      match processDollar sw n rest with
      | none => none
      | some (.error e) => some (.error e)
      | some (.ok (tmp, rest)) => processDoubleQuote sw n (result ++ tmp) rest
    else if ch = '\\' then
      match rest with
      | [] => some (.ok (result, []))
      | chNext :: rest =>
        if chNext = doubleQuote ∨ chNext = '$' then
          processDoubleQuote sw n (result ++ [chNext]) rest
        else processDoubleQuote sw n (result ++ [ch]) (chNext :: rest)
    else processDoubleQuote sw n (result ++ [ch]) rest

/-- `processDollar`, after the dollar. -/
def processDollar (sw : Shell) : Nat → Str → Option (Except WordError (Str × Str))
  | 0, _ => none
  | n + 1, input =>
    if input.head? = some '{' then
      match processName sw.tables [] input.tail with
      | (name, ch :: rest) =>
        if ch = '}' then some (.ok (getEnv name sw.envs, rest))
        else if ch = ':' then
          match processStopOn sw n (some '}') .empty rest.tail with
          | none => none
          | some (.error e) => some (.error e)
          | some (.ok (acc, rest')) =>
            some ((modified sw rest.head? (getEnv name sw.envs) acc.result).map
              (fun v => (v, rest')))
        else some (.error (.missingColon sw.word))
      | (_, []) => some (.error (.missingColon sw.word))
    else
      match processName sw.tables [] input with
      | (name, rest) => some (.ok (if name = [] then ['$'] else getEnv name sw.envs, rest))

end

/-- `process`, with enough fuel. -/
def process (sw : Shell) : Option (Except WordError (Str × List Str)) :=
  (processStopOn sw (sw.word.length + 1) none .empty (scan sw.word)).map (fun r =>
    r.map (fun out => (out.1.result, out.1.words.getWords)))

def processWord (u : Unicode) (word : Str) (env : List Str) : Option (Except WordError Str) :=
  (process ⟨u, word, env⟩).map (fun r => r.map Prod.fst)

def processWords (u : Unicode) (word : Str) (env : List Str) :
    Option (Except WordError (List Str)) :=
  (process ⟨u, word, env⟩).map (fun r => r.map Prod.snd)

end Dao.ShellWord
