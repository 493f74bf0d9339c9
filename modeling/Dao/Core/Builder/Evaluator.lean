import Dao.Core.Builder.Parser
import Dao.Lib.AMap

/-!
# Evaluating a Dockerfile

How the builder turns a parsed line into a call of the function of its
instruction, and the line that it writes for the labels of the build options.

A walk over the nodes may meet a nil node or an empty slice, which ends the
program. The messages and the platforms that lack an instruction are left out.
A commit leaves the labels alone, so that only its outcome is kept.
-/

namespace Dao.Dockerfile

open Command

open ShellWord (WordError doubleQuote processWord processWords)

/-- The ways in which a line is not dispatched. -/
inductive DispatchError where
  /-- The source takes a field of nil, or an element of an empty slice. -/
  | panics
  /-- "ONBUILD requires at least one argument". -/
  | onbuildArgument
  /-- "Unknown instruction: %s". -/
  | unknownInstruction (cmd : Str)
  | word (e : WordError)
  deriving DecidableEq

/-- What the function of an instruction is called with. -/
structure Dispatched where
  cmd : Str
  args : List Str
  json : Bool
  original : Str
  flags : List Str
  deriving DecidableEq

def replaceEnvAllowed : List Str := [env, label, add, copy,
  workdir, expose, volume, user, stopsignal, arg]

/-- The keys of `evaluateTable`. -/
def instructions : List Str := [add, arg, cmd, copy,
  entrypoint, env, expose, from_, healthcheck,
  label, maintainer, onbuild, run, shell,
  stopsignal, user, volume, workdir]

/-- The arguments, with what they refer to. -/
def expand (t : Tables) (cmd : Str) (envs : List Str) :
    List Str → Option (Except WordError (List Str))
  | [] => some (.ok [])
  | str :: rest =>
    match
      if cmd ∉ replaceEnvAllowed then some (.ok [str])
      else if cmd = expose then processWords t.toUnicode str envs
      else (processWord t.toUnicode str envs).map (·.map ([·])) with
    | none => none
    | some (.error e) => some (.error e)
    | some (.ok words) => (expand t cmd envs rest).map (·.map (words ++ ·))

/-- The value of a node, and those of the nodes behind it. -/
def Node.values : Node → Str × List Str
  | .line value args _ _ _ => (value, args)
  | .sub value _ _ _ => (value, [[]])
  | .subNil value _ _ => (value, [[]])

/-- `Attributes["json"]`, `Original` and `Flags`. -/
def Node.attributes : Node → Bool × Str × List Str
  | .line _ _ json original flags => (json, original, flags)
  | .sub _ _ original flags => (false, original, flags)
  | .subNil _ original flags => (false, original, flags)

/-- What `dispatch` walks: the words it starts with, and the arguments. -/
def Node.walk (node : Node) : Except DispatchError (List Str × List Str) :=
  if node.values.1 = onbuild then
    match node with
    | .sub _ child _ _ => .ok ([child.values.1], child.values.2)
    | .subNil _ _ _ => .error .panics
    | .line _ args _ _ _ => .error (if args = [] then .onbuildArgument else .panics)
  else .ok ([], node.values.2)

/-- `dispatch`, up to the call. -/
def dispatch (t : Tables) (envs : List Str) (node : Node) :
    Option (Except DispatchError Dispatched) :=
  let cmd := node.values.1
  match node.walk with
  | .error e => some (.error e)
  | .ok (strList, args) =>
    (expand t cmd envs args).map (fun r =>
      match r with
      | .error e => .error (.word e)
      | .ok words =>
        if cmd ∈ instructions then
          .ok ⟨cmd, strList ++ words, node.attributes.1, node.attributes.2.1, node.attributes.2.2⟩
        else .error (.unknownInstruction cmd))

section Labels

/-- `strconv.IsPrint`. -/
def Tables.printable (t : Tables) (c : Char) : Bool :=
  if c.toNat < 128 then 0x20 ≤ c.toNat && c.toNat < 0x7f else t.isPrint c

/-- A number in the given count of hexadecimal digits. -/
def hex (width n : Nat) : Str :=
  let digits := Nat.toDigits 16 n
  List.replicate (width - digits.length) '0' ++ digits

/-- What `strconv.Quote` writes for a character. -/
def quoteChar (t : Tables) (c : Char) : Str :=
  if c = doubleQuote || c = '\\' then ['\\', c]
  else if t.printable c then [c]
  else '\\' ::
    match c.toNat with
    | 7 => ['a']
    | 8 => ['b']
    | 9 => ['t']
    | 10 => ['n']
    | 11 => ['v']
    | 12 => ['f']
    | 13 => ['r']
    | n =>
      if n < 0x20 then 'x' :: hex 2 n
      else if n < 0x10000 then 'u' :: hex 4 n
      else 'U' :: hex 8 n

def quote (t : Tables) (s : Str) : Str := doubleQuote :: s.flatMap (quoteChar t) ++ [doubleQuote]

/-- The errors of the generated line. -/
inductive LabelError where
  | parse (e : ParseError)
  | dispatch (e : DispatchError)
  | atLeastOneArgument
  | tooManyArguments
  /-- "Unknown flag: %s". -/
  | unknownFlag (flag : Str)
  | commit
  deriving DecidableEq

/-- The loop of `label`. -/
def setLabels : List Str → Lib.AMap Str Str → Lib.AMap Str Str
  | name :: value :: args, labels => setLabels args (labels.insert name value)
  | _, labels => labels

/-- `label`: its outcome, and the labels of the configuration. -/
def label (args flags : List Str) (commits : Bool) (labels : Lib.AMap Str Str) :
    Except LabelError Unit × Lib.AMap Str Str :=
  if args = [] then (.error .atLeastOneArgument, labels)
  else if args.length % 2 ≠ 0 then (.error .tooManyArguments, labels)
  else match flags with
    | flag :: _ => (.error (.unknownFlag flag), labels)
    | [] => (if commits then .ok () else .error .commit, setLabels args labels)

end Labels

end Dao.Dockerfile
