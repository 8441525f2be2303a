import IncrementalBackup.Dedup.Key
import IncrementalBackup.Evaluation.Category
import IncrementalBackup.Time.Rfc3339

/-!
# Command line arguments

A command line has a command with options and operands; three options may also stand before the
command. A value follows its option or an equals sign. Values are checked when the next argument
begins, or at the end, so the first argument that is wrong is the one that is reported.
-/

namespace IncrementalBackup.CommandLine

inductive Argument where
  | dataDir
  | config
  | format
  | since
  | maxDepth
  | hint
  | dir
  | strategy
  | versionCode
  | versionName
  | dryRun
  | root
  | package
  | candidate
  | apks
  | records
  | identifier
deriving DecidableEq, Repr

namespace Argument

def optionName : Argument → Option (String × String)
  | dataDir => some ("data-dir", "DATA_DIR")
  | config => some ("config", "CONFIG")
  | format => some ("format", "FORMAT")
  | since => some ("since", "SINCE")
  | maxDepth => some ("max-depth", "MAX_DEPTH")
  | hint => some ("hint", "HINT")
  | dir => some ("dir", "DIRS")
  | strategy => some ("strategy", "STRATEGY")
  | versionCode => some ("version-code", "VERSION_CODE")
  | versionName => some ("version-name", "VERSION_NAME")
  | dryRun => some ("dry-run", "DRY_RUN")
  | _ => none

def isRepeatable : Argument → Bool
  | dir | apks => true
  | _ => false

def isFlag : Argument → Bool
  | dryRun => true
  | _ => false

def shown (a : Argument) : String :=
  match a.optionName with
  | some (name, value) => "--" ++ name ++ " <" ++ value ++ ">"
  | none => ""

end Argument

inductive OutputFormat where
  | human
  | json
deriving DecidableEq, Repr

def formatOf? : String → Option OutputFormat
  | "human" => some .human
  | "json" => some .json
  | _ => none

def strategyOf? : String → Option DedupStrategy
  | "metadata" => some .metadata
  | "content-hash" => some .contentHash
  | _ => none

/-- What is wrong with a command line; a value that is refused has a message. -/
inductive UsageError where
  | invalidValue (message : String)
  | other
deriving DecidableEq, Repr

inductive ValueError where
  | missing
  | unknown
  | refused (reason : String)

def readSince (raw : String) : Except ValueError Instant :=
  match Rfc3339.timestamp? raw with
  | some t => .ok t
  | none => .error (.refused ("'" ++ raw ++ "' is neither RFC 3339 nor unix milliseconds"))

def readInt64 (raw : String) : Except ValueError Int :=
  match Decimal.readInt Int64.maxValue.toNatClampNeg raw.toList with
  | .ok n => .ok n
  | .error e => .error (.refused e.message)

def readMaxDepth (raw : String) : Except ValueError Nat :=
  match readInt64 raw with
  | .error e => .error e
  | .ok n =>
    if 0 ≤ n ∧ n < UInt32.size then .ok n.toNat
    else .error (.refused (Decimal.ofInt n ++ " is not in 0..=4294967295"))

def readCategoryDir (raw : String) : Except ValueError (DataCategory × Path) :=
  let cs := raw.toList
  let category := cs.takeWhile (· ≠ '=')
  match cs.dropWhile (· ≠ '=') with
  | [] => .error (.refused ("expected <category>=<path>, got '" ++ raw ++ "'"))
  | _ :: path =>
    let name := String.ofList category
    if path = [] then .error (.refused ("missing path for category '" ++ name ++ "'"))
    else
      match DataCategory.ofName? (String.ofList (Text.trim category)) with
      | some c => .ok (c, .ofString (String.ofList path))
      | none => .error (.refused ("unknown data category '" ++ name ++ "'"))

def forget {α : Type} : Except ValueError α → Except ValueError Unit
  | .ok _ => .ok ()
  | .error e => .error e

def known {α : Type} : Option α → Except ValueError Unit
  | some _ => .ok ()
  | none => .error .unknown

def checkValue (a : Argument) (raw : String) : Except ValueError Unit :=
  match a with
  | .since => forget (readSince raw)
  | .maxDepth => forget (readMaxDepth raw)
  | .versionCode => forget (readInt64 raw)
  | .dir => forget (readCategoryDir raw)
  | .package | .identifier | .versionName | .dryRun => .ok ()
  | .format => if raw.isEmpty then .error .missing else known (formatOf? raw)
  | .strategy => if raw.isEmpty then .error .missing else known (strategyOf? raw)
  | _ => if raw.isEmpty then .error .missing else .ok ()

def usageError (a : Argument) (raw : String) : ValueError → UsageError
  | .missing => .other
  | .unknown => .invalidValue ("error: invalid value '" ++ raw ++ "' for '" ++ a.shown ++ "'")
  | .refused reason =>
    .invalidValue ("error: invalid value '" ++ raw ++ "' for '" ++ a.shown ++ "': " ++ reason)

def checkValues (a : Argument) : List String → Except UsageError Unit
  | [] => .ok ()
  | raw :: rest =>
    match checkValue a raw with
    | .ok () => checkValues a rest
    | .error e => .error (usageError a raw e)

structure Grammar where
  options : List Argument
  operands : List Argument
  required : List Argument

def globalOptions : List Argument := [.dataDir, .config, .format]

inductive CommandName where
  | scan
  | evaluate
  | key
  | verify
  | store
  | refs
  | prune
deriving DecidableEq, Repr

namespace CommandName

def name : CommandName → String
  | scan => "scan"
  | evaluate => "evaluate"
  | key => "key"
  | verify => "verify"
  | store => "store"
  | refs => "refs"
  | prune => "prune"

def ofName? (s : String) : Option CommandName :=
  [scan, evaluate, key, verify, store, refs, prune].find? (fun c => c.name == s)

def grammar : CommandName → Grammar
  | scan => ⟨globalOptions ++ [.since, .maxDepth, .hint], [.root], [.root, .since]⟩
  | evaluate => ⟨globalOptions ++ [.dir, .since], [.package], [.package, .dir]⟩
  | key =>
    ⟨globalOptions ++ [.strategy, .versionCode, .versionName], [.apks], [.versionCode, .apks]⟩
  | verify => ⟨globalOptions, [.candidate, .apks], [.candidate, .apks]⟩
  | store =>
    ⟨globalOptions ++ [.versionCode, .versionName], [.package, .apks],
      [.package, .versionCode, .apks]⟩
  | refs => ⟨globalOptions, [.records, .identifier], [.records, .identifier]⟩
  | prune => ⟨globalOptions ++ [.dryRun], [.package, .records], [.package, .records]⟩

end CommandName

/-- What has been read: values that are checked, an argument whose values are not checked yet, the
operands still to come, and whether options have ended. -/
structure Progress where
  given : List (Argument × List String)
  pending : Option (Argument × List String)
  /-- The pending option has no value yet. -/
  waiting : Bool
  operands : List Argument
  ended : Bool

namespace Progress

def start (g : Grammar) : Progress := ⟨[], none, false, g.operands, false⟩

def valuesOf (p : Progress) (a : Argument) : List String :=
  (p.given.filter (fun g => g.1 == a)).flatMap (·.2)

def has (p : Progress) (a : Argument) : Bool := p.given.any (fun g => g.1 == a)

def accept (p : Progress) (a : Argument) (values : List String) : Except UsageError Progress :=
  if values = [] && !a.isFlag then .error .other
  else if p.has a && !a.isRepeatable then .error .other
  else
    match checkValues a values with
    | .ok () => .ok { p with given := p.given ++ [(a, values)] }
    | .error e => .error e

def settle (p : Progress) : Except UsageError Progress :=
  match p.pending with
  | none => .ok p
  | some (a, values) => { p with pending := none, waiting := false }.accept a values

def operand (p : Progress) (raw : String) : Except UsageError Progress :=
  match p.operands with
  | [] => .error .other
  | a :: rest =>
    if a.isRepeatable then
      match p.pending with
      | some (b, values) =>
        if b = a then .ok { p with pending := some (a, values ++ [raw]) }
        else p.settle.map ({ · with pending := some (a, [raw]), waiting := false })
      | none => .ok { p with pending := some (a, [raw]), waiting := false }
    else
      p.settle.map ({ · with pending := some (a, [raw]), waiting := false, operands := rest })

def option (p : Progress) (options : List Argument) (name : List Char) (value : Option String) :
    Except UsageError Progress :=
  match options.find? (fun a => a.optionName.map (·.1.toList) == some name) with
  | none => .error .other
  | some a =>
    match a.isFlag, value with
    | true, some _ => .error .other
    | true, none => p.settle.bind (·.accept a [])
    | false, some v => p.settle.bind (·.accept a [v])
    | false, none => p.settle.map ({ · with pending := some (a, []), waiting := true })

def value (p : Progress) (raw : String) : Progress :=
  match p.pending with
  | some (a, values) => { p with pending := some (a, values ++ [raw]), waiting := false }
  | none => p

end Progress

inductive Shape where
  | stop
  | long (name : List Char) (value : Option String)
  | short
  | plain

def shape (raw : String) : Shape :=
  match raw.toList with
  | ['-', '-'] => .stop
  | '-' :: '-' :: rest =>
    match rest.dropWhile (· ≠ '=') with
    | [] => .long rest none
    | _ :: value => .long (rest.takeWhile (· ≠ '=')) (some (String.ofList value))
  | '-' :: _ :: _ => .short
  | _ => .plain

def Progress.take (p : Progress) (options : List Argument) (raw : String) :
    Except UsageError Progress :=
  if p.ended then p.operand raw
  else
    match shape raw with
    | .stop => .ok { p with ended := true }
    | .long name value => p.option options name value
    | .short => .error .other
    | .plain => if p.waiting then .ok (p.value raw) else p.operand raw

def takeAll (options : List Argument) : List String → Progress → Except UsageError Progress
  | [], p => .ok p
  | raw :: rest, p => (p.take options raw).bind (takeAll options rest)

def readCommand (c : CommandName) (args : List String) : Except UsageError Progress := do
  let p ← takeAll c.grammar.options args (.start c.grammar)
  let p ← p.settle
  if c.grammar.required.all p.has then .ok p else .error .other

def readGlobal : List String → Progress → Except UsageError (Progress × Option (CommandName × List String))
  | [], p => .ok (p, none)
  | raw :: rest, p =>
    match if p.ended || p.waiting then none else CommandName.ofName? raw with
    | some c => .ok (p, some (c, rest))
    | none => (p.take globalOptions raw).bind (readGlobal rest)

/-- A whole command line: what stands before the command, the command, and what follows it. -/
structure Invocation where
  before : Progress
  command : CommandName
  after : Progress

/-- Reads a command line. The arguments after the command are checked before the last one in front
of it. -/
def readArguments (args : List String) : Except UsageError Invocation := do
  let (before, command) ← readGlobal args (.start ⟨globalOptions, [], []⟩)
  match command with
  | none => do
    let _ ← before.settle
    .error .other
  | some (c, rest) =>
    let after ← readCommand c rest
    let before ← before.settle
    .ok ⟨before, c, after⟩

namespace Invocation

/-- The value of an option; one after the command counts more than one before it. -/
def value? (i : Invocation) (a : Argument) : Option String :=
  match (i.after.valuesOf a).head? with
  | some v => some v
  | none => (i.before.valuesOf a).head?

def values (i : Invocation) (a : Argument) : List String := i.after.valuesOf a

end Invocation

end IncrementalBackup.CommandLine
