import BlockProgram.Number.Decimal
import BlockProgram.Text.Quoted

/-!
# Command-line options

The command line has flags, flags with a value, and one optional file. The rules are the usual
ones:

* a long flag may be shortened as long as only one flag begins so, and takes its value after `=`
  or from the next argument;
* short flags may share one argument, and the rest of it is the value of a flag that takes one;
* an argument that begins with `-` and looks like a negative number, or contains a blank, is no
  flag;
* after `--` no argument is a flag.

Arguments are first classified one by one and then read from left to right. What is left over
at the end is reported together.
-/

namespace BlockProgram.Command

/-- The flags. -/
inductive Flag where
  | help
  | maxSteps
  | tps
  | verbose
  | astOnly
  | mermaid
  | stats
  | trace
  deriving DecidableEq, Repr

namespace Flag

/-- The spellings of a flag. -/
def spellings : Flag → List String
  | .help => ["-h", "--help"]
  | .maxSteps => ["--max-steps", "-n"]
  | .tps => ["--tps"]
  | .verbose => ["--verbose", "-v"]
  | .astOnly => ["--ast-only"]
  | .mermaid => ["--mermaid"]
  | .stats => ["--stats"]
  | .trace => ["--trace"]

/-- All flags in the order in which they are listed. -/
def all : List Flag := [.help, .maxSteps, .tps, .verbose, .astOnly, .mermaid, .stats, .trace]

/-- All spellings with their flags. -/
def table : List (String × Flag) :=
  all.flatMap fun flag => flag.spellings.map fun spelling => (spelling, flag)

/-- The flag of an exact spelling. -/
def spelled? (s : String) : Option Flag := (table.find? fun entry => entry.1 == s).map (·.2)

/-- Whether a flag takes a value. -/
def takesValue : Flag → Bool
  | .maxSteps => true
  | .tps => true
  | _ => false

/-- How a flag is called in messages. -/
def title (flag : Flag) : String := String.intercalate "/" flag.spellings

end Flag

/-- Why a command line is refused. -/
inductive UsageError where
  | ambiguous (argument : String) (candidates : List String)
  | noValueExpected (flag : Flag) (value : String)
  | valueExpected (flag : Flag)
  | invalidInt (flag : Flag) (value : String)
  | invalidReal (flag : Flag) (value : String)
  | unrecognized (arguments : List String)

/-- The words for a refusal. -/
def UsageError.message : UsageError → String
  | .ambiguous argument candidates =>
    "ambiguous option: " ++ argument ++ " could match " ++ String.intercalate ", " candidates
  | .noValueExpected flag value =>
    "argument " ++ flag.title ++ ": ignored explicit argument " ++ Text.quote value
  | .valueExpected flag => "argument " ++ flag.title ++ ": expected one argument"
  | .invalidInt flag value =>
    "argument " ++ flag.title ++ ": invalid int value: " ++ Text.quote value
  | .invalidReal flag value =>
    "argument " ++ flag.title ++ ": invalid float value: " ++ Text.quote value
  | .unrecognized arguments => "unrecognized arguments: " ++ String.intercalate " " arguments

/-! ## Classifying arguments -/

/-- What follows a flag in its own argument. -/
inductive Attached where
  | nothing
  /-- a value after an equals sign -/
  | value (text : List Char)
  /-- more characters after a short flag -/
  | tail (text : List Char)

/-- What an argument is. -/
inductive Token where
  /-- a plain argument -/
  | plain (text : String)
  /-- the mark after which there are no flags -/
  | mark
  /-- a flag, spelled short or long -/
  | flag (flag : Flag) (short : Bool) (attached : Attached)
  /-- what looks like a flag but is none -/
  | unknown (text : String)

/-- The characters before the first equals sign and those after it, if there is one. -/
def splitEquals (cs : List Char) : List Char × Option (List Char) :=
  match cs.dropWhile (· != '=') with
  | [] => (cs, none)
  | _ :: rest => (cs.takeWhile (· != '='), some rest)

/-- Whether a spelling is short. -/
def isShort (spelling : String) : Bool :=
  match spelling.toList with
  | '-' :: '-' :: _ => false
  | _ => true

/-- A value that may be attached. -/
def attachedValue : Option (List Char) → Attached
  | some text => .value text
  | none => .nothing

/-- The flags that an argument may be short for, with their spellings. -/
def candidates (cs : List Char) : List (String × Token) :=
  match cs with
  | '-' :: '-' :: _ =>
    let (start, value) := splitEquals cs
    (Flag.table.filter fun (spelling, _) => start.isPrefixOf spelling.toList).map
      fun (spelling, flag) => (spelling, .flag flag (isShort spelling) (attachedValue value))
  | _ =>
    Flag.table.filterMap fun (spelling, flag) =>
      if spelling.toList == cs.take 2 then some (spelling, .flag flag true (.tail (cs.drop 2)))
      else if cs.isPrefixOf spelling.toList then
        some (spelling, .flag flag (isShort spelling) .nothing)
      else none

/-- Whether characters are those of a negative number: digits, perhaps with a point before the
last of them. A line feed at the end does not count. -/
def isNegativeNumber (cs : List Char) : Bool :=
  match cs with
  | '-' :: rest =>
    let body := if rest.getLast? == some '\n' then rest.dropLast else rest
    let after := body.dropWhile Text.isDigit
    match after with
    | [] => !body.isEmpty
    | '.' :: fraction => !fraction.isEmpty && fraction.all Text.isDigit
    | _ => false
  | _ => false

/-- An argument that begins with a dash and is no exact spelling. -/
def classifyDashed (argument : String) : Except UsageError Token :=
  let cs := argument.toList
  match candidates cs with
  | [(_, token)] => .ok token
  | [] =>
    if isNegativeNumber cs || cs.contains ' ' then .ok (.plain argument)
    else .ok (.unknown argument)
  | several => .error (.ambiguous argument (several.map (·.1)))

/-- What an argument before the mark is. -/
def classify (argument : String) : Except UsageError Token :=
  match argument.toList with
  | [] => .ok (.plain argument)
  | ['-'] => .ok (.plain argument)
  | '-' :: _ =>
    match Flag.spelled? argument with
    | some flag => .ok (.flag flag (isShort argument) .nothing)
    | none =>
      match splitEquals argument.toList with
      | (start, some value) =>
        let spelling := String.ofList start
        match Flag.spelled? spelling with
        | some flag => .ok (.flag flag (isShort spelling) (.value value))
        | none => classifyDashed argument
      | (_, none) => classifyDashed argument
  | _ => .ok (.plain argument)

/-- What each of the arguments is. -/
def classifyAll : List String → Except UsageError (List Token)
  | [] => .ok []
  | argument :: rest =>
    if argument == "--" then .ok (.mark :: rest.map .plain)
    else
      match classify argument with
      | .error e => .error e
      | .ok token => (classifyAll rest).map (token :: ·)

/-! ## Reading arguments -/

/-- The choices of a command line. -/
structure Options where
  file : Option String := none
  maxSteps : Option Int := none
  tps : Option Float := none
  verbose : Bool := false
  astOnly : Bool := false
  mermaid : Bool := false
  stats : Bool := false
  trace : Bool := false
  help : Bool := false

/-- The options with a flag that takes no value. -/
def Options.switch (o : Options) : Flag → Options
  | .verbose => { o with verbose := true }
  | .astOnly => { o with astOnly := true }
  | .mermaid => { o with mermaid := true }
  | .stats => { o with stats := true }
  | .trace => { o with trace := true }
  | .help => { o with help := true }
  | .maxSteps => o
  | .tps => o

/-- The options with the value of a flag. -/
def Options.assign (o : Options) (flag : Flag) (value : String) : Except UsageError Options :=
  match flag with
  | .maxSteps =>
    match Decimal.typedInt? value with
    | some n => .ok { o with maxSteps := some n }
    | none => .error (.invalidInt flag value)
  | .tps =>
    match Decimal.typed? value with
    | some x => .ok { o with tps := some x }
    | none => .error (.invalidReal flag value)
  | _ => .ok o

/-- What one argument of flags says: the flags without value in it, then perhaps a flag with its
value, a flag whose value is the next argument, or a rest that is no flag. -/
structure Cluster where
  switches : List Flag := []
  valued : Option (Flag × String) := none
  pending : Option Flag := none
  leftover : Option String := none

/-- A cluster with one more flag in front. -/
def Cluster.after (flag : Flag) (c : Cluster) : Cluster :=
  { c with switches := flag :: c.switches }

/-- A flag with nothing attached. -/
def bare (flag : Flag) : Cluster :=
  if flag.takesValue then { pending := some flag } else { switches := [flag] }

/-- A flag with a value after an equals sign. -/
def withValue (flag : Flag) (value : List Char) : Except UsageError Cluster :=
  let text := String.ofList value
  if flag.takesValue then .ok { valued := some (flag, text) }
  else .error (.noValueExpected flag text)

/-- A short flag with more characters after it: its value, or more short flags. -/
def unfold (flag : Flag) (tail : List Char) : Except UsageError Cluster :=
  if flag.takesValue then .ok { valued := some (flag, String.ofList tail) }
  else
    match tail with
    | [] => .error (.noValueExpected flag "")
    | '-' :: _ => .error (.noValueExpected flag (String.ofList tail))
    | c :: rest =>
      match Flag.spelled? (String.ofList ['-', c]) with
      | none => .ok { switches := [flag], leftover := some (String.ofList ('-' :: tail)) }
      | some next =>
        match rest with
        | [] => .ok ((bare next).after flag)
        | '=' :: value => (withValue next value).map (Cluster.after flag)
        | _ => (unfold next rest).map (Cluster.after flag)

/-- What a flag with its attachment says. -/
def cluster (flag : Flag) (attached : Attached) : Except UsageError Cluster :=
  match attached with
  | .nothing => .ok (bare flag)
  | .value text => withValue flag text
  | .tail text => unfold flag text

/-- What has been read so far. -/
structure Progress where
  options : Options := {}
  /-- whether the file has been given -/
  fileGiven : Bool := false
  /-- the arguments that fit nowhere, from the newest back -/
  leftover : List String := []

/-- Applies the flags of a cluster, with the value of a pending flag. A request for help ends
the reading. -/
def Progress.apply (s : Progress) (c : Cluster) (next : Option String) :
    Except UsageError Progress := do
  let options := c.switches.foldl (fun o flag => if o.help then o else o.switch flag) s.options
  if options.help then return { s with options }
  let options ←
    match c.valued, c.pending, next with
    | some (flag, value), _, _ => options.assign flag value
    | none, some flag, some value => options.assign flag value
    | _, _, _ => .ok options
  return { s with options, leftover := c.leftover.toList ++ s.leftover }

/-- A plain argument: the file, or one too many. -/
def Progress.plain (s : Progress) (text : String) : Progress :=
  if s.fileGiven then { s with leftover := text :: s.leftover }
  else { s with options := { s.options with file := some text }, fileGiven := true }

/-- Whether there are flags among the tokens. -/
def hasFlags (tokens : List Token) : Bool :=
  tokens.any fun
    | .flag _ _ _ => true
    | .unknown _ => true
    | _ => false

/-- The text of a token that is no flag. -/
def Token.text : Token → String
  | .plain text => text
  | .mark => "--"
  | .unknown text => text
  | .flag _ _ _ => ""

/-- The tokens that the file takes up: the mark may stand before or after it. -/
def takeFile : List Token → Option String × List Token
  | .mark :: .plain text :: rest => (some text, rest)
  | .mark :: rest => (none, rest)
  | .plain text :: .mark :: rest => (some text, rest)
  | .plain text :: rest => (some text, rest)
  | rest => (none, rest)

/-- The arguments after the last flag. -/
def Progress.finish (s : Progress) (tokens : List Token) : Progress :=
  if s.fileGiven then { s with leftover := (tokens.map Token.text).reverse ++ s.leftover }
  else
    let (file, rest) := takeFile tokens
    { s with
      options := { s.options with file }
      leftover := (rest.map Token.text).reverse ++ s.leftover }

/-- Reads tokens from left to right. -/
def Progress.read (s : Progress) (tokens : List Token) : Except UsageError Progress :=
  if s.options.help then .ok s
  else if !hasFlags tokens then .ok (s.finish tokens)
  else
    match tokens with
    | .flag flag _ attached :: rest =>
      match cluster flag attached with
      | .error e => .error e
      | .ok c =>
        match c.pending, rest with
        | some _, .plain value :: rest =>
          match s.apply c (some value) with
          | .error e => .error e
          | .ok s => s.read rest
        | some flag, _ => .error (.valueExpected flag)
        | none, rest =>
          match s.apply c none with
          | .error e => .error e
          | .ok s => s.read rest
    | .unknown text :: rest => Progress.read { s with leftover := text :: s.leftover } rest
    | .plain text :: rest => (s.plain text).read rest
    | .mark :: rest => s.read rest
    | [] => .ok s
termination_by tokens.length

/-- The choices of a command line. -/
def Options.parse (arguments : List String) : Except UsageError Options := do
  let tokens ← classifyAll arguments
  let s ← Progress.read {} tokens
  if s.options.help || s.leftover.isEmpty then return s.options
  else throw (.unrecognized s.leftover.reverse)

end BlockProgram.Command
