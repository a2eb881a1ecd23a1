import HeapLens.CommandLine.Help
import HeapLens.Print.Context
import HeapLens.Text.Numeral

/-!
The command line: a target, switches, and at most one subcommand with switches of its own. The
words are first sorted into items, then the items are taken in order, so that the first one that
asks for a text or cannot be understood decides.
-/
namespace HeapLens.CommandLine
open HeapLens.Text

inductive Key where
  | snapshot | process | define | depth | limit | debug | verbose | help | version
  deriving DecidableEq, Repr

structure Switch where
  key : Key
  long : String
  short : Option Char
  takesValue : Bool
  deriving DecidableEq, Repr

def commonSwitches : List Switch :=
  [⟨.verbose, "verbose", some 'v', false⟩, ⟨.help, "help", some 'h', false⟩]

def Level.switches : Level → List Switch
  | .program =>
    [⟨.snapshot, "snapshot", none, true⟩, ⟨.process, "pid", none, true⟩,
     ⟨.define, "define", some 'D', true⟩, ⟨.version, "version", some 'V', false⟩] ++ commonSwitches
  | .inspect =>
    [⟨.depth, "depth", some 'd', true⟩, ⟨.limit, "limit", some 'l', true⟩,
     ⟨.debug, "debug", none, false⟩] ++ commonSwitches
  | .constants | .interactive => commonSwitches
  | .help => []

/-- What one word, or a switch with the word behind it, says. -/
inductive Item where
  | flag (key : Key)
  | attached (key : Key) (value : String)
  | separate (key : Key) (value : Option String)
  | word (text : String)
  | afterDashes (text : String)
  | unknown
  deriving DecidableEq, Repr

/-- Whether a word is taken for a switch; a single dash is not. -/
def looksLikeSwitch (text : String) : Bool :=
  match text.toList with
  | '-' :: _ :: _ => true
  | _ => false

/-- The items of a run of short switches, and the key whose value the next word has to give. -/
def clusterItems (switches : List Switch) : List Char → List Item × Option Key
  | [] => ([], none)
  | c :: cs =>
    match switches.find? fun s => s.short == some c with
    | none => ([.unknown], none)
    | some s =>
      if s.takesValue then
        match cs with
        | [] => ([], some s.key)
        | '=' :: value => ([.attached s.key (String.ofList value)], none)
        | value => ([.attached s.key (String.ofList value)], none)
      else
        let (items, waiting) := clusterItems switches cs
        (.flag s.key :: items, waiting)

/-- The items of a long switch, and the key whose value the next word has to give. -/
def longItems (switches : List Switch) (body : List Char) : List Item × Option Key :=
  let name := String.ofList (body.takeWhile (· != '='))
  match switches.find? fun s => s.long == name, body.dropWhile (· != '=') with
  | none, _ => ([.unknown], none)
  | some s, [] => if s.takesValue then ([], some s.key) else ([.flag s.key], none)
  | some s, _ :: value =>
    if s.takesValue then ([.attached s.key (String.ofList value)], none) else ([.unknown], none)

/-- The items of one word, apart from what the word behind it may add. -/
def wordItems (switches : List Switch) (text : String) : List Item × Option Key :=
  match text.toList with
  | '-' :: '-' :: body => longItems switches body
  | '-' :: c :: cs => clusterItems switches (c :: cs)
  | _ => ([.word text], none)

/-- Sorts words into items. Where words end the switches of the program, the first one that is no
switch and everything behind it are left over. -/
def scan (switches : List Switch) (stopAtWord : Bool) : List String → List Item × List String
  | [] => ([], [])
  | text :: rest =>
    if text = "--" then (rest.map .afterDashes, [])
    else if stopAtWord && !looksLikeSwitch text then ([], text :: rest)
    else
      match wordItems switches text with
      | (items, none) =>
        let (more, left) := scan switches stopAtWord rest
        (items ++ more, left)
      | (items, some key) =>
        match rest with
        | [] => (items ++ [.separate key none], [])
        | value :: behind =>
          if looksLikeSwitch value then
            let (more, left) := scan switches stopAtWord (value :: behind)
            (items ++ .separate key none :: more, left)
          else
            let (more, left) := scan switches stopAtWord behind
            (items ++ .separate key (some value) :: more, left)

/-- Why a command line does not lead to an inspection. -/
inductive Stop where
  | say (text : String)
  | refuse
  deriving DecidableEq, Repr

structure Draft where
  snapshot : Option String
  process : Option Nat
  depth : Option UInt64
  limit : Option UInt64
  debug : Bool
  expressions : List String
  deriving DecidableEq, Repr

def Draft.start : Draft := ⟨none, none, none, none, false, []⟩

/-- A process number: an integer of 32 bits, possibly with a sign. -/
def readProcess (text : String) : Option Nat :=
  match text.toList with
  | '-' :: digits => if readNat 10 digits = some 0 then some 0 else none
  | cs => ((readWord 10 cs).map UInt64.toNat).filter (· < UInt32.size)

def isDefinition (text : String) : Bool :=
  match text.toList.dropWhile (· != '=') with
  | _ :: value => (readLiteral value).isSome
  | [] => false

/-- Sets what may be set only once. -/
def once {α : Type} (old : Option α) (new : Option α) : Except Stop (Option α) :=
  match old, new with
  | none, some a => .ok (some a)
  | _, _ => .error .refuse

def Draft.set (d : Draft) (key : Key) (value : String) : Except Stop Draft :=
  match key with
  | .snapshot => do
    return { d with snapshot := ← once d.snapshot (if value.isEmpty then none else some value) }
  | .process => do return { d with process := ← once d.process (readProcess value) }
  | .define => if isDefinition value then .ok d else .error .refuse
  | .depth => do return { d with depth := ← once d.depth (readWord 10 value.toList) }
  | .limit => do return { d with limit := ← once d.limit (readWord 10 value.toList) }
  | _ => .error .refuse

def Draft.accept (level : Level) (d : Draft) : Item → Except Stop Draft
  | .flag .help => .error (.say level.helpText)
  | .flag .version => .error (.say versionText)
  | .flag .verbose => .ok d
  | .flag .debug => if d.debug then .error .refuse else .ok { d with debug := true }
  | .flag _ => .error .refuse
  | .attached key value => d.set key value
  | .separate key (some value) => d.set key value
  | .separate _ none => .error .refuse
  | .word text | .afterDashes text =>
    if level = .inspect then .ok { d with expressions := d.expressions ++ [text] }
    else .error .refuse
  | .unknown => .error .refuse

inductive Source where
  | snapshot (path : String)
  | process (id : Nat)
  deriving DecidableEq, Repr

inductive Action where
  | inspect (expressions : List String) (options : Options)
  | constants
  | interactive
  deriving DecidableEq, Repr

structure Invocation where
  source : Source
  action : Action
  deriving DecidableEq, Repr

def subcommand? : String → Option Level
  | "inspect" => some .inspect
  | "constants" => some .constants
  | "repl" => some .interactive
  | "help" => some .help
  | _ => none

/-- The level that the words behind a request for help lead to. -/
def helpLevel : List String → Option Level
  | [] => some .program
  | [name] => subcommand? name
  | _ => none

/-- The action of a subcommand with the words behind it. -/
def readAction (level : Level) (words : List String) : Except Stop Action := do
  if level = .help then
    match helpLevel words with
    | some level => .error (.say level.helpText)
    | none => .error .refuse
  else
    let d ← (scan level.switches false words).1.foldlM (Draft.accept level) Draft.start
    match level with
    | .inspect =>
      if d.expressions.isEmpty then .error .refuse
      else
        return .inspect d.expressions
          ⟨(d.depth.getD 1).toNat, d.debug, d.limit.getD defaultLimit⟩
    | .constants => return .constants
    | _ => return .interactive

/-- Exactly one target has to be named. -/
def Draft.source (d : Draft) : Except Stop Source :=
  match d.snapshot, d.process with
  | some path, none => .ok (.snapshot path)
  | none, some id => .ok (.process id)
  | _, _ => .error .refuse

/-- The items, apart from a last one whose value stands in a word of its own: that value is looked
at only after the subcommand. -/
def splitHeld (items : List Item) : List Item × List Item :=
  match items.getLast? with
  | some (.separate key value) => (items.dropLast, [.separate key value])
  | _ => (items, [])

def parse (words : List String) : Except Stop Invocation := do
  let (items, rest) := scan Level.program.switches true words
  let (early, held) := splitHeld items
  let d ← early.foldlM (Draft.accept .program) Draft.start
  let action ← match rest with
    | [] => .ok .interactive
    | name :: words =>
      match subcommand? name with
      | some level => readAction level words
      | none => .error .refuse
  let d ← held.foldlM (Draft.accept .program) d
  return ⟨← d.source, action⟩

end HeapLens.CommandLine
