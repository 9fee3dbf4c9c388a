import ChipForge.Decimal.Reader
import ChipForge.Failure
import ChipForge.Table

/-! Arguments of a command line: options that take a value, and plain arguments. -/
namespace ChipForge.Tools
open Text

/-- An option: its spellings, the key of its value and which values it takes. -/
structure Flag where
  spellings : List String
  key : String
  takes : String→Bool := fun _ => true

/-- What a word of a command line is. -/
inductive Word
  | value
  | option (flag : Flag) (attached : Option String)
  | help (attached : Option String)
  | ambiguous
  | unknown

def spellings (flags : List Flag) : List (String×Option Flag) :=
  [("-h",none),("--help",none)]++flags.flatMap fun f => f.spellings.map fun s => (s,some f)

def wordFor (attached : Option String) : Option Flag→Word
  | some flag => .option flag attached
  | none => .help attached

def isUnsigned (cs : List Char) : Bool :=
  let isNumeral (c : Char) : Bool := (decimalValue? c).isSome
  match cs.dropWhile isNumeral with
  | [] => !cs.isEmpty
  | '.' :: more => !more.isEmpty && more.all isNumeral
  | _ => false

/-- What a word may be short for: the start of a long spelling, or a short one with its value glued on. -/
def candidates (flags : List Flag) (word : String) : List (Option Flag×Option String) :=
  if startsWith word "--" then
    let (start,attached) := cut word "="
    (spellings flags).filterMap fun (s,f) => if startsWith s start then some (f,attached) else none
  else
    (spellings flags).filterMap fun (s,f) =>
      if s == take word 2 then some (f,some (String.ofList (word.toList.drop 2)))
      else if startsWith s word then some (f,none)
      else none

/-- Letters glued to the short call for help are passed over. -/
def passOver (word : String) (attached : Option String) : Option String :=
  if startsWith word "--" || attached.any (startsWith · "-") then attached else none

def shortWord (flags : List Flag) (word : String) : Word :=
  match candidates flags word with
  | [(none,attached)] => .help (passOver word attached)
  | [(some f,attached)] => .option f attached
  | [] => if isUnsigned (word.toList.drop 1) || contains word " " then .value else .unknown
  | _ => .ambiguous

def readWord (flags : List Flag) (word : String) : Word :=
  if !startsWith word "-" || word == "-" then .value
  else
    match (spellings flags).lookup word with
    | some f => wordFor none f
    | none =>
      match cut word "=" with
      | (start,some attached) =>
        match (spellings flags).lookup start with
        | some f => wordFor (some attached) f
        | none => shortWord flags word
      | (_,none) => shortWord flags word

/-- Values of options and plain arguments. -/
structure Arguments where
  options : Table String
  plain : List String
  surplus : Bool

def misused {α : Type} : Except Failure α := .error (.exit (.int 2))

def Arguments.give (a : Arguments) (flag : Flag) (value : String) : Except Failure Arguments :=
  if flag.takes value then .ok { a with options := a.options.put flag.key value } else misused

/-- What came before a word: an option that waits for its value, a plain argument, or neither. -/
inductive Before
  | flag (flag : Flag)
  | plain
  | nothing

/-- Reads words in turn. After two dashes all words are plain; the dashes go with the plain argument beside them. -/
def readWords (flags : List Flag) (count : Nat) : Before→Arguments→List String→Except Failure Arguments
  | .flag _, _, [] => misused
  | _, a, [] => .ok a
  | .flag f, a, word::rest =>
    match word == "--", readWord flags word with
    | false, .value => do readWords flags count .nothing (← a.give f word) rest
    | _, _ => misused
  | before, a, word::rest =>
    if word == "--" then
      let beside := a.plain.length < count || (count != 0 && before matches .plain)
      .ok { a with plain := a.plain++rest, surplus := a.surplus || !beside }
    else
      match readWord flags word with
      | .value => readWords flags count .plain { a with plain := a.plain++[word] } rest
      | .option f (some attached) => do readWords flags count .nothing (← a.give f attached) rest
      | .option f none => readWords flags count (.flag f) a rest
      | .help none => .error (.exit (.int 0))
      | .help (some _) => misused
      | .ambiguous => misused
      | .unknown => readWords flags count .nothing { a with surplus := true } rest

/-- Reads a command line with so many plain arguments. Words that could be short for two options are refused first. -/
def readArguments (flags : List Flag) (count : Nat) (words : List String) : Except Failure Arguments := do
  let dashed := words.takeWhile (· != "--")
  if dashed.any fun w => readWord flags w matches .ambiguous then misused
  else
    let a ← readWords flags count .nothing ⟨Table.empty,[],false⟩ words
    if a.plain.length == count && !a.surplus then pure a else misused

end ChipForge.Tools
