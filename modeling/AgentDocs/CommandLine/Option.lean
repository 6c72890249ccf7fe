import AgentDocs.Files.RawText

/-!
# Words and options

The words of a command line and the options that they name. An option is given by its name after two
hyphens, some also by a letter after one; it either stands alone or takes a value. Each level of the
command line, the one before the name of a command and the one after it, has its own options.

* `Level.option?_name`: an option of a level is found by its name there.
-/

namespace AgentDocs.CommandLine

open AgentDocs.Files

/-! ## Words -/

/-- The byte in front of options. -/
def hyphen : UInt8 := 45

/-- The byte between the name of an option and its value. -/
def equals : UInt8 := 61

/-- What a word of a command line looks like. -/
inductive Word where
  | escape
  | named (name : String) (value : Option RawText)
  | letters (letters : List Char)
  | plain

namespace Word

/-- The look of an option with a name, given by what stands behind the two hyphens. -/
def ofNamed (bytes : List UInt8) : Word :=
  match bytes.dropWhile (· ≠ equals) with
  | [] => named (RawText.text ⟨bytes⟩) none
  | _ :: value => named (RawText.text ⟨bytes.takeWhile (· ≠ equals)⟩) (some ⟨value⟩)

/-- The look of a word. A single hyphen is a plain word. -/
def ofRaw (word : RawText) : Word :=
  match word.bytes with
  | a :: b :: rest =>
    if a ≠ hyphen then plain
    else if b ≠ hyphen then letters (Text.decode (b :: rest))
    else if rest = [] then escape
    else ofNamed rest
  | _ => plain

end Word

/-- A word can be the value of the option in front of it. -/
def isValue (word : RawText) : Bool :=
  match Word.ofRaw word with
  | .plain => true
  | _ => false

/-! ## Options -/

/-- The options of all levels. -/
inductive Key where
  | root
  | json
  | verbose
  | version
  | help
  | dryRun
  | validate
  | force
  | role
  deriving Repr, DecidableEq

namespace Key

/-- The name of an option. -/
def name : Key → String
  | root => "root"
  | json => "json"
  | verbose => "verbose"
  | version => "version"
  | help => "help"
  | dryRun => "dry-run"
  | validate => "validate"
  | force => "force"
  | role => "role"

/-- The letter of an option, if it has one. -/
def letter? : Key → Option Char
  | json => some 'j'
  | verbose => some 'v'
  | version => some 'V'
  | help => some 'h'
  | _ => none

/-- An option takes a value. -/
def takesValue : Key → Bool
  | root | role => true
  | _ => false

/-- No two keys share a name. -/
theorem name_injective {a b : Key} (h : a.name = b.name) : a = b := by
  revert h; cases a <;> cases b <;> decide

end Key

/-! ## Levels -/

/-- The commands of the program. -/
inductive CommandName where
  | sync
  | roles
  deriving Repr, DecidableEq

namespace CommandName

/-- The word for a command. -/
def word : CommandName → String
  | sync => "sync"
  | roles => "roles"

/-- The command that a word stands for. -/
def ofWord? (word : String) : Option CommandName :=
  [sync, roles].find? (·.word = word)

theorem ofWord?_word (c : CommandName) : ofWord? c.word = some c := by
  cases c <;> decide

end CommandName

/-- Where a word stands: before the name of a command, or after that of a certain one. -/
inductive Level where
  | program
  | command (name : CommandName)
  deriving Repr, DecidableEq

namespace Level

/-- The options that every level has. -/
def sharedKeys : List Key := [.root, .json, .verbose, .version, .help]

/-- The options of a level. -/
def keys : Level → List Key
  | command .sync => sharedKeys ++ [.dryRun, .validate, .force, .role]
  | _ => sharedKeys

/-- The option that a name stands for. -/
def option? (level : Level) (name : String) : Option Key := level.keys.find? (·.name = name)

/-- The option that a letter stands for. -/
def letterOption? (level : Level) (letter : Char) : Option Key :=
  level.keys.find? (·.letter? = some letter)

/-- Every key of `level` is found there by its name. -/
theorem option?_name {level : Level} {key : Key} (h : key ∈ level.keys) :
    level.option? key.name = some key := by
  unfold option?
  obtain ⟨found, hf⟩ := Option.isSome_iff_exists.1
    (List.find?_isSome (p := fun k : Key => decide (k.name = key.name)) |>.2 ⟨key, h, by simp⟩)
  rw [hf]
  exact congrArg some (Key.name_injective (by simpa using List.find?_some hf))

end Level

end AgentDocs.CommandLine
