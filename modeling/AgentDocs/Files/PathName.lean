import AgentDocs.Files.FileName

/-!
# Spelled paths

A path is the raw text that a user, a setting or the system gives, and it keeps its spelling:
joining adds at most one separator and nothing is tidied. Its steps are what the spelling means,
with empty and `.` segments left out except a leading `.`; comparisons go by steps, so `a-b` never
lies inside `a`.
-/

namespace AgentDocs.Files

/-- A path as it is spelled. -/
structure PathName where
  raw : RawText
  deriving Repr, DecidableEq, Inhabited

/-- What one segment of a path says to do. -/
inductive Step where
  | root
  | here
  | up
  | child (name : FileName)
  deriving Repr, DecidableEq

namespace Step

/-- The order among kinds of steps. -/
def rank : Step → Nat
  | root => 0
  | here => 1
  | up => 2
  | child _ => 3

/-- The name of a step into a child. -/
def name? : Step → Option FileName
  | child name => some name
  | _ => none

/-- The bytes of the name of a step into a child. -/
def nameBytes (s : Step) : List UInt8 := s.name?.elim [] (·.raw.bytes)

/-- Steps are ordered by kind, and children by name. -/
def le (a b : Step) : Bool :=
  a.rank < b.rank || (a.rank == b.rank && a.nameBytes ≤ b.nameBytes)

end Step

/-- The order of two step lists that is lexicographic in the steps. -/
def stepsLE : List Step → List Step → Bool
  | [], _ => true
  | _ :: _, [] => false
  | a :: as, b :: bs => if a = b then stepsLE as bs else a.le b

/-- The segments of a list between separators. -/
def segments {α : Type} [DecidableEq α] (separator : α) : List α → List (List α)
  | [] => [[]]
  | c :: rest =>
    if c = separator then [] :: segments separator rest
    else match segments separator rest with
      | [] => [[c]]
      | segment :: more => (c :: segment) :: more

namespace PathName

/-- The text that is shown for a path. -/
def text (p : PathName) : String := p.raw.text

/-- An absolute path starts at the root. -/
def isAbsolute (p : PathName) : Bool := p.raw.bytes.head? == some separator

/-- The path `more` seen from `base`. -/
def join (base : PathName) (more : RawText) : PathName :=
  if (PathName.mk more).isAbsolute then ⟨more⟩
  else if base.raw.bytes.isEmpty || base.raw.bytes.getLast? = some separator then
    ⟨base.raw ++ more⟩
  else ⟨base.raw ++ ⟨[separator]⟩ ++ more⟩

/-- The step that a segment after the first stands for. -/
def innerStep (segment : List UInt8) : Step :=
  match FileName.ofRaw? ⟨segment⟩ with
  | some name => .child name
  | none => if segment = [dot, dot] then .up else .here

/-- The segments of a path, each with the step it stands for. The empty path has none, and an empty
segment in front stands for the root. -/
def markedSegments (p : PathName) : List (Step × List UInt8) :=
  if p.raw.bytes.isEmpty then []
  else match segments separator p.raw.bytes with
    | [] => []
    | first :: rest =>
      (if first = [] then .root else innerStep first, first) ::
        rest.map fun segment => (innerStep segment, segment)

/-- The steps that lead along a path, one for each segment. -/
def moves (p : PathName) : List Step := p.markedSegments.map (·.1)

/-- The steps of a path that count in comparisons: a step that stays counts only in front. -/
def steps (p : PathName) : List Step :=
  match p.moves with
  | [] => []
  | first :: rest => first :: rest.filter (· ≠ .here)

/-- The paths up to each of the steps that count, after the bytes `before`. -/
def prefixesAfter (before : List UInt8) : List (Step × List UInt8) → List PathName
  | [] => []
  | (step, segment) :: rest =>
    let spelling := before ++ separator :: segment
    if step = .here then prefixesAfter spelling rest
    else ⟨⟨spelling⟩⟩ :: prefixesAfter spelling rest

/-- The paths up to each of the steps that count, the path itself the last of them. -/
def prefixes (p : PathName) : List PathName :=
  match p.markedSegments with
  | [] => []
  | (step, segment) :: rest =>
    ⟨⟨if step = .root then [separator] else segment⟩⟩ :: prefixesAfter segment rest

/-- The steps of a path in reverse, without the separators at its end. The root alone has none. -/
def movesBack (p : PathName) : List Step :=
  (p.markedSegments.reverse.dropWhile (·.2.isEmpty)).map (·.1)

/-- A separator stands at the end of a path. -/
def isClosed (p : PathName) : Bool := p.raw.bytes.getLast? == some separator

/-- A path starts with another if its steps do. -/
def startsWith (p start : PathName) : Bool := start.steps.isPrefixOf p.steps

/-- Paths are ordered by their steps. -/
def le (p q : PathName) : Bool := stepsLE p.steps q.steps

/-- The segments after those that make up `steps`, without the staying ones in front. -/
def dropSteps : List Step → List (Step × List UInt8) → Option (List (List UInt8))
  | [], rest => some ((rest.dropWhile (·.1 == .here)).map (·.2))
  | _ :: _, [] => none
  | step :: steps, (found, _) :: rest =>
    if step = found then dropSteps steps rest
    else if found = .here then dropSteps (step :: steps) rest
    else none

/-- The rest of the spelling of a path after the steps of `start`. -/
def relativeTo? (p start : PathName) : Option PathName :=
  match start.steps, p.markedSegments with
  | [], _ => some p
  | _ :: _, [] => none
  | step :: steps, (found, _) :: rest =>
    if step = found then
      (dropSteps steps rest).map fun segments => ⟨⟨[separator].intercalate segments⟩⟩
    else none

end PathName

/-! ## File names -/

/-- The part of a file name before its last dot and the part after it. A dot at the start does not
count. -/
def splitExtension (name : RawText) : RawText × Option RawText :=
  let reversed := name.bytes.reverse
  let stem := (reversed.dropWhile (· != dot)).drop 1
  if stem.isEmpty then (name, none)
  else (⟨stem.reverse⟩, some ⟨(reversed.takeWhile (· != dot)).reverse⟩)

end AgentDocs.Files
