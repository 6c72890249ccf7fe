import AgentDocs.Yaml.Value

/-!
# Reading into a wanted shape

Readers for nodes whose shape is known. A text takes any scalar as it is written; flags and numbers
take plain scalars only; a list, a mapping or a record takes an empty plain scalar as empty. Fields
that are not known are passed over, and a known one must not stand twice.
-/

namespace AgentDocs.Yaml

namespace Document

/-- A scalar with nothing written. -/
def isEmptyPlain (style : Style) (text : String) : Bool := style == .plain && text.isEmpty

/-- A scalar whose form may decide its meaning: a plain one, or a literal with the wanted tag. -/
def isMeaningful (wanted : Tag) (tag : Option Tag) (style : Style) : Bool :=
  style == .plain || style == .literal && tag == some wanted

/-- A text. -/
def text (d : Document) (n : Node) : Reading String := do
  match ← d.follow n with
  | .scalar _ _ text => return text
  | _ => throw (.unexpectedValue "a string")

/-- A text, or nothing for a plain null. -/
def text? (d : Document) (n : Node) : Reading (Option String) := do
  match ← d.follow n with
  | .scalar tag style text =>
    if style ≠ .plain then return some text
    else
      match tag with
      | some t =>
        if t ≠ Tag.null then return some text
        else if isNull text.toList && !text.isEmpty then return none
        else throw (.unexpectedValue "null")
      | none => return if isNull text.toList then none else some text
  | _ => throw (.unexpectedValue "a string")

/-- A flag. -/
def flag (d : Document) (n : Node) : Reading Bool := do
  match ← d.follow n with
  | .scalar tag style text =>
    match isMeaningful Tag.flag tag style, flag? text.toList with
    | true, some b => return b
    | _, _ => throw (.unexpectedValue "a boolean")
  | _ => throw (.unexpectedValue "a boolean")

/-- A natural number of at most 64 bits. -/
def natural (d : Document) (n : Node) : Reading Nat := do
  match ← d.follow n with
  | .scalar tag style text =>
    match isMeaningful Tag.integer tag style, natural? text.toList with
    | true, some n =>
      if n < Nat.pow 2 64 then return n else throw (.unexpectedValue "a number of 64 bits")
    | _, _ => throw (.unexpectedValue "a number of 64 bits")
  | _ => throw (.unexpectedValue "a number of 64 bits")

/-- The items of a list. -/
def items (d : Document) (n : Node) : Reading (List Node) := do
  match ← d.follow n with
  | .sequence _ items => return items
  | .scalar _ style text =>
    if isEmptyPlain style text then return [] else throw (.unexpectedValue "a sequence")
  | _ => throw (.unexpectedValue "a sequence")

/-- The texts of a list. -/
def texts (d : Document) (n : Node) : Reading (List String) := do
  (← d.items n).mapM d.text

/-- The pairs of a mapping, with the texts of the keys. -/
def pairs (d : Document) (n : Node) : Reading (List (String × Node)) := do
  match ← d.follow n with
  | .mapping _ pairs => pairs.mapM fun (k, v) => do return (← d.text k, v)
  | .scalar _ style text =>
    if isEmptyPlain style text then return [] else throw (.unexpectedValue "a mapping")
  | _ => throw (.unexpectedValue "a mapping")

/-- The known fields among some pairs. A known field that stands twice is a fault. -/
def fields (known : List String) :
    List (String × Node) → Except Fault (List (String × Node))
  | [] => .ok []
  | (name, n) :: rest =>
    if !known.contains name then fields known rest
    else if rest.any (·.1 == name) then .error (.repeatedField name)
    else (fields known rest).map ((name, n) :: ·)

/-- The known fields of a record. -/
def record (d : Document) (known : List String) (n : Node) : Reading (List (String × Node)) := do
  let pairs ← d.pairs n
  (fields known pairs : Except Fault (List (String × Node)))

/-- The field of a record with a name, or a value in its place. -/
def field {α : Type} (fields : List (String × Node)) (name : String) (read : Node → Reading α)
    (absent : α) : Reading α :=
  match fields.lookup name with
  | some n => read n
  | none => pure absent

/-- Reads the document of a stream into a shape. -/
def readText {α : Type} (text : String) (read : Document → Node → Reading α) : Except Fault α := do
  let d ← Document.ofText text.toList
  (read d d.root).run' d.aliasLimit

end Document

end AgentDocs.Yaml
