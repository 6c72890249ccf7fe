import AgentDocs.Yaml.Scalar.Gap

/-!
# Plain scalars

A plain scalar runs over words and gaps until an indicator, a comment, a document marker, or a line
that is indented too little.
-/

namespace AgentDocs.Yaml

/-- The characters that end a plain scalar inside brackets. -/
def isFlowIndicator (c : Char) : Bool :=
  c == ',' || c == '[' || c == ']' || c == '\x7b' || c == '\x7d'

/-- The characters of a plain scalar up to the next gap or indicator. -/
def plainRun (inFlow : Bool) : List Char → Except Fault (List Char)
  | [] => .ok []
  | c :: rest =>
    if isSpace c || isBreak c then .ok []
    else if inFlow && c = ':' && (rest.head?.any fun d => d = '?' || isFlowIndicator d) then
      .error .unexpectedColon
    else if c = ':' && endsWord rest || inFlow && isFlowIndicator c then .ok []
    else (plainRun inFlow rest).map (c :: ·)

/-- Reads the rest of a plain scalar after a gap. Beside the text it tells whether a line break was
met at the end. -/
def plainRest (inFlow : Bool) (limit : Nat) :
    Nat → Cursor → Gap → Except Fault (List Char × Bool × Cursor)
  | 0, c, gap => .ok ([], !gap.breaks.isEmpty, c)
  | fuel + 1, c, gap =>
    if c.atAnyMarker || c.next? (· == '#') then .ok ([], !gap.breaks.isEmpty, c)
    else
      match plainRun inFlow c.rest with
      | .error e => .error e
      | .ok run =>
        let (joined, gap) := if run.isEmpty then ([], gap) else (gap.text ++ run, Gap.empty)
        let c := c.advance run.length
        if !c.next? (fun x => isSpace x || isBreak x) then .ok (joined, !gap.breaks.isEmpty, c)
        else
          match Gap.read limit fuel c with
          | .error e => .error e
          | .ok (gap, c) =>
            if !inFlow && c.column < limit then .ok (joined, !gap.breaks.isEmpty, c)
            else
              (plainRest inFlow limit fuel c gap).map fun (text, brokeLine, c) =>
                (joined ++ text, brokeLine, c)

/-- Reads a plain scalar whose lines must reach column `limit` outside brackets. -/
def readPlain (inFlow : Bool) (limit : Nat) (c : Cursor) :
    Except Fault (List Char × Bool × Cursor) :=
  plainRest inFlow limit (c.rest.length + 1) c Gap.empty

end AgentDocs.Yaml
