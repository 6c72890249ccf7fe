import AgentDocs.Text.Blank

/-!
# Tables

Columns of text that begin below each other, two spaces apart. A column is as wide as the longest of
its cells is in UTF-8 bytes, and the cells are padded to that many characters, so cells in ASCII are
aligned exactly. Blank characters at the ends of rows are left out.

* `padded_length`: a padded text has the asked-for number of characters or more.
-/

namespace AgentDocs.CommandLine

open AgentDocs.Text

/-- A text followed by as many spaces as it lacks characters. -/
def padded (width : Nat) (text : String) : String :=
  text ++ String.ofList (List.replicate (width - text.length) ' ')

/-- A cell of `width` is filled up to it, and a longer `text` is not cut. -/
theorem padded_length (width : Nat) (text : String) :
    (padded width text).length = max width text.length := by
  simp only [padded, String.length_append, String.length_ofList, List.length_replicate]
  omega

/-- A text without the blank characters at its end. -/
def withoutBlankEnd (text : String) : String := String.ofList (trimEnd text.toList)

/-- Some spaces. -/
def spaces (count : Nat) : String := String.ofList (List.replicate count ' ')

/-- A table: the headers of its columns and its rows, indented by some spaces. -/
structure Table where
  indent : Nat
  headers : List String
  rows : List (List String)
  deriving Repr, DecidableEq

namespace Table

/-- The widths of the columns from the one with a number on, given their headers. -/
def widthsFrom (rows : List (List String)) (column : Nat) : List String → List Nat
  | [] => []
  | header :: headers =>
    ((rows.filterMap (·[column]?)).map String.utf8ByteSize).foldl max header.utf8ByteSize ::
      widthsFrom rows (column + 1) headers

/-- The widths of the columns. -/
def widths (t : Table) : List Nat := widthsFrom t.rows 0 t.headers

/-- The line for a row. -/
def line (t : Table) (row : List String) : String :=
  spaces t.indent ++ withoutBlankEnd ("  ".intercalate (List.zipWith padded t.widths row))

/-- The row that stands between the headers and the rows. -/
def rule (t : Table) : List String :=
  t.widths.map fun width => String.ofList (List.replicate width '-')

/-- The lines of a table. -/
def lines (t : Table) : List String := (t.headers :: t.rule :: t.rows).map t.line

end Table

end AgentDocs.CommandLine
