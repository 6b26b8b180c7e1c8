/-
# Tables that are written as text

A table gets a row at a time, cell by cell, and a column whenever a header is new. The
cells of a row go through one string stream, and between them its error state is cleared,
which leaves the text in it. So a cell has the texts of all cells before it in its row,
and a row is only there once it has a cell. What is written is read by splitting it at the
commas and line breaks, of which no cell may have one of its own.
-/

import OsvrCore.Common.JsonValue
import OsvrCore.Math.KeyedTable
import OsvrCore.Math.SeparatedText
import Mathlib.Data.List.ModifyLast

set_option autoImplicit false

namespace OSVR.Util

open Common Math

/-- What is inserted into a stream: the text that it writes, and whether it succeeds. -/
structure Streamed where
  text : Str
  good : Bool

/-- A string stream. -/
structure OStringStream where
  str : Str
  good : Bool

namespace OStringStream

def empty : OStringStream := ⟨[], true⟩

/-- `operator<<`. -/
def insert (os : OStringStream) (data : Streamed) : OStringStream :=
  if os.good then ⟨os.str ++ data.text, data.good⟩ else os

/-- `clear` is about the error state only. -/
def clear (os : OStringStream) : OStringStream := { os with good := true }

end OStringStream

/-- `detail::Cell`. -/
structure Cell where
  header : Str
  data : Streamed

/-- The header and the text of a cell. -/
def Cell.entry (c : Cell) : Str × Str := (c.header, c.data.text)

/-- The members of `CSV`. -/
structure CSV where
  columns_ : List Str
  columnsMap_ : List (Str × ℕ)
  data_ : List (List Str)

namespace CSV

def empty : CSV := ⟨[], [], []⟩

/-- `getColumn`. -/
def getColumn (csv : CSV) (heading : Str) : ℕ × CSV :=
  match csv.columnsMap_.lookup heading with
  | some ret => (ret, csv)
  | none =>
      let ret := csv.columns_.length
      (ret, { csv with
        columns_ := csv.columns_ ++ [heading]
        columnsMap_ := csv.columnsMap_ ++ [(heading, ret)] })

def pushRow (csv : CSV) : CSV := { csv with data_ := csv.data_ ++ [[]] }

/-- `ensureLastRowCanHoldColId`, of the row. -/
def ensureCanHoldColId (row : List Str) (id : ℕ) : List Str :=
  if id ≥ row.length then row ++ List.replicate (id + 1 - row.length) [] else row

def insertInLastRow (csv : CSV) (heading data : Str) : CSV :=
  let (col, csv) := csv.getColumn heading
  { csv with data_ := csv.data_.modifyLast fun row => (ensureCanHoldColId row col).set col data }

/-- The members of `RowProxy`, without the reference to the table. -/
structure RowProxy where
  os_ : OStringStream
  addedRow_ : Bool

/-- `row`. -/
def row : RowProxy := ⟨.empty, false⟩

/-- `commonPreAdd`. -/
def commonPreAdd (csv : CSV) (proxy : RowProxy) : CSV × RowProxy :=
  if proxy.addedRow_ then (csv, { proxy with os_ := proxy.os_.clear })
  else (csv.pushRow, { proxy with addedRow_ := true })

/-- `RowProxy::add`, with `commonPostAdd`. -/
def add (current : CSV × RowProxy) (c : Cell) : CSV × RowProxy :=
  let (csv, proxy) := commonPreAdd current.1 current.2
  let os_ := proxy.os_.insert c.data
  (csv.insertInLastRow c.header os_.str, { proxy with os_ })

/-- The name of a column as it is written. -/
def quoted (colName : Str) : Str := '"' :: colName ++ ['"']

/-- The cell of a row under a header; a row ends with its last cell. -/
def cellOf (columns : List Str) (row : List Str) (heading : Str) : Str :=
  if columns.contains heading then row.getD (columns.idxOf heading) [] else []

/-- The cells of the lines of a text. -/
def readTable (text : Str) : List (List Str) := (piecesOf '\n' text).map (piecesOf ',')

/-- A text that does not end a cell or a line. -/
def Plain (text : Str) : Prop := ',' ∉ text ∧ '\n' ∉ text

/-! ## Columns -/

/-- The map has the positions of the columns, and no row has more cells than there are columns. -/
structure Indexed (csv : CSV) : Prop where
  map_eq : csv.columnsMap_ = csv.columns_.zipIdx
  nodup : csv.columns_.Nodup
  rows_le : ∀ row ∈ csv.data_, row.length ≤ csv.columns_.length

variable {csv : CSV} {heading : Str}

/-- All texts of a row, one after another. -/
def texts (cells : List Cell) : Str := cells.flatMap fun c => c.data.text

/-- What is put under the headers: with each text what the stream has before it. -/
def writtenAfter (before : Str) : List Cell → List (Str × Str)
  | [] => []
  | c :: cells =>
      (c.header, before ++ c.data.text) :: writtenAfter (before ++ c.data.text) cells

/-- What is put under the headers of a row. -/
def written (cells : List Cell) : List (Str × Str) := writtenAfter [] cells

/-- The last row may have a cell more. -/
theorem Indexed.pushRow (h : Indexed csv) : Indexed csv.pushRow := by
  refine ⟨h.map_eq, h.nodup, ?_⟩
  intro row hrow
  rcases List.mem_append.mp hrow with hold | hnew
  · exact h.rows_le row hold
  · rw [List.mem_singleton.mp hnew]
    exact Nat.zero_le _

/-- The rows that have a cell. -/
def filled (rows : List (List Cell)) : List (List Cell) := rows.filter fun cells => !cells.isEmpty

/-- The headers in the order of first use. -/
def headers (rows : List (List Cell)) : List Str := (rows.flatten.map Cell.header).eraseDups

theorem plain_of_mem_readTable {text : Str} {line : List Str} (hline : line ∈ readTable text)
    {cell : Str} (hcell : cell ∈ line) : Plain cell := by
  obtain ⟨piece, hpiece, rfl⟩ := List.mem_map.mp hline
  exact ⟨notMem_of_mem_piecesOf hcell,
    fun hbreak => notMem_of_mem_piecesOf hpiece (mem_of_mem_piecesOf hcell hbreak)⟩

theorem plain_nil : Plain [] := ⟨List.not_mem_nil, List.not_mem_nil⟩

theorem plain_quoted_iff (colName : Str) : Plain (quoted colName) ↔ Plain colName := by
  simp [Plain, quoted]

/-- A cell of a line that was read is plain, as an empty one is. -/
theorem plain_cellOf {columns texts : List Str} (hplain : ∀ cell ∈ texts, Plain cell)
    (heading : Str) : Plain (cellOf columns texts heading) := by
  rw [cellOf]
  split
  · rw [List.getD_eq_getElem?_getD]
    cases hcell : texts[columns.idxOf heading]? with
    | none => exact plain_nil
    | some cell => exact hplain cell (List.mem_of_getElem? hcell)
  · exact plain_nil

/-- A text is the table of the rows: one column for each header in the order of first use, and a
line for each row with, under each header, the text that was last given for it there, or nothing. -/
structure Tabulates (text : Str) (rows : List (List Cell)) : Prop where
  columns : (readTable text).head? = some ((headers rows).map quoted)
  width : ∀ line ∈ readTable text, line.length ≤ (headers rows).length
  length_eq : (readTable text).length = rows.length + 1
  cells : ∀ (i : ℕ) cells, rows[i]? = some cells → ∀ heading,
    cellOf (headers rows) ((readTable text).getD (i + 1) []) heading =
      (lastFor heading (cells.map Cell.entry)).getD []

/-- What has been read as the table of the rows has no separator in a header, or in the text that
is given last in a row. -/
theorem Tabulates.plain {text : Str} {rows : List (List Cell)} (h : Tabulates text rows) :
    (∀ name ∈ headers rows, Plain name) ∧
      ∀ cells ∈ rows, ∀ c ∈ cells.getLast?, Plain c.data.text := by
  apply And.intro
  · intro name hname
    rw [← plain_quoted_iff]
    exact plain_of_mem_readTable (List.mem_of_mem_head? h.columns) (List.mem_map_of_mem hname)
  · intro cells hmem c hlast
    obtain ⟨before, rfl⟩ := List.getLast?_eq_some_iff.mp hlast
    obtain ⟨i, hi⟩ := List.getElem?_of_mem hmem
    have hcell := h.cells i _ hi c.header
    rw [List.map_append, List.map_singleton, lastFor_concat, Cell.entry, if_pos rfl,
      Option.getD_some] at hcell
    show Plain (c.header, c.data.text).2
    rw [← hcell]
    apply plain_cellOf
    intro cell hcell
    rw [List.getD_eq_getElem?_getD] at hcell
    cases hline : (readTable text)[i + 1]? with
    | none =>
        rw [hline] at hcell
        cases hcell
    | some line =>
        rw [hline] at hcell
        exact plain_of_mem_readTable (List.mem_of_getElem? hline) hcell

end CSV
end OSVR.Util
