import ResourceMerge.Symbols.SymbolTable
import ResourceMerge.Text.Json

/-! A symbol table as a document: one object of scalars and one of arrays, each in the order of the
    table. -/

namespace ResourceMerge.SymbolTable

open Text

/-- A signed integer as a document. -/
def numberDocument (value : Int32) : Json := .number value.toInt

/-- A table as a document. -/
def document (t : SymbolTable) : Json :=
  .object
    [("symbols", .object (t.scalars.entries.map fun entry => (entry.1, numberDocument entry.2))),
     ("arrays",
      .object (t.arrays.entries.map fun entry => (entry.1, .list (entry.2.map numberDocument))))]

end ResourceMerge.SymbolTable
