import ObjectShape.Entries

/-!
# TOML data

The data that a TOML document stands for, and the tables as they grow while it is read. A table
remembers how it came to be, because that decides what may still be written into it.
-/

namespace ObjectShape.Toml

set_option autoImplicit false

inductive Data where
  | string (text : String)
  | integer (number : Int)
  | float (number : Float)
  | boolean (flag : Bool)
  /-- A date, a time or both, in the one way they are printed. -/
  | datetime (text : String)
  | array (items : List Data)
  | table (fields : List (String × Data))
  deriving Inhabited

mutual

/-- What stands under a key of a growing table. -/
inductive Item where
  | value (data : Data)
  | table (table : Table)
  /-- An array of tables, which headers in double brackets extend. -/
  | tables (tables : List Table)

structure Table where
  /-- Made on the way to another table, not by a header of its own. -/
  implicit : Bool
  /-- Made by a dotted key. -/
  dotted : Bool
  items : List (String × Item)

end

namespace Table

def empty : Table := { implicit := false, dotted := false, items := [] }

mutual

def data : Table → Data
  | ⟨_, _, items⟩ => .table (fieldsData items)
termination_by structural table => table

def fieldsData : List (String × Item) → List (String × Data)
  | [] => []
  | (key, item) :: rest => (key, itemData item) :: fieldsData rest
termination_by structural items => items

def itemData : Item → Data
  | .value data => data
  | .table table => table.data
  | .tables tables => .array (tablesData tables)
termination_by structural item => item

def tablesData : List Table → List Data
  | [] => []
  | table :: rest => table.data :: tablesData rest
termination_by structural tables => tables

end

/-- Changes the table that the path leads to, making the missing tables on the way. `dotted` says
that the path is the front of a dotted key: such a path does not enter tables that have a header. -/
def change (dotted : Bool) (path : List String) (edit : Table → Option Table) (table : Table) :
    Option Table :=
  match path with
  | [] => edit table
  | key :: rest => do
      let item ←
        match Entries.get? key table.items with
        | none => do
            let made : Table := { implicit := true, dotted, items := [] }
            pure (Item.table (← change dotted rest edit made))
        | some (.value _) => none
        | some (.table child) =>
            if dotted && !child.implicit then none
            else pure (Item.table (← change dotted rest edit child))
        | some (.tables tables) => do
            let last ← tables.getLast?
            let changed ← change dotted rest edit last
            pure (Item.tables (tables.dropLast ++ [changed]))
      return { table with items := Entries.put key item table.items }

/-- Writes a value under a dotted key. A key is written once, and a table made by a header is not
extended by dotted keys from outside. -/
def insert (path : List String) (key : String) (data : Data) (table : Table) : Option Table :=
  table.change true path fun target =>
    if target.dotted == path.isEmpty || (Entries.get? key target.items).isSome then none
    else some { target with items := Entries.put key (.value data) target.items }

/-- The table that a header opens: a new one, or one that was only made on the way to others. -/
def opened (key : String) (parent : Table) : Option Table :=
  match Entries.get? key parent.items with
  | none => some empty
  | some (.table table) =>
      if table.implicit && !table.dotted then some { table with implicit := false } else none
  | some _ => none

def openTable (path : List String) (key : String) (root : Table) : Option Table :=
  root.change false path fun parent => do
    let table ← opened key parent
    return { parent with items := Entries.put key (.table table) parent.items }

def openElement (path : List String) (key : String) (root : Table) : Option Table :=
  root.change false path fun parent =>
    match Entries.get? key parent.items with
    | none => some { parent with items := Entries.put key (.tables [empty]) parent.items }
    | some (.tables tables) =>
        some { parent with items := Entries.put key (.tables (tables ++ [empty])) parent.items }
    | some _ => none

end Table

end ObjectShape.Toml
