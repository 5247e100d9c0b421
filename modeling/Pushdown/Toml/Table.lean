/-!
# Tables of a TOML document

A document is a tree of tables. How a table came about decides what may still be added to it: a
table in braces is complete, a table with a header of its own takes no second header, and one
made by a dotted key takes dotted keys only.

Only items that settings can be made of are kept: texts, empty arrays and tables. A document
with any other item is refused when it is read.
-/

namespace Pushdown.Toml

/-- How a table came about. -/
inductive Form
  /-- Written in braces. -/
  | braces
  /-- Given by a header of its own. -/
  | header
  /-- On the way to a table with a header. -/
  | above
  /-- On the way of a dotted key. -/
  | dotted
  deriving DecidableEq, Repr

/-- What a key stands for. -/
inductive Item
  | text (s : String)
  | emptyArray
  | table (form : Form) (entries : List (String × Item))

/-- The entries of a table, in the order of the document. -/
abbrev Entries := List (String × Item)

/-- The entries with the item of one key changed, or refused. A new key comes last. -/
def alter (key : String) (change : Option Item → Option Item) : Entries → Option Entries
  | [] => (change none).map fun item => [(key, item)]
  | (k, item) :: rest =>
      if k = key then (change (some item)).map fun item => (k, item) :: rest
      else (alter key change rest).map ((k, item) :: ·)

/-- The entries with a new key; a key that is there already is refused. -/
def addNew (key : String) (item : Item) : Entries → Option Entries :=
  alter key fun
    | none => some item
    | some _ => none

/-- The entries after the header of the table at a path. -/
def openHeader : List String → Entries → Option Entries
  | [] => fun _ => none
  | [key] => alter key fun
      | none => some (.table .header [])
      | some (.table .above entries) => some (.table .header entries)
      | some _ => none
  | key :: path => alter key fun
      | none => (openHeader path []).map (.table .above)
      | some (.table .braces _) => none
      | some (.table form entries) => (openHeader path entries).map (.table form)
      | some _ => none

/-- The entries after an item was given to a dotted key. -/
def assign : List String → Item → Entries → Option Entries
  | [], _ => fun _ => none
  | [key], item => addNew key item
  | key :: path, item => alter key fun
      | none => (assign path item []).map (.table .dotted)
      | some (.table .dotted entries) => (assign path item entries).map (.table .dotted)
      | some (.table .above entries) =>
          if path.length = 1 then none else (assign path item entries).map (.table .above)
      | some _ => none

/-- The entries with those of the table at a path changed, or refused. -/
def changeAt : List String → (Entries → Option Entries) → Entries → Option Entries
  | [], change => change
  | key :: path, change => alter key fun
      | some (.table form entries) => (changeAt path change entries).map (.table form)
      | _ => none

end Pushdown.Toml
