/-!
# Items — what a TOML document holds, and how its tables grow

A document is a table that grows line by line. A table has members and a form, which says
how it came about and so what may still be added to it: a table that a header named is
complete but for the lines below that header; a table that only stood on the way to a
header may yet get a header of its own; a table that dotted keys made may get more dotted
keys; a table written between braces is closed.

A scalar that is no string is kept without its value.
-/

namespace MetricDepot.Toml

/-- How a table came about. -/
inductive Form where
  | header
  | implied
  | dotted
  | braces
deriving DecidableEq, Repr

/-- What stands under a key. The elements of an array of tables are kept from the latest
    back; there is always one. -/
inductive Item where
  | text (value : String)
  | scalar
  | array (items : List Item)
  | table (form : Form) (members : List (String × Item))
  | tables (latest : List (String × Item)) (earlier : List (List (String × Item)))

/-- The members of a table. No key comes twice. -/
abbrev Members := List (String × Item)

namespace Members

/-- Puts an item under a key, in place of what was there. -/
def replace (key : String) (item : Item) (members : Members) : Members :=
  members.map fun m => if m.1 = key then (key, item) else m

/-- Puts an item under a key that was not there. -/
def add (key : String) (item : Item) (members : Members) : Members := members ++ [(key, item)]

/-- Changes the table at a path below a table of the given form. Tables that are missing on
    the way are made. Dotted keys make dotted tables and pass no table that has a header;
    headers imply tables and pass all but those between braces. Of an array of tables the
    way leads through the latest. -/
def alter (dotted : Bool) (change : Form → Members → Option Members) :
    List String → Form → Members → Option Members
  | [], form, members => change form members
  | key :: path, _, members =>
      let made : Form := if dotted then .dotted else .implied
      match members.lookup key with
      | none => do return members.add key (.table made (← alter dotted change path made []))
      | some (.table form inner) =>
          if form = .braces ∨ (form = .header ∧ dotted) then none
          else do return members.replace key (.table form (← alter dotted change path form inner))
      | some (.tables latest earlier) => do
          return members.replace key (.tables (← alter dotted change path .header latest) earlier)
      | some _ => none

/-- Puts an item under a dotted key that was not there. If the key has several parts, the
    table that it leads to must be a dotted one. -/
def addDotted (path : List String) (key : String) (item : Item) (form : Form)
    (members : Members) : Option Members :=
  alter true
    (fun form members =>
      if (members.lookup key).isSome ∨ (path ≠ [] ∧ form ≠ .dotted) then none
      else some (members.add key item))
    path form members

/-- Opens the table that a header names: a new one, or one that was implied. -/
def openTable (path : List String) (key : String) (members : Members) : Option Members :=
  alter false
    (fun _ members =>
      match members.lookup key with
      | none => some (members.add key (.table .header []))
      | some (.table .implied inner) => some (members.replace key (.table .header inner))
      | some _ => none)
    path .header members

/-- Opens one more table of the array of tables that a header names. -/
def openElement (path : List String) (key : String) (members : Members) : Option Members :=
  alter false
    (fun _ members =>
      match members.lookup key with
      | none => some (members.add key (.tables [] []))
      | some (.tables latest earlier) =>
          some (members.replace key (.tables [] (latest :: earlier)))
      | some _ => none)
    path .header members

end Members

end MetricDepot.Toml
