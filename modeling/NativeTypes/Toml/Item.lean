/-! # Tables of TOML

A document is a tree of tables. Where a table came from decides who may add to it: one that was only
implied by a longer header may still get a header of its own, one made by dotted keys takes more
dotted keys, and one in braces is closed. `insertEntry`, `openTable` and `openElement` are the three
ways in which a document grows. -/

namespace NativeTypes.Toml

/-- Why a document is refused. -/
inductive Fault where
  | malformed
  | duplicateKey (key : String)
  | closedTable (key : String)
deriving DecidableEq

/-- The message of a fault. -/
def Fault.message : Fault → String
  | malformed => "the text is not valid TOML"
  | duplicateKey k => "the key `" ++ k ++ "` is defined twice"
  | closedTable k => "the value of `" ++ k ++ "` is not a table that can be added to"

/-- Where a table came from. -/
inductive Origin where
  | header
  | implied
  | dotted
  | braces
deriving DecidableEq

/-- What stands under a key. -/
inductive Item where
  | text (s : String)
  | integer (i : Int)
  | float (literal : String)
  | boolean (b : Bool)
  | moment (literal : String)
  | array (items : List Item)
  | table (origin : Origin) (entries : List (String × Item))
  | tables (elements : List (List (String × Item)))

/-- The entries of a table, in the order in which they were made. -/
abbrev Entries := List (String × Item)

/-- Changes what stands under a key, or puts something there. -/
def alterEntry (k : String) (f : Option Item → Except Fault Item) : Entries → Except Fault Entries
  | [] => (f none).map fun x => [(k, x)]
  | (m, x) :: r =>
    if m = k then (f (some x)).map fun y => (m, y) :: r
    else (alterEntry k f r).map fun es => (m, x) :: es

/-- Changes the last of the elements of an array of tables. -/
def alterLast (k : String) (f : Entries → Except Fault Entries) (elements : List Entries) :
    Except Fault Item :=
  match elements.getLast? with
  | some es => (f es).map fun x => .tables (elements.dropLast ++ [x])
  | none => .error (.closedTable k)

/-- Goes into a table on the way of a header, which implies the tables that are not there yet. -/
def enter (k : String) (f : Entries → Except Fault Entries) : Option Item → Except Fault Item
  | none => (f []).map (.table .implied)
  | some (.table .braces _) => .error (.closedTable k)
  | some (.table o es) => (f es).map (.table o)
  | some (.tables ts) => alterLast k f ts
  | some _ => .error (.closedTable k)

/-- Makes an entry, below the tables that the other parts of a dotted key name. -/
def insertEntry (key : String) (x : Item) : List String → Entries → Except Fault Entries
  | [], es =>
    alterEntry key (fun | none => .ok x | some _ => .error (.duplicateKey key)) es
  | k :: path, es =>
    alterEntry k (fun
      | none => (insertEntry key x path []).map (.table .dotted)
      | some (.table .dotted es) => (insertEntry key x path es).map (.table .dotted)
      | some (.table .implied es) =>
        if path.isEmpty then .error (.duplicateKey key)
        else (insertEntry key x path es).map (.table .implied)
      | some (.tables ts) =>
        if path.isEmpty then .error (.duplicateKey key)
        else alterLast k (insertEntry key x path) ts
      | some _ => .error (.closedTable k)) es

/-- Makes the table of a header. -/
def openTable : List String → Entries → Except Fault Entries
  | [], es => .ok es
  | [k], es =>
    alterEntry k (fun
      | none => .ok (.table .header [])
      | some (.table .implied es) => .ok (.table .header es)
      | some _ => .error (.duplicateKey k)) es
  | k :: path, es => alterEntry k (enter k (openTable path)) es

/-- Makes one more element of an array of tables. -/
def openElement : List String → Entries → Except Fault Entries
  | [], es => .ok es
  | [k], es =>
    alterEntry k (fun
      | none => .ok (.tables [[]])
      | some (.tables ts) => .ok (.tables (ts ++ [[]]))
      | some _ => .error (.duplicateKey k)) es
  | k :: path, es => alterEntry k (enter k (openElement path)) es

/-- Changes the table that a header made last. -/
def within (f : Entries → Except Fault Entries) : List String → Entries → Except Fault Entries
  | [], es => f es
  | k :: path, es => alterEntry k (enter k (within f path)) es

/-- One line of a document: a header, the header of an element, or an entry. -/
inductive Statement where
  | table (path : List String)
  | element (path : List String)
  | entry (path : List String) (key : String) (x : Item)

/-- The table of a document, from its statements; `current` is the header that entries are under. -/
def build (current : List String) (es : Entries) : List Statement → Except Fault Entries
  | [] => .ok es
  | .table path :: r => do build path (← openTable path es) r
  | .element path :: r => do build path (← openElement path es) r
  | .entry path key x :: r => do build current (← within (insertEntry key x path) current es) r

/-- The table in braces of its entries. -/
def buildBraces (l : List (List String × String × Item)) : Except Fault Item :=
  (l.foldlM (fun es (path, key, x) => insertEntry key x path es) []).map (.table .braces)

end NativeTypes.Toml
