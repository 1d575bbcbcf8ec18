import QueryLineage.Graph.Registry

/-!
# Registries as JSON

The registry as a JSON text, laid out with one value on a line and two blanks for each level.
-/

namespace QueryLineage

/-- The values that occur in the output. -/
inductive Json where
  | null
  | number (n : Nat)
  | string (s : String)
  | array (items : List Json)
  | object (fields : List (String × Json))

namespace Json

/-- The two last hexadecimal digits of a number. -/
def hexPair (n : Nat) : List Char :=
  [Nat.digitChar (n / 16 % 16), Nat.digitChar (n % 16)]

def escape (c : Char) : List Char :=
  if c = '"' then ['\\', '"']
  else if c = '\\' then ['\\', '\\']
  else if c = '\x08' then ['\\', 'b']
  else if c = '\x0c' then ['\\', 'f']
  else if c = '\n' then ['\\', 'n']
  else if c = '\r' then ['\\', 'r']
  else if c = '\t' then ['\\', 't']
  else if c.toNat < 0x20 then ['\\', 'u', '0', '0'] ++ hexPair c.toNat
  else [c]

def quote (s : String) : String :=
  String.ofList ('"' :: s.toList.flatMap escape ++ ['"'])

def newLine (level : Nat) : String :=
  String.ofList ('\n' :: List.replicate (2 * level) ' ')

/-- What stands between brackets: the entries on lines of their own, or nothing at all. -/
def bracket (level : Nat) (opening closing : String) (entries : List String) : String :=
  match entries with
  | [] => opening ++ closing
  | entries =>
    opening ++ newLine (level + 1) ++ ("," ++ newLine (level + 1)).intercalate entries ++
      newLine level ++ closing

mutual

/-- The value at the given level. -/
def render (level : Nat) : Json → String
  | null => "null"
  | number n => toString n
  | string s => quote s
  | array items => bracket level "[" "]" (renderItems (level + 1) items)
  | object fields => bracket level "\x7b" "\x7d" (renderFields (level + 1) fields)

def renderItems (level : Nat) : List Json → List String
  | [] => []
  | item :: items => item.render level :: renderItems level items

def renderFields (level : Nat) : List (String × Json) → List String
  | [] => []
  | (key, value) :: fields =>
    (quote key ++ ": " ++ value.render level) :: renderFields level fields

end

def ofString? (s? : Option String) : Json :=
  s?.elim null string

end Json

def Attribute.toJson (column : Attribute) : Json :=
  .object [("name", .string column.name), ("alias", .ofString? column.alias?),
    ("condition", .ofString? column.condition?)]

def Table.toJson (table : Table) : Json :=
  .object [("id", .number table.id), ("name", .string table.name),
    ("aliases", .array (table.aliases.map .string)),
    ("attributes", .array (table.attributes.map Attribute.toJson)),
    ("comment", .string table.comment), ("source_sql", .string table.source),
    ("linked_to_tables_id", .array (table.links.map .number))]

/-- The tables of a registry as a JSON text. -/
def Registry.renderJson (registry : Registry) : String :=
  (Json.array (registry.tables.map Table.toJson)).render 0

end QueryLineage
