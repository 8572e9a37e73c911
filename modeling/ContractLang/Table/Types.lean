import ContractLang.Table.Lookup
import ContractLang.Syntax.TypeName
/-!
Types as symbols. Array and map types are kept by their components, so that one structure has one
symbol and types can be compared by number.

In `contractc`: `array_type` (`arrayOf`), `map_type` (`mapOf`), `element_type` (`element?`) and
`find_type_by_name` (`typeNamed`).
-/
namespace ContractLang
namespace Table

/-- The name of an array type, from that of its element. -/
def arrayName (element : String) : String := element ++ "[]"

/-- The name of a map type, from those of its components. -/
def mapName (key value : String) : String := "mapping(" ++ key ++ " => " ++ value ++ ")"

/-- An array type is named as it is written. -/
theorem text_array (span : Span) (element : TypeName) :
    (TypeName.array span element).text = arrayName element.text := rfl

/-- A map type is named as it is written. -/
theorem text_map (span : Span) (key value : TypeName) :
    (TypeName.map span key value).text = mapName key.text value.text := rfl

/-- The array type with this element. -/
def arrayOf (t : Table) (element : SymbolId) : Except Dangling (SymbolId × Table) :=
  match t.arrays.get? element with
  | some id => .ok (id, t)
  | none => do
    let name ← t.nameOf element
    let (id, t) := t.addSymbol ⟨arrayName name, .global, .zero, .array element⟩
    return (id, { t with arrays := t.arrays.insert element id })

/-- The map type with these components. -/
def mapOf (t : Table) (key value : SymbolId) : Except Dangling (SymbolId × Table) :=
  match t.maps.get? (key, value) with
  | some id => .ok (id, t)
  | none => do
    let keyName ← t.nameOf key
    let valueName ← t.nameOf value
    let (id, t) :=
      t.addSymbol ⟨mapName keyName valueName, .global, .zero, .map key value⟩
    return (id, { t with maps := t.maps.insert (key, value) id })

def element? (t : Table) (type : SymbolId) : Except Dangling (Option SymbolId) :=
  (t.kindOf type).map (·.element?)

/-- The type that a written type means inside the contract. Components that are types are made
even if the whole is none. -/
def typeNamed (t : Table) : TypeName → Except Dangling (Option SymbolId × Table)
  | .named _ name => do
    match ← t.lookup (← t.memberScope) name with
    | none => return (none, t)
    | some id => return (if (← t.kindOf id).isType then some id else none, t)
  | .array _ element => do
    match ← t.typeNamed element with
    | (none, t) => return (none, t)
    | (some element, t) =>
      let (id, t) ← t.arrayOf element
      return (some id, t)
  | .map _ key value => do
    match ← t.typeNamed key with
    | (none, t) => return (none, t)
    | (some key, t) =>
      match ← t.typeNamed value with
      | (none, t) => return (none, t)
      | (some value, t) =>
        let (id, t) ← t.mapOf key value
        return (some id, t)
  | .void _ => return (none, t)

end Table
end ContractLang
