import ContractLang.Span
/-!
Types as they are written: a name, an array of a type, a map between two types, or the marker of
a function that returns nothing.

In `contractc`: `TypeName` with `TypeNameKind`, and `is_void` (`isVoid`).
-/
namespace ContractLang

inductive TypeName where
  | named (span : Span) (name : String)
  | array (span : Span) (element : TypeName)
  | map (span : Span) (key value : TypeName)
  | void (span : Span)
deriving DecidableEq, Repr

namespace TypeName

def span : TypeName → Span
  | named s _ | array s _ | map s _ _ | void s => s

def withSpan (s : Span) : TypeName → TypeName
  | named _ n => named s n
  | array _ e => array s e
  | map _ k v => map s k v
  | void _ => void s

/-- The marker alone: an array of it is not void. -/
def isVoid : TypeName → Bool
  | void _ => true
  | _ => false

def text : TypeName → String
  | named _ n => n
  | array _ e => e.text ++ "[]"
  | map _ k v => "mapping(" ++ k.text ++ " => " ++ v.text ++ ")"
  | void _ => "void"

end TypeName
end ContractLang
