import ContractLang.Span
/-!
What every node of a syntax tree carries: a number by which tables refer to it, and its place in
the source.

In `contractc`: `NodeId` and `Ident`; a `Node` is the pair of `id` and `span` that the nodes share.
-/
namespace ContractLang

structure NodeId where
  index : Nat
deriving DecidableEq, Repr

structure Node where
  id : NodeId
  span : Span
deriving DecidableEq, Repr

/-- A name with its own place in the source. -/
structure Ident where
  text : String
  span : Span
deriving DecidableEq, Repr

end ContractLang
