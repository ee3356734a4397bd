import ByNeed.Store.Basic

/-!
# The prelude

The functions every program starts with, under the names by which programs refer to
them.
-/

namespace ByNeed

/-- A function of the prelude before it has an identity. -/
structure PreludeEntry where
  name : String
  signature : Signature
  body : Body

namespace PreludeEntry

/-- A function on unevaluated parameters. -/
def byNeed (name : String) (required : List String) (rest : Option String)
    (operation : LazyPrimitive) : PreludeEntry :=
  { name, signature := { required, rest }, body := .lazyPrimitive operation }

/-- A function on evaluated parameters. -/
def strict (name : String) (required : List String) (operation : StrictPrimitive) : PreludeEntry :=
  { name, signature := { required }, body := .strictPrimitive operation }

end PreludeEntry

namespace Prelude

/-- The functions of the prelude, in the order in which they are made. -/
def entries : List PreludeEntry :=
  [ .byNeed "list" [] (some "elements") .list
  , .strict "first" ["list"] .first
  , .strict "rest" ["list"] .rest
  , .byNeed "prepend" [] (some "elements_and_list") .prepend
  , .strict "size" ["collection"] .size
  , .strict "index" ["collection", "key"] .index
  , .strict "include" ["collection", "element"] .includes
  , .strict "delete" ["collection", "key"] .delete
  , .strict "to_list" ["collection"] .toList
  , .byNeed "dictionary" [] (some "key_values") .dictionary
  , .byNeed "assign" ["dictionary"] (some "key_values") .assign
  , .byNeed "merge" ["collection"] (some "others") .merge
  , .byNeed "equal" [] (some "values") .equal
  , .strict "compare" ["left", "right"] .compare
  , .byNeed "less" [] (some "values") (.monotone .less)
  , .byNeed "less_eq" [] (some "values") (.monotone .lessOrEqual)
  , .byNeed "greater" [] (some "values") (.monotone .greater)
  , .byNeed "greater_eq" [] (some "values") (.monotone .greaterOrEqual)
  , .byNeed "add" [] (some "numbers") (.total .add)
  , .byNeed "sub" ["initial"] (some "numbers") (.reduce .subtract)
  , .byNeed "mul" [] (some "numbers") (.total .multiply)
  , .byNeed "div" ["initial"] (some "numbers") (.reduce .divide)
  , .byNeed "floor_div" ["initial"] (some "numbers") (.reduce .floorDivide)
  , .strict "mod" ["first", "second"] .remainder
  , .strict "pow" ["first", "second"] .power
  , .byNeed "if" [] (some "branches") .conditional
  , .byNeed "identity" ["value"] none .identity
  , { name := "partial"
      signature :=
        { required := ["function"], rest := some "arguments", restKeywords := some "keywords" }
      body := .lazyPrimitive .fixArguments }
  , .strict "to_string" ["value"] .toString
  , .strict "dump" ["value"] .dump
  , .strict "error" ["name", "message"] .error
  , .byNeed "catch" ["value"] none .catchError
  , .byNeed "effect" ["value"] none .effect ]

/-- The function that merges sources on the daemons of a scheduler. -/
def rally (scheduler : Nat) : PreludeEntry :=
  .byNeed "rally" [] (some "sources") (.rally scheduler)

end Prelude

namespace Store

/-- Make a function of the prelude and let its name refer to it. -/
def install (store : Store) (entry : PreludeEntry) : Store :=
  let (identity, store) := store.takeIdentity
  store.defineGlobal (.plain identity entry.name entry.signature false entry.body)

/-- Make every function of the prelude afresh; free names refer to these alone. -/
def installPrelude (store : Store) : Store :=
  Prelude.entries.foldl install { store with prelude := [] }

end Store
end ByNeed
