import ByNeed.Dictionary.Trie

/-!
# Dictionaries

A dictionary is a persistent map from keys to values, kept in a trie over the hashes of its keys,
with its size beside it.
-/

namespace ByNeed

structure Dictionary (κ ν : Type) where
  size : Nat
  root : Option (Trie κ ν)

namespace Dictionary

variable {κ ν : Type}

def empty : Dictionary κ ν :=
  { size := 0, root := none }

def isEmpty (dictionary : Dictionary κ ν) : Bool :=
  dictionary.size == 0

/-- Whether two dictionaries are the very same: they have one root in common.  All
empty dictionaries are the same. -/
def isSame (left right : Dictionary κ ν) : Bool :=
  match left.root, right.root with
  | none, none => true
  | some leftRoot, some rightRoot => leftRoot.isSame rightRoot
  | _, _ => false

@[simp] theorem isSame_self (dictionary : Dictionary κ ν) :
    dictionary.isSame dictionary = true := by
  unfold isSame
  cases dictionary.root <;> simp

/-- The entries whose keys have a hash. -/
def bucket (dictionary : Dictionary κ ν) (hash : UInt64) : List (κ × ν) :=
  match dictionary.root with
  | none => []
  | some trie => trie.bucket hash

/-- All entries, by increasing hash. -/
def toList (dictionary : Dictionary κ ν) : List (κ × ν) :=
  match dictionary.root with
  | none => []
  | some trie => trie.toList

/-- The entries with a value assigned to the one at a position, or with a new one at their end. -/
def assignAt (key : κ) (value : ν) (entries : List (κ × ν)) : Option Nat → List (κ × ν)
  | some position => entries.modify position fun entry => (entry.1, value)
  | none => entries ++ [(key, value)]

end Dictionary
end ByNeed
