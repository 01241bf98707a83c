set_option autoImplicit false

/-! # Directives

An attribute whose name starts with `v-` is a directive: `v-text` and `v-model` bind a text and
a form value, `v-on:` and the name of an event bind a listener. A name with a colon is an event
directive or nothing.
-/

namespace DataBinding

/-- What an attribute asks for. -/
inductive Directive where
  | text
  | model
  | on (event : String)
  deriving DecidableEq, Repr

namespace Directive

/-- The mark of a directive. -/
def mark : List Char := ['v', '-']

/-- What stands before the name of an event, behind the mark. -/
def eventMark : List Char := ['o', 'n', ':']

/-- Whether an attribute of this name looks like a directive, be it known or not. -/
def isMarked (name : String) : Bool := mark.isPrefixOf name.toList

/-- The directive that an attribute name stands for, if it stands for one. -/
def ofName? (name : String) : Option Directive :=
  match mark.isPrefixOf? name.toList with
  | none => none
  | some rest =>
    if ':' ∈ rest then
      match eventMark.isPrefixOf? rest with
      | some (c :: cs) => some (.on (String.ofList (c :: cs)))
      | _ => none
    else if rest = "text".toList then some .text
    else if rest = "model".toList then some .model
    else none

end Directive

end DataBinding
