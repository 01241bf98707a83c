import DataBinding.Node
import DataBinding.Text.Blank

set_option autoImplicit false

/-! # Selectors

A selector picks elements: `#x` those whose attribute `id` is `x`, `.x` those with `x` among the
words of the attribute `class`, and anything else those with that tag, in either case of the
ASCII letters.
-/

namespace DataBinding

/-- What a selector looks at. -/
inductive Selector where
  | named (name : String)
  | classed (word : String)
  | tagged (tag : String)
  deriving DecidableEq, Repr

namespace Selector

/-- Reads a selector; every text is one. -/
def ofText (s : String) : Selector :=
  match s.toList with
  | '#' :: name => .named (String.ofList name)
  | '.' :: word => .classed (String.ofList word)
  | _ => .tagged s

/-- A text with its ASCII capitals made small. -/
def lower (s : String) : List Char := s.toList.map Char.toLower

end Selector

/-- Whether the node is an element that the selector picks. -/
def Node.isPicked (n : Node) (s : Selector) : Bool :=
  n.kind = .element &&
    match s with
    | .named name => n.attribute? "id" = some name
    | .classed word => (n.attribute? "class").any fun c => word ∈ Text.words c
    | .tagged tag => Selector.lower n.tag = Selector.lower tag

end DataBinding
