import Pageloom.Forest
import Pageloom.Text.Escape

/-!
# Markup

A page tree as static markup. Every element carries its identity token at the
front of its class, in place of the class it was given or after its other
attributes, and its click handler last. Children stand on lines of their own.
Text is written only for an element without children, and a component is
written as its root.

## Main definitions

* `Pageloom.Element.markupAttributes` -- the attributes that are written
* `Pageloom.Node.markup` -- a tree as markup
* `Pageloom.Forest.markup` -- the markup of a value
-/

namespace Pageloom

/-- Attributes as they stand in an opening tag. -/
def attributesText (attributes : Entries String) : String :=
  String.join (attributes.map fun a => " " ++ a.1 ++ "=\"" ++ Text.escapeAttribute a.2 ++ "\"")

/-- An opening tag. -/
def openTag (tag : String) (attributes : Entries String) : String :=
  "<" ++ tag ++ attributesText attributes ++ ">"

/-- A closing tag. -/
def closeTag (tag : String) : String := "</" ++ tag ++ ">"

/-- An element as markup, given the markup of its children. Text counts only
where there are none. -/
def elementText (tag : String) (attributes : Entries String) (text : Option String)
    (children : List String) : String :=
  let inner := match children with
    | [] => (text.map Text.escapeText).getD ""
    | cs => "\n" ++ Text.join "\n" cs ++ "\n"
  openTag tag attributes ++ inner ++ closeTag tag

/-- The attributes of an element that are written: the class with the token in
it, and the click handler as `onclick`. -/
def Element.markupAttributes (e : Element) : Entries String :=
  let attributes := e.attributes.set "class" e.classValue
  match e.onClick with
  | some h => attributes.set "onclick" h.expression
  | none => attributes

namespace Node

mutual

/-- A tree as markup. -/
def markup : Node → String
  | mk _ e cs => elementText e.tag e.markupAttributes e.text (markups cs)

/-- A list of trees as markup, one by one. -/
def markups : List Node → List String
  | [] => []
  | c :: cs => markup c :: markups cs

end

/-- The markup of a tree all of whose click handlers have call expressions. -/
def markupText (n : Node) : Except Fault String :=
  if n.isWritable then .ok n.markup else .error .wrongValue

end Node

/-- The markup of a value. Only nodes have markup. -/
def Forest.markup (f : Forest) : Value → Except Fault String
  | .node h => (f.readChecked f.boundaryWithCore ElementCell.checkMarkup h.id).map Node.markup
  | v => .error (.notMarkup v.kindName)

end Pageloom
