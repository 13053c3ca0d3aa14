import PyNetX.Bytes
/-!
# Xml — what the source reads from a tinyxml2 document

The parser itself is outside the repository: `XmlParser` stands for `XMLDocument::Parse`, `none` for every status
other than `XML_SUCCESS`.
-/
namespace PyNetX

/-- A node of a parsed document. -/
inductive XmlNode where
  | element (name : Bytes) (children : List XmlNode)
  | text (value : Bytes)
  | comment
  | other

/-- `XMLDocument::Parse`: the document's top-level nodes on `XML_SUCCESS`. -/
abbrev XmlParser := Bytes → Option (List XmlNode)

/-- `FirstChildElement()`, and `RootElement()` of a document: its name and children. -/
def firstChildElement (nodes : List XmlNode) : Option (Bytes × List XmlNode) :=
  nodes.findSome? (fun n => match n with
    | .element name children => some (name, children)
    | _ => none)

/-- `FirstChildElement(name)`: the children of the first element of that name. -/
def firstChildElementNamed (name : Bytes) (nodes : List XmlNode) : Option (List XmlNode) :=
  nodes.findSome? (fun n => match n with
    | .element name' children => if name' = name then some children else none
    | _ => none)

/-- `GetText()`: the first child's text, comments skipped, if that child is text. -/
def getText : List XmlNode → Option Bytes
  | .text value :: _ => some value
  | .comment :: nodes => getText nodes
  | _ => none

end PyNetX
