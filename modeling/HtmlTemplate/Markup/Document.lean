import HtmlTemplate.Markup.Tree
/-!
Documents, and the one node that a template is rendered from.  That node stands alone, apart from
comments and blank text, in the document, in the head or body of its `html` element, or in the
`template` element beside scripts and styles.
-/

namespace HtmlTemplate

inductive DocumentError where
  | empty
  | noRoot
  | severalRoots (count : Nat)
  | unexpected (found : Text)
  | invalidUtf8
  deriving DecidableEq

def DocumentError.message : DocumentError → String
  | .empty => "empty document"
  | .noRoot => "template contained no root node"
  | .severalRoots count =>
      "template should only have one root node, found " ++ toString count
  | .unexpected found => "expected <body>, got <" ++ String.ofList found ++ ">"
  | .invalidUtf8 => "input is not valid UTF-8"

structure Element where
  tag : Text
  attributes : Attributes
  children : List Node

def Node.element? : Node → Option Element
  | .element tag attributes children => some ⟨tag, attributes, children⟩
  | _ => none

structure Document where
  nodes : List Node

namespace Document

def substantial (nodes : List Node) : List Node := nodes.filter Node.isSubstantial

def ofText (source : Text) : Except DocumentError Document :=
  if Text.isBlankText source then .error .empty else .ok ⟨Markup.parse source⟩

def ofBytes (bytes : ByteArray) : Except DocumentError Document :=
  match String.fromUTF8? bytes with
  | some source => ofText source.toList
  | none => .error .invalidUtf8

/-- The `html` element of a document that has nothing substantial beside it. -/
def htmlElement? (document : Document) : Option Element :=
  match substantial document.nodes with
  | [node] => node.element?.filter fun e => e.tag = "html".toList
  | _ => none

def bodyOf? (nodes : List Node) : Option Element :=
  (nodes.filterMap Node.element?).find? fun e => e.tag = "body".toList

def bodyElement? (document : Document) : Option Element :=
  document.htmlElement?.bind fun html => bodyOf? html.children

/-- The only `template` element among nodes that are otherwise scripts, styles or nothing. -/
def componentTemplate? (nodes : List Node) : Option Element :=
  let elements := (substantial nodes).map Node.element?
  if elements.all fun e => e.any fun e => e.tag = "template".toList || isVerbatimTag e.tag then
    match (elements.filterMap id).filter fun e => e.tag = "template".toList with
    | [template] => some template
    | _ => none
  else none

def only (nodes : List Node) : Except DocumentError Node :=
  match substantial nodes with
  | [] => .error .noRoot
  | [node] => .ok node
  | first :: rest => .error (.severalRoots (first :: rest).length)

def sectionNodes (html : Element) : Except DocumentError (List Node) := do
  match (← only html.children).element? with
  | none => .error (.unexpected "#text".toList)
  | some part =>
      if part.tag = "head".toList || part.tag = "body".toList then .ok part.children
      else .error (.unexpected part.tag)

def outerNodes (document : Document) : Except DocumentError (List Node) :=
  match document.htmlElement? with
  | some html => sectionNodes html
  | none => .ok document.nodes

def root (document : Document) : Except DocumentError Node :=
  if document.nodes.isEmpty then .error .empty
  else do
    let nodes ← outerNodes document
    match componentTemplate? nodes with
    | some template => only template.children
    | none => only nodes

end Document

namespace Markup

/-- The nodes of a source that is put into a tree.  Of a whole document only what is in its body
counts, or in its `html` element if that has no body. -/
def parseFragment (source : Text) : List Node :=
  let nodes := parse source
  match (Document.mk nodes).htmlElement? with
  | none => nodes
  | some html => ((Document.bodyOf? html.children).getD html).children

end Markup

end HtmlTemplate
