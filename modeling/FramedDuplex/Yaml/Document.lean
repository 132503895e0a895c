import FramedDuplex.Yaml.Lexer
import FramedDuplex.Yaml.Node
/-!
# YAML documents

A text is read if it is one document and nothing else. A document is a node. The
mark before it may be left out unless directives stand there, and marks behind it
do not count. Where nothing stands a document is a missing node.

A text that is no document is nothing but refused, so readers answer with an
option.
-/

namespace FramedDuplex

namespace Yaml

/-- A node behind which the document ends. -/
def Node.alone? : Node × List Token → Option Node
  | (node, ts) => if ts.all (· = .documentEnd) then some node else none

/-- Whether a document ends before a token, or behind it. -/
def endsDocument (t : Token) : Bool :=
  [Token.directive, .documentStart, .documentEnd].contains t

/-- Reads a document from its tokens. -/
def Node.ofTokens? (ts : List Token) : Option Node :=
  match ts with
  | [] => some .missing
  | .directive :: _ | .documentStart :: _ =>
    match ts.dropWhile (· = .directive) with
    | .documentStart :: ts =>
      if ts.head?.all endsDocument then Node.alone? (.missing, ts)
      else (Node.read? ts).bind Node.alone?
    | _ => none
  | _ => (Node.read? ts).bind Node.alone?

/-- Reads a text that is one document. -/
def read (text : String) : Option Node :=
  let cs := text.toList
  if cs.all isLegal then (tokens? (unify cs)).bind Node.ofTokens? else none

/-- The text of a scalar. -/
def Node.text? : Node → Option String
  | scalar _ _ text => some text
  | _ => none

/-- The entries of a document that is a mapping, with their names. A name is a
scalar. In a document with nothing in it there are none. -/
def Node.entries? (root : Node) : Option (List (String × Node)) :=
  match root.resolve root with
  | mapping _ entries =>
    entries.mapM fun (key, value) => (root.resolve key).text?.map (·, root.resolve value)
  | scalar _ .plain "" => some []
  | _ => none

end Yaml

end FramedDuplex
