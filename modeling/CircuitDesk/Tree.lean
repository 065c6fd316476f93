import CircuitDesk.Rule
import CircuitDesk.Token

namespace CircuitDesk

/-- A parse tree. A node holds the parts of its rule in source order; a statement also keeps the word
that opens it, which is not one of its parts. -/
inductive Tree where
  | leaf (token : Token)
  | node (rule : Rule) (opening : Option Token) (parts : List Tree)

namespace Tree

def rule : Tree → Rule
  | leaf _ => .terminal
  | node r _ _ => r

def parts : Tree → List Tree
  | leaf _ => []
  | node _ _ ts => ts

mutual

def firstToken : Tree → Option Token
  | leaf t => some t
  | node _ (some t) _ => some t
  | node _ none ts => firstTokenOf ts

def firstTokenOf : List Tree → Option Token
  | [] => none
  | t :: ts => (firstToken t).or (firstTokenOf ts)

end

def pos (t : Tree) : Position := (t.firstToken.map Token.pos).getD .unplaced

mutual

def text : Tree → Bytes
  | leaf t => t.text
  | node r _ ts => Bytes.ofString "(" ++ r.name ++ textOf ts ++ ")"

def textOf : List Tree → Bytes
  | [] => []
  | t :: ts => Bytes.ofString " " ++ text t ++ textOf ts

end

end Tree

end CircuitDesk
