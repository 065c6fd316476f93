import CircuitDesk.Bytes.Quoted
import CircuitDesk.Position

namespace CircuitDesk

namespace Token

/-- Lexical classes. Openers carry their bracket (`QGate[`), headers their colon (`Shape:`). -/
inductive Kind where
  | endOfInput
  | newline
  | float
  | integer
  | string
  | opener
  | header
  | repetition
  | keyword
  | arrow
  | punctuation
deriving DecidableEq, Repr

namespace Kind

def name : Kind → Bytes
  | endOfInput => "end of input"
  | newline => "newline"
  | float => "float"
  | integer => "integer"
  | string => "string"
  | opener => "opener"
  | header => "header"
  | repetition => "repetition"
  | keyword => "keyword"
  | arrow => "arrow"
  | punctuation => "punctuation"

def all : List Kind :=
  [endOfInput, newline, float, integer, string, opener, header, repetition, keyword, arrow,
    punctuation]

def nameOfNumber (n : Nat) : Bytes :=
  match all[n]? with
  | some k => k.name
  | none => Bytes.ofString "Kind(" ++ Bytes.ofNat n ++ ")"

end Kind

end Token

structure Token where
  kind : Token.Kind
  text : Bytes
  pos : Position
deriving DecidableEq, Repr

namespace Token

def is (t : Token) (kind : Kind) (text : Bytes) : Bool := t.kind = kind && t.text = text

def shown (t : Token) : Bytes :=
  match t.kind with
  | .endOfInput => Kind.endOfInput.name
  | .newline => Kind.newline.name
  | _ => Bytes.quoted t.text

end Token

end CircuitDesk
