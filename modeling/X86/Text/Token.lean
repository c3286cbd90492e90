import X86.Text.Blank

/-!
What a translator writes. A line is a list of pieces, each with the role it was written in. Pieces
can be read as plain text or as tokens; the text of the tokens is the text of the pieces.
-/

namespace X86
namespace Text

/-- The roles of words with a meaning of their own. -/
inductive Role
  | mnemonic
  | register
  | immediate
  | displacement
  /-- The target of a branch. -/
  | pointer
  /-- A prefix, written as a word before the mnemonic. -/
  | prefixWord
  /-- A name in place of an address. -/
  | operand
  deriving DecidableEq

inductive Token
  | word (role : Role) (text : String)
  | openBracket
  | closeBracket
  | openParen
  | closeParen
  | plus
  | minus
  | multiply
  | comma
  | colon
  | sigil (c : Char)
  | blank (text : String)
  | plain (text : String)
  | number (text : String)
  deriving DecidableEq

namespace Token

def text : Token → String
  | word _ s => s
  | openBracket => "["
  | closeBracket => "]"
  | openParen => "("
  | closeParen => ")"
  | plus => "+"
  | minus => "-"
  | multiply => "*"
  | comma => ","
  | colon => ":"
  | sigil c => c.toString
  | blank s | plain s | number s => s

/-- Whether the token carries content, rather than punctuation or layout. -/
def isSemantic : Token → Bool
  | word _ _ => true
  | _ => false

def isHexDigit (c : Char) : Bool :=
  ('0' ≤ c && c ≤ '9') || ('a' ≤ c && c ≤ 'f') || ('A' ≤ c && c ≤ 'F')

/-- The token of a separator: punctuation, blanks, a number, or plain text. -/
def ofSeparator (s : String) : Token :=
  match s with
  | "[" => openBracket
  | "]" => closeBracket
  | "(" => openParen
  | ")" => closeParen
  | "," => comma
  | ":" => colon
  | s =>
    if s.toList.all isBlank then blank s
    else if s.toList.all isHexDigit then number s
    else plain s

/-- The token of an operator or an operand mark. -/
def ofSymbol (s : String) : Token :=
  match s with
  | "+" => plus
  | "-" => minus
  | "*" => multiply
  | "%" => sigil '%'
  | "$" => sigil '$'
  | s => plain s

@[simp] theorem text_ofSeparator (s : String) : (ofSeparator s).text = s := by
  unfold ofSeparator
  split
  case h_7 =>
    split
    · rfl
    · split <;> rfl
  all_goals rfl

@[simp] theorem text_ofSymbol (s : String) : (ofSymbol s).text = s := by
  unfold ofSymbol
  split
  case h_4 | h_5 => decide
  all_goals rfl

end Token

/-- One thing written by a translator. -/
inductive Piece
  | text (s : String)
  | word (role : Role) (s : String)
  | separator (s : String)
  | symbol (s : String)
  /-- The mark of an instruction that could not be decoded. -/
  | invalid
  deriving DecidableEq

namespace Piece

def toText : Piece → String
  | text s | word _ s | separator s | symbol s => s
  | invalid => "invalid"

def toToken : Piece → Token
  | text s => .plain s
  | word role s => .word role s
  | separator s => .ofSeparator s
  | symbol s => .ofSymbol s
  | invalid => .word .mnemonic "invalid"

def register (s : String) : Piece := .word .register s
def mnemonic (s : String) : Piece := .word .mnemonic s
def immediate (s : String) : Piece := .word .immediate s
def displacement (s : String) : Piece := .word .displacement s
def pointer (s : String) : Piece := .word .pointer s
def operand (s : String) : Piece := .word .operand s
def prefixWord (s : String) : Piece := .word .prefixWord s

/-- A single blank. -/
def space : Piece := .separator " "

@[simp] theorem text_toToken (p : Piece) : p.toToken.text = p.toText := by
  cases p with
  | separator s => exact Token.text_ofSeparator s
  | symbol s => exact Token.text_ofSymbol s
  | text s => rfl
  | word role s => rfl
  | invalid => rfl

end Piece

/-- Pieces as plain text. -/
def flatten (pieces : List Piece) : String :=
  String.join (pieces.map Piece.toText)

/-- Pieces as tokens. -/
def tokens (pieces : List Piece) : List Token :=
  pieces.map Piece.toToken

/-- The text that tokens spell. -/
def spell (ts : List Token) : String :=
  String.join (ts.map Token.text)

end Text
end X86
