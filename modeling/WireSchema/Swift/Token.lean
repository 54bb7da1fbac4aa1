import WireSchema.Number.Integer
import WireSchema.Swift.Lexeme
import WireSchema.Text.Quoted

/-!
# Tokens of Swift sources

A token is a lexeme that matters to the parser, with its position: white space and
ordinary comments make none. Documentation comments do, because the parser attaches
them to declarations; their text is the comment without its markers. The text of a
name in backticks is the bare name.
-/

namespace WireSchema.Swift

/-- A place in a source text. Lines and columns count from one. -/
structure Position where
  line : Nat
  column : Nat
deriving DecidableEq, Repr

namespace Position

def start : Position := ⟨1, 1⟩

def next (at_ : Position) (c : Char) : Position :=
  if c = '\n' then ⟨at_.line + 1, 1⟩ else ⟨at_.line, at_.column + 1⟩

def after (at_ : Position) (cs : List Char) : Position :=
  cs.foldl next at_

end Position

/-! ## Faults -/

inductive SyntaxFault where
  /-- Characters that belong to no lexeme. -/
  | stray (text : String)
  | expected (wanted found : String)
  | expectedIdentifier (found : String)
  | expectedType (found : String)
  | unexpected (found : String)
  | unbalanced (opener : String)
deriving DecidableEq, Repr

def SyntaxFault.message : SyntaxFault → String
  | stray text => "Syntax error: " ++ Text.quote text
  | expected wanted found =>
    "Expected " ++ Text.quote wanted ++ " but found " ++ Text.quote found
  | expectedIdentifier found => "Expected identifier but found " ++ Text.quote found
  | expectedType found => "Expected a type but found " ++ Text.quote found
  | unexpected found => "Unexpected token " ++ Text.quote found
  | unbalanced opener => "Unbalanced " ++ Text.quote opener ++ ": reached end of file"

structure SyntaxError where
  fault : SyntaxFault
  position : Position
deriving DecidableEq, Repr

def SyntaxError.message (error : SyntaxError) : String :=
  "Parse error at line " ++ Number.decimal error.position.line ++ ", column " ++
    Number.decimal error.position.column ++ ": " ++ error.fault.message

/-! ## Tokens -/

inductive TokenKind where
  | identifier
  | string
  | number
  | punctuation
  | doc
deriving DecidableEq, Repr

structure Token where
  kind : TokenKind
  text : String
  position : Position
deriving DecidableEq, Repr

namespace Token

/-- Is the token this word or symbol of the language? Literals and comments never are. -/
def isWord (token : Token) (text : String) : Bool :=
  token.kind != .string && token.kind != .doc && token.text == text

def isIdentifier (token : Token) : Bool :=
  token.kind == .identifier

end Token

/-! ## Documentation comments -/

/-- The text after all openers `/**` at the front. -/
def dropOpeners : List Char → List Char
  | '/' :: '*' :: '*' :: rest => dropOpeners rest
  | cs => cs

/-- The reversed text after all closers `*/` at the front, which read `/*` there. -/
def dropClosers : List Char → List Char
  | '/' :: '*' :: rest => dropClosers rest
  | cs => cs

/-- The text of a comment after `///`: one space in front and all at the end go. -/
def docLineText (body : List Char) : List Char :=
  Text.trimEndChars ((Text.stripStart? [' '] body).getD body)

/-- One line of a block comment without white space and stars in front. -/
def docBlockLine (line : List Char) : List Char :=
  Text.trimChars ((Text.trimChars line).dropWhile (· == '*'))

/-- The text of a comment between `/**` and `*/`: its lines that are not empty. -/
def docBlockText (comment : List Char) : List Char :=
  let body := (dropClosers (dropOpeners comment).reverse).reverse
  Text.joinChars ['\n'] (((Text.lines body).map docBlockLine).filter fun line => !line.isEmpty)

/-! ## From lexemes to tokens -/

/-- The kind and the text of the token that a lexeme makes, if it makes one. A number is one
only if it starts with an ASCII digit. -/
def Lexeme.content? (lexeme : Lexeme) : Option (TokenKind × List Char) :=
  match lexeme.kind with
  | .docLine => some (.doc, docLineText (lexeme.chars.drop 3))
  | .docBlock => some (.doc, docBlockText lexeme.chars)
  | .comment | .blank => none
  | .string => some (.string, lexeme.chars)
  | .quotedName => some (.identifier, lexeme.chars.filter (· != '\x60'))
  | .name => some (.identifier, lexeme.chars)
  | .number =>
    some (if lexeme.chars.head?.any Char.isDigit then .number else .punctuation, lexeme.chars)
  | .symbol => some (.punctuation, lexeme.chars)

def Lexeme.token? (lexeme : Lexeme) (at_ : Position) : Option Token :=
  lexeme.content?.map fun (kind, chars) => ⟨kind, String.ofList chars, at_⟩

def placeLexemes (at_ : Position) : List Lexeme → List Token × Position
  | [] => ([], at_)
  | lexeme :: later =>
    let (tokens, stop) := placeLexemes (at_.after lexeme.chars) later
    ((lexeme.token? at_).toList ++ tokens, stop)

/-- A source text as its tokens, with the place where the text ends. -/
structure TokenStream where
  tokens : List Token
  stop : Position
deriving DecidableEq, Repr

/-- The tokens of a text. It fails where no lexeme starts. -/
def tokenize (text : String) : Except SyntaxError TokenStream :=
  let (lexemes, stray) := splitLexemes text.toList
  let (tokens, stop) := placeLexemes .start lexemes
  if stray.isEmpty then .ok ⟨tokens, stop⟩
  else .error ⟨.stray (String.ofList (strayChars stray)), stop⟩

end WireSchema.Swift
