import KeyCustody.Pem.Base64
/-! # PEM blocks

A labelled byte string between a `BEGIN` and an `END` line. Lines end in a line feed, a carriage
return or both; the Base64 text between them stands on lines of sixty-four characters, of which only
the last may be shorter. Text before the block is skipped, text after it is refused. -/

namespace KeyCustody.Pem

structure Block where
  label : String
  contents : Bytes
deriving DecidableEq, Repr

def width : Nat := 64

def beginMark : List Char := "-----BEGIN ".toList

def endMark : List Char := "-----END ".toList

def dashes : List Char := "-----".toList

/-- The lines of sixty-four characters that a text is laid out on, each with a line feed. -/
def wrapUpTo : (count : Nat) → List Char → List Char
  | 0, _ => []
  | count + 1, cs =>
    if cs.isEmpty then [] else cs.take width ++ '\n' :: wrapUpTo count (cs.drop width)

def wrap (cs : List Char) : List Char := wrapUpTo cs.length cs

def Block.encodeChars (b : Block) : List Char :=
  beginMark ++ b.label.toList ++ dashes ++ '\n' :: wrap (Base64.encode b.contents) ++
    endMark ++ b.label.toList ++ dashes ++ ['\n']

def Block.encode (b : Block) : String := String.ofList b.encodeChars

def afterLineEnd? : List Char → Option (List Char)
  | '\r' :: '\n' :: rest => some rest
  | '\r' :: rest => some rest
  | '\n' :: rest => some rest
  | _ => none

def beforeLineEnd? (cs : List Char) : Option (List Char) :=
  match cs.reverse with
  | '\n' :: '\r' :: rest => some rest.reverse
  | '\n' :: rest => some rest.reverse
  | '\r' :: rest => some rest.reverse
  | _ => none

def dropEnd? (ending cs : List Char) : Option (List Char) :=
  if ending.isSuffixOf cs then some (cs.take (cs.length - ending.length)) else none

/-- The text from the first `BEGIN` mark on, which stands at the very start or after a line feed and
has no NUL before it. -/
def fromBegin? : List Char → Option (List Char)
  | [] => none
  | c :: cs =>
    if c = '\x00' then none
    else if c = '\n' ∧ beginMark.isPrefixOf cs then some cs
    else fromBegin? cs

/-- Characters of a label other than blanks; hyphens end it. -/
def isLabelChar (c : Char) : Bool := 0x21 ≤ c.toNat && c.toNat ≤ 0x7E && c != '-'

/-- The label at the start of a text and what follows it. A blank needs a character before it that
is none; `mayBlank` says whether there was one. -/
def splitLabel? (mayBlank : Bool) : List Char → Option (List Char × List Char)
  | [] => some ([], [])
  | c :: cs =>
    if c = '-' then some ([], c :: cs)
    else if isLabelChar c then do
      let (label, rest) ← splitLabel? true cs
      return (c :: label, rest)
    else if mayBlank ∧ (c = ' ' ∨ c = '\t') then do
      let (label, rest) ← splitLabel? false cs
      return (c :: label, rest)
    else none

/-- The characters of a text laid out on lines of sixty-four characters, the last of which may end in
a line end. -/
def unwrapUpTo? : (count : Nat) → List Char → Option (List Char)
  | 0, _ => some []
  | count + 1, cs =>
    let after := cs.drop width
    if after.isEmpty then some ((beforeLineEnd? cs).getD cs)
    else do
      let rest ← afterLineEnd? after
      let tail ← unwrapUpTo? count rest
      return cs.take width ++ tail

/-- The characters of a text that is laid out on lines, which must not be empty. -/
def unwrap? (cs : List Char) : Option (List Char) :=
  (unwrapUpTo? cs.length cs).filter fun text => !text.isEmpty

def decodeChars? (cs : List Char) : Option Block := do
  let cs ← if beginMark.isPrefixOf cs then some cs else fromBegin? cs
  let (label, rest) ← splitLabel? false (cs.drop beginMark.length)
  let body ← if dashes.isPrefixOf rest then afterLineEnd? (rest.drop dashes.length) else none
  let body := (beforeLineEnd? body).getD body
  let body ← dropEnd? (endMark ++ label ++ dashes) body
  let text ← beforeLineEnd? body
  let contents ← Base64.decode? (← unwrap? text)
  return ⟨String.ofList label, contents⟩

end KeyCustody.Pem
