import KeyedFlow.FlowError
import KeyedFlow.Text.Hex

/-!
Window functions as JSON text. The global one is the string `Global`; fixed windows are an object
whose only member `Fixed` is the list of size and offset. Reading admits blanks between tokens and
nothing else besides, and refuses a size that is not positive as soon as the list has been read.
-/

set_option autoImplicit false

namespace KeyedFlow.WindowFn

def toJson : WindowFn → String
  | global => "\"Global\""
  | fixed w => s!"\x7b\"Fixed\":[{w.size.toInt},{w.offset.toInt}]\x7d"

inductive JsonError where
  | notAWindowFn
  | refused (e : CombineError)
deriving DecidableEq

namespace Json

/-- Reading a beginning of a text; the result comes with the rest. -/
abbrev Reader (α : Type) := StateT (List Char) (Except JsonError) α

def fail {α : Type} : Reader α := throw .notAWindowFn

def isBlank (c : Char) : Bool := c = ' ' || c = '\t' || c = '\n' || c = '\r'

def blanks : Reader Unit := modify (·.dropWhile isBlank)

def peek : Reader Char := do
  match ← get with
  | [] => fail
  | c :: _ => pure c

def take : Reader Char := do
  match ← get with
  | [] => fail
  | c :: rest => do
    set rest
    pure c

def token (c : Char) : Reader Unit := do
  blanks
  let d ← take
  if d = c then pure () else fail

/-- The character that an escape sequence stands for, and the rest; surrogates are none. -/
def escape : List Char → Option (Char × List Char)
  | '"' :: rest => some ('"', rest)
  | '\\' :: rest => some ('\\', rest)
  | '/' :: rest => some ('/', rest)
  | 'b' :: rest => some ('\x08', rest)
  | 'f' :: rest => some ('\x0c', rest)
  | 'n' :: rest => some ('\n', rest)
  | 'r' :: rest => some ('\r', rest)
  | 't' :: rest => some ('\t', rest)
  | 'u' :: a :: b :: c :: d :: rest => do
    let a ← Text.Hex.digit? a
    let b ← Text.Hex.digit? b
    let c ← Text.Hex.digit? c
    let d ← Text.Hex.digit? d
    let n := ((a * 16 + b) * 16 + c) * 16 + d
    if 0xd800 ≤ n ∧ n ≤ 0xdfff then none else some (Char.ofNat n, rest)
  | _ => none

/-- The characters up to the closing quote; `n` bounds the length of the text. -/
def stringFrom : Nat → List Char → Option (List Char × List Char)
  | 0, _ => none
  | _ + 1, [] => none
  | n + 1, c :: rest =>
    if c = '"' then some ([], rest)
    else if c = '\\' then do
      let (c, rest) ← escape rest
      let (cs, rest) ← stringFrom n rest
      some (c :: cs, rest)
    else if c.toNat < 0x20 then none
    else do
      let (cs, rest) ← stringFrom n rest
      some (c :: cs, rest)

def string : Reader String := do
  token '"'
  let cs ← get
  match stringFrom (cs.length + 1) cs with
  | none => fail
  | some (s, rest) => do
    set rest
    pure (String.ofList s)

def digits : Reader (List Char) := do
  let cs ← get
  set (cs.dropWhile Char.isDigit)
  pure (cs.takeWhile Char.isDigit)

/-- A 64-bit integer, without fraction or exponent; there is no negative zero. -/
def int64 : Reader Int64 := do
  blanks
  let negative := (← peek) = '-'
  if negative then
    let _ ← take
  let ds ← digits
  let n := ds.foldl (fun n d => n * 10 + (d.toNat - '0'.toNat)) 0
  let value : Int := if negative then -(n : Int) else n
  if ds.isEmpty || (ds.length ≠ 1 && ds.head? = some '0') || (negative && n = 0) then fail
  else if (← get).head?.any fun c => c = '.' || c = 'e' || c = 'E' then fail
  else if Word.InRange Int64 value then pure (Int64.ofInt value)
  else fail

def pair : Reader (Int64 × Int64) := do
  token '['
  let size ← int64
  token ','
  let offset ← int64
  token ']'
  pure (size, offset)

def fixedWindows : Reader FixedWindows :=
  FixedWindows.reading (fun size => .refused (.nonPositiveWindowSize size)) pair

def null : Reader Unit := do
  token 'n'
  if (← get).take 3 = ['u', 'l', 'l'] then modify (·.drop 3) else fail

def windowFn : Reader WindowFn := do
  blanks
  if (← peek) = '\x7b' then do
    token '\x7b'
    let name ← string
    token ':'
    let f ←
      if name = "Fixed" then do
        let w ← fixedWindows
        pure (.fixed w)
      else if name = "Global" then do
        null
        pure .global
      else fail
    token '\x7d'
    pure f
  else do
    let name ← string
    if name = "Global" then pure .global else fail

end Json

def ofJson (text : String) : Except JsonError WindowFn := do
  let (f, rest) ← Json.windowFn text.toList
  if rest.all Json.isBlank then .ok f else .error .notAWindowFn

end KeyedFlow.WindowFn
