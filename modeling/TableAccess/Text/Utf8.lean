/-! UTF-8. `encode` writes the shortest form of each character; `decode` accepts nothing else and
reports the first bytes that are no such form. -/

namespace TableAccess.Text.Utf8

def encodeChar (c : Char) : List UInt8 :=
  let n := c.toNat
  let tail (shift : Nat) : UInt8 := (0x80 + n >>> shift % 64).toUInt8
  if n < 0x80 then [n.toUInt8]
  else if n < 0x800 then [(0xC0 + n / 64).toUInt8, tail 0]
  else if n < 0x10000 then [(0xE0 + n / 4096).toUInt8, tail 6, tail 0]
  else [(0xF0 + n / 262144).toUInt8, tail 12, tail 6, tail 0]

def encode (cs : List Char) : List UInt8 := cs.flatMap encodeChar

inductive Reason where
  | startByte
  | continuation
  | ended
  deriving DecidableEq, Repr

/-- Undecodable bytes: the first of them, its position, how many there are, and why. -/
structure Error where
  byte : UInt8
  position : Nat
  count : Nat
  reason : Reason
  deriving DecidableEq, Repr

def isTail (b : UInt8) : Bool := 0x80 ≤ b && b < 0xC0

/-- The bounds of the byte after a first byte, and the number of bytes after that one. -/
def shape? (b : UInt8) : Option (UInt8 × UInt8 × Nat) :=
  if 0xC2 ≤ b && b < 0xE0 then some (0x80, 0xBF, 0)
  else if b == 0xE0 then some (0xA0, 0xBF, 1)
  else if b == 0xED then some (0x80, 0x9F, 1)
  else if 0xE1 ≤ b && b < 0xF0 then some (0x80, 0xBF, 1)
  else if b == 0xF0 then some (0x90, 0xBF, 2)
  else if 0xF1 ≤ b && b < 0xF4 then some (0x80, 0xBF, 2)
  else if b == 0xF4 then some (0x80, 0x8F, 2)
  else none

/-- The code point of a form of two, three or four bytes. -/
def pointOf (b : UInt8) (rest : List UInt8) : Nat :=
  let lead := b.toNat - (if rest.length = 1 then 0xC0 else if rest.length = 2 then 0xE0 else 0xF0)
  rest.foldl (fun n t => n * 64 + (t.toNat - 0x80)) lead

/-- The character at the start of the bytes and the bytes after it. -/
def step (position : Nat) : List UInt8 → Except Error (Option (Char × List UInt8))
  | [] => .ok none
  | b :: bs =>
    if b < 0x80 then .ok (some (Char.ofNat b.toNat, bs))
    else match shape? b with
      | none => .error ⟨b, position, 1, .startByte⟩
      | some (low, high, more) =>
        match bs with
        | [] => .error ⟨b, position, 1, .ended⟩
        | t :: ts =>
          if t < low || high < t then .error ⟨b, position, 1, .continuation⟩
          else
            let tails := (ts.take more).takeWhile isTail
            if tails.length = more then
              .ok (some (Char.ofNat (pointOf b (t :: tails)), ts.drop more))
            else if ts.length = tails.length then .error ⟨b, position, 2 + tails.length, .ended⟩
            else .error ⟨b, position, 2 + tails.length, .continuation⟩

def decodeFrom : Nat → Nat → List UInt8 → Except Error (List Char)
  | 0, _, _ => .ok []
  | fuel + 1, position, bs => do
    match ← step position bs with
    | none => return []
    | some (c, rest) =>
      return c :: (← decodeFrom fuel (position + (bs.length - rest.length)) rest)

def decode (bs : List UInt8) : Except Error (List Char) := decodeFrom (bs.length + 1) 0 bs

def Error.message (e : Error) : String :=
  let place :=
    if e.count = 1 then "byte 0x" ++ String.ofList (pad (Nat.toDigits 16 e.byte.toNat)) ++
      " in position " ++ toString e.position
    else "bytes in position " ++ toString e.position ++ "-" ++ toString (e.position + e.count - 1)
  let why := match e.reason with
    | .startByte => "invalid start byte"
    | .continuation => "invalid continuation byte"
    | .ended => "unexpected end of data"
  "'utf-8' codec can't decode " ++ place ++ ": " ++ why
where
  pad (ds : List Char) : List Char := if ds.length < 2 then '0' :: ds else ds

end TableAccess.Text.Utf8
