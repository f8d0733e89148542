import JavaObjC.Files.Path
import JavaObjC.Text.Number

/-!
# Names of documents

An editor names documents by URIs. One that starts with `file://` stands for
the path in it: what follows the host, without query and fragment, with its
percent signs decoded, and cleaned. Any other name stands for itself.
-/

namespace JavaObjC.Uri

/-- The start of the URIs that hold a path. -/
def fileStart : Text := "file://"

/-- A text with every percent sign and the two hexadecimal digits after it
replaced by the byte they stand for. -/
def decode? : Text → Option Text
  | [] => some []
  | 37 :: a :: b :: rest => do
    let high ← Text.digitIn? 16 a
    let low ← Text.digitIn? 16 b
    return (high * 16 + low).toUInt8 :: (← decode? rest)
  | b :: rest => if b = 37 then none else do return b :: (← decode? rest)

/-- Whether a byte is a letter or a digit. -/
def isAlphanumeric (b : UInt8) : Bool :=
  Text.isDigit b || (97 ≤ b && b ≤ 122) || (65 ≤ b && b ≤ 90)

/-- Whether a byte can stand in the name of a host. -/
def isHostByte (b : UInt8) : Bool :=
  128 ≤ b || isAlphanumeric b || List.elem b (Text.ofString "!$&'()*+,;=:[]<>\"-_.~")

/-- Whether a text is the name of a host. Percent signs can stand there for
bytes beyond ASCII and for themselves only. -/
def isHostName : Text → Bool
  | [] => true
  | 37 :: a :: b :: rest =>
    match Text.digitIn? 16 a, Text.digitIn? 16 b with
    | some high, some low => (8 ≤ high || (high = 2 && low = 5)) && isHostName rest
    | _, _ => false
  | b :: rest => isHostByte b && isHostName rest

/-- Whether a text is nothing, or a colon with digits. -/
def isServiceNumber : Text → Bool
  | [] => true
  | b :: rest => b = 58 && rest.all Text.isDigit

/-- The part of a host from its last colon on; nothing if it has none. -/
def serviceNumberOf (host : Text) : Text :=
  if 58 ∈ host then 58 :: Text.afterLast 58 host else []

/-- Whether a text is a host: a name or a bracketed address, and the number of a service. -/
def isHost (host : Text) : Bool :=
  isHostName host &&
    if Text.startsWith host "[" then
      List.elem (93 : UInt8) host && isServiceNumber (Text.afterLast 93 host)
    else isServiceNumber (serviceNumberOf host)

/-- Whether a text can stand for a user in front of a host. -/
def isUser (user : Text) : Bool :=
  (user.all fun b => isAlphanumeric b || List.elem b (Text.ofString "-._:~!$&'()*+,;=%@"))
    && (decode? user).isSome

/-- Whether a text is a host, with or without a user. -/
def isAuthority (authority : Text) : Bool :=
  if 64 ∈ authority then
    let host := Text.afterLast 64 authority
    isHost host && isUser (authority.take (authority.length - host.length - 1))
  else isHost authority

/-- The part of a text before the first byte of a kind. -/
def beforeFirst (b : UInt8) (t : Text) : Text := t.takeWhile (· ≠ b)

/-- The path that the name of a document stands for. -/
def path? (uri : Text) : Option Text :=
  if !Text.startsWith uri fileStart then some uri
  else
    let fragment := (uri.dropWhile (· ≠ 35)).drop 1
    let body := beforeFirst 35 uri
    let rest := beforeFirst 63 (body.drop fileStart.length)
    let authority := beforeFirst 47 rest
    if (body.any fun b => b < 32 || b = 127) || !isAuthority authority then none
    else do
      let path ← decode? (rest.drop authority.length)
      let _ ← decode? fragment
      return Path.clean path

end JavaObjC.Uri
