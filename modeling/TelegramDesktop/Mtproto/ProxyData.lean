import TelegramDesktop.Base.Base64Url
import TelegramDesktop.Mtproto.DcOptions
import TelegramDesktop.Mtproto.TcpConnection
import TelegramDesktop.Mtproto.TlsClientHello

namespace TelegramDesktop.Mtproto.ProxyData
open Base

/-- A UTF-16 code unit. -/
abbrev QChar := UInt16

/-- `ch.unicode()` compared with a range of characters. -/
def between (ch : QChar) (first last : Char) : Bool :=
  first.toNat ≤ ch.toNat && ch.toNat ≤ last.toNat

def is (ch : QChar) (c : Char) : Bool := ch.toNat == c.toNat

inductive ProxyType
  | none
  | socks5
  | http
  | mtproto
  deriving DecidableEq

inductive Status
  | valid
  | unsupported
  | invalid
  deriving DecidableEq

structure ProxyData where
  type : ProxyType
  password : List QChar

def isHexDigit (ch : QChar) : Bool := between ch 'a' 'f' || between ch 'A' 'F' || between ch '0' '9'

def isHexMtprotoPassword (password : List QChar) : Bool :=
  if password.length < 32 || password.length % 2 == 1 then false else password.all isHexDigit

/-- Only hex digits come here. -/
def toLower (ch : QChar) : QChar := if between ch 'A' 'Z' then ch + 32 else ch

/-- `type1` and `type2`. -/
def typeIs (password : List QChar) (i : ℕ) (c : Char) : Bool :=
  (password[i]?).any fun ch => is (toLower ch) c

def hexMtprotoPasswordStatus (password : List QChar) : Status :=
  let size := password.length / 2
  let valid := size == 16
    || (size == 17 && typeIs password 0 'd' && typeIs password 1 'd')
    || (21 ≤ size && typeIs password 0 'e' && typeIs password 1 'e')
  if valid then .valid else if size < 16 then .invalid else .unsupported

def fromHex (ch : QChar) : Option ℕ :=
  if between ch '0' '9' then some (ch.toNat - '0'.toNat)
  else if between ch 'A' 'F' then some (10 + (ch.toNat - 'A'.toNat))
  else if between ch 'a' 'f' then some (10 + (ch.toNat - 'a'.toNat))
  else none

def bytesFromHex : List QChar → Option (List UInt8)
  | first :: second :: rest =>
    (fromHex first).bind fun high =>
    (fromHex second).bind fun low =>
    (bytesFromHex rest).map (.ofNat (high * 16 + low) :: ·)
  | _ => some []

def secretFromHexMtprotoPassword (password : List QChar) : Option (List UInt8) :=
  if password.length % 2 = 0 then bytesFromHex password else none

/-- The loop of `Base64UrlInner`, with the turns that are left. -/
def skipEquals (password : List QChar) : ℕ → ℕ → ℕ
  | 0, result => result
  | i + 1, result =>
    if (password[result - 1]?).any (is · '=') then skipEquals password i (result - 1) else result

def base64UrlInner (password : List QChar) : Option (List QChar) :=
  if 2 < password.length then some (password.take (skipEquals password 2 password.length))
  else none

def isBase64UrlChar (ch : QChar) : Bool :=
  between ch 'a' 'z' || between ch 'A' 'Z' || between ch '0' '9' || is ch '_' || is ch '-'

def isBase64UrlMtprotoPassword (password : List QChar) : Option Bool :=
  if password.length < 22 || password.length % 4 == 1 then some false
  else (base64UrlInner password).map fun inner => inner.all isBase64UrlChar

def base64UrlMtprotoPasswordStatus (password : List QChar) : Option Status :=
  (base64UrlInner password).map fun inner =>
    let size := inner.length * 3 / 4
    let valid := size == 16
      || (size == 17 && (password[0]?).any (is · '3')
        && (password[1]?).any fun ch => between ch 'Q' 'Z' || between ch 'a' 'f')
      || (21 ≤ size && (password[0]?).any (is · '7')
        && (password[1]?).any fun ch => between ch 'g' 'v')
    if size < 16 then .invalid else if valid then .valid else .unsupported

/-- What has no place in Latin-1 becomes a question mark. -/
def toLatin1 (ch : QChar) : UInt8 := if ch.toNat < 256 then .ofNat ch.toNat else 0x3F

/-- What is used of `QByteArray::fromBase64` with `Base64UrlEncoding`. -/
structure FromBase64 (fromBase64 : List UInt8 → List UInt8) : Prop where
  length : ∀ text, (fromBase64 text).length = 6 * Base64Url.alphabetCount text / 8
  head : ∀ {a b : UInt8} {x y : ℕ}, Base64Url.value a = some x → Base64Url.value b = some y →
    ∀ text, (fromBase64 (a :: b :: text)).head? = some (.ofNat (x * 4 + y / 16))

variable (fromBase64 : List UInt8 → List UInt8)

def secretFromBase64UrlMtprotoPassword (password : List QChar) : List UInt8 :=
  fromBase64 (password.map toLatin1)

def mtprotoPasswordStatus (password : List QChar) : Option Status :=
  if isHexMtprotoPassword password then some (hexMtprotoPasswordStatus password)
  else
    (isBase64UrlMtprotoPassword password).bind fun isBase64Url =>
      if isBase64Url then base64UrlMtprotoPasswordStatus password else some .invalid

def validMtprotoPassword (password : List QChar) : Option Bool :=
  (mtprotoPasswordStatus password).map (· == .valid)

def secretFromMtprotoPassword (proxy : ProxyData) : Option (List UInt8) :=
  if proxy.type = .mtproto then
    if isHexMtprotoPassword proxy.password then secretFromHexMtprotoPassword proxy.password
    else
      (isBase64UrlMtprotoPassword proxy.password).map fun isBase64Url =>
        if isBase64Url then secretFromBase64UrlMtprotoPassword fromBase64 proxy.password else []
  else none

/-- `TcpConnection::Protocol::Create`, the version and the secret it keeps. -/
def createProtocol (secret : List UInt8) : Option (Version × List UInt8) :=
  if (21 ≤ secret.length ∧ secret.head? = some 0xEE) ∨
      (secret.length = 17 ∧ secret.head? = some 0xDD) then
    some (.versionD, slice secret 1 16)
  else if secret.length = 16 then some (.version1, secret)
  else if secret = [] then some (.version0, [])
  else none

/-- The constructor of `TlsSocket`. -/
def tlsSocket (secret : List UInt8) : Option TlsSocket.Secret :=
  if h : 21 ≤ secret.length ∧ secret.head? = some 0xEE then some ⟨secret, h.1, h.2⟩ else none

inductive Socket
  | tls (secret : TlsSocket.Secret)
  | tcp

/-- `AbstractSocket::Create`. -/
def createSocket (secret : List UInt8) : Option Socket :=
  if 21 ≤ secret.length ∧ secret.head? = some 0xEE then (tlsSocket secret).map .tls else some .tcp

end TelegramDesktop.Mtproto.ProxyData
