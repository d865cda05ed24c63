import U2os.Lib.ParsedJson
import U2os.Lib.Mail

/-!
# Composed messages

The message that Gmail is given (`integrations/mime.js` and `buildRawMessage` of
`integrations/gmail-provider.js`).  A message without attachments has its fields and its body as
they are; one with attachments has parts in base64 and a subject that is encoded if it has to be.

The recipients, the subject and the body are arguments of a tool, and so any values.  The copy goes
to an address of the owner's configuration, a text if there is one; attachments are resolved ones,
with their bytes.
-/

namespace U2os.Server.Integrations.Mime

/-- An attachment that is resolved. -/
structure Attachment where
  filename : String
  contentType : String
  content : List UInt8

/-- What a message is built from. -/
structure MailArguments where
  «to» : ParsedJson
  bcc : Option String
  subject : ParsedJson
  body : ParsedJson
  attachments : Option (List Attachment)

/-- The bytes of a text. -/
def utf8 (s : String) : List UInt8 := Utf8.bytes s.toList

/-- A line break after every 76 characters that others follow, with room for some on this line. -/
def wrapFrom : ℕ → List Char → List Char
  | _, [] => []
  | 0, c :: cs => '\r' :: '\n' :: c :: wrapFrom 75 cs
  | room + 1, c :: cs => c :: wrapFrom room cs

def wrap (base64 : List Char) : String := String.ofList (wrapFrom 76 base64)

/-- `[\x20-\x7e]`. -/
def isPrintable (c : Char) : Bool := 32 ≤ c.toNat && c.toNat ≤ 126

def encodeHeaderValue (value : String) : String :=
  if value.toList.all isPrintable then value
  else "=?UTF-8?B?" ++ String.ofList (Base64.encodePadded (utf8 value)) ++ "?="

/-- The digit of a number. -/
def hexDigit (n : ℕ) : Char := "0123456789abcdef".toList.getD n '0'

/-- `toString('hex')`. -/
def hex (bs : List UInt8) : String :=
  String.ofList (bs.flatMap fun b => [hexDigit (b.toNat / 16), hexDigit (b.toNat % 16)])

/-- The boundary of the parts, by random bytes. -/
def boundaryOf (random : List UInt8) : String := "u2os-" ++ hex random

/-- `[A-Za-z0-9._ -]{1,100}`. -/
def isSafeFilename (name : String) : Bool :=
  (1 ≤ name.toList.length && name.toList.length ≤ 100) &&
    name.toList.all fun c => c.isAlphanum || ['.', '_', ' ', '-'].contains c

/-- No `[\r\n";]`. -/
def isSafeType (type : String) : Bool :=
  type.toList.all fun c => !(['\r', '\n', '"', ';'].contains c)

def attachmentLines (boundary : String) (item : Attachment) : List String :=
  ["--" ++ boundary,
    "Content-Type: " ++ item.contentType ++ "; name=\"" ++ item.filename ++ "\"",
    "Content-Disposition: attachment; filename=\"" ++ item.filename ++ "\"",
    "Content-Transfer-Encoding: base64",
    "",
    wrap (Base64.encodePadded item.content)]

/-- The line of the copy, if there is one. -/
def bccLines (bcc : Option String) : List String :=
  match bcc with
  | some address => if address ≠ "" then ["Bcc: " ++ address] else []
  | none => []

def buildMultipart (random : List UInt8) («to» : String) (bcc : Option String)
    (subject body : String) (attachments : List Attachment) : Except String String :=
  let boundary := boundaryOf random
  if attachments.all fun item => isSafeFilename item.filename && isSafeType item.contentType then
    .ok ("\r\n".intercalate (
      ["To: " ++ «to»] ++ bccLines bcc ++
      ["Subject: " ++ encodeHeaderValue subject,
        "MIME-Version: 1.0",
        "Content-Type: multipart/mixed; boundary=\"" ++ boundary ++ "\"",
        "",
        "--" ++ boundary,
        "Content-Type: text/plain; charset=\"UTF-8\"",
        "Content-Transfer-Encoding: base64",
        "",
        wrap (Base64.encodePadded (utf8 body))] ++
      attachments.flatMap (attachmentLines boundary) ++
      ["--" ++ boundary ++ "--", ""]))
  else .error "mime: unsafe attachment metadata"

/-- A recipient: a text that is not blank. -/
def recipient? : ParsedJson → Option String
  | .str s => if JsText.trim s ≠ "" then some s else none
  | _ => none

def recipients? : ParsedJson → Option (List String)
  | .arr items => if items ≠ [] then items.mapM recipient? else none
  | v => (recipient? v).map fun s => [s]

/-- The text has a line break: `[\r\n]`. -/
def hasLineBreak (value : String) : Bool := value.toList.any fun c => c = '\r' || c = '\n'

def assertNoHeaderInjection (value fieldName : String) : Except String Unit :=
  if hasLineBreak value then
    .error ("gmail: \"" ++ fieldName ++ "\" must not contain line breaks; no message was attempted")
  else .ok ()

/-- The bytes of a message in base64 for URLs. -/
def rawOf (message : String) : String := String.ofList (Base64.encode .url (utf8 message))

def buildRawMessage (random : List UInt8) (mail : MailArguments) : Except String String :=
  match recipients? mail.«to» with
  | none => .error ("gmail: \"to\" must be a nonempty string or nonempty flat array of nonempty " ++
      "strings; no message was attempted")
  | some toList =>
    match mail.subject, mail.body with
    | .str subject, .str body => do
      toList.forM fun addr => assertNoHeaderInjection addr "to"
      assertNoHeaderInjection subject "subject"
      assertNoHeaderInjection (mail.bcc.getD "") "bcc"
      let toHeader := ", ".intercalate toList
      match mail.attachments with
      | some [] => .error "gmail: invalid attachments; no message was attempted"
      | some attachments =>
        (buildMultipart random toHeader mail.bcc subject body attachments).map rawOf
      | none =>
        .ok (rawOf ("\r\n".intercalate (["To: " ++ toHeader] ++ bccLines mail.bcc ++
          ["Subject: " ++ subject, "", body])))
    | _, _ => .error "gmail: subject and body must be strings; no message was attempted"

end U2os.Server.Integrations.Mime
