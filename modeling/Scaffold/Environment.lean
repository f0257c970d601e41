import Scaffold.Schema
import Scaffold.Text.Blank

/-!
# Environment files

The settings of a schema as `KEY=value` lines, and the update of a `.env` text in place: the first
line that assigns a key gets the new value, missing keys come at the end, all else stays.
-/

namespace Scaffold.Environment
set_option autoImplicit false

/-- Keys with the text of their values, in order. -/
abbrev Values := OrderedMap String

/-- The keys of each block of settings, with the names they have in the environment. -/
def appKeys : List (String × String) :=
  [("name", "APP_NAME"), ("env", "APP_ENV"), ("debug", "APP_DEBUG"), ("url", "APP_URL"),
   ("timezone", "APP_TIMEZONE")]

def databaseKeys : List (String × String) :=
  [("connection", "DB_CONNECTION"), ("host", "DB_HOST"), ("port", "DB_PORT"),
   ("database", "DB_DATABASE"), ("username", "DB_USERNAME"), ("password", "DB_PASSWORD"),
   ("charset", "DB_CHARSET"), ("collation", "DB_COLLATION")]

def mailKeys : List (String × String) :=
  [("mailer", "MAIL_MAILER"), ("host", "MAIL_HOST"), ("port", "MAIL_PORT"),
   ("username", "MAIL_USERNAME"), ("password", "MAIL_PASSWORD"), ("encryption", "MAIL_ENCRYPTION"),
   ("from_address", "MAIL_FROM_ADDRESS"), ("from_name", "MAIL_FROM_NAME")]

def cacheKeys : List (String × String) :=
  [("driver", "CACHE_DRIVER"), ("default_ttl", "CACHE_DEFAULT_TTL")]

def queueKeys : List (String × String) :=
  [("default", "QUEUE_CONNECTION"), ("retry_after", "QUEUE_RETRY_AFTER")]

def corsKeys : List (String × String) :=
  [("allowed_origins", "CORS_ALLOWED_ORIGINS"), ("allowed_methods", "CORS_ALLOWED_METHODS"),
   ("allowed_headers", "CORS_ALLOWED_HEADERS")]

/-- The domains that keep a session when the schema names none. -/
def defaultDomains : List String :=
  ["localhost", "localhost:3000", "127.0.0.1", "127.0.0.1:8000", "::1"]

/-- Characters for which a value needs quotation marks. -/
def needsMarks (c : Char) : Bool := Text.isBlank c || c = '#' || c = '=' || c = '"' || c = '\''

/-- A text as a value, between double quotation marks if it needs them. -/
def textValue (text : String) : String :=
  if text.toList.any needsMarks then "\"" ++ Text.escape ['\\', '"'] text ++ "\"" else text

/-- A setting as a value; the items of a list stand between commas. -/
def value : Json → String
  | .null => "null"
  | .bool value => if value then "true" else "false"
  | .int value => toString value
  | .float value => value.written
  | .array items => textValue (Text.join "," (items.map Json.plain))
  | setting => textValue setting.plain

/-- The settings of a block under their names in the environment. -/
def blockValues (keys : List (String × String)) (block : OrderedMap Json) :
    List (String × String) :=
  keys.filterMap fun (key, name) => (block.get? key).map fun setting => (name, value setting)

/-- The values that the settings of a project give. The project's name stands in for that of the
application. -/
def ofSettings (settings : Meta) : List (String × String) :=
  let name := ((settings.app.get? "name").map value).getD (textValue settings.project)
  let domains := if settings.auth.statefulDomains.isEmpty then defaultDomains
    else settings.auth.statefulDomains
  let auth :=
    if settings.auth.enabled && settings.auth.usesTokens then
      [("SANCTUM_STATEFUL_DOMAINS", textValue (Text.join "," domains))]
    else []
  ("APP_NAME", name) :: blockValues (appKeys.drop 1) settings.app ++
    blockValues databaseKeys settings.database ++ blockValues mailKeys settings.mail ++
    blockValues cacheKeys settings.cache ++ blockValues queueKeys settings.queues ++ auth ++
    blockValues corsKeys settings.cors

/-- The values of a schema; none without settings. -/
def ofSchema (schema : Schema) : Values :=
  .ofList ((schema.settings.map ofSettings).getD [])

def isKeyStart (c : Char) : Bool := c.isAlpha || c = '_'

def isKeyChar (c : Char) : Bool := c.isAlphanum || c = '_'

/-- The key in front of an equals sign, with white space between them or not. -/
def keyBeforeEquals? (chars : List Char) : Option String :=
  let key := chars.takeWhile isKeyChar
  match key, (chars.dropWhile isKeyChar).dropWhile Text.isBlank with
  | first :: _, '=' :: _ => if isKeyStart first then some (String.ofList key) else none
  | _, _ => none

/-- The key that a line assigns, if it assigns one; `export` and white space may come before it. -/
def assignedKey? (line : String) : Option String :=
  let chars := (Text.strip line).toList
  let exported : Option String :=
    match Chars.dropHead? "export".toList chars with
    | some (c :: rest) =>
      if Text.isBlank c then keyBeforeEquals? (rest.dropWhile Text.isBlank) else none
    | _ => none
  exported <|> keyBeforeEquals? chars

/-- The lines with the first assignment of each key replaced, and the values left over. -/
def replaceLines : Values → List String → List String × Values
  | values, [] => ([], values)
  | values, line :: rest =>
    match (assignedKey? line).bind fun key => (values.get? key).map fun v => (key, v) with
    | some (key, v) =>
      let (lines, left) := replaceLines (values.erase key) rest
      ((key ++ "=" ++ v) :: lines, left)
    | none =>
      let (lines, left) := replaceLines values rest
      (line :: lines, left)

/-- The text with the values set in it. -/
def update (text : String) (values : Values) : String :=
  let (lines, left) := replaceLines values (Text.lines text)
  let gap := if left.isEmpty || lines.getLast?.all Text.isBlankText then [] else [""]
  Text.unlines (lines ++ gap ++ left.entries.map fun (key, v) => key ++ "=" ++ v) ++ "\n"

end Scaffold.Environment
