import Cronymax.Authority.State
import Cronymax.Paths.Lexical

/-! The handler of `cronymax-webview://<ext-id>/<path>`: it resolves a URL to a file of the extension and
serves it with a content security policy that the manifest of the extension may widen. -/

namespace Cronymax.Browser

open Authority (Value)
open Paths (Name spell segments)

/-- The file system and the JSON parser of the host. -/
structure Host where
  realpath : List Char → Option (List (Name Char))
  readFileBytes : List Char → Option (List Char)
  parseJson : List Char → Option Value

def hexDigit (c : Char) : Option Nat :=
  if '0' ≤ c ∧ c ≤ '9' then some (c.toNat - '0'.toNat)
  else if 'A' ≤ c ∧ c ≤ 'F' then some (10 + (c.toNat - 'A'.toNat))
  else if 'a' ≤ c ∧ c ≤ 'f' then some (10 + (c.toNat - 'a'.toNat))
  else none

/-- `PercentDecode`. -/
def percentDecode : List Char → List Char
  | '%' :: hi :: lo :: rest =>
    match hexDigit hi, hexDigit lo with
    | some h, some l => Char.ofNat (h * 16 + l) :: percentDecode rest
    | _, _ => '%' :: percentDecode (hi :: lo :: rest)
  | c :: rest => c :: percentDecode rest
  | [] => []

/-- The value of the first pair with the key. -/
def queryValue (key : List Char) : List (List Char) → List Char
  | [] => []
  | pair :: pairs =>
    if '=' ∈ pair ∧ pair.takeWhile (· ≠ '=') = key then
      percentDecode (pair.dropWhile (· ≠ '=')).tail
    else queryValue key pairs

def queryOf (url : List Char) : List Char :=
  (url.dropWhile (· ≠ '?')).tail.takeWhile (· ≠ '#')

/-- `LookupQueryValue`: the query is sought in the whole URL. -/
def lookupQueryValue (url key : List Char) : List Char := queryValue key ((queryOf url).splitOn '&')

def stripLeading : List Char → List Char
  | '.' :: '/' :: rest => stripLeading rest
  | '/' :: rest => stripLeading rest
  | text => text

/-- `SplitPathSegments`. -/
def splitPathSegments (path : List Char) : List (List Char) := segments (stripLeading path)

/-- `RequestSegments`: the path of the file below the directory. -/
def requestSegments (absFile extDir : List Char) : List (List Char) :=
  if absFile.length ≤ extDir.length + 1 then []
  else splitPathSegments (absFile.drop (extDir.length + 1))

def textsOf : Option Value → List (List Char)
  | some (.array items) => (items.filterMap Value.asStr).map String.toList
  | _ => []

def itemsOf : Option Value → List Value
  | some (.array items) => items
  | _ => []

/-- The sources of a renderer. -/
def connectSrc (renderer : Value) : List (List Char) :=
  textsOf ((renderer.get "csp").bind (·.get "connect_src"))

/-- The entry of the renderer is this request. -/
def isEntry (request : List (List Char)) (renderer : Value) : Bool :=
  match (renderer.get "entry").bind Value.asStr with
  | none => false
  | some entry => entry ≠ "" ∧ splitPathSegments entry.toList = request

def renderersOf (manifest : Value) : List Value :=
  itemsOf ((manifest.get "contributes").bind (·.get "cronymax.content.renderer"))

/-- The sources of the first renderer with this entry. -/
def declaredFor (manifest : Value) (request : List (List Char)) : List (List Char) :=
  match (renderersOf manifest).find? (isEntry request) with
  | none => []
  | some renderer => connectSrc renderer

def manifestOf (host : Host) (extDir : List Char) : Option Value :=
  (host.readFileBytes (extDir ++ "/cronymax-extension.json".toList)).bind host.parseJson

/-- `LookupRendererConnectSrc`. -/
def lookupRendererConnectSrc (host : Host) (extDir absFile : List Char) : List (List Char) :=
  match manifestOf host extDir with
  | none => []
  | some manifest =>
    if requestSegments absFile extDir = [] then []
    else declaredFor manifest (requestSegments absFile extDir)

def kWebviewDefaultCsp : List Char :=
  "default-src 'none'; ".toList ++
  "script-src 'self' 'unsafe-inline'; ".toList ++
  "style-src 'self' 'unsafe-inline'; ".toList ++
  "img-src cronymax-webview: data:; ".toList ++
  "connect-src 'self'; ".toList ++
  "font-src 'self' data:".toList

/-- `BuildCspHeader`. -/
def buildCspHeader (extraConnectSrc : List (List Char)) : List Char :=
  if extraConnectSrc = [] then kWebviewDefaultCsp
  else
    "default-src 'none'; ".toList ++
    "script-src 'self' 'unsafe-inline'; ".toList ++
    "style-src 'self' 'unsafe-inline'; ".toList ++
    "img-src cronymax-webview: data:; ".toList ++
    "connect-src 'self'".toList ++
    extraConnectSrc.flatMap (' ' :: ·) ++
    "; ".toList ++
    "font-src 'self' data:".toList

/-- One segment of `NormalizeLogical`. -/
def enter (stack : List (List Char)) (segment : List Char) : List (List Char) :=
  if segment = ['.'] then stack
  else if segment = ['.', '.'] then stack.dropLast
  else stack ++ [segment]

/-- `NormalizeLogical`. -/
def normalizeLogical (path : List Char) : List Char :=
  ((segments path).foldl enter []).flatMap ('/' :: ·)

def schemePrefix : List Char := "cronymax-webview://".toList

/-- The URL without scheme, query and fragment. -/
def cleanOf (url : List Char) : List Char :=
  (url.drop schemePrefix.length).takeWhile fun c => c ≠ '?' ∧ c ≠ '#'

def extIdOf (url : List Char) : List Char := (cleanOf url).takeWhile (· ≠ '/')

def relPathOf (url : List Char) : List Char :=
  let rest := ((cleanOf url).dropWhile (· ≠ '/')).tail
  if rest = [] then "index.html".toList else rest

def extDirOf (extensionsRoot url : List Char) : List Char := extensionsRoot ++ '/' :: extIdOf url

structure Resolved where
  extDir : List (Name Char)
  file : List (Name Char)

/-- The file that a URL names, if it lies inside. -/
def resolveUrl (host : Host) (extensionsRoot url : List Char) : Option Resolved :=
  if schemePrefix.isPrefixOf url = false then none
  else if extIdOf url = [] then none
  else if '/' ∈ extIdOf url ∨ '\\' ∈ extIdOf url ∨ extIdOf url = ['.'] ∨ extIdOf url = ['.', '.'] then none
  else if normalizeLogical (relPathOf url) = [] ∨ normalizeLogical (relPathOf url) = ['/'] then none
  else
    (host.realpath (extDirOf extensionsRoot url)).bind fun extDir =>
      (host.realpath (extDirOf extensionsRoot url ++ normalizeLogical (relPathOf url))).bind fun file =>
        if (spell extDir).isPrefixOf (spell file) = false then none
        else if (spell extDir).length < (spell file).length ∧
            (spell file)[(spell extDir).length]? ≠ some '/' then none
        else some ⟨extDir, file⟩

def mimeTypes : List (String × String) :=
  [("html", "text/html"), ("htm", "text/html"), ("js", "application/javascript"),
    ("mjs", "application/javascript"), ("css", "text/css"), ("json", "application/json"),
    ("svg", "image/svg+xml"), ("png", "image/png"), ("jpg", "image/jpeg"), ("jpeg", "image/jpeg"),
    ("gif", "image/gif"), ("webp", "image/webp"), ("ico", "image/x-icon"), ("wasm", "application/wasm"),
    ("woff", "font/woff"), ("woff2", "font/woff2"), ("ttf", "font/ttf"), ("txt", "text/plain"),
    ("md", "text/plain"), ("map", "application/json")]

/-- `MimeFromExtension`. -/
def mimeFromExtension (path : List Char) : String :=
  if '.' ∈ path then
    let ext := (path.reverse.takeWhile (· ≠ '.')).reverse.map Char.toLower
    (mimeTypes.lookup (String.ofList ext)).getD "application/octet-stream"
  else "application/octet-stream"

/-- A file that is served. -/
structure Served extends Resolved where
  surfaceIsRenderer : Bool
  body : List Char

/-- `Open`; nothing is served where it sets the status 404. -/
def openUrl (host : Host) (extensionsRoot url : List Char) : Option Served :=
  (resolveUrl host extensionsRoot url).bind fun resolved =>
    (host.readFileBytes (spell resolved.file)).map fun body =>
      { toResolved := resolved
        surfaceIsRenderer := lookupQueryValue url "surface".toList = "renderer".toList
        body }

structure Response where
  status : Nat
  statusText : String
  mimeType : String
  headers : List (String × List Char)
  length : Nat

def extraConnectSrc (host : Host) (served : Served) : List (List Char) :=
  if served.surfaceIsRenderer ∧ spell served.extDir ≠ [] then
    lookupRendererConnectSrc host (spell served.extDir) (spell served.file)
  else []

/-- `GetResponseHeaders`. -/
def getResponseHeaders (host : Host) : Option Served → Response
  | none => ⟨404, "Not Found", "text/plain; charset=utf-8", [], 0⟩
  | some served =>
    { status := 200
      statusText := "OK"
      mimeType := mimeFromExtension (spell served.file)
      headers :=
        [("Content-Security-Policy", buildCspHeader (extraConnectSrc host served)),
          ("X-Content-Type-Options", "nosniff".toList),
          ("Referrer-Policy", "no-referrer".toList),
          ("Cache-Control", "no-store".toList),
          ("Access-Control-Allow-Origin", "*".toList)]
      length := served.body.length }

end Cronymax.Browser
