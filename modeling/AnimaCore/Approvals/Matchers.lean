import AnimaCore.Approvals
import AnimaCore.HotTail
import AnimaCore.Lib.Glob

/-!
# AnimaCore.Approvals.Matchers — what a matcher covers and what it is offered for

`approvals/policy.rs`: which calls a saved matcher covers, and the matcher that "Always allow" suggests for a call;
`approvals/detection.rs`, `glob_matches`: the owner's patterns over a whole command.

* Both wildcard loops are `Lib.Glob.scan`: each compares letters before it looks for a star.  The table of a path is
  `Lib.Glob.rows`.
* The URL parser is an argument; of a parsed URL the code reads its scheme and its domain.
-/

namespace AnimaCore.Approvals

open Lib ShellLex

/-! ## Wildcards -/

/-- `pattern.split_whitespace().collect().join(" ")`. -/
def collapseWhitespace (pattern : Text) : Text :=
  [' '].intercalate ((pattern.splitOnP isWhitespace).filter fun word => !word.isEmpty)

/-- The token `*`. -/
def isStar (x : Char) : Bool := x == '*'

/-- `pattern[p] == '?' || pattern[p] == text[t]`. -/
def fitsLetter (x c : Char) : Bool := x == '?' || x == c

def globMatches (pattern text : String) : Bool := Glob.scan isStar fitsLetter (collapseWhitespace pattern.toList) text.toList

def componentMatches (pattern text : String) : Bool := Glob.scan isStar fitsLetter pattern.toList text.toList

/-- The segment `**`. -/
def isGlobstar (segment : String) : Bool := segment == "**"

/-- `segments_match`: entry `j` of row `i` says whether `pattern[i..]` matches `path[j..]`. -/
def segmentsMatch (pattern path : List String) : Bool := (Glob.rows isGlobstar componentMatches pattern path).headD false

/-- `pattern.dedup_by(|a, b| *a == "**" && *b == "**")`. -/
def dedupGlobstars : List String → List String
  | [] => []
  | [segment] => [segment]
  | segment :: next :: rest =>
    if isGlobstar segment && isGlobstar next then dedupGlobstars (next :: rest)
    else segment :: dedupGlobstars (next :: rest)

def pathMatches (glob path : String) : Bool :=
  match relativeComponents glob, relativeComponents path with
  | some pattern, some path => segmentsMatch (dedupGlobstars pattern) path
  | _, _ => false

/-! ## Domains -/

structure Url where
  scheme : String
  domain : Option String
  deriving DecidableEq, Repr

/-- `str::to_ascii_lowercase`. -/
def asciiLowercase (value : Text) : Text := value.map Char.toLower

def httpHost (parse : String → Option Url) (url : String) : Option String := do
  let parsed ← parse url
  if parsed.scheme = "http" ∨ parsed.scheme = "https" then
    let domain ← parsed.domain
    let host := asciiLowercase (trimEndDots domain.toList)
    if host = [] then none else some (String.ofList host)
  else none

def urlInDomain (parse : String → Option Url) (url domain : String) : Bool :=
  let domain := asciiLowercase (trimEndDots (AnimaMemory.trim domain).toList)
  isDomain (String.ofList domain) &&
    (httpHost parse url).any fun host => host.toList == domain || ('.' :: domain).isSuffixOf host.toList

/-! ## What a matcher covers -/

def stringArg (call : ToolCall) (key : String) : Option String :=
  match HotTail.dataGet key call.args with
  | some (.string value) => some (AnimaMemory.trim value)
  | _ => none

def matcherMatches (parse : String → Option Url) (m : ApprovalMatcher) (call : ToolCall) : Bool :=
  if m.kind ∉ matcherKinds call.name then false
  else
    match m.kind with
    | .any => true
    | .commandPrefix => (stringArg call "command").any fun command => commandHasPrefix command.toList m.value.toList
    | .pathGlob => (stringArg call "file_path").any fun path => pathMatches m.value path
    | .domain => (stringArg call "url").any fun url => urlInDomain parse url m.value

/-! ## What is suggested -/

def wrapperCommands : List String :=
  ["sh", "bash", "zsh", "dash", "env", "sudo", "doas", "xargs", "time", "nice", "nohup", "timeout", "exec", "eval",
    "command", "builtin", "source", ".", "python", "node", "bun", "deno", "ruby", "perl", "php", "cmd", "powershell",
    "pwsh", "!", "coproc", "trap", "su", "ksh", "mksh", "fish", "csh", "tcsh", "busybox", "py", "pythonw", "nodejs",
    "npx", "bunx", "pnpx", "tsx", "ts-node", "wsl", "ssh", "watch", "setsid", "stdbuf", "chroot", "nsenter", "strace",
    "find", "awk", "gawk"]

/-- `name.strip_suffix(".exe").unwrap_or(&name)`. -/
def stripExe (name : Text) : Text :=
  if ".exe".toList.isSuffixOf name then name.take (name.length - 4) else name

def isWrapper (word : Text) : Bool :=
  let name := stripExe (asciiLowercase (word.rtakeWhile (· != '/')))
  wrapperCommands.contains (String.ofList name) || name.contains '=' ||
    ("python".toList.isPrefixOf name && (name.drop 6).all fun c => c.isDigit || c == '.')

/-- Whether a second word reads as a subcommand. -/
def isSubcommand (word : Text) : Bool :=
  word.head?.any Char.isAlpha && word.all fun c => isAsciiAlphanumeric c || c == '-' || c == '_'

def commandSuggestion (command : Text) : Text :=
  let head := command.takeWhile fun c => !shellOperators.contains c
  match shellWords head with
  | [] => []
  | first :: words =>
    if first.any shellWordSpecials.contains || hasOddWhitespace first || isWrapper first then []
    else
      match words with
      | [] => first
      | second :: _ => if isSubcommand second then first ++ ' ' :: second else first

def pathSuggestion (path : String) : String :=
  match relativeComponents path with
  | none => ""
  | some components =>
    if components.any fun component => component.toList.any fun c => c == '*' || c == '?' then ""
    else if 1 < components.length then "/".intercalate components.dropLast ++ "/**"
    else components.headD ""

/-- The value that `suggested_matcher` fills in for a kind. -/
def suggestedValue (parse : String → Option Url) (call : ToolCall) : MatcherKind → Option String
  | .commandPrefix =>
    (stringArg call "command").map fun command : String => String.ofList (commandSuggestion command.toList)
  | .pathGlob => (stringArg call "file_path").map pathSuggestion
  | .domain => (stringArg call "url").bind (httpHost parse)
  | .any => none

def suggestedMatcher (parse : String → Option Url) (call : ToolCall) : ApprovalMatcher :=
  -- Every tool has a kind.
  let kind := (matcherKinds call.name).headD .any
  if kind = .any then .any
  else
    match validateMatcher call.name { kind := kind, value := (suggestedValue parse call kind).getD "" } with
    | .ok m => m
    | .error _ => { kind := kind, value := "" }

end AnimaCore.Approvals
