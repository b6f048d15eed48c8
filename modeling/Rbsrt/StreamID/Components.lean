import Rbsrt.General.Backtrack
import Rbsrt.General.OrderedHash
import Rbsrt.Ruby

/-!
# `SRT::StreamIDComponents`

The parser and compiler of access-control streamids, as `streamid_components.rb` has it. A
streamid of that form is a header followed by `key=value` pairs separated by commas; six keys,
each with a long and a short name, are standard fields, and everything else goes into an
insertion-ordered hash of custom values.

## The regexp

`merge_str!` scans for `([a-z0-9_-]+?)=(.+?)(,|$)`, ignoring case. It is written below as a
matcher of `Backtrack` with the same parts in the same order. Three things about it matter: `.`
does not match a newline, `$` matches before any newline and not only at the end of the string,
and `.+?` takes its first character before it looks for a separator, so that a value may begin
with a comma.

## The URI library

`URI` is not part of the repository. It enters as a parameter, `URILib`, with the three functions
the constructor uses.
-/

namespace Rbsrt

open Backtrack

/-! ### The constants -/

/-- `Types` -/
def types : List RString := ["stream".toList, "file".toList, "auth".toList]

/-- `Modes` -/
def modes : List RString := ["request".toList, "publish".toList, "bidirectional".toList]

/-- `Header` -/
def header : RString := "#!::".toList

/-! ### The regexp of `merge_str!` -/

/-- `[a-z0-9_-]` under `/i`. On Unicode strings the case folding also lets in the long s and the
Kelvin sign, which fold to `s` and `k`. -/
def isKeyChar (c : Char) : Bool :=
  c.isAlphanum || c = '_' || c = '-' || c = '\u017F' || c = '\u212A'

/-- `.` -/
def isDot (c : Char) : Bool := c ≠ '\n'

/-- `$` -/
def atLineEnd : RString → Bool
  | [] => true
  | c :: _ => c = '\n'

/-- `/([a-z0-9_-]+?)=(.+?)(,|$)/i`, with its first two groups as the result. -/
def pairRegexp : Matcher Char (RString × RString) :=
  seq (lazyPlus isKeyChar) fun key =>
    seq (lit '=') fun _ =>
      seq (lazyPlus isDot) fun val =>
        seq (alt (lit ',') (assert atLineEnd)) fun _ => ret (key, val)

/-! ### The object -/

/-- The six standard fields. -/
inductive Field
  | resourceName
  | userName
  | mode
  | hostName
  | type
  | sessionid
deriving DecidableEq

/-- The `when` clauses of `set`, in order. -/
def fieldNames : List (RString × Field) :=
  [("resource_name".toList, .resourceName), ("r".toList, .resourceName),
    ("user_name".toList, .userName), ("u".toList, .userName),
    ("mode".toList, .mode), ("m".toList, .mode),
    ("host_name".toList, .hostName), ("h".toList, .hostName),
    ("type".toList, .type), ("t".toList, .type),
    ("sessionid".toList, .sessionid), ("s".toList, .sessionid)]

/-- The branch of `case key.to_s` that a name selects, if it is not the `else`. -/
def Field.ofName (s : RString) : Option Field := fieldNames.lookup s

/-- The instance variables. -/
structure StreamIDComponents where
  resourceName : Value
  userName : Value
  mode : Value
  hostName : Value
  type : Value
  sessionid : Value
  extra : OrderedHash Key Value
deriving DecidableEq

namespace StreamIDComponents

/-- The object `initialize` starts from. -/
def fresh : StreamIDComponents where
  resourceName := .nil
  userName := .nil
  mode := .sym "request".toList
  hostName := .nil
  type := .sym "stream".toList
  sessionid := .nil
  extra := .empty

/-- The readers of the standard fields. -/
def get (c : StreamIDComponents) : Field → Value
  | .resourceName => c.resourceName
  | .userName => c.userName
  | .mode => c.mode
  | .hostName => c.hostName
  | .type => c.type
  | .sessionid => c.sessionid

/-- The `host_name` case of `set` for a String. -/
def splitHost (c : StreamIDComponents) (val : RString) : StreamIDComponents :=
  match index val '/' with
  | some sep =>
    let c := { c with hostName := .ofSlice (slice val 0 ((sep : ℤ) - 1)) }
    if c.resourceName.truthy then c
    else { c with resourceName := .ofSlice (slice val ((sep : ℤ) + 1) (-1)) }
  | none => { c with hostName := .str val }

/-- The `host_name` case of `set`. Only a String has the `index` method it calls. -/
def setHost (c : StreamIDComponents) : Value → Except RubyError StreamIDComponents
  | .str val => .ok (c.splitHost val)
  | _ => .error (.noMethod "index")

/-- `set(key, val)` -/
def set (c : StreamIDComponents) (key : Key) (val : Value) : Except RubyError StreamIDComponents :=
  match Field.ofName key.toS with
  | some .resourceName => .ok { c with resourceName := val }
  | some .userName => .ok { c with userName := val }
  | some .mode =>
    if val.toS ∈ modes then val.toSym.map fun m => { c with mode := m } else .ok c
  | some .hostName => c.setHost val
  | some .type =>
    if val.toS ∈ types then val.toSym.map fun t => { c with type := t } else .ok c
  | some .sessionid => .ok { c with sessionid := val }
  | none => .ok { c with extra := c.extra.aset key val }

/-- `merge_str!(streamid)` -/
def mergeStr (c : StreamIDComponents) (streamid : RString) :
    Except RubyError StreamIDComponents :=
  (scan pairRegexp streamid).foldlM (fun c p => c.set (.str p.1) (.str p.2)) c

/-- `merge_hash!(hash)` -/
def mergeHash (c : StreamIDComponents) (hash : OrderedHash Key Value) :
    Except RubyError StreamIDComponents :=
  hash.entries.foldlM (fun c p => c.set p.1 p.2) c

end StreamIDComponents

/-! ### The URI library -/

/-- The parts of a parsed URI that are read. -/
structure URI where
  hostname : Option RString
  path : Option RString
  query : Option RString
deriving DecidableEq

/-- Ruby's URI library: `str =~ URI::regexp`, `URI(str)` and `URI.decode_www_form(str)`. -/
structure URILib where
  regexp : RString → Bool
  uri : RString → Except RubyError URI
  decodeWwwForm : RString → Except RubyError (List (RString × RString))

namespace StreamIDComponents

/-- `Hash[form]` -/
def hashOfForm (form : List (RString × RString)) : OrderedHash Key Value :=
  .ofPairs (form.map fun p => (.str p.1, .str p.2))

/-- `merge_uri!(uri)` -/
def mergeUri (lib : URILib) (c : StreamIDComponents) (uri : URI) :
    Except RubyError StreamIDComponents := do
  let c := { c with hostName := .ofSlice uri.hostname }
  let c := match uri.path with
    | some path => { c with resourceName := .ofSlice (slice path 1 (-1)) }
    | none => c
  match uri.query with
  | some query => do
    let form ← lib.decodeWwwForm query
    c.mergeHash (hashOfForm form)
  | none => .ok c

/-- What the constructor is called with. -/
inductive Arg
  | hash (h : OrderedHash Key Value)
  | value (v : Value)

/-- `StreamIDComponents.new(arg)`; no argument is the argument `nil`. -/
def new (lib : URILib) : Arg → Except RubyError StreamIDComponents
  | .value .nil => .ok fresh
  | .hash h => fresh.mergeHash h
  | .value v =>
    let streamid := v.toS
    if header.isPrefixOf streamid then fresh.mergeStr streamid
    else if lib.regexp streamid then do
      let uri ← lib.uri streamid
      fresh.mergeUri lib uri
    else .ok { fresh with resourceName := .str streamid }

/-- `StreamIDComponents.new(str)` for a String. -/
def parse (lib : URILib) (s : RString) : Except RubyError StreamIDComponents :=
  new lib (.value (.str s))

/-! ### Compiling -/

/-- One standard field of `to_s`: `vars << "r=#{resource_name}" if resource_name`. -/
def emit (name : RString) (v : Value) : List (RString × RString) :=
  if v.truthy then [(name, v.toS)] else []

/-- The keys and printed values of `to_s`, in the order they are put into `vars`. -/
def pairs (c : StreamIDComponents) : List (RString × RString) :=
  emit "r".toList c.resourceName ++ emit "u".toList c.userName ++ emit "m".toList c.mode ++
    emit "h".toList c.hostName ++ emit "t".toList c.type ++ emit "s".toList c.sessionid ++
    c.extra.entries.map fun e => (e.1.toS, e.2.toS)

/-- `"#{key}=#{val}"` -/
def printPair (p : RString × RString) : RString := p.1 ++ '=' :: p.2

/-- `to_s` -/
def toS (c : StreamIDComponents) : RString :=
  header ++ [','].intercalate (c.pairs.map printPair)

/-- One standard field of `to_h`: `h[:resource_name] = resource_name if resource_name`. -/
def store (name : RString) (v : Value) : List (Key × Value) :=
  if v.truthy then [(.sym name, v)] else []

/-- What `to_h` stores behind the custom values. -/
def fieldEntries (c : StreamIDComponents) : List (Key × Value) :=
  store "resource_name".toList c.resourceName ++ store "user_name".toList c.userName ++
    store "mode".toList c.mode ++ store "host_name".toList c.hostName ++
    store "type".toList c.type ++ store "sessionid".toList c.sessionid

/-- `to_h` -/
def toH (c : StreamIDComponents) : OrderedHash Key Value :=
  .ofPairs (c.extra.entries ++ c.fieldEntries)

/-! ### Readers and writers of custom values -/

/-- `name.to_s.match(/^(.*?)(=?)$/)`: the first line of the name, and whether the `=` at its end
was split off. -/
def matchName (name : RString) : RString × Bool :=
  let line := name.takeWhile isDot
  if line.getLast? = some '=' then (line.dropLast, true) else (line, false)

/-- `method_missing(name, *args)`: the object it leaves and what it returns. A custom value is
looked up under its String key. -/
def methodMissing (c : StreamIDComponents) (name : RString) (args : List Value) :
    StreamIDComponents × Value :=
  match c.extra.lookup (.str name) with
  | some val => (c, val)
  | none =>
    let m := matchName name
    if m.2 then ({ c with extra := c.extra.aset (.str m.1) (args.headD .nil) }, args.headD .nil)
    else (c, .nil)

end StreamIDComponents

end Rbsrt
