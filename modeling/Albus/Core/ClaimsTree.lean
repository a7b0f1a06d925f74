import Albus.Core.Smt
import Albus.Lib.Bytes

/-! # The claims tree of `credential/tree.ts`

    A credential's claims are flattened to a list of names and texts; a claim's key
    in the sparse Merkle tree is the position of its name.  The names themselves
    enter no hash.

    A JavaScript value that is not an object enters as its text `String(value)`,
    which is all that is read of it.  Parsing a date is the parameter `unixTs`, the
    text of `w3cDateToUnixTs`. -/

namespace Albus.Core

open Albus.Lib

/-! ## Objects -/

mutual

inductive JsValue where
  | scalar (text : String)
  | null
  | object (props : JsProps)

/-- `Object.entries` of an object. -/
inductive JsProps where
  | nil
  | cons (key : String) (value : JsValue) (rest : JsProps)

end

/-- `{ ...obj, [key]: value }` for a key that is no array index. -/
def JsProps.set (key : String) (value : JsValue) : JsProps → JsProps
  | .nil => .cons key value .nil
  | .cons key' value' rest =>
    if key' = key then .cons key value rest else .cons key' value' (rest.set key value)

/-- The number of a property name that is an array index. -/
def arrayIndex (key : String) : Option ℕ :=
  let digits := key.toList
  if digits.all Char.isDigit ∧ digits ≠ [] ∧ (digits.length = 1 ∨ digits.head? ≠ some '0')
  then
    let n := digits.foldl (fun n c => 10 * n + (c.toNat - 48)) 0
    if n < 2 ^ 32 - 1 then some n else none
  else none

/-- A property before which the array index `n` is placed comes after it. -/
def precedes (n : ℕ) (p : String × String) : Bool :=
  match arrayIndex p.1 with
  | some n' => n' < n
  | none => false

/-- `res[key] = value`: array indices come first, in order, then the other names in
    the order they were set.  A text is no prototype, so setting one does nothing. -/
def setProp (res : List (String × String)) (key value : String) :
    List (String × String) :=
  if key = "__proto__" then res
  else if key ∈ res.map Prod.fst then
    res.map fun p => if p.1 = key then (key, value) else p
  else
    match arrayIndex key with
    | some n => res.takeWhile (precedes n) ++ (key, value) :: res.dropWhile (precedes n)
    | none => res ++ [(key, value)]

/-! ## Poseidon.hashBytes -/

def SPONGE_INPUTS : ℕ := 16

def SPONGE_CHUNK_SIZE : ℕ := 31

structure Sponge where
  inputs : List ℕ
  k : ℕ
  dirty : Bool
  hash : Option ℕ

section Hash

variable (permute : List ℕ → ℕ)

/-- The body of the loop of `hashBytesX`, on one chunk. -/
def Sponge.absorb (frameSize : ℕ) (st : Sponge) (chunk : List UInt8) : Sponge :=
  let inputs := st.inputs.set st.k (beNat chunk)
  if st.k = frameSize - 1 then
    let hash := Poseidon.hash permute inputs
    { inputs := hash :: List.replicate (frameSize - 1) 0
      k := 1
      dirty := false
      hash := some hash }
  else
    { st with inputs := inputs, k := st.k + 1, dirty := true }

/-- `hashBytesX`; `none` is the undefined result on an empty message. -/
def Poseidon.hashBytesX (msg : List UInt8) (frameSize : ℕ) : Option ℕ :=
  let n := msg.length / SPONGE_CHUNK_SIZE
  let chunks := (List.range n).map fun i =>
    (msg.drop (SPONGE_CHUNK_SIZE * i)).take SPONGE_CHUNK_SIZE
  let st := chunks.foldl (Sponge.absorb permute frameSize)
    ⟨List.replicate frameSize 0, 0, false, none⟩
  if msg.length % SPONGE_CHUNK_SIZE ≠ 0 then
    let slice := msg.drop (SPONGE_CHUNK_SIZE * n)
    let buff := slice ++ List.replicate (SPONGE_CHUNK_SIZE - slice.length) 0
    some (Poseidon.hash permute (st.inputs.set st.k (beNat buff)))
  else if st.dirty then some (Poseidon.hash permute st.inputs)
  else st.hash

def Poseidon.hashBytes (msg : List UInt8) : Option ℕ :=
  hashBytesX permute msg SPONGE_INPUTS

end Hash

/-! ## ClaimValue -/

inductive TreeError where
  | smt (e : SmtError)
  /-- `Object.entries(null)`. -/
  | typeError
  /-- `BigInt('0x')`. -/
  | syntaxError
  deriving DecidableEq

/-- A value given to `add`, and `opts.hash`. -/
inductive ClaimValue where
  | claim (text : String) (hash : Bool)
  | nested (value : ClaimValue) (hash : Bool)

/-- `bytesToBigInt`. -/
def bytesToBigInt (bytes : List UInt8) : Except TreeError ℕ :=
  if bytes = [] then .error .syntaxError else .ok (beNat bytes)

def ClaimValue.encode (permute : List ℕ → ℕ) : ClaimValue → Except TreeError ℕ
  | .nested value _ => value.encode permute
  | .claim text hash =>
    let bytes := text.toUTF8.data.toList
    if hash ∨ 32 < bytes.length then .ok ((Poseidon.hashBytes permute bytes).getD 0)
    else bytesToBigInt bytes

/-- The object that `flattenObject` takes a `ClaimValue` for. -/
def ClaimValue.toProps (text : String) (hash : String) : JsValue :=
  .object (.cons "value" (.scalar text)
    (.cons "opts" (.object (.cons "hash" (.scalar hash) .nil)) .nil))

/-! ## flattenObject -/

mutual

/-- The value of the property `k`: a scalar is set, an object flattened under it. -/
def flattenValue (res : List (String × String)) (k : String) :
    JsValue → Except TreeError (List (String × String))
  | .scalar text => .ok (setProp res k text)
  | .null => .error .typeError
  | .object props =>
    (flattenObject k [] props).map fun inner =>
      inner.foldl (fun res p => setProp res p.1 p.2) res

/-- `flattenObject`, with the result so far. -/
def flattenObject (parentKey : String) (res : List (String × String)) :
    JsProps → Except TreeError (List (String × String))
  | .nil => .ok res
  | .cons key value rest =>
    let k := if parentKey = "" then key else parentKey ++ "." ++ key
    match flattenValue res k value with
    | .ok res' => flattenObject parentKey res' rest
    | .error e => .error e

end

/-! ## ClaimsTree -/

def DEFAULT_TREE_DEPTH : ℕ := 5

/-- `depth` is `opts?.depth`. -/
structure ClaimsTree where
  depth : Option ℕ
  smt : SMT
  keys : List String

/-- What `get` returns. -/
structure ClaimProof where
  found : Bool
  key : ℕ
  value : ℕ
  siblings : List ℕ

namespace ClaimsTree

def new (depth : Option ℕ) : ClaimsTree := ⟨depth, SMT.new, []⟩

def treeDepth (tree : ClaimsTree) : ℕ := tree.depth.getD DEFAULT_TREE_DEPTH

def root (tree : ClaimsTree) : ℕ := tree.smt.root

/-- `BigInt(this.keys.indexOf(k))`. -/
def encodeKey (tree : ClaimsTree) (k : String) : ℤ :=
  if k ∈ tree.keys then tree.keys.idxOf k else -1

def get (tree : ClaimsTree) (key : String) : Except TreeError ClaimProof :=
  match tree.smt.get (tree.encodeKey key) with
  | .ok proof => .ok
      { found := proof.found
        key := proof.key
        value := proof.value
        siblings := proof.siblings ++
          List.replicate (tree.treeDepth - proof.siblings.length) 0 }
  | .error e => .error (.smt e)

section Hash

variable (permute : List ℕ → ℕ)

def encodeValue (text : String) : Except TreeError ℕ :=
  ClaimValue.encode permute (.claim text false)

/-- `add`: the key is pushed first, so its position is a number. -/
def add (tree : ClaimsTree) (key text : String) : Except TreeError ClaimsTree :=
  let tree := { tree with keys := tree.keys ++ [key] }
  match encodeValue permute text with
  | .error e => .error e
  | .ok value =>
    match SMT.add permute tree.smt (tree.encodeKey key).toNat value with
    | .ok (smt, _) => .ok { tree with smt := smt }
    | .error e => .error (.smt e)

/-- The loop of `from`, over the flattened claims. -/
def addAll : ClaimsTree → List (String × String) → Except TreeError ClaimsTree
  | tree, [] => .ok tree
  | tree, (key, text) :: claims =>
    match add permute tree key text with
    | .ok tree' => addAll tree' claims
    | .error e => .error e

end Hash

end ClaimsTree

/-! ## createCredentialTree -/

inductive CredentialIssuer where
  | text (issuer : String)
  | object (id : Option String)

/-- The fields of a `W3CCredential` that the tree is made of.  A `type` that is one
    string is read as the list of its characters. -/
structure W3CCredential where
  issuer : CredentialIssuer
  validUntil : Option String
  validFrom : Option String
  issuanceDate : Option String
  type : List String
  credentialSubject : JsProps

def DEFAULT_VC_TYPE : String := "VerifiableCredential"

def CredentialType.AlbusCredential : String := "AlbusCredential"

namespace W3CCredential

/-- A date's text, when it is given and not empty. -/
def date (unixTs : String → String) : Option String → Option String
  | some d => if d = "" then none else some (unixTs d)
  | none => none

def issuerId (credential : W3CCredential) : String :=
  match credential.issuer with
  | .text issuer => issuer
  | .object id => id.getD ""

/-- `meta`. -/
def metaProps (unixTs : String → String) (credential : W3CCredential) : JsProps :=
  let validUntil := (date unixTs credential.validUntil).getD "0"
  let validFrom := ((date unixTs credential.validFrom).or
    (date unixTs credential.issuanceDate)).getD "0"
  let type := credential.type.getLast?
  let typeProps : JsProps :=
    if type = some DEFAULT_VC_TYPE ∨ type = some CredentialType.AlbusCredential then .nil
    else .cons "type" (ClaimValue.toProps (type.getD "undefined") "true") .nil
  let props : JsProps :=
    .cons "validUntil" (.scalar validUntil)
      (.cons "validFrom" (.scalar validFrom) typeProps)
  if credential.issuerId = "" then props
  else .cons "issuer" (ClaimValue.toProps credential.issuerId "true") props

/-- The names and texts of a credential's claims, in the order they are added. -/
def claims (unixTs : String → String) (credential : W3CCredential) :
    Except TreeError (List (String × String)) :=
  flattenObject "" []
    (credential.credentialSubject.set "meta" (.object (credential.metaProps unixTs)))

end W3CCredential

/-- `createCredentialTree`. -/
def createCredentialTree (permute : List ℕ → ℕ) (unixTs : String → String)
    (credential : W3CCredential) (depth : Option ℕ) : Except TreeError ClaimsTree :=
  match credential.claims unixTs with
  | .ok claims => (ClaimsTree.new depth).addAll permute claims
  | .error e => .error e

end Albus.Core
