import Albus.Core.F1Field
import Mathlib.Data.List.DropRight
import Mathlib.Data.Nat.Digits.Defs

/-! # The sparse Merkle tree of `crypto/smt.ts`

    Nodes live in a store under their hash: a leaf as `[1, key, value]`, an inner
    node as `[left, right]`.  The mutators walk the siblings that `_find` returns
    from the last to the first, collect the nodes to insert and the hashes to
    delete, and hand them to the store at the end.

    Numbers are naturals; only the argument of `get` may be negative.  The rounds
    of Poseidon, with the constants they read from a table, are the parameter
    `permute`. -/

namespace Albus.Core

/-- `Scalar.bits`, low bits first. -/
def Scalar.bits (n : ℕ) : List ℕ := Nat.digits 2 n

/-- `Poseidon.hash`, on one to sixteen inputs. -/
def Poseidon.hash (permute : List ℕ → ℕ) (inputs : List ℕ) : ℕ :=
  F1Field.normalize (permute (inputs.map fun a : ℕ => F1Field.e a))

/-! ## SMTMemDb -/

/-- `nodes` is keyed by `_key2str` of the hash. -/
structure SMTMemDb where
  root : ℕ
  nodes : ℤ → Option (List ℕ)

namespace SMTMemDb

def new : SMTMemDb := ⟨0, fun _ => none⟩

def key2str (k : ℕ) : ℤ := F1Field.toString k

def normalize (n : List ℕ) : List ℕ := n.map fun a : ℕ => F1Field.e a

def get (db : SMTMemDb) (key : ℕ) : Option (List ℕ) := db.nodes (key2str key)

def setRoot (db : SMTMemDb) (newRoot : ℕ) : SMTMemDb := { db with root := newRoot }

def ins (db : SMTMemDb) (insert : ℕ × List ℕ) : SMTMemDb :=
  { db with
    nodes := Function.update db.nodes (key2str insert.1) (some (normalize insert.2)) }

def multiIns (db : SMTMemDb) (inserts : List (ℕ × List ℕ)) : SMTMemDb :=
  inserts.foldl ins db

def del (db : SMTMemDb) (key : ℕ) : SMTMemDb :=
  { db with nodes := Function.update db.nodes (key2str key) none }

def multiDel (db : SMTMemDb) (keys : List ℕ) : SMTMemDb := keys.foldl del db

end SMTMemDb

/-! ## SMT -/

structure FindFromSmtResponse where
  found : Bool
  key : ℕ
  value : ℕ
  siblings : List ℕ
  isOld0 : Bool
  deriving DecidableEq

structure AddIntoSmtResponse where
  oldRoot : ℕ
  oldKey : ℕ
  oldValue : ℕ
  siblings : List ℕ
  newRoot : ℕ
  isOld0 : Bool

structure UpdateSmtResponse where
  oldRoot : ℕ
  oldKey : ℕ
  oldValue : ℕ
  newKey : ℕ
  newValue : ℕ
  siblings : List ℕ
  newRoot : ℕ

structure DeleteFromSmtResponse where
  oldRoot : ℕ
  oldKey : ℕ
  oldValue : ℕ
  delKey : ℕ
  delValue : ℕ
  siblings : List ℕ
  newRoot : ℕ
  isOld0 : Bool

/-- How a call can end without a result. -/
inductive SmtError where
  /-- `throw new Error(message)`. -/
  | error (message : String)
  /-- A property of an undefined record is read. -/
  | typeError
  /-- The loop or the recursion does not end. -/
  | diverges
  deriving DecidableEq

/-- What a mutator hands to the store, with its response. -/
structure Plan (ρ : Type) where
  inserts : List (ℕ × List ℕ)
  deletes : List ℕ
  newRoot : ℕ
  response : ρ

structure SMT where
  db : SMTMemDb
  root : ℕ

namespace SMT

def new : SMT := ⟨SMTMemDb.new, SMTMemDb.new.root⟩

def getBits (key : ℕ) : List ℕ :=
  Scalar.bits key ++ List.replicate (256 - (Scalar.bits key).length) 0

/-- `_find`.  `fuel` bounds the recursion: with 257 it may go through all the bits
    of a key, and one step further.  No record has fewer than two entries. -/
def find (db : SMTMemDb) (key : ℕ) (keyBits : List ℕ) :
    ℕ → ℕ → ℕ → Except SmtError FindFromSmtResponse
  | 0, _, _ => .error .diverges
  | fuel + 1, root, level =>
    if root = 0 then
      .ok ⟨false, key, 0, [], true⟩
    else
      match db.get root with
      | none => .error .typeError
      | some [1, k, v] => .ok ⟨k = key, if k = key then key else k, v, [], false⟩
      | some (left :: right :: _) =>
        let (child, sibling) :=
          if keyBits[level]? = some 0 then (left, right) else (right, left)
        (find db key keyBits fuel child (level + 1)).map fun res =>
          { res with siblings := sibling :: res.siblings }
      | some _ => .error .typeError

def get (smt : SMT) (k : ℤ) : Except SmtError FindFromSmtResponse :=
  find smt.db (F1Field.e k) (getBits (F1Field.e k)) 257 smt.root 0

/-- `[sibling, x]` or `[x, sibling]`, as `keyBits[level]` says. -/
def place (keyBits : List ℕ) (level x sibling : ℕ) : List ℕ :=
  if keyBits.getD level 0 ≠ 0 then [sibling, x] else [x, sibling]

section Hash

variable (permute : List ℕ → ℕ)

/-- `hash0`, of both children. -/
def hash0 (node : List ℕ) : ℕ := Poseidon.hash permute node

def hash1 (key value : ℕ) : ℕ := Poseidon.hash permute [key, value, 1]

/-! ### update -/

structure UpdateLoop where
  rtOld : ℕ
  newRoot : ℕ
  inserts : List (ℕ × List ℕ)
  deletes : List ℕ

/-- The body of the loop of `update`. -/
def updateLevel (keyBits : List ℕ) (step : ℕ × ℕ) (st : UpdateLoop) : UpdateLoop :=
  let (sibling, level) := step
  let oldNode := place keyBits level st.rtOld sibling
  let newNode := place keyBits level st.newRoot sibling
  let rtOld := hash0 permute oldNode
  let newRoot := hash0 permute newNode
  { rtOld := rtOld
    newRoot := newRoot
    inserts := st.inserts ++ [(newRoot, newNode)]
    deletes := st.deletes ++ [rtOld] }

/-- `update`, up to its writes. -/
def updatePlan (smt : SMT) (key newValue : ℕ) :
    Except SmtError (Plan UpdateSmtResponse) := do
  let resFind ← smt.get key
  let rtOld := hash1 permute key resFind.value
  let newRoot := hash1 permute key newValue
  let st := resFind.siblings.zipIdx.foldr (updateLevel permute (getBits key))
    { rtOld := rtOld
      newRoot := newRoot
      inserts := [(newRoot, [1, key, newValue])]
      deletes := [rtOld] }
  return {
    inserts := st.inserts
    deletes := st.deletes
    newRoot := st.newRoot
    response := {
      oldRoot := smt.root
      oldKey := key
      oldValue := resFind.value
      newKey := key
      newValue := newValue
      siblings := resFind.siblings
      newRoot := st.newRoot } }

def update (smt : SMT) (key newValue : ℕ) :
    Except SmtError (SMT × UpdateSmtResponse) := do
  let plan ← updatePlan permute smt key newValue
  let db := ((smt.db.multiDel plan.deletes).multiIns plan.inserts).setRoot plan.newRoot
  return (⟨db, plan.newRoot⟩, plan.response)

/-! ### delete -/

structure DeleteLoop where
  oldRoot : ℕ
  newRoot : ℕ
  mixed : Bool
  siblings : List ℕ
  inserts : List (ℕ × List ℕ)
  deletes : List ℕ

/-- The body of the loop of `delete`, over `n` siblings. -/
def deleteLevel (keyBits : List ℕ) (n : ℕ) (isOld0 : Bool) (step : ℕ × ℕ)
    (st : DeleteLoop) : DeleteLoop :=
  let (sibling, level) := step
  let newSibling := if level + 1 = n ∧ ¬ isOld0 then 0 else sibling
  let oldRoot := hash0 permute (place keyBits level st.oldRoot sibling)
  let mixed := if newSibling ≠ 0 then true else st.mixed
  let newNode := place keyBits level st.newRoot newSibling
  let newRoot := hash0 permute newNode
  if mixed then
    { oldRoot := oldRoot
      newRoot := newRoot
      mixed := mixed
      siblings := sibling :: st.siblings
      inserts := st.inserts ++ [(newRoot, newNode)]
      deletes := st.deletes ++ [oldRoot] }
  else
    { st with oldRoot := oldRoot, mixed := mixed, deletes := st.deletes ++ [oldRoot] }

/-- What `delete` reads off the last sibling: `mixed`, `oldKey`, `oldValue`,
    `isOld0` and the first `newRoot`. -/
def lastSibling (smt : SMT) (key : ℕ) (siblings : List ℕ) :
    Except SmtError (Bool × ℕ × ℕ × Bool × ℕ) :=
  match siblings.getLast? with
  | none => .ok (false, key, 0, true, 0)
  | some sibling =>
    match smt.db.get sibling with
    | none => .error .typeError
    | some [one, k, v] =>
      if one = 1 then .ok (false, k, v, false, sibling)
      else .error (.error "Invalid node. Database corrupted")
    | some [_, _] => .ok (true, key, 0, true, 0)
    | some _ => .error (.error "Invalid node. Database corrupted")

/-- `delete`, up to its writes. -/
def deletePlan (smt : SMT) (key : ℕ) :
    Except SmtError (Plan DeleteFromSmtResponse) := do
  let resFind ← smt.get key
  if ¬ resFind.found then
    throw (.error "Key does not exists")
  let oldRoot := hash1 permute key resFind.value
  let (mixed, oldKey, oldValue, isOld0, newRoot) ← lastSibling smt key resFind.siblings
  let st := resFind.siblings.zipIdx.foldr
    (deleteLevel permute (getBits key) resFind.siblings.length isOld0)
    { oldRoot := oldRoot
      newRoot := newRoot
      mixed := mixed
      siblings := []
      inserts := []
      deletes := [oldRoot] }
  return {
    inserts := st.inserts
    deletes := st.deletes
    newRoot := st.newRoot
    response := {
      oldRoot := st.oldRoot
      oldKey := oldKey
      oldValue := oldValue
      delKey := key
      delValue := resFind.value
      siblings := st.siblings
      newRoot := st.newRoot
      isOld0 := isOld0 } }

def delete (smt : SMT) (key : ℕ) : Except SmtError (SMT × DeleteFromSmtResponse) := do
  let plan ← deletePlan permute smt key
  let db := ((smt.db.multiIns plan.inserts).setRoot plan.newRoot).multiDel plan.deletes
  return (⟨db, plan.newRoot⟩, plan.response)

/-! ### add -/

structure AddLoop where
  oldRoot : ℕ
  root : ℕ
  mixed : Bool
  inserts : List (ℕ × List ℕ)
  deletes : List ℕ

/-- The zeros pushed for the bits both keys share from level `i` on.  Past their
    256 bits both are undefined, and the loop would not end. -/
def sharedBits (oldKeyBits newKeyBits : List ℕ) : ℕ → ℕ → Except SmtError (List ℕ)
  | 0, _ => .error .diverges
  | fuel + 1, i =>
    if oldKeyBits[i]? = newKeyBits[i]? then
      (sharedBits oldKeyBits newKeyBits fuel (i + 1)).map (0 :: ·)
    else .ok []

/-- The body of the loop of `add`, over `n` siblings. -/
def addLevel (newKeyBits : List ℕ) (n : ℕ) (step : ℕ × ℕ) (st : AddLoop) : AddLoop :=
  let (sibling, i) := step
  let mixed := if i + 1 < n ∧ sibling ≠ 0 then true else st.mixed
  let oldRoot :=
    if mixed then hash0 permute (place newKeyBits i st.oldRoot sibling) else st.oldRoot
  let node := place newKeyBits i st.root sibling
  let newRoot := hash0 permute node
  { oldRoot := oldRoot
    root := newRoot
    mixed := mixed
    inserts := st.inserts ++ [(newRoot, node)]
    deletes := if mixed then st.deletes ++ [oldRoot] else st.deletes }

/-- The siblings that `add` walks, the first `oldRoot` and the first `mixed`: a leaf
    found in the key's place is pushed down past the bits it shares with it. -/
def addStart (resFind : FindFromSmtResponse) (key : ℕ) :
    Except SmtError (List ℕ × ℕ × Bool) :=
  if ¬ resFind.isOld0 then do
    let zeros ← sharedBits (getBits resFind.key) (getBits key) 257
      resFind.siblings.length
    let oldRoot := hash1 permute resFind.key resFind.value
    return (resFind.siblings ++ zeros ++ [oldRoot], oldRoot, false)
  else
    return (resFind.siblings, 0, 0 < resFind.siblings.length)

/-- `add`, up to its writes. -/
def addPlan (smt : SMT) (key value : ℕ) :
    Except SmtError (Plan AddIntoSmtResponse) := do
  let resFind ← smt.get key
  if resFind.found then
    throw (.error "Key already exists")
  let (siblings, oldRoot, mixed) ← addStart permute resFind key
  let root := hash1 permute key value
  let st := siblings.zipIdx.foldr (addLevel permute (getBits key) siblings.length)
    { oldRoot := oldRoot
      root := root
      mixed := mixed
      inserts := [(root, [1, key, value])]
      deletes := [] }
  let popped := if ¬ resFind.isOld0 then siblings.dropLast else siblings
  return {
    inserts := st.inserts
    deletes := st.deletes
    newRoot := st.root
    response := {
      oldRoot := smt.root
      oldKey := resFind.key
      oldValue := resFind.value
      siblings := popped.rdropWhile (· = 0)
      newRoot := st.root
      isOld0 := resFind.isOld0 } }

def add (smt : SMT) (key value : ℕ) : Except SmtError (SMT × AddIntoSmtResponse) := do
  let plan ← addPlan permute smt key value
  let db := ((smt.db.multiIns plan.inserts).setRoot plan.newRoot).multiDel plan.deletes
  return (⟨db, plan.newRoot⟩, plan.response)

end Hash

end SMT

end Albus.Core
