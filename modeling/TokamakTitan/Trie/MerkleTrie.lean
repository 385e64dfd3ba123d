import TokamakTitan.Library.HexTrie
import TokamakTitan.Trie.Reader

/-! Proofs of inclusion and exclusion in a Merkle trie, as the contracts walk them. -/
namespace Trie
open Checked Rlp RLPReader BytesUtils HexTrie

structure TrieNode where
  encoded : Bytes
  decoded : List Bytes
  deriving DecidableEq

def treeRadix : ℕ := 16

def branchNodeLength : ℕ := treeRadix + 1

def leafOrExtensionNodeLength : ℕ := 2

def prefixExtensionEven : UInt8 := 0

def prefixExtensionOdd : UInt8 := 1

def prefixLeafEven : UInt8 := 2

def prefixLeafOdd : UInt8 := 3

def rlpNull : Bytes := toBytes32 [0x80]

def parseNode (item : Bytes) : Result TrieNode := do
  let encoded ← readBytes item
  let decoded ← readList encoded
  return { encoded, decoded }

def parseProof (proof : Bytes) : Result (List TrieNode) := do
  let nodes ← readList proof
  nodes.mapM parseNode

def getNodeID (node : Bytes) : Result Bytes := do
  let nodeID ← if node.length < 32 then pure (readRawBytes node) else readBytes node
  return toBytes32 nodeID

def getNodePath (node : TrieNode) : Result Bytes := do
  let path ← readBytes (← index node.decoded 0)
  return toNibbles path

def getNodeValue (node : TrieNode) : Result Bytes := do
  let last ← pred node.decoded.length
  readBytes (← index node.decoded last)

def getSharedNibbleLength : Bytes → Bytes → ℕ
  | x :: a, y :: b => if x = y then getSharedNibbleLength a b + 1 else 0
  | _, _ => 0

structure Cursor where
  nodeID : Bytes
  keyIndex : ℕ
  keyIncrement : ℕ
  pathLength : ℕ
  deriving DecidableEq

def Cursor.start (root : Bytes) : Cursor :=
  { nodeID := root, keyIndex := 0, keyIncrement := 0, pathLength := 0 }

def Cursor.advance (cursor : Cursor) : Cursor :=
  { cursor with
    keyIndex := cursor.keyIndex + cursor.keyIncrement
    pathLength := cursor.pathLength + 1 }

inductive Visit where
  | next (cursor : Cursor)
  | stop (cursor : Cursor)
  deriving DecidableEq

section Walk

variable (keccak : HashFunction) (key : Bytes)

def checkNode (encoded : Bytes) (cursor : Cursor) : Result Unit :=
  if cursor.keyIndex = 0 then
    require (keccak encoded = cursor.nodeID) "Invalid root hash"
  else if encoded.length ≥ 32 then
    require (keccak encoded = cursor.nodeID) "Invalid large internal hash"
  else
    require (toBytes32 encoded = cursor.nodeID) "Invalid internal node hash"

variable (node : TrieNode) (cursor : Cursor)

def visitBranch : Result Visit :=
  if cursor.keyIndex = key.length then return .stop cursor
  else do
    let branchKey ← index key cursor.keyIndex
    let nextNode ← index node.decoded branchKey.toNat
    let nodeID ← getNodeID nextNode
    return .next { cursor with nodeID, keyIncrement := 1 }

def visitLeafOrExtension : Result Visit := do
  let path ← getNodePath node
  let first ← index path 0
  let offset := 2 - first.toNat % 2
  let pathRemainder := slice path offset
  let keyRemainder := slice key cursor.keyIndex
  let sharedNibbleLength := getSharedNibbleLength pathRemainder keyRemainder
  if first = prefixLeafEven ∨ first = prefixLeafOdd then
    let keyIndex :=
      if pathRemainder.length = sharedNibbleLength ∧ keyRemainder.length = sharedNibbleLength then
        cursor.keyIndex + sharedNibbleLength
      else cursor.keyIndex
    return .stop { cursor with nodeID := rlpNull, keyIndex }
  else if first = prefixExtensionEven ∨ first = prefixExtensionOdd then
    if sharedNibbleLength ≠ pathRemainder.length then
      return .stop { cursor with nodeID := rlpNull }
    else
      let nodeID ← getNodeID (← index node.decoded 1)
      return .next { cursor with nodeID, keyIncrement := sharedNibbleLength }
  else throw (.reason "Received a node with an unknown prefix")

def visit : Result Visit := do
  checkNode keccak node.encoded cursor.advance
  if node.decoded.length = branchNodeLength then visitBranch key node cursor.advance
  else if node.decoded.length = leafOrExtensionNodeLength then
    visitLeafOrExtension key node cursor.advance
  else throw (.reason "Received an unparseable node.")

def walk : List TrieNode → Cursor → Result Cursor
  | [], cursor => .ok cursor
  | node :: rest, cursor => do
    match ← visit keccak key node cursor with
    | .next cursor => walk rest cursor
    | .stop cursor => return cursor

end Walk

variable (keccak : HashFunction)

def walkNodePath (proof : List TrieNode) (key root : Bytes) : Result (ℕ × Bytes × Bool) := do
  let nibbles := toNibbles key
  let cursor ← walk keccak nibbles proof (Cursor.start root)
  return (cursor.pathLength, slice nibbles cursor.keyIndex, decide (cursor.nodeID = rlpNull))

def get (key proof root : Bytes) : Result (Bool × Bytes) := do
  let nodes ← parseProof proof
  let (pathLength, keyRemainder, isFinalNode) ← walkNodePath keccak nodes key root
  if keyRemainder.length = 0 then
    let last ← pred pathLength
    let value ← getNodeValue (← index nodes last)
    return (true, value)
  else
    require isFinalNode "Provided proof is invalid."
    return (false, [])

def verifyInclusionProof (key value proof root : Bytes) : Result Bool := do
  let (found, stored) ← get keccak key proof root
  return found && equal keccak value stored

namespace Secure

def getSecureKey (key : Bytes) : Bytes := keccak key

def get (key proof root : Bytes) : Result (Bool × Bytes) :=
  Trie.get keccak (getSecureKey keccak key) proof root

def verifyInclusionProof (key value proof root : Bytes) : Result Bool :=
  Trie.verifyInclusionProof keccak (getSecureKey keccak key) value proof root

end Secure

end Trie
