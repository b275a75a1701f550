import AuroraChain.Trie.Map
import AuroraChain.Lib.BigEndian
import AuroraChain.Rlp.Item
/-!
# Merkle proofs

`Trie.Prove` walks the path of a key from the root, resolving hash nodes, and writes each node on
the path that its parent stores by hash, and the root, into a proof database under its hash.
`VerifyProof` starts from a root hash, fetches the node stored under it, follows it along the key
with `get`, and goes on with the hash node it reaches, until it reaches a value or nothing.

A collapsed node is encoded as the RLP item its `EncodeRLP` writes (`encodeNode`); `decodeNode`
and Keccak-256 are parameters (`NodeCodec`). The hasher's decisions are modelled over them: which
children are collapsed into their parent, which nodes are replaced by their hash (`store`), and
which hashes are cached.

The empty trie has no node on any path. `Prove` writes nothing for it, and `VerifyProof` of its
hash, `emptyRoot`, finds no node under that hash and reports the proof node missing
(`prove_empty_trie_unverifiable`), where the trie answers that it holds no value.
-/

namespace AuroraChain.Trie

/-- What a proof uses besides the encoder: `decodeNode(hash, buf, 0)` with its error text, and
Keccak-256. -/
structure NodeCodec where
  decode : List UInt8 → List UInt8 → Except String Node
  keccak : List UInt8 → List UInt8

/-- The RLP item of a node: `fullNode.EncodeRLP` writes its seventeen children as a list, a
`shortNode` is the list of its exported fields `Key` and `Val`, a hash or value node is its bytes,
and a nil child, an interface holding nil, is written as the empty list. -/
def nodeItem : Node → Rlp.Item
  | .nil => .list []
  | .full cs _ => .list (List.ofFn fun i => nodeItem (cs i))
  | .short k v _ => .list [.str k, nodeItem v]
  | .hash h => .str h
  | .value v => .str v

/-- `rlp.EncodeToBytes` of a collapsed node. -/
def encodeNode (n : Node) : List UInt8 := (nodeItem n).encode

/-- `emptyRoot`, what `Trie.Hash` gives for the empty trie. -/
def emptyRoot : List UInt8 :=
  BigEndian.toBytes 32 0x56e81f171bcc55a6ff8345e692c0f86e5b48e01b996cadc001622fb5e363b421

/-- The hash a node has cached: `n.cache()` (value and hash nodes have none). -/
def Node.cachedHash : Node → Option (List UInt8)
  | .full _ f | .short _ _ f => f.hash
  | _ => none

/-- The bytes of a hash node: `hashed.(hashNode)`. -/
def Node.hashBytes : Node → Option (List UInt8)
  | .hash h => some h
  | _ => none

/-- A full or short node with its cached hash set. -/
def Node.withHash (h : Option (List UInt8)) : Node → Node
  | .full cs f => .full cs { f with hash := h }
  | .short k v f => .short k v { f with hash := h }
  | n => n

/-! ### The hasher, without a database -/

section Hasher

variable (c : NodeCodec)

/-- `hasher.store(n, nil, force)`: a node whose encoding is 32 bytes or more, and any node when
`force`, is replaced by its hash, the cached one if there is one. -/
def store (n : Node) (force : Bool) : Node :=
  match n with
  | .nil | .hash _ => n
  | _ =>
      let enc := encodeNode n
      if enc.length < 32 ∧ force = false then n
      else .hash (n.cachedHash.getD (c.keccak enc))

/-- What `hasher.hash(n, nil, force)` makes of `n`, given what `hashChildren` made of it: a node
with a cached hash is that hash; any other is stored, and the stored hash cached. -/
def hashOf (force : Bool) (n : Node) (children : Node × Node) : Node × Node :=
  match n.cachedHash with
  | some h => (.hash h, n)
  | none =>
      let stored := store c children.1 force
      (stored, children.2.withHash stored.hashBytes)

/-- `hasher.hashChildren(n, nil)`: the node collapsed (children hashed or embedded, keys in compact
form, nil children as empty values) and the node with its children's hashes cached. A value
below a short node is left as it is. -/
def hashChildren : Node → Node × Node
  | .short k v f =>
      let hv : Node × Node :=
        match v with
        | .value _ => (v, v)
        | _ => hashOf c false v (hashChildren v)
      (.short (hexToCompact k) (if hv.1.isNil then .value [] else hv.1) f, .short k hv.2 f)
  | .full cs f =>
      let hashed (i : Fin 17) : Node × Node :=
        if i = 16 ∨ (cs i).isNil then (cs i, cs i)
        else hashOf c false (cs i) (hashChildren (cs i))
      (.full (fun i => if (hashed i).1.isNil then .value [] else (hashed i).1) f,
        .full (fun i => (hashed i).2) f)
  | n => (n, n)

def hash (force : Bool) (n : Node) : Node × Node := hashOf c force n (hashChildren c n)

/-- `Trie.Hash`: `emptyRoot` for the empty trie, the forced hash of the root otherwise. -/
def trieHash (root : Node) : List UInt8 :=
  match root with
  | .nil => emptyRoot
  | _ => ((hash c true root).1.hashBytes).getD []

end Hasher

/-! ### `Prove` -/

/-- A proof database, newest write first: `Put` in front, `Get` of the first entry under a key. -/
abbrev ProofDb := List (List UInt8 × List UInt8)

/-- The collecting loop of `Prove`: the nodes on the path of the rest of the hex key, resolving hash
nodes (`resolveHash(n, nil)`) on the way. A short node the key leaves is the last one. -/
def proveNodes (resolve : Resolver) : Nat → Node → List UInt8 → Except TrieError (List Node)
  | 0, _, _ => .error .outOfFuel
  | fuel + 1, tn, key =>
      -- `for len(key) > 0 && tn != nil`
      if key = [] ∨ tn.isNil then .ok []
      else
        match tn with
        | .short nkey val f =>
            if key.length < nkey.length ∨ nkey ≠ key.take nkey.length then .ok [.short nkey val f]
            else (proveNodes resolve fuel val (key.drop nkey.length)).map (.short nkey val f :: ·)
        | .full cs f =>
            match key.head?.bind slot with
            | some s => (proveNodes resolve fuel (cs s) key.tail).map (.full cs f :: ·)
            | none => .error (.runtime .sliceOutOfRange)
        | .hash h => (resolve h []).bind fun n => proveNodes resolve fuel n key
        | _ => .error .invalidNode

/-- The writes of `Prove` for the nodes on the path: each collapsed, and written under its hash
when its parent stores it by hash or it is the root, once the first `fromLevel` such nodes are
skipped. -/
def proofElems (c : NodeCodec) : List Node → Bool → Nat → ProofDb
  | [], _, _ => []
  | n :: rest, isRoot, fromLevel =>
      let collapsed := (hashChildren c n).1
      let hn := store c collapsed false
      if hn.hashBytes.isSome ∨ isRoot then
        if 0 < fromLevel then proofElems c rest false (fromLevel - 1)
        else
          let enc := encodeNode collapsed
          (hn.hashBytes.getD (c.keccak enc), enc) :: proofElems c rest false fromLevel
      else proofElems c rest false fromLevel

/-- `Trie.Prove(key, fromLevel, proofDb)`: the proof database after the writes, the later writes
in front. -/
def prove (c : NodeCodec) (resolve : Resolver) (fuel : Nat) (root : Node) (key : List UInt8)
    (fromLevel : Nat) (db : ProofDb) : Except TrieError ProofDb :=
  (proveNodes resolve fuel root (keybytesToHex key)).map fun nodes =>
    (proofElems c nodes true fromLevel).reverse ++ db

/-! ### `VerifyProof` -/

/-- `get(tn, key)`: a decoded proof node followed along the key, to the rest of the key and the
hash node to fetch next, to a value, or to nothing. -/
def get : Node → List UInt8 → Except GoPanic (List UInt8 × Node)
  | .short nkey val _, key =>
      if key.length < nkey.length ∨ nkey ≠ key.take nkey.length then .ok ([], .nil)
      else get val (key.drop nkey.length)
  | .full cs _, key =>
      match key.head?.bind slot with
      | some s => get (cs s) key.tail
      | none => .error .sliceOutOfRange
  | .hash h, key => .ok (key, .hash h)
  | .nil, key => .ok (key, .nil)
  | .value v, _ => .ok ([], .value v)

/-- Why `VerifyProof` gives up. -/
inductive ProofError where
  /-- "proof node %d (hash %064x) missing" -/
  | missing (i : Nat) (wantHash : List UInt8)
  /-- "bad proof node %d: %v" -/
  | badNode (i : Nat) (err : String)
  /-- A panic of `get`. -/
  | panic (p : GoPanic)
  /-- The model's bound on the number of proof nodes ran out. -/
  | outOfFuel
  deriving DecidableEq

/-- The loop of `VerifyProof` from proof node `i` on: the value, none when the trie does not hold
the key, or the error; and the number of nodes read. -/
def verifyLoop (c : NodeCodec) (db : ProofDb) :
    Nat → Nat → List UInt8 → List UInt8 → Except ProofError (Option (List UInt8)) × Nat
  | 0, i, _, _ => (.error .outOfFuel, i)
  | fuel + 1, i, key, wantHash =>
      match db.lookup wantHash with
      | none => (.error (.missing i wantHash), i)
      | some buf =>
          match c.decode wantHash buf with
          | .error err => (.error (.badNode i err), i)
          | .ok n =>
              match get n key with
              | .error p => (.error (.panic p), i)
              | .ok (_, .nil) => (.ok none, i)
              | .ok (keyrest, .hash h) => verifyLoop c db fuel (i + 1) keyrest h
              | .ok (_, .value v) => (.ok (some v), i + 1)
              -- no case of the type switch: the loop goes round with the same hash (`get` never
              -- stops at a full or short node)
              | .ok _ => verifyLoop c db fuel (i + 1) key wantHash

def verifyProof (c : NodeCodec) (fuel : Nat) (rootHash key : List UInt8) (db : ProofDb) :
    Except ProofError (Option (List UInt8)) × Nat :=
  verifyLoop c db fuel 0 (keybytesToHex key) rootHash

/-! ### The empty trie -/

theorem proveNodes_nil (resolve : Resolver) (fuel : Nat) (key : List UInt8) :
    proveNodes resolve (fuel + 1) .nil key = .ok [] := by
  rw [proveNodes.eq_def]
  exact if_pos (.inr rfl)

theorem verifyLoop_of_lookup_none (c : NodeCodec) {db : ProofDb} {wantHash : List UInt8}
    (h : db.lookup wantHash = none) (fuel i : Nat) (key : List UInt8) :
    verifyLoop c db (fuel + 1) i key wantHash = (.error (.missing i wantHash), i) := by
  rw [verifyLoop, h]

theorem prove_empty_trie_unverifiable (c : NodeCodec) (resolve : Resolver) (cachegen : Nat)
    (fuel fromLevel verifyFuel : Nat) (key : List UInt8) :
    tryGet resolve cachegen (fuel + 1) .nil (keybytesToHex key) 0 = .ok (none, .nil, false) ∧
      prove c resolve (fuel + 1) .nil key fromLevel [] = .ok [] ∧
      verifyProof c (verifyFuel + 1) (trieHash c .nil) key [] =
        (.error (.missing 0 emptyRoot), 0) := by
  refine ⟨rfl, ?_, ?_⟩
  · rw [prove, proveNodes_nil]
    rfl
  · rw [verifyProof, trieHash]
    exact verifyLoop_of_lookup_none c rfl verifyFuel 0 _

end AuroraChain.Trie
