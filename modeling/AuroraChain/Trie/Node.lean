import AuroraChain.Trie.Encoding
/-!
# Trie nodes and the walks of `trie/trie.go`

A node is nil, a full node with sixteen children and a value slot, a short node with a key
segment, a hash node standing for a node not loaded yet, or a value. `tryGet`, `insert` and
`delete` are the recursive walks of `Trie.TryGet`, `Trie.TryUpdate` and `Trie.TryDelete`, with
`resolveHash` (the database lookup and `mustDecodeNode`) as the parameter `resolve`.

Go recurses without a bound: a database whose hash nodes resolve to short nodes with empty keys
would walk forever. The model counts the calls with `fuel`; `Trie.lean` gives every walk twice a
key's length, which a trie the walks built never exhausts.
-/

namespace AuroraChain.Trie

/-- `nodeFlag`: the cached hash (nil is `none`), the cache generation of the node, and whether it
has changes not written to the database. -/
structure NodeFlag where
  hash : Option (List UInt8)
  gen : Nat
  dirty : Bool
  deriving DecidableEq

/-- `node`: nil, a `*fullNode` with its `[17]node` children (index 16 is the value slot), a
`*shortNode`, a `hashNode` and a `valueNode`. -/
inductive Node where
  | nil
  | full (children : Fin 17 → Node) (flags : NodeFlag)
  | short (key : List UInt8) (val : Node) (flags : NodeFlag)
  | hash (h : List UInt8)
  | value (v : List UInt8)

/-- What a walk ends with when it returns no node. -/
inductive TrieError where
  /-- `MissingNodeError`: a hash node the database does not hold, and the path to it. -/
  | missingNode (nodeHash : List UInt8) (path : List UInt8)
  /-- The panic of a type switch over a node that reaches its `default` case. -/
  | invalidNode
  /-- The panic of `value.(valueNode)` on a value that is not one. -/
  | notValueNode
  /-- `mustDecodeNode`'s panic on a stored node that does not decode. -/
  | decodeNode (nodeHash : List UInt8)
  /-- A runtime panic. -/
  | runtime (p : GoPanic)
  /-- The model's bound on the depth of a walk ran out. -/
  | outOfFuel
  deriving DecidableEq

/-- `resolveHash(n, prefix)`: the node a hash stands for, read at `prefix`. -/
abbrev Resolver := List UInt8 → List UInt8 → Except TrieError Node

/-- `newFlag`: no cached hash, the current generation, dirty. -/
def newFlag (cachegen : Nat) : NodeFlag := { hash := none, gen := cachegen, dirty := true }

/-- Whether a node is nil. -/
def Node.isNil : Node → Bool
  | .nil => true
  | _ => false

/-- The child slot of a nibble: `Children[key[pos]]` panics for a byte past 16. -/
def slot (i : UInt8) : Option (Fin 17) :=
  if h : i.toNat < 17 then some ⟨i.toNat, h⟩ else none

/-- `tryGet(origNode, key, pos)`: the value, the node with what was resolved on the way put in,
and whether anything was resolved. A value node answers whatever is left of the key. -/
def tryGet (resolve : Resolver) (cachegen : Nat) :
    Nat → Node → List UInt8 → Nat → Except TrieError (Option (List UInt8) × Node × Bool)
  | 0, _, _, _ => .error .outOfFuel
  | _ + 1, .nil, _, _ => .ok (none, .nil, false)
  | _ + 1, .value v, _, _ => .ok (some v, .value v, false)
  | fuel + 1, .short nkey val flags, key, pos =>
      if key.length - pos < nkey.length ∨ nkey ≠ (key.drop pos).take nkey.length then
        .ok (none, .short nkey val flags, false)
      else
        (tryGet resolve cachegen fuel val key (pos + nkey.length)).map fun (value, newnode, didResolve) =>
          if didResolve then (value, .short nkey newnode { flags with gen := cachegen }, true)
          else (value, .short nkey val flags, false)
  | fuel + 1, .full children flags, key, pos =>
      match key[pos]? with
      | none => .error (.runtime .sliceOutOfRange)
      | some i =>
          match slot i with
          | none => .error (.runtime .sliceOutOfRange)
          | some s =>
              (tryGet resolve cachegen fuel (children s) key (pos + 1)).map
                fun (value, newnode, didResolve) =>
                  if didResolve then
                    (value, .full (Function.update children s newnode) { flags with gen := cachegen }, true)
                  else (value, .full children flags, false)
  | fuel + 1, .hash h, key, pos =>
      (resolve h (key.take pos)).bind fun child =>
        (tryGet resolve cachegen fuel child key pos).map fun (value, newnode, _) => (value, newnode, true)

/-- The full node `insert` branches out into: two children, at the slots where the keys differ. -/
def branchOut (s1 : Fin 17) (c1 : Node) (s2 : Fin 17) (c2 : Node) (flag : NodeFlag) : Node :=
  .full (Function.update (Function.update (fun _ => .nil) s1 c1) s2 c2) flag

/-- `insert(n, prefix, key, value)`: whether the trie changed, and the new node. `flag` is
`t.newFlag()`. -/
def insert (resolve : Resolver) (flag : NodeFlag) :
    Nat → Node → List UInt8 → List UInt8 → Node → Except TrieError (Bool × Node)
  | 0, _, _, _, _ => .error .outOfFuel
  | _ + 1, n, _, [], value =>
      match n, value with
      | .value v, .value v' => .ok (v ≠ v', value)
      | .value _, _ => .error .notValueNode
      | _, _ => .ok (true, value)
  | fuel + 1, .short nkey nval f, pfx, key@(_ :: _), value =>
      let matchlen := prefixLen key nkey
      if matchlen = nkey.length then
        -- the whole key segment matches: insert below it
        (insert resolve flag fuel nval (pfx ++ key.take matchlen) (key.drop matchlen) value).map
          fun (dirty, nn) => if !dirty then (false, .short nkey nval f) else (true, .short nkey nn flag)
      else
        match nkey[matchlen]?.bind slot, key[matchlen]?.bind slot with
        | some s1, some s2 =>
            (insert resolve flag fuel .nil (pfx ++ nkey.take (matchlen + 1)) (nkey.drop (matchlen + 1))
                nval).bind fun (_, c1) =>
              (insert resolve flag fuel .nil (pfx ++ key.take (matchlen + 1)) (key.drop (matchlen + 1))
                  value).map fun (_, c2) =>
                if matchlen = 0 then (true, branchOut s1 c1 s2 c2 flag)
                else (true, .short (key.take matchlen) (branchOut s1 c1 s2 c2 flag) flag)
        | _, _ => .error (.runtime .sliceOutOfRange)
  | fuel + 1, .full children f, pfx, i :: rest, value =>
      match slot i with
      | none => .error (.runtime .sliceOutOfRange)
      | some s =>
          (insert resolve flag fuel (children s) (pfx ++ [i]) rest value).map fun (dirty, nn) =>
            if !dirty then (false, .full children f)
            else (true, .full (Function.update children s nn) flag)
  | _ + 1, .nil, _, key@(_ :: _), value => .ok (true, .short key value flag)
  | fuel + 1, .hash h, pfx, key@(_ :: _), value =>
      (resolve h pfx).bind fun rn =>
        (insert resolve flag fuel rn pfx key value).map fun (dirty, nn) =>
          if !dirty then (false, rn) else (true, nn)
  | _ + 1, .value _, _, _ :: _, _ => .error .invalidNode

/-- What `pos` holds after `delete`'s loop over the children: `-1` when no child is left, the index
of the one child left, or `-2` when there are two or more. -/
inductive ChildPos where
  | none
  | one (i : Fin 17)
  | many
  deriving DecidableEq

/-- One round of that loop; once `pos` is `-2` the loop has broken out. -/
def ChildPos.step (children : Fin 17 → Node) (pos : ChildPos) (i : Fin 17) : ChildPos :=
  match pos with
  | .many => .many
  | .none => if (children i).isNil then .none else .one i
  | .one j => if (children i).isNil then .one j else .many

/-- The loop `for i, cld := range n.Children`. -/
def childPos (children : Fin 17 → Node) : ChildPos :=
  (List.finRange 17).foldl (ChildPos.step children) .none

/-- `resolve(n, prefix)`: a hash node is loaded, any other node is itself. -/
def resolveNode (resolve : Resolver) (n : Node) (pfx : List UInt8) : Except TrieError Node :=
  match n with
  | .hash h => resolve h pfx
  | n => .ok n

/-- The nibble of a child slot, as `byte(pos)`. -/
def nibbleOf (s : Fin 17) : UInt8 := UInt8.ofNat s.val

/-- `delete(n, prefix, key)`: whether the trie changed, and the new node, reduced on the way up
so that no short node holds a short node and no full node holds one child only. -/
def delete (resolve : Resolver) (flag : NodeFlag) :
    Nat → Node → List UInt8 → List UInt8 → Except TrieError (Bool × Node)
  | 0, _, _, _ => .error .outOfFuel
  | fuel + 1, .short nkey nval f, pfx, key =>
      let matchlen := prefixLen key nkey
      if matchlen < nkey.length then .ok (false, .short nkey nval f)
      else if matchlen = key.length then .ok (true, .nil)
      else
        (delete resolve flag fuel nval (pfx ++ key.take nkey.length) (key.drop nkey.length)).map
          fun (dirty, child) =>
            if !dirty then (false, .short nkey nval f)
            else match child with
              -- merge, so that a short node never holds a short node
              | .short ckey cval _ => (true, .short (nkey ++ ckey) cval flag)
              | child => (true, .short nkey child flag)
  | _ + 1, .full _ _, _, [] => .error (.runtime .sliceOutOfRange)
  | fuel + 1, .full children f, pfx, i :: rest =>
      match slot i with
      | none => .error (.runtime .sliceOutOfRange)
      | some s =>
          (delete resolve flag fuel (children s) (pfx ++ [i]) rest).bind fun (dirty, nn) =>
            if !dirty then .ok (false, .full children f)
            else
              let children := Function.update children s nn
              match childPos children with
              | .one p =>
                  if p.val ≠ 16 then
                    -- the one child left replaces the full node, under one more nibble
                    (resolveNode resolve (children p) pfx).map fun cnode =>
                      match cnode with
                      | .short ckey cval _ => (true, .short (nibbleOf p :: ckey) cval flag)
                      | _ => (true, .short [nibbleOf p] (children p) flag)
                  else .ok (true, .short [nibbleOf p] (children p) flag)
              | _ => .ok (true, .full children flag)
  | _ + 1, .value _, _, _ => .ok (true, .nil)
  | _ + 1, .nil, _, _ => .ok (false, .nil)
  | fuel + 1, .hash h, pfx, key =>
      (resolve h pfx).bind fun rn =>
        (delete resolve flag fuel rn pfx key).map fun (dirty, nn) =>
          if !dirty then (false, rn) else (true, nn)

end AuroraChain.Trie
