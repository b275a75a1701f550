import AuroraChain.Trie.Unique
import AuroraChain.Trie.Proof
/-!
# The root hash depends on the map alone

`Trie.Hash` reads a trie through the encodings of its collapsed nodes, and through the hashes its
flags cache. A trie the writes built caches none (`Node.Fresh`: every walk tags a node it builds
with `t.newFlag()`, and keeps the nodes it does not touch), so what the hasher reads of it is its
shape. The RLP encoding of nodes reads no flags (`encodeNode_eq_of_shape`), so tries of one shape
have one hash (`trieHash_eq_of_shape`).

With the uniqueness of the canonical form, two runs of writes from the empty trie that write one
map leave one root hash, whatever the order of their writes (`trie_hash_of_same_map`): the
property `StateDB.Finalise` relies on when it writes the dirty objects of a map in any order.
-/

set_option linter.dupNamespace false

namespace AuroraChain.Trie

/-- A node as the writes build it: no hash node in it, and no hash cached in any of its flags. -/
def Node.Fresh : Node → Prop
  | .nil | .value _ => True
  | .hash _ => False
  | .short _ c f => f.hash = none ∧ c.Fresh
  | .full cs f => f.hash = none ∧ ∀ i, (cs i).Fresh

theorem newFlag_hash (cachegen : Nat) : (newFlag cachegen).hash = none := rfl

theorem fresh_update {cs : Fin 17 → Node} (hcs : ∀ i, (cs i).Fresh) {s : Fin 17} {nn : Node}
    (hnn : nn.Fresh) (i : Fin 17) : (Function.update cs s nn i).Fresh := by
  by_cases his : i = s
  · rw [his, Function.update_self]
    exact hnn
  · rw [Function.update_of_ne his]
    exact hcs i

theorem resolveNode_of_fresh (resolve : Resolver) {c : Node} (hc : c.Fresh) (pfx : List UInt8) :
    resolveNode resolve c pfx = .ok c := by
  cases c with
  | hash _ => exact hc.elim
  | nil | full _ _ | short _ _ _ | value _ => rfl

/-! ### The writes build fresh nodes -/

section Walks

variable (resolve : Resolver) {flag : NodeFlag} (hflag : flag.hash = none)
include hflag

theorem branchOut_fresh {s1 s2 : Fin 17} {c1 c2 : Node} (h1 : c1.Fresh) (h2 : c2.Fresh) :
    (branchOut s1 c1 s2 c2 flag).Fresh :=
  ⟨hflag, fresh_update (@fresh_update (fun _ => .nil) (fun _ => trivial) s1 c1 h1) h2⟩

theorem insert_fresh {fuel : Nat} {n : Node} {pfx key : List UInt8} {value : Node} (hn : n.Fresh)
    (hv : value.Fresh) {r : Bool × Node} (h : insert resolve flag fuel n pfx key value = .ok r) :
    r.2.Fresh := by
  fun_induction insert resolve flag fuel n pfx key value generalizing r with
  | case1 => cases h
  | case2 => cases h; exact hv
  | case3 => cases h
  | case4 => cases h; exact hv
  | case5 _ _ _ _ _ _ _ _ _ _ ih =>
      obtain ⟨⟨dirty, nn⟩, hr, rfl⟩ := except_map_eq_ok h
      cases dirty
      · exact hn
      · exact ⟨hflag, ih hn.2 hv hr⟩
  | case6 _ _ _ _ _ _ _ _ _ _ _ _ _ _ ih2 ih1 =>
      obtain ⟨⟨_, c1⟩, h1, h⟩ := except_bind_eq_ok h
      obtain ⟨⟨_, c2⟩, h2, rfl⟩ := except_map_eq_ok h
      have h1 := ih2 trivial hn.2 h1
      have h2 := ih1 trivial hv h2
      dsimp only
      split
      · exact branchOut_fresh hflag h1 h2
      · exact ⟨hflag, branchOut_fresh hflag h1 h2⟩
  | case7 => cases h
  | case8 => cases h
  | case9 _ _ _ _ _ _ _ _ _ ih =>
      obtain ⟨⟨dirty, nn⟩, hr, rfl⟩ := except_map_eq_ok h
      cases dirty
      · exact hn
      · exact ⟨hflag, fresh_update hn.2 (ih (hn.2 _) hv hr)⟩
  | case10 => cases h; exact ⟨hflag, hv⟩
  | case11 => exact hn.elim
  | case12 => cases h

theorem collapseFull_fresh {pfx : List UInt8} {children : Fin 17 → Node}
    (hc : ∀ i, (children i).Fresh) {r : Bool × Node}
    (h : collapseFull resolve flag pfx children = .ok r) : r.2.Fresh := by
  unfold collapseFull at h
  split at h
  · rename_i p _
    split at h
    · rw [resolveNode_of_fresh resolve (hc p)] at h
      simp only [Except.map, Except.ok.injEq] at h
      subst h
      have hp := hc p
      generalize children p = c at hp
      cases c with
      | short _ _ _ => exact ⟨hflag, hp.2⟩
      | nil | full _ _ | hash _ | value _ => exact ⟨hflag, hp⟩
    · cases h
      exact ⟨hflag, hc p⟩
  · cases h
    exact ⟨hflag, hc⟩

theorem delete_fresh {fuel : Nat} {n : Node} {pfx key : List UInt8} (hn : n.Fresh) {r : Bool × Node}
    (h : delete resolve flag fuel n pfx key = .ok r) : r.2.Fresh := by
  fun_induction delete resolve flag fuel n pfx key generalizing r with
  | case1 => cases h
  | case2 => cases h; exact hn
  | case3 => cases h; trivial
  | case4 _ _ _ _ _ _ _ _ _ ih =>
      obtain ⟨⟨dirty, child⟩, hr, rfl⟩ := except_map_eq_ok h
      have hchild := ih hn.2 hr
      cases dirty
      · exact hn
      · dsimp only
        cases child with
        | short _ _ _ => exact ⟨hflag, hchild.2⟩
        | nil | full _ _ | hash _ | value _ => exact ⟨hflag, hchild⟩
  | case5 => cases h
  | case6 => cases h
  | case7 _ _ _ _ _ _ _ _ ih =>
      obtain ⟨⟨dirty, nn⟩, hr, h⟩ := except_bind_eq_ok h
      cases dirty
      · cases h
        exact hn
      · exact collapseFull_fresh resolve hflag (fresh_update hn.2 (ih (hn.2 _) hr)) h
  | case8 => cases h; trivial
  | case9 => cases h; trivial
  | case10 => exact hn.elim

end Walks

theorem TrieOp.apply_fresh (resolve : Resolver) {t : Trie} (ht : t.root.Fresh) (op : TrieOp) :
    (op.apply resolve t).2.root.Fresh := by
  have hset : ∀ x : Except TrieError (Bool × Node), (∀ r, x = .ok r → r.2.Fresh) →
      (t.setRoot x).2.root.Fresh := fun x hx => by
    cases x with
    | ok r => exact hx r rfl
    | error _ => exact ht
  cases op with
  | update key value =>
      rw [TrieOp.apply, Trie.tryUpdate]
      split
      · exact hset _ fun r h =>
          insert_fresh resolve (newFlag_hash _) ht (show (Node.value value).Fresh from trivial) h
      · exact hset _ fun r h => delete_fresh resolve (newFlag_hash _) ht h
  | delete key => exact hset _ fun r h => delete_fresh resolve (newFlag_hash _) ht h

theorem Trie.writeAll_fresh (resolve : Resolver) :
    ∀ (ops : List TrieOp) (dbErr : Option TrieError) {t : Trie}, t.root.Fresh →
      (t.writeAll resolve dbErr ops).2.root.Fresh
  | [], _, _, ht => ht
  | op :: ops, _, _, ht => Trie.writeAll_fresh resolve ops _ (op.apply_fresh resolve ht)

/-! ### Hashing reads the shape -/

@[simp] theorem Node.shape_eq_nil {n : Node} : n.shape = .nil ↔ n = .nil := by
  cases n <;> simp

theorem Node.shape_eq_hash {n : Node} {h : List UInt8} : n.shape = .hash h ↔ n = .hash h := by
  cases n <;> simp

@[simp] theorem Node.isNil_shape (n : Node) : n.shape.isNil = n.isNil := by
  cases n <;> rfl

@[simp] theorem Node.hashBytes_shape (n : Node) : n.shape.hashBytes = n.hashBytes := by
  cases n <;> rfl

theorem Node.Fresh.cachedHash {n : Node} (hn : n.Fresh) : n.cachedHash = none := by
  cases n with
  | short _ _ _ => exact hn.1
  | full _ _ => exact hn.1
  | nil | hash _ | value _ => rfl

theorem hashChildren_cachedHash (c : NodeCodec) {n : Node} (hn : n.Fresh) : (hashChildren c n).1.cachedHash = none := by
  cases n with
  | short _ _ _ => exact hn.1
  | full _ _ => exact hn.1
  | nil | value _ => rfl
  | hash _ => exact hn.elim

@[simp] theorem Node.shape_eq_value {n : Node} {v : List UInt8} : n.shape = .value v ↔ n = .value v := by
  cases n <;> simp

theorem ite_isNil_shape {a b : Node} (h : a.shape = b.shape) :
    (if a.isNil then .value [] else a).shape = (if b.isNil then .value [] else b).shape := by
  have hnil : a.isNil = b.isNil := by rw [← Node.isNil_shape, h, Node.isNil_shape]
  rw [hnil]
  split
  · rfl
  · exact h

/-- The collapsed short node over a child that is not a value: the child is hashed or embedded. -/
theorem hashChildren_short_of_ne (c : NodeCodec) {k : List UInt8} {v : Node} {f : NodeFlag}
    (hv : ∀ w, v ≠ .value w) :
    (hashChildren c (.short k v f)).1 = .short (hexToCompact k)
      (if (hashOf c false v (hashChildren c v)).1.isNil then .value []
        else (hashOf c false v (hashChildren c v)).1) f := by
  cases v with
  | value w => exact absurd rfl (hv w)
  | nil | full _ _ | short _ _ _ | hash _ => rfl

/-- The collapsed full node: the value slot and empty slots as they are, the other children hashed
or embedded, and empty children as empty values. -/
theorem hashChildren_full (c : NodeCodec) (cs : Fin 17 → Node) (f : NodeFlag) :
    (hashChildren c (.full cs f)).1 = .full (fun i =>
      if (if i = 16 ∨ (cs i).isNil then (cs i, cs i)
          else hashOf c false (cs i) (hashChildren c (cs i))).1.isNil then .value []
      else (if i = 16 ∨ (cs i).isNil then (cs i, cs i)
          else hashOf c false (cs i) (hashChildren c (cs i))).1) f :=
  rfl

theorem nodeItem_shape (n : Node) : nodeItem n.shape = nodeItem n := by
  induction n with
  | full cs f ih => simp only [Node.shape_full, nodeItem, ih]
  | short k v f ih => simp only [Node.shape_short, nodeItem, ih]
  | nil | hash _ | value _ => rfl

theorem encodeNode_eq_of_shape {n m : Node} (h : n.shape = m.shape) :
    encodeNode n = encodeNode m := by
  rw [encodeNode, encodeNode, ← nodeItem_shape n, h, nodeItem_shape]

section Hasher

variable (c : NodeCodec)

theorem store_shape {x y : Node} (hxy : x.shape = y.shape) (hx : x.cachedHash = none)
    (hy : y.cachedHash = none) (force : Bool) : (store c x force).shape = (store c y force).shape := by
  by_cases hnil : x = .nil
  · rw [hnil, Node.shape_nil, eq_comm, Node.shape_eq_nil] at hxy
    rw [hnil, hxy]
  by_cases hhash : ∃ h, x = .hash h
  · obtain ⟨h, rfl⟩ := hhash
    rw [Node.shape_hash, eq_comm, Node.shape_eq_hash] at hxy
    rw [hxy]
  have hstore : ∀ z : Node, z ≠ .nil → (¬ ∃ h, z = .hash h) → store c z force =
      if (encodeNode z).length < 32 ∧ force = false then z
      else .hash (z.cachedHash.getD (c.keccak (encodeNode z))) := by
    intro z hz hzh
    cases z with
    | nil => exact absurd rfl hz
    | hash h => exact absurd ⟨h, rfl⟩ hzh
    | full _ _ | short _ _ _ | value _ => rfl
  have hynil : y ≠ .nil := fun h => hnil (Node.shape_eq_nil.mp (hxy.trans (Node.shape_eq_nil.mpr h)))
  have hyhash : ¬ ∃ h, y = .hash h := fun ⟨h, hh⟩ =>
    hhash ⟨h, Node.shape_eq_hash.mp (hxy.trans (Node.shape_eq_hash.mpr hh))⟩
  rw [hstore x hnil hhash, hstore y hynil hyhash, encodeNode_eq_of_shape hxy, hx, hy]
  split
  · exact hxy
  · rfl

theorem hashOf_shape {force : Bool} {n m : Node} {cn cm : Node × Node} (hn : n.cachedHash = none)
    (hm : m.cachedHash = none) (hc : cn.1.shape = cm.1.shape) (hcn : cn.1.cachedHash = none)
    (hcm : cm.1.cachedHash = none) : (hashOf c force n cn).1.shape = (hashOf c force m cm).1.shape := by
  rw [hashOf, hashOf, hn, hm]
  exact store_shape c hc hcn hcm force

theorem hashChildren_shape {n : Node} (hn : n.Fresh) :
    ∀ {m : Node}, m.Fresh → n.shape = m.shape →
      (hashChildren c n).1.shape = (hashChildren c m).1.shape := by
  induction n with
  | short k v f ih =>
      intro m hm hnm
      cases m with
      | short k' v' f' =>
          rw [Node.shape_short, Node.shape_short, Node.short.injEq] at hnm
          obtain ⟨rfl, hv, -⟩ := hnm
          by_cases hval : ∃ w, v = .value w
          · obtain ⟨w, rfl⟩ := hval
            rw [Node.shape_value, eq_comm, Node.shape_eq_value] at hv
            subst hv
            rfl
          · have hval' : ∀ w, v' ≠ .value w := fun w h =>
              hval ⟨w, Node.shape_eq_value.mp (hv.trans (by rw [h, Node.shape_value]))⟩
            rw [hashChildren_short_of_ne c (fun w h => hval ⟨w, h⟩), hashChildren_short_of_ne c hval',
              Node.shape_short, Node.shape_short,
              ite_isNil_shape (hashOf_shape c hn.2.cachedHash hm.2.cachedHash (ih hn.2 hm.2 hv)
                (hashChildren_cachedHash c hn.2) (hashChildren_cachedHash c hm.2))]
      | nil | full _ _ | hash _ | value _ => simp at hnm
  | full cs f ih =>
      intro m hm hnm
      cases m with
      | full cs' f' =>
          rw [Node.shape_full, Node.shape_full, Node.full.injEq] at hnm
          have hcs : ∀ i, (cs i).shape = (cs' i).shape := fun i => congrFun hnm.1 i
          rw [hashChildren_full, hashChildren_full, Node.shape_full, Node.shape_full]
          congr 1
          funext i
          apply ite_isNil_shape
          have hnil : (cs i).isNil = (cs' i).isNil := by
            rw [← Node.isNil_shape, hcs i, Node.isNil_shape]
          by_cases hi : i = 16 ∨ (cs i).isNil = true
          · rw [if_pos hi, if_pos (by rwa [← hnil])]
            exact hcs i
          · rw [if_neg hi, if_neg (by rwa [← hnil])]
            exact hashOf_shape c (hn.2 i).cachedHash (hm.2 i).cachedHash
              (ih i (hn.2 i) (hm.2 i) (hcs i)) (hashChildren_cachedHash c (hn.2 i))
              (hashChildren_cachedHash c (hm.2 i))
      | nil | short _ _ _ | hash _ | value _ => simp at hnm
  | nil =>
      intro m _ hnm
      rw [Node.shape_nil, eq_comm, Node.shape_eq_nil] at hnm
      rw [hnm]
  | value w =>
      intro m _ hnm
      rw [Node.shape_value, eq_comm, Node.shape_eq_value] at hnm
      rw [hnm]
  | hash _ => exact hn.elim

theorem trieHash_eq_of_shape {n m : Node} (hn : n.Fresh) (hm : m.Fresh) (hnm : n.shape = m.shape) :
    trieHash c n = trieHash c m := by
  by_cases hnil : n = .nil
  · rw [hnil, Node.shape_nil, eq_comm, Node.shape_eq_nil] at hnm
    rw [hnil, hnm]
  have hmnil : m ≠ .nil := fun h => hnil (Node.shape_eq_nil.mp (hnm.trans (Node.shape_eq_nil.mpr h)))
  have htrie : ∀ x : Node, x ≠ .nil → trieHash c x = ((hash c true x).1.hashBytes).getD [] := by
    intro x hx
    cases x with
    | nil => exact absurd rfl hx
    | full _ _ | short _ _ _ | hash _ | value _ => rfl
  rw [htrie n hnil, htrie m hmnil, hash, hash, ← Node.hashBytes_shape,
    hashOf_shape c hn.cachedHash hm.cachedHash (hashChildren_shape c hn hm hnm)
      (hashChildren_cachedHash c hn) (hashChildren_cachedHash c hm),
    Node.hashBytes_shape]

end Hasher

/-- Two runs of writes from the empty trie that write one map leave one trie, but for flags, and
one root hash, whatever the order of their writes. -/
theorem trie_hash_of_same_map (c : NodeCodec) (resolve : Resolver)
    (cachegen cachegen' : Nat) (ops ops' : List TrieOp)
    (hmap : ops.foldl TrieOp.write (fun _ => none) = ops'.foldl TrieOp.write (fun _ => none)) :
    ((⟨.nil, cachegen⟩ : Trie).writeAll resolve none ops).2.root.shape =
        ((⟨.nil, cachegen'⟩ : Trie).writeAll resolve none ops').2.root.shape ∧
      trieHash c ((⟨.nil, cachegen⟩ : Trie).writeAll resolve none ops).2.root =
        trieHash c ((⟨.nil, cachegen'⟩ : Trie).writeAll resolve none ops').2.root := by
  have hf : ((⟨.nil, cachegen⟩ : Trie).writeAll resolve none ops).2.root.Fresh :=
    Trie.writeAll_fresh resolve ops none trivial
  have hf' : ((⟨.nil, cachegen'⟩ : Trie).writeAll resolve none ops').2.root.Fresh :=
    Trie.writeAll_fresh resolve ops' none trivial
  obtain ⟨t, hrun, hholds⟩ := Trie.writeAll_holds resolve none ops (Trie.holds_empty cachegen)
  obtain ⟨t', hrun', hholds'⟩ := Trie.writeAll_holds resolve none ops' (Trie.holds_empty cachegen')
  rw [hrun] at hf ⊢
  rw [hrun'] at hf' ⊢
  have hshape : t.root.shape = t'.root.shape := hholds.canon.shape_eq_of_lookup_eq hholds'.canon
    (by rw [hholds.lookup_eq, hholds'.lookup_eq, hmap])
  exact ⟨hshape, trieHash_eq_of_shape c hf hf' hshape⟩

/-- The same two writes in the two orders, hashed with a Keccak that hashes everything to no
bytes. -/
theorem trie_hash_of_same_map_swapped :
    [TrieOp.update [1] [5], .update [2] [6]].foldl TrieOp.write (fun _ => none) =
      [TrieOp.update [2] [6], .update [1] [5]].foldl TrieOp.write (fun _ => none) ∧
    ((⟨.nil, 0⟩ : Trie).writeAll (fun _ _ => .error .outOfFuel) none
        [.update [1] [5], .update [2] [6]]).2.root.shape =
      ((⟨.nil, 0⟩ : Trie).writeAll (fun _ _ => .error .outOfFuel) none
        [.update [2] [6], .update [1] [5]]).2.root.shape ∧
    trieHash ⟨fun _ _ => .error "", fun _ => []⟩
        ((⟨.nil, 0⟩ : Trie).writeAll (fun _ _ => .error .outOfFuel) none
          [.update [1] [5], .update [2] [6]]).2.root =
      trieHash ⟨fun _ _ => .error "", fun _ => []⟩
        ((⟨.nil, 0⟩ : Trie).writeAll (fun _ _ => .error .outOfFuel) none
          [.update [2] [6], .update [1] [5]]).2.root := by
  have hmap : [TrieOp.update [1] [5], .update [2] [6]].foldl TrieOp.write (fun _ => none) =
      [TrieOp.update [2] [6], .update [1] [5]].foldl TrieOp.write (fun _ => none) := by
    simp only [List.foldl, TrieOp.write, List.cons_ne_nil, if_false]
    exact Function.update_comm (by decide) _ _ _
  exact ⟨hmap, trie_hash_of_same_map _ _ 0 0 _ _ hmap⟩

end AuroraChain.Trie
