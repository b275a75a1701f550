import AuroraChain.Dpos.Verify
import AuroraChain.Rlp.Encode
import AuroraChain.Lib.BigEndian
/-!
# Signing transactions: `core/types/transaction_signing.go`

`AuroraSigner` signs the RLP hash of a transaction's fields and its chain id, and stores the
recovery id with the chain id in `V = 35 + recid + 2 chainId` (`SignatureValues`). `Sender` reads
the chain id back from `V` (`deriveChainId`), refuses a transaction of another chain, strips `V`
down to `27 + recid` and recovers the key with `recoverPlain`. `types.Sender` keeps the sender of
a transaction in a cache, with the signer it was derived with.

ECDSA is a parameter: `secp256k1.Sign` and the key pairs, beside the recovery and Keccak of
`Dpos.Crypto`. What the round trip assumes of them is `Signing.Correct`: a signature passes the
homestead checks with a recovery id of 0 or 1, and recovery gives back the signer's key.
-/

namespace AuroraChain.Core

open BigEndian

/-- `secp256k1.Sign` and the keys it signs with, beside the primitives of `Dpos.Crypto`. -/
structure Signing (Key : Type) where
  crypto : Dpos.Crypto
  /-- `secp256k1.Sign(hash, seckey)`: the 65-byte `[R || S || V]` signature. `crypto.Sign`'s
  check that the hash has 32 bytes always passes on a `common.Hash`. -/
  sign : Hash → Key → Except String (List UInt8)
  /-- The coordinates of the public key of a private key. -/
  publicKey : Key → Nat × Nat

/-- The errors `Sender` and `SignTx` return. -/
inductive SignerError where
  | errInvalidChainId
  | errInvalidSig
  /-- `crypto.Ecrecover`'s error. -/
  | recover (e : Dpos.RecoverError)
  /-- "invalid public key". -/
  | invalidPublicKey
  /-- `crypto.Sign`'s error. -/
  | sign (message : String)
  deriving DecidableEq, Repr

/-- `secp256k1N`, the order of the curve. -/
def secp256k1N : Nat := 0xFFFFFFFFFFFFFFFFFFFFFFFFFFFFFFFEBAAEDCE6AF48A03BBFD25E8CD0364141

def secp256k1halfN : Nat := secp256k1N / 2

def validateSignatureValues (v : UInt8) (r s : Nat) (homestead : Bool) : Bool :=
  if r < 1 ∨ s < 1 then false
  else if homestead ∧ secp256k1halfN < s then false
  else decide (r < secp256k1N ∧ s < secp256k1N ∧ (v = 0 ∨ v = 1))

/-- `R` of a `[R || S || V]` signature, as `SetBytes(sig[:32])` reads it. -/
def sigR (sig : List UInt8) : Nat := ofBytes (sig.take 32)

/-- `S`, as `SetBytes(sig[32:64])` reads it. -/
def sigS (sig : List UInt8) : Nat := ofBytes ((sig.drop 32).take 32)

/-- What the round trip assumes of ECDSA: a signature has 65 bytes, its `R`, `S` and recovery id
pass the homestead checks, and recovery from it gives the signer's key in the uncompressed form
`0x04 || X || Y`. -/
structure Signing.Correct {Key : Type} (sg : Signing Key) : Prop where
  sign_ok : ∀ h k, ∃ sig, sg.sign h k = .ok sig ∧ sig.length = 65 ∧
    validateSignatureValues (sig.getD 64 0) (sigR sig) (sigS sig) true = true
  recover_sign : ∀ h k sig, sg.sign h k = .ok sig →
    sg.crypto.ecdsaRecover h sig =
      some (4 :: (Dpos.bytes32 (sg.publicKey k).1 ++ Dpos.bytes32 (sg.publicKey k).2))

/-- `crypto.PubkeyToAddress(prv.PublicKey)`. -/
def keyAddress {Key : Type} (sg : Signing Key) (k : Key) : Address :=
  Fin.ofNat _ (sg.crypto.keccak256
    (Dpos.bytes32 (sg.publicKey k).1 ++ Dpos.bytes32 (sg.publicKey k).2)).val

/-! ### The signer -/

/-- `AuroraSigner`: the chain id, and twice it. -/
structure AuroraSigner where
  chainId : Int
  chainIdMul : Int
  deriving DecidableEq

def newAuroraSigner (chainId : Int) : AuroraSigner := { chainId, chainIdMul := chainId * 2 }

/-- `AuroraSigner.Equal`: another `AuroraSigner` of the same chain id. -/
def AuroraSigner.equal (s s2 : AuroraSigner) : Bool := decide (s2.chainId = s.chainId)

/-- `deriveChainId`: `(V - 35) / 2`, in `uint64` when `V` fits one (`V.BitLen() <= 64`). -/
def deriveChainId (v : Nat) : Int :=
  if v < 2 ^ 64 then (toUint64 ((v : Int) - 35) / 2 : Nat)
  else ((v : Int) - 35) / 2

def Transaction.chainId (tx : Transaction) : Int := deriveChainId tx.v

/-- The twenty big-endian bytes of an address. -/
def addressBytes (a : Address) : List UInt8 := toBytes 20 a.val

/-- The Go types of the list `AuroraSigner.Hash` encodes, as `makeWriter` takes the dynamic type
of each element of the `[]interface{}`. The writer reads no names; the elements are named after
what they hold. -/
def sigHashType : Rlp.RType :=
  .struct "[]interface \x7b\x7d"
    [("AccountNonce", .uint 64), ("Price", .bigInt), ("GasLimit", .uint 64),
      ("Recipient", .ptr (.byteArray 20)), ("Amount", .bigInt), ("Payload", .bytes),
      ("Action", .uint 64), ("Vote", .bytes), ("Nickname", .bytes), ("Asset", .ptr (.byteArray 20)),
      ("AssetInfo", .bytes), ("SubAddress", .string), ("Abi", .string), ("chainId", .bigInt),
      ("uint(0)", .uint 64), ("uint(0)", .uint 64)]

/-- The list `AuroraSigner.Hash` encodes: every field of `txdata` but `V`, `R` and `S`, then the
chain id and two zeros. -/
def sigHashValue (tx : Transaction) (chainId : Int) : Rlp.RValue :=
  .list [.uint tx.accountNonce, .bigInt tx.price, .uint tx.gasLimit,
    .ptr (tx.recipient.map fun a => .bytes (addressBytes a)), .bigInt tx.amount,
    .bytes tx.payload, .uint tx.action, .bytes tx.vote, .bytes tx.nickname,
    .ptr (tx.asset.map fun a => .bytes (addressBytes a)), .bytes tx.assetInfo,
    .bytes tx.subAddress.toUTF8.toList, .bytes tx.abi.toUTF8.toList, .bigInt chainId.toNat,
    .uint 0, .uint 0]

/-- `AuroraSigner.Hash`: the `rlpHash` of that list. -/
def AuroraSigner.hash {Key : Type} (sg : Signing Key) (s : AuroraSigner) (tx : Transaction) :
    Hash :=
  sg.crypto.keccak256 (Rlp.encodeToBytes sigHashType (sigHashValue tx s.chainId))

/-- `recoverPlain`. `Vb.BitLen() > 8` is `|Vb| ≥ 256`, and `Vb.Uint64()` reads `|Vb|`. Past the
check `R` and `S` are below `N`, so `R.Bytes()` and `S.Bytes()` fit the 32-byte halves of the
buffer they are copied into. -/
def recoverPlain {Key : Type} (sg : Signing Key) (sighash : Hash) (R S : Nat) (Vb : Int)
    (homestead : Bool) : Except SignerError Address :=
  if 256 ≤ Vb.natAbs then .error .errInvalidSig
  else
    let V := UInt8.ofNat ((Vb.natAbs + 2 ^ 64 - 27) % 2 ^ 64)
    if !validateSignatureValues V R S homestead then .error .errInvalidSig
    else
      let sig := leftPad 32 (Rlp.bytesOf R R) ++ leftPad 32 (Rlp.bytesOf S S) ++ [V]
      match Dpos.recoverPubkey sg.crypto sighash sig with
      | .error e => .error (.recover e)
      | .ok pub =>
          if pub.length = 0 ∨ pub.getD 0 0 ≠ 4 then .error .invalidPublicKey
          else .ok (Fin.ofNat _ (sg.crypto.keccak256 (pub.drop 1)).val)

def AuroraSigner.sender {Key : Type} (sg : Signing Key) (s : AuroraSigner) (tx : Transaction) :
    Except SignerError Address :=
  if tx.chainId ≠ s.chainId then .error .errInvalidChainId
  else recoverPlain sg (s.hash sg tx) tx.r tx.s ((tx.v : Int) - s.chainIdMul - 8) true

/-- `signatureValues`: `R`, `S` and `V = sig[64] + 27`, read big-endian. -/
def signatureValues (sig : List UInt8) : Except GoPanic (Nat × Nat × Nat) :=
  if sig.length ≠ 65 then .error (.wrongSignatureSize sig.length)
  else .ok (sigR sig, sigS sig, ofBytes [sig.getD 64 0 + 27])

/-- `AuroraSigner.SignatureValues`: for a nonzero chain id, `V = int64(sig[64] + 27 + 8)` in byte
arithmetic, plus twice the chain id. -/
def AuroraSigner.signatureValues (s : AuroraSigner) (sig : List UInt8) :
    Except GoPanic (Nat × Nat × Int) :=
  (Core.signatureValues sig).map fun (R, S, V) =>
    if s.chainId ≠ 0 then (R, S, ((sig.getD 64 0 + 27 + 8 : UInt8).toNat : Int) + s.chainIdMul)
    else (R, S, V)

/-- `Transaction.WithSignature`: a copy holding the signer's `R`, `S` and `V`. `V` is a `Nat` of
the model, which a negative chain id would take below zero. -/
def withSignature (s : AuroraSigner) (tx : Transaction) (sig : List UInt8) :
    Except GoPanic Transaction :=
  (s.signatureValues sig).map fun (r, sv, v) => { tx with r, s := sv, v := v.toNat }

def signTx {Key : Type} (sg : Signing Key) (tx : Transaction) (s : AuroraSigner) (prv : Key) :
    Except GoPanic (Except SignerError Transaction) :=
  match sg.sign (s.hash sg tx) prv with
  | .error e => .ok (.error (.sign e))
  | .ok sig => (withSignature s tx sig).map .ok

/-- `sigCache`: the signer a sender was derived with, and the sender. -/
structure SigCache where
  signer : AuroraSigner
  fromAddr : Address
  deriving DecidableEq

/-- `types.Sender(signer, tx)`, with the transaction's `from` cache as explicit state: the cached
sender if it was derived with an equal signer, else the signer's and a new cache. -/
def sender {Key : Type} (sg : Signing Key) (signer : AuroraSigner) (cache : Option SigCache)
    (tx : Transaction) : Except SignerError Address × Option SigCache :=
  let derive := match signer.sender sg tx with
    | .error e => (.error e, cache)
    | .ok addr => (.ok addr, some { signer, fromAddr := addr })
  match cache with
  | some sc => if sc.signer.equal signer then (.ok sc.fromAddr, cache) else derive
  | none => derive

/-- `types.Sender` called on one transaction with the signers of `chainIds` in turn, through the
transaction's cache. -/
def senderRun {Key : Type} (sg : Signing Key) :
    List Int → Option SigCache → Transaction → List (Except SignerError Address)
  | [], _, _ => []
  | c :: chainIds, cache, tx =>
      let (r, cache) := sender sg (newAuroraSigner c) cache tx
      r :: senderRun sg chainIds cache tx

/-! ### `R` and `S` through `big.Int` -/

/-- `big.Int.Bytes` drops the leading zeros that padding into an `n`-byte field puts back. The
induction is on the width; the fuel of `bytesOf` is enough while `i < 256 ^ fuel`. -/
theorem leftPad_bytesOf : ∀ (n fuel i : Nat), i < 256 ^ n → i < 256 ^ fuel →
    leftPad n (Rlp.bytesOf fuel i) = toBytes n i
  | 0, fuel, i, hn, _ => by
      obtain rfl : i = 0 := by simpa using hn
      cases fuel <;> rfl
  | n + 1, 0, i, _, hf => by
      obtain rfl : i = 0 := by simpa using hf
      rw [Rlp.bytesOf, leftPad_nil, toBytes_zero]
  | n + 1, fuel + 1, i, hn, hf => by
      rw [Rlp.bytesOf]
      split
      · rename_i hi
        rw [hi, leftPad_nil, toBytes_zero]
      · rw [Nat.pow_succ] at hn hf
        rw [leftPad_append_singleton, leftPad_bytesOf n fuel (i / 256) (by omega) (by omega), toBytes]

theorem leftPad_bytesOf_ofBytes {b : List UInt8} (hb : b.length = 32) :
    leftPad 32 (Rlp.bytesOf (ofBytes b) (ofBytes b)) = b := by
  have hlt := ofBytes_lt b
  have hfield := toBytes_ofBytes b
  rw [hb] at hlt hfield
  rw [leftPad_bytesOf 32 _ _ hlt (Nat.lt_pow_self (by decide)), hfield]

theorem rebuild_sig {sig : List UInt8} (hlen : sig.length = 65) :
    leftPad 32 (Rlp.bytesOf (sigR sig) (sigR sig)) ++ leftPad 32 (Rlp.bytesOf (sigS sig) (sigS sig)) ++
      [sig.getD 64 0] = sig := by
  have hlast : (sig.drop 32).drop 32 = [sig.getD 64 0] := by
    rw [List.drop_drop, List.drop_eq_getElem_cons (by omega), List.drop_eq_nil_of_le (by omega),
      List.getD_eq_getElem?_getD, List.getElem?_eq_getElem (by omega), Option.getD_some]
  rw [sigR, sigS, leftPad_bytesOf_ofBytes (by simp [hlen]), leftPad_bytesOf_ofBytes (by simp [hlen]),
    List.append_assoc, ← hlast, List.take_append_drop, List.take_append_drop]

/-! ### `V` and the chain id -/

theorem validateSignatureValues_homestead {v : UInt8} {r s : Nat}
    (h : validateSignatureValues v r s true = true) : v = 0 ∨ v = 1 := by
  unfold validateSignatureValues at h
  split at h
  · cases h
  · split at h
    · cases h
    · exact (of_decide_eq_true h).2.2

theorem toNat_add_35 {x : UInt8} (hx : x = 0 ∨ x = 1) : (x + 27 + 8 : UInt8).toNat = x.toNat + 35 := by
  rcases hx with rfl | rfl <;> rfl

theorem deriveChainId_signed {c : Int} (hc : 0 < c) {recid : Nat} (hrecid : recid < 2) :
    deriveChainId ((recid + 35 : Nat) + c * 2).toNat = c := by
  unfold deriveChainId toUint64
  split <;> omega

/-! ### The round trip -/

section RoundTrip

variable {Key : Type} {sg : Signing Key}

/-- The transaction `SignTx` builds from a signature: the signer's `R`, `S` and `V`. -/
theorem signTx_of_sign {tx : Transaction} {c : Int} (hc : c ≠ 0) {k : Key} {sig : List UInt8}
    (hsign : sg.sign ((newAuroraSigner c).hash sg tx) k = .ok sig) (hlen : sig.length = 65) :
    signTx sg tx (newAuroraSigner c) k = .ok (.ok
      { tx with
        r := sigR sig
        s := sigS sig
        v := (((sig.getD 64 0 + 27 + 8 : UInt8).toNat : Int) + c * 2).toNat }) := by
  rw [signTx, hsign]
  simp only [withSignature, AuroraSigner.signatureValues, signatureValues, hlen, ne_eq,
    not_true_eq_false, if_false, newAuroraSigner, hc, not_false_eq_true, if_true, Except.map]

theorem AuroraSigner.hash_withSignature (s : AuroraSigner) (tx : Transaction) (r sv v : Nat) :
    s.hash sg { tx with r, s := sv, v } = s.hash sg tx := rfl

/-- `recoverPlain` on what `signatureValues` took from a 65-byte signature that passes the
homestead checks, `V` stripped to `27 + recid`, recovers from that very signature. -/
theorem recoverPlain_of_sig {sig : List UInt8} (hlen : sig.length = 65)
    (hvalid : validateSignatureValues (sig.getD 64 0) (sigR sig) (sigS sig) true = true)
    {h : Hash} {pub : List UInt8} (hrecover : sg.crypto.ecdsaRecover h sig = some (4 :: pub)) :
    recoverPlain sg h (sigR sig) (sigS sig) ((sig.getD 64 0).toNat + 27 : Nat) true =
      .ok (Fin.ofNat _ (sg.crypto.keccak256 pub).val) := by
  have hrecid := validateSignatureValues_homestead hvalid
  have hbyte : UInt8.ofNat (((sig.getD 64 0).toNat + 27 + 2 ^ 64 - 27) % 2 ^ 64) = sig.getD 64 0 := by
    have hx := (sig.getD 64 0).toNat_lt
    apply UInt8.toNat_inj.mp
    rw [UInt8.toNat_ofNat']
    omega
  have hcheck : Dpos.checkSignature sig = .ok () := by
    rw [Dpos.checkSignature, if_neg (by omega),
      if_neg (by rcases hrecid with h | h <;> rw [h] <;> decide)]
  have hsmall : ¬ 256 ≤ (sig.getD 64 0).toNat + 27 := by
    rcases hrecid with h | h <;> rw [h] <;> decide
  unfold recoverPlain
  rw [Int.natAbs_natCast, if_neg hsmall]
  dsimp only
  rw [hbyte, hvalid, Bool.not_true, if_neg Bool.false_ne_true, rebuild_sig hlen, Dpos.recoverPubkey,
    hcheck]
  dsimp only
  rw [hrecover]
  rfl

theorem sender_of_signTx (hsg : sg.Correct) (tx : Transaction) {c : Int} (hc : 0 < c) (k : Key) :
    ∃ signed, signTx sg tx (newAuroraSigner c) k = .ok (.ok signed) ∧ signed.chainId = c ∧
      (newAuroraSigner c).sender sg signed = .ok (keyAddress sg k) := by
  obtain ⟨sig, hsign, hlen, hvalid⟩ := hsg.sign_ok ((newAuroraSigner c).hash sg tx) k
  have hrecid := validateSignatureValues_homestead hvalid
  have hrecid_lt : (sig.getD 64 0).toNat < 2 := by
    rcases hrecid with h | h <;> rw [h] <;> decide
  have hchain : deriveChainId ((((sig.getD 64 0).toNat + 35 : Nat) : Int) + c * 2).toNat = c :=
    deriveChainId_signed hc hrecid_lt
  refine ⟨_, signTx_of_sign hc.ne' hsign hlen, ?_, ?_⟩
  · rw [Transaction.chainId, toNat_add_35 hrecid]
    exact hchain
  · -- `Sender` strips `V = 35 + recid + 2c` down to `27 + recid`
    have hVb : (((((sig.getD 64 0).toNat + 35 : Nat) : Int) + c * 2).toNat : Int) - c * 2 - 8 =
        ((sig.getD 64 0).toNat + 27 : Nat) := by
      omega
    have hcid : (newAuroraSigner c).chainId = c := rfl
    have hmul : (newAuroraSigner c).chainIdMul = c * 2 := rfl
    rw [AuroraSigner.sender, Transaction.chainId, toNat_add_35 hrecid, hcid,
      if_neg (fun h => h hchain), hmul, hVb, AuroraSigner.hash_withSignature,
      recoverPlain_of_sig hlen hvalid (hsg.recover_sign _ _ _ hsign)]
    rfl

theorem sender_of_chainId_ne {tx : Transaction} {c c' : Int} (hc : tx.chainId = c) (hne : c' ≠ c) :
    (newAuroraSigner c').sender sg tx = .error .errInvalidChainId := by
  rw [AuroraSigner.sender, if_pos (by rw [hc]; exact fun h => hne h.symm)]

/-- One `Sender` call on a transaction of chain `c`, from a cache that is empty or holds the
signer of `c`: the answer of the signer's chain, and a cache of the same kind. -/
theorem sender_step {tx : Transaction} {c : Int} {addr : Address}
    (hsame : (newAuroraSigner c).sender sg tx = .ok addr)
    (hother : ∀ c', c' ≠ c → (newAuroraSigner c').sender sg tx = .error .errInvalidChainId)
    (c' : Int) {cache : Option SigCache}
    (hcache : cache = none ∨ cache = some { signer := newAuroraSigner c, fromAddr := addr }) :
    (sender sg (newAuroraSigner c') cache tx).1 =
        (if c' = c then .ok addr else .error .errInvalidChainId) ∧
      ((sender sg (newAuroraSigner c') cache tx).2 = none ∨
        (sender sg (newAuroraSigner c') cache tx).2 = some { signer := newAuroraSigner c, fromAddr := addr }) := by
  by_cases hc : c' = c
  · subst hc
    rcases hcache with rfl | rfl
    · simp [sender, hsame]
    · simp [sender, AuroraSigner.equal]
  · have hequal : (newAuroraSigner c).equal (newAuroraSigner c') = false :=
      decide_eq_false hc
    rcases hcache with rfl | rfl
    · simp [sender, hother c' hc, hc]
    · simp [sender, hequal, hother c' hc, hc]

/-- Through the cache, every `Sender` call answers as the signer of its chain id does: the cache
only ever holds the signer of `c`. The induction is on the calls. -/
theorem senderRun_eq {tx : Transaction} {c : Int} {addr : Address}
    (hsame : (newAuroraSigner c).sender sg tx = .ok addr)
    (hother : ∀ c', c' ≠ c → (newAuroraSigner c').sender sg tx = .error .errInvalidChainId) :
    ∀ (chainIds : List Int) (cache : Option SigCache),
      (cache = none ∨ cache = some { signer := newAuroraSigner c, fromAddr := addr }) →
      senderRun sg chainIds cache tx =
        chainIds.map fun c' => if c' = c then .ok addr else .error .errInvalidChainId := by
  intro chainIds
  induction chainIds with
  | nil =>
      intro cache _
      rfl
  | cons c' chainIds ih =>
      intro cache hcache
      obtain ⟨hanswer, hnext⟩ := sender_step hsame hother c' hcache
      rw [senderRun, List.map_cons, ← hanswer, ← ih _ hnext]

theorem signTx_sender_round_trip (sg : Signing Key) (hsg : sg.Correct) (c : Int) (hc : 0 < c)
    (tx : Transaction) (k : Key) :
    ∃ signed, signTx sg tx (newAuroraSigner c) k = .ok (.ok signed) ∧ signed.chainId = c ∧
      ∀ chainIds : List Int, senderRun sg chainIds none signed =
        chainIds.map fun c' => if c' = c then .ok (keyAddress sg k) else .error .errInvalidChainId := by
  obtain ⟨signed, hsigned, hchain, hsame⟩ := sender_of_signTx hsg tx hc k
  exact ⟨signed, hsigned, hchain, fun chainIds => senderRun_eq hsame
    (fun c' hne => sender_of_chainId_ne hchain hne) chainIds none (.inl rfl)⟩

end RoundTrip

/-- A signing primitive with one key that meets `Signing.Correct`: its signature has `R = S = 1`
and recovery id 0, and recovery always gives the key `(1, 2)`. -/
def oneKeySigning : Signing Unit :=
  { crypto := ⟨fun _ _ => some (4 :: (Dpos.bytes32 1 ++ Dpos.bytes32 2)), fun _ => none, fun _ => 0⟩,
    sign := fun _ _ => .ok (List.replicate 31 0 ++ [1] ++ List.replicate 31 0 ++ [1, 0]),
    publicKey := fun _ => (1, 2) }

theorem oneKeySigning_correct : oneKeySigning.Correct where
  sign_ok _ _ := ⟨_, rfl, by decide, by decide⟩
  recover_sign _ _ _ _ := rfl

/-- A transfer of one coin to address 7, not yet signed. -/
def unsignedTransfer : Transaction :=
  { accountNonce := 0, price := 1, gasLimit := 25000, recipient := some 7, amount := 1,
    payload := [], action := ActionTrans, vote := [], nickname := [], asset := none,
    assetInfo := [], subAddress := "", abi := "", v := 0, r := 0, s := 0 }

theorem signTx_sender_round_trip_one_key :
    oneKeySigning.Correct ∧ (0 : Int) < 7 ∧
      ∃ signed, signTx oneKeySigning unsignedTransfer (newAuroraSigner 7) () = .ok (.ok signed) ∧
        signed.chainId = 7 ∧
        ∀ chainIds : List Int, senderRun oneKeySigning chainIds none signed =
          chainIds.map fun c' =>
            if c' = 7 then .ok (keyAddress oneKeySigning ()) else .error .errInvalidChainId :=
  ⟨oneKeySigning_correct, by decide,
    signTx_sender_round_trip oneKeySigning oneKeySigning_correct 7 (by decide) unsignedTransfer ()⟩

end AuroraChain.Core
