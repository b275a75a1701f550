import AuroraChain.Core.Types
import AuroraChain.Lib.SortedMap
/-!
# Header and producer verification of the DPoS engine

`consensus/dpos`: `verifyHeader` (the header rules every imported block passes),
`VerifyHeaderAndSign` (the producer rule the gossip handlers add: the coinbase holds the slot of
the block's time in the current round and signed the block) and `VerifyBlockGenerate` (enough
delegates of the round confirmed the block).

Signatures are checked by `secp256k1.RecoverPubkey`, whose Go part (the length and recovery-id
checks) the model follows and whose C part is the parameter `ecdsaRecover`; `crypto.ToECDSAPub`
and `crypto.PubkeyToAddress` follow the Go code, with `elliptic.Unmarshal` and Keccak as
parameters. `VerifyHeaderAndSign` does not look at the error `RecoverPubkey` returns (the check is
commented out) and dereferences the key it gets, so a malformed signature is a nil dereference
(`verifyHeaderAndSign_malformed_signature`).
-/

namespace AuroraChain.Dpos

open AuroraChain.Core

/-- What signature checking uses from outside the repository's Go code. -/
structure Crypto where
  /-- `secp256k1_ext_ecdsa_recover` on a 65-byte signature with a recovery id below four: the
  65-byte public key, or `none` when recovery fails. -/
  ecdsaRecover : Hash → List UInt8 → Option (List UInt8)
  /-- `elliptic.Unmarshal(S256(), pub)`: the point, or `none` (nil coordinates). -/
  unmarshal : List UInt8 → Option (Nat × Nat)
  keccak256 : List UInt8 → Hash

/-- What the engine reads of the chain: `ChainReader.GetHeader(hash, number)`. -/
structure ChainReader where
  getHeader : Hash → Nat → Option Header

/-- The errors of `secp256k1.RecoverPubkey`. -/
inductive RecoverError where
  | errInvalidMsgLen
  | errInvalidSignatureLen
  | errInvalidRecoveryID
  | errRecoverFailed
  deriving DecidableEq, Repr

/-- The errors the verification functions return. -/
inductive VerifyError where
  | extraTooLong (len : Nat)
  | futureBlock
  | zeroBlockTime
  | invalidGasLimit
  | invalidGasUsed
  | invalidGasLimitBound
  | invalidNumber
  | unknownAncestor
  | blockTimeExpire
  | missSignature
  | coinbaseNotInShuffleList
  | timeStampNotSame
  | signAddressError
  | signNotEnough
  | rlpDecode (message : String)
  deriving DecidableEq, Repr

/-- `allowedFutureBlockTime`, in seconds. -/
def allowedFutureBlockTime : Nat := 15

def checkSignature (sig : List UInt8) : Except RecoverError Unit :=
  if sig.length ≠ 65 then .error .errInvalidSignatureLen
  else if 4 ≤ sig.getD 64 0 then .error .errInvalidRecoveryID
  else .ok ()

/-- `secp256k1.RecoverPubkey` on a block hash (the message is always 32 bytes). -/
def recoverPubkey (c : Crypto) (msg : Hash) (sig : List UInt8) : Except RecoverError (List UInt8) :=
  match checkSignature sig with
  | .error e => .error e
  | .ok () =>
      match c.ecdsaRecover msg sig with
      | none => .error .errRecoverFailed
      | some pubkey => .ok pubkey

/-- `crypto.ToECDSAPub`: nil (`none`) for an empty key, else a key whose coordinates are nil
(`some none`) when the bytes are not a point. -/
def toECDSAPub (c : Crypto) (pub : List UInt8) : Option (Option (Nat × Nat)) :=
  if pub.length = 0 then none else some (c.unmarshal pub)

/-- The thirty-two big-endian bytes of a coordinate. -/
def bytes32 (n : Nat) : List UInt8 :=
  (List.range 32).reverse.map fun i => UInt8.ofNat (n / 256 ^ i % 256)

/-- `crypto.PubkeyToAddress`: the last twenty bytes of the Keccak hash of the coordinates.
`FromECDSAPub` returns nil for nil coordinates, and `pubBytes[1:]` on it is out of range. -/
def pubkeyToAddress (c : Crypto) (p : Option (Nat × Nat)) : Except GoPanic Address :=
  match p with
  | none => .error .sliceOutOfRange
  | some (x, y) => .ok (Fin.ofNat _ (c.keccak256 (bytes32 x ++ bytes32 y)).val)

/-- `crypto.PubkeyToAddress(*crypto.ToECDSAPub(pubkey))` on the key `RecoverPubkey` returned,
with its error ignored: a failed recovery leaves `pubkey` nil, and the dereference panics. -/
def signerAddress (c : Crypto) (msg : Hash) (sig : List UInt8) : Except GoPanic Address :=
  let pubkey := match recoverPubkey c msg sig with
    | .ok pubkey => pubkey
    | .error _ => []
  match toECDSAPub c pubkey with
  | none => .error .nilDereference
  | some p => pubkeyToAddress c p

/-- `verifyHeader`, at the local time `now`. The gas-limit difference is computed in `int64`, as
the code does. -/
def verifyHeader (now : Int) (header parent : Header) : Except VerifyError Unit :=
  if header.extra.length > Params.MaximumExtraDataSize then .error (.extraTooLong header.extra.length)
  else if (header.time : Int) > now + allowedFutureBlockTime then .error .futureBlock
  else if header.time ≤ parent.time then .error .zeroBlockTime
  else if header.gasLimit > 0x7fffffffffffffff then .error .invalidGasLimit
  else if header.gasUsed > header.gasLimit then .error .invalidGasUsed
  else
    let diff := toInt64 (toInt64 parent.gasLimit - toInt64 header.gasLimit)
    let diff := if diff < 0 then toInt64 (diff * -1) else diff
    let limit := parent.gasLimit / Params.GasLimitBoundDivisor
    if limit ≤ toUint64 diff ∨ header.gasLimit < Params.MinGasLimit then .error .invalidGasLimitBound
    else if (header.number : Int) - parent.number ≠ 1 then .error .invalidNumber
    else .ok ()

/-- The distance `verifyHeader` computes between two gas limits below `2 ^ 62`: the `int64`
difference, negated when negative, read back as `uint64`. -/
theorem gasLimitDiff_eq {parent header : Nat} (hparent : parent < 2 ^ 62) (hheader : header < 2 ^ 62) :
    toUint64 (if toInt64 (toInt64 parent - toInt64 header) < 0 then
        toInt64 (toInt64 (toInt64 parent - toInt64 header) * -1)
      else toInt64 (toInt64 parent - toInt64 header)) = ((parent : Int) - header).natAbs := by
  rw [toInt64_of_lt (n := parent) (by omega) (by omega), toInt64_of_lt (n := header) (by omega) (by omega),
    toInt64_of_lt (by omega) (by omega)]
  split_ifs with hneg
  · rw [toInt64_of_lt (by omega) (by omega), toUint64_of_lt (by omega) (by omega)]
    omega
  · rw [toUint64_of_lt (by omega) (by omega)]
    omega

/-- A header whose gas limit is at least `MinGasLimit` and within the bound of its parent's, both
below `2 ^ 62`, and whose other fields are in order, passes `verifyHeader`. -/
theorem verifyHeader_of_gasLimit {now : Int} {header parent : Header}
    (hextra : header.extra.length ≤ Params.MaximumExtraDataSize)
    (hfuture : (header.time : Int) ≤ now + allowedFutureBlockTime)
    (htime : parent.time < header.time) (hused : header.gasUsed ≤ header.gasLimit)
    (hlimit : header.gasLimit < 2 ^ 62) (hparent : parent.gasLimit < 2 ^ 62)
    (hmin : Params.MinGasLimit ≤ header.gasLimit)
    (hbound : ((parent.gasLimit : Int) - header.gasLimit).natAbs <
      parent.gasLimit / Params.GasLimitBoundDivisor)
    (hnumber : header.number = parent.number + 1) :
    verifyHeader now header parent = .ok () := by
  unfold verifyHeader
  rw [if_neg (Nat.not_lt.mpr hextra), if_neg (not_lt.mpr hfuture), if_neg (Nat.not_le.mpr htime),
    if_neg (by omega), if_neg (Nat.not_lt.mpr hused)]
  dsimp only
  rw [gasLimitDiff_eq hparent hlimit, if_neg (not_or.mpr ⟨Nat.not_le.mpr hbound, Nat.not_lt.mpr hmin⟩),
    if_neg (by omega)]

/-- `verifyHeaders(chain, headers, index)`: the first header's parent comes from the chain, a later
header's is the header before it if that one links to it; a header the chain already holds passes
unchecked. -/
def verifyHeaders (blockHash : Header → Hash) (chain : ChainReader) (now : Int)
    (headers : List Header) (index : Nat) : Except VerifyError Unit :=
  match headers[index]? with
  -- the engine only asks for indices of the batch
  | none => .ok ()
  | some header =>
      let parent := if index = 0 then
          chain.getHeader header.parentHash (toUint64 (toUint64 header.number - 1))
        else (headers[index - 1]?).filter fun prev => blockHash prev == header.parentHash
      match parent with
      | none => .error .unknownAncestor
      | some parent =>
          if (chain.getHeader (blockHash header) (toUint64 header.number)).isSome then .ok ()
          else verifyHeader now header parent

def checkInShuffleList (shuffle : ShuffleList) (address : Address) : Bool :=
  shuffle.shuffleDels.any (·.address == address)

section

variable (c : Crypto) (blockHash : Header → Hash) (chain : ChainReader) (now : Int)

/-- `VerifyHeaderAndSign`, at the local time `now`: the block's time lies in the current slot
window, the header is valid, and the coinbase holds the slot of the block's time in `shuffle` and
signed the block. The outer `Except` is a panic. -/
def verifyHeaderAndSign (block : Block) (shuffle : ShuffleList) (blockInterval : Nat) :
    Except GoPanic (Except VerifyError Unit) :=
  let header := block.header
  let parent := chain.getHeader header.parentHash (toUint64 (toUint64 header.number - 1))
  let blockTime := toInt64 (toUint64 header.time)
  if now < blockTime ∨ toInt64 (blockTime + blockInterval) ≤ now then .ok (.error .blockTimeExpire)
  else
    match parent with
    | none => .ok (.error .unknownAncestor)
    | some parent =>
        match verifyHeader now header parent with
        | .error e => .ok (.error e)
        | .ok () =>
            if block.signature.length = 0 then .ok (.error .missSignature)
            else
              match shuffle.shuffleDels.find? (·.address == header.coinbase) with
              | none => .ok (.error .coinbaseNotInShuffleList)
              | some delegate =>
                  if toUint64 header.time ≠ delegate.workTime then .ok (.error .timeStampNotSame)
                  else
                    (signerAddress c (blockHash header) block.signature).map fun pubAddress =>
                      if pubAddress ≠ header.coinbase then .error .signAddressError else .ok ()

/-- `VerifyBlockGenerate`: `VerifyHeaderAndSign`, then more than `(maxElectDelegate / 3) * 2`
distinct members of the round among the signers of the decoded confirmations. `decodeVoteSigns`
is `rlp.DecodeBytes` into `[]types.VoteSign`. -/
def verifyBlockGenerate (decodeVoteSigns : List UInt8 → Except String (List VoteSign))
    (block : Block) (shuffle : ShuffleList) (blockInterval maxElectDelegate : Nat) :
    Except GoPanic (Except VerifyError Unit) :=
  let delegateAmount := (maxElectDelegate / 3) * 2
  match verifyHeaderAndSign c blockHash chain now block shuffle blockInterval with
  | .error p => .error p
  | .ok (.error e) => .ok (.error e)
  | .ok (.ok ()) =>
      match decodeVoteSigns block.rlpEncodeSigns with
      | .error message => .ok (.error (.rlpDecode message))
      | .ok signs =>
          let checked : Except GoPanic (SortedMap Address Unit) := signs.foldlM (fun m sign =>
            (signerAddress c (blockHash block.header) sign.sign).map fun address =>
              if checkInShuffleList shuffle address then m.insert address () else m) ∅
          checked.map fun m =>
            if delegateAmount < m.keys.length then .ok () else .error .signNotEnough

end

/-- A signature of any length but 65 makes `RecoverPubkey` fail, and the nil key is then
dereferenced. -/
theorem signerAddress_of_bad_length (c : Crypto) (msg : Hash) {sig : List UInt8}
    (hlen : sig.length ≠ 65) : signerAddress c msg sig = .error .nilDereference := by
  simp [signerAddress, recoverPubkey, checkSignature, hlen, toECDSAPub]

section

variable (c : Crypto) (blockHash : Header → Hash) (chain : ChainReader) (now : Int)

/-- A block that passes every check before the signature, signed with non-empty bytes of a length
other than 65, panics `VerifyHeaderAndSign`. -/
theorem verifyHeaderAndSign_malformed_signature {block : Block} {shuffle : ShuffleList}
    {blockInterval : Nat} {parent : Header} {delegate : ShuffleDel}
    (hwindow : ¬(now < toInt64 (toUint64 block.header.time) ∨
      toInt64 (toInt64 (toUint64 block.header.time) + blockInterval) ≤ now))
    (hparent : chain.getHeader block.header.parentHash
      (toUint64 (toUint64 block.header.number - 1)) = some parent)
    (hheader : verifyHeader now block.header parent = .ok ())
    (hslot : shuffle.shuffleDels.find? (·.address == block.header.coinbase) = some delegate)
    (hwork : toUint64 block.header.time = delegate.workTime)
    (hne : block.signature ≠ []) (hlen : block.signature.length ≠ 65) :
    verifyHeaderAndSign c blockHash chain now block shuffle blockInterval =
      .error .nilDereference := by
  have hsigned : block.signature.length ≠ 0 := by
    intro hzero
    exact hne (List.eq_nil_of_length_eq_zero hzero)
  unfold verifyHeaderAndSign
  dsimp only
  rw [if_neg hwindow, hparent]
  dsimp only
  rw [hheader]
  dsimp only
  rw [if_neg hsigned, hslot]
  dsimp only
  rw [if_neg (not_not.mpr hwork), signerAddress_of_bad_length c _ hlen]
  rfl

/-- Once the header and the signature pass and the confirmations decode, `VerifyBlockGenerate`
is the count of the round's members among their signers. -/
theorem verifyBlockGenerate_of_decoded
    {decodeVoteSigns : List UInt8 → Except String (List VoteSign)} {block : Block}
    {shuffle : ShuffleList} {blockInterval maxElectDelegate : Nat} {signs : List VoteSign}
    (hheader : verifyHeaderAndSign c blockHash chain now block shuffle blockInterval = .ok (.ok ()))
    (hdecode : decodeVoteSigns block.rlpEncodeSigns = .ok signs) :
    verifyBlockGenerate c blockHash chain now decodeVoteSigns block shuffle blockInterval
        maxElectDelegate =
      (signs.foldlM (fun (m : SortedMap Address Unit) sign =>
          (signerAddress c (blockHash block.header) sign.sign).map fun address =>
            if checkInShuffleList shuffle address then m.insert address () else m) ∅).map
        fun m => if (maxElectDelegate / 3) * 2 < m.keys.length then .ok () else .error .signNotEnough := by
  -- Unfolding the applied constant makes the kernel compare it with a match on the header check
  -- and reduce that check, 64-bit arithmetic on free variables included; unfolding the constant
  -- alone leaves it the same body to compare with.
  have hdef : @verifyBlockGenerate = @verifyBlockGenerate := rfl
  conv at hdef => rhs; delta verifyBlockGenerate
  rw [hdef]
  beta_reduce
  rw [hheader]
  dsimp only
  rw [hdecode]

end

/-- A header at height 0, time 100, with the genesis gas limit. -/
def parentHeader : Header :=
  { parentHash := 0, coinbase := 0, root := ∅, txHash := 0, receiptHash := 0, bloom := 0,
    number := 0, gasLimit := Params.TargetGasLimit, gasUsed := 0, time := 100, extra := [],
    agentName := [], delegateRoot := ∅, shuffleHash := 0, shuffleBlockNumber := 0 }

/-- Its child by delegate 7 at time 110, signed with the single byte 0. -/
def oneByteSignedBlock : Block :=
  { header := { parentHeader with parentHash := 1, coinbase := 7, number := 1, time := 110 },
    transactions := [], signature := [0], rlpEncodeSigns := [] }

/-- A round in which delegate 7 holds the slot at time 110. -/
def slotOfSeven : ShuffleList := ⟨[⟨110, 7, 0, ""⟩]⟩

/-- Recovery that always fails, and a constant hash. -/
def failingCrypto : Crypto := ⟨fun _ _ => none, fun _ => none, fun _ => 0⟩

/-- A chain that knows `parentHeader`, under the hash 1. -/
def parentChain : ChainReader :=
  ⟨fun hash number => if hash = 1 ∧ number = 0 then some parentHeader else none⟩

theorem verifyHeaderAndSign_one_byte_signature :
    verifyHeaderAndSign failingCrypto (fun _ => 0) parentChain 110 oneByteSignedBlock slotOfSeven 10 =
      .error .nilDereference :=
  @verifyHeaderAndSign_malformed_signature failingCrypto (fun _ => 0) parentChain 110
    oneByteSignedBlock slotOfSeven 10 parentHeader ⟨110, 7, 0, ""⟩ (by decide) (by decide)
    (by decide) (by decide) (by decide) (by decide) (by decide)

end AuroraChain.Dpos
