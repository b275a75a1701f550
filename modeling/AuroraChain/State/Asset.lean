import AuroraChain.State.StateDB
/-!
# Publishing an asset

`types.IsAssetInfoValid` and `StateDB.PublishAsset`. An asset is identified by the address
`crypto.CreateAddress(issuer, nonce)`; publishing raises the issuer's nonce, puts a fresh account at
that address with the asset's data, and credits the whole supply to the issuer.

The fresh account is made by `createObject`, which replaces whatever account the address held, so
coin or assets already sent there are gone (`publishAsset_replaces_account`).

`encoding/json` and Keccak are parameters. Go's `strings.ToUpper` is only used to look for `EM`, and
no other character upper-cases to an ASCII `E` or `M`, so the model upper-cases ASCII letters only.
-/

namespace AuroraChain.State

/-- `types.AssetInfo`; a nil supply is `none`. -/
structure AssetInfo where
  issuer : Option Address
  name : String
  symbol : String
  supply : Option Int
  desc : String
  deriving DecidableEq, Repr

/-- The zero `AssetInfo` a message carries when its transaction has none. -/
def AssetInfo.zero : AssetInfo := ⟨none, "", "", none, ""⟩

def AssetNameMaxLen : Nat := 50
def AssetSymbolMaxLen : Nat := 20
def AssetDescMaxLen : Nat := 1024

/-- `unicode.IsSpace`. -/
def isGoSpace (c : Char) : Bool :=
  c == ' ' || c == '\t' || c == '\n' || c == '\r' || c.toNat == 0x0B || c.toNat == 0x0C ||
    c.toNat == 0x85 || c.toNat == 0xA0 || c.toNat == 0x1680 ||
    (0x2000 ≤ c.toNat && c.toNat ≤ 0x200A) || c.toNat == 0x2028 || c.toNat == 0x2029 ||
    c.toNat == 0x202F || c.toNat == 0x205F || c.toNat == 0x3000

def trimSpace (s : String) : String :=
  String.ofList ((s.toList.dropWhile isGoSpace).reverse.dropWhile isGoSpace).reverse

/-- `illegalSymbol.MatchString(strings.ToUpper(s))` for the pattern `EM|Eminer`. -/
def illegalSymbolMatch (s : String) : Bool :=
  let upper := (s.toList.map Char.toUpper)
  (List.range upper.length).any fun i => (upper.drop i).take 2 == ['E', 'M']

/-- `validSymbol.MatchString` for the pattern `^[a-zA-Z]{1}[a-zA-Z0-9]+$`. -/
def validSymbolMatch (s : String) : Bool :=
  match s.toList with
  | c :: rest@(_ :: _) =>
      (c.isUpper || c.isLower) && rest.all fun d => d.isUpper || d.isLower || d.isDigit
  | _ => false

/-- `IsAssetInfoValid` on a non-nil `AssetInfo`, with its error texts. -/
def isAssetInfoValid (ai : AssetInfo) : Except String Unit :=
  if (trimSpace ai.symbol).utf8ByteSize = 0 ∨ (trimSpace ai.name).utf8ByteSize = 0 then
    .error "name or symbol can not be empty"
  else if ai.symbol.utf8ByteSize > AssetSymbolMaxLen ∨ ai.name.utf8ByteSize > AssetNameMaxLen ∨
      ai.desc.utf8ByteSize > AssetDescMaxLen then
    .error ("Asset name or symbol or desc is too long. maxNameLen:" ++ toString AssetNameMaxLen ++
      "; maxSymbolLen:" ++ toString AssetSymbolMaxLen ++ "; maxDescLen: " ++
      toString AssetDescMaxLen)
  else if illegalSymbolMatch ai.name then .error ("name " ++ ai.name ++ " illegal")
  else if illegalSymbolMatch ai.symbol then .error ("symbol " ++ ai.symbol ++ " illegal")
  else if !validSymbolMatch ai.symbol then .error ("symbol " ++ ai.symbol ++ " invalid")
  else match ai.supply with
    | none => .error "Supply must be greater then 0 "
    | some supply => if supply = 0 then .error "Supply must be greater then 0 " else .ok ()

/-- What publishing uses from outside the repository: `crypto.CreateAddress`, and Keccak of the
JSON encoding of the asset information. -/
structure AssetCodec where
  createAddress : Address → Nat → Address
  assetHash : AssetInfo → Hash

namespace StateDB

/-- `PublishAsset`. An error leaves what was done before it (the caller reverts); the asset id is
`CreateAddress(addr, nonce)` for the issuer's nonce before the increment. The issuer's object is
the pointer taken before `createObject(id)`, so were the id the issuer's own address the credit
would go to the replaced object. -/
def publishAsset (codec : AssetCodec) (s : StateDB) (addr : Address) (assetInfo : AssetInfo) :
    Option String × StateDB :=
  let (stateObject, s) := s.getOrNewStateObject addr
  let assetInfo := { assetInfo with issuer := some addr }
  match isAssetInfoValid assetInfo with
  | .error e => (some e, s)
  | .ok () =>
      let nonce := stateObject.data.nonce
      let (stateObject, s) := stateObject.setNonceJournaled (nonce + 1) s
      let s := s.setStateObject stateObject
      let id := codec.createAddress addr nonce
      let ((assetAccount, _), s) := s.createObject id
      let (assetAccount, s) := assetAccount.setAssetData (codec.assetHash assetInfo) s
      let s := s.setStateObject assetAccount
      let (stateObject, s) := stateObject.addAssetBalance id (assetInfo.supply.getD 0) s
      (none, if id = addr then s else s.setStateObject stateObject)

/-- On success the asset id holds the fresh account `createObject` made, with only the asset data
set, whatever the address held before. -/
theorem publishAsset_asset_account {codec : AssetCodec} {s s' : StateDB} {addr : Address}
    {assetInfo : AssetInfo} (h : s.publishAsset codec addr assetInfo = (none, s'))
    (hid : codec.createAddress addr (s.getOrNewStateObject addr).1.data.nonce ≠ addr) :
    s'.stateObjects.get? (codec.createAddress addr (s.getOrNewStateObject addr).1.data.nonce) =
      some { newObject (codec.createAddress addr (s.getOrNewStateObject addr).1.data.nonce)
        { emptyAccountData with
          assetHash := some (codec.assetHash { assetInfo with issuer := some addr }) }
        with onDirty := false } := by
  have haddr := getOrNewStateObject_address s addr
  unfold publishAsset at h
  rcases hget : s.getOrNewStateObject addr with ⟨obj, s₁⟩
  rw [hget] at h hid haddr
  dsimp only at h hid haddr ⊢
  split at h
  · simp at h
  · set id := codec.createAddress addr obj.data.nonce
    set hash := codec.assetHash { assetInfo with issuer := some addr }
    rcases h1 : obj.setNonceJournaled (obj.data.nonce + 1) s₁ with ⟨obj₂, s₂⟩
    rw [h1] at h
    dsimp only at h
    rcases h2 : (s₂.setStateObject obj₂).createObject id with ⟨⟨acc, prev⟩, s₃⟩
    rw [h2] at h
    dsimp only at h
    rcases h3 : acc.setAssetData hash s₃ with ⟨acc₂, s₄⟩
    rw [h3] at h
    dsimp only at h
    rcases h4 : obj₂.addAssetBalance id (assetInfo.supply.getD 0) (s₄.setStateObject acc₂) with
      ⟨obj₃, s₅⟩
    rw [h4] at h
    dsimp only at h
    simp only [if_neg hid, Prod.mk.injEq, true_and] at h
    subst h
    have hobj₃ : obj₃.address = addr := by
      rw [← haddr, ← StateObject.setNonceJournaled_address obj (obj.data.nonce + 1) s₁, h1,
        ← StateObject.addAssetBalance_address obj₂ id (assetInfo.supply.getD 0)
          (s₄.setStateObject acc₂), h4]
    have hs₅ : s₅.stateObjects = (s₄.setStateObject acc₂).stateObjects := by
      have h := StateObject.addAssetBalance_stateObjects obj₂ id (assetInfo.supply.getD 0)
        (s₄.setStateObject acc₂)
      rw [h4] at h
      exact h
    have hacc : acc = { newObject id emptyAccountData with onDirty := false } := by
      rw [← createObject_fst (s₂.setStateObject obj₂) id, h2]
    have hacc₂ : acc₂ = { acc with data.assetHash := some hash, onDirty := false } := by
      rw [← StateObject.setAssetData_fst acc hash s₃, h3]
    have hne : id ≠ obj₃.address := by rw [hobj₃]; exact hid
    rw [setStateObject_stateObjects, SortedMap.get?_insert, if_neg hne, hs₅, setStateObject_stateObjects,
      SortedMap.get?_insert, hacc₂, hacc]
    simp [newObject]

/-- Coin and assets sent to an asset id before it is published are gone. -/
theorem publishAsset_replaces_account {codec : AssetCodec} {s s' : StateDB} {addr : Address}
    {assetInfo : AssetInfo} (h : s.publishAsset codec addr assetInfo = (none, s'))
    (hid : codec.createAddress addr (s.getOrNewStateObject addr).1.data.nonce ≠ addr) :
    (s'.getBalance (codec.createAddress addr (s.getOrNewStateObject addr).1.data.nonce)).1 = 0 ∧
      ∀ asset, (s'.getAssetBalance (codec.createAddress addr
        (s.getOrNewStateObject addr).1.data.nonce) asset).1 = 0 := by
  have hlive := publishAsset_asset_account h hid
  constructor
  · simp [getBalance, getField, getStateObject, hlive, newObject, emptyAccountData]
  · intro asset
    simp [getAssetBalance, getField, getStateObject, hlive, newObject, emptyAccountData,
      Assets.balanceOf]

end StateDB

/-- The issuer 16, and account 100, the id of its first asset, holding seven units of coin and
three of asset 50. -/
def heldIdTrie : SortedMap Address Account :=
  ((∅ : SortedMap Address Account).insert 16
    { nonce := 0, balance := 0, codeHash := emptyCodeHash, lockBalance := 0, voteList := [],
      assetList := ∅, assetHash := none }).insert 100
    { nonce := 0, balance := 7, codeHash := emptyCodeHash, lockBalance := 0, voteList := [],
      assetList := (∅ : Assets).insert 50 3, assetHash := none }

/-- Asset ids `CreateAddress(a, n) = 100 + n`. -/
def idsFromHundred : AssetCodec := ⟨fun _ n => Fin.ofNat _ (100 + n), fun _ => 0⟩

/-- One thousand units of Gold. -/
def goldInfo : AssetInfo := ⟨none, "Gold", "GLD", some 1000, ""⟩

theorem publishAsset_replaces_account_held :
    ((StateDB.new heldIdTrie).getBalance 100).1 = 7 ∧
      ((StateDB.new heldIdTrie).getAssetBalance 100 50).1 = 3 ∧
      (StateDB.new heldIdTrie).publishAsset idsFromHundred 16 goldInfo =
        (none, ((StateDB.new heldIdTrie).publishAsset idsFromHundred 16 goldInfo).2) ∧
      idsFromHundred.createAddress 16 ((StateDB.new heldIdTrie).getOrNewStateObject 16).1.data.nonce ≠
        16 ∧
      (((StateDB.new heldIdTrie).publishAsset idsFromHundred 16 goldInfo).2.getBalance
          (idsFromHundred.createAddress 16
            ((StateDB.new heldIdTrie).getOrNewStateObject 16).1.data.nonce)).1 = 0 ∧
        ∀ asset, (((StateDB.new heldIdTrie).publishAsset idsFromHundred 16 goldInfo).2.getAssetBalance
          (idsFromHundred.createAddress 16
            ((StateDB.new heldIdTrie).getOrNewStateObject 16).1.data.nonce) asset).1 = 0 := by
  have h : (StateDB.new heldIdTrie).publishAsset idsFromHundred 16 goldInfo =
      (none, ((StateDB.new heldIdTrie).publishAsset idsFromHundred 16 goldInfo).2) :=
    Prod.ext (by decide) rfl
  have hid : idsFromHundred.createAddress 16
      ((StateDB.new heldIdTrie).getOrNewStateObject 16).1.data.nonce ≠ 16 := by decide
  exact ⟨by decide, by decide, h, hid, StateDB.publishAsset_replaces_account h hid⟩

end AuroraChain.State
