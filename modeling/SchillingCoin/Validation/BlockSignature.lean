import SchillingCoin.Primitives.Wire
import SchillingCoin.Script.ColdStaking
import SchillingCoin.Script.Destination
import SchillingCoin.Wallet.HDChain

/-!
Signatures of blocks, after `blocksignature.cpp`, and the scripts that spend an output, after `Solver` in `sign.cpp`. The
curve and the hashes are parameters.
-/

namespace SchillingCoin

structure BlockCrypto where
  xevan : List UInt8 → uint256
  hash256 : List UInt8 → uint256
  keys : KeyFunctions
  /-- `CKey::Sign` with a valid key. -/
  sign : CKey → uint256 → valtype
  /-- `CPubKey::Verify` with a valid key. -/
  verify : CPubKey → uint256 → valtype → Bool

namespace Wire.CBlock

variable (block : Wire.CBlock)

def isProofOfWork : Bool := !block.isProofOfStake

def stakedOutput : Option CTxOut := block.vtx[1]?.bind fun tx => tx.vout[1]?

def stakedInput : Option CTxIn := block.vtx[1]?.bind fun tx => tx.vin[0]?

end Wire.CBlock

namespace CPubKey

/-- `CPubKey::Set`. A key that is not valid has no bytes. -/
def set (vch : valtype) : CPubKey := if isValidPubKey vch then vch else []

/-- `CPubKey::Set` from a place of a script to its end. Its first byte is read unless it is empty. -/
def setFrom (s : CScript) (pbegin : Nat) : Option CPubKey :=
  if pbegin = s.length then some [] else s[pbegin]?.map fun _ => set (s.drop pbegin)

def verify (c : BlockCrypto) (pubkey : CPubKey) (hash : uint256) (vchSig : valtype) : Bool :=
  !pubkey.isEmpty && c.verify pubkey hash vchSig

end CPubKey

def CKey.sign (c : BlockCrypto) (key : CKey) (hash : uint256) : Option valtype := if !key.fValid then none else some (c.sign key hash)

structure CKeyStore where
  getKey : CKeyID → Option CKey
  getPubKey : CKeyID → Option CPubKey
  getCScript : valtype → Option CScript := fun _ => none

namespace CKeyStore

variable (c : BlockCrypto) (store : CKeyStore)

def sign1 (hash : uint256) (nHashType : UInt8) (address : CKeyID) : Option CScript :=
  (store.getKey address).bind fun key => (key.sign c hash).map fun vchSig => CScript.pushData (vchSig ++ [nHashType])

/-- The loop of `SignN`: the number of signatures and the script so far. -/
def signKeys (hash : uint256) (nHashType : UInt8) (nRequired : Nat) : List valtype → Nat → CScript → Nat × CScript
  | [], nSigned, scriptSig => (nSigned, scriptSig)
  | pubkey :: rest, nSigned, scriptSig =>
    if nSigned < nRequired then
      match store.sign1 c hash nHashType (c.keys.getID (CPubKey.set pubkey)) with
      | some signature => signKeys hash nHashType nRequired rest (nSigned + 1) (scriptSig ++ signature)
      | none => signKeys hash nHashType nRequired rest nSigned scriptSig
    else (nSigned, scriptSig)

def signN (hash : uint256) (nHashType : UInt8) (multisigdata : List valtype) (scriptSig : CScript) : Option CScript :=
  (multisigdata.head?.bind List.head?).bind fun nRequired =>
    let signed := store.signKeys c hash nHashType nRequired.toNat multisigdata.tail.dropLast 0 scriptSig
    if signed.1 = nRequired.toNat then some signed.2 else none

/-- The `scriptSig` that `SignSignature` writes before it tests it. For a script hash it is the script with that hash. -/
def solver (scriptPubKey : CScript) (hash : uint256) (nHashType : UInt8) (fColdStake : Bool) : Option CScript :=
  match CScript.solver scriptPubKey with
  | some (.TX_PUBKEY, vch :: _) => store.sign1 c hash nHashType (c.keys.getID (CPubKey.set vch))
  | some (.TX_PUBKEYHASH, vch :: _) =>
    (CKeyID.ofBytes vch).bind fun keyID => (store.sign1 c hash nHashType keyID).bind fun signature =>
      (store.getPubKey keyID).map fun pubkey => signature ++ CScript.pushData pubkey
  | some (.TX_SCRIPTHASH, vch :: _) => store.getCScript vch
  | some (.TX_MULTISIG, vSolutions) => store.signN c hash nHashType vSolutions [0x00]
  | some (.TX_COLDSTAKE, stakingKey :: spendingKey :: _) =>
    (CKeyID.ofBytes (if fColdStake then stakingKey else spendingKey)).bind fun keyID =>
      (store.sign1 c hash nHashType keyID).bind fun signature =>
        (store.getPubKey keyID).map fun pubkey => signature ++ CScript.pushInt (if fColdStake then 0x51 else 0) ++ CScript.pushData pubkey
  | _ => none

end CKeyStore

section BlockSignature

variable (c : BlockCrypto)

def Wire.CBlock.getHash (block : Wire.CBlock) : uint256 := block.toCBlockHeader.getHash c.xevan c.hash256

variable (block : Wire.CBlock)

def signBlockWithKey (key : CKey) : Option Wire.CBlock :=
  (key.sign c (block.getHash c)).map fun vchBlockSig => { block with vchBlockSig }

def getKeyIDFromUTXO (txout : CTxOut) : Option CKeyID :=
  match CScript.solver txout.scriptPubKey with
  | some (.TX_PUBKEY, vch :: _) => some (c.keys.getID (CPubKey.set vch))
  | some (.TX_PUBKEYHASH, vch :: _) | some (.TX_COLDSTAKE, vch :: _) => CKeyID.ofBytes vch
  | _ => none

/-- The key by which a block is signed: of the first output of the coinbase that has one, or of the second of the coinstake. -/
def signingKeyID : Option CKeyID :=
  if block.isProofOfWork then block.vtx[0]?.bind fun tx => tx.vout.findSome? (getKeyIDFromUTXO c)
  else block.stakedOutput.bind (getKeyIDFromUTXO c)

/-- The signed block, where `SignBlock` returns true. -/
def signBlock (store : CKeyStore) (block : Wire.CBlock) : Option Wire.CBlock :=
  (signingKeyID c block).bind fun keyID => (store.getKey keyID).bind fun key => signBlockWithKey c block key

/-- The public key in the `scriptSig` of a delegated coin, after the signature and the flag; none where a byte outside of it is read. -/
def coldStakePubKey (scriptSig : CScript) : Option CPubKey :=
  scriptSig[0]?.bind fun skipSig =>
    let start := 1 + skipSig.toNat
    scriptSig[start]?.bind fun skipFlag =>
      let start := start + (1 + skipFlag.toNat)
      CPubKey.setFrom scriptSig (start + 1)

/-- The key of the staked output. Other types leave the key as it was made, which is not valid. -/
def blockPubKey (whichType : txnouttype) (vSolutions : List valtype) : Option CPubKey :=
  if whichType = .TX_PUBKEY ∨ whichType = .TX_PUBKEYHASH then vSolutions.head?.map CPubKey.set
  else if whichType = .TX_COLDSTAKE then block.stakedInput.bind fun txin => coldStakePubKey txin.scriptSig
  else some []

def checkBlockSignature : Option Bool :=
  if block.isProofOfWork then some block.vchBlockSig.isEmpty
  else if block.vchBlockSig.isEmpty then some false
  else block.stakedOutput.bind fun txout =>
    match CScript.solver txout.scriptPubKey with
    | none => some false
    | some (whichType, vSolutions) =>
      (blockPubKey block whichType vSolutions).map fun pubkey => CPubKey.verify c pubkey (block.getHash c) block.vchBlockSig

end BlockSignature

variable (scriptSig : CScript)

/-- The script starts with the length of a signature, the signature and the length of a flag, and more bytes follow than that length. -/
def ReachesPubKey : Prop :=
  ∃ skipSig vchSig skipFlag rest, scriptSig = skipSig :: (vchSig ++ skipFlag :: rest) ∧ vchSig.length = skipSig.toNat ∧
    skipFlag.toNat < rest.length

theorem setFrom_isSome_iff (s : CScript) (pbegin : Nat) : (CPubKey.setFrom s pbegin).isSome = true ↔ pbegin ≤ s.length := by
  unfold CPubKey.setFrom
  split
  · next same => simp [same]
  · next other =>
    rw [Option.isSome_map, isSome_getElem?]
    omega

theorem coldStakePubKey_isSome_iff : (coldStakePubKey scriptSig).isSome = true ↔ ReachesPubKey scriptSig := by
  constructor
  · intro reads
    obtain ⟨pubkey, found⟩ := Option.isSome_iff_exists.mp reads
    obtain ⟨skipSig, first, found⟩ := Option.bind_eq_some_iff.mp found
    obtain ⟨skipFlag, second, found⟩ := Option.bind_eq_some_iff.mp found
    have last := (setFrom_isSome_iff _ _).mp (Option.isSome_iff_exists.mpr ⟨pubkey, found⟩)
    obtain ⟨tail, rfl⟩ : ∃ tail, scriptSig = skipSig :: tail := by
      cases scriptSig with
      | nil => cases first
      | cons byte tail => exact ⟨tail, by rw [Option.some.inj first]⟩
    rw [Nat.add_comm 1, List.getElem?_cons_succ] at second
    obtain ⟨inside, at_⟩ := List.getElem?_eq_some_iff.mp second
    refine ⟨skipSig, tail.take skipSig.toNat, skipFlag, tail.drop (skipSig.toNat + 1), ?_, ?_, ?_⟩
    · rw [← at_, List.getElem_cons_drop, List.take_append_drop]
    · rw [List.length_take]
      omega
    · rw [List.length_cons] at last
      rw [List.length_drop]
      omega
  · rintro ⟨skipSig, vchSig, skipFlag, rest, rfl, size, room⟩
    have second : (skipSig :: (vchSig ++ skipFlag :: rest))[1 + skipSig.toNat]? = some skipFlag := by
      rw [Nat.add_comm 1, List.getElem?_cons_succ, ← size, List.getElem?_append_right (Nat.le_refl _), Nat.sub_self]
      rfl
    unfold coldStakePubKey
    simp only [List.getElem?_cons_zero, Option.bind_some, second]
    rw [setFrom_isSome_iff]
    simp only [List.length_cons, List.length_append]
    omega

section Reads

variable {block : Wire.CBlock}

theorem staked_of_proofOfStake (stake : block.isProofOfStake = true) :
    ∃ txin txout, block.stakedInput = some txin ∧ block.stakedOutput = some txout := by
  unfold Wire.CBlock.isProofOfStake at stake
  unfold Wire.CBlock.stakedInput Wire.CBlock.stakedOutput
  split at stake
  · next coinbase tx others filled =>
    rw [filled]
    unfold CTransaction.isCoinStake at stake
    split at stake
    · cases stake
    · next txin inputs spent =>
      simp only at stake
      split at stake
      · cases stake
      · split at stake
        · next first txout outputs paid => exact ⟨txin, txout, by simp [spent], by simp [paid]⟩
        · cases stake
  · cases stake

/-- The block pays its stake to a delegation script and its input carries this `scriptSig`. -/
def StakesDelegated (block : Wire.CBlock) (scriptSig : CScript) : Prop :=
  ∃ txin txout vSolutions, block.stakedInput = some txin ∧ block.stakedOutput = some txout ∧ txin.scriptSig = scriptSig ∧
    CScript.solver txout.scriptPubKey = some (.TX_COLDSTAKE, vSolutions)

/-- `CheckBlockSignature` reads inside of the `scriptSig` exactly when there is nothing to verify, the stake is not delegated, or the lengths in
the `scriptSig` do not lead out of it. -/
theorem check_reads_inside_iff (c : BlockCrypto) (block : Wire.CBlock) :
    (checkBlockSignature c block).isSome = true ↔
      block.isProofOfStake = false ∨ block.vchBlockSig = [] ∨ ∀ scriptSig, StakesDelegated block scriptSig → ReachesPubKey scriptSig := by
  unfold checkBlockSignature Wire.CBlock.isProofOfWork
  cases stake : block.isProofOfStake with
  | false => simp
  | true =>
    simp only [Bool.not_true, Bool.false_eq_true, if_false, Bool.true_eq_false, false_or]
    by_cases unsigned : block.vchBlockSig = []
    · simp [unsigned]
    · rw [if_neg (by simpa using unsigned), or_iff_right unsigned]
      obtain ⟨txin, txout, input, output⟩ := staked_of_proofOfStake stake
      simp only [output, Option.bind_some]
      have delegated_iff : ∀ scriptSig, StakesDelegated block scriptSig ↔
          txin.scriptSig = scriptSig ∧ ∃ vSolutions, CScript.solver txout.scriptPubKey = some (.TX_COLDSTAKE, vSolutions) := by
        intro scriptSig
        constructor
        · rintro ⟨txin', txout', vSolutions, input', output', same, solved⟩
          obtain rfl := Option.some.inj (input.symm.trans input')
          obtain rfl := Option.some.inj (output.symm.trans output')
          exact ⟨same, vSolutions, solved⟩
        · rintro ⟨same, vSolutions, solved⟩
          exact ⟨txin, txout, vSolutions, input, output, same, solved⟩
      simp only [delegated_iff]
      cases solved : CScript.solver txout.scriptPubKey with
      | none => simp
      | some solution =>
        obtain ⟨whichType, vSolutions⟩ := solution
        simp only [Option.isSome_map]
        unfold blockPubKey
        by_cases keyed : whichType = .TX_PUBKEY ∨ whichType = .TX_PUBKEYHASH
        · -- `vSolutions[0]` is there
          rw [if_pos keyed, Option.isSome_map]
          have first : vSolutions.head?.isSome = true := by
            rcases keyed with rfl | rfl
            · obtain ⟨key, rfl, _⟩ := CScript.solver_pubKey solved
              rfl
            · obtain ⟨hash, rfl, _⟩ := CScript.solver_pubKeyHash solved
              rfl
          refine iff_of_true first ?_
          rintro scriptSig ⟨_, other, same⟩
          obtain ⟨rfl, _⟩ := Prod.mk.inj (Option.some.inj same)
          simp at keyed
        · rw [if_neg keyed]
          by_cases cold : whichType = .TX_COLDSTAKE
          · subst cold
            rw [if_pos rfl, input, Option.bind_some, coldStakePubKey_isSome_iff]
            constructor
            · rintro reaches scriptSig ⟨rfl, _⟩
              exact reaches
            · intro all_
              exact all_ txin.scriptSig ⟨rfl, vSolutions, rfl⟩
          · rw [if_neg cold]
            refine iff_of_true rfl ?_
            rintro scriptSig ⟨_, other, same⟩
            exact absurd (Prod.mk.inj (Option.some.inj same)).1 cold

end Reads

def stakeBlock (scriptPubKey : CScript) : Wire.CBlock where
  vtx :=
    [{ hash := 1, vin := [{ prevout := .null }], vout := [{ nValue := 0, scriptPubKey := [] }] },
     { hash := 2, vin := [{ prevout := ⟨5, 0⟩, scriptSig }], vout := [{ nValue := 0, scriptPubKey := [] }, { nValue := 100, scriptPubKey }] }]

def ownerBlockCrypto : BlockCrypto where
  xevan _ := ownerSighash
  hash256 _ := ownerSighash
  keys :=
    { check := fun vch => vch.length == 32
      getPubKey := fun _ => ownerPubKey
      getID := fun pubkey => if pubkey = ownerPubKey then ownerKeyID else stakerKeyID
      getHash := fun _ => 0
      seedHash := fun _ => 0
      setMaster := fun _ => { nChild := 0, chaincode := 0, key := {} }
      deriveKey := fun _ _ => ({}, 0)
      extCoinType := 0 }
  sign _ _ := ownerSignature
  verify pubkey _ vchSig := pubkey == ownerPubKey && vchSig == ownerSignature

/-- The first byte of an empty `scriptSig` is read, and with the length of a signature alone the byte after it. -/
theorem empty_scriptSig_read :
    (checkBlockSignature ownerBlockCrypto
        { stakeBlock [] (getScriptForStakeDelegation stakerKeyID ownerKeyID) with vchBlockSig := ownerSignature }).isSome = false ∧
      (checkBlockSignature ownerBlockCrypto
        { stakeBlock [0x47] (getScriptForStakeDelegation stakerKeyID ownerKeyID) with vchBlockSig := ownerSignature }).isSome = false := by
  decide

structure BlockCrypto.Lawful (c : BlockCrypto) : Prop where
  accepts : ∀ key hash, key.fValid = true → c.verify (c.keys.getPubKey key) hash (c.sign key hash) = true
  size : ∀ key hash, 0 < (c.sign key hash).length ∧ (c.sign key hash).length ≤ 72
  valid : ∀ key, key.fValid = true → isValidPubKey (c.keys.getPubKey key) = true

/-- The store has a key under the hash of its public key, and no other public key has that hash. -/
structure CKeyStore.Keeps (c : BlockCrypto) (store : CKeyStore) : Prop where
  own : ∀ pubkey key, store.getKey (c.keys.getID pubkey) = some key → c.keys.getPubKey key = pubkey
  pubKey : ∀ keyID, store.getPubKey keyID = (store.getKey keyID).map c.keys.getPubKey

/-- The input of a delegated stake has the `scriptSig` by which `SignSignature` signs for the staker. -/
def StakerSigned (c : BlockCrypto) (store : CKeyStore) (block : Wire.CBlock) : Prop :=
  ∀ txin txout vSolutions, block.stakedInput = some txin → block.stakedOutput = some txout →
    CScript.solver txout.scriptPubKey = some (.TX_COLDSTAKE, vSolutions) →
    ∃ hash nHashType, store.solver c txout.scriptPubKey hash nHashType true = some txin.scriptSig

def PaysToPubKeyHash (block : Wire.CBlock) : Prop :=
  ∃ txout vSolutions, block.stakedOutput = some txout ∧ CScript.solver txout.scriptPubKey = some (.TX_PUBKEYHASH, vSolutions)

theorem set_valid (valid : isValidPubKey vch = true) : CPubKey.set vch = vch := if_pos valid

theorem coldStakePubKey_signed (short : vchSig.length ≤ 73) (valid : isValidPubKey pubkey = true) :
    coldStakePubKey (CScript.pushData vchSig ++ CScript.pushInt 0x51 ++ CScript.pushData pubkey) = some pubkey := by
  have flag : CScript.pushInt 0x51 = [0x01, 0x51] := by decide
  have size := isValidPubKey_length valid
  have sigPush : CScript.pushData vchSig = UInt8.ofNat vchSig.length :: vchSig := if_pos (by omega)
  have keyPush : CScript.pushData pubkey = UInt8.ofNat pubkey.length :: pubkey := if_pos (by omega)
  have length : (UInt8.ofNat vchSig.length).toNat = vchSig.length := by
    rw [UInt8.toNat_ofNat']
    omega
  have bytes : CScript.pushData vchSig ++ CScript.pushInt 0x51 ++ CScript.pushData pubkey =
      UInt8.ofNat vchSig.length :: (vchSig ++ 0x01 :: 0x51 :: UInt8.ofNat pubkey.length :: pubkey) := by
    rw [flag, sigPush, keyPush]
    simp
  have second : (UInt8.ofNat vchSig.length :: (vchSig ++ 0x01 :: 0x51 :: UInt8.ofNat pubkey.length :: pubkey))[1 + vchSig.length]? =
      some 0x01 := by
    rw [Nat.add_comm 1, List.getElem?_cons_succ, List.getElem?_append_right (Nat.le_refl _), Nat.sub_self]
    rfl
  have rest : (UInt8.ofNat vchSig.length :: (vchSig ++ 0x01 :: 0x51 :: UInt8.ofNat pubkey.length :: pubkey)).drop (vchSig.length + 4) =
      pubkey := by
    rw [List.drop_succ_cons, List.drop_append, List.drop_of_length_le (by omega)]
    simp
  have one : (0x01 : UInt8).toNat = 1 := rfl
  unfold coldStakePubKey
  rw [bytes]
  simp only [List.getElem?_cons_zero, Option.bind_some, length, second, one]
  have place : 1 + vchSig.length + (1 + 1) + 1 = vchSig.length + 4 := by omega
  rw [place]
  unfold CPubKey.setFrom
  rw [if_neg (by simp only [List.length_cons, List.length_append]; omega), rest, set_valid valid, List.getElem?_eq_getElem
    (by simp only [List.length_cons, List.length_append]; omega)]
  rfl

section Signing

variable {c : BlockCrypto} {store : CKeyStore} {block signed : Wire.CBlock}

theorem signBlock_spec (signs : signBlock c store block = some signed) :
    ∃ keyID key, signingKeyID c block = some keyID ∧ store.getKey keyID = some key ∧ key.fValid = true ∧
      signed = { block with vchBlockSig := c.sign key (block.getHash c) } := by
  obtain ⟨keyID, found, signs⟩ := Option.bind_eq_some_iff.mp signs
  obtain ⟨key, stored, signs⟩ := Option.bind_eq_some_iff.mp signs
  obtain ⟨vchBlockSig, signature, rfl⟩ := Option.map_eq_some_iff.mp signs
  unfold CKey.sign at signature
  split at signature
  · cases signature
  · next valid =>
    obtain rfl := Option.some.inj signature
    exact ⟨keyID, key, found, stored, by simpa using valid, rfl⟩

theorem check_of_pubKey (c : BlockCrypto) (stake : block.isProofOfStake = true) (nonempty : block.vchBlockSig ≠ []) {txout : CTxOut}
    (output : block.stakedOutput = some txout) {whichType : txnouttype} {vSolutions : List valtype}
    (solved : CScript.solver txout.scriptPubKey = some (whichType, vSolutions)) {pubkey : CPubKey}
    (read : blockPubKey block whichType vSolutions = some pubkey) :
    checkBlockSignature c block = some (CPubKey.verify c pubkey (block.getHash c) block.vchBlockSig) := by
  unfold checkBlockSignature Wire.CBlock.isProofOfWork
  rw [stake, if_neg (by simp), if_neg (by simpa using nonempty), output, Option.bind_some, solved]
  simp only [read, Option.map_some]

theorem verify_own (lawful : c.Lawful) {key : CKey} (valid : key.fValid = true) (hash : uint256) :
    CPubKey.verify c (c.keys.getPubKey key) hash (c.sign key hash) = true := by
  have size := isValidPubKey_length (lawful.valid key valid)
  have nonempty : (c.keys.getPubKey key).isEmpty = false := by
    cases bytes : c.keys.getPubKey key with
    | nil =>
      rw [bytes] at size
      simp at size
    | cons _ _ => rfl
  rw [CPubKey.verify, nonempty, lawful.accepts key hash valid]
  rfl

theorem verify_invalid (c : BlockCrypto) {vch : valtype} (short : vch.length = 20) (hash : uint256) (vchSig : valtype) :
    CPubKey.verify c (CPubKey.set vch) hash vchSig = false := by
  have invalid : CPubKey.set vch = [] := by
    refine if_neg fun valid => ?_
    have size := isValidPubKey_length valid
    omega
  rw [CPubKey.verify, invalid]
  rfl

theorem stakerSigned_pubKey (lawful : c.Lawful) (keeps : store.Keeps c)
    (solved : CScript.solver scriptPubKey = some (.TX_COLDSTAKE, [stakingKey, spendingKey])) {hash : uint256}
    {nHashType : UInt8} {scriptSig : CScript} (signature : store.solver c scriptPubKey hash nHashType true = some scriptSig)
    {keyID : CKeyID} (staker : CKeyID.ofBytes stakingKey = some keyID) {key : CKey} (stored : store.getKey keyID = some key) :
    coldStakePubKey scriptSig = some (c.keys.getPubKey key) := by
  unfold CKeyStore.solver at signature
  rw [solved] at signature
  simp only [if_true, staker, Option.bind_some] at signature
  obtain ⟨signed, signs, signature⟩ := Option.bind_eq_some_iff.mp signature
  rw [keeps.pubKey, stored, Option.map_some, Option.map_some] at signature
  obtain rfl := Option.some.inj signature
  rw [CKeyStore.sign1, stored, Option.bind_some] at signs
  obtain ⟨vchSig, made, rfl⟩ := Option.map_eq_some_iff.mp signs
  unfold CKey.sign at made
  split at made
  · cases made
  · next valid =>
    obtain rfl := Option.some.inj made
    have size := lawful.size key hash
    refine coldStakePubKey_signed ?_ (lawful.valid key (by simpa using valid))
    rw [List.length_append, List.length_singleton]
    omega

end Signing

/-- A block that was signed passes the check of its signature exactly when it has proof of stake and its stake is not paid to the hash of a
public key: of another block `CheckBlockSignature` wants no signature, and it takes the hash for a public key. -/
theorem signed_block_accepted_iff (c : BlockCrypto) (lawful : c.Lawful) (store : CKeyStore) (keeps : store.Keeps c)
    (block signed : Wire.CBlock) (signs : signBlock c store block = some signed) (staker : StakerSigned c store block) :
    checkBlockSignature c signed = some true ↔ block.isProofOfStake = true ∧ ¬PaysToPubKeyHash block := by
  obtain ⟨keyID, key, found, stored, valid, rfl⟩ := signBlock_spec signs
  have size := lawful.size key (block.getHash c)
  have nonempty : c.sign key (block.getHash c) ≠ [] := List.ne_nil_of_length_pos size.1
  cases stake : block.isProofOfStake with
  | false =>
    have unsigned : checkBlockSignature c { block with vchBlockSig := c.sign key (block.getHash c) } =
        some (c.sign key (block.getHash c)).isEmpty := by
      unfold checkBlockSignature
      refine if_pos ?_
      show (!block.isProofOfStake) = true
      rw [stake]
      rfl
    rw [unsigned]
    simpa using nonempty
  | true =>
    obtain ⟨txin, txout, input, output⟩ := staked_of_proofOfStake stake
    unfold signingKeyID Wire.CBlock.isProofOfWork at found
    rw [stake, if_neg (by simp), output, Option.bind_some] at found
    have check := fun {whichType vSolutions} (solved : CScript.solver txout.scriptPubKey = some (whichType, vSolutions)) pubkey
        (read : blockPubKey block whichType vSolutions = some pubkey) =>
      @check_of_pubKey { block with vchBlockSig := c.sign key (block.getHash c) } c stake nonempty txout output whichType vSolutions
        solved pubkey read
    have hash_iff : PaysToPubKeyHash block ↔ ∃ vSolutions, CScript.solver txout.scriptPubKey = some (.TX_PUBKEYHASH, vSolutions) := by
      constructor
      · rintro ⟨txout', vSolutions, output', solved⟩
        obtain rfl := Option.some.inj (output.symm.trans output')
        exact ⟨vSolutions, solved⟩
      · rintro ⟨vSolutions, solved⟩
        exact ⟨txout, vSolutions, output, solved⟩
    rw [hash_iff]
    unfold getKeyIDFromUTXO at found
    split at found
    · next vch _ solved =>
      -- the key of a public key is stored under the hash of it
      obtain rfl := Option.some.inj found
      have read := check solved (CPubKey.set vch) (by simp [blockPubKey])
      have own := keeps.own _ _ stored
      rw [read, ← own]
      refine iff_of_true (congrArg some (verify_own lawful valid _)) ⟨rfl, ?_⟩
      rintro ⟨vSolutions, other⟩
      rw [solved] at other
      cases other
    · next vch _ solved =>
      obtain ⟨hash, same, short⟩ := CScript.solver_pubKeyHash solved
      obtain ⟨rfl, _⟩ := List.cons.inj same
      have read := check solved (CPubKey.set vch) (by simp [blockPubKey])
      rw [read, verify_invalid c short]
      exact iff_of_false (by simp) fun both => both.2 ⟨_, solved⟩
    · next vch _ solved =>
      obtain ⟨stakingKey, spendingKey, same, _⟩ := CScript.solver_coldStake solved
      rw [same] at solved
      obtain ⟨rfl, _⟩ := List.cons.inj same
      obtain ⟨hash, nHashType, signature⟩ := staker txin txout _ input output solved
      have inside := stakerSigned_pubKey lawful keeps solved signature found stored
      have read := check solved (c.keys.getPubKey key) (by simp [blockPubKey, input, inside])
      rw [read]
      refine iff_of_true (congrArg some (verify_own lawful valid _)) ⟨rfl, ?_⟩
      rintro ⟨vSolutions, other⟩
      rw [solved] at other
      cases other
    · cases found

def ownerKey : CKey := { keydata := List.replicate 31 0 ++ [1], fCompressed := true, fValid := true }

def ownerStore : CKeyStore where
  getKey keyID := if keyID = ownerKeyID then some ownerKey else none
  getPubKey keyID := if keyID = ownerKeyID then some ownerPubKey else none

theorem ownerBlockCrypto_lawful : ownerBlockCrypto.Lawful where
  accepts _ _ _ := by
    show (ownerPubKey == ownerPubKey && ownerSignature == ownerSignature) = true
    decide
  size _ _ := by
    show 0 < ownerSignature.length ∧ ownerSignature.length ≤ 72
    decide
  valid _ _ := by
    show isValidPubKey ownerPubKey = true
    decide

theorem ownerStore_keeps : ownerStore.Keeps ownerBlockCrypto where
  own pubkey key stored := by
    simp only [ownerStore, ownerBlockCrypto] at stored
    by_cases own : pubkey = ownerPubKey
    · exact own.symm
    · rw [if_neg own, if_neg (by decide)] at stored
      cases stored
  pubKey keyID := by
    simp only [ownerStore]
    split
    · rfl
    · rfl

/-- The `scriptSig` by which the staker spends a delegated coin. -/
def delegatedSig : CScript := CScript.pushData (ownerSignature ++ [0x01]) ++ CScript.pushInt 0x51 ++ CScript.pushData ownerPubKey

theorem delegated_stake_accepted :
    signBlock ownerBlockCrypto ownerStore (stakeBlock delegatedSig (getScriptForStakeDelegation ownerKeyID stakerKeyID)) =
        some { stakeBlock delegatedSig (getScriptForStakeDelegation ownerKeyID stakerKeyID) with vchBlockSig := ownerSignature } ∧
      checkBlockSignature ownerBlockCrypto
        { stakeBlock delegatedSig (getScriptForStakeDelegation ownerKeyID stakerKeyID) with vchBlockSig := ownerSignature } = some true := by
  have signs : signBlock ownerBlockCrypto ownerStore (stakeBlock delegatedSig (getScriptForStakeDelegation ownerKeyID stakerKeyID)) =
      some { stakeBlock delegatedSig (getScriptForStakeDelegation ownerKeyID stakerKeyID) with vchBlockSig := ownerSignature } := by decide
  have solved : CScript.solver (getScriptForStakeDelegation ownerKeyID stakerKeyID) =
      some (.TX_COLDSTAKE, [ownerKeyID.bytes, stakerKeyID.bytes]) := by decide
  refine ⟨signs, (signed_block_accepted_iff ownerBlockCrypto ownerBlockCrypto_lawful ownerStore ownerStore_keeps _ _ signs ?_).mpr
    ⟨by decide, ?_⟩⟩
  · rintro txin txout vSolutions input output _
    obtain rfl := Option.some.inj input
    obtain rfl := Option.some.inj output
    exact ⟨0, 0x01, by decide⟩
  · rintro ⟨txout, vSolutions, output, other⟩
    obtain rfl := Option.some.inj output
    cases solved.symm.trans other

/-- A stake that is paid to the hash of the key, and a block without a stake: both are signed and refused. -/
theorem signed_block_refused :
    ownerBlockCrypto.Lawful ∧ ownerStore.Keeps ownerBlockCrypto ∧
      signBlock ownerBlockCrypto ownerStore (stakeBlock [] ([0x76, 0xa9] ++ CScript.pushData ownerKeyID.bytes ++ [0x88, 0xac])) =
        some { stakeBlock [] ([0x76, 0xa9] ++ CScript.pushData ownerKeyID.bytes ++ [0x88, 0xac]) with vchBlockSig := ownerSignature } ∧
      checkBlockSignature ownerBlockCrypto
        { stakeBlock [] ([0x76, 0xa9] ++ CScript.pushData ownerKeyID.bytes ++ [0x88, 0xac]) with vchBlockSig := ownerSignature } = some false ∧
      signBlock ownerBlockCrypto ownerStore
          { vtx := [{ hash := 1, vin := [], vout := [{ nValue := 0, scriptPubKey := CScript.pushData ownerPubKey ++ [0xac] }] }] } =
        some { vtx := [{ hash := 1, vin := [], vout := [{ nValue := 0, scriptPubKey := CScript.pushData ownerPubKey ++ [0xac] }] }]
               vchBlockSig := ownerSignature } ∧
      checkBlockSignature ownerBlockCrypto
        { vtx := [{ hash := 1, vin := [], vout := [{ nValue := 0, scriptPubKey := CScript.pushData ownerPubKey ++ [0xac] }] }]
          vchBlockSig := ownerSignature } = some false := by
  exact ⟨ownerBlockCrypto_lawful, ownerStore_keeps, by decide⟩

end SchillingCoin
