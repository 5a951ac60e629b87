/-
  The signing key of the node and the envelope of a signed block dump
  (`PrivateKey.h`, `PrivateKey.cpp`).

  A dump is sent as its size, the dump, and three strings: the signature, the
  public key and the address of the signer.

  Whether a client accepts the envelope is settled in `PrivateKey.Envelope`.
-/
import TorrentNode.BlockchainUtils

open Wire

namespace TorrentNode

/-! ## The key -/

/-- `class PrivateKey`. -/
structure PrivateKey where
  privateKey : Bytes
  pubk : Bytes
  address : Bytes
  isSecp : Bool
deriving DecidableEq

section
variable (C : Crypto) (S : Support)

namespace PrivateKey

/-- The `try` block of the constructor: the public key, if the address matches. -/
def secpKey (key address : Bytes) : Exec Exn Bytes :=
  -- 32 bytes behind the first seven are read
  if key.length < 39 then .undef (.readOutside key.length)
  else
    match C.ecPubkeyCreate (slice key 7 32) with
    | none => .throw (.common "Incorrect private key")
    | some pubkey => do
      let pubk := (C.ecPubkeySerialize pubkey).1
      check (getAddress C pubk = S.toLower address) "Incorrect private key or address"
      return pubk

/-- The `catch` block of the constructor. -/
def derKey (key address : Bytes) : Exec Exn Bytes := do
  let pubkey ← cryptoGeneratePublic C (S.toHex key)
  let pubk ← Exec.ofExcept (S.fromHex pubkey)
  let calculatedAddress ← cryptoGenerateAddressHex C pubkey
  check (ascii ['0', 'x'] ++ calculatedAddress = S.toLower address)
    "Incorrect private key or address"
  return pubk

/-- `PrivateKey(key, address)`. -/
def new (key address : Bytes) : Exec Exn PrivateKey :=
  match secpKey C S key address with
  | .ok pubk => .ok ⟨key, pubk, address, true⟩
  | .throw (.common _) => do
    let pubk ← derKey C S key address
    return ⟨key, pubk, address, false⟩
  | .throw exn => .throw exn
  | .undef u => .undef u
  | .outOfFuel => .outOfFuel

/-- `sign(data)`. -/
def sign (k : PrivateKey) (data : Bytes) : Exec Exn Bytes :=
  if k.isSecp then
    match C.ecdsaSign (C.sha256 data).1 (slice k.privateKey 7 32) with
    | none => .throw (.common "Dont create signature")
    | some result => .ok result.1
  else cryptoSignText C (S.toHex k.privateKey) data

end PrivateKey

/-! ## The envelope -/

/-- `makeFirstPartBlockSign(blockSize)`. -/
def makeFirstPartBlockSign (blockSize : ℕ) : Bytes := serializeIntBigEndian 8 blockSize

/-- The part of the envelope behind the dump. -/
def signPart (sign pubkey address : Bytes) : Bytes :=
  serializeStringBigEndian sign ++ (serializeStringBigEndian pubkey ++
    serializeStringBigEndian address)

/-- `makeBlockSign(blockDump, privateKey)`. -/
def makeBlockSign (blockDump : Bytes) (privateKey : PrivateKey) : Exec Exn Bytes := do
  let sign ← privateKey.sign C S blockDump
  stdString (signPart sign privateKey.pubk privateKey.address)

/-- `struct BlockSignatureCheckResult`. -/
structure BlockSignatureCheckResult where
  block : Bytes
  sign : Bytes
  pubkey : Bytes
  address : Bytes
deriving DecidableEq

/-- `checkSignatureBlock(blockDump)`. -/
def checkSignatureBlock (blockDump : Bytes) : Exec Exn BlockSignatureCheckResult := do
  let (block, pos) ← deserializeStringBigEndian blockDump 0
  let (sign, pos) ← deserializeStringBigEndian blockDump pos
  let (pubkey, pos) ← deserializeStringBigEndian blockDump pos
  let (address, _) ← deserializeStringBigEndian blockDump pos
  check (cryptoCheckSignData C sign pubkey block = true) "Not validate"
  match makeAddressFromSecpKey C pubkey with
  | .ok calculatedAddress =>
    -- the exception of a mismatch is caught as well
    if calculatedAddress = address then return ⟨block, sign, pubkey, address⟩
    check (getAddress C pubkey = address) "Not validate"
    return ⟨block, sign, pubkey, address⟩
  | .throw (.common _) =>
    check (getAddress C pubkey = address) "Not validate"
    return ⟨block, sign, pubkey, address⟩
  | r => r >>= fun _ => .ok ⟨block, sign, pubkey, address⟩

/-- The signed dump that a client puts together. -/
def signedDump (dump : Bytes) (privateKey : PrivateKey) : Exec Exn Bytes := do
  let part ← makeBlockSign C S dump privateKey
  stdString (makeFirstPartBlockSign dump.length ++ (dump ++ part))

/-- The envelope of a dump is accepted and gives back the dump, the signature and the key. -/
def Accepted (privateKey : PrivateKey) (dump : Bytes) : Prop :=
  ∃ sign envelope, privateKey.sign C S dump = .ok sign ∧
    signedDump C S dump privateKey = .ok envelope ∧
    checkSignatureBlock C envelope = .ok ⟨dump, sign, privateKey.pubk, privateKey.address⟩

end

/-- An elliptic-curve key in DER form. -/
def Crypto.IsEcKey (C : Crypto) (pubk : Bytes) : Prop :=
  ∃ k, C.d2iPubkey pubk = some k ∧ (C.evpPkeyGet1EcKey k).isSome

/-- What the node relies on: an elliptic-curve key signs, and its signatures are accepted with its
    public key; a null key accepts nothing; DER keys are sequences; serialized points begin with
    `0x04`, and only points of 33 or 65 bytes are parsed. -/
structure Crypto.Lawful (C : Crypto) : Prop where
  verify_sign : ∀ key pubkey data k e, C.publicKeyOf key = some pubkey →
    C.d2iPubkey pubkey.1 = some k → C.evpPkeyGet1EcKey k = some e →
      ∃ sign s, C.digestSign key data = some sign ∧ C.d2iEcdsaSig sign.1 = some s ∧
        C.ecdsaDoVerify (C.sha256 data).1 s (some e) = true
  verify_null : ∀ hash s, C.ecdsaDoVerify hash s none = false
  d2i_sequence : ∀ bs k, C.d2iPubkey bs = some k → bs.head? = some 0x30
  serialize_head : ∀ k, (C.ecPubkeySerialize k).1.head? = some 0x04
  parse_point : ∀ bs k, C.ecPubkeyParse bs = some k →
    bs.length = 33 ∧ bs.head? ∈ [some 0x02, some 0x03] ∨
      bs.length = 65 ∧ bs.head? ∈ [some 0x04, some 0x06, some 0x07]

/-- Hexadecimal strings are decoded, and lower-case strings stay as they are. -/
structure Support.Lawful (S : Support) : Prop where
  fromHex_hex : ∀ bs, S.fromHex (bs.flatMap hexByte) = .ok bs
  toLower_lower : ∀ bs : Bytes, (∀ b ∈ bs, ¬ ('A'.toUInt8 ≤ b ∧ b ≤ 'Z'.toUInt8)) → S.toLower bs = bs

end TorrentNode
