/-
  Hashes, addresses and signatures (`BlockchainUtils.cpp`, `utils/crypto.cpp`).

  OpenSSL, libsecp256k1 and the helpers of libmhsupport are parameters
  (`Crypto`, `Support`); the code around them is translated.  OpenSSL is
  initialised when the program starts.

  The size of a public key is kept in an `int` by `get_address_comp`;
  `lastPoint` makes this explicit.
-/
import TorrentNode.Utils.Serialize

open Wire

namespace TorrentNode

/-! ## Libraries -/

/-- A byte string of a fixed length. -/
abbrev Digest (n : ℕ) := { h : Bytes // h.length = n }

/-- A byte string whose length OpenSSL keeps in an `int`. -/
abbrev Der := { bs : Bytes // bs.length < 2 ^ 31 }

/-- OpenSSL and libsecp256k1, as far as the node uses them. -/
structure Crypto where
  /-- `EVP_PKEY`, a public key of OpenSSL -/
  EvpKey : Type
  /-- `EC_KEY` -/
  EcKey : Type
  /-- `ECDSA_SIG` -/
  Signature : Type
  /-- `secp256k1_pubkey` -/
  SecpKey : Type
  sha256 : Bytes → Digest 32
  ripemd160 : Bytes → Digest 20
  d2iPubkey : Bytes → Option EvpKey
  d2iEcdsaSig : Bytes → Option Signature
  /-- null for a key of another algorithm -/
  evpPkeyGet1EcKey : EvpKey → Option EcKey
  ecdsaDoVerify : Bytes → Signature → Option EcKey → Bool
  /-- load a private key and write its public key (`i2d_PUBKEY`) -/
  publicKeyOf : Bytes → Option Der
  /-- load a private key and sign the SHA-256 digest of a message -/
  digestSign : Bytes → Bytes → Option Der
  ecPubkeyCreate : Bytes → Option SecpKey
  /-- in uncompressed form -/
  ecPubkeySerialize : SecpKey → Digest 65
  ecPubkeyParse : Bytes → Option SecpKey
  /-- sign a hash with a secret key and write the signature in DER form -/
  ecdsaSign : Bytes → Bytes → Option Der

/-- The helpers of libmhsupport. -/
structure Support where
  toHex : Bytes → Bytes
  fromHex : Bytes → Except Exn Bytes
  toLower : Bytes → Bytes

/-! ## Hexadecimal strings -/

/-- The digit of a number below 16. -/
def hexDigit (n : UInt8) : UInt8 := if n < 10 then '0'.toUInt8 + n else 'a'.toUInt8 + (n - 10)

/-- The two characters of `HexLookup` for a byte. -/
def hexByte (b : UInt8) : Bytes := [hexDigit (b / 16), hexDigit (b % 16)]

/-- `bin2hex(message)`; the index of its loop has 32 bits. -/
def bin2hex (message : Bytes) : Exec Exn Bytes :=
  if message.length < 2 ^ 32 then .ok (message.flatMap hexByte) else .outOfFuel

/-- `DecLookup`. -/
def decLookup (c : UInt8) : UInt8 :=
  if '0'.toUInt8 ≤ c ∧ c ≤ '9'.toUInt8 then c - '0'.toUInt8
  else if 'A'.toUInt8 ≤ c ∧ c ≤ 'F'.toUInt8 then c - 'A'.toUInt8 + 10
  else if 'a'.toUInt8 ≤ c ∧ c ≤ 'f'.toUInt8 then c - 'a'.toUInt8 + 10
  else 0

/-- The loop of `hex2bin`; behind an odd last digit stands the final zero of the string. -/
def hex2binLoop : Bytes → Bytes
  | [] => []
  | [c] => [decLookup c <<< 4 ||| decLookup 0]
  | c₁ :: c₂ :: cs => (decLookup c₁ <<< 4 ||| decLookup c₂) :: hex2binLoop cs

/-- `hex2bin(src)`; the index of its loop has 32 bits and grows by two. -/
def hex2bin (src : Bytes) : Exec Exn Bytes :=
  if src.length ≤ 2 ^ 32 - 2 then
    .ok (hex2binLoop
      (if 2 < src.length ∧ src.take 2 = ascii ['0', 'x'] then src.drop 2 else src))
  else .outOfFuel

/-- A property of the digits is checked on the sixteen of them. -/
theorem hexDigit_of_all {P : UInt8 → UInt8 → Prop}
    (hall : ∀ n : Fin 16, P (UInt8.ofNat n) (hexDigit (UInt8.ofNat n))) {n : UInt8} (h : n < 16) :
    P n (hexDigit n) := by
  have hn : n.toNat < 16 := h
  have := hall ⟨n.toNat, hn⟩
  simpa using this

/-- The two halves of a byte are digits. -/
theorem halves_lt (b : UInt8) : b / 16 < 16 ∧ b % 16 < 16 := by
  have hb := b.toNat_lt
  constructor
  · rw [UInt8.lt_iff_toNat_lt, UInt8.toNat_div]
    show b.toNat / 16 < 16
    omega
  · rw [UInt8.lt_iff_toNat_lt, UInt8.toNat_mod]
    show b.toNat % 16 < 16
    omega

theorem hexDigit_lookup (n : UInt8) (h : n < 16) : decLookup (hexDigit n) = n :=
  hexDigit_of_all (P := fun n c => decLookup c = n) (by decide) h

theorem hexByte_lookup (b : UInt8) :
    decLookup (hexDigit (b / 16)) <<< 4 ||| decLookup (hexDigit (b % 16)) = b := by
  obtain ⟨h1, h2⟩ := halves_lt b
  rw [hexDigit_lookup _ h1, hexDigit_lookup _ h2]
  have hall : ∀ b : Fin 256, (UInt8.ofNat b / 16) <<< 4 ||| (UInt8.ofNat b % 16) = UInt8.ofNat b := by
    decide +kernel
  have := hall ⟨b.toNat, b.toNat_lt⟩
  simpa using this

theorem hex2binLoop_flatMap (bs : Bytes) : hex2binLoop (bs.flatMap hexByte) = bs := by
  induction bs with
  | nil => rfl
  | cons b bs ih =>
    show hex2binLoop (hexDigit (b / 16) :: hexDigit (b % 16) :: bs.flatMap hexByte) = b :: bs
    rw [hex2binLoop, ih, hexByte_lookup]

@[simp] theorem flatMap_hexByte_length (bs : Bytes) : (bs.flatMap hexByte).length = 2 * bs.length := by
  induction bs with
  | nil => rfl
  | cons b bs ih => simp [List.flatMap_cons, hexByte, ih]; omega

theorem hexDigit_ne_x (n : UInt8) (h : n < 16) : hexDigit n ≠ 'x'.toUInt8 :=
  hexDigit_of_all (P := fun _ c => c ≠ 'x'.toUInt8) (by decide) h

theorem hex2bin_flatMap {bs : Bytes} (h : bs.length < 2 ^ 31) :
    hex2bin (bs.flatMap hexByte) = .ok bs := by
  have hno : ¬ (2 < (bs.flatMap hexByte).length ∧
      (bs.flatMap hexByte).take 2 = ascii ['0', 'x']) := by
    rintro ⟨-, htake⟩
    cases bs with
    | nil => simp [ascii] at htake
    | cons b bs =>
      have hx : hexDigit (b % 16) = 'x'.toUInt8 := (List.cons.inj (List.cons.inj htake).2).1
      refine hexDigit_ne_x _ ?_ hx
      rw [UInt8.lt_iff_toNat_lt, UInt8.toNat_mod]; simp; omega
  rw [hex2bin, if_pos (by rw [flatMap_hexByte_length]; omega), if_neg hno, hex2binLoop_flatMap]

/-! ## Hashes and addresses -/

section
variable (C : Crypto)

/-- `get_double_sha256(data, size)`. -/
def getDoubleSha256 (data : Bytes) : Digest 32 := C.sha256 (C.sha256 data).1

/-- The conversion of a size to `int`. -/
def toInt32 (n : ℕ) : ℤ := if n % 2 ^ 32 < 2 ^ 31 then (n % 2 ^ 32 : ℕ) else (n % 2 ^ 32 : ℕ) - 2 ^ 32

/-- The 65 bytes of a public key that `get_address_comp` hashes, with their first byte set. -/
def lastPoint (bpubk : Bytes) : Option Bytes :=
  let datasize := toInt32 bpubk.length
  if 65 ≤ datasize then
    let pos := datasize.toNat - 65
    some (slice (bpubk.set pos 4) pos 65)
  else none

/-- `get_address_comp(bpubk, wide_h, hash2)`. -/
def getAddressComp (bpubk : Bytes) : Option (Digest 21 × Digest 32) :=
  (lastPoint bpubk).map fun point =>
    let r160 := C.ripemd160 (C.sha256 point).1
    let wideH : Digest 21 := ⟨0 :: r160.1, by simp [r160.2]⟩
    (wideH, C.sha256 (C.sha256 wideH.1).1)

/-- `get_address(bpubk)`. -/
def getAddress (bpubk : Bytes) : Bytes :=
  match getAddressComp C bpubk with
  | none => ascii ['I', 'n', 'v', 'a', 'l', 'i', 'd']
  | some (wideH, hash2) =>
    ascii ['0', 'x'] ++ wideH.1.flatMap hexByte ++ (hash2.1.take 4).flatMap hexByte

/-- `get_address_bin(bpubk)`. -/
def getAddressBin (bpubk : Bytes) : Bytes :=
  match getAddressComp C bpubk with
  | none => []
  | some (wideH, hash2) => wideH.1 ++ hash2.1.take 4

/-- `makeAddressFromSecpKey(pubkey)`. -/
def makeAddressFromSecpKey (pubkey : Bytes) : Exec Exn Bytes :=
  match C.ecPubkeyParse pubkey with
  | none => .throw (.common "Incorrect pubkey")
  | some key => .ok (getAddress C (C.ecPubkeySerialize key).1)

/-- `crypto_check_sign_data(sign, public_key, data, data_size)`. -/
def cryptoCheckSignData (sign publicKey data : Bytes) : Bool :=
  match C.d2iPubkey publicKey, C.d2iEcdsaSig sign with
  | some pubkey, some signature =>
    C.ecdsaDoVerify (C.sha256 data).1 signature (C.evpPkeyGet1EcKey pubkey)
  | _, _ => false

/-! ## `utils/crypto.cpp` -/

/-- `crypto_generate_address(public_key_buf, address_buf)`: the last 65 bytes as they are. -/
def cryptoGenerateAddress (publicKeyBuf : Bytes) : Exec Exn Bytes :=
  if publicKeyBuf.length < 65 then .undef (.readOutside 0)
  else
    let buf2 := C.sha256 (slice publicKeyBuf (publicKeyBuf.length - 65) 65)
    let buf3 := 0 :: (C.ripemd160 buf2.1).1
    .ok (buf3 ++ (C.sha256 (C.sha256 buf3).1).1.take 4)

/-- `CRYPTO_generate_public(private_key, public_key, password)`. -/
def cryptoGeneratePublic (privateKey : Bytes) : Exec Exn Bytes := do
  let privateKeyBuf ← hex2bin privateKey
  match C.publicKeyOf privateKeyBuf with
  | none => .throw (.std "Cannot load private key from BIO")
  | some publicKeyBuf => bin2hex publicKeyBuf.1

/-- `CRYPTO_generate_address(public_key, mh_address)`. -/
def cryptoGenerateAddressHex (publicKey : Bytes) : Exec Exn Bytes := do
  let publicKeyBuf ← hex2bin publicKey
  let addressBuf ← cryptoGenerateAddress C publicKeyBuf
  bin2hex addressBuf

/-- `CRYPTO_sign_text(sign, private_key, text)`: the size of the text is converted to `int`. -/
def cryptoSignText (privateKey text : Bytes) : Exec Exn Bytes := do
  let privateKeyBuf ← hex2bin privateKey
  -- a negative size becomes a huge one again
  if toInt32 text.length < 0 then .undef (.readOutside text.length)
  else
    match C.digestSign privateKeyBuf (text.take (toInt32 text.length).toNat) with
    | none => .throw (.std "Cannot sign the data")
    | some sign => .ok sign.1

theorem getAddressBin_length {bpubk : Bytes} (h : 65 ≤ toInt32 bpubk.length) :
    (getAddressBin C bpubk).length = 25 := by
  have hs : (lastPoint bpubk).isSome := by simp [lastPoint, h]
  obtain ⟨point, hp⟩ := Option.isSome_iff_exists.1 hs
  simp only [getAddressBin, getAddressComp, hp, Option.map_some, List.length_append,
    List.length_take, (C.sha256 _).2, List.length_cons, (C.ripemd160 _).2]
  norm_num

theorem getAddressBin_invalid {bpubk : Bytes} (h : ¬ 65 ≤ toInt32 bpubk.length) :
    getAddressBin C bpubk = [] := by
  simp [getAddressBin, getAddressComp, lastPoint, h]

end

theorem toInt32_of_lt {n : ℕ} (h : n < 2 ^ 31) : toInt32 n = n := by
  have hm : n % 2 ^ 32 = n := Nat.mod_eq_of_lt (by omega)
  rw [toInt32, hm, if_pos h]

end TorrentNode
