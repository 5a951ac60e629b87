/-
  When the envelope of a signed block dump is accepted.

  The producer signs with the library that accepted the key and sends the
  address as it was configured.  `checkSignatureBlock` verifies with OpenSSL
  only, and compares the address with the one `get_address` derives.

  `checkSignatureBlock_of_der`: a client accepts the envelope if the key is a
  DER key of an elliptic curve, both address derivations agree on it, and the
  address is configured in lower case.
  `envelope_accepted_iff` adds that nothing else is accepted.
-/
import TorrentNode.PrivateKey

open Wire

namespace TorrentNode

section
variable {C : Crypto} {S : Support}

/-! ## The constructor -/

/-- The two address derivations agree on a public key. -/
def AddressesAgree (C : Crypto) (pubk : Bytes) : Prop :=
  ∃ a, cryptoGenerateAddress C pubk = .ok a ∧
    getAddress C pubk = ascii ['0', 'x'] ++ a.flatMap hexByte

namespace PrivateKey

/-- The key was accepted by the `catch` block. -/
structure FromDer (C : Crypto) (S : Support) (k : PrivateKey) (privateKeyBuf : Bytes) (pub : Der)
    (a : Bytes) : Prop where
  notSecp : k.isSecp = false
  loaded : hex2bin (S.toHex k.privateKey) = .ok privateKeyBuf
  derived : C.publicKeyOf privateKeyBuf = some pub
  pubk_eq : k.pubk = pub.1
  generated : cryptoGenerateAddress C pub.1 = .ok a
  address_eq : ascii ['0', 'x'] ++ a.flatMap hexByte = S.toLower k.address

theorem cryptoGenerateAddress_eq_ok {pubk a : Bytes} (h : cryptoGenerateAddress C pubk = .ok a) :
    65 ≤ pubk.length ∧ a.length = 25 := by
  unfold cryptoGenerateAddress at h
  split_ifs at h with hlen
  refine ⟨by omega, ?_⟩
  rw [← Exec.ok.inj h]
  simp [(C.ripemd160 _).2, (C.sha256 _).2]

theorem derKey_eq_ok (hS : S.Lawful) {key address pubk : Bytes}
    (h : derKey C S key address = .ok pubk) :
    ∃ buf pub a, FromDer C S ⟨key, pubk, address, false⟩ buf pub a := by
  unfold derKey at h
  obtain ⟨pubkey, hpub, h1⟩ := Exec.bind_eq_ok.1 h
  obtain ⟨pubk', hfrom, h2⟩ := Exec.bind_eq_ok.1 h1
  obtain ⟨calculated, hcalc, h3⟩ := Exec.bind_eq_ok.1 h2
  obtain ⟨_, hcheck, hret⟩ := Exec.bind_eq_ok.1 h3
  clear h h1 h2 h3
  unfold cryptoGeneratePublic at hpub
  obtain ⟨buf, hbuf, hpub⟩ := Exec.bind_eq_ok.1 hpub
  cases hload : C.publicKeyOf buf with
  | none => rw [hload] at hpub; cases hpub
  | some pub =>
    have hlt : pub.1.length < 2 ^ 32 := by have := pub.2; omega
    rw [hload] at hpub
    simp only [bin2hex, if_pos hlt] at hpub
    cases hpub
    rw [hS.fromHex_hex] at hfrom
    cases hfrom
    cases hret
    rw [cryptoGenerateAddressHex, hex2bin_flatMap pub.2, Exec.ok_bind] at hcalc
    obtain ⟨a, ha, hcalc⟩ := Exec.bind_eq_ok.1 hcalc
    have hlen := (cryptoGenerateAddress_eq_ok ha).2
    rw [bin2hex, if_pos (by omega)] at hcalc
    cases hcalc
    exact ⟨buf, pub, a, rfl, hbuf, hload, rfl, ha, check_eq_ok hcheck⟩

/-- A key that is accepted has the raw public key of libsecp256k1, or is a DER key. -/
theorem new_eq_ok (hS : S.Lawful) {key address : Bytes} {k : PrivateKey}
    (h : new C S key address = .ok k) :
    (k.isSecp = true ∧ ∃ p, k.pubk = (C.ecPubkeySerialize p).1) ∨
      ∃ buf pub a, FromDer C S k buf pub a := by
  unfold new at h
  rcases hs : secpKey C S key address with pubk | exn | u | _
  · rw [hs] at h
    cases h
    left
    unfold secpKey at hs
    split_ifs at hs
    cases hp : C.ecPubkeyCreate (slice key 7 32) with
    | none => rw [hp] at hs; cases hs
    | some p =>
      rw [hp] at hs
      obtain ⟨_, -, hs⟩ := Exec.bind_eq_ok.1 hs
      exact ⟨rfl, p, (Exec.ok.inj hs).symm⟩
  · right
    rw [hs] at h
    cases exn with
    | common m =>
      obtain ⟨pubk, hd, h⟩ := Exec.bind_eq_ok.1 h
      cases h
      exact derKey_eq_ok hS hd
    | std m => cases h
  · rw [hs] at h; cases h
  · rw [hs] at h; cases h

end PrivateKey

/-! ## Addresses -/

theorem hexDigit_not_upper (n : UInt8) (h : n < 16) :
    ¬ ('A'.toUInt8 ≤ hexDigit n ∧ hexDigit n ≤ 'Z'.toUInt8) :=
  hexDigit_of_all (P := fun _ c => ¬ ('A'.toUInt8 ≤ c ∧ c ≤ 'Z'.toUInt8)) (by decide) h

theorem flatMap_hexByte_not_upper {bs : Bytes} {c : UInt8} (h : c ∈ bs.flatMap hexByte) :
    ¬ ('A'.toUInt8 ≤ c ∧ c ≤ 'Z'.toUInt8) := by
  obtain ⟨b, -, hc⟩ := List.mem_flatMap.1 h
  obtain ⟨h1, h2⟩ := halves_lt b
  rcases List.mem_cons.1 hc with rfl | hc
  · exact hexDigit_not_upper _ h1
  · rw [List.mem_singleton.1 hc]; exact hexDigit_not_upper _ h2

theorem getAddress_eq {pubk : Bytes} (h : 65 ≤ toInt32 pubk.length) :
    ∃ bs : Bytes, getAddress C pubk = ascii ['0', 'x'] ++ bs.flatMap hexByte := by
  have hs : (lastPoint pubk).isSome := by simp [lastPoint, h]
  obtain ⟨point, hp⟩ := Option.isSome_iff_exists.1 hs
  simp only [getAddress, getAddressComp, hp, Option.map_some, List.append_assoc,
    ← List.flatMap_append]
  exact ⟨_, rfl⟩

/-- A derived address has no upper-case letter. -/
theorem toLower_getAddress (hS : S.Lawful) {pubk : Bytes} (h : 65 ≤ toInt32 pubk.length) :
    S.toLower (getAddress C pubk) = getAddress C pubk := by
  obtain ⟨bs, hbs⟩ := getAddress_eq (C := C) h
  refine hS.toLower_lower _ fun b hb => ?_
  rw [hbs] at hb
  rcases List.mem_append.1 hb with hb | hb
  · rcases List.mem_cons.1 hb with rfl | hb
    · decide
    · rw [List.mem_singleton.1 hb]; decide
  · exact flatMap_hexByte_not_upper hb

/-- The derivations agree on a key that ends with an uncompressed point. -/
theorem addressesAgree_of_uncompressed {pubk : Bytes} (hlt : pubk.length < 2 ^ 31)
    (hlen : 65 ≤ pubk.length) (h : pubk[pubk.length - 65]? = some 4) : AddressesAgree C pubk := by
  have hset : pubk.set (pubk.length - 65) 4 = pubk := by
    obtain ⟨hi, hget⟩ := List.getElem?_eq_some_iff.1 h
    rw [← hget, List.set_getElem_self]
  have hpoint : lastPoint pubk = some (slice pubk (pubk.length - 65) 65) := by
    simp only [lastPoint, toInt32_of_lt hlt, Int.toNat_natCast, hset]
    exact if_pos (by omega)
  refine ⟨_, if_neg (by omega), ?_⟩
  simp only [getAddress, getAddressComp, hpoint, Option.map_some, List.append_assoc,
    ← List.flatMap_append, List.cons_append]

/-! ## The client -/

/-- What was verified when a block is returned. -/
theorem checkSignatureBlock_eq_ok {blockDump : Bytes} {r : BlockSignatureCheckResult}
    (h : checkSignatureBlock C blockDump = .ok r) :
    cryptoCheckSignData C r.sign r.pubkey r.block = true ∧
      (getAddress C r.pubkey = r.address ∨ ∃ p, C.ecPubkeyParse r.pubkey = some p) := by
  unfold checkSignatureBlock at h
  obtain ⟨⟨block, p1⟩, -, h1⟩ := Exec.bind_eq_ok.1 h
  obtain ⟨⟨sign, p2⟩, -, h2⟩ := Exec.bind_eq_ok.1 h1
  obtain ⟨⟨pubkey, p3⟩, -, h3⟩ := Exec.bind_eq_ok.1 h2
  obtain ⟨⟨address, p4⟩, -, h4⟩ := Exec.bind_eq_ok.1 h3
  obtain ⟨_, hcheck, h5⟩ := Exec.bind_eq_ok.1 h4
  clear h h1 h2 h3 h4
  have hverified := check_eq_ok hcheck
  dsimp only [makeAddressFromSecpKey] at h5
  cases hp : C.ecPubkeyParse pubkey with
  | some p =>
    rw [hp] at h5
    dsimp only at h5
    split_ifs at h5
    · cases h5
      exact ⟨hverified, Or.inr ⟨p, hp⟩⟩
    · obtain ⟨_, -, hret⟩ := Exec.bind_eq_ok.1 h5
      cases hret
      exact ⟨hverified, Or.inr ⟨p, hp⟩⟩
  | none =>
    rw [hp] at h5
    obtain ⟨_, haddr, hret⟩ := Exec.bind_eq_ok.1 h5
    cases hret
    exact ⟨hverified, Or.inl (check_eq_ok haddr)⟩

/-- The checks of `checkSignatureBlock`, when the four strings are read. -/
def checkSignature (C : Crypto) (r : BlockSignatureCheckResult) :
    Exec Exn BlockSignatureCheckResult := do
  check (cryptoCheckSignData C r.sign r.pubkey r.block = true) "Not validate"
  match makeAddressFromSecpKey C r.pubkey with
  | .ok calculatedAddress =>
    if calculatedAddress = r.address then return r
    check (getAddress C r.pubkey = r.address) "Not validate"
    return r
  | .throw (.common _) =>
    check (getAddress C r.pubkey = r.address) "Not validate"
    return r
  | x => x >>= fun _ => .ok r

/-- The four strings are read wherever they stand at the beginning, whatever follows them. -/
theorem checkSignatureBlock_standsAt {raw block sign pubkey address : Bytes}
    (hlen : raw.length < 2 ^ 64)
    (h : StandsAt raw 0 (serializeStringBigEndian block ++ signPart sign pubkey address)) :
    checkSignatureBlock C raw = checkSignature C ⟨block, sign, pubkey, address⟩ := by
  rw [signPart, standsAt_append, standsAt_append, standsAt_append] at h
  simp only [serializeStringBigEndian_length] at h
  obtain ⟨hblock, hsign, hpubkey, haddress⟩ := h
  rw [checkSignatureBlock, deserializeStringBigEndian_at hlen hblock, Exec.ok_bind]
  dsimp only
  rw [deserializeStringBigEndian_at hlen hsign, Exec.ok_bind]
  dsimp only
  rw [deserializeStringBigEndian_at hlen hpubkey, Exec.ok_bind]
  dsimp only
  rw [deserializeStringBigEndian_at hlen haddress, Exec.ok_bind]
  rfl

/-- The checks do not change what was read. -/
theorem checkSignature_eq_ok {r r' : BlockSignatureCheckResult} (h : checkSignature C r = .ok r') :
    r' = r := by
  obtain ⟨_, -, h⟩ := Exec.bind_eq_ok.1 h
  rw [makeAddressFromSecpKey] at h
  cases hp : C.ecPubkeyParse r.pubkey with
  | some p =>
    simp only [hp] at h
    split_ifs at h
    · exact (Exec.ok.inj h).symm
    · obtain ⟨_, -, hret⟩ := Exec.bind_eq_ok.1 h
      exact (Exec.ok.inj hret).symm
  | none =>
    simp only [hp] at h
    obtain ⟨_, -, hret⟩ := Exec.bind_eq_ok.1 h
    exact (Exec.ok.inj hret).symm

/-- A client accepts a well-formed envelope with a valid signature and the derived address. -/
theorem checkSignatureBlock_of {block sign pubkey address : Bytes}
    (hlen : (serializeStringBigEndian block ++ signPart sign pubkey address).length < 2 ^ 64)
    (hverified : cryptoCheckSignData C sign pubkey block = true)
    (haddr : getAddress C pubkey = address) :
    checkSignatureBlock C (serializeStringBigEndian block ++ signPart sign pubkey address) =
      .ok ⟨block, sign, pubkey, address⟩ := by
  rw [checkSignatureBlock_standsAt hlen (standsAt_self _), checkSignature, check_of hverified,
    Exec.ok_bind, makeAddressFromSecpKey]
  cases C.ecPubkeyParse pubkey with
  | none => simp [check_of haddr]
  | some p =>
    simp only [check_of haddr]
    split_ifs <;> rfl

theorem cryptoCheckSignData_eq_true {sign pubkey data : Bytes}
    (h : cryptoCheckSignData C sign pubkey data = true) :
    ∃ k s, C.d2iPubkey pubkey = some k ∧ C.d2iEcdsaSig sign = some s ∧
      C.ecdsaDoVerify (C.sha256 data).1 s (C.evpPkeyGet1EcKey k) = true := by
  unfold cryptoCheckSignData at h
  split at h
  · next k s hk hs => exact ⟨k, s, hk, hs, h⟩
  · cases h

theorem isEcKey_of_checked (hC : C.Lawful) {sign pubkey data : Bytes}
    (h : cryptoCheckSignData C sign pubkey data = true) : C.IsEcKey pubkey := by
  obtain ⟨k, s, hk, -, hv⟩ := cryptoCheckSignData_eq_true h
  refine ⟨k, hk, ?_⟩
  cases he : C.evpPkeyGet1EcKey k with
  | none => rw [he, hC.verify_null] at hv; cases hv
  | some e => rfl

/-- A DER key is not a point, so the address of an accepted envelope is the one of `get_address`. -/
theorem getAddress_of_accepted (hC : C.Lawful) {blockDump : Bytes} {r : BlockSignatureCheckResult}
    (h : checkSignatureBlock C blockDump = .ok r) : getAddress C r.pubkey = r.address := by
  obtain ⟨hverified, haddr | ⟨p, hp⟩⟩ := checkSignatureBlock_eq_ok h
  · exact haddr
  · obtain ⟨k, -, hk, -⟩ := cryptoCheckSignData_eq_true hverified
    have hder := hC.d2i_sequence _ _ hk
    rcases hC.parse_point _ _ hp with ⟨-, hpoint⟩ | ⟨-, hpoint⟩ <;> simp [hder] at hpoint

/-! ## The round trip -/

/-- The keys whose envelopes a client can accept. -/
structure PrivateKey.Verifiable (C : Crypto) (S : Support) (k : PrivateKey) : Prop where
  notSecp : k.isSecp = false
  ecKey : C.IsEcKey k.pubk
  agree : AddressesAgree C k.pubk
  lower : S.toLower k.address = k.address

theorem cryptoSignText_eq_ok {privateKey data sign : Bytes}
    (h : cryptoSignText C privateKey data = .ok sign) : data.length % 2 ^ 32 < 2 ^ 31 := by
  unfold cryptoSignText at h
  obtain ⟨buf, -, h1⟩ := Exec.bind_eq_ok.1 h
  by_contra hlen
  have hneg : toInt32 data.length < 0 := by rw [toInt32, if_neg hlen]; omega
  rw [if_pos hneg] at h1
  cases h1

/-- An accepted envelope was made with a verifiable key, and its size was not negative for the
    signer. -/
theorem verifiable_of_accepted (hC : C.Lawful) (hS : S.Lawful) {key address : Bytes}
    {k : PrivateKey} (hk : PrivateKey.new C S key address = .ok k) {dump : Bytes}
    (h : Accepted C S k dump) : k.Verifiable C S ∧ dump.length % 2 ^ 32 < 2 ^ 31 := by
  obtain ⟨sign, envelope, hsign, -, hok⟩ := h
  have hverified := (checkSignatureBlock_eq_ok hok).1
  have haddr := getAddress_of_accepted hC hok
  dsimp only at hverified haddr
  rcases PrivateKey.new_eq_ok hS hk with ⟨-, p, hp⟩ | ⟨buf, pub, a, hder⟩
  · -- OpenSSL does not parse the raw public key
    obtain ⟨e, -, he, -⟩ := cryptoCheckSignData_eq_true hverified
    have hseq := hC.d2i_sequence _ _ he
    rw [hp, hC.serialize_head] at hseq
    exact absurd (Option.some.inj hseq) (by decide)
  · have hlen := (PrivateKey.cryptoGenerateAddress_eq_ok hder.generated).1
    have hsize : 65 ≤ toInt32 k.pubk.length := by
      rw [hder.pubk_eq, toInt32_of_lt pub.2]; omega
    have hlower : S.toLower k.address = k.address := by
      rw [← haddr]; exact toLower_getAddress hS hsize
    refine ⟨⟨hder.notSecp, isEcKey_of_checked hC hverified, ⟨a, ?_, ?_⟩, hlower⟩, ?_⟩
    · rw [hder.pubk_eq]; exact hder.generated
    · rw [haddr, hder.address_eq, hlower]
    · rw [PrivateKey.sign, hder.notSecp] at hsign
      exact cryptoSignText_eq_ok hsign

/-- A verifiable key signs every dump whose size is an `int`, and the signature is accepted. -/
theorem sign_of_der (hC : C.Lawful) {k : PrivateKey} {buf : Bytes} {pub : Der} {a : Bytes}
    (hder : k.FromDer C S buf pub a) (hec : C.IsEcKey k.pubk) {dump : Bytes}
    (hlen : dump.length < 2 ^ 31) :
    ∃ sign : Der, k.sign C S dump = .ok sign.1 ∧
      cryptoCheckSignData C sign.1 k.pubk dump = true := by
  obtain ⟨e, he, hsome⟩ := hec
  obtain ⟨ec, hec⟩ := Option.isSome_iff_exists.1 hsome
  obtain ⟨sign, s, hsign, hs, hv⟩ :=
    hC.verify_sign buf pub dump e ec hder.derived (by rw [← hder.pubk_eq]; exact he) hec
  refine ⟨sign, ?_, ?_⟩
  · have htake : dump.take (toInt32 dump.length).toNat = dump := by
      rw [toInt32_of_lt hlen, Int.toNat_natCast, List.take_length]
    simp only [PrivateKey.sign, hder.notSecp, Bool.false_eq_true, if_false, cryptoSignText,
      hder.loaded, Exec.ok_bind, htake, hsign]
    rw [if_neg (by rw [toInt32_of_lt hlen]; omega)]
  · simp [cryptoCheckSignData, he, hs, hec, hv]

theorem checkSignatureBlock_of_der (hC : C.Lawful) {k : PrivateKey} {buf : Bytes} {pub : Der}
    {a : Bytes} (hder : k.FromDer C S buf pub a) (hv : k.Verifiable C S) {dump : Bytes}
    (hlen : dump.length < 2 ^ 31) : Accepted C S k dump := by
  obtain ⟨sign, hsign, hverified⟩ := sign_of_der hC hder hv.ecKey hlen
  obtain ⟨a', ha', hagree⟩ := hv.agree
  rw [hder.pubk_eq, hder.generated] at ha'
  cases ha'
  have haddr : getAddress C k.pubk = k.address := by
    rw [hagree, hder.address_eq, hv.lower]
  have haddress : k.address.length = 52 := by
    rw [← haddr, hagree, List.length_append, flatMap_hexByte_length,
      (PrivateKey.cryptoGenerateAddress_eq_ok hder.generated).2]
    rfl
  have hpart : (signPart sign.1 k.pubk k.address).length ≤ 2 ^ 32 + 76 := by
    have h1 := sign.2
    have h2 := pub.2
    simp only [signPart, List.length_append, serializeStringBigEndian_length, haddress,
      hder.pubk_eq]
    omega
  have henv : (serializeStringBigEndian dump ++ signPart sign.1 k.pubk k.address).length ≤
      maxSize := by
    rw [List.length_append, serializeStringBigEndian_length, maxSize]; omega
  refine ⟨sign.1, serializeStringBigEndian dump ++ signPart sign.1 k.pubk k.address, hsign, ?_, ?_⟩
  · rw [signedDump, makeBlockSign, hsign, Exec.ok_bind, stdString, Exec.check_pos
      (by rw [maxSize]; omega)]
    rw [Exec.ok_bind, Exec.ok_bind, stdString, makeFirstPartBlockSign, ← List.append_assoc,
      ← serializeStringBigEndian, Exec.check_pos henv, Exec.ok_bind]
  · exact checkSignatureBlock_of (by rw [maxSize] at henv; omega) hverified haddr

/-- **When a client accepts the envelope of a dump.**  Of a dump of 4 GiB or more only a prefix is
    signed; there the condition is necessary. -/
theorem envelope_accepted_iff (hC : C.Lawful) (hS : S.Lawful) {key address : Bytes}
    {k : PrivateKey} (hk : PrivateKey.new C S key address = .ok k) (dump : StdString) :
    (dump.1.length < 2 ^ 32 →
      (Accepted C S k dump.1 ↔ k.Verifiable C S ∧ dump.1.length < 2 ^ 31)) ∧
    (Accepted C S k dump.1 → k.Verifiable C S ∧ dump.1.length % 2 ^ 32 < 2 ^ 31) := by
  have honly : Accepted C S k dump.1 → k.Verifiable C S ∧ dump.1.length % 2 ^ 32 < 2 ^ 31 :=
    verifiable_of_accepted hC hS hk
  refine ⟨fun hsize => ⟨fun h => ?_, ?_⟩, honly⟩
  · have := honly h
    rwa [Nat.mod_eq_of_lt hsize] at this
  · rintro ⟨hv, hlen⟩
    rcases PrivateKey.new_eq_ok hS hk with ⟨hsecp, -⟩ | ⟨buf, pub, a, hder⟩
    · rw [hv.notSecp] at hsecp; cases hsecp
    · exact checkSignatureBlock_of_der hC hder hv hlen

end

/-! ## Two keys -/

namespace Sample

/-- An uncompressed point of secp256k1. -/
def point (x y : ℕ) : Bytes := 4 :: (beBytes 32 x ++ beBytes 32 y)

/-- The generator, the public key of the secret key 1. -/
def generator : Bytes :=
  point 0x79be667ef9dcbbac55a06295ce870b07029bfcdb2dce28d959f2815b16f81798
    0x483ada7726a3c4655da4fbfc0e1108a8fd17b448a68554199c47d08ffb10d4b8

/-- The public key of the secret key 2. -/
def double : Bytes :=
  point 0xc6047f9441ed7d6d3045406e95c07cd85c778e4b8cef3ca7abac09b95c709ee5
    0x1ae168fea63dc339a3c58419466ceaeef7f632653266d0e1236431a950cfe52a

/-- The secret key 1 as OpenSSL writes it (SEC 1). -/
def sec1Key : Bytes :=
  beBytes 7 0x30740201010420 ++ beBytes 32 1 ++ beBytes 14 0xa00706052b8104000aa144034200 ++
    generator

/-- The algorithm identifier of secp256k1. -/
def algorithm : Bytes := beBytes 18 0x301006072a8648ce3d020106052b8104000a

/-- The secret key 2 in a PKCS 8 container. -/
def pkcs8Key : Bytes :=
  beBytes 6 0x308184020100 ++ algorithm ++ beBytes 9 0x046d306b0201010420 ++ beBytes 32 2 ++
    beBytes 5 0xa144034200 ++ double

/-- The DER form of the public key 2. -/
def derDouble : Bytes := beBytes 2 0x3056 ++ algorithm ++ beBytes 3 0x034200 ++ double

/-- The 32 bytes of `pkcs8Key` that are taken for a secret key, and their public key. -/
def wrongSecret : Bytes := slice pkcs8Key 7 32

def wrongPoint : Bytes :=
  point 0x5b28542df0fa47b08bbc740fae03134e674be4d6c78d12574662b18138a5cf7b
    0x57397c66e8a0f9c1c012e9e191b17556473a8996b9495b91c76df2841dadfbd2

def sign1 : Bytes := beBytes 6 0x304402205fee ++
  beBytes 30 0x345e860d1b65e1ccab8cc74a8fc75f7147218006568c914d3d81e71a1994 ++
  beBytes 34 0x02203f329259992ae9139eeeffe3ca073bfa715a259ae22714cb391beb367bbf53dc

def sign2 : Bytes := beBytes 7 0x3045022100f338 ++
  beBytes 30 0x558297c3a48b4e4e875945d6063c4bcaf15dedc19cbbb94ee8ffba128001 ++
  beBytes 34 0x02200e89d3b9ff7e6696925deba47e73f0b5276f4898cc3503f41e41eb700a56674d

def sha256Table : List (Bytes × ℕ) := [
  ([1], 0x4bf5122f344554c53bde2ebb8cd2b7e3d1600ad631c385a5d7cce23c7785459a),
  (generator, 0x50929b74c1a04954b78b4b6035e97a5e078a5a0f28ec96d547bfee9ace803ac0),
  (beBytes 21 0x91b24bf9f5288532960ac687abb035127b1d28a5,
    0x79fa926bf4ac874060b244d6e985c694233eed0d5562c0b88cdf37bfbb80b44f),
  (beBytes 32 0x79fa926bf4ac874060b244d6e985c694233eed0d5562c0b88cdf37bfbb80b44f,
    0x0074ffe0526d823be09b39865422a1d6135afc85afb0a6863c58e9fe89989170),
  (double, 0x663c1b408cf896dd00e20c84b2e734b5d8da089318d0d2b076c19f59c450855a),
  (beBytes 21 0xd6c8e828c1eca1bba065e1b83e1dc2a36e387a42,
    0xa76e3f5c868951eab89f175bbf0be379b1305823e0a0919afb7dc4bed8ea94aa),
  (beBytes 32 0xa76e3f5c868951eab89f175bbf0be379b1305823e0a0919afb7dc4bed8ea94aa,
    0x74d4b4aafae3b18583e99da13ff0dae6276a888f5dbd3a05eea50806ebda06c1),
  (wrongPoint, 0xba6de9c4ce66de6c6e83166dc97f93a25c445f07e0cdd185498db0d3d825a9ca),
  (beBytes 21 0x92eb2faa386046544c4f8f0a70340423215c1c4e,
    0x82263909a311f5982eb7b9c8b80336a22b99318ba7d37a5675e7da3b53faac7a),
  (beBytes 32 0x82263909a311f5982eb7b9c8b80336a22b99318ba7d37a5675e7da3b53faac7a,
    0xb1d859df8a252a0d8fe4db3888b6a66106816b5fcf1a49576e815fc8ba830b6b)]

def ripemd160Table : List (Bytes × ℕ) := [
  (beBytes 32 0x50929b74c1a04954b78b4b6035e97a5e078a5a0f28ec96d547bfee9ace803ac0,
    0x91b24bf9f5288532960ac687abb035127b1d28a5),
  (beBytes 32 0x663c1b408cf896dd00e20c84b2e734b5d8da089318d0d2b076c19f59c450855a,
    0xd6c8e828c1eca1bba065e1b83e1dc2a36e387a42),
  (beBytes 32 0xba6de9c4ce66de6c6e83166dc97f93a25c445f07e0cdd185498db0d3d825a9ca,
    0x92eb2faa386046544c4f8f0a70340423215c1c4e)]

/-- The libraries on the inputs of the two keys. -/
def crypto : Crypto where
  EvpKey := Unit
  EcKey := Unit
  Signature := Bytes
  SecpKey := { bs : Bytes // bs.length = 64 }
  sha256 bs := ⟨beBytes 32 ((sha256Table.lookup bs).getD 0), beBytes_length _ _⟩
  ripemd160 bs := ⟨beBytes 20 ((ripemd160Table.lookup bs).getD 0), beBytes_length _ _⟩
  d2iPubkey bs := if bs = derDouble then some () else none
  d2iEcdsaSig := some
  evpPkeyGet1EcKey := some
  ecdsaDoVerify hash s key :=
    -- outside of the samples every signature is the empty one
    key.isSome && (s == [] || s == sign2 &&
      hash == beBytes 32 0x4bf5122f344554c53bde2ebb8cd2b7e3d1600ad631c385a5d7cce23c7785459a)
  publicKeyOf key := if key = pkcs8Key then some ⟨derDouble, by decide⟩ else none
  digestSign _ data :=
    if data = [1] then some ⟨sign2, by decide⟩ else some ⟨[], by decide⟩
  ecPubkeyCreate secret :=
    if secret = beBytes 32 1 then some ⟨generator.tail, by decide⟩
    else if secret = wrongSecret then some ⟨wrongPoint.tail, by decide⟩ else none
  ecPubkeySerialize key := ⟨4 :: key.1, by simp [key.2]⟩
  ecPubkeyParse _ := none
  ecdsaSign _ secret := if secret = beBytes 32 1 then some ⟨sign1, by decide⟩ else none

def support : Support where
  toHex bs := bs.flatMap hexByte
  fromHex bs := .ok (hex2binLoop bs)
  toLower bs := bs.map fun b => if 'A'.toUInt8 ≤ b ∧ b ≤ 'Z'.toUInt8 then b + 32 else b

theorem crypto_lawful : crypto.Lawful where
  verify_sign key pubkey data k e _ _ _ := by
    by_cases hd : data = [1]
    · subst hd
      refine ⟨⟨sign2, by decide⟩, sign2, by simp [crypto], rfl, ?_⟩
      show crypto.ecdsaDoVerify (crypto.sha256 [1]).1 sign2 (some ()) = true
      decide +kernel
    · exact ⟨⟨[], by decide⟩, [], by simp [crypto, hd], rfl, rfl⟩
  verify_null _ _ := rfl
  d2i_sequence bs k h := by
    by_cases hb : bs = derDouble
    · subst hb; decide
    · simp [crypto, hb] at h
  serialize_head _ := rfl
  parse_point _ _ h := by cases h

theorem support_lawful : support.Lawful where
  fromHex_hex bs := by simp [support, hex2binLoop_flatMap]
  toLower_lower bs h := by
    have hmap : ∀ b ∈ bs, (if 'A'.toUInt8 ≤ b ∧ b ≤ 'Z'.toUInt8 then b + 32 else b) = b :=
      fun b hb => if_neg (h b hb)
    exact (List.map_congr_left hmap).trans (List.map_id bs)

/-- The address of a public key, from its hash and the checksum. -/
def address (n : ℕ) : Bytes := ascii ['0', 'x'] ++ (beBytes 25 n).flatMap hexByte

/-- The key of a node with a SEC 1 key. -/
def node1 : PrivateKey :=
  ⟨sec1Key, generator, address 0x0091b24bf9f5288532960ac687abb035127b1d28a50074ffe0, true⟩

/-- The key of a node with a PKCS 8 key. -/
def node2 : PrivateKey :=
  ⟨pkcs8Key, derDouble, address 0x00d6c8e828c1eca1bba065e1b83e1dc2a36e387a4274d4b4aa, false⟩

end Sample

open Sample in
theorem envelope_of_pkcs8 :
    PrivateKey.new crypto support pkcs8Key node2.address = .ok node2 ∧
      Accepted crypto support node2 [1] := by
  have hnew : PrivateKey.new crypto support pkcs8Key node2.address = .ok node2 := by
    decide +kernel
  have hv : node2.Verifiable crypto support := by
    refine ⟨rfl, ⟨(), by simp [crypto, node2], rfl⟩, ?_, by decide +kernel⟩
    exact addressesAgree_of_uncompressed (by decide) (by decide) (by decide)
  have hiff := envelope_accepted_iff crypto_lawful support_lawful hnew ⟨[1], by decide⟩
  exact ⟨hnew, (hiff.1 (by decide)).2 ⟨hv, by decide⟩⟩

open Sample in
/-- The envelope of a node with a SEC 1 key is rejected. -/
theorem envelope_of_sec1_rejected :
    crypto.Lawful ∧ support.Lawful ∧
      PrivateKey.new crypto support sec1Key node1.address = .ok node1 ∧
      signedDump crypto support [1] node1 >>= checkSignatureBlock crypto =
        .throw (.common "Not validate") ∧
      ¬ Accepted crypto support node1 [1] := by
  have hnew : PrivateKey.new crypto support sec1Key node1.address = .ok node1 := by
    decide +kernel
  refine ⟨crypto_lawful, support_lawful, hnew, by decide +kernel, fun h => ?_⟩
  have hv := (verifiable_of_accepted crypto_lawful support_lawful hnew h).1
  cases hv.notSecp

end TorrentNode
