/-
  The signature transactions of a block (`isSignBlockTx`,
  `BlockInfo::getBlockSignatures`).

  Whether a transaction signs the block depends on the one before it, through the
  helper that `readBlockTxs` carries along; the signature in the header is found
  afterwards, by the first transaction.

  `readBlockTxs_signatures`: the flagged transactions are the longest beginning of
  the block that signs one text, and the header has this text.
-/
import TorrentNode.BlockchainRead.Framing

open Wire Exec

namespace TorrentNode

/-! ## Uniform beginnings -/

/-- `getBlockSignatures()`. -/
def BlockInfo.getBlockSignatures (bi : BlockInfo) : List TransactionInfo :=
  bi.txs.filter fun tx => tx.isSignBlockTx

/-- The loop of `synchronize` that compares the hash of the block before with the signatures. -/
def BlockInfo.Confirms (bi : BlockInfo) (hash : Bytes) : Prop :=
  ∀ tx ∈ bi.txs, tx.isSignBlockTx = true → hash = tx.data

/-- A transaction without value to its own sender. -/
def SelfTx (tx : TransactionInfo) : Prop :=
  tx.fromAddress.address = tx.toAddress.address ∧ tx.value = 0

/-- Transactions of this kind that all have the data of the first one; only the first may have no
    data. -/
def UniformSigns : List TransactionInfo → Prop
  | [] => True
  | first :: txs => SelfTx first ∧ ∀ tx ∈ txs, SelfTx tx ∧ tx.data ≠ [] ∧ tx.data = first.data

theorem address_eq_ok {first second : Address} {same : Bool} (h : first.eq second = .ok same) :
    same = (first.address == second.address) := by
  obtain ⟨_, -, h⟩ := bind_eq_ok.1 h
  obtain ⟨_, -, h⟩ := bind_eq_ok.1 h
  exact (Exec.ok.inj h).symm

/-- The flag of a transaction by the helper. -/
theorem isSignBlockTx_eq_ok {tx : TransactionInfo} {helper : PrevTransactionSignHelper} {isSign : Bool}
    (h : isSignBlockTx tx helper = .ok isSign) :
    isSign = true ↔ helper.isPrevSign = true ∧ SelfTx tx ∧
      (helper.isFirst = true ∨ tx.data ≠ [] ∧ tx.data = helper.prevTxData) := by
  rw [isSignBlockTx] at h
  cases hprev : helper.isPrevSign with
  | false =>
    rw [hprev] at h
    cases h
    simp
  | true =>
    simp only [hprev, Bool.not_true, Bool.false_eq_true, if_false] at h
    obtain ⟨same, hsame, h⟩ := bind_eq_ok.1 h
    obtain rfl := Exec.ok.inj h
    rw [address_eq_ok hsame]
    simp only [SelfTx, Bool.and_eq_true, beq_iff_eq, Bool.or_eq_true, Bool.not_eq_true',
      List.isEmpty_eq_false_iff, ne_eq, true_and]
    rw [and_comm (b := tx.data = helper.prevTxData)]

theorem filter_signs_eq_nil {txs : List TransactionInfo} (h : ∀ tx ∈ txs, tx.isSignBlockTx = false) :
    (txs.filter fun tx => tx.isSignBlockTx) = [] := by
  rw [List.filter_eq_nil_iff]
  intro tx hm
  simp [h tx hm]

/-! ## The loop -/

section
variable {b : Buf} {L : Libs} {o : ReadOptions}

theorem ReadsTx.next_le {helper : PrevTransactionSignHelper} {i size j : ℕ} {tx : TransactionInfo}
    (h : ReadsTx b L helper i size (b.beginPos + j) tx) : j ≤ b.bytes.length + 80 := by
  have h1 := h.pos_le
  have h2 := h.stop_le
  omega

/-- Behind a transaction that does not sign, none does. -/
theorem Parsed.no_signs {i : ℕ} {helper : PrevTransactionSignHelper} {txs : List TransactionInfo}
    (hi : i ≤ b.bytes.length + 80) (h : Parsed b L o i helper txs) (hprev : helper.isPrevSign = false) :
    ∀ tx ∈ txs, tx.isSignBlockTx = false := by
  induction h with
  | stop hread => simp
  | @tx i size j helper tx txs hread hsize hrest ih =>
    rcases readTransactionInfo_at hi hread with ⟨-, hzero, -⟩ | ⟨-, hr⟩
    · exact absurd hzero hsize
    · have hflag : tx.isSignBlockTx = false := by
        rw [← Bool.not_eq_true, isSignBlockTx_eq_ok hr.sign, hprev]
        simp
      have hj := hr.next_le
      intro tx' hm
      rcases List.mem_cons.1 hm with rfl | hm
      · exact hflag
      · exact ih hj hflag tx' hm

/-- Behind a signature with some data, the flagged transactions are those up to the first one that
    is no signature with the same data. -/
theorem Parsed.signs_after {i : ℕ} {helper : PrevTransactionSignHelper} {txs : List TransactionInfo}
    (hi : i ≤ b.bytes.length + 80) (h : Parsed b L o i helper txs) (hprev : helper.isPrevSign = true)
    (hfirst : helper.isFirst = false) :
    let signs := txs.filter fun tx => tx.isSignBlockTx
    signs <+: txs ∧
      (∀ tx ∈ signs, SelfTx tx ∧ tx.data ≠ [] ∧ tx.data = helper.prevTxData) ∧
      ∀ p, p <+: txs → (∀ tx ∈ p, SelfTx tx ∧ tx.data ≠ [] ∧ tx.data = helper.prevTxData) →
        p <+: signs := by
  induction h with
  | stop hread => simp
  | @tx i size j helper tx txs hread hsize hrest ih =>
    rcases readTransactionInfo_at hi hread with ⟨-, hzero, -⟩ | ⟨-, hr⟩
    · exact absurd hzero hsize
    · have hj := hr.next_le
      have hflag := isSignBlockTx_eq_ok hr.sign
      simp only [hprev, hfirst, Bool.false_eq_true, false_or, true_and] at hflag
      cases hs : tx.isSignBlockTx with
      | false =>
        rw [filter_signs_eq_nil (List.forall_mem_cons.2 ⟨hs, hrest.no_signs hj hs⟩)]
        refine ⟨List.nil_prefix, by simp, ?_⟩
        intro p hp hall
        cases p with
        | nil => exact List.prefix_rfl
        | cons c p =>
          obtain rfl := (List.cons_prefix_cons.1 hp).1
          have htrue := hflag.2 (hall c List.mem_cons_self)
          rw [hs] at htrue; cases htrue
      | true =>
        obtain ⟨hself, hne, hdata⟩ := hflag.1 hs
        obtain ⟨hpre, hall, hmax⟩ := ih hj hs rfl
        have hdata' : (helperAfter tx).prevTxData = helper.prevTxData := hdata
        rw [hdata'] at hall hmax
        rw [List.filter_cons_of_pos (by simpa using hs)]
        refine ⟨List.cons_prefix_cons.2 ⟨rfl, hpre⟩, ?_, ?_⟩
        · intro tx' hm
          rcases List.mem_cons.1 hm with rfl | hm
          · exact ⟨hself, hne, hdata⟩
          · exact hall tx' hm
        · intro p hp hp'
          cases p with
          | nil => exact List.nil_prefix
          | cons c p =>
            obtain ⟨rfl, hrest'⟩ := List.cons_prefix_cons.1 hp
            refine List.cons_prefix_cons.2 ⟨rfl, hmax p hrest' ?_⟩
            intro tx' hm
            exact hp' tx' (List.mem_cons_of_mem _ hm)

/-- The flagged transactions of a block. -/
theorem Parsed.signs {txs : List TransactionInfo} (h : Parsed b L o 80 firstHelper txs) :
    let signs := txs.filter fun tx => tx.isSignBlockTx
    signs <+: txs ∧ UniformSigns signs ∧ (∀ p, p <+: txs → UniformSigns p → p <+: signs) ∧
      (signs = [] ↔ ∀ tx, txs.head? = some tx → ¬ SelfTx tx) := by
  have hi : 80 ≤ b.bytes.length + 80 := Nat.le_add_left _ _
  cases h with
  | stop hread => simp [UniformSigns]
  | @tx _ size j _ tx txs hread hsize hrest =>
    rcases readTransactionInfo_at hi hread with ⟨-, hzero, -⟩ | ⟨-, hr⟩
    · exact absurd hzero hsize
    · have hj := hr.next_le
      have hflag := isSignBlockTx_eq_ok hr.sign
      simp only [firstHelper, true_or, and_true, true_and] at hflag
      cases hs : tx.isSignBlockTx with
      | false =>
        have hself : ¬ SelfTx tx := by
          rw [← hflag, hs]; simp
        rw [filter_signs_eq_nil (List.forall_mem_cons.2 ⟨hs, hrest.no_signs hj hs⟩)]
        refine ⟨List.nil_prefix, trivial, ?_, by simpa using hself⟩
        intro p hp huni
        cases p with
        | nil => exact List.prefix_rfl
        | cons c p =>
          obtain rfl := (List.cons_prefix_cons.1 hp).1
          exact absurd huni.1 hself
      | true =>
        have hself := hflag.1 hs
        obtain ⟨hpre, hall, hmax⟩ := hrest.signs_after hj hs rfl
        rw [List.filter_cons_of_pos (by simpa using hs)]
        refine ⟨List.cons_prefix_cons.2 ⟨rfl, hpre⟩, ⟨hself, hall⟩, ?_, by simpa using hself⟩
        intro p hp huni
        cases p with
        | nil => exact List.nil_prefix
        | cons c p =>
          obtain ⟨rfl, hrest'⟩ := List.cons_prefix_cons.1 hp
          exact List.cons_prefix_cons.2 ⟨rfl, hmax p hrest' huni.2⟩

/-- **The signature transactions of a block are its longest uniform beginning.**  The header has
    their data if there are any, and keeps its signature otherwise; and a hash that the first one
    signs is signed by all of them. -/
theorem readBlockTxs_signatures (hbegin : o.beginTx = 0) (hcount : o.countTx = 0)
    {header : BlockHeader} {bi : BlockInfo} (h : readBlockTxs b L o header = .ok bi) :
    (bi.getBlockSignatures <+: bi.txs ∧ UniformSigns bi.getBlockSignatures ∧
      ∀ p, p <+: bi.txs → UniformSigns p → p <+: bi.getBlockSignatures) ∧
    (bi.getBlockSignatures = [] → bi.header.signature = header.signature) ∧
    (∀ tx ∈ bi.getBlockSignatures, bi.header.signature = tx.data) ∧
    ∀ first hash, bi.getBlockSignatures.head? = some first → hash = first.data → bi.Confirms hash := by
  obtain ⟨hparsed, hsign⟩ := readBlockTxs_parsed hbegin hcount h
  obtain ⟨hpre, huni, hmax, hnil⟩ := hparsed.signs
  have hsame : ∀ tx ∈ bi.getBlockSignatures, ∀ first, bi.getBlockSignatures.head? = some first →
      tx.data = first.data := by
    intro tx hm first hf
    rcases hsigns : bi.getBlockSignatures with _ | ⟨c, signs⟩
    · rw [hsigns] at hm; cases hm
    · have huni' : UniformSigns bi.getBlockSignatures := huni
      rw [hsigns] at hf hm huni'
      obtain rfl := Option.some.inj hf
      rcases List.mem_cons.1 hm with rfl | hm
      · rfl
      · exact (huni'.2 tx hm).2.2
  refine ⟨⟨hpre, huni, hmax⟩, ?_, ?_, ?_⟩
  · intro hempty
    rcases htxs : bi.txs with _ | ⟨tx, txs⟩
    · rw [htxs] at hsign
      exact (Exec.ok.inj hsign).symm
    · have hself := hnil.1 hempty tx (by rw [htxs]; rfl)
      rw [htxs] at hsign
      obtain ⟨same, heq, hsign⟩ := bind_eq_ok.1 hsign
      rw [← Exec.ok.inj hsign, if_neg]
      rw [address_eq_ok heq]
      simpa [SelfTx] using hself
  · intro tx hm
    rcases hsigns : bi.getBlockSignatures with _ | ⟨c, signs⟩
    · rw [hsigns] at hm; cases hm
    · rw [hsame tx hm c (by rw [hsigns]; rfl)]
      have huni' : UniformSigns bi.getBlockSignatures := huni
      have hpre' : bi.getBlockSignatures <+: bi.txs := hpre
      rw [hsigns] at huni' hpre'
      obtain ⟨rest, hrest⟩ := hpre'
      rw [← hrest] at hsign
      obtain ⟨same, heq, hsign⟩ := bind_eq_ok.1 hsign
      rw [← Exec.ok.inj hsign, if_pos]
      rw [address_eq_ok heq]
      simpa [SelfTx] using huni'.1
  · rintro first _ hf rfl tx hm hflag
    exact (hsame tx (List.mem_filter.2 ⟨hm, hflag⟩) first hf).symm

end

/-- A transaction from the address of the secret key 1 to itself, with one byte of data. -/
def signatureBody : Bytes :=
  beBytes 25 0x0091b24bf9f5288532960ac687abb035127b1d28a50074ffe0 ++ [0, 0, 0, 1, 0xAA, 0, 65] ++
    Sample.generator

/-- A block with this transaction. -/
def signedBlock : Buf where
  beginPos := 4096
  bytes := List.replicate 80 0 ++ [97] ++ signatureBody ++ [0]
  inUserSpace := by decide +kernel

/-- SHA-256 on what is hashed of this block. -/
def signedBlockHashes : List (Bytes × ℕ) :=
  [(Sample.generator, 0x50929b74c1a04954b78b4b6035e97a5e078a5a0f28ec96d547bfee9ace803ac0),
   (beBytes 21 0x91b24bf9f5288532960ac687abb035127b1d28a5,
    0x79fa926bf4ac874060b244d6e985c694233eed0d5562c0b88cdf37bfbb80b44f),
   (beBytes 32 0x79fa926bf4ac874060b244d6e985c694233eed0d5562c0b88cdf37bfbb80b44f,
    0x0074ffe0526d823be09b39865422a1d6135afc85afb0a6863c58e9fe89989170),
   (signatureBody, 0x5e2b878c632a52493fdcc795983fb514a4f52ad5d8ed9aa012692a3c57028af4),
   (beBytes 32 0x5e2b878c632a52493fdcc795983fb514a4f52ad5d8ed9aa012692a3c57028af4,
    0xb15199a5c0337290e748a17b7fbc63b0a926396afe9164afafc41c79f90d2dbd),
   (signedBlock.bytes, 0x69cfc7f086c2503be2cb3224e1eb9f75468c25b798bc82025824fd790f83900c),
   (beBytes 32 0x69cfc7f086c2503be2cb3224e1eb9f75468c25b798bc82025824fd790f83900c,
    0x535e68f054b22810f9a3646a51e94b67ee0446245b684d373c63449dd0cd2b08)]

/-- The libraries on this block. -/
def signedBlockLibs : Libs where
  crypto := { Sample.crypto with
    sha256 := fun bs => ⟨beBytes 32 ((signedBlockHashes.lookup bs).getD 0), beBytes_length _ _⟩
    ripemd160 := fun _ => ⟨beBytes 20 0x91b24bf9f5288532960ac687abb035127b1d28a5, beBytes_length _ _⟩ }
  support := Sample.support
  json := { parse := fun _ => none }

/-- The transaction of this block signs it. -/
theorem readBlockTxs_signedBlock :
    ∃ bi, readBlockTxs signedBlock signedBlockLibs ⟨0, false, false, 0, 0⟩ {} = .ok bi ∧
      bi.getBlockSignatures.length = 1 ∧ UniformSigns bi.getBlockSignatures ∧
      ∀ tx ∈ bi.getBlockSignatures, bi.header.signature = tx.data := by
  have hlen : (readBlockTxs signedBlock signedBlockLibs ⟨0, false, false, 0, 0⟩ {} >>= fun bi =>
      .ok bi.getBlockSignatures.length) = .ok 1 := by decide +kernel
  obtain ⟨bi, hbi, hlen⟩ := bind_eq_ok.1 hlen
  replace hlen := Exec.ok.inj hlen
  obtain ⟨⟨-, huni, -⟩, -, hdata, -⟩ := readBlockTxs_signatures rfl rfl hbi
  exact ⟨bi, hbi, hlen, huni, hdata⟩

end TorrentNode
