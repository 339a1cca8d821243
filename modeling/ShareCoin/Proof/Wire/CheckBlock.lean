import ShareCoin.Proof.Wire.Merkle
import ShareCoin.Wire.CheckBlock

/-!
# The header of a checked block and its transactions

What `SHCBlock::CheckBlock` accepts has a coinbase, transaction ids without duplicates and the root
that its header names. So two blocks with one header that pass it have the same ids: in the tree
form because duplicates are the only way to hash another list to a root, in the chained forms
because the first hash is not the hash of a pair.
-/

namespace ShareCoin.Wire

open Lib Server Ext List

/-! ## What is checked -/

structure BlockChecked (env : CheckEnv) (block : CBlock) : Prop where
  coinbase : ∃ coinbase vtx, block.vtx = coinbase :: vtx ∧ isCoinBase coinbase = true ∧
    vtx.any isCoinBase = false
  weight : shcGetBlockWeight block ≤ maxBlockWeight shcIface
  work : shcCheckProofOfWork (getPoWHash env true block.toCBlockHeader) block.nBits
    (shcWorkLimit env block.toCBlockHeader) = true
  time : (block.nTime.toNat : Int) ≤ env.getAdjustedTime + shcMaxDriftTime
  txs : ∀ tx ∈ block.vtx, checkTx env tx = true
  nodup : (txids env block).Nodup
  sigOps : (blockSigOps block).toNat ≤ shcIface.maxSigops
  root : buildMerkleTree env.sha256 true block = some block.hashMerkleRoot
  witness : env.checkBlockWitness block = true

theorem length_dedup_eq_iff {l : List Uint256} : l.dedup.length = l.length ↔ l.Nodup :=
  ⟨fun h => dedup_eq_self.mp ((dedup_sublist l).eq_of_length h),
    fun h => by rw [h.dedup]⟩

theorem shcCheckBlock_iff {env : CheckEnv} {block : CBlock} :
    shcCheckBlock env block = true ↔ BlockChecked env block := by
  have hids : (txids env block).length = block.vtx.length := length_map _
  constructor
  · intro h
    unfold shcCheckBlock at h
    cases hvtx : block.vtx with
    | nil => simp [hvtx] at h
    | cons coinbase vtx =>
      simp only [hvtx] at h
      split_ifs at h with hweight hcoinbase hwork htime hany htxs hdup hsigOps hroot
      exact
        { coinbase := ⟨coinbase, vtx, hvtx, by simpa using hcoinbase, by simpa using hany⟩
          weight := Nat.le_of_not_lt hweight
          work := by simpa using hwork
          time := Int.not_lt.mp htime
          txs := by simpa [hvtx] using htxs
          nodup := length_dedup_eq_iff.mp (by simpa [hids, hvtx] using hdup)
          sigOps := Nat.le_of_not_lt hsigOps
          root := by simpa using hroot
          witness := h }
  · rintro ⟨⟨coinbase, vtx, hvtx, hcoinbase, hany⟩, hweight, hwork, htime, htxs, hnodup, hsigOps,
      hroot, hwitness⟩
    have hdup : ¬ (txids env block).dedup.length ≠ block.vtx.length := by
      rw [← hids, not_not]
      exact length_dedup_eq_iff.mpr hnodup
    have hall : block.vtx.all (checkTx env) = true := all_eq_true.mpr htxs
    unfold shcCheckBlock
    simp only [hvtx] at hdup hall ⊢
    rw [if_neg (Nat.not_lt.mpr hweight), hcoinbase, hwork, if_neg (Int.not_lt.mpr htime), hany,
      hall, if_neg hdup, if_neg (Nat.not_lt.mpr hsigOps), if_neg (not_not.mpr hroot), hwitness]
    simp

/-! ## The strings that are hashed -/

theorem txIn_put_length (txin : CTxIn) : 32 ≤ (txIn.put txin).length := by
  change 32 ≤ (u256.put txin.prevout.hash ++ u32.put txin.prevout.n ++ _).length
  rw [← rawBytes_eq, length_append, length_append, rawBytes_length]
  omega

theorem txBytes_length {tx : CTransaction} (h : tx.vin ≠ []) : 32 < (txBytes tx).length := by
  obtain ⟨txin, vin, hvin⟩ := exists_cons_of_ne_nil h
  have hflag : tx.flag serializeTransactionNoWitness = false := rfl
  have hput : 32 ≤ ((vec txIn).put tx.vin).length := by
    rw [hvin]
    change 32 ≤ (writeCompactSize _ ++ (txIn.put txin ++ vin.flatMap txIn.put)).length
    have := txIn_put_length txin
    rw [length_append, length_append]
    omega
  have hword : (u32.put tx.nFlag).length = 4 := Codec.leBytes_length 4 _
  simp only [txBytes, CTransaction.serialize, CTransactionCore.put, hflag, length_append, hword]
  omega

theorem checkTx_vin {env : CheckEnv} {tx : CTransaction} (h : checkTx env tx = true) :
    tx.vin ≠ [] := by
  intro hnil
  rw [checkTx, Server.checkTransaction, if_pos (by simp [asServer, hnil])] at h
  cases h

/-! ## The theorem -/

/-- **The header binds the transactions.** Two blocks with one header that pass
    `SHCBlock::CheckBlock` have the same transaction ids, whatever the algorithm, if SHA-256 has no
    collision among the strings that are hashed for the two roots and no transaction id is the hash
    of a pair of them. -/
theorem same_header_same_txids (env : CheckEnv) (block block' : CBlock)
    (hcheck : shcCheckBlock env block = true) (hcheck' : shcCheckBlock env block' = true)
    (hheader : block.toCBlockHeader = block'.toCBlockHeader)
    (hapart : StringsApart env.sha256 (digested env.sha256
      (rootStrings env.sha256 (rootForm true block.nVersion) block.vtx ++
        rootStrings env.sha256 (rootForm true block.nVersion) block'.vtx)))
    (hleaf : ∀ tx ∈ block.vtx ++ block'.vtx,
      ∀ p ∈ rootPairs env.sha256 (rootForm true block.nVersion) block.vtx ++
        rootPairs env.sha256 (rootForm true block.nVersion) block'.vtx,
      txid env.sha256 tx ≠ hashPair env.sha256 p.1 p.2) :
    txids env block = txids env block' := by
  have h := shcCheckBlock_iff.mp hcheck
  have h' := shcCheckBlock_iff.mp hcheck'
  obtain ⟨coinbase, vtx, hvtx, -, -⟩ := h.coinbase
  obtain ⟨coinbase', vtx', hvtx', -, -⟩ := h'.coinbase
  have hne : block.vtx ≠ [] := by simp [hvtx]
  have hne' : block'.vtx ≠ [] := by simp [hvtx']
  have hversion : block'.nVersion = block.nVersion := congrArg CBlockHeader.nVersion hheader.symm
  have hmerkle : block.hashMerkleRoot = block'.hashMerkleRoot :=
    congrArg CBlockHeader.hashMerkleRoot hheader
  have hroot := h.root.trans ((congrArg some hmerkle).trans h'.root.symm)
  rw [buildMerkleTree_eq hne, buildMerkleTree_eq hne', hversion] at hroot
  refine txids_of_leavesRoot hne hne' h.nodup h'.nodup (fun tx htx => ?_) hapart hleaf hroot
  rcases mem_append.mp htx with htx | htx
  · exact txBytes_length (checkTx_vin (h.txs tx htx))
  · exact txBytes_length (checkTx_vin (h'.txs tx htx))

def sampleSha256 (bytes : List UInt8) : Uint256 :=
  BitVec.ofNat 256 (Codec.leValue (bytes ++ [1]) % (2 ^ 61 - 1))

def checkEnvSample : CheckEnv where
  sha256 := sampleSha256
  powHash := fun _ _ => 0
  getAdjustedTime := 1600000000
  checkBlockWitness := fun _ => true

def sampleTx (prevout : COutPoint) (vtxinwit : List Stack) : CTransaction where
  vin := [{ prevout := prevout, scriptSig := [0x51, 0x51], nSequence := 0 }]
  vout := [{ nValue := 1, scriptPubKey := [0x51] }]
  vtxinwit := vtxinwit

/-- A coinbase and a payment, mined with `ALGO_SHA256D`, with a witness of the coinbase. -/
def sampleBlock (vtxinwit : List Stack) : CBlock where
  nVersion := UInt32.toInt32 0xE0000001
  hashPrevBlock := 1
  hashMerkleRoot := hashPair sampleSha256 (txid sampleSha256 (sampleTx ⟨0, 0xFFFFFFFF⟩ []))
    (txid sampleSha256 (sampleTx ⟨1, 0⟩ []))
  nTime := 1600000000
  nBits := 0x1d00ffff
  nNonce := 0
  vtx := [sampleTx ⟨0, 0xFFFFFFFF⟩ vtxinwit, sampleTx ⟨1, 0⟩ []]

theorem two_witnesses_same_txids :
    sampleBlock [] ≠ sampleBlock [[[0]]] ∧
      txids checkEnvSample (sampleBlock []) = txids checkEnvSample (sampleBlock [[[0]]]) :=
  ⟨by decide +kernel,
    same_header_same_txids checkEnvSample (sampleBlock []) (sampleBlock [[[0]]])
      (by decide +kernel) (by decide +kernel) rfl
      (by unfold StringsApart; decide +kernel) (leaves_of_all (by decide +kernel))⟩

end ShareCoin.Wire
