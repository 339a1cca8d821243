import ShareCoin.Proof.Wire.Payload
import ShareCoin.Wire.Transaction

/-!
# A transaction reads back

What the reader needs is that no vector is longer than it accepts, that the transaction has an
input, and that the witness has no more stacks than there are inputs (`Fits`). Then it takes exactly
the bytes that were written and returns the transaction as `readBack` describes it.
-/

namespace ShareCoin.Wire

open Lib Server List Option

/-! ## Resizing a witness -/

theorem resize_length (n : Nat) (vtxinwit : List Stack) : (resize n vtxinwit).length = n := by
  rw [resize, length_append, length_take, length_replicate]
  omega

theorem mem_resize {n : Nat} {vtxinwit : List Stack} {stack : Stack}
    (h : stack ∈ resize n vtxinwit) : stack ∈ vtxinwit ∨ stack = [] := by
  rcases mem_append.mp h with h | h
  · exact .inl (mem_of_mem_take h)
  · exact .inr (eq_of_mem_replicate h)

/-! ## The core -/

namespace CTransactionCore

/-- What the reader of the core needs. -/
structure Fits (nVersion : UInt32) (tx : CTransactionCore) : Prop where
  vin_ne : tx.vin ≠ []
  vin : (vec txIn).fits tx.vin
  vout : (vec txOut).fits tx.vout
  witness_le : tx.vtxinwit.length ≤ tx.vin.length
  witness : tx.flag nVersion = true → ∀ stack ∈ tx.vtxinwit, (vec cbuff).fits stack

/-- The witness as it is read back: a stack for each input, or nothing. -/
def readBack (nVersion : UInt32) (tx : CTransactionCore) : CTransactionCore :=
  { tx with vtxinwit := if tx.flag nVersion then resize tx.vin.length tx.vtxinwit else [] }

variable {nVersion : UInt32} {tx : CTransactionCore}

theorem u32_get_put (a : UInt32) (rest : List UInt8) :
    u32.get (u32.put a ++ rest) = some (a, rest) :=
  u32.get_put rest trivial

theorem Fits.getVectors (h : tx.Fits nVersion) (rest : List UInt8) :
    getVectors nVersion ((if tx.flag nVersion then (vec txIn).put [] ++ u8.put 1 else []) ++
      ((vec txIn).put tx.vin ++ ((vec txOut).put tx.vout ++ rest))) =
    some ((if tx.flag nVersion then 1 else 0, tx.vin, tx.vout), rest) := by
  have hvin : ∀ s, (vec txIn).get ((vec txIn).put tx.vin ++ s) = some (tx.vin, s) := by
    intro s
    rw [(vec txIn).get_put s h.vin, vec_exact txIn_exact]
  have hvout : ∀ s, (vec txOut).get ((vec txOut).put tx.vout ++ s) = some (tx.vout, s) := by
    intro s
    rw [(vec txOut).get_put s h.vout, vec_exact txOut_exact]
  have hnil : ∀ s, (vec txIn).get ((vec txIn).put [] ++ s) = some ([], s) := by
    intro s
    exact (vec txIn).get_put s ⟨Nat.zero_le _, by simp⟩
  have hflag : ∀ s, u8.get (u8.put 1 ++ s) = some (1, s) := fun s => u8.get_put s trivial
  unfold CTransactionCore.getVectors
  cases hf : tx.flag nVersion with
  | false =>
    simp [hvin, hvout, h.vin_ne]
  | true =>
    have hno : noWitness nVersion = false := by
      unfold CTransactionCore.flag at hf
      simp at hf
      exact hf.1
    simp [hnil, hflag, hvin, hvout, hno, append_assoc]

theorem Fits.getWitness (h : tx.Fits nVersion) (rest : List UInt8) :
    getWitness nVersion (if tx.flag nVersion then 1 else 0) tx.vin.length
      ((if tx.flag nVersion then (vec cbuff).putAll (resize tx.vin.length tx.vtxinwit) else []) ++
        rest) = some ((tx.readBack nVersion).vtxinwit, rest) := by
  unfold CTransactionCore.getWitness readBack
  cases hf : tx.flag nVersion with
  | false => simp
  | true =>
    have hno : noWitness nVersion = false := by
      simp only [flag, Bool.and_eq_true, Bool.not_eq_true'] at hf
      exact hf.1
    have hfits : ∀ stack ∈ resize tx.vin.length tx.vtxinwit, (vec cbuff).fits stack := by
      intro stack hstack
      rcases mem_resize hstack with hstack | rfl
      · exact h.witness hf stack hstack
      · exact ⟨Nat.zero_le _, by simp⟩
    have hget := Codec.getN_putAll hfits rest
    rw [resize_length] at hget
    have hexact : ∀ l : List Stack, l.map (vec cbuff).norm = l := by
      intro l
      rw [show (vec cbuff).norm = id from funext (vec_exact cbuff_exact), List.map_id]
    rw [hexact] at hget
    simp [hno, hget]

/-- **The core reads back.** -/
theorem Fits.get_put (h : tx.Fits nVersion) (rest : List UInt8) :
    get nVersion (tx.put nVersion ++ rest) = some (tx.readBack nVersion, rest) := by
  have hvectors := h.getVectors ((if tx.flag nVersion then
    (vec cbuff).putAll (resize tx.vin.length tx.vtxinwit) else []) ++
      (u32.put tx.nLockTime ++ rest))
  have hwitness := h.getWitness (u32.put tx.nLockTime ++ rest)
  unfold get put
  simp only [append_assoc]
  rw [u32_get_put]
  simp only [bind_eq_bind, bind_some]
  rw [hvectors]
  simp only [bind_some]
  rw [hwitness]
  simp only [bind_some]
  rw [u32_get_put]
  rfl

theorem size_eq (nVersion : UInt32) (tx : CTransactionCore) :
    tx.size nVersion = UInt32.ofNat (tx.put nVersion).length := by
  unfold size put
  simp only [length_append, UInt32.ofNat_add, Codec.size_eq, Codec.sizeAll_eq]
  cases tx.flag nVersion <;> simp [UInt32.ofNat_add]

end CTransactionCore

/-! ## The transaction -/

namespace CTransaction

variable {nVersion : UInt32} {tx : CTransaction}

/-- What the reader of a transaction needs: no vector that is written has more than `MAX_SIZE`
    elements, there is an input, and there are no more witness stacks than inputs. -/
structure Fits (nVersion : UInt32) (tx : CTransaction) : Prop where
  core : tx.toCTransactionCore.Fits nVersion
  payload : (payload serNetwork tx.nFlag).fits tx.records

/-- **A transaction as it is read back.** The records that the flags do not select are null. Of
    those that are selected, an offer has lost its `nType`, and an alternate transaction without a
    flag for it has lost its `vchAux`. -/
def readBack (nVersion : UInt32) (tx : CTransaction) : CTransaction where
  toCTransactionCore := tx.toCTransactionCore.readBack nVersion
  certificate := if hasFlag tx.nFlag txfCert then tx.certificate else .null
  exec := if hasFlag tx.nFlag txfExec then tx.exec else {}
  calias := if hasFlag tx.nFlag txfAlias then tx.calias else {}
  offer := if hasFlag tx.nFlag txfOffer then { tx.offer with nType := 16 } else {}
  matrix := if hasFlag tx.nFlag txfMatrix then tx.matrix else .null
  altchain := if hasFlag tx.nFlag txfAltChain then
    { tx.altchain with vtx := tx.altchain.vtx.map CAltTx.readBack } else {}
  param := if hasFlag tx.nFlag txfParam then tx.param else {}

theorem payload_norm (nType : Int32) (nVersion : UInt32) (tx : CTransaction) :
    (payload nType tx.nFlag).norm tx.records = (tx.readBack nVersion).records := by
  simp only [payload, Codec.pair, records, readBack, Codec.norm_opt,
    CCert.codec_exact tx.certificate, CExecCore.codec_exact tx.exec, CAlias.codec_exact tx.calias,
    COffer.codec_norm, matrix_exact tx.matrix, CAltChain.codec_norm, CParam.codec_exact tx.param]

theorem payload_fits {nType nType' : Int32} {nFlag : UInt32}
    {r : CCert × CExecCore × CAlias × COffer × CTxMatrix × CAltChain × CParam}
    (h : (payload nType nFlag).fits r) : (payload nType' nFlag).fits r := by
  have hoffer : (Codec.opt (hasFlag nFlag txfOffer) {} (COffer.codec nType)).fits r.2.2.2.1 →
      (Codec.opt (hasFlag nFlag txfOffer) {} (COffer.codec nType')).fits r.2.2.2.1 := by
    cases hasFlag nFlag txfOffer <;> exact id
  exact ⟨h.1, h.2.1, h.2.2.1, hoffer h.2.2.2.1, h.2.2.2.2⟩

theorem Fits.unserialize (h : tx.Fits nVersion) (rest : List UInt8) :
    CTransaction.unserialize serNetwork nVersion (tx.serialize serNetwork nVersion ++ rest) =
      some (tx.readBack nVersion, rest) := by
  have hpayload := (Wire.payload serNetwork tx.nFlag).get_put rest h.payload
  rw [payload_norm serNetwork nVersion] at hpayload
  unfold CTransaction.unserialize serialize
  rw [append_assoc, h.core.get_put]
  show ((Wire.payload serNetwork tx.nFlag).get _).bind _ = _
  rw [hpayload]
  rfl

theorem getSerializeSize_eq (nType : Int32) (nVersion : UInt32) (tx : CTransaction) :
    tx.getSerializeSize nType nVersion = UInt32.ofNat (tx.serialize nType nVersion).length := by
  rw [getSerializeSize, serialize, length_append, UInt32.ofNat_add, Codec.size_eq,
    CTransactionCore.size_eq]

/-! ## The hash -/

theorem put_noWitness (core : CTransactionCore) (vtxinwit : List Stack) :
    { core with vtxinwit := vtxinwit }.put serializeTransactionNoWitness =
      core.put serializeTransactionNoWitness := by
  have hflag : ∀ c : CTransactionCore, c.flag serializeTransactionNoWitness = false := by
    intro c
    have hno : noWitness serializeTransactionNoWitness = true := by decide
    rw [CTransactionCore.flag, hno]
    rfl
  unfold CTransactionCore.put
  rw [hflag, hflag]
  rfl

theorem getHash_witness (hash : List UInt8 → Uint256) (tx : CTransaction)
    (vtxinwit : List Stack) : { tx with vtxinwit := vtxinwit }.getHash hash = tx.getHash hash := by
  unfold getHash serialize
  show hash ({ tx.toCTransactionCore with vtxinwit := vtxinwit }.put _ ++ _) = _
  rw [put_noWitness]
  rfl

theorem Fits.getHash_readBack (h : tx.Fits nVersion) (hash : List UInt8 → Uint256) :
    (tx.readBack nVersion).getHash hash = tx.getHash hash := by
  have hpayload := (Wire.payload serGetHash tx.nFlag).put_norm (payload_fits h.payload)
  rw [payload_norm serGetHash nVersion] at hpayload
  unfold getHash serialize
  show hash ((tx.toCTransactionCore.readBack nVersion).put _ ++
    (Wire.payload serGetHash tx.nFlag).put (tx.readBack nVersion).records) = _
  rw [hpayload, CTransactionCore.readBack, put_noWitness]

/-- **A transaction reads back.** The reader takes the bytes that were written, whatever follows
    them, and returns the transaction as `readBack` describes it; the size is the number of bytes;
    and the hash is that of the transaction, and does not depend on the witness. The stream counts
    its bytes in 32 bits, so there have to be fewer than that. -/
theorem reads_back (hash : List UInt8 → Uint256) (nVersion : UInt32) (tx : CTransaction)
    (h : tx.Fits nVersion) (hlen : (tx.serialize serNetwork nVersion).length < 2 ^ 32) :
    (∀ rest, CTransaction.unserialize serNetwork nVersion
      (tx.serialize serNetwork nVersion ++ rest) = some (tx.readBack nVersion, rest)) ∧
    (tx.getSerializeSize serNetwork nVersion).toNat = (tx.serialize serNetwork nVersion).length ∧
    (tx.readBack nVersion).getHash hash = tx.getHash hash ∧
    ∀ vtxinwit, { tx with vtxinwit := vtxinwit }.getHash hash = tx.getHash hash := by
  refine ⟨h.unserialize, ?_, h.getHash_readBack hash, getHash_witness hash tx⟩
  rw [getSerializeSize_eq, UInt32.toNat_ofNat']
  exact Nat.mod_eq_of_lt hlen

/-! ## Samples -/

/-- One input with a witness, and an offer of type three. -/
def withOffer : CTransaction where
  nFlag := 0x81
  vin := [⟨⟨7, 0⟩, [], 0xFFFFFFFF⟩]
  vout := [⟨5, [0x51]⟩]
  vtxinwit := [[[1, 2]]]
  offer := { nType := 3, vchLabel := [0x61] }

theorem withOffer_fits : withOffer.Fits 0 where
  core :=
    { vin_ne := by decide
      vin := by simp [withOffer, vec, txIn, outPoint, cbuff, compactSize, maxSize, u256, u32, u8]
      vout := by simp [withOffer, vec, txOut, cbuff, compactSize, maxSize, i64, u8]
      witness_le := by decide
      witness := by simp [withOffer, vec, cbuff, compactSize, maxSize, u8] }
  payload := by
    have hflags : [txfCert, txfExec, txfAlias, txfMatrix, txfAltChain, txfParam].all
        (fun txf => !hasFlag withOffer.nFlag txf) = true := by decide
    simp only [all_cons, all_nil, Bool.and_eq_true, Bool.not_eq_true'] at hflags
    have hoffer : (COffer.codec serNetwork).fits withOffer.offer := by
      simp [withOffer, COffer.codec, CExtCore.codec, vec, cbuff, compactSize, maxSize, u8, u32, u64,
        i32, i64, u160, u256]
    simp [payload, records, hflags, hoffer]

/-- It reads back as an offer of type sixteen. -/
theorem withOffer_reads_back :
    withOffer.Fits 0 ∧ (withOffer.serialize serNetwork 0).length < 2 ^ 32 ∧
    CTransaction.unserialize serNetwork 0 (withOffer.serialize serNetwork 0 ++ [1]) =
      some ({ withOffer with offer := { nType := 16, vchLabel := [0x61] } }, [1]) := by
  have hlen : (withOffer.serialize serNetwork 0).length < 2 ^ 32 := by decide +kernel
  refine ⟨withOffer_fits, hlen, ?_⟩
  rw [(reads_back (fun _ => 0) 0 withOffer withOffer_fits hlen).1 [1]]
  decide

/-- The reader does not return the transaction that was written. -/
theorem offer_type_lost :
    withOffer.vin ≠ [] ∧ withOffer.vtxinwit.length ≤ withOffer.vin.length ∧
    CTransaction.unserialize serNetwork 0 (withOffer.serialize serNetwork 0) ≠
      some (withOffer, []) := by
  decide +kernel

end CTransaction

end ShareCoin.Wire
