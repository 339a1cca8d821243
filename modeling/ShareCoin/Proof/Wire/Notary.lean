import ShareCoin.Proof.Server.MultiSig
import ShareCoin.Proof.Server.Notaries
import ShareCoin.Wire.Notary

/-!
# Notary signatures are gathered in any order

After any number of calls the script of the input has the signature of a key in its slot exactly if
one of the nodes so far has that key: the state is a function of the keys that were seen, and not of
the order (`gather_eq`). What is signed has the final sequence and no script in it, so all calls
sign the same hash.

The sequence does not follow the slots. A call that finds an empty slot sets the sequence for
signing, and takes it back only where it filled a slot. If the last node with a notary key had
nothing to add, the sequence is that of a complete transaction although a slot is empty.
-/

namespace ShareCoin.Wire

open Lib Server List Option

/-! ## The signed hash -/

/-- What is signed, whatever stands in the input so far. -/
def notarySighash (env : NotaryEnv) (coin : CoinIface) (kSend : List CPubKey) (tx : CTransaction)
    (prevout : COutPoint) : Uint256 :=
  baseSignatureHash env.hash (generateValidateScript coin kSend).2
    { tx with vin := [⟨prevout, [], sequenceFinal - 1⟩] } 0 sighashAll

theorem baseSignatureHash_scriptSig (hash : List UInt8 → Uint256) (scriptCode : CScript)
    (tx : CTransaction) (prevout : COutPoint) (scriptSig scriptSig' : CScript)
    (nSequence : UInt32) :
    baseSignatureHash hash scriptCode { tx with vin := [⟨prevout, scriptSig, nSequence⟩] } 0
        sighashAll =
      baseSignatureHash hash scriptCode { tx with vin := [⟨prevout, scriptSig', nSequence⟩] } 0
        sighashAll := rfl

variable {node : NotaryNode} {held : CPubKey → Bool} {kSend : List CPubKey} {k : CPubKey}

/-! ## Slots -/

section

variable (env : NotaryEnv) (sighash : Uint256)

def signature (pubkey : CPubKey) : Valtype := (env.sign pubkey sighash).getD [] ++ [1]

def slotsOf (kSend : List CPubKey) (held : CPubKey → Bool) : List Valtype :=
  kSend.map fun pubkey => if held pubkey then signature env sighash pubkey else []

variable {env sighash}

theorem signature_ne_nil (pubkey : CPubKey) : signature env sighash pubkey ≠ [] := by
  simp [signature]

theorem unsolved_slotsOf (kSend : List CPubKey) (held : CPubKey → Bool) :
    unsolved (slotsOf env sighash kSend held) = 0 ↔ ∀ k ∈ kSend, held k = true := by
  rw [unsolved, slotsOf, countP_map, countP_eq_zero]
  refine forall₂_congr fun k _ => ?_
  cases hk : held k with
  | true => simp [hk, signature_ne_nil]
  | false => simp [hk]

theorem slotsOf_congr {held held' : CPubKey → Bool} (h : ∀ k ∈ kSend, held k = held' k) :
    slotsOf env sighash kSend held = slotsOf env sighash kSend held' := by
  apply map_congr_left
  intro k hk
  rw [h k hk]

theorem fillSlot_eq {held : Bool}
    (hsign : node.ecKey k = true → (env.sign k sighash).isSome = true) :
    fillSlot env node sighash k (if held then signature env sighash k else []) =
      (if held || node.ecKey k then signature env sighash k else [], !held && node.ecKey k) := by
  cases held with
  | true => simp [fillSlot, signature_ne_nil]
  | false =>
    cases hkey : node.ecKey k with
    | false => simp [fillSlot, hkey]
    | true =>
      obtain ⟨result, hresult⟩ := isSome_iff_exists.mp (hsign hkey)
      simp [fillSlot, hkey, hresult, signature]
      rfl

theorem fillSlots_eq
    (hsign : ∀ k ∈ kSend, node.ecKey k = true → (env.sign k sighash).isSome = true) :
    (fillSlots env node sighash kSend (slotsOf env sighash kSend held)).map Prod.fst =
        slotsOf env sighash kSend (fun k => held k || node.ecKey k) ∧
      (fillSlots env node sighash kSend (slotsOf env sighash kSend held)).any Prod.snd =
        kSend.any fun k => !held k && node.ecKey k := by
  induction kSend with
  | nil => exact ⟨rfl, rfl⟩
  | cons k kSend ih =>
    obtain ⟨hslots, hany⟩ := ih fun k' hk' => hsign k' (mem_cons_of_mem k hk')
    have hslot := @fillSlot_eq node k env sighash (held k) (hsign k mem_cons_self)
    have hcons : slotsOf env sighash (k :: kSend) held =
        (if held k then signature env sighash k else []) :: slotsOf env sighash kSend held := rfl
    rw [hcons, fillSlots, headD_cons, tail_cons, hslot]
    exact ⟨congrArg (List.cons _) hslots, congrArg (Bool.or _) hany⟩

end

/-! ## One call -/

/-- The script of the input: `OP_0`, the slots, and what follows them. -/
def notaryScript (slots : List Valtype) (suffix : CScript) : CScript :=
  0 :: (slots.flatMap pushData ++ suffix)

theorem extractSigs_pushes {vs : List Valtype} (hvs : ∀ v ∈ vs, v.length ≤ 0xffff)
    (rest : CScript) : extractSigs vs.length (vs.flatMap pushData ++ rest) = (vs, rest) := by
  induction vs with
  | nil => rfl
  | cons v vs ih =>
    obtain ⟨opcode, -, hop⟩ :=
      getOp_pushData (hvs v mem_cons_self) (vs.flatMap pushData ++ rest)
    rw [length_cons, extractSigs, flatMap_cons, append_assoc, readOp, hop]
    simp only [ih fun x hx => hvs x (mem_cons_of_mem v hx)]

/-- The counter is never taken for a sequence that has a meaning. -/
theorem nextSequence_ne (tx : CTransaction) (nSequence : UInt32) :
    nextSequence tx nSequence ≠ sequenceFinal - 1 ∧ nextSequence tx nSequence ≠ sequenceFinal := by
  have hand : (nSequence &&& 0xFFFF).toNat ≤ 0xFFFF := by
    exact Nat.and_le_right
  have hcount : ((nSequence &&& 0xFFFF) + 1).toNat = (nSequence &&& 0xFFFF).toNat + 1 := by
    rw [UInt32.toNat_add]
    exact Nat.mod_eq_of_lt (by show _ + 1 < _; omega)
  have hflag : ((nSequence &&& 0xFFFF) + 1 ||| sequenceDisableFlag).toNat =
      2 ^ 31 + ((nSequence &&& 0xFFFF) + 1).toNat := by
    have hor := Nat.two_pow_add_eq_or_of_lt
      (show ((nSequence &&& 0xFFFF) + 1).toNat < 2 ^ 31 by omega) 1
    rw [UInt32.toNat_or, Nat.or_comm, show sequenceDisableFlag.toNat = 2 ^ 31 * 1 from rfl, ← hor,
      Nat.mul_one]
  have hsmall : (nextSequence tx nSequence).toNat < 0xFFFFFFFE := by
    unfold nextSequence
    dsimp only
    split_ifs
    · omega
    · omega
  constructor <;>
  · intro h
    rw [h] at hsmall
    exact absurd hsmall (by decide)

variable {nSequence : UInt32} {env : NotaryEnv}

section

variable (env : NotaryEnv) (coin : CoinIface) (kSend : List CPubKey) (tx : CTransaction)
  (prevout : COutPoint) (suffix : CScript)

/-- The transaction when the keys in `held` have signed. -/
def stage (held : CPubKey → Bool) (nSequence : UInt32) : CTransaction :=
  { tx with
    vin := [⟨prevout, notaryScript
      (slotsOf env (notarySighash env coin kSend tx prevout) kSend held) suffix, nSequence⟩] }

def sequenceAfter (held : CPubKey → Bool) (node : NotaryNode) (nSequence : UInt32) : UInt32 :=
  if ∀ k ∈ kSend, held k = true then nSequence
  else if kSend.any fun k => !held k && node.ecKey k then
    if ∀ k ∈ kSend, (held k || node.ecKey k) = true then sequenceFinal - 1
    else nextSequence tx nSequence
  else sequenceFinal - 1

/-- A node at which the transaction is looked at: it is not final there, the output it spends is
    that of the notaries, and they are the keys in `kSend`. -/
structure Gathers (scriptPrev : CScript) (node : NotaryNode) : Prop where
  notFinal : isFinal node tx = false
  script : verifyValidateMatrixScript env.toMatrixEnv coin node.validate prevout.hash scriptPrev =
    true
  keys : getValidateNotaries coin node.validate prevout.hash = (true, kSend)

variable {env coin kSend tx prevout suffix}

theorem isFinal_of_sequence (h : isFinal node tx = false) {scriptSig : CScript}
    (hseq : nSequence ≠ sequenceFinal) :
    isFinal node { tx with vin := [⟨prevout, scriptSig, nSequence⟩] } = false := by
  unfold isFinal at h ⊢
  rw [Bool.or_eq_false_iff] at h ⊢
  exact ⟨h.1, by simpa using hseq⟩

theorem length_slots {sighash : Uint256}
    (hform : ∀ k ∈ kSend, held k = true → SigForm (signature env sighash k)) :
    ∀ v ∈ slotsOf env sighash kSend held, v.length ≤ 0xffff := by
  intro v hv
  obtain ⟨k, hk, rfl⟩ := List.mem_map.mp hv
  split_ifs with hheld
  · exact Nat.le_trans (hform k hk hheld).1 (by decide)
  · simp

theorem sequenceAfter_ne (h : nSequence ≠ sequenceFinal) :
    sequenceAfter kSend tx held node nSequence ≠ sequenceFinal := by
  unfold sequenceAfter
  split_ifs
  · exact h
  · decide
  · exact (nextSequence_ne tx nSequence).2
  · decide

def NotaryNode.isLocal (node : NotaryNode) (kSend : List CPubKey) : Bool := kSend.any node.isMine

theorem ecKey_of_not_isLocal (h : node.isLocal kSend = false) :
    ∀ k ∈ kSend, node.ecKey k = false := by
  intro k hk
  have := List.any_eq_false.mp h k hk
  rw [NotaryNode.isMine, Bool.not_eq_true, Bool.or_eq_false_iff] at this
  exact this.1

section

variable (hlen : kSend.length = minConsensus coin)
  (hform : ∀ k ∈ kSend, held k = true →
    SigForm (signature env (notarySighash env coin kSend tx prevout) k))
  (hsign : ∀ k ∈ kSend, node.ecKey k = true →
    (env.sign k (notarySighash env coin kSend tx prevout)).isSome = true)
include hlen hform hsign

/-- **One call.** -/
theorem updateInput_stage :
    updateInput env coin node kSend (stage env coin kSend tx prevout suffix held nSequence)
        ⟨prevout, notaryScript
          (slotsOf env (notarySighash env coin kSend tx prevout) kSend held) suffix, nSequence⟩ =
      ⟨prevout, notaryScript (slotsOf env (notarySighash env coin kSend tx prevout) kSend
        fun k => held k || node.ecKey k) suffix, sequenceAfter kSend tx held node nSequence⟩ := by
  generalize hhash : notarySighash env coin kSend tx prevout = sighash at *
  have hread : readOp (notaryScript (slotsOf env sighash kSend held) suffix) =
      (true, ⟨0, [], (slotsOf env sighash kSend held).flatMap pushData ++ suffix⟩) := by
    rfl
  have hextract : extractSigs (minConsensus coin)
      ((slotsOf env sighash kSend held).flatMap pushData ++ suffix) =
        (slotsOf env sighash kSend held, suffix) := by
    have hcount : (slotsOf env sighash kSend held).length = minConsensus coin := by
      rw [slotsOf, length_map, hlen]
    rw [← hcount, extractSigs_pushes (length_slots hform)]
  have hconsensus : (generateValidateScript coin kSend).1 = true := by
    rw [generateValidateScript, if_pos (Nat.le_of_eq hlen.symm)]
  obtain ⟨hslots, hany⟩ := @fillSlots_eq node held kSend env sighash hsign
  have hsighash : baseSignatureHash env.hash (generateValidateScript coin kSend).2
      { stage env coin kSend tx prevout suffix held nSequence with
        vin := [⟨prevout, notaryScript (slotsOf env sighash kSend held) suffix,
          sequenceFinal - 1⟩] } 0 sighashAll = sighash :=
    (baseSignatureHash_scriptSig env.hash _ tx prevout _ [] (sequenceFinal - 1)).trans hhash
  have hnext : nextSequence (stage env coin kSend tx prevout suffix held nSequence) nSequence =
      nextSequence tx nSequence := rfl
  obtain ⟨-, hfinal⟩ := nextSequence_ne tx nSequence
  simp only [updateInput, hread, hextract, hconsensus, hsighash, hslots, hany, hnext,
    unsolved_slotsOf, sequenceAfter, ne_eq, not_true_eq_false, if_false, Bool.not_true,
    Bool.false_eq_true]
  by_cases hall : ∀ k ∈ kSend, held k = true
  · rw [if_pos hall, if_pos hall, slotsOf_congr fun k hk => ?_]
    rw [hall k hk, Bool.true_or]
  rw [if_neg hall, if_neg hall]
  by_cases hfresh : (kSend.any fun k => !held k && node.ecKey k) = true
  · rw [if_pos hfresh, if_pos hfresh, if_neg]
    · rfl
    · split_ifs
      · decide
      · exact hfinal
  · rw [if_neg hfresh, if_neg hfresh, slotsOf_congr fun k hk => ?_]
    rw [Bool.not_eq_true, List.any_eq_false] at hfresh
    have := hfresh k hk
    cases hheld : held k with
    | true => rfl
    | false => simpa [hheld] using this

theorem updateValidateNotaryTx_stage {scriptPrev : CScript}
    (hg : Gathers env coin kSend tx prevout scriptPrev node) (hvout : tx.vout.length = 1)
    (hseq : nSequence ≠ sequenceFinal) :
    updateValidateNotaryTx env coin scriptPrev
        (stage env coin kSend tx prevout suffix held nSequence) node =
      stage env coin kSend tx prevout suffix (fun k => held k || node.ecKey k)
        (if node.isLocal kSend then sequenceAfter kSend tx held node nSequence else nSequence) := by
  have hfinal : isFinal node (stage env coin kSend tx prevout suffix held nSequence) = false :=
    isFinal_of_sequence hg.notFinal hseq
  have hvout' : (stage env coin kSend tx prevout suffix held nSequence).vout.length = 1 := hvout
  have hvin : (stage env coin kSend tx prevout suffix held nSequence).vin =
      [⟨prevout, notaryScript (slotsOf env (notarySighash env coin kSend tx prevout) kSend held)
        suffix, nSequence⟩] := rfl
  rw [updateValidateNotaryTx, hvin]
  simp only [hfinal, hg.script, hvout', hg.keys, Bool.false_eq_true, if_false, Bool.not_true, ne_eq,
    not_true_eq_false]
  rw [← NotaryNode.isLocal]
  cases hlocal : node.isLocal kSend with
  | true =>
    rw [if_pos rfl, if_pos rfl, updateInput_stage hlen hform hsign]
    rfl
  | false =>
    have hslots := @slotsOf_congr kSend env (notarySighash env coin kSend tx prevout) held
      (fun k => held k || node.ecKey k) fun k hk => by
        rw [ecKey_of_not_isLocal hlocal k hk, Bool.or_false]
    rw [if_neg (by decide), if_neg (by decide), stage, stage, hslots]

end

end

/-! ## All calls -/

/-- The keys that the nodes so far have. -/
def seen (run : List NotaryNode) (k : CPubKey) : Bool := run.any fun node => node.ecKey k

/-- The last call at a node with a notary key added no signature: each of its keys had signed. -/
def Idle (kSend : List CPubKey) (run : List NotaryNode) : Prop :=
  ∃ before node, (run.filter fun n => n.isLocal kSend) = before ++ [node] ∧
    ∀ k ∈ kSend, node.ecKey k = true → seen before k = true

theorem seen_append (run : List NotaryNode) (node : NotaryNode) (k : CPubKey) :
    seen (run ++ [node]) k = (seen run k || node.ecKey k) := by
  simp [seen]

theorem seen_filter {run : List NotaryNode} (hk : k ∈ kSend) :
    seen (run.filter fun n => n.isLocal kSend) k = seen run k := by
  rw [seen, seen, List.any_filter]
  congr 1
  funext node
  cases hlocal : node.isLocal kSend with
  | true => rfl
  | false => rw [ecKey_of_not_isLocal hlocal k hk, Bool.false_and]

theorem idle_append {run : List NotaryNode} :
    Idle kSend (run ++ [node]) ↔
      if node.isLocal kSend then ∀ k ∈ kSend, node.ecKey k = true → seen run k = true
      else Idle kSend run := by
  unfold Idle
  rw [filter_append]
  cases hlocal : node.isLocal kSend with
  | true =>
    have hlast : ([node].filter fun n => n.isLocal kSend) = [node] := by simp [hlocal]
    rw [hlast, if_pos rfl]
    constructor
    · rintro ⟨before, node', heq, hkeys⟩ k hk hec
      obtain ⟨rfl, hnode⟩ := append_inj' heq rfl
      rw [← seen_filter hk]
      exact hkeys k hk (singleton_inj.mp hnode ▸ hec)
    · intro h
      refine ⟨_, node, rfl, fun k hk hec => ?_⟩
      rw [seen_filter hk]
      exact h k hk hec
  | false =>
    have hlast : ([node].filter fun n => n.isLocal kSend) = [] := by simp [hlocal]
    rw [hlast, append_nil, if_neg (by decide)]

/-- Signing with a key is deterministic and correct: it gives a signature in its encoding that
    verifies, and the key is a point of the curve in one of its two encodings. -/
structure EcdsaCorrect (env : NotaryEnv) (k : CPubKey) : Prop where
  key : KeyForm k
  signs : ∀ h, ∃ s, env.sign k h = some s ∧ s.length ≤ 72 ∧ s.head? = some 0x30 ∧
    env.verify k h s = true

theorem EcdsaCorrect.sigForm (h : EcdsaCorrect env k) (sighash : Uint256) :
    SigForm (signature env sighash k) := by
  obtain ⟨s, hs, hlen, hhead, -⟩ := h.signs sighash
  refine ⟨?_, ?_⟩
  · simp only [signature, hs, getD_some, length_append, length_singleton]
    omega
  · rw [signature, hs, getD_some, head?_append, hhead]
    rfl

theorem EcdsaCorrect.isSome (h : EcdsaCorrect env k) (sighash : Uint256) :
    (env.sign k sighash).isSome = true := by
  obtain ⟨s, hs, -⟩ := h.signs sighash
  rw [hs]
  rfl

section

variable {env : NotaryEnv} {coin : CoinIface} {kSend : List CPubKey} {tx : CTransaction}
  {prevout : COutPoint} {suffix scriptPrev : CScript} {nSequence : UInt32}

theorem gather_append (run : List NotaryNode) (node : NotaryNode) (tx : CTransaction) :
    gather env coin scriptPrev (run ++ [node]) tx =
      updateValidateNotaryTx env coin scriptPrev (gather env coin scriptPrev run tx) node := by
  rw [gather, foldl_append]
  rfl

/-- The sequence is the final one after a call that leaves no slot empty, and after a call that
    fills none. -/
theorem sequenceAfter_locked
    (hdone : (∀ k ∈ kSend, held k = true) → nSequence = sequenceFinal - 1) :
    sequenceAfter kSend tx held node nSequence = sequenceFinal - 1 ↔
      (∀ k ∈ kSend, (held k || node.ecKey k) = true) ∨
        ∀ k ∈ kSend, node.ecKey k = true → held k = true := by
  have hfresh : (kSend.any fun k => !held k && node.ecKey k) = true ↔
      ¬ ∀ k ∈ kSend, node.ecKey k = true → held k = true := by
    push Not
    simp [and_comm]
  unfold sequenceAfter
  split_ifs with hall hsome hnone
  · exact iff_of_true (hdone hall) (.inr fun k hk _ => hall k hk)
  · exact iff_of_true rfl (.inl hnone)
  · refine iff_of_false (nextSequence_ne tx nSequence).1 ?_
    rintro (h | h)
    · exact hnone h
    · exact hfresh.mp hsome h
  · exact iff_of_true rfl (.inr (not_not.mp fun h => hsome (hfresh.mpr h)))

section

variable (hlen : kSend.length = minConsensus coin)
include hlen

/-- **What any number of calls leaves.** The slots are those of the keys seen so far; the sequence
    is the final one if there is no other key, or if the last call added none. -/
theorem gather_stage (hvout : tx.vout.length = 1) (hfinal : nSequence ≠ sequenceFinal)
    (hlocked : nSequence ≠ sequenceFinal - 1) (run : List NotaryNode) :
    (∀ node ∈ run, Gathers env coin kSend tx prevout scriptPrev node) →
    (∀ node ∈ run, ∀ k ∈ kSend, node.ecKey k = true → EcdsaCorrect env k) →
    ∃ nSequence', nSequence' ≠ sequenceFinal ∧
      gather env coin scriptPrev run
          (stage env coin kSend tx prevout suffix (fun _ => false) nSequence) =
        stage env coin kSend tx prevout suffix (seen run) nSequence' ∧
      (nSequence' = sequenceFinal - 1 ↔ (∀ k ∈ kSend, seen run k = true) ∨ Idle kSend run) := by
  induction run using List.reverseRecOn with
  | nil =>
    intro _ _
    refine ⟨nSequence, hfinal, rfl, iff_of_false hlocked ?_⟩
    rintro (hall | ⟨before, node, heq, -⟩)
    · have hpos : 0 < kSend.length := hlen ▸ minConsensus_pos coin
      have hmem := getElem_mem hpos
      exact absurd (hall _ hmem) (by simp [seen])
    · simp at heq
  | append_singleton run node ih =>
    intro hrun hsign
    obtain ⟨seq, hne, hgather, hseq⟩ :=
      ih (fun n hn => hrun n (mem_append_left _ hn))
        (fun n hn => hsign n (mem_append_left _ hn))
    have hnode := hsign node (by simp)
    have hform : ∀ k ∈ kSend, seen run k = true →
        SigForm (signature env (notarySighash env coin kSend tx prevout) k) := by
      intro k hk hseen
      obtain ⟨n, hn, hkey⟩ := List.any_eq_true.mp hseen
      exact (hsign n (mem_append_left _ hn) k hk hkey).sigForm _
    refine ⟨if node.isLocal kSend then sequenceAfter kSend tx (seen run) node seq else seq, ?_, ?_,
      ?_⟩
    · split_ifs
      · exact sequenceAfter_ne hne
      · exact hne
    · rw [gather_append, hgather, updateValidateNotaryTx_stage hlen hform
        (fun k hk hkey => (hnode k hk hkey).isSome _) (hrun node (by simp)) hvout hne]
      congr 1
      funext k
      exact (seen_append run node k).symm
    · simp only [seen_append, idle_append]
      cases hlocal : node.isLocal kSend with
      | true =>
        exact sequenceAfter_locked fun hall => hseq.mpr (.inl hall)
      | false =>
        simp only [Bool.false_eq_true, if_false]
        rw [hseq]
        refine or_congr (forall₂_congr fun k hk => ?_) Iff.rfl
        rw [ecKey_of_not_isLocal hlocal k hk, Bool.or_false]

/-! ## The redeem script -/

theorem generateValidateScript_eq :
    (generateValidateScript coin kSend).2 = multiSigScript kSend := by
  rw [generateValidateScript, if_pos (Nat.le_of_eq hlen.symm), ← hlen, take_length]
  rfl

theorem length_multiSigScript_le (hkeys : ∀ k ∈ kSend, KeyForm k) :
    (multiSigScript kSend).length ≤ 520 := by
  have hbound := @length_flatMap_pushData_le kSend 65 fun k hk => by
    have := (hkeys k hk).1
    omega
  have hsix : kSend.length ≤ 6 := by
    rw [hlen]
    cases coin <;> decide
  rw [multiSigScript, length_cons, length_append, length_cons, length_singleton]
  omega

/-- **A complete input is accepted.** Its script pushes the signatures and the redeem script, and
    they satisfy it. -/
theorem complete_accepted (hcorrect : ∀ k ∈ kSend, EcdsaCorrect env k) (sig : CSignature)
    (flags : UInt32) (hsig : ∀ s k code, sig.checkSig s k code .base =
      checkSigBase env.hash env.verify
        (stage env coin kSend tx prevout suffix (fun _ => true) (sequenceFinal - 1)) 0 s k code) :
    ∃ args, evalScript sig .base flags [] (notaryScript
        (slotsOf env (notarySighash env coin kSend tx prevout) kSend fun _ => true)
        (pushData (generateValidateScript coin kSend).2)) =
          some ((generateValidateScript coin kSend).2 :: args) ∧
      evaluatesToTrue sig 0 .base args (generateValidateScript coin kSend).2 = true := by
  have hredeem := @generateValidateScript_eq coin kSend hlen
  have hlong := length_multiSigScript_le hlen fun k hk => (hcorrect k hk).key
  have hlo : 1 ≤ kSend.length := hlen ▸ minConsensus_pos coin
  have hhi : kSend.length ≤ 6 := by
    rw [hlen]
    cases coin <;> decide
  generalize hhash : notarySighash env coin kSend tx prevout = sighash at *
  have hslots : slotsOf env sighash kSend (fun _ => true) = kSend.map (signature env sighash) := by
    simp [slotsOf]
  refine ⟨(kSend.map (signature env sighash)).reverse ++ [[]], ?_, ?_⟩
  · have hscript :
        notaryScript (kSend.map (signature env sighash)) (pushData (multiSigScript kSend)) =
        ([] :: (kSend.map (signature env sighash) ++ [multiSigScript kSend])).flatMap pushData := by
      simp [notaryScript, pushData_short]
    have hshort : ∀ v ∈ [] :: (kSend.map (signature env sighash) ++ [multiSigScript kSend]),
        v.length ≤ 520 := by
      intro v hv
      simp only [mem_cons, mem_append, List.mem_map, not_mem_nil, or_false] at hv
      rcases hv with rfl | ⟨k, hk, rfl⟩ | rfl
      · simp
      · exact Nat.le_trans ((hcorrect k hk).sigForm sighash).1 (by decide)
      · exact hlong
    have hbound := length_flatMap_pushData_le hshort
    rw [hslots, hredeem, hscript, evalScript_pushes hshort]
    · simp
    · simp only [length_cons, length_append, length_map, length_nil]
      omega
    · simp only [length_cons, length_append, length_map, length_nil] at hbound
      omega
  · have heval : evalScript sig .base 0 ((kSend.map (signature env sighash)).reverse ++ [[]])
        (multiSigScript kSend) = some [vchTrue] := by
      apply evalScript_multiSigScript hlo (by omega)
      · intro k hk
        have := (hcorrect k hk).key.1
        omega
      · omega
      · intro k hk
        exact dropSig_multiSigScript ((hcorrect k hk).sigForm sighash) hlo (by omega)
          fun k hk => (hcorrect k hk).key
      · intro k hk
        obtain ⟨s, hs, -, -, hverify⟩ := (hcorrect k hk).signs sighash
        have hsame : baseSignatureHash env.hash (multiSigScript kSend)
            (stage env coin kSend tx prevout suffix (fun _ => true) (sequenceFinal - 1)) 0
              sighashAll = sighash := by
          rw [← hredeem, ← hhash]
          rfl
        rw [hsig, checkSigBase, signature, hs, getD_some, getLast?_concat, dropLast_concat]
        show env.verify k (baseSignatureHash env.hash (multiSigScript kSend) _ 0 sighashAll) s = _
        rw [hsame, hverify]
    rw [hredeem, evaluatesToTrue, heval]
    rfl

end

end

/-! ## The main result -/

/-- A notary transaction without a signature: every slot is empty, the redeem script follows them,
    and the sequence is not the one that is signed. -/
structure Unsigned (coin : CoinIface) (kSend : List CPubKey) (tx : CTransaction)
    (prevout : COutPoint) (nSequence : UInt32) : Prop where
  keys : kSend.length = minConsensus coin
  vin : tx.vin = [⟨prevout, 0 :: (List.replicate (minConsensus coin) 0 ++
    pushData (generateValidateScript coin kSend).2), nSequence⟩]
  vout : tx.vout.length = 1
  notFinal : nSequence ≠ sequenceFinal
  notLocked : nSequence ≠ sequenceFinal - 1

theorem createValidateNotaryTx_unsigned {coin : CoinIface} {hPrevTx : Uint256}
    {vout : List CTxOut} {nPrevOut nLockTime : UInt32} {tx : CTransaction}
    (hlen : kSend.length = minConsensus coin)
    (h : createValidateNotaryTx env coin node hPrevTx vout nPrevOut nLockTime kSend = some tx) :
    Unsigned coin kSend tx ⟨hPrevTx, nPrevOut⟩ 1 := by
  unfold createValidateNotaryTx at h
  split at h
  · cases h
  · split_ifs at h
    dsimp only at h
    rw [if_neg (show ¬ 2 ≤ CTransaction.getVersion {} by decide)] at h
    split_ifs at h
    cases h
    exact ⟨hlen, rfl, rfl, by decide, by decide⟩

theorem Unsigned.eq_stage {coin : CoinIface} {tx : CTransaction} {prevout : COutPoint}
    (h : Unsigned coin kSend tx prevout nSequence) (env : NotaryEnv) :
    stage env coin kSend tx prevout (pushData (generateValidateScript coin kSend).2)
      (fun _ => false) nSequence = tx := by
  have hslots : (slotsOf env (notarySighash env coin kSend tx prevout) kSend
      fun _ => false).flatMap pushData = List.replicate (minConsensus coin) 0 := by
    rw [← h.keys]
    generalize notarySighash env coin kSend tx prevout = sighash
    clear h
    induction kSend with
    | nil => rfl
    | cons k kSend ih =>
      show pushData [] ++ (slotsOf env sighash kSend fun _ => false).flatMap pushData = _
      rw [ih]
      rfl
  rw [stage, notaryScript, hslots, ← h.vin]

/-- **Notary signatures are gathered in any order, and the sequence follows them unless the last
    call was idle.** `held` are the keys of the nodes that take part, each of them at least once;
    the script is a function of `held`. The sequence tells a complete transaction apart exactly if
    it is complete or the last call at a node with a notary key added a signature. A complete
    transaction has the sequence that was signed, and its input satisfies the redeem script. -/
theorem notary_gathering_iff (env : NotaryEnv) (coin : CoinIface) (kSend : List CPubKey)
    (tx : CTransaction) (prevout : COutPoint) (nSequence : UInt32) (scriptPrev : CScript)
    (run : List NotaryNode) (held : CPubKey → Bool)
    (htx : Unsigned coin kSend tx prevout nSequence)
    (hrun : ∀ node ∈ run, Gathers env coin kSend tx prevout scriptPrev node)
    (hheld : ∀ k ∈ kSend, held k = true ↔ ∃ node ∈ run, node.ecKey k = true)
    (hsign : ∀ k ∈ kSend, held k = true → EcdsaCorrect env k) :
    ∃ nSequence',
      gather env coin scriptPrev run tx = { tx with
        vin := [⟨prevout, notaryScript
          (slotsOf env (notarySighash env coin kSend tx prevout) kSend held)
          (pushData (generateValidateScript coin kSend).2), nSequence'⟩] } ∧
      ((nSequence' = sequenceFinal - 1 ↔ ∀ k ∈ kSend, held k = true) ↔
        (∀ k ∈ kSend, held k = true) ∨ ¬ Idle kSend run) ∧
      ((∀ k ∈ kSend, held k = true) → nSequence' = sequenceFinal - 1 ∧
        ∀ (sig : CSignature) (flags : UInt32),
          (∀ s k code, sig.checkSig s k code .base = checkSigBase env.hash env.verify
            (gather env coin scriptPrev run tx) 0 s k code) →
          ∃ args, evalScript sig .base flags [] (notaryScript
              (slotsOf env (notarySighash env coin kSend tx prevout) kSend held)
              (pushData (generateValidateScript coin kSend).2)) =
                some ((generateValidateScript coin kSend).2 :: args) ∧
            evaluatesToTrue sig 0 .base args (generateValidateScript coin kSend).2 = true) := by
  have hseen : ∀ k ∈ kSend, seen run k = held k := by
    intro k hk
    rw [Bool.eq_iff_iff, hheld k hk, seen, List.any_eq_true]
  obtain ⟨nSequence', -, hgather, hseq⟩ :=
    @gather_stage env coin kSend tx prevout (pushData (generateValidateScript coin kSend).2)
      scriptPrev nSequence htx.keys htx.vout htx.notFinal htx.notLocked run hrun
      fun node hnode k hk hkey => hsign k hk ((hheld k hk).mpr ⟨node, hnode, hkey⟩)
  rw [htx.eq_stage env, stage, slotsOf_congr hseen] at hgather
  have hall : (∀ k ∈ kSend, seen run k = true) ↔ ∀ k ∈ kSend, held k = true :=
    forall₂_congr fun k hk => by rw [hseen k hk]
  rw [hall] at hseq
  refine ⟨nSequence', hgather, by tauto, fun hfull => ?_⟩
  have hlocked := hseq.mpr (.inl hfull)
  refine ⟨hlocked, fun sig flags hsig => ?_⟩
  have htrue : slotsOf env (notarySighash env coin kSend tx prevout) kSend held =
      slotsOf env (notarySighash env coin kSend tx prevout) kSend fun _ => true :=
    slotsOf_congr hfull
  rw [htrue]
  refine @complete_accepted env coin kSend tx prevout
    (pushData (generateValidateScript coin kSend).2) htx.keys
    (fun k hk => hsign k hk (hfull k hk)) sig flags ?_
  intro s k code
  rw [hsig, hgather, htrue, hlocked]
  rfl

/-! ## Six notaries -/

def sampleEnv : NotaryEnv where
  getHash _ := 0
  getSerializeSize _ := 0
  matrixHash _ := 0
  hash160 _ := 0
  solverPubKey _ := none
  hash _ := 0
  sign _ _ := some [0x30]
  verify _ _ _ := true

def sampleKey (i : UInt8) : CPubKey := 2 :: i :: List.replicate 31 0

def sampleKeys : List CPubKey := [1, 2, 3, 4, 5, 6].map sampleKey

def sampleNode (ecKey : CPubKey → Bool) : NotaryNode where
  validate :=
    { matrixValidate := .null
      mapValidateTx := [1, 2, 3, 4, 5, 6, 7]
      mapValidateNotary := fun h =>
        if h.toNat < 7 then some (sampleKey (UInt8.ofNat h.toNat)) else none }
  nBestHeight := 100
  adjustedTime := 0
  ecKey
  diKey _ := false

def samplePrev : CScript :=
  [0xf7, 0x59, 0xa9] ++ pushData (List.replicate 20 0) ++ [0x6d, 0xa9] ++
    pushData (List.replicate 20 0) ++ [0x87]

def sampleNotaryTx : CTransaction where
  vin := [⟨⟨7, 0⟩, 0 :: (List.replicate 6 0 ++
    pushData (generateValidateScript .shc sampleKeys).2), 1⟩]
  vout := [⟨maxNotaryTxValue, [opReturn, 0]⟩]
  nLockTime := 500

theorem sampleTx_unsigned : Unsigned .shc sampleKeys sampleNotaryTx ⟨7, 0⟩ 1 := by
  have hcreate : createValidateNotaryTx sampleEnv .shc (sampleNode fun _ => false) 7
      [⟨maxNotaryTxValue, samplePrev⟩] 0 500 sampleKeys = some sampleNotaryTx := by rfl
  exact createValidateNotaryTx_unsigned rfl hcreate

theorem sampleNode_gathers (ecKey : CPubKey → Bool) :
    Gathers sampleEnv .shc sampleKeys sampleNotaryTx ⟨7, 0⟩ samplePrev (sampleNode ecKey) :=
  ⟨by rfl, by rfl, by rfl⟩

theorem sampleKey_correct (i : UInt8) : EcdsaCorrect sampleEnv (sampleKey i) :=
  ⟨⟨.inl rfl, by simp [sampleKey]⟩, fun _ => ⟨[0x30], rfl, by decide, rfl, rfl⟩⟩

/-- Two nodes with a key and the other five. -/
theorem two_shares_complete :
    ∃ nSequence', nSequence' = sequenceFinal - 1 ∧
      (gather sampleEnv .shc samplePrev
        [sampleNode (· != sampleKey 1), sampleNode (· == sampleKey 1)] sampleNotaryTx).vin =
        [⟨⟨7, 0⟩, notaryScript (List.replicate 6 [0x30, 1])
          (pushData (generateValidateScript .shc sampleKeys).2), nSequence'⟩] := by
  obtain ⟨nSequence', hgather, -, hfull⟩ :=
    notary_gathering_iff sampleEnv .shc sampleKeys sampleNotaryTx ⟨7, 0⟩ 1 samplePrev
      [sampleNode (· != sampleKey 1), sampleNode (· == sampleKey 1)] (fun _ => true)
      sampleTx_unsigned
      (forall_mem_cons.mpr ⟨sampleNode_gathers _,
        forall_mem_cons.mpr ⟨sampleNode_gathers _, by simp⟩⟩)
      (by
        intro k _
        simpa [sampleNode] using ne_or_eq k (sampleKey 1))
      (by
        intro k hk _
        obtain ⟨i, -, rfl⟩ := List.mem_map.mp hk
        exact sampleKey_correct i)
  refine ⟨nSequence', (hfull fun _ _ => rfl).1, ?_⟩
  rw [hgather]
  rfl

/-- **A node that has signed and looks at the transaction again sets the sequence of a complete
    one**, although five slots are empty. -/
theorem second_look_locks :
    Unsigned .shc sampleKeys sampleNotaryTx ⟨7, 0⟩ 1 ∧
    Gathers sampleEnv .shc sampleKeys sampleNotaryTx ⟨7, 0⟩ samplePrev
      (sampleNode (· == sampleKey 1)) ∧
    (gather sampleEnv .shc samplePrev
      [sampleNode (· == sampleKey 1), sampleNode (· == sampleKey 1)] sampleNotaryTx).vin =
      [⟨⟨7, 0⟩, notaryScript ([0x30, 1] :: List.replicate 5 [])
        (pushData (generateValidateScript .shc sampleKeys).2), sequenceFinal - 1⟩] :=
  ⟨sampleTx_unsigned, sampleNode_gathers _, by decide +kernel⟩

end ShareCoin.Wire
