import ShareCoin.Proof.Server.ExtPrefix

/-!
# All keys of a multi-signature script sign

A script of pushes leaves what it pushes. A redeem script with as many keys as it asks for
signatures is satisfied by the signatures in the order of the keys: each pass of the loop of
`OP_CHECKMULTISIG` compares the last signature and the last key that are left. Before that the
signatures are deleted from the script that was signed, which changes nothing as long as none of
them can be read as one of the keys.
-/

namespace ShareCoin.Server

open Lib List

/-! ## Reading a push -/

theorem getOp_pushData {vch : List UInt8} (h : vch.length ≤ 0xffff) (rest : CScript) :
    ∃ opcode, opcode ≤ opPushData4 ∧
      getOp (pushData vch ++ rest) = some (opcode, vch, rest) := by
  have htake : ∀ opcode,
      takeOperand opcode (vch ++ rest) vch.length = some (opcode, vch, rest) := by
    intro opcode
    rw [takeOperand, if_neg (by simp), take_left, drop_left]
  by_cases hshort : vch.length < 0x4c
  · refine ⟨UInt8.ofNat vch.length, ?_, ?_⟩
    · rw [UInt8.le_iff_toNat_le, UInt8.toNat_ofNat', Nat.mod_eq_of_lt (by omega)]
      show vch.length ≤ 0x4e
      omega
    · rw [pushData_short hshort]
      exact getOp_push hshort rest
  by_cases hone : vch.length ≤ 0xff
  · refine ⟨opPushData1, by decide, ?_⟩
    have hdata : pushData vch = opPushData1 :: UInt8.ofNat vch.length :: vch := by
      simp [pushData, hshort, hone, Nat.mod_eq_of_lt (show vch.length < 256 by omega)]
    have hsize : leNat (UInt8.ofNat vch.length :: (vch ++ rest)) 1 = vch.length := by
      simp [leNat, Nat.mod_eq_of_lt (show vch.length < 256 by omega)]
    rw [hdata, cons_append, cons_append, getOp, if_neg (by decide), if_pos rfl,
      if_neg (by simp), hsize]
    exact htake _
  · refine ⟨opPushData2, by decide, ?_⟩
    have hdata : pushData vch = opPushData2 :: UInt8.ofNat (vch.length % 256) ::
        UInt8.ofNat (vch.length / 256 % 256) :: vch := by
      simp [pushData, hshort, hone, h, range_succ]
    have hsize : leNat (UInt8.ofNat (vch.length % 256) :: UInt8.ofNat (vch.length / 256 % 256) ::
        (vch ++ rest)) 2 = vch.length := by
      simp only [leNat, take_succ_cons, take_zero, foldr_cons, foldr_nil, UInt8.toNat_ofNat']
      omega
    rw [hdata, cons_append, cons_append, cons_append, getOp, if_neg (by decide),
      if_neg (by decide), if_pos rfl, if_neg (by simp), hsize]
    exact htake _

theorem pushData_ne_nil (vch : List UInt8) : pushData vch ≠ [] := by
  unfold pushData
  dsimp only
  split_ifs <;> simp

theorem length_le_flatMap_pushData (vs : List Valtype) :
    vs.length ≤ (vs.flatMap pushData).length := by
  induction vs with
  | nil => simp
  | cons v vs ih =>
    have hpos := length_pos_of_ne_nil (pushData_ne_nil v)
    rw [flatMap_cons, length_append, length_cons]
    omega

theorem length_pushData_le (vch : List UInt8) : (pushData vch).length ≤ vch.length + 5 := by
  unfold pushData
  dsimp only
  split_ifs <;> simp only [length_append, length_cons, length_map,
    length_range] <;> omega

variable {vs : List Valtype}

theorem length_flatMap_pushData_le {b : Nat} (hvs : ∀ v ∈ vs, v.length ≤ b) :
    (vs.flatMap pushData).length ≤ (b + 5) * vs.length := by
  induction vs with
  | nil => simp
  | cons v vs ih =>
    have hv := hvs v mem_cons_self
    have hpush := length_pushData_le v
    have hrest := ih fun x hx => hvs x (mem_cons_of_mem v hx)
    rw [flatMap_cons, length_append, length_cons, Nat.mul_succ]
    omega

/-! ## Passes -/

variable {sig : CSignature} {sigver : SigVersion} {flags : UInt32} {stack : List Valtype}
  {rest : CScript} {s : EvalState} {opcode : UInt8} {vch : Valtype} {scriptCode : CScript}

theorem isDisabled_of_le (h : opcode ≤ 0x60) : isDisabled opcode = false := by
  have hle : opcode.toNat ≤ 0x60 := UInt8.le_iff_toNat_le.mp h
  have hge : ∀ b : UInt8, 0x60 < b.toNat → ¬ b ≤ opcode := by
    intro b hb hle'
    have := UInt8.le_iff_toNat_le.mp hle'
    omega
  have hne : ∀ b : UInt8, 0x60 < b.toNat → opcode ≠ b := by
    rintro b hb rfl
    omega
  simp [isDisabled, hge 0x7e (by decide), hge 0x83 (by decide), hge 0x95 (by decide),
    hne 0x8d (by decide), hne 0x8e (by decide)]

theorem step_ok {s s' : EvalState} (hop : getOp s.pc = some (opcode, vch, rest))
    (hvch : vch.length ≤ 520) (hcount : opcode ≤ 0x60 ∨ (s.read opcode rest).nOpCount ≤ 201)
    (henabled : isDisabled opcode = false)
    (hrun : execRead sig sigver flags opcode vch (s.read opcode rest) = .ok s')
    (hstack : s'.stack.length + s'.altstack.length ≤ 1000) : step sig sigver flags s = .ok s' := by
  have hcount' :
      (decide (opcode ≤ 0x60) || decide ((s.read opcode rest).nOpCount ≤ 201)) = true := by
    simpa using hcount
  have hstack' : decide (s'.stack.length + s'.altstack.length ≤ 1000) = true := by
    simpa using hstack
  have hvch' : decide (vch.length ≤ 520) = true := by simpa using hvch
  rw [step, hop]
  simp only [hvch', hcount', henabled, hrun]
  show (require (decide (s'.stack.length + s'.altstack.length ≤ 1000)) >>= fun _ => .ok s') = _
  rw [hstack']
  rfl

theorem read_of_le (hok : opcode ≤ 0x60) (rest : CScript) :
    s.read opcode rest = { s with pc := rest } := by
  rw [EvalState.read, if_neg (UInt8.not_lt.mpr hok)]

theorem fExec_of_nil (hexec : s.vfExec = []) (rest : CScript) :
    EvalState.fExec { s with pc := rest } = true := by
  simp [EvalState.fExec, hexec]

theorem step_push (hop : getOp s.pc = some (opcode, vch, rest)) (hpush : opcode ≤ opPushData4)
    (hvch : vch.length ≤ 520) (hexec : s.vfExec = [])
    (hstack : s.stack.length + 1 + s.altstack.length ≤ 1000) :
    step sig sigver flags s = .ok { s with pc := rest, stack := vch :: s.stack } := by
  have hok : opcode ≤ 0x60 := UInt8.le_trans hpush (by decide)
  refine step_ok hop hvch (.inl hok) (isDisabled_of_le hok) ?_ hstack
  rw [read_of_le hok, execRead, fExec_of_nil hexec, if_pos (by simpa using hpush)]

theorem encodeOpN_spec : ∀ {n : Nat}, 1 ≤ n → n ≤ 16 →
    opPushData4 < encodeOpN n ∧ encodeOpN n ≤ 0x60 ∧ decode (encodeOpN n) = .number n ∧
      vchOfNum n = [UInt8.ofNat n] := by
  intro n hlo hhi
  interval_cases n <;> exact ⟨by decide, by decide, rfl, rfl⟩

theorem step_number {n : Nat} (hlo : 1 ≤ n) (hhi : n ≤ 16) (hpc : s.pc = encodeOpN n :: rest)
    (hexec : s.vfExec = []) (hstack : s.stack.length + 1 + s.altstack.length ≤ 1000) :
    step sig sigver flags s = .ok { s with pc := rest, stack := [UInt8.ofNat n] :: s.stack } := by
  obtain ⟨hgt, hok, hdecode, hnum⟩ := encodeOpN_spec hlo hhi
  have hnot : ¬ encodeOpN n ≤ opPushData4 := UInt8.not_le.mpr hgt
  refine step_ok (hpc ▸ getOp_cons hgt rest) (by simp) (.inl hok) (isDisabled_of_le hok) ?_ hstack
  rw [read_of_le hok, execRead, fExec_of_nil hexec, if_neg (by simpa using hnot), if_pos (by simp),
    hdecode]
  show Except.ok _ = _
  rw [hnum]

/-! ## Runs -/

section

variable {k : Nat} {s' : EvalState}

theorem loop_step (hlive : s.live = true) (hstep : step sig sigver flags s = .ok s') :
    (loop EvalState.live (step sig sigver flags) .outOfPasses (k + 1) s).result =
      (loop EvalState.live (step sig sigver flags) .outOfPasses k s').result := by
  rw [loop, if_pos hlive, hstep]

theorem loop_pushes (hvs : ∀ v ∈ vs, v.length ≤ 520) (rest : CScript) :
    ∀ {s : EvalState}, s.pc = vs.flatMap pushData ++ rest → s.vfExec = [] →
      s.stack.length + vs.length + s.altstack.length ≤ 1000 →
      (loop EvalState.live (step sig sigver flags) .outOfPasses (k + vs.length) s).result =
        (loop EvalState.live (step sig sigver flags) .outOfPasses k
          { s with pc := rest, stack := vs.reverse ++ s.stack }).result := by
  induction vs with
  | nil =>
    intro s hpc _ _
    rw [show s = { s with pc := rest } by rw [← show s.pc = rest from hpc]]
    rfl
  | cons v vs ih =>
    intro s hpc hexec hstack
    rw [flatMap_cons, append_assoc] at hpc
    rw [length_cons] at hstack
    obtain ⟨opcode, hpush, hop⟩ := getOp_pushData
      (Nat.le_trans (hvs v mem_cons_self) (by decide)) (vs.flatMap pushData ++ rest)
    have hlive : s.live = true := by
      simp [EvalState.live, hpc, pushData_ne_nil]
    rw [length_cons, ← Nat.add_assoc, loop_step hlive
      (step_push (hpc ▸ hop) hpush (hvs v mem_cons_self) hexec (by omega))]
    have hrest := @ih (forall_mem_cons.mp hvs).2
      { s with pc := vs.flatMap pushData ++ rest, stack := v :: s.stack } rfl hexec
      (by simp only [length_cons]; omega)
    rw [hrest, reverse_cons, append_assoc]
    rfl

end

theorem loop_end {s : EvalState} (k : Nat) (hs : s.pc = []) :
    (loop EvalState.live (step sig sigver flags) .outOfPasses k s).result = .ok s := by
  cases k <;> simp [loop, EvalState.live, hs]

/-- **A script of pushes leaves what it pushes.** -/
theorem evalScript_pushes (hvs : ∀ v ∈ vs, v.length ≤ 520) (hcount : vs.length ≤ 1000)
    (hlen : (vs.flatMap pushData).length ≤ 10000) :
    evalScript sig sigver flags [] (vs.flatMap pushData) = some vs.reverse := by
  obtain ⟨k, hk⟩ := Nat.exists_eq_add_of_le (length_le_flatMap_pushData vs)
  have hrun : (evalRun sig sigver flags [] (vs.flatMap pushData)).result = .ok
      { pc := [], pbegincodehash := vs.flatMap pushData, stack := vs.reverse } := by
    rw [evalRun, if_neg (Nat.not_lt.mpr hlen), hk, Nat.add_comm,
      loop_pushes hvs [] (append_nil _).symm rfl (by simpa using hcount), loop_end k rfl,
      append_nil]
  rw [evalScript, hrun]
  rfl

/-! ## `OP_CHECKMULTISIG` -/

theorem ok_bind {α β : Type} {x : Eval α} {a : α} (h : x = .ok a) (f : α → Eval β) :
    x >>= f = f a := by
  rw [h]
  rfl

theorem require_eq {b : Bool} (h : b = true) : require b = .ok () := by
  rw [h]
  rfl

theorem stacktop_eq {i : Nat} {v : Valtype} (h : stack[i]? = some v) :
    stacktop stack i = .ok v := by
  rw [stacktop, h]

theorem dropSigs_eq :
    ∀ {m isig : Nat},
      (∀ i < m, ∃ s, stack[isig + i]? = some s ∧ dropSig sigver s scriptCode = scriptCode) →
      dropSigs sigver stack m isig scriptCode = .ok scriptCode := by
  intro m
  induction m with
  | zero =>
    intro isig _
    rfl
  | succ m ih =>
    intro isig h
    obtain ⟨s, hs, hdrop⟩ := h 0 (Nat.succ_pos m)
    rw [Nat.add_zero] at hs
    rw [dropSigs, stacktop_eq hs]
    show dropSigs sigver stack m (isig + 1) (dropSig sigver s scriptCode) = _
    rw [hdrop]
    apply ih
    intro i hi
    rw [Nat.add_right_comm, Nat.add_assoc]
    exact h (i + 1) (Nat.succ_lt_succ hi)

theorem multiSigLoop_eq :
    ∀ {m isig ikey : Nat},
      (∀ i < m, ∃ s key, stack[isig + i]? = some s ∧ stack[ikey + i]? = some key ∧
        sig.checkSig s key scriptCode sigver = true) →
      multiSigLoop sig sigver scriptCode stack m m isig ikey = .ok true := by
  intro m
  induction m with
  | zero =>
    intro isig ikey _
    rfl
  | succ m ih =>
    intro isig ikey h
    obtain ⟨s, key, hs, hkey, hok⟩ := h 0 (Nat.succ_pos m)
    rw [Nat.add_zero] at hs hkey
    have hrest : multiSigLoop sig sigver scriptCode stack m m (isig + 1) (ikey + 1) = .ok true := by
      apply ih
      intro i hi
      have := h (i + 1) (Nat.succ_lt_succ hi)
      rwa [show isig + 1 + i = isig + (i + 1) by omega, show ikey + 1 + i = ikey + (i + 1) by omega]
    rw [multiSigLoop, stacktop_eq hs, stacktop_eq hkey]
    show (if _ then _ else _) = _
    simp only [hok, if_true, Nat.lt_irrefl, if_false]
    exact hrest

theorem popAll_eq : ∀ (vs rest : List Valtype), popAll vs.length (vs ++ rest) = .ok rest := by
  intro vs rest
  induction vs with
  | nil => rfl
  | cons v vs ih => exact ih

theorem castToBigNum_small : ∀ {n : Nat}, 1 ≤ n → n ≤ 16 →
    castToBigNum [UInt8.ofNat n] = .ok (n : Int) ∧ getint n = n := by
  intro n hlo hhi
  interval_cases n <;> exact ⟨rfl, rfl⟩

/-- The stack in front of `OP_CHECKMULTISIG`, the top first. -/
def multiSigStack (keys : List Valtype) (sign : Valtype → Valtype) : List Valtype :=
  [UInt8.ofNat keys.length] :: (keys.reverse ++
    ([UInt8.ofNat keys.length] :: ((keys.map sign).reverse ++ [[]])))

section

variable {keys : List Valtype} {sign : Valtype → Valtype}

theorem length_multiSigStack :
    (multiSigStack keys sign).length = keys.length + keys.length + 3 := by
  simp only [multiSigStack, length_cons, length_append, length_reverse, length_map, length_nil]
  omega

theorem multiSigStack_count : (multiSigStack keys sign)[keys.length + 1]? =
    some [UInt8.ofNat keys.length] := by
  rw [multiSigStack, getElem?_cons_succ, getElem?_append_right (by simp)]
  simp

theorem multiSigStack_slot {i : Nat} {key : Valtype} (h : keys.reverse[i]? = some key) :
    (multiSigStack keys sign)[1 + i]? = some key ∧
      (multiSigStack keys sign)[keys.length + 2 + i]? = some (sign key) := by
  have hi : i < keys.reverse.length := (List.getElem?_eq_some_iff.mp h).1
  constructor
  · rw [multiSigStack, Nat.add_comm, getElem?_cons_succ,
      getElem?_append_left (by simpa using hi), h]
  · rw [multiSigStack, show keys.length + 2 + i = keys.length + 1 + i + 1 by omega,
      getElem?_cons_succ, getElem?_append_right (by rw [length_reverse]; omega),
      length_reverse, show keys.length + 1 + i - keys.length = i + 1 by omega,
      getElem?_cons_succ, getElem?_append_left (by simpa using hi), ← map_reverse,
      getElem?_map, h]
    rfl

/-- **Every key has signed.** -/
theorem checkMultiSig_all {nOpCount : Nat} (hlo : 1 ≤ keys.length) (hhi : keys.length ≤ 16)
    (hcount : nOpCount + keys.length ≤ 201)
    (hdrop : ∀ key ∈ keys, dropSig sigver (sign key) scriptCode = scriptCode)
    (hok : ∀ key ∈ keys, sig.checkSig (sign key) key scriptCode sigver = true) :
    checkMultiSig sig sigver false scriptCode nOpCount (multiSigStack keys sign) =
      .ok ([vchTrue], nOpCount + keys.length) := by
  obtain ⟨hnum, hint⟩ := castToBigNum_small hlo hhi
  have hslot : ∀ i < keys.length, ∃ key, key ∈ keys ∧ keys.reverse[i]? = some key := by
    intro i hi
    have hi' : i < keys.reverse.length := by simpa using hi
    exact ⟨keys.reverse.get ⟨i, hi'⟩, mem_reverse.mp (get_mem _ _), getElem?_eq_getElem hi'⟩
  have hsigs : dropSigs sigver (multiSigStack keys sign) keys.length (keys.length + 2) scriptCode =
      .ok scriptCode := by
    apply dropSigs_eq
    intro i hi
    obtain ⟨key, hmem, hkey⟩ := hslot i hi
    exact ⟨sign key, (multiSigStack_slot hkey).2, hdrop key hmem⟩
  have hloop : multiSigLoop sig sigver scriptCode (multiSigStack keys sign) keys.length keys.length
      (keys.length + 2) 1 = .ok true := by
    apply multiSigLoop_eq
    intro i hi
    obtain ⟨key, hmem, hkey⟩ := hslot i hi
    exact ⟨sign key, key, (multiSigStack_slot hkey).2, (multiSigStack_slot hkey).1, hok key hmem⟩
  have hpop : popAll (keys.length + keys.length + 3) (multiSigStack keys sign) = .ok [] := by
    have := popAll_eq (multiSigStack keys sign) []
    rwa [length_multiSigStack, append_nil] at this
  have htop : stacktop (multiSigStack keys sign) 0 = .ok [UInt8.ofNat keys.length] := rfl
  have hlen := @length_multiSigStack keys sign
  have hkeys : (decide (0 ≤ getint (keys.length : Int)) &&
      decide (getint (keys.length : Int) ≤ 20)) = true := by
    simp only [Bool.and_eq_true, decide_eq_true_eq]
    omega
  have hcounts : (decide (0 ≤ getint (keys.length : Int)) &&
      decide (getint (keys.length : Int) ≤ ((getint (keys.length : Int)).toNat : Int))) = true := by
    rw [hint]
    simp
  have hnat : (getint (keys.length : Int)).toNat = keys.length := by
    rw [hint]
    rfl
  have hnumber : (multiSigStack keys sign)[(getint (keys.length : Int)).toNat + 1]? =
      some [UInt8.ofNat keys.length] := by
    rw [hnat]
    exact multiSigStack_count
  -- the passes of the opcode in order: the keys, the signatures, the loop
  refine (ok_bind (require_eq (decide_eq_true (by omega))) _).trans ?_
  refine (ok_bind htop _).trans ?_
  refine (ok_bind hnum _).trans ?_
  refine (ok_bind (require_eq hkeys) _).trans ?_
  refine (ok_bind (require_eq (decide_eq_true (by omega))) _).trans ?_
  refine (ok_bind (require_eq (decide_eq_true (by omega))) _).trans ?_
  refine (ok_bind (stacktop_eq hnumber) _).trans ?_
  refine (ok_bind hnum _).trans ?_
  refine (ok_bind (require_eq hcounts) _).trans ?_
  refine (ok_bind (require_eq (decide_eq_true (by omega))) _).trans ?_
  rw [hnat]
  refine (ok_bind hsigs _).trans ?_
  refine (ok_bind hloop _).trans ?_
  refine (ok_bind hpop _).trans ?_
  rfl

/-! ## The redeem script -/

def multiSigScript (keys : List Valtype) : CScript :=
  encodeOpN keys.length :: (keys.flatMap pushData ++ [encodeOpN keys.length, opCheckMultisig])

theorem step_checkMultiSig {nOpCount : Nat} (hpc : s.pc = [opCheckMultisig])
    (hexec : s.vfExec = []) (hcount : s.nOpCount + 1 ≤ 201)
    (hrun : checkMultiSig sig sigver false s.pbegincodehash (s.nOpCount + 1) s.stack =
      .ok (stack, nOpCount)) (hstack : stack.length + s.altstack.length ≤ 1000) :
    step sig sigver flags s = .ok { s with pc := [], stack := stack, nOpCount := nOpCount } := by
  have hread : s.read opCheckMultisig [] = { s with pc := [], nOpCount := s.nOpCount + 1 } := by
    rw [EvalState.read, if_pos (by decide)]
  have hfexec : EvalState.fExec { s with pc := [], nOpCount := s.nOpCount + 1 } = true := by
    simp [EvalState.fExec, hexec]
  have hdecode : decode opCheckMultisig = .checkMultiSig false := rfl
  refine step_ok (hpc ▸ getOp_cons (by decide) []) (by simp) (.inr (by rw [hread]; exact hcount))
    (by decide) ?_ hstack
  rw [hread, execRead, hfexec, if_neg (by decide), if_pos (by simp), hdecode]
  exact ok_bind hrun _

/-- **The redeem script is satisfied by the signatures of its keys.** -/
theorem evalScript_multiSigScript (hlo : 1 ≤ keys.length) (hhi : keys.length ≤ 16)
    (hkeys : ∀ key ∈ keys, key.length ≤ 520) (hlen : (multiSigScript keys).length ≤ 10000)
    (hdrop : ∀ key ∈ keys,
      dropSig sigver (sign key) (multiSigScript keys) = multiSigScript keys)
    (hok : ∀ key ∈ keys, sig.checkSig (sign key) key (multiSigScript keys) sigver = true) :
    evalScript sig sigver flags ((keys.map sign).reverse ++ [[]]) (multiSigScript keys) =
      some [vchTrue] := by
  obtain ⟨k, hk⟩ : ∃ k, (multiSigScript keys).length = k + 2 + keys.length + 1 := by
    have := length_le_flatMap_pushData keys
    refine ⟨(keys.flatMap pushData).length - keys.length, ?_⟩
    simp only [multiSigScript, length_cons, length_append, length_nil]
    omega
  have hrun : (evalRun sig sigver flags ((keys.map sign).reverse ++ [[]])
      (multiSigScript keys)).result = .ok
        { pc := [], pbegincodehash := multiSigScript keys, stack := [vchTrue],
          nOpCount := keys.length + 1 } := by
    rw [evalRun, if_neg (Nat.not_lt.mpr hlen), hk]
    rw [loop_step rfl (step_number hlo hhi rfl rfl (by simp; omega))]
    rw [loop_pushes hkeys [encodeOpN keys.length, opCheckMultisig] rfl rfl (by simp; omega)]
    rw [loop_step rfl (step_number hlo hhi rfl rfl (by simp; omega))]
    have hcheck := @checkMultiSig_all sig sigver (multiSigScript keys) keys sign 1 hlo hhi
      (by omega) hdrop hok
    show (loop EvalState.live (step sig sigver flags) .outOfPasses (k + 1)
      ⟨[opCheckMultisig], multiSigScript keys, multiSigStack keys sign, [], [], 0⟩).result = _
    rw [loop_step rfl (step_checkMultiSig rfl rfl (show 0 + 1 ≤ 201 by decide) hcheck (by simp)),
      loop_end k rfl, Nat.add_comm]
  rw [evalScript, hrun]
  rfl

/-! ## A signature in the script -/

theorem findAndDeleteFrom_append {b front rest : CScript} {hb : b ≠ []}
    (hnot : ¬ b <+: front ++ rest) (hop : getOp (front ++ rest) = some (opcode, vch, rest)) :
    findAndDeleteFrom b hb (front ++ rest) = front ++ findAndDeleteFrom b hb rest := by
  have htake : (front ++ rest).take ((front ++ rest).length - rest.length) = front := by
    rw [length_append, Nat.add_sub_cancel, take_left]
  rw [findAndDeleteFrom, dif_neg hnot]
  split
  case h_1 hnone =>
    rw [hop] at hnone
    cases hnone
  case h_2 op vch' rest' hsome =>
    rw [hop] at hsome
    cases hsome
    rw [htake]

/-- A signature as `ECKey::Sign` makes it, with the hash type. -/
def SigForm (vch : Valtype) : Prop := vch.length ≤ 73 ∧ vch.head? = some 0x30

def KeyForm (vch : Valtype) : Prop :=
  (vch.length = 33 ∨ vch.length = 65) ∧ vch.head? ≠ some 0x30

theorem not_prefix_of_opcode {s : Valtype} (hs : SigForm s) (hop : opPushData4 < opcode)
    (rest : CScript) : ¬ pushData s <+: opcode :: rest := by
  have hlen := hs.1
  rw [pushData_short (by omega), cons_prefix_cons]
  rintro ⟨rfl, -⟩
  have hlt := UInt8.lt_iff_toNat_lt.mp hop
  rw [UInt8.toNat_ofNat', Nat.mod_eq_of_lt (by omega)] at hlt
  exact absurd hlt (Nat.not_lt.mpr (Nat.le_trans hlen (by decide)))

theorem not_prefix_of_key {s key : Valtype} (hs : SigForm s) (hkey : KeyForm key)
    (rest : CScript) : ¬ pushData s <+: pushData key ++ rest := by
  obtain ⟨hlen, hhead⟩ := hs
  obtain ⟨hsize, hform⟩ := hkey
  rw [pushData_short (by omega), pushData_short (by omega), cons_append, cons_prefix_cons]
  rintro ⟨-, hpre⟩
  apply hform
  cases s with
  | nil => cases hhead
  | cons b s =>
    cases key with
    | nil => simp at hsize
    | cons c key =>
      rw [cons_append, cons_prefix_cons] at hpre
      rw [← hpre.1]
      exact hhead

/-- **A signature cannot be read as a part of the redeem script**, so deleting it changes nothing.
    -/
theorem dropSig_multiSigScript {s : Valtype} (hs : SigForm s) (hlo : 1 ≤ keys.length)
    (hhi : keys.length ≤ 16) (hkeys : ∀ key ∈ keys, KeyForm key) :
    dropSig .base s (multiSigScript keys) = multiSigScript keys := by
  have hb := pushData_ne_nil s
  obtain ⟨hgt, -⟩ := encodeOpN_spec hlo hhi
  have hnil : findAndDeleteFrom (pushData s) hb [] = [] := by
    rw [findAndDeleteFrom, dif_neg (by simpa using hb)]
    rfl
  have hop : ∀ {opcode : UInt8}, opPushData4 < opcode → ∀ rest,
      findAndDeleteFrom (pushData s) hb (opcode :: rest) =
        opcode :: findAndDeleteFrom (pushData s) hb rest := by
    intro opcode h rest
    exact @findAndDeleteFrom_append opcode [] _ [opcode] rest hb
      (not_prefix_of_opcode hs h rest) (getOp_cons h rest)
  have hpushes : ∀ rest, findAndDeleteFrom (pushData s) hb (keys.flatMap pushData ++ rest) =
      keys.flatMap pushData ++ findAndDeleteFrom (pushData s) hb rest := by
    clear hlo hhi hgt
    induction keys with
    | nil => exact fun _ => rfl
    | cons key keys ih =>
      intro rest
      have hkey := hkeys key mem_cons_self
      have hshort : key.length ≤ 0xffff := by
        have := hkey.1
        omega
      obtain ⟨opcode, -, hread⟩ := getOp_pushData hshort (keys.flatMap pushData ++ rest)
      rw [flatMap_cons, append_assoc, findAndDeleteFrom_append (not_prefix_of_key hs hkey _) hread,
        ih (fun k hk => hkeys k (mem_cons_of_mem key hk)), append_assoc]
  have hmulti : opPushData4 < opCheckMultisig := by decide
  rw [dropSig, if_pos rfl, findAndDelete, dif_neg hb, multiSigScript, hop hgt, hpushes, hop hgt,
    hop hmulti, hnil]

end

end ShareCoin.Server
