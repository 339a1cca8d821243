import ShareCoin.Wire.Payload

/-!
# What the records read back as

All of them read back as they were written, but for two: an offer loses its `nType`, and an
alternate transaction loses its `vchAux` when its flag says that there is none.
-/

namespace ShareCoin.Wire

open Lib
open Codec (Exact)

theorem u32_exact : u32.Exact := fun _ => rfl

theorem u64_exact : u64.Exact := fun _ => rfl

theorem i32_exact : i32.Exact := fun _ => rfl

theorem i64_exact : i64.Exact := fun _ => rfl

theorem u160_exact : u160.Exact := fun _ => rfl

theorem u256_exact : u256.Exact := fun _ => rfl

theorem outPoint_exact : outPoint.Exact := .record (u256_exact.pair u32_exact) fun _ => rfl

theorem txIn_exact : txIn.Exact :=
  .record (outPoint_exact.pair (cbuff_exact.pair u32_exact)) fun _ => rfl

theorem txOut_exact : txOut.Exact := .record (i64_exact.pair cbuff_exact) fun _ => rfl

theorem CExtCore.codec_exact : CExtCore.codec.Exact :=
  .record (u32_exact.pair (u64_exact.pair cbuff_exact)) fun _ => rfl

theorem Shgeo.codec_exact : Shgeo.codec.Exact :=
  .record (u64_exact.pair (u64_exact.pair (u64_exact.pair (u32_exact.pair u32_exact))))
    fun _ => rfl

theorem CIdent.codec_exact : CIdent.codec.Exact :=
  .record (CExtCore.codec_exact.pair (Shgeo.codec_exact.pair (cbuff_exact.pair u32_exact)))
    fun _ => rfl

theorem CSign.codec_exact : CSign.codec.Exact :=
  .record (u32_exact.pair (cbuff_exact.pair (cbuff_exact.pair (vec_exact cbuff_exact))))
    fun _ => rfl

theorem CCert.codec_exact : CCert.codec.Exact :=
  .record (CIdent.codec_exact.pair (u160_exact.pair (CSign.codec_exact.pair
    (cbuff_exact.pair (i64_exact.pair i32_exact))))) fun _ => rfl

theorem CAlias.codec_exact : CAlias.codec.Exact := .record CIdent.codec_exact fun _ => rfl

theorem CParam.codec_exact : CParam.codec.Exact :=
  .record (CExtCore.codec_exact.pair i64_exact) fun _ => rfl

theorem matrix_exact : matrix.Exact :=
  .record (u32_exact.pair (u32_exact.pair (u160_exact.pair (.vector u32_exact)))) fun _ => rfl

theorem CExecCore.codec_exact : CExecCore.codec.Exact :=
  .record (CExtCore.codec_exact.pair (u160_exact.pair (cbuff_exact.pair (CSign.codec_exact.pair
    (i64_exact.pair (i64_exact.pair (i64_exact.pair (u64_exact.pair (u160_exact.pair
      (u160_exact.pair (u256_exact.pair (cbuff_exact.pair ((vec_exact cbuff_exact).pair
        (vec_exact u256_exact)))))))))))))) fun _ => rfl

theorem CAltBlock.codec_exact : CAltBlock.codec.Exact :=
  .record (u32_exact.pair (u256_exact.pair (u256_exact.pair (u32_exact.pair
    (u32_exact.pair u32_exact))))) fun _ => rfl

/-- **The type of an offer is lost.** -/
theorem COffer.codec_norm (nType : Int32) (o : COffer) :
    (COffer.codec nType).norm o = { o with nType := 16 } := by
  have hskip : (Codec.skip i32 nType).Exact := fun _ => rfl
  exact (CExtCore.codec_exact.pair (hskip.pair (i64_exact.pair (i64_exact.pair (i64_exact.pair
    (i64_exact.pair (u160_exact.pair (u160_exact.pair (u256_exact.pair (u256_exact.pair
      (u256_exact.pair (u32_exact.pair (u256_exact.pair (cbuff_exact.pair (cbuff_exact.pair
        (cbuff_exact.pair cbuff_exact)))))))))))))))).norm_record o

def CAltTx.readBack (t : CAltTx) : CAltTx :=
  { t with vchAux := if 1 < t.nFlag then t.vchAux else [] }

theorem CAltTx.codec_norm (t : CAltTx) : CAltTx.codec.norm t = t.readBack := by
  have hcore := u32_exact.pair ((vec_exact txIn_exact).pair ((vec_exact txOut_exact).pair
    u32_exact)) (t.nFlag, t.vin, t.vout, t.nLockTime)
  have haux := Codec.norm_opt (decide (1 < t.nFlag)) [] cbuff t.vchAux
  rw [cbuff_exact] at haux
  unfold CAltTx.codec Codec.record Codec.dep
  dsimp only
  rw [hcore, haux]
  simp only [CAltTx.readBack, decide_eq_true_eq]

theorem CAltChain.codec_norm (a : CAltChain) :
    CAltChain.codec.norm a = { a with vtx := a.vtx.map CAltTx.readBack } := by
  have hvtx : (vec CAltTx.codec).norm a.vtx = a.vtx.map CAltTx.readBack := by
    show a.vtx.map CAltTx.codec.norm = _
    rw [show CAltTx.codec.norm = CAltTx.readBack from funext CAltTx.codec_norm]
  unfold CAltChain.codec Codec.record Codec.pair
  dsimp only
  rw [hvtx, CExtCore.codec_exact, CAltBlock.codec_exact, u160_exact]

end ShareCoin.Wire
