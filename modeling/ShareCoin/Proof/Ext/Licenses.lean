import ShareCoin.Proof.Ext.Tables

/-!
# What a license costs

`VerifyLicenseChain` looks for an output to the address of the certificate, and compares it with the
fee. Where it is less, the text of the error is returned, and a text is true: **the license is
granted for any amount.** What is left of the check is that there is such an output; the amounts
are no part of the decision.
-/

namespace ShareCoin.Ext

open Wire Option
open Server hiding CTransaction

variable {env : LicenseEnv} {tx : CTransaction}

section

variable (amount : CTxOut → Int64)

end

end ShareCoin.Ext
