import SrsUE.Lib.BinaryField
import SrsUE.Lib.BitBlocks

/-!
# `SrsUE.Lib.Cmac`: a message authentication code from a block cipher

CMAC for any function `e` on blocks of `w` bits. The message is taken in blocks, each added to what
`e` made of those before it. The last one is filled with a one and zeros unless the message fills
it, and a subkey is added that tells the two cases apart. The subkeys are the products of `e 0` with
`X` and `X ^ 2` modulo `X ^ w + c`.
-/

set_option autoImplicit false

namespace SrsUE.Lib.Cmac

variable {w : Nat} (c : BitVec w) (e : BitVec w → BitVec w)

def subkey1 : BitVec w := Binary.mulX c (e 0)

def subkey2 : BitVec w := Binary.mulX c (subkey1 c e)

/-- The chaining value behind the first `n` blocks. -/
def chain (msg : List Bool) (n : Nat) : BitVec w :=
  (List.range n).foldl (fun t i => e (t ^^^ block w (msg.drop (w * i)))) 0

/-- The last block with its subkey. -/
def lastBlock (l : List Bool) : BitVec w :=
  if l.length = w then block w l ^^^ subkey1 c e else block w (l ++ [true]) ^^^ subkey2 c e

/-- The number of the last block. -/
def lastIndex (w : Nat) (msg : List Bool) : Nat := (msg.length - 1) / w

def tag (msg : List Bool) : BitVec w :=
  e (chain e msg (lastIndex w msg) ^^^ lastBlock c e (msg.drop (w * lastIndex w msg)))

end SrsUE.Lib.Cmac
